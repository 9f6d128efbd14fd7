import GraphQLClient.Decimal.Reading
import Mathlib.Tactic.Ring
import Mathlib.Data.List.Basic
import Mathlib.Data.List.TakeDrop
import Mathlib.Tactic.Linarith

/-!
# Decimal digits

A natural number is written by its decimal digits, and the digits are read back as the number.  A
sequence of digits is known by its length and its number, so a number has one text of every width
that it fits.

## Main definitions

* `Decimal.intValue` : the integer that digits with a sign stand for.

## Main results

* `Decimal.digitsValue_natChars`, `Decimal.intValue_intChars` : numbers are read back.
* `Decimal.digitsValue_lt`, `Decimal.eq_of_digitsValue_eq` : the numbers of sequences of digits.
* `Decimal.takeDigits_append` : the digits at the front of a text.
-/

namespace GraphQLClient.Decimal

/-! ### Single digits -/

theorem isDigit_iff {c : Char} : isDigit c = true ↔ 48 ≤ c.toNat ∧ c.toNat ≤ 57 := by
  rw [isDigit, Bool.and_eq_true, decide_eq_true_eq, decide_eq_true_eq]
  exact Iff.rfl

theorem isDigit_of_isDigit {c : Char} (h : c.isDigit = true) : isDigit c = true := by
  rw [Char.isDigit, Bool.and_eq_true, decide_eq_true_eq, decide_eq_true_eq] at h
  exact isDigit_iff.mpr h

theorem digitValue_digitChar {n : Nat} (h : n < 10) : digitValue n.digitChar = n := by
  rw [digitValue, Nat.toNat_digitChar_of_lt_ten h]
  exact Nat.add_sub_cancel_left 48 n

theorem digitValue_lt {c : Char} (h : isDigit c = true) : digitValue c < 10 := by
  have hc := isDigit_iff.mp h
  change c.toNat - 48 < 10
  omega

/-- A digit is known by its value. -/
theorem eq_of_digitValue_eq {c d : Char} (hc : isDigit c = true) (hd : isDigit d = true)
    (h : digitValue c = digitValue d) : c = d := by
  have hc := isDigit_iff.mp hc
  have hd := isDigit_iff.mp hd
  change c.toNat - 48 = d.toNat - 48 at h
  apply Char.toNat_inj.mp
  omega

/-! ### Sequences of digits -/

theorem digitsValue_append_singleton (digits : List Char) (c : Char) :
    digitsValue (digits ++ [c]) = 10 * digitsValue digits + digitValue c := by
  rw [digitsValue, digitsValue, List.foldl_append, List.foldl_cons, List.foldl_nil]

/-- Digits behind a number shift it by their number of places. -/
theorem foldl_digitValue (digits : List Char) (n : Nat) :
    digits.foldl (fun n c => 10 * n + digitValue c) n =
      n * Nat.pow 10 digits.length + digitsValue digits := by
  induction digits generalizing n with
  | nil => simp [digitsValue]
  | cons c digits ih =>
    have hpow : Nat.pow 10 (digits.length + 1) = 10 * Nat.pow 10 digits.length :=
      Nat.pow_succ'
    rw [digitsValue, List.foldl_cons, List.foldl_cons, ih, ih, List.length_cons, hpow]
    ring_nf

/-- The first digit counts by the number of those behind it. -/
theorem digitsValue_cons (c : Char) (digits : List Char) :
    digitsValue (c :: digits) =
      digitValue c * Nat.pow 10 digits.length + digitsValue digits := by
  rw [digitsValue, List.foldl_cons, foldl_digitValue, Nat.mul_zero, Nat.zero_add]

theorem digitsValue_replicate_zero (k : Nat) (digits : List Char) :
    digitsValue (List.replicate k '0' ++ digits) = digitsValue digits := by
  induction k with
  | zero => rw [List.replicate_zero, List.nil_append]
  | succ k ih =>
    have hzero : digitValue '0' = 0 := rfl
    rw [List.replicate_succ, List.cons_append, digitsValue_cons, hzero, Nat.zero_mul,
      Nat.zero_add, ih]

/-- So many digits have no larger number. -/
theorem digitsValue_lt {digits : List Char} (h : ∀ c ∈ digits, isDigit c = true) :
    digitsValue digits < Nat.pow 10 digits.length := by
  induction digits with
  | nil => exact Nat.one_pos
  | cons c digits ih =>
    obtain ⟨hc, hdigits⟩ := List.forall_mem_cons.mp h
    have hpow : Nat.pow 10 (digits.length + 1) = Nat.pow 10 digits.length * 10 := rfl
    have hlt := digitValue_lt hc
    have hrest := ih hdigits
    rw [digitsValue_cons, List.length_cons, hpow]
    nlinarith

/-- A quotient and a remainder are known by the number that they make. -/
theorem eq_and_eq_of_mul_add_eq {a b x y p : Nat} (hx : x < p) (hy : y < p)
    (h : a * p + x = b * p + y) : a = b ∧ x = y := by
  have hp : 0 < p := by omega
  have hdiv := congrArg (· / p) h
  simp only [Nat.mul_comm _ p, Nat.mul_add_div hp, Nat.div_eq_of_lt hx, Nat.div_eq_of_lt hy] at hdiv
  obtain rfl : a = b := hdiv
  exact ⟨rfl, by omega⟩

/-- Digits are known by their length and their number. -/
theorem eq_of_digitsValue_eq {s t : List Char} (hs : ∀ c ∈ s, isDigit c = true)
    (ht : ∀ c ∈ t, isDigit c = true) (hlength : s.length = t.length)
    (h : digitsValue s = digitsValue t) : s = t := by
  induction s generalizing t with
  | nil => exact (List.length_eq_zero_iff.mp hlength.symm).symm
  | cons c s ih =>
    cases t with
    | nil => simp at hlength
    | cons d t =>
      obtain ⟨hc, hs⟩ := List.forall_mem_cons.mp hs
      obtain ⟨hd, ht⟩ := List.forall_mem_cons.mp ht
      rw [List.length_cons, List.length_cons, Nat.add_right_cancel_iff] at hlength
      rw [digitsValue_cons, digitsValue_cons, ← hlength] at h
      obtain ⟨hfirst, hrest⟩ :=
        eq_and_eq_of_mul_add_eq (digitsValue_lt hs) (hlength ▸ digitsValue_lt ht) h
      rw [eq_of_digitValue_eq hc hd hfirst, ih hs ht hlength hrest]

/-- The digits at the front of a text, where no other digit follows them. -/
theorem takeDigits_append {digits rest : List Char} (h : ∀ c ∈ digits, isDigit c = true)
    (hrest : ∀ c ∈ rest.head?, isDigit c = false) :
    takeDigits (digits ++ rest) = (digits, rest) := by
  rw [takeDigits, List.span_eq_takeWhile_dropWhile, List.takeWhile_append_of_pos h,
    List.dropWhile_append_of_pos h]
  cases rest with
  | nil => simp
  | cons c rest =>
    have hc : isDigit c = false := hrest c rfl
    simp [hc]

/-! ### Natural numbers -/

theorem isDigit_of_mem_natChars {n : Nat} : ∀ c ∈ natChars n, isDigit c = true :=
  fun _ hc => isDigit_of_isDigit (Nat.isDigit_of_mem_toDigits (by decide) (by decide) hc)

theorem natChars_ne_nil (n : Nat) : natChars n ≠ [] :=
  Nat.toDigits_ne_nil

/-- The decimal text of a natural number is read back. -/
theorem digitsValue_natChars (n : Nat) : digitsValue (natChars n) = n := by
  induction n using Nat.strongRecOn with
  | ind n ih =>
    rcases Nat.lt_or_ge n 10 with hn | hn
    · rw [natChars, Nat.toDigits_of_lt_base hn]
      simpa [digitsValue] using digitValue_digitChar hn
    · -- The last digit is the remainder by ten, the others are the digits of the quotient.
      have hlast := Nat.mod_lt n (y := 10) (by omega)
      have hdigits : natChars n = natChars (n / 10) ++ [(n % 10).digitChar] := by
        rw [natChars, natChars, ← Nat.toDigits_of_lt_base hlast,
          Nat.toDigits_append_toDigits (by omega) (by omega) hlast, Nat.div_add_mod]
      rw [hdigits, digitsValue_append_singleton, ih _ (by omega), digitValue_digitChar hlast,
        Nat.div_add_mod]

/-- A number that is not zero does not start with a zero. -/
theorem head?_natChars_ne_zero {n : Nat} (hn : n ≠ 0) : (natChars n).head? ≠ some '0' := by
  induction n using Nat.strongRecOn with
  | ind n ih =>
    rcases Nat.lt_or_ge n 10 with hlt | hge
    · rw [natChars, Nat.toDigits_of_lt_base hlt, List.head?_cons]
      intro h
      have hvalue := digitValue_digitChar hlt
      rw [Option.some.inj h] at hvalue
      exact hn hvalue.symm
    · have hdigits : natChars n = natChars (n / 10) ++ [(n % 10).digitChar] :=
        Nat.toDigits_of_base_le (by decide) hge
      rw [hdigits, List.head?_append_of_ne_nil _ (natChars_ne_nil _)]
      exact ih (n / 10) (by omega) (by omega)

/-! ### Integers -/

/-- The integer written by decimal digits, after a minus sign or not. -/
def intValue : List Char → Int
  | '-' :: digits => -digitsValue digits
  | digits => digitsValue digits

theorem intValue_natChars (n : Nat) : intValue (natChars n) = n := by
  unfold intValue
  split
  · -- A natural number is written by digits only, and a minus sign is none.
    rename_i digits hdigits
    have hdigit := isDigit_of_mem_natChars (n := n) '-' (by rw [hdigits]; exact List.mem_cons_self)
    cases hdigit
  · rw [digitsValue_natChars]

/-- The decimal text of an integer is read back. -/
theorem intValue_intChars (i : Int) : intValue (intChars i) = i := by
  rw [intChars]
  split
  · rw [intValue, digitsValue_natChars]
    omega
  · rw [intValue_natChars]
    omega

end GraphQLClient.Decimal
