import GraphQLClient.Proofs.Decimal.Digits

/-!
# The texts of numbers

A document has two kinds of number literals.  Its grammar asks for an integer part without
superfluous zeros, and for a fraction or an exponent with at least one digit where the literal is a
floating-point number.  Integers and finite floating-point numbers are written in that grammar, with
or without an exponent.

The digits of a number are the shortest that read back as the number.  They are known to be digits,
and all that remains is to see that no zero stands in front of others: the number zero has the one
digit and no exponent, and every other number has a first digit that is no zero.

## Main definitions

* `Literal.IsIntValue`, `Literal.IsFloatValue` : the grammar of number literals.

## Main results

* `Decimal.digits_ne_zero_of_onGrid?` : a decimal that is found for a number is not zero.
* `Literal.isIntValue_intChars` : the text of an integer.
* `Literal.isFloatValue_write` : the text of a finite floating-point number.
-/

namespace GraphQLClient

/-! ### The digits that are written -/

namespace Decimal

variable {tie : Tie} {x : Finite64}

/-- The interval of reals that round to a number other than zero has positive ends, so a decimal
that lies in it is not zero. -/
theorem digits_ne_zero_of_onGrid? {grid : Int} {d : Decimal} (hx : x.significand ≠ 0)
    (h : onGrid? tie x grid = some d) : d.digits ≠ 0 := by
  unfold onGrid? at h
  obtain ⟨p, q, hpq, hq⟩ : ∃ p q : Nat, (if 0 ≤ grid then (Nat.pow 10 grid.toNat, 1)
      else (1, Nat.pow 10 (-grid).toNat)) = (p, q) ∧ 0 < q := by
    split
    · exact ⟨_, _, rfl, Nat.one_pos⟩
    · exact ⟨_, _, rfl, Nat.pow_pos (by decide)⟩
  obtain ⟨s, t, hst, hs⟩ : ∃ s t : Nat, (if 0 ≤ x.power - 2 then (Nat.pow 2 (x.power - 2).toNat, 1)
      else (1, Nat.pow 2 (-(x.power - 2)).toNat)) = (s, t) ∧ 0 < s := by
    split
    · exact ⟨_, _, rfl, Nat.pow_pos (by decide)⟩
    · exact ⟨_, _, rfl, Nat.one_pos⟩
  -- The lower end of the interval is positive, so that zero lies below it.
  have hlow : 0 < (4 * x.significand - if x.isBoundary = true then 1 else 2) * s * q := by
    have hfactor : 0 < 4 * x.significand - if x.isBoundary = true then 1 else 2 := by
      split <;> omega
    exact Nat.mul_pos (Nat.mul_pos hfactor hs) hq
  simp only [hpq, hst] at h
  generalize (4 * x.significand - if x.isBoundary = true then 1 else 2) * s * q = low at h hlow
  generalize 4 * x.significand * s * q / (p * t) = below at h
  by_cases hzero : below = 0
  · -- The point below the number is zero, so the decimal is the one above it.
    subst hzero
    have hbelow : ¬ (if (x.significand % 2 == 0) = true then low ≤ 0 * (p * t)
        else low < 0 * (p * t)) := by
      split <;> omega
    rw [decide_eq_false hbelow, Bool.false_and, if_neg Bool.false_ne_true, if_neg hbelow] at h
    obtain ⟨-, hd⟩ := Option.ite_none_right_eq_some.mp h
    obtain rfl := Option.some.inj hd
    exact Nat.one_ne_zero
  · have hdigits : d.digits = below ∨ d.digits = below + 1 := by grind
    omega

theorem digits_ne_zero_of_searchGrids (tie : Tie) (leading : Int) (steps n : Nat)
    (hx : x.significand ≠ 0) :
    (searchGrids tie x leading steps n).digits ≠ 0 ∨
      searchGrids tie x leading steps n = ⟨0, 0⟩ := by
  induction steps generalizing n with
  | zero => exact .inr rfl
  | succ steps ih =>
    rw [searchGrids]
    split
    · next d hd => exact .inl (digits_ne_zero_of_onGrid? hx hd)
    · exact ih (n + 1)

theorem dropZeros_of_digits_eq_zero {d : Decimal} (h : d.digits = 0) (steps : Nat) :
    dropZeros steps d = d := by
  cases steps with
  | zero => rfl
  | succ steps => rw [dropZeros, if_neg (fun hd => hd.1 h)]

theorem digits_dropZeros_ne_zero {d : Decimal} (h : d.digits ≠ 0) (steps : Nat) :
    (dropZeros steps d).digits ≠ 0 := by
  induction steps generalizing d with
  | zero => exact h
  | succ steps ih =>
    rw [dropZeros]
    split
    · next hd =>
      have hquotient : d.digits / 10 ≠ 0 := by omega
      exact ih hquotient
    · exact h

/-- A shortest decimal without digits is zero itself. -/
theorem exponent_shortest_eq_zero (h : (shortest tie x).digits = 0) :
    (shortest tie x).exponent = 0 := by
  unfold shortest at h ⊢
  split at h
  · next hx => rw [if_pos hx]
  · next hx =>
    rw [if_neg hx]
    rcases digits_ne_zero_of_searchGrids tie (leadingExponent x) 18 0 hx with hdigits | hzero
    · exact absurd h (digits_dropZeros_ne_zero hdigits 400)
    · rw [hzero, dropZeros_of_digits_eq_zero rfl]

end Decimal

/-! ### The grammar of numbers -/

namespace Literal

open Decimal (isDigit natChars intChars)

/-- Digits, at least one. -/
def IsDigits (s : List Char) : Prop :=
  s ≠ [] ∧ ∀ c ∈ s, isDigit c = true

/-- The digits of a whole number: one zero, or digits of which the first is no zero. -/
def IsWhole (s : List Char) : Prop :=
  s = ['0'] ∨ IsDigits s ∧ s.head? ≠ some '0'

/-- `IntegerPart`: the digits of a whole number, after a minus sign or not. -/
def IsIntegerPart (s : List Char) : Prop :=
  ∃ sign digits, s = sign ++ digits ∧ (sign = [] ∨ sign = ['-']) ∧ IsWhole digits

/-- `FractionalPart`: a point and digits. -/
def IsFractionalPart (s : List Char) : Prop :=
  ∃ digits, s = '.' :: digits ∧ IsDigits digits

/-- `ExponentPart`: a letter, a sign or none, and digits. -/
def IsExponentPart (s : List Char) : Prop :=
  ∃ letter sign digits, s = letter :: (sign ++ digits) ∧ (letter = 'e' ∨ letter = 'E') ∧
    (sign = [] ∨ sign = ['+'] ∨ sign = ['-']) ∧ IsDigits digits

/-- `IntValue`: the texts of integers. -/
def IsIntValue (s : List Char) : Prop :=
  IsIntegerPart s

/-- `FloatValue`: the texts of floating-point numbers.  A fraction or an exponent follows the
integer part, or both do. -/
inductive IsFloatValue : List Char → Prop
  | fraction {whole fraction : List Char} (hwhole : IsIntegerPart whole)
      (hfraction : IsFractionalPart fraction) : IsFloatValue (whole ++ fraction)
  | exponent {whole exponent : List Char} (hwhole : IsIntegerPart whole)
      (hexponent : IsExponentPart exponent) : IsFloatValue (whole ++ exponent)
  | both {whole fraction exponent : List Char} (hwhole : IsIntegerPart whole)
      (hfraction : IsFractionalPart fraction) (hexponent : IsExponentPart exponent) :
      IsFloatValue (whole ++ fraction ++ exponent)

/-! ### Digits -/

variable {s t : List Char}

theorem IsDigits.append (hs : IsDigits s) (ht : ∀ c ∈ t, isDigit c = true) : IsDigits (s ++ t) :=
  ⟨List.append_ne_nil_of_left_ne_nil hs.1 t, List.forall_mem_append.mpr ⟨hs.2, ht⟩⟩

theorem IsDigits.take {n : Nat} (h : IsDigits s) (hn : 0 < n) : IsDigits (s.take n) :=
  ⟨fun hnil => (List.take_eq_nil_iff.mp hnil).elim (by omega) h.1,
    fun c hc => h.2 c (List.mem_of_mem_take hc)⟩

theorem IsDigits.drop {n : Nat} (h : IsDigits s) (hn : n < s.length) : IsDigits (s.drop n) :=
  ⟨fun hnil => Nat.not_le_of_lt hn (List.drop_eq_nil_iff.mp hnil),
    fun c hc => h.2 c (List.mem_of_mem_drop hc)⟩

theorem isDigit_of_mem_replicate_zero (n : Nat) : ∀ c ∈ List.replicate n '0', isDigit c = true := by
  intro c hc
  rw [List.eq_of_mem_replicate hc]
  rfl

theorem isDigits_zero : IsDigits ['0'] :=
  ⟨List.cons_ne_nil _ _, List.forall_mem_singleton.mpr rfl⟩

theorem isDigits_natChars (n : Nat) : IsDigits (natChars n) :=
  ⟨Decimal.natChars_ne_nil n, Decimal.isDigit_of_mem_natChars⟩

theorem isWhole_natChars (n : Nat) : IsWhole (natChars n) := by
  by_cases hn : n = 0
  · subst hn
    exact .inl rfl
  · exact .inr ⟨isDigits_natChars n, Decimal.head?_natChars_ne_zero hn⟩

/-- The text of an integer is an integer literal. -/
theorem isIntValue_intChars (i : Int) : IsIntValue (intChars i) := by
  rw [intChars]
  split
  · exact ⟨['-'], natChars i.natAbs, rfl, .inr rfl, isWhole_natChars _⟩
  · exact ⟨[], natChars i.natAbs, rfl, .inl rfl, isWhole_natChars _⟩

/-! ### Layouts -/

theorem IsWhole.isDigits (h : IsWhole s) : IsDigits s := by
  rcases h with rfl | ⟨h, -⟩
  · exact isDigits_zero
  · exact h

/-- The front of a whole number is a whole number. -/
theorem IsWhole.take {n : Nat} (h : IsWhole s) (hn : 0 < n) : IsWhole (s.take n) := by
  rcases h with rfl | ⟨hs, hzero⟩
  · exact .inl (List.take_of_length_le hn)
  · refine .inr ⟨hs.take hn, ?_⟩
    rwa [List.head?_take, if_neg (Nat.pos_iff_ne_zero.mp hn)]

/-- Zeros behind a whole number other than zero make a whole number. -/
theorem IsWhole.append_zeros (h : IsWhole s) {n : Nat} (hn : s = ['0'] → n = 0) :
    IsWhole (s ++ List.replicate n '0') := by
  rcases h with rfl | ⟨hs, hzero⟩
  · rw [hn rfl, List.replicate_zero, List.append_nil]
    exact .inl rfl
  · refine .inr ⟨hs.append (isDigit_of_mem_replicate_zero n), ?_⟩
    rwa [List.head?_append_of_ne_nil _ hs.1]

/-- Digits with a decimal point among them are a float literal, unless zeros follow a zero. -/
theorem isFloatValue_positionalChars {sign digits : List Char} {point : Int}
    (hsign : sign = [] ∨ sign = ['-']) (hdigits : IsWhole digits)
    (hpoint : digits = ['0'] → point ≤ 1) :
    IsFloatValue (sign ++ Decimal.positionalChars true digits point) := by
  unfold Decimal.positionalChars
  split
  · next hle =>
    have hfraction : IsDigits (List.replicate (-point).toNat '0' ++ digits) :=
      ⟨List.append_ne_nil_of_right_ne_nil _ hdigits.isDigits.1,
        List.forall_mem_append.mpr ⟨isDigit_of_mem_replicate_zero _, hdigits.isDigits.2⟩⟩
    have hwhole : IsIntegerPart (sign ++ ['0']) := ⟨sign, ['0'], rfl, hsign, .inl rfl⟩
    simpa using IsFloatValue.fraction hwhole ⟨_, rfl, hfraction⟩
  · next hpos =>
    simp only
    split
    · next hlt =>
      have hfraction := hdigits.isDigits.drop hlt
      have hwhole : IsIntegerPart (sign ++ digits.take point.toNat) :=
        ⟨sign, _, rfl, hsign, hdigits.take (by omega)⟩
      simpa using IsFloatValue.fraction hwhole ⟨_, rfl, hfraction⟩
    · have hzeros : digits = ['0'] → point.toNat - digits.length = 0 := by
        intro hzero
        have hle := hpoint hzero
        rw [hzero, List.length_singleton]
        omega
      have hwhole : IsIntegerPart
          (sign ++ (digits ++ List.replicate (point.toNat - digits.length) '0')) :=
        ⟨sign, _, rfl, hsign, hdigits.append_zeros hzeros⟩
      have hfraction : IsFractionalPart ['.', '0'] := ⟨['0'], rfl, isDigits_zero⟩
      simpa using IsFloatValue.fraction hwhole hfraction

/-- The exponent behind the digits of a number. -/
theorem isExponentPart_intChars (plus : Bool) (exponent : Int) :
    IsExponentPart
      ('e' :: ((if plus && 0 ≤ exponent then ['+'] else []) ++ intChars exponent)) := by
  by_cases hneg : exponent < 0
  · have hplus : ¬ (plus && decide (0 ≤ exponent)) = true := by simp [hneg]
    rw [intChars, if_neg hplus, if_pos hneg]
    exact ⟨'e', ['-'], _, rfl, .inl rfl, .inr (.inr rfl), isDigits_natChars _⟩
  · rw [intChars, if_neg hneg]
    refine ⟨'e', _, _, rfl, .inl rfl, ?_, isDigits_natChars _⟩
    split
    · exact .inr (.inl rfl)
    · exact .inl rfl

/-- Digits with an exponent are a float literal. -/
theorem isFloatValue_exponentChars {sign digits : List Char} (hsign : sign = [] ∨ sign = ['-'])
    (hdigits : IsWhole digits) (plus : Bool) (exponent : Int) :
    IsFloatValue (sign ++ Decimal.exponentChars plus digits exponent) := by
  have hwhole : IsIntegerPart (sign ++ digits.take 1) :=
    ⟨sign, _, rfl, hsign, hdigits.take Nat.one_pos⟩
  have hexponent := isExponentPart_intChars plus exponent
  unfold Decimal.exponentChars
  split
  · simpa using IsFloatValue.exponent hwhole hexponent
  · next hlength =>
    have hfraction := hdigits.isDigits.drop (Nat.lt_of_not_le hlength)
    simpa using IsFloatValue.both hwhole ⟨_, rfl, hfraction⟩ hexponent

/-- The text of a decimal is a float literal, if zero is written without an exponent. -/
theorem isFloatValue_layOut {layout : Decimal.Layout} (hlayout : layout.pointZero = true)
    {sign : List Char} (hsign : sign = [] ∨ sign = ['-']) {d : Decimal}
    (hd : d.digits = 0 → d.exponent = 0) : IsFloatValue (sign ++ Decimal.layOut layout d) := by
  have hdigits := isWhole_natChars d.digits
  have hpoint : natChars d.digits = ['0'] → d.exponent + (natChars d.digits).length ≤ 1 := by
    intro hzero
    have hvalue := Decimal.digitsValue_natChars d.digits
    rw [hzero] at hvalue
    rw [hd hvalue.symm, hzero]
    decide
  unfold Decimal.layOut
  rw [hlayout]
  simp only
  split_ifs
  · exact isFloatValue_positionalChars hsign hdigits hpoint
  · exact isFloatValue_exponentChars hsign hdigits layout.plus _

/-- The text of a finite number is a float literal in every layout that ends integral numbers in
`.0`. -/
theorem isFloatValue_write {layout : Decimal.Layout} (hlayout : layout.pointZero = true)
    (x : Finite64) : IsFloatValue (Decimal.write layout x) := by
  have hsign : (if x.negative then ['-'] else []) = [] ∨
      (if x.negative then ['-'] else []) = ['-'] := by
    cases x.negative <;> simp
  unfold Decimal.write
  generalize (if x.negative then ['-'] else []) = sign at hsign ⊢
  rw [hlayout, if_pos rfl]
  split
  · have hzero : IsFloatValue (sign ++ Decimal.positionalChars true ['0'] 1) :=
      isFloatValue_positionalChars hsign (.inl rfl) (fun _ => le_rfl)
    exact hzero
  · exact isFloatValue_layOut hlayout hsign Decimal.exponent_shortest_eq_zero

end Literal

end GraphQLClient
