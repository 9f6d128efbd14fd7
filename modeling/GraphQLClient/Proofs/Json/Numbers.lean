import GraphQLClient.Json.Source
import Mathlib.Data.List.TakeDrop

/-!
# Scanning numbers

The scanner of a number reads it from the front of a text and leaves the rest.  A number ends where
no digit, point or exponent follows, so a number that has been read is read again wherever it ends,
whatever stands behind it.

## Main definitions

* `Json.Source.EndsNumber` : the texts that may follow a number.

## Main results

* `Json.Source.takeMagnitude?_append` : a number is the same when the text goes on.
-/

namespace GraphQLClient

/-- Characters of a kind at the front of a text stay the same when the text goes on with another
character, or when another character follows them already. -/
theorem span_append {p : Char → Bool} {s : List Char} {x : List Char}
    (h : s.dropWhile p = [] → ∀ c ∈ x.head?, p c = false) :
    (s ++ x).takeWhile p = s.takeWhile p ∧ (s ++ x).dropWhile p = s.dropWhile p ++ x := by
  induction s with
  | nil =>
    cases x with
    | nil => exact ⟨rfl, rfl⟩
    | cons c x =>
      have hc : p c = false := h rfl c rfl
      simp [hc]
  | cons c s ih =>
    by_cases hc : p c = true
    · rw [List.dropWhile_cons_of_pos hc] at h
      obtain ⟨htake, hdrop⟩ := ih h
      simp [hc, htake, hdrop]
    · simp [hc]

namespace Json.Source

/-- The texts that may follow a number: those that do not continue it. -/
def EndsNumber (rest : List Char) : Prop :=
  ∀ c ∈ rest.head?, Decimal.isDigit c = false ∧ c ≠ '.' ∧ c ≠ 'e' ∧ c ≠ 'E'

theorem endsNumber_nil : EndsNumber [] := by
  rintro c ⟨⟩

theorem takeDigits_append (s : List Char) {x : List Char} (hx : EndsNumber x) :
    Decimal.takeDigits (s ++ x) =
      ((Decimal.takeDigits s).1, (Decimal.takeDigits s).2 ++ x) := by
  obtain ⟨htake, hdrop⟩ := span_append (s := s) fun _ c hc => (hx c hc).1
  simp only [Decimal.takeDigits, List.span_eq_takeWhile_dropWhile, htake, hdrop]

theorem length_takeDigits (s : List Char) :
    (Decimal.takeDigits s).1.length + (Decimal.takeDigits s).2.length = s.length := by
  rw [Decimal.takeDigits, List.span_eq_takeWhile_dropWhile, ← List.length_append,
    List.takeWhile_append_dropWhile]

theorem takeWhole_append (s : List Char) {x : List Char} (hx : EndsNumber x) :
    takeWhole (s ++ x) = ((takeWhole s).1, (takeWhole s).2 ++ x) := by
  simp only [takeWhole, takeDigits_append s hx]
  split
  · rw [List.append_assoc]
  · rfl

theorem length_takeWhole (s : List Char) :
    (takeWhole s).1.length + (takeWhole s).2.length = s.length := by
  rw [← length_takeDigits s]
  simp only [takeWhole]
  split
  · next more hmore =>
    rw [hmore]
    simp only [List.length_cons, List.length_append, List.length_nil]
    omega
  · rfl

theorem takeFraction?_append {s r u : List Char} {pointed : Bool}
    (h : takeFraction? s = some (u, pointed, r)) :
    r.length ≤ s.length ∧
      ∀ x, EndsNumber x → takeFraction? (s ++ x) = some (u, pointed, r ++ x) := by
  unfold takeFraction? at h
  split at h
  · next s =>
    simp only at h
    by_cases hdigits : (Decimal.takeDigits s).1.isEmpty = true
    · rw [if_pos hdigits] at h
      cases h
    · rw [if_neg hdigits] at h
      cases h
      have hlength := length_takeDigits s
      refine ⟨by simp only [List.length_cons]; omega, fun x hx => ?_⟩
      simp only [List.cons_append, takeFraction?, takeDigits_append s hx]
      rw [if_neg hdigits]
  · next hpoint =>
    cases h
    refine ⟨Nat.le_refl _, fun x hx => ?_⟩
    unfold takeFraction?
    split
    · next y hy =>
      cases s with
      | nil =>
        rw [List.nil_append] at hy
        exact absurd rfl (hx '.' (by rw [hy]; rfl)).2.1
      | cons c s =>
        cases hy
        exact absurd rfl (hpoint s)
    · rfl

theorem takeExponent?_append {s r : List Char} {e : Option Int}
    (h : takeExponent? s = some (e, r)) :
    r.length ≤ s.length ∧ ∀ x, EndsNumber x → takeExponent? (s ++ x) = some (e, r ++ x) := by
  cases s with
  | nil =>
    cases h
    refine ⟨Nat.le_refl _, fun x hx => ?_⟩
    cases x with
    | nil => rfl
    | cons c x =>
      obtain ⟨-, -, he, hE⟩ := hx c rfl
      simp [takeExponent?, he, hE]
  | cons c s =>
    rw [takeExponent?] at h
    split at h
    · next hc =>
      simp only at h
      split at h
      · cases h
      · next hdigits =>
        cases h
        have hdigitsLength := length_takeDigits (takeSign s).2
        have hsign : (takeSign s).2.length ≤ s.length := by
          unfold takeSign
          split <;> simp
        refine ⟨by rw [List.length_cons]; omega, fun x hx => ?_⟩
        have happend : takeSign (s ++ x) = ((takeSign s).1, (takeSign s).2 ++ x) := by
          cases s with
          | nil => exact absurd rfl hdigits
          | cons d s =>
            unfold takeSign
            split <;> simp_all
        rw [List.cons_append, takeExponent?, if_pos hc]
        simp only [happend, takeDigits_append _ hx]
        rw [if_neg hdigits]
    · next hc =>
      cases h
      refine ⟨Nat.le_refl _, fun x hx => ?_⟩
      rw [List.cons_append, takeExponent?, if_neg hc]

/-- **A number is the same when the text goes on**, unless the text goes on with a part of it. -/
theorem takeMagnitude?_append {negative : Bool} {s r : List Char} {n : NumberText}
    (h : takeMagnitude? negative s = some (n, r)) :
    r.length < s.length ∧
      ∀ x, EndsNumber x → takeMagnitude? negative (s ++ x) = some (n, r ++ x) := by
  have hwhole := length_takeWhole s
  simp only [takeMagnitude?] at h
  split at h
  · cases h
  · next hempty =>
    have hpos : 0 < (takeWhole s).1.length := by
      rw [List.length_pos_iff]
      rintro hnil
      exact hempty (by rw [hnil]; rfl)
    cases hf : takeFraction? (takeWhole s).2 with
    | none => simp [hf] at h
    | some p =>
      obtain ⟨fraction, pointed, r₁⟩ := p
      simp only [hf, Option.map_eq_some_iff] at h
      obtain ⟨⟨exponent, r₂⟩, he, hr⟩ := h
      cases hr
      obtain ⟨hfraction, hfractionAppend⟩ := takeFraction?_append hf
      obtain ⟨hexponent, hexponentAppend⟩ := takeExponent?_append he
      refine ⟨show r₂.length < s.length by omega, fun x hx => ?_⟩
      simp only [takeMagnitude?, takeWhole_append s hx, hfractionAppend x hx,
        hexponentAppend x hx, Option.map_some]
      rw [if_neg hempty]

/-- A number without its sign starts with a digit. -/
theorem exists_isDigit_of_takeMagnitude? {negative : Bool} {s : List Char}
    {x : NumberText × List Char} (h : takeMagnitude? negative s = some x) :
    ∃ c r, s = c :: r ∧ Decimal.isDigit c = true := by
  cases s with
  | nil => cases h
  | cons c r =>
    refine ⟨c, r, rfl, ?_⟩
    by_contra hc
    have hdigits : Decimal.takeDigits (c :: r) = ([], c :: r) := by
      rw [Decimal.takeDigits, List.span_eq_takeWhile_dropWhile, List.takeWhile_cons_of_neg hc,
        List.dropWhile_cons_of_neg hc]
    simp [takeMagnitude?, takeWhole, hdigits] at h

end Json.Source

end GraphQLClient
