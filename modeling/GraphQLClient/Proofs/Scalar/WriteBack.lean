import GraphQLClient.Scalar

/-!
# Writing what was read

The codec of a built-in scalar writes a value that it has read as JSON that it reads as the same
value.  A floating-point scalar reads integers too, and the number nearest to an integer of 64 bits
is finite, so it can be written.  The exception are integers: they are read with 64 bits and written
with 32.

## Main results

* `Binary64.exists_ofRatio_eq_finite` : quotients that are rounded to a finite number.
* `Scalar.serialize_of_parse_iff` : the values that are written back.
-/

namespace GraphQLClient

/-! ### Numbers in range -/

namespace Binary64

theorem lastPower_le (num den : Nat) :
    lastPower num den ≤ max (-1074) (Nat.log2 num - Nat.log2 den - 52 : Int) := by
  simp only [lastPower]
  split <;> split <;> omega

/-- A quotient is rounded to a finite number if its terms are less than 1023 digits of base two
apart. -/
theorem exists_ofRatio_eq_finite (negative : Bool) {num den : Nat}
    (h : Nat.log2 num < Nat.log2 den + 1023) : ∃ x, ofRatio negative num den = .finite x := by
  have hpower := lastPower_le num den
  -- Whatever the digits are, the exponent that goes with them is in range.
  have hexponent (m : Nat) :
      (if m < 0x10000000000000 then 0
        else if m < 0x20000000000000 then (lastPower num den + 1075).toNat
        else (lastPower num den + 1076).toNat) < 2047 := by
    split
    · decide
    · split <;> omega
  simp only [ofRatio]
  split
  · exact ⟨_, rfl⟩
  · exact ⟨_, dif_pos (hexponent _)⟩

/-- An integer of 64 bits, with a sign or without, is rounded to a finite number. -/
theorem exists_ofInt_eq_finite {i : Int}
    (h : -0x8000000000000000 ≤ i ∧ i < 0x10000000000000000) : ∃ x, ofInt i = .finite x := by
  apply exists_ofRatio_eq_finite
  have hlog : Nat.log2 i.natAbs < 64 := by
    by_cases hzero : i.natAbs = 0
    · rw [hzero]
      decide
    · rw [Nat.log2_lt hzero]
      omega
  omega

end Binary64

namespace Scalar

/-! ### The values of a codec -/

/-- The values that the codec of a built-in scalar may read. -/
inductive Holds : Scalar → Value → Prop where
  | int (i : Int64) : Holds .int (.int i)
  | float (x : Finite64) : Holds .float (.float (.finite x))
  | string (s : String) : Holds .string (.string s)
  | boolean (b : Bool) : Holds .boolean (.boolean b)
  | id (s : String) : Holds .id (.string s)

/-- What the codec of a built-in scalar reads is one of its values. -/
theorem holds_of_parse {s : Scalar} (hs : s ∈ Scalars.builtin.map Prod.snd) {j : Json} {v : Value}
    (h : s.parse j = .ok v) : s.Holds v := by
  have hcases : s = .int ∨ s = .float ∨ s = .string ∨ s = .boolean ∨ s = .id := by
    simpa [Scalars.builtin] using hs
  obtain rfl | rfl | rfl | rfl | rfl := hcases
  · rcases j with _ | _ | (⟨i, hi⟩ | _) | _ | _ | _ <;> simp only [parse, reduceCtorEq] at h
    split at h
    · cases h
      exact .int (Int64.ofInt i)
    · cases h
  · rcases j with _ | _ | (⟨i, hi⟩ | x) | _ | _ | _ <;> simp only [parse, reduceCtorEq] at h
    · obtain ⟨x, hx⟩ := Binary64.exists_ofInt_eq_finite hi
      rw [Json.Number.toBinary64, hx] at h
      cases h
      exact .float x
    · cases h
      exact .float x
  · cases j <;> simp only [parse, reduceCtorEq] at h
    cases h
    exact .string _
  · cases j <;> simp only [parse, reduceCtorEq] at h
    cases h
    exact .boolean _
  · rcases j with _ | _ | (⟨i, hi⟩ | _) | s | _ | _ <;> simp only [parse, reduceCtorEq] at h
    · split at h
      · cases h
        exact .id _
      · cases h
    · cases h
      exact .id s

/-- An integer is read back where it is written. -/
theorem parse_ofInt64 (i : Int64) : int.parse (.ofInt64 i) = .ok (.int i) := by
  rw [Json.ofInt64, parse, if_pos (show i.toInt < 0x8000000000000000 from i.toInt_lt),
    Int64.ofInt_toInt]

/-- A value of a built-in scalar is written as JSON that is read as the value, unless it is an
integer that does not fit 32 bits. -/
theorem Holds.exists_serialize_iff {s : Scalar} {v : Value} (h : s.Holds v) :
    (∃ j, s.serialize v = .ok j ∧ s.parse j = .ok v) ↔
      ∀ i, s = .int → v = .int i → fits32 i = true := by
  cases h with
  | int i =>
    constructor
    · rintro ⟨j, hj, -⟩ _ - ⟨⟩
      rw [serialize] at hj
      split at hj
      · assumption
      · cases hj
    · intro hfits
      exact ⟨.ofInt64 i, by rw [serialize, if_pos (hfits i rfl rfl)], parse_ofInt64 i⟩
  | float x => exact iff_of_true ⟨_, rfl, rfl⟩ (by rintro _ ⟨⟩)
  | string s => exact iff_of_true ⟨_, rfl, rfl⟩ (by rintro _ ⟨⟩)
  | boolean b => exact iff_of_true ⟨_, rfl, rfl⟩ (by rintro _ ⟨⟩)
  | id s => exact iff_of_true ⟨_, rfl, rfl⟩ (by rintro _ ⟨⟩)

/-! ### What was read -/

/-- **Writing what was read.** A value that the codec of a built-in scalar has read is written as
JSON that is read as the value again, exactly if it is no integer outside of 32 bits. -/
theorem serialize_of_parse_iff {s : Scalar} (hs : s ∈ Scalars.builtin.map Prod.snd) {j : Json}
    {v : Value} (h : s.parse j = .ok v) :
    (∃ j', s.serialize v = .ok j' ∧ s.parse j' = .ok v) ↔
      ∀ i, s = .int → v = .int i → fits32 i = true :=
  (holds_of_parse hs h).exists_serialize_iff

/-- The largest integer of 64 bits as a JSON value. -/
def largestWord : Json :=
  .number (.int 0xffffffffffffffff (by decide))

theorem serialize_of_parse_largestWord :
    float ∈ Scalars.builtin.map Prod.snd ∧
      float.parse largestWord = .ok (.float (.finite ⟨false, 1087, 0⟩)) ∧
      ∃ j, float.serialize (.float (.finite ⟨false, 1087, 0⟩)) = .ok j ∧
        float.parse j = .ok (.float (.finite ⟨false, 1087, 0⟩)) := by
  have hs : float ∈ Scalars.builtin.map Prod.snd := by simp [Scalars.builtin]
  have hread : float.parse largestWord = .ok (.float (.finite ⟨false, 1087, 0⟩)) := rfl
  exact ⟨hs, hread, (serialize_of_parse_iff hs hread).mpr (by rintro _ ⟨⟩)⟩

/-- An integer of 33 bits is read, and refused when it is to be written. -/
theorem serialize_wideInt :
    int.parse (.number (.int 0x80000000 (by decide))) = .ok (.int 0x80000000) ∧
      int.serialize (.int 0x80000000) = .error (.tooWide 0x80000000) :=
  ⟨rfl, rfl⟩

end Scalar

end GraphQLClient
