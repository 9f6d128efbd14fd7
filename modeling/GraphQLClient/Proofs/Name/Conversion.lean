import GraphQLClient.Name
import Mathlib

/-!
# Converting names there and back

A name that is not reserved has at most one leading underscore, and both conversions leave it where
it is.  Behind it, a name whose words are told apart by capitals only has the same wire form as
before, and its accessor form is a fixed point: the wire form of the accessor may have lost some
capitals, those inside a run, but it has the same accessor.

## Main results

* `Name.toWireChars_append`, `Name.toAccessorChars_append` : the conversions behind the leading
  underscore.
* `Name.toWireChars_of_notMem` : names that are in their wire form.
* `Name.toAccessorChars_toWireChars_toAccessorChars` : accessors that are given back.
-/

namespace GraphQLClient.Name

/-! ### Letters -/

theorem isCapital_eq_isUpper (c : Char) : isCapital c = c.isUpper := by
  rw [isCapital, Char.isUpper, Bool.decide_and]
  rfl

theorem isSmall_eq_isLower (c : Char) : isSmall c = c.isLower := rfl

theorem toLower_eq_self {c : Char} (h : isCapital c = false) : c.toLower = c := by
  rw [isCapital_eq_isUpper] at h
  exact Char.toLower_eq_of_not_isUpper (by simp [h])

theorem isCapital_toLower (c : Char) : isCapital c.toLower = false := by
  rw [isCapital_eq_isUpper, Char.isUpper_toLower_eq_false]

theorem isSmall_toLower {c : Char} (h : isCapital c = true) : isSmall c.toLower = true := by
  rw [isCapital_eq_isUpper] at h
  rw [isSmall_eq_isLower, Char.isLower_toLower_eq_isAlpha, Char.isAlpha, h, Bool.true_or]

theorem isCapital_eq_false_of_isSmall {c : Char} (h : isSmall c = true) : isCapital c = false := by
  rw [isCapital_eq_isUpper]
  exact Bool.eq_false_iff.mpr (Char.not_isUpper_of_isLower h)

theorem isCapital_eq_false_of_isDigit {c : Char} (h : isDigit c = true) : isCapital c = false := by
  simp only [isDigit, isCapital, Bool.and_eq_true, decide_eq_true_eq, Bool.and_eq_false_iff,
    decide_eq_false_iff_not, Char.le_def, UInt32.le_iff_toNat_le] at h ⊢
  exact .inl fun hA => absurd (hA.trans h.2) (by decide)

theorem uppercase_of_isSmall {c : Char} (h : isSmall c = true) :
    Text.uppercase c = [c.toUpper] := by
  refine Text.uppercase_of_ascii ?_
  simp only [isSmall, Bool.and_eq_true, decide_eq_true_eq, Char.le_def, UInt32.le_iff_toNat_le] at h
  exact lt_of_le_of_lt h.2 (by decide)

theorem uppercase_toLower {c : Char} (h : isCapital c = true) : Text.uppercase c.toLower = [c] := by
  rw [uppercase_of_isSmall (isSmall_toLower h), Char.toUpper_toLower_eq_toUpper,
    Char.toUpper_eq_of_not_isLower]
  rw [isCapital_eq_isUpper] at h
  exact Char.not_isLower_of_isUpper h

theorem toLower_ne_underscore {c : Char} (h : c ≠ '_') : c.toLower ≠ '_' := by
  intro hlower
  by_cases hc : isCapital c = true
  · have hsmall := isSmall_toLower hc
    rw [hlower] at hsmall
    simp [isSmall] at hsmall
  · rw [toLower_eq_self (Bool.eq_false_iff.mpr hc)] at hlower
    exact h hlower

/-! ### Leading underscores -/

/-- A name that is not reserved has at most one leading underscore. -/
theorem exists_eq_append_of_not_reserved {s : List Char} (h : isReservedChars s = false) :
    ∃ leading body, s = leading ++ body ∧ (leading = [] ∨ leading = ['_']) ∧
      body.head? ≠ some '_' := by
  rcases s with _ | ⟨c, rest⟩
  · exact ⟨[], [], rfl, .inl rfl, by simp⟩
  · by_cases hc : c = '_'
    · subst hc
      refine ⟨['_'], rest, rfl, .inr rfl, fun hrest => ?_⟩
      obtain ⟨tail, rfl⟩ := List.head?_eq_some_iff.mp hrest
      simp [isReservedChars] at h
    · exact ⟨[], c :: rest, rfl, .inl rfl, by simpa using hc⟩

section

variable {leading body : List Char}

theorem isReservedChars_append (hleading : leading = [] ∨ leading = ['_'])
    (hbody : body.head? ≠ some '_') : isReservedChars (leading ++ body) = false := by
  rcases body with _ | ⟨c, rest⟩
  · obtain rfl | rfl := hleading <;> rfl
  · have hc : c ≠ '_' := fun hc => hbody (congrArg some hc)
    obtain rfl | rfl := hleading <;> simp [isReservedChars, hc]

theorem takeWhile_append (hleading : leading = [] ∨ leading = ['_'])
    (hbody : body.head? ≠ some '_') : (leading ++ body).takeWhile (· = '_') = leading := by
  rcases body with _ | ⟨c, rest⟩
  · obtain rfl | rfl := hleading <;> rfl
  · have hc : c ≠ '_' := fun hc => hbody (congrArg some hc)
    obtain rfl | rfl := hleading <;> simp [hc]

theorem dropWhile_append (hleading : leading = [] ∨ leading = ['_'])
    (hbody : body.head? ≠ some '_') : (leading ++ body).dropWhile (· = '_') = body := by
  rcases body with _ | ⟨c, rest⟩
  · obtain rfl | rfl := hleading <;> rfl
  · have hc : c ≠ '_' := fun hc => hbody (congrArg some hc)
    obtain rfl | rfl := hleading <;> simp [hc]

/-- The wire form leaves a leading underscore where it is. -/
theorem toWireChars_append (hleading : leading = [] ∨ leading = ['_'])
    (hbody : body.head? ≠ some '_') :
    toWireChars (leading ++ body) = leading ++ wireWords false body := by
  rw [toWireChars, isReservedChars_append hleading hbody, takeWhile_append hleading hbody,
    dropWhile_append hleading hbody]
  rfl

/-- The accessor form leaves a leading underscore where it is. -/
theorem toAccessorChars_append (hleading : leading = [] ∨ leading = ['_'])
    (hbody : body.head? ≠ some '_') :
    toAccessorChars (leading ++ body) = leading ++ accessorWords none body := by
  rw [toAccessorChars, isReservedChars_append hleading hbody, takeWhile_append hleading hbody,
    dropWhile_append hleading hbody]
  rfl

end

/-! ### Characters of one word -/

theorem wireWords_false_cons {c : Char} (hc : c ≠ '_') (rest : List Char) :
    wireWords false (c :: rest) = c :: wireWords false rest := by
  rw [wireWords]
  simpa using hc

theorem wireWords_true_cons {c : Char} (hc : c ≠ '_') (rest : List Char) :
    wireWords true (c :: rest) = Text.uppercase c ++ wireWords false rest := by
  rw [wireWords]
  simpa using hc

/-- Characters before the first underscore are in their wire form. -/
theorem wireWords_append {word : List Char} (hword : '_' ∉ word) (rest : List Char) :
    wireWords false (word ++ rest) = word ++ wireWords false rest := by
  induction word with
  | nil => rfl
  | cons c word ih =>
    rw [List.mem_cons, not_or] at hword
    rw [List.cons_append, wireWords_false_cons (Ne.symm hword.1), ih hword.2, List.cons_append]

/-- A name without underscores but the leading ones is its own wire form. -/
theorem toWireChars_of_notMem {s : List Char} (hs : '_' ∉ s.dropWhile (· = '_')) :
    toWireChars s = s := by
  by_cases h : isReservedChars s = true
  · rw [toWireChars, if_pos h]
  · obtain ⟨leading, body, rfl, hleading, hbody⟩ :=
      exists_eq_append_of_not_reserved (Bool.eq_false_iff.mpr h)
    rw [dropWhile_append hleading hbody] at hs
    have hwords := wireWords_append hs []
    rw [List.append_nil, wireWords, List.append_nil] at hwords
    rw [toWireChars_append hleading hbody, hwords]

/-! ### Accessors that are given back -/

/-- Before a capital that starts a word, another spelling of the characters around it may turn the
character before into its small letter, and keep that a small letter follows. -/
theorem startsWord_of_startsWord {before before' : Option Char}
    (hbefore : before' = before ∨ before' = before.map Char.toLower) {c : Char}
    {after after' : Option Char} (hafter : after.any isSmall = true → after'.any isSmall = true)
    (h : startsWord before c after = true) : startsWord before' c after' = true := by
  rcases before with _ | b
  · simp [startsWord] at h
  · simp only [startsWord, Bool.and_eq_true, Bool.or_eq_true] at h
    obtain ⟨hc, hb⟩ := h
    obtain rfl | rfl := hbefore
    · simp only [startsWord, Bool.and_eq_true, Bool.or_eq_true]
      exact ⟨hc, hb.imp_right fun hb => ⟨hb.1, hafter hb.2⟩⟩
    · simp only [Option.map_some, startsWord, Bool.and_eq_true, Bool.or_eq_true]
      refine ⟨hc, .inl ?_⟩
      obtain (hb | hb) | ⟨hb, -⟩ := hb
      · exact .inl (by rwa [toLower_eq_self (isCapital_eq_false_of_isSmall hb)])
      · exact .inr (by rwa [toLower_eq_self (isCapital_eq_false_of_isDigit hb)])
      · exact .inl (isSmall_toLower hb)

theorem startsWord_eq_false {c : Char} (hc : isCapital c = false) (before after : Option Char) :
    startsWord before c after = false := by
  cases before <;> simp [startsWord, hc]

theorem isCapital_of_startsWord {before after : Option Char} {c : Char}
    (h : startsWord before c after = true) : isCapital c = true := by
  by_contra hc
  rw [startsWord_eq_false (Bool.eq_false_iff.mpr hc)] at h
  cases h

/-- In the wire form of an accessor a capital is kept if it starts a word, and small if it does
not. -/
theorem wireWords_accessorWords_cons {c : Char} (hc : c ≠ '_') (before : Option Char)
    (rest : List Char) :
    wireWords false (accessorWords before (c :: rest)) =
      (if startsWord before c rest.head? then c else c.toLower) ::
        wireWords false (accessorWords (some c) rest) := by
  have hlower : c.toLower ≠ '_' := toLower_ne_underscore hc
  by_cases hstart : startsWord before c rest.head? = true
  · rw [accessorWords, if_pos hstart, if_pos hstart, wireWords, wireWords_true_cons hlower,
      uppercase_toLower (isCapital_of_startsWord hstart), List.singleton_append]
  · rw [accessorWords, if_neg hstart, if_neg hstart, wireWords_false_cons hlower]

/-- A small letter that comes next is kept. -/
theorem head?_wireWords_accessorWords {before : Option Char} {s : List Char}
    (h : s.head?.any isSmall = true) :
    (wireWords false (accessorWords before s)).head?.any isSmall = true := by
  rcases s with _ | ⟨c, rest⟩
  · simp at h
  · have hsmall : isSmall c = true := h
    have hc : c ≠ '_' := by
      rintro rfl
      simp [isSmall] at hsmall
    rw [wireWords_accessorWords_cons hc, toLower_eq_self (isCapital_eq_false_of_isSmall hsmall),
      ite_self]
    exact hsmall

/-- The wire form of an accessor has capitals where its words start and nowhere else, and these are
the places where the words of the name that the accessor comes from start. -/
theorem accessorWords_wireWords_accessorWords {s : List Char} (hs : '_' ∉ s)
    {before before' : Option Char}
    (hbefore : before' = before ∨ before' = before.map Char.toLower) :
    accessorWords before' (wireWords false (accessorWords before s)) = accessorWords before s := by
  induction s generalizing before before' with
  | nil => rw [accessorWords, wireWords, accessorWords]
  | cons c rest ih =>
    rw [List.mem_cons, not_or] at hs
    rw [wireWords_accessorWords_cons (Ne.symm hs.1)]
    by_cases hstart : startsWord before c rest.head? = true
    · rw [if_pos hstart, accessorWords, accessorWords, if_pos hstart,
        if_pos (startsWord_of_startsWord hbefore head?_wireWords_accessorWords hstart),
        ih hs.2 (.inl rfl)]
    · have hrest : accessorWords (some c.toLower) (wireWords false (accessorWords (some c) rest)) =
          accessorWords (some c) rest := ih hs.2 (.inr rfl)
      rw [if_neg hstart, accessorWords, accessorWords, if_neg hstart,
        if_neg (by simp [startsWord_eq_false (isCapital_toLower c)]),
        toLower_eq_self (isCapital_toLower c), hrest]

theorem head?_accessorWords {s : List Char} (hs : s.head? ≠ some '_') :
    (accessorWords none s).head? ≠ some '_' := by
  rcases s with _ | ⟨c, rest⟩
  · simp [accessorWords]
  · have hc : c ≠ '_' := fun hc => hs (congrArg some hc)
    simpa [accessorWords, startsWord] using toLower_ne_underscore hc

theorem head?_wireWords {s : List Char} (hs : s.head? ≠ some '_') :
    (wireWords false s).head? ≠ some '_' := by
  rcases s with _ | ⟨c, rest⟩
  · simp [wireWords]
  · have hc : c ≠ '_' := fun hc => hs (congrArg some hc)
    simpa [wireWords_false_cons hc] using hc

/-- The accessor of a name whose words are told apart by capitals only is given back by its wire
form. -/
theorem toAccessorChars_toWireChars_toAccessorChars {s : List Char}
    (hs : '_' ∉ s.dropWhile (· = '_')) :
    toAccessorChars (toWireChars (toAccessorChars s)) = toAccessorChars s := by
  by_cases h : isReservedChars s = true
  · have haccessor : toAccessorChars s = s := if_pos h
    have hwire : toWireChars s = s := if_pos h
    rw [haccessor, hwire, haccessor]
  · obtain ⟨leading, body, rfl, hleading, hbody⟩ :=
      exists_eq_append_of_not_reserved (Bool.eq_false_iff.mpr h)
    rw [dropWhile_append hleading hbody] at hs
    have haccessor := head?_accessorWords hbody
    rw [toAccessorChars_append hleading hbody, toWireChars_append hleading haccessor,
      toAccessorChars_append hleading (head?_wireWords haccessor),
      accessorWords_wireWords_accessorWords hs (.inl rfl)]

end GraphQLClient.Name
