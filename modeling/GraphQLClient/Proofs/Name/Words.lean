import GraphQLClient.Proofs.Name.Conversion

/-!
# Accessors that come back from their wire names

An accessor is a sequence of words with underscores between.  In its wire form the words stand next
to each other, and each but the first starts with a capital.  On the way back an underscore is put
before a capital if the word before it ends in a small letter or a digit.  A word of one letter,
other than the first, is a capital itself: then the next capital is the second one of a run, and an
underscore comes before it only if a small letter follows it.  So what counts is the second
character of the next word.  If there is none, or if it is a digit, the two words come back as one.

## Main definitions

* `Name.isWord` : the words of accessors.
* `Name.StandApart` : two words between which the underscore comes back.

## Main results

* `Name.toWireChars_words` : the wire form of a sequence of words.
* `Name.toAccessor_toWire_eq_iff` : the accessors that come back.
-/

namespace GraphQLClient.Name

/-- A word of an accessor: a small letter, and small letters and digits after it. -/
def isWord : List Char → Bool
  | [] => false
  | c :: rest => isSmall c && rest.all fun d => isSmall d || isDigit d

/-- A word as it stands in a wire name behind another word. -/
def capitalized : List Char → List Char
  | [] => []
  | c :: rest => c.toUpper :: rest

/-- Two words between which the underscore comes back: if the first of them is a single letter, the
second one goes on with a letter. -/
def StandApart (v w : List Char) : Prop :=
  v.length = 1 → ∃ c, w[1]? = some c ∧ isSmall c = true

/-! ### Characters of words -/

theorem isCapital_toUpper {c : Char} (h : isSmall c = true) : isCapital c.toUpper = true := by
  rw [isSmall_eq_isLower] at h
  rw [isCapital_eq_isUpper, Char.isUpper_toUpper_eq_isAlpha, Char.isAlpha, h, Bool.or_true]

theorem toLower_toUpper {c : Char} (h : isSmall c = true) : c.toUpper.toLower = c := by
  rw [Char.toLower_toUpper_eq_toLower, toLower_eq_self (isCapital_eq_false_of_isSmall h)]

theorem isSmall_or_isDigit_of_isWord {w : List Char} (hw : isWord w = true) :
    ∀ c ∈ w, isSmall c = true ∨ isDigit c = true := by
  rcases w with _ | ⟨c, rest⟩
  · simp
  · rw [isWord, Bool.and_eq_true, List.all_eq_true] at hw
    exact List.forall_mem_cons.mpr
      ⟨.inl hw.1, fun d hd => Bool.or_eq_true_iff.mp (hw.2 d hd)⟩

theorem isCapital_eq_false_of_isWord {w : List Char} (hw : isWord w = true) :
    ∀ c ∈ w, isCapital c = false := fun c hc =>
  (isSmall_or_isDigit_of_isWord hw c hc).elim isCapital_eq_false_of_isSmall
    isCapital_eq_false_of_isDigit

theorem underscore_notMem_of_isWord {w : List Char} (hw : isWord w = true) : '_' ∉ w := fun h =>
  absurd (isSmall_or_isDigit_of_isWord hw '_' h) (by decide)

theorem exists_of_isWord {w : List Char} (hw : isWord w = true) :
    ∃ c rest, w = c :: rest ∧ isSmall c = true := by
  rcases w with _ | ⟨c, rest⟩
  · simp [isWord] at hw
  · rw [isWord, Bool.and_eq_true] at hw
    exact ⟨c, rest, rfl, hw.1⟩

/-! ### The wire form of words -/

theorem wireWords_words {words : List (List Char)} (hwords : ∀ w ∈ words, isWord w = true) :
    wireWords false (words.flatMap ('_' :: ·)) = words.flatMap capitalized := by
  induction words with
  | nil => rfl
  | cons w words ih =>
    obtain ⟨hw, hrest⟩ := List.forall_mem_cons.mp hwords
    obtain ⟨c, rest, rfl, hc⟩ := exists_of_isWord hw
    have hmem := underscore_notMem_of_isWord hw
    rw [List.mem_cons, not_or] at hmem
    rw [List.flatMap_cons, List.cons_append, wireWords, List.cons_append,
      wireWords_true_cons (Ne.symm hmem.1), uppercase_of_isSmall hc, wireWords_append hmem.2,
      ih hrest, List.flatMap_cons]
    rfl

theorem intercalate_cons (w : List Char) (words : List (List Char)) :
    ['_'].intercalate (w :: words) = w ++ words.flatMap ('_' :: ·) := by
  induction words generalizing w with
  | nil => simp
  | cons v words ih =>
    rw [List.intercalate_cons_cons, ih, List.flatMap_cons, List.append_assoc,
      List.singleton_append, List.cons_append]

theorem head?_append_ne_underscore {w : List Char} (hw : isWord w = true) (rest : List Char) :
    (w ++ rest).head? ≠ some '_' := by
  have hmem := underscore_notMem_of_isWord hw
  obtain ⟨c, tail, rfl, -⟩ := exists_of_isWord hw
  rw [List.mem_cons, not_or] at hmem
  simpa using Ne.symm hmem.1

/-- In the wire form of an accessor its words stand next to each other, and each but the first
starts with a capital. -/
theorem toWireChars_words {w : List Char} {words : List (List Char)} (hw : isWord w = true)
    (hwords : ∀ w ∈ words, isWord w = true) :
    toWireChars (['_'].intercalate (w :: words)) = w ++ words.flatMap capitalized := by
  have hwire := toWireChars_append (.inl rfl)
    (head?_append_ne_underscore hw (words.flatMap ('_' :: ·)))
  rw [List.nil_append, List.nil_append] at hwire
  rw [intercalate_cons, hwire, wireWords_append (underscore_notMem_of_isWord hw),
    wireWords_words hwords]

/-! ### The way back -/

theorem getLast?_cons_eq_or (c : Char) (rest : List Char) :
    (c :: rest).getLast? = rest.getLast?.or (some c) := by
  rw [List.getLast?_cons]
  cases rest.getLast? <;> rfl

/-- Characters other than capitals stay as they are. -/
theorem accessorWords_append {word : List Char} (hword : ∀ c ∈ word, isCapital c = false)
    (before : Option Char) (rest : List Char) :
    accessorWords before (word ++ rest) =
      word ++ accessorWords (word.getLast?.or before) rest := by
  induction word generalizing before with
  | nil => rfl
  | cons c word ih =>
    obtain ⟨hc, hword⟩ := List.forall_mem_cons.mp hword
    rw [List.cons_append, accessorWords, if_neg (by simp [startsWord_eq_false hc]),
      toLower_eq_self hc, ih hword, getLast?_cons_eq_or, Option.or_assoc, Option.some_or,
      List.cons_append]

/-- A word behind another one comes back after an underscore, or without it. -/
theorem accessorWords_capitalized {c : Char} {rest : List Char} (hw : isWord (c :: rest) = true)
    (before : Option Char) (tail : List Char) :
    accessorWords before (capitalized (c :: rest) ++ tail) =
      (if startsWord before c.toUpper (rest ++ tail).head? then ['_'] else []) ++ (c :: rest) ++
        accessorWords (capitalized (c :: rest)).getLast? tail := by
  have hc : isSmall c = true := by
    rw [isWord, Bool.and_eq_true] at hw
    exact hw.1
  have hrest : ∀ d ∈ rest, isCapital d = false := fun d hd =>
    isCapital_eq_false_of_isWord hw d (List.mem_cons_of_mem c hd)
  rw [capitalized, List.cons_append, accessorWords, toLower_toUpper hc,
    accessorWords_append hrest, getLast?_cons_eq_or]
  split <;> simp

/-- The words behind a word start with capitals. -/
theorem head?_flatMap_capitalized {words : List (List Char)}
    (hwords : ∀ w ∈ words, isWord w = true) :
    (words.flatMap capitalized).head?.any isSmall = false := by
  rcases words with _ | ⟨w, words⟩
  · rfl
  · obtain ⟨c, rest, rfl, hc⟩ := exists_of_isWord (hwords w List.mem_cons_self)
    rw [List.flatMap_cons, capitalized, List.cons_append, List.head?_cons, Option.any_some,
      isSmall_eq_isLower, Char.isLower_toUpper_eq_false]

/-- A capital behind the last character of a word starts a word. -/
theorem startsWord_getLast? {w : List Char} (hw : isWord w = true) {c : Char}
    (hc : isSmall c = true) (after : Option Char) :
    startsWord w.getLast? c.toUpper after = true := by
  rcases List.eq_nil_or_concat w with rfl | ⟨w, last, rfl⟩
  · simp [isWord] at hw
  · have hlast := isSmall_or_isDigit_of_isWord hw last (by simp)
    rw [List.concat_eq_append, List.getLast?_concat]
    simp [startsWord, isCapital_toUpper hc, hlast]

/-- Behind a word other than the first, the next capital starts a word exactly if the two words
stand apart. -/
theorem startsWord_capitalized_iff {v : List Char} (hv : isWord v = true) {c : Char}
    {rest : List Char} (hc : isSmall c = true) {tail : List Char}
    (htail : tail.head?.any isSmall = false) :
    startsWord (capitalized v).getLast? c.toUpper (rest ++ tail).head? = true ↔
      StandApart v (c :: rest) := by
  obtain ⟨b, v, rfl, hb⟩ := exists_of_isWord hv
  rcases List.eq_nil_or_concat v with rfl | ⟨v, last, rfl⟩
  · -- The word before is a single letter, hence a capital.
    have hsmall : isSmall b.toUpper = false := by
      rw [isSmall_eq_isLower, Char.isLower_toUpper_eq_false]
    have hdigit : isDigit b.toUpper = false :=
      Bool.eq_false_iff.mpr fun h => by
        simpa [isCapital_toUpper hb] using isCapital_eq_false_of_isDigit h
    rcases rest with _ | ⟨d, rest⟩
    · simpa [capitalized, startsWord, StandApart, hsmall, hdigit] using fun _ _ => htail
    · simp [capitalized, startsWord, StandApart, hsmall, hdigit, isCapital_toUpper hb,
        isCapital_toUpper hc]
  · have hlast : (capitalized (b :: v.concat last)).getLast? = (b :: v.concat last).getLast? := by
      simp [capitalized, List.getLast?_cons]
    rw [hlast]
    refine iff_of_true (startsWord_getLast? hv hc _) fun hlength => ?_
    simp at hlength

/-- The words behind a word other than the first come back exactly if they stand apart. -/
theorem accessorWords_words_eq_iff {v : List Char} (hv : isWord v = true)
    {words : List (List Char)} (hwords : ∀ w ∈ words, isWord w = true) :
    accessorWords (capitalized v).getLast? (words.flatMap capitalized) =
        words.flatMap ('_' :: ·) ↔ (v :: words).IsChain StandApart := by
  induction words generalizing v with
  | nil => simp [accessorWords]
  | cons w words ih =>
    obtain ⟨hw, hrest⟩ := List.forall_mem_cons.mp hwords
    obtain ⟨c, rest, rfl, hc⟩ := exists_of_isWord hw
    rw [List.flatMap_cons, accessorWords_capitalized hw, List.flatMap_cons,
      List.isChain_cons_cons, ← ih hw hrest,
      ← startsWord_capitalized_iff hv hc (head?_flatMap_capitalized hrest)]
    by_cases hstart : startsWord (capitalized v).getLast? c.toUpper
        (rest ++ words.flatMap capitalized).head? = true
    · rw [if_pos hstart, and_iff_right hstart]
      exact List.append_right_inj ('_' :: c :: rest)
    · rw [if_neg hstart]
      refine iff_of_false (fun heq => ?_) fun h => hstart h.1
      -- Without the underscore a letter stands in its place.
      have hc' : c = '_' := (List.cons.inj heq).1
      simp [hc', isSmall] at hc

/-- The words behind the first one come back exactly if they stand apart from each other: the first
one ends in a small letter or a digit. -/
theorem accessorWords_first_eq_iff {w : List Char} (hw : isWord w = true)
    {words : List (List Char)} (hwords : ∀ w ∈ words, isWord w = true) :
    accessorWords w.getLast? (words.flatMap capitalized) = words.flatMap ('_' :: ·) ↔
      words.IsChain StandApart := by
  rcases words with _ | ⟨v, words⟩
  · simp [accessorWords]
  · obtain ⟨hv, hrest⟩ := List.forall_mem_cons.mp hwords
    obtain ⟨c, rest, rfl, hc⟩ := exists_of_isWord hv
    rw [List.flatMap_cons, accessorWords_capitalized hv, if_pos (startsWord_getLast? hw hc _),
      List.flatMap_cons, ← accessorWords_words_eq_iff hv hrest]
    simp

/-- **Accessors that come back.** The accessor that the wire name of a sequence of words is
converted to is the sequence itself exactly if the words after the first stand apart from each
other. -/
theorem toAccessor_toWire_eq_iff {words : List String}
    (hwords : ∀ w ∈ words, isWord w.toList = true) :
    toAccessor (toWire ("_".intercalate words)) = "_".intercalate words ↔
      words.tail.IsChain fun v w => StandApart v.toList w.toList := by
  have hlist : ("_".intercalate words).toList = ['_'].intercalate (words.map String.toList) :=
    String.toList_intercalate
  rw [← String.toList_inj, toList_toAccessor, toList_toWire, hlist]
  rcases words with _ | ⟨w, words⟩
  · simp [toWireChars, toAccessorChars, isReservedChars, wireWords, accessorWords]
  · obtain ⟨hw, hrest⟩ := List.forall_mem_cons.mp hwords
    have hrest : ∀ w ∈ words.map String.toList, isWord w = true :=
      List.forall_mem_map.mpr hrest
    have haccessor := toAccessorChars_append (.inl rfl)
      (head?_append_ne_underscore hw ((words.map String.toList).flatMap capitalized))
    rw [List.nil_append, List.nil_append] at haccessor
    rw [List.map_cons, toWireChars_words hw hrest, haccessor,
      accessorWords_append (isCapital_eq_false_of_isWord hw), Option.or_none, intercalate_cons,
      List.append_cancel_left_eq, accessorWords_first_eq_iff hw hrest, List.isChain_map,
      List.tail_cons]

theorem toAccessor_toWire_coordXId :
    (∀ w ∈ ["coord", "x", "id", "y2"], isWord w.toList = true) ∧
      toAccessor (toWire ("_".intercalate ["coord", "x", "id", "y2"])) =
        "_".intercalate ["coord", "x", "id", "y2"] := by
  have hwords : ∀ w ∈ ["coord", "x", "id", "y2"], isWord w.toList = true := by decide
  refine ⟨hwords, (toAccessor_toWire_eq_iff hwords).mpr ?_⟩
  simp [StandApart, isSmall]

/-- A single letter before a word that goes on with a digit: no two words of one letter stand next
to each other after the first, and yet an underscore is lost. -/
theorem toAccessor_toWire_coordXY2 :
    (∀ w ∈ ["coord", "x", "y2"], isWord w.toList = true) ∧
      "_".intercalate ["coord", "x", "y2"] = "coord_x_y2" ∧
      toAccessor (toWire "coord_x_y2") = "coord_xy2" ∧
      ¬(toAccessor (toWire ("_".intercalate ["coord", "x", "y2"])) =
          "_".intercalate ["coord", "x", "y2"] ↔
        ["coord", "x", "y2"].tail.IsChain fun v w => ¬(v.length = 1 ∧ w.length = 1)) := by
  have hlost : toAccessor (toWire ("_".intercalate ["coord", "x", "y2"])) ≠
      "_".intercalate ["coord", "x", "y2"] := by
    decide
  have hchain : ["x", "y2"].IsChain fun v w => ¬(v.length = 1 ∧ w.length = 1) :=
    List.isChain_pair.mpr (by decide)
  exact ⟨by decide, by decide, by decide, fun h => hlost (h.mpr hchain)⟩

end GraphQLClient.Name
