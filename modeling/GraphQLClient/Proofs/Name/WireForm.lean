import GraphQLClient.Proofs.Name.Respelling

/-!
# Wire forms of wire forms

A character behind an inner underscore starts a word, and then the underscore is gone.  So a name is
its own wire form exactly if only underscores stand behind its inner underscores.  Two underscores
next to each other have an empty word between them, which leaves one underscore.  At the end of a
name every underscore stays in this way.  Before another character all but one of them stay: what is
left of two or more still stands before a character, and goes in the wire form of the wire form.

## Main definitions

* `Name.EndsAfter` : the sequences in which only underscores stand behind a number of them.

## Main results

* `Name.wireWords_eq_self_iff` : what is its own wire form.
* `Name.endsAfter_wireWords_iff` : whose wire form that is.
* `Name.toWire_toWire_eq_iff` : the names whose wire form is a fixed point.
-/

namespace GraphQLClient.Name

/-- Only underscores stand behind `n` underscores next to each other. -/
def EndsAfter (n : Nat) (s : List Char) : Prop :=
  ∀ c, List.replicate n '_' ++ [c] <:+: s → c = '_'

/-! ### Capitals are no underscores -/

theorem toUpper_ne_underscore {c : Char} (h : c ≠ '_') : c.toUpper ≠ '_' := by
  intro hupper
  by_cases hc : isSmall c = true
  · have hcapital := isCapital_toUpper hc
    rw [hupper] at hcapital
    simp [isCapital] at hcapital
  · rw [isSmall_eq_isLower] at hc
    rw [Char.toUpper_eq_of_not_isLower hc] at hupper
    exact h hupper

theorem eq_of_ofNat_eq_underscore {n : Nat} (h : Char.ofNat n = '_') : n = 95 := by
  by_cases hn : n.isValidChar
  · have hval := congrArg Char.toNat h
    rwa [Char.toNat_ofNat, if_pos hn] at hval
  · -- Without a character of its own a number gives the null character.
    rw [Char.ofNat, dif_neg hn] at h
    cases h

theorem uppercaseSequences_ne : ∀ e ∈ Text.uppercaseSequences, e.2 ≠ [] ∧ 95 ∉ e.2 := by
  decide +kernel

theorem uppercaseRuns_ne : ∀ r ∈ Text.uppercaseRuns,
    95 < (r.1 : Int) + r.2.2.2 ∨ (r.2.1 : Int) + r.2.2.2 < 95 := by
  decide +kernel

theorem uppercasePoint_ne {n : Nat} (hn : n ≠ 95) :
    Text.uppercasePoint n ≠ [] ∧ 95 ∉ Text.uppercasePoint n := by
  rw [Text.uppercasePoint]
  split
  · next points hfind => exact uppercaseSequences_ne _ (List.mem_of_find?_eq_some hfind)
  · split
    · next first last stride distance hfind =>
      have hrun := uppercaseRuns_ne _ (List.mem_of_find?_eq_some hfind)
      have hrange := List.find?_some hfind
      simp only [Bool.and_eq_true, decide_eq_true_eq] at hrange hrun
      refine ⟨List.cons_ne_nil _ _, fun hmem => ?_⟩
      have hpoint := List.mem_singleton.mp hmem
      omega
    · exact ⟨List.cons_ne_nil _ _, fun hmem => hn (List.mem_singleton.mp hmem).symm⟩

/-- The upper-case form of a character other than an underscore has characters, and none of them is
an underscore. -/
theorem uppercase_ne {c : Char} (hc : c ≠ '_') :
    Text.uppercase c ≠ [] ∧ '_' ∉ Text.uppercase c := by
  rw [Text.uppercase]
  split
  · exact ⟨List.cons_ne_nil _ _, fun hmem =>
      toUpper_ne_underscore hc (List.mem_singleton.mp hmem).symm⟩
  · have hn : c.toNat ≠ 95 := fun hn => hc (Char.toNat_inj.mp hn)
    obtain ⟨hne, hmem⟩ := uppercasePoint_ne hn
    refine ⟨fun h => hne (List.map_eq_nil_iff.mp h), fun h => hmem ?_⟩
    obtain ⟨n, hn, heq⟩ := List.mem_map.mp h
    exact eq_of_ofNat_eq_underscore heq ▸ hn

/-! ### What stands behind underscores -/

theorem endsAfter_nil (n : Nat) : EndsAfter n [] := fun c h =>
  absurd (List.infix_nil.mp h) (by simp)

section

variable {n : Nat}

/-- What does not start with an underscore may be left out. -/
theorem endsAfter_cons_iff {c : Char} (hc : c ≠ '_') {s : List Char} :
    EndsAfter (n + 1) (c :: s) ↔ EndsAfter (n + 1) s := by
  refine forall_congr' fun d => imp_congr_left ?_
  rw [List.infix_cons_iff, List.replicate_succ, List.cons_append, List.cons_prefix_cons]
  exact or_iff_right fun h => hc h.1.symm

theorem endsAfter_append_iff {word : List Char} (hword : '_' ∉ word) {s : List Char} :
    EndsAfter (n + 1) (word ++ s) ↔ EndsAfter (n + 1) s := by
  induction word with
  | nil => rfl
  | cons c word ih =>
    rw [List.mem_cons, not_or] at hword
    rw [List.cons_append, endsAfter_cons_iff (Ne.symm hword.1), ih hword.2]

/-- An underscore that stands alone may be left out. -/
theorem endsAfter_underscore_cons_iff {c : Char} (hc : c ≠ '_') {s : List Char} :
    EndsAfter (n + 2) ('_' :: c :: s) ↔ EndsAfter (n + 2) (c :: s) := by
  refine forall_congr' fun d => imp_congr_left ?_
  rw [List.infix_cons_iff, List.replicate_succ, List.replicate_succ, List.cons_append,
    List.cons_append, List.cons_prefix_cons, List.cons_prefix_cons]
  exact or_iff_right fun h => hc h.2.1.symm

theorem endsAfter_singleton (n : Nat) (c : Char) : EndsAfter (n + 1) [c] := fun d h => by
  have hlength := h.length_le
  simp at hlength

theorem EndsAfter.of_cons {c : Char} {s : List Char} (h : EndsAfter n (c :: s)) : EndsAfter n s :=
  fun d hd => h d (List.infix_cons hd)

/-- Behind underscores that come first stand only underscores if nothing else comes at all. -/
theorem endsAfter_replicate_append_iff {s : List Char} :
    EndsAfter n (List.replicate n '_' ++ s) ↔ ∀ c ∈ s, c = '_' := by
  constructor
  · intro h
    induction s with
    | nil => simp
    | cons c s ih =>
      have hc : c = '_' := h c ⟨[], s, by simp⟩
      subst hc
      -- The first underscore of all may be left out instead of the one behind the others.
      rw [List.append_cons, ← List.replicate_succ', List.replicate_succ, List.cons_append] at h
      exact List.forall_mem_cons.mpr ⟨rfl, ih h.of_cons⟩
  · rintro h c ⟨before, after, heq⟩
    have hall : ∀ d ∈ List.replicate n '_' ++ s, d = '_' :=
      List.forall_mem_append.mpr ⟨fun d hd => List.eq_of_mem_replicate hd, h⟩
    exact hall c (heq ▸ by simp)

end

/-! ### Fixed points -/

/-- Behind an underscore only underscores stay as they are. -/
theorem wireWords_true_eq_iff {s : List Char} :
    wireWords true s = '_' :: s ↔ ∀ c ∈ s, c = '_' := by
  induction s with
  | nil => simp [wireWords]
  | cons c rest ih =>
    by_cases hc : c = '_'
    · subst hc
      rw [wireWords, List.cons_inj_right, ih, List.forall_mem_cons, and_iff_right rfl]
    · rw [wireWords_true_cons hc]
      refine iff_of_false (fun heq => ?_) fun h => hc (h c List.mem_cons_self)
      obtain ⟨hne, hmem⟩ := uppercase_ne hc
      obtain ⟨d, tail, hupper⟩ := List.exists_cons_of_ne_nil hne
      rw [hupper, List.cons_append] at heq
      exact hmem (hupper ▸ (List.cons.inj heq).1 ▸ List.mem_cons_self)

theorem wireWords_eq_self_iff {s : List Char} : wireWords false s = s ↔ EndsAfter 1 s := by
  induction s with
  | nil => exact iff_of_true rfl (endsAfter_nil 1)
  | cons c rest ih =>
    by_cases hc : c = '_'
    · subst hc
      rw [wireWords, wireWords_true_eq_iff]
      exact endsAfter_replicate_append_iff.symm
    · rw [wireWords_false_cons hc, List.cons_inj_right, ih, endsAfter_cons_iff hc]

/-! ### Underscores of wire forms -/

theorem forall_mem_wireWords_true_iff {s : List Char} :
    (∀ c ∈ wireWords true s, c = '_') ↔ ∀ c ∈ s, c = '_' := by
  induction s with
  | nil => simp [wireWords]
  | cons c rest ih =>
    by_cases hc : c = '_'
    · subst hc
      rw [wireWords, List.forall_mem_cons, List.forall_mem_cons, ih]
    · rw [wireWords_true_cons hc]
      refine iff_of_false (fun h => ?_) fun h => hc (h c List.mem_cons_self)
      obtain ⟨hne, hmem⟩ := uppercase_ne hc
      obtain ⟨d, hd⟩ := List.exists_mem_of_ne_nil _ hne
      exact hmem (h d (List.mem_append_left _ hd) ▸ hd)

mutual

/-- Inside a name one underscore of each run is lost. -/
theorem endsAfter_wireWords_iff : (s : List Char) →
    (EndsAfter 1 (wireWords false s) ↔ EndsAfter 2 s)
  | [] => iff_of_true (endsAfter_nil 1) (endsAfter_nil 2)
  | c :: rest => by
      by_cases hc : c = '_'
      · subst hc
        rw [wireWords]
        exact endsAfter_wireWords_true_iff rest
      · rw [wireWords_false_cons hc, endsAfter_cons_iff hc, endsAfter_cons_iff hc,
          endsAfter_wireWords_iff rest]

/-- Behind an underscore, that underscore is lost if anything but underscores follows. -/
theorem endsAfter_wireWords_true_iff : (s : List Char) →
    (EndsAfter 1 (wireWords true s) ↔ EndsAfter 2 ('_' :: s))
  | [] => iff_of_true (endsAfter_singleton 0 '_') (endsAfter_singleton 1 '_')
  | c :: rest => by
      by_cases hc : c = '_'
      · subst hc
        have hwire : EndsAfter 1 (wireWords true ('_' :: rest)) ↔
            ∀ c ∈ wireWords true rest, c = '_' := by
          rw [wireWords]
          exact endsAfter_replicate_append_iff
        have hname : EndsAfter 2 ('_' :: '_' :: rest) ↔ ∀ c ∈ rest, c = '_' :=
          endsAfter_replicate_append_iff
        rw [hwire, hname, forall_mem_wireWords_true_iff]
      · rw [wireWords_true_cons hc, endsAfter_append_iff (uppercase_ne hc).2,
          endsAfter_underscore_cons_iff hc, endsAfter_cons_iff hc, endsAfter_wireWords_iff rest]

end

/-- **Wire forms of wire forms.** The wire form of a name is its own wire form exactly if the name
is reserved or only underscores stand behind two inner underscores next to each other. -/
theorem toWire_toWire_eq_iff (s : String) :
    toWire (toWire s) = toWire s ↔
      isReserved s = true ∨
        ∀ c, ['_', '_', c] <:+: s.toList.dropWhile (· = '_') → c = '_' := by
  by_cases h : isReserved s = true
  · simp [toWire_of_isReserved h, h]
  · obtain ⟨leading, body, hsplit, hleading, hbody⟩ :=
      exists_eq_append_of_not_reserved (Bool.eq_false_iff.mpr h)
    rw [or_iff_right h, ← String.toList_inj, toList_toWire, toList_toWire, hsplit,
      toWireChars_append hleading hbody, toWireChars_append hleading (head?_wireWords hbody),
      dropWhile_append hleading hbody, List.append_cancel_left_eq, wireWords_eq_self_iff,
      endsAfter_wireWords_iff]
    rfl

/-- An empty word inside a name leaves an underscore before a capital, which is lost as well. -/
theorem toWire_toWire_doubled :
    toWire "a__b" = "a_B" ∧ toWire "a_B" = "aB" ∧ ¬∀ s, toWire (toWire s) = toWire s :=
  ⟨by decide, by decide, fun h => absurd (h "a__b") (by decide)⟩

end GraphQLClient.Name
