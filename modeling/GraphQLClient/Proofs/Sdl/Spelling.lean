import GraphQLClient.Introspection.Printer
import GraphQLClient.Proofs.Sdl.Scanning
import GraphQLClient.Sdl.Parser
import Mathlib.Data.List.Forall2
import Mathlib.Data.List.TakeWhile

/-!
# Spelling tokens

A text spells tokens if it is read as these tokens wherever it stands, provided that what follows it
is no part of its last token.  Spelling is compositional: texts one after the other spell their
tokens one after the other.  Commas spell nothing, as in the published grammar.

## Main definitions

* `Sdl.lexemes?` : the tokens of a text without its commas.
* `Sdl.Spells` : a text is read as given tokens wherever it stands.

## Main results

* `Sdl.Spells.append` : spelling one text after the other.
* `Sdl.spells_name`, `Sdl.spells_quoted`, `Sdl.spells_block` : the spelling of single tokens.
* `Sdl.spells_of_tokensFrom?` : a text spells its tokens unless it ends in a comment.
-/

namespace GraphQLClient.Sdl

variable {alpha : Alphabet}

/-! ### The tokens of a text -/

/-- The number of steps does not matter if there are enough of them. -/
theorem tokensWithin?_eq {n m : Nat} {s : List Char} (hn : s.length < n) (hm : s.length < m) :
    tokensWithin? alpha n s = tokensWithin? alpha m s := by
  induction n generalizing m s with
  | zero => exact absurd hn (Nat.not_lt_zero _)
  | succ n ih =>
    obtain ⟨m, rfl⟩ : ∃ k, m = k + 1 := ⟨m - 1, by omega⟩
    cases s with
    | nil => rfl
    | cons c s =>
      rw [List.length_cons] at hn hm
      have hstep : ∀ r : List Char, r.length ≤ s.length →
          tokensWithin? alpha n r = tokensWithin? alpha m r :=
        fun r hr => ih (by omega) (by omega)
      rw [tokensWithin?, tokensWithin?, hstep s (Nat.le_refl _),
        hstep _ (List.dropWhile_suffix _).length_le]
      cases ht : takeToken? alpha c s with
      | none => rfl
      | some p =>
        obtain ⟨t, r⟩ := p
        simp only [hstep r (takeToken?_append ht).1]

/-- The tokens of a text, with as many steps as it has characters. -/
def tokensFrom? (alpha : Alphabet) (s : List Char) : Option (List Token) :=
  tokensWithin? alpha (s.length + 1) s

theorem tokensFrom?_separator {c : Char} (hc : isSeparator c = true) (s : List Char) :
    tokensFrom? alpha (c :: s) = tokensFrom? alpha s := by
  rw [tokensFrom?, tokensWithin?, if_pos hc, List.length_cons, tokensFrom?]

theorem tokensFrom?_comment (s : List Char) :
    tokensFrom? alpha ('#' :: s) = tokensFrom? alpha (s.dropWhile fun d => !isLineEnd d) := by
  have hlength := (List.dropWhile_suffix (l := s) fun d => !isLineEnd d).length_le
  rw [tokensFrom?, tokensWithin?, if_neg (by decide), if_pos rfl, tokensFrom?,
    tokensWithin?_eq (by rw [List.length_cons]; omega) (Nat.lt_succ_self _)]

theorem tokensFrom?_token {c : Char} {s r : List Char} {t : Token} (hsep : isSeparator c = false)
    (hcomment : c ≠ '#') (ht : takeToken? alpha c s = some (t, r)) :
    tokensFrom? alpha (c :: s) = (tokensFrom? alpha r).map (t :: ·) := by
  have hlength := (takeToken?_append ht).1
  rw [tokensFrom?, tokensWithin?, if_neg (by rw [hsep]; exact Bool.false_ne_true), if_neg hcomment,
    ht]
  simp only
  rw [tokensWithin?_eq (m := r.length + 1) (by rw [List.length_cons]; omega) (Nat.lt_succ_self _),
    tokensFrom?]

/-- A text with tokens that starts neither with a separator nor with a comment starts with a
token. -/
theorem exists_takeToken? {c : Char} {s : List Char} {ts : List Token}
    (hsep : isSeparator c = false) (hcomment : c ≠ '#')
    (hs : tokensFrom? alpha (c :: s) = some ts) :
    ∃ t r, takeToken? alpha c s = some (t, r) := by
  cases ht : takeToken? alpha c s with
  | none =>
    rw [tokensFrom?, tokensWithin?, if_neg (by rw [hsep]; exact Bool.false_ne_true),
      if_neg hcomment, ht] at hs
    cases hs
  | some p => exact ⟨p.1, p.2, rfl⟩

/-- The tokens of a document are those of its characters, if they may all stand in it. -/
theorem tokens?_eq_some_iff {text : String} {ts : List Token} :
    tokens? alpha text = some ts ↔
      (alpha.full = true ∨ ∀ c ∈ text.toList, isSourceCharacter c = true) ∧
        tokensFrom? alpha text.toList = some ts := by
  rw [tokens?, Option.ite_none_right_eq_some, Bool.or_eq_true, List.all_eq_true]
  rfl

theorem withoutCommas_cons (t : Token) (ts : List Token) :
    withoutCommas (t :: ts) =
      if t = .mark ',' then withoutCommas ts else t :: withoutCommas ts := by
  by_cases h : t = .mark ','
  · simp [withoutCommas, h]
  · simp [withoutCommas, h]

/-- The tokens of a text without its commas. -/
def lexemes? (alpha : Alphabet) (s : List Char) : Option (List Token) :=
  (tokensFrom? alpha s).map withoutCommas

theorem lexemes?_nil : lexemes? alpha [] = some [] := rfl

theorem lexemes?_separator {c : Char} (hc : isSeparator c = true) (s : List Char) :
    lexemes? alpha (c :: s) = lexemes? alpha s := by
  rw [lexemes?, tokensFrom?_separator hc, lexemes?]

theorem lexemes?_comment (s : List Char) :
    lexemes? alpha ('#' :: s) = lexemes? alpha (s.dropWhile fun d => !isLineEnd d) := by
  rw [lexemes?, tokensFrom?_comment, lexemes?]

theorem lexemes?_token {c : Char} {s r : List Char} {t : Token} (hsep : isSeparator c = false)
    (hcomment : c ≠ '#') (ht : takeToken? alpha c s = some (t, r)) :
    lexemes? alpha (c :: s) =
      (lexemes? alpha r).map fun ts => if t = .mark ',' then ts else t :: ts := by
  rw [lexemes?, tokensFrom?_token hsep hcomment ht, lexemes?, Option.map_map, Option.map_map]
  congr 1
  funext ts
  exact withoutCommas_cons t ts

/-! ### Spelling -/

/-- A text is read as given tokens wherever it stands, unless the text after it goes on with a part
of a token. -/
def Spells (alpha : Alphabet) (s : List Char) (ts : List Token) : Prop :=
  ∀ x us, Delimited x → lexemes? alpha x = some us → lexemes? alpha (s ++ x) = some (ts ++ us)

theorem Delimited.append {s x : List Char} (hs : Delimited s) (hx : Delimited x) :
    Delimited (s ++ x) := by
  cases s with
  | nil => exact hx
  | cons c s => exact hs

theorem Delimited.append_left {c : Char} (h : Delimited [c]) (x : List Char) : Delimited (c :: x) :=
  h

theorem spells_nil : Spells alpha [] [] :=
  fun _ _ _ h => h

/-- Texts one after the other spell their tokens one after the other. -/
theorem Spells.append {s s' : List Char} {ts ts' : List Token} (hs : Spells alpha s ts)
    (hs' : Spells alpha s' ts') (hd : Delimited s') : Spells alpha (s ++ s') (ts ++ ts') := by
  intro x us hx hus
  rw [List.append_assoc, List.append_assoc]
  exact hs _ _ (hd.append hx) (hs' x us hx hus)

theorem Spells.separator {c : Char} (hc : isSeparator c = true) {s : List Char}
    {ts : List Token} (hs : Spells alpha s ts) : Spells alpha (c :: s) ts := by
  intro x us hx hus
  rw [List.cons_append, lexemes?_separator hc]
  exact hs x us hx hus

/-- A comment that ends before the text does spells nothing. -/
theorem Spells.comment {s : List Char} {ts : List Token}
    (hend : s.dropWhile (fun d => !isLineEnd d) ≠ [])
    (hs : Spells alpha (s.dropWhile fun d => !isLineEnd d) ts) : Spells alpha ('#' :: s) ts := by
  intro x us hx hus
  have hdrop : (s ++ x).dropWhile (fun d => !isLineEnd d) =
      s.dropWhile (fun d => !isLineEnd d) ++ x :=
    (span_append fun h => absurd h hend).2
  rw [List.cons_append, lexemes?_comment, hdrop]
  exact hs x us hx hus

/-- A token before a text. -/
theorem Spells.token {c : Char} {s r : List Char} {t : Token} {ts : List Token}
    (hsep : isSeparator c = false) (hcomment : c ≠ '#') (ht : takeToken? alpha c s = some (t, r))
    (hr : Spells alpha r ts) : Spells alpha (c :: s) (if t = .mark ',' then ts else t :: ts) := by
  intro x us hx hus
  rw [List.cons_append, lexemes?_token hsep hcomment ((takeToken?_append ht).2 x hx),
    hr x us hx hus, Option.map_some]
  split
  · rfl
  · rw [List.cons_append]

theorem Spells.comma {s : List Char} {ts : List Token} (hs : Spells alpha s ts) :
    Spells alpha (',' :: s) ts :=
  Spells.token (t := .mark ',') rfl (by decide) rfl hs

/-- A text is read as given tokens whatever follows it. -/
def SpellsWhole (alpha : Alphabet) (s : List Char) (ts : List Token) : Prop :=
  ∀ x us, lexemes? alpha x = some us → lexemes? alpha (s ++ x) = some (ts ++ us)

theorem spellsWhole_nil : SpellsWhole alpha [] [] :=
  fun _ _ h => h

theorem SpellsWhole.append {s s' : List Char} {ts ts' : List Token} (hs : SpellsWhole alpha s ts)
    (hs' : SpellsWhole alpha s' ts') : SpellsWhole alpha (s ++ s') (ts ++ ts') := by
  intro x us hus
  rw [List.append_assoc, List.append_assoc]
  exact hs _ _ (hs' x us hus)

theorem SpellsWhole.append_spells {s s' : List Char} {ts ts' : List Token}
    (hs : SpellsWhole alpha s ts) (hs' : Spells alpha s' ts') :
    Spells alpha (s ++ s') (ts ++ ts') := by
  intro x us hx hus
  rw [List.append_assoc, List.append_assoc]
  exact hs _ _ (hs' x us hx hus)

/-- A separator completes a text. -/
theorem Spells.whole {s : List Char} {ts : List Token} (hs : Spells alpha s ts) {c : Char}
    (hc : isSeparator c = true) (hd : Delimited [c]) : SpellsWhole alpha (s ++ [c]) ts := by
  intro x us hus
  rw [List.append_assoc, List.singleton_append]
  refine hs _ us (hd.append_left x) ?_
  rw [lexemes?_separator hc]
  exact hus

/-- A mark neither separates tokens nor opens a comment. -/
theorem of_isMark {c : Char} (hc : isMark c = true) : isSeparator c = false ∧ c ≠ '#' := by
  have hmarks : ∀ d ∈ marks, isSeparator d = false ∧ d ≠ '#' := by
    simp [marks, isSeparator]
  exact hmarks c (List.contains_iff_mem.mp hc)

theorem Spells.mark {c : Char} (hc : isMark c = true) (hcomma : c ≠ ',') {s : List Char}
    {ts : List Token} (hs : Spells alpha s ts) : Spells alpha (c :: s) (.mark c :: ts) := by
  obtain ⟨hsep, hcomment⟩ := of_isMark hc
  have ht : takeToken? alpha c s = some (.mark c, s) := by
    rw [takeToken?, if_pos hc]
  have hne : Token.mark c ≠ .mark ',' := by
    rintro ⟨⟩
    exact hcomma rfl
  have htoken := hs.token hsep hcomment ht
  rw [if_neg hne] at htoken
  exact htoken

theorem spells_mark {c : Char} (hc : isMark c = true) (hcomma : c ≠ ',') :
    Spells alpha [c] [.mark c] :=
  spells_nil.mark hc hcomma

/-! ### Names -/

/-- The first character of a name starts no other token. -/
theorem of_isNameStart {c : Char} (hc : Name.isNameStart c = true) :
    isSeparator c = false ∧ c ≠ '#' ∧ isMark c = false := by
  have hne : ∀ d, Name.isNameStart d = false → c ≠ d := by
    rintro d hd rfl
    rw [hc] at hd
    cases hd
  have hmarks : ∀ d ∈ marks, Name.isNameStart d = false := by
    simp [marks, Name.isNameStart]
  refine ⟨?_, hne '#' rfl, ?_⟩
  · simp [isSeparator, hne ' ' rfl, hne '\t' rfl, hne '\n' rfl, hne '\r' rfl, hne '\ufeff' rfl]
  · rw [isMark, ← Bool.not_eq_true, List.contains_iff_mem]
    exact fun hmem => hne c (hmarks c hmem) rfl

/-- Characters of a kind are all taken from the front of a text that goes on with another one. -/
theorem span_of_all {p : Char → Bool} {s x : List Char} (hs : s.all p = true)
    (hx : ∀ c ∈ x.head?, p c = false) :
    (s ++ x).takeWhile p = s ∧ (s ++ x).dropWhile p = x := by
  rw [List.all_eq_true] at hs
  obtain ⟨htake, hdrop⟩ := span_append (s := []) fun _ => hx
  rw [List.nil_append] at htake hdrop
  rw [List.takeWhile_append_of_pos hs, List.dropWhile_append_of_pos hs, htake, hdrop]
  exact ⟨List.append_nil _, rfl⟩

/-- A name is taken from the front of a text that does not go on with it. -/
theorem takeToken?_name {n : String} (hn : Name.isName n = true) {x : List Char}
    (hx : Delimited x) :
    ∃ c s, n.toList = c :: s ∧ isSeparator c = false ∧ c ≠ '#' ∧
      takeToken? alpha c (s ++ x) = some (.name n, x) := by
  rw [Name.isName] at hn
  obtain ⟨c, s, hs⟩ : ∃ c s, n.toList = c :: s := by
    cases h : n.toList with
    | nil => rw [h] at hn; cases hn
    | cons c s => exact ⟨c, s, rfl⟩
  rw [hs, Name.isNameChars, Bool.and_eq_true] at hn
  obtain ⟨hsep, hcomment, hmark⟩ := of_isNameStart hn.1
  obtain ⟨htake, hdrop⟩ := span_of_all hn.2 fun c hc => (hx c hc).1
  refine ⟨c, s, hs, hsep, hcomment, ?_⟩
  rw [takeToken?, if_neg (by rw [hmark]; exact Bool.false_ne_true), if_pos hn.1, htake, hdrop,
    ← hs, String.ofList_toList]

theorem spells_name {n : String} (hn : Name.isName n = true) : Spells alpha n.toList [.name n] := by
  intro x us hx hus
  obtain ⟨c, s, hs, hsep, hcomment, ht⟩ := takeToken?_name hn hx
  rw [hs, List.cons_append, lexemes?_token hsep hcomment ht, hus]
  rfl

/-- A name and a blank before a text. -/
theorem Spells.keyword {n : String} (hn : Name.isName n = true) {s : List Char} {ts : List Token}
    (hs : Spells alpha s ts) : Spells alpha (n.toList ++ ' ' :: s) (.name n :: ts) :=
  (spells_name hn).append (hs.separator rfl) (delimited_cons s rfl (by decide) (by decide))

/-! ### Texts with separators between them -/

theorem joined_cons_cons (separator part part' : List Char) (parts : List (List Char)) :
    Introspection.joined separator (part :: part' :: parts) =
      part ++ (separator ++ Introspection.joined separator (part' :: parts)) := by
  simp [Introspection.joined, List.intercalate]

/-- Texts with a separator between each two of them, which may spell tokens itself. -/
theorem spells_joined {separator : List Char} (us : List Token) (hd : Delimited separator)
    (hne : separator ≠ [])
    (hseparator : ∀ s ts, Spells alpha s ts → Spells alpha (separator ++ s) (us ++ ts))
    {part : List Char} {parts : List (List Char)} {ts : List Token} {tss : List (List Token)}
    (hpart : Spells alpha part ts) (hparts : List.Forall₂ (Spells alpha) parts tss) :
    Spells alpha (Introspection.joined separator (part :: parts))
      (ts ++ tss.flatMap (us ++ ·)) := by
  induction hparts generalizing part ts with
  | nil =>
    rw [List.flatMap_nil, List.append_nil]
    simpa [Introspection.joined, List.intercalate] using hpart
  | cons hnext _ ih =>
    have hrest := hseparator _ _ (ih hnext)
    rw [joined_cons_cons, List.flatMap_cons, List.append_assoc]
    refine hpart.append hrest ?_
    cases separator with
    | nil => exact absurd rfl hne
    | cons c separator => exact hd

/-- Texts with a separator between each two of them that spells nothing. -/
theorem spells_joined_flatten {separator : List Char} (hd : Delimited separator)
    (hne : separator ≠ [])
    (hseparator : ∀ s ts, Spells alpha s ts → Spells alpha (separator ++ s) ts)
    {parts : List (List Char)} {tss : List (List Token)}
    (hparts : List.Forall₂ (Spells alpha) parts tss) :
    Spells alpha (Introspection.joined separator parts) tss.flatten := by
  cases hparts with
  | nil => exact spells_nil
  | cons hpart hparts =>
    have hjoined := spells_joined [] hd hne hseparator hpart hparts
    simpa [List.flatMap] using hjoined

/-! ### Strings -/

theorem takeEscape?_backslash (s : List Char) :
    takeEscape? alpha ('\\' :: s) = some ('\\', s) := rfl

theorem takeEscape?_quote (s : List Char) : takeEscape? alpha ('"' :: s) = some ('"', s) := rfl

theorem takeEscape?_n (s : List Char) : takeEscape? alpha ('n' :: s) = some ('\n', s) := rfl

theorem escapedChars_cons (c : Char) (u : List Char) :
    Introspection.escapedChars (c :: u) =
      Introspection.escapedChars [c] ++ Introspection.escapedChars u := by
  simp [Introspection.escapedChars]

theorem escapedChars_singleton_ne_nil (c : Char) : Introspection.escapedChars [c] ≠ [] := by
  rw [Introspection.escapedChars, List.flatMap_singleton]
  split_ifs <;> exact List.cons_ne_nil _ _

/-- An escaped character is read back. -/
theorem takeQuoted?_escapedChar {c : Char} (hc : c ≠ '\r') (n : Nat) (x : List Char) :
    takeQuoted? alpha (n + 1) (Introspection.escapedChars [c] ++ x) =
      (takeQuoted? alpha n x).map fun p => (c :: p.1, p.2) := by
  rw [Introspection.escapedChars, List.flatMap_singleton]
  split_ifs with hbackslash hquote hline
  · subst hbackslash
    rw [List.cons_append, List.singleton_append, takeQuoted?, takeEscape?_backslash]
  · subst hquote
    rw [List.cons_append, List.singleton_append, takeQuoted?, takeEscape?_quote]
  · subst hline
    rw [List.cons_append, List.singleton_append, takeQuoted?, takeEscape?_n]
  · have hend : isLineEnd c = false := by
      simp [isLineEnd, hline, hc]
    rw [List.singleton_append, takeQuoted?, if_neg (by rw [hend]; exact Bool.false_ne_true)]
    · exact hquote
    · exact hbackslash

/-- A text without carriage returns is read back from between its quotes. -/
theorem takeQuoted?_escapedChars {u : List Char} (hu : '\r' ∉ u) (x : List Char) {n : Nat}
    (hn : (Introspection.escapedChars u ++ '"' :: x).length < n) :
    takeQuoted? alpha n (Introspection.escapedChars u ++ '"' :: x) = some (u, x) := by
  induction u generalizing n with
  | nil =>
    obtain ⟨n, rfl⟩ : ∃ k, n = k + 1 := ⟨n - 1, by omega⟩
    rfl
  | cons c u ih =>
    rw [List.mem_cons, not_or] at hu
    obtain ⟨n, rfl⟩ : ∃ k, n = k + 1 := ⟨n - 1, by omega⟩
    have hlength := List.length_pos_of_ne_nil (escapedChars_singleton_ne_nil c)
    rw [escapedChars_cons, List.append_assoc, List.length_append] at hn
    rw [escapedChars_cons, List.append_assoc, takeQuoted?_escapedChar (Ne.symm hu.1),
      ih hu.2 (by omega), Option.map_some]

/-- A text between its quotes does not open with the two quotes that would make a block of it. -/
theorem escapedChars_ne_quotes (u : List Char) {x : List Char} (hx : Delimited x)
    (body : List Char) : Introspection.escapedChars u ++ '"' :: x ≠ '"' :: '"' :: body := by
  intro h
  cases u with
  | nil =>
    cases x with
    | nil => cases h
    | cons d x =>
      cases h
      exact (hx '"' rfl).2.2 rfl
  | cons c u =>
    rw [Introspection.escapedChars, List.flatMap_cons, List.append_assoc] at h
    split at h
    · cases h
    · split at h
      · cases h
      · next hquote =>
        split at h
        · cases h
        · exact hquote (List.cons.inj h).1

/-- A text between its quotes is one token, and nothing of what follows is taken with it. -/
theorem takeToken?_quoted {u : String} (hu : '\r' ∉ u.toList) {x : List Char} (hx : Delimited x) :
    takeToken? alpha '"' (Introspection.escapedChars u.toList ++ '"' :: x) =
      some (.string u, x) := by
  have hstring : takeString? alpha (Introspection.escapedChars u.toList ++ '"' :: x) =
      some (.string u, x) := by
    unfold takeString?
    split
    · next body hbody => exact absurd hbody (escapedChars_ne_quotes _ hx body)
    · rw [takeQuoted?_escapedChars hu x (Nat.lt_succ_self _), Option.map_some]
      simp only [String.ofList_toList]
  exact hstring

theorem spells_quoted {u : String} (hu : '\r' ∉ u.toList) :
    Spells alpha ('"' :: Introspection.escapedChars u.toList ++ ['"']) [.string u] := by
  intro x us hx hus
  rw [List.cons_append, List.cons_append, List.append_assoc, List.singleton_append,
    lexemes?_token rfl (by decide) (takeToken?_quoted hu hx), hus]
  rfl

/-! ### Block strings -/

theorem of_isInlineBlank {c : Char} (hc : isInlineBlank c = true) :
    isSeparator c = true ∧ isLineEnd c = false ∧ c ≠ '"' ∧ c ≠ '\\' := by
  rw [isInlineBlank, Bool.or_eq_true, decide_eq_true_eq, decide_eq_true_eq] at hc
  rcases hc with rfl | rfl <;> decide

/-- The characters of a block before its closing quotes. -/
theorem takeBlock?_blank {w : List Char} (hw : ∀ c ∈ w, c ≠ '"' ∧ c ≠ '\\') (x : List Char) :
    takeBlock? (w ++ '"' :: '"' :: '"' :: x) = some (w, x) := by
  induction w with
  | nil => rfl
  | cons c w ih =>
    obtain ⟨hquote, hescape⟩ := hw c List.mem_cons_self
    rw [List.cons_append, takeBlock?, ih fun d hd => hw d (List.mem_cons_of_mem _ hd),
      Option.map_some]
    · rintro y rfl
      exact absurd rfl hquote
    · rintro y rfl
      exact absurd rfl hescape

/-- Quotes at the front of a text between the quotes of a block are quotes of the text, fewer than
three. -/
theorem blockChars_eq_quote {u y z : List Char}
    (h : Introspection.blockChars u ++ '\n' :: y = '"' :: z) :
    ∃ v, u = '"' :: v ∧ z = Introspection.blockChars v ++ '\n' :: y ∧
      ∀ w, v ≠ '"' :: '"' :: w := by
  unfold Introspection.blockChars at h
  split at h
  · cases h
  · next c v hquotes =>
    obtain ⟨rfl, rfl⟩ := List.cons.inj h
    exact ⟨v, rfl, rfl, fun w hw => hquotes w rfl hw⟩
  · cases h

/-- A text is read back from between the quotes of a block, with the line of the closing quotes. -/
theorem takeBlock?_blockChars (u : List Char) {w : List Char}
    (hw : ∀ c ∈ w, c ≠ '"' ∧ c ≠ '\\') (x : List Char) :
    takeBlock? (Introspection.blockChars u ++ '\n' :: (w ++ '"' :: '"' :: '"' :: x)) =
      some (u ++ '\n' :: w, x) := by
  fun_induction Introspection.blockChars u with
  | case1 u ih =>
    simp only [List.cons_append, takeBlock?, ih, Option.map_some]
  | case2 c u hquotes ih =>
    rw [List.cons_append, takeBlock?, ih, Option.map_some]
    · rfl
    · rintro z rfl hz
      obtain ⟨v, rfl, hv, -⟩ := blockChars_eq_quote hz
      obtain ⟨v', rfl, -, -⟩ := blockChars_eq_quote hv.symm
      exact hquotes v' rfl rfl
    · rintro z rfl hz
      obtain ⟨v, rfl, hv, hne⟩ := blockChars_eq_quote hz
      obtain ⟨v', rfl, hv', -⟩ := blockChars_eq_quote hv.symm
      obtain ⟨v'', rfl, -, -⟩ := blockChars_eq_quote hv'.symm
      exact hne v'' rfl
  | case3 =>
    exact takeBlock?_blank (List.forall_mem_cons.mpr ⟨by decide, hw⟩) x

theorem lines_cons {c : Char} (hc : isLineEnd c = false) {s line : List Char}
    {more : List (List Char)} (h : lines s = line :: more) :
    lines (c :: s) = (c :: line) :: more := by
  rw [lines, if_neg (by rw [hc]; exact Bool.false_ne_true), h]
  rintro rest rfl
  cases hc

theorem lines_newline (s : List Char) : lines ('\n' :: s) = [] :: lines s := by
  have hend : isLineEnd '\n' = true := rfl
  rw [lines, if_pos hend]
  rintro rest hrest
  cases hrest

theorem exists_lines_eq_cons (s : List Char) : ∃ line more, lines s = line :: more := by
  unfold lines
  split
  · exact ⟨_, _, rfl⟩
  · exact ⟨_, _, rfl⟩
  · split
    · exact ⟨_, _, rfl⟩
    · split <;> exact ⟨_, _, rfl⟩

/-- A line feed after a text without carriage returns starts a new line. -/
theorem lines_append {u : List Char} (hu : '\r' ∉ u) (v : List Char) :
    lines (u ++ '\n' :: v) = lines u ++ lines v := by
  induction u with
  | nil => rw [List.nil_append, lines_newline]; rfl
  | cons c u ih =>
    rw [List.mem_cons, not_or] at hu
    by_cases hc : c = '\n'
    · subst hc
      rw [List.cons_append, lines_newline, lines_newline, ih hu.2, List.cons_append]
    · have hend : isLineEnd c = false := by
        simp [isLineEnd, hc, Ne.symm hu.1]
      obtain ⟨line, more, hline⟩ := exists_lines_eq_cons u
      have happend : lines (u ++ '\n' :: v) = line :: (more ++ lines v) := by
        rw [ih hu.2, hline, List.cons_append]
      rw [List.cons_append, lines_cons hend happend, lines_cons hend hline, List.cons_append]

/-- Blanks are a line of their own. -/
theorem lines_blank {w : List Char} (hw : ∀ c ∈ w, isInlineBlank c) : lines w = [w] := by
  induction w with
  | nil => rfl
  | cons c w ih =>
    have hc := (of_isInlineBlank (hw c List.mem_cons_self)).2.1
    exact lines_cons hc (ih fun d hd => hw d (List.mem_cons_of_mem _ hd))

/-- A last element of a kind makes no difference to what is left when the elements of the kind are
dropped at both ends. -/
theorem trim_append_singleton {α : Type} {p : α → Bool} {a : α} (ha : p a = true) (l : List α) :
    (((l ++ [a]).dropWhile p).reverse.dropWhile p).reverse =
      ((l.dropWhile p).reverse.dropWhile p).reverse := by
  rw [List.dropWhile_append]
  split
  · next h =>
    rw [List.isEmpty_iff] at h
    rw [h, List.dropWhile_cons_of_pos ha, List.dropWhile_nil]
  · rw [List.reverse_append, List.reverse_singleton, List.singleton_append,
      List.dropWhile_cons_of_pos ha]

/-- A last line of blanks makes no difference to the text of a block. -/
theorem blockValue_append {u w : List Char} (hu : '\r' ∉ u) (hw : ∀ c ∈ w, isInlineBlank c) :
    blockValue (u ++ '\n' :: w) = blockValue u := by
  obtain ⟨first, more, hlines⟩ := exists_lines_eq_cons u
  have hall : w.all isInlineBlank = true := List.all_eq_true.mpr hw
  have hmargin : commonMargin (more ++ [w]) = commonMargin more := by
    rw [commonMargin, List.filterMap_append, commonMargin]
    simp [margin?, hall]
  have hdrop : ∀ n, (w.drop n).all isInlineBlank = true := fun n =>
    List.all_eq_true.mpr fun c hc => hw c (List.mem_of_mem_drop hc)
  rw [blockValue, lines_append hu, lines_blank hw, hlines, List.cons_append, blockValue, hlines]
  simp only [hmargin, List.map_append, List.map_cons, List.map_nil]
  rw [← List.cons_append,
    trim_append_singleton (p := fun line : List Char => line.all isInlineBlank) (hdrop _)]

/-- A text of several lines is spelled as a block. -/
theorem spells_block {u w : List Char} (hu : '\r' ∉ u) (hw : ∀ c ∈ w, isInlineBlank c) :
    Spells alpha
      ('"' :: '"' :: '"' :: '\n' :: Introspection.blockChars u ++ '\n' :: w ++ ['"', '"', '"'])
      [.string (String.ofList (blockValue ('\n' :: u)))] := by
  intro x us hx hus
  have hraw : '\r' ∉ '\n' :: u := by
    rw [List.mem_cons, not_or]
    exact ⟨by decide, hu⟩
  have hblock := takeBlock?_blockChars ('\n' :: u)
    (fun c hc => (of_isInlineBlank (hw c hc)).2.2) x
  have ht : takeToken? alpha '"' ('"' :: '"' :: (Introspection.blockChars ('\n' :: u) ++
      '\n' :: (w ++ '"' :: '"' :: '"' :: x))) =
      some (.string (String.ofList (blockValue ('\n' :: u))), x) := by
    have hstring : takeString? alpha ('"' :: '"' :: (Introspection.blockChars ('\n' :: u) ++
        '\n' :: (w ++ '"' :: '"' :: '"' :: x))) =
        some (.string (String.ofList (blockValue ('\n' :: u ++ '\n' :: w))), x) := by
      rw [takeString?, hblock, Option.map_some]
    rw [← blockValue_append hraw hw]
    exact hstring
  have htext := lexemes?_token rfl (by decide) ht
  rw [hus] at htext
  simp only [List.append_assoc, List.cons_append, List.nil_append]
  exact htext

/-! ### Any text -/

/-- A text spells its tokens, unless it ends in a comment, which would hide a comma after it. -/
theorem spells_of_tokensFrom? {s : List Char} {ts : List Token} (hs : tokensFrom? alpha s = some ts)
    (hend : tokensFrom? alpha (s ++ [',']) = some (ts ++ [.mark ','])) :
    Spells alpha s (withoutCommas ts) := by
  have hcomma : Delimited [','] := delimited_cons [] rfl (by decide) (by decide)
  -- The rest after a token or a comment is no tail of the text, so the induction is on the length.
  induction hn : s.length using Nat.strongRecOn generalizing s ts with
  | ind n ih =>
    subst hn
    cases s with
    | nil =>
      cases hs
      exact spells_nil
    | cons c s =>
      rw [List.cons_append] at hend
      by_cases hsep : isSeparator c = true
      · rw [tokensFrom?_separator hsep] at hs hend
        exact (ih s.length (Nat.lt_succ_self _) hs hend rfl).separator hsep
      rw [Bool.not_eq_true] at hsep
      by_cases hcomment : c = '#'
      · subst hcomment
        rw [tokensFrom?_comment] at hs hend
        have hlength := (List.dropWhile_suffix (l := s) fun d => !isLineEnd d).length_le
        by_cases hnil : s.dropWhile (fun d => !isLineEnd d) = []
        · rw [hnil] at hs
          cases hs
          rw [List.dropWhile_append_of_pos (List.dropWhile_eq_nil_iff.mp hnil)] at hend
          cases hend
        · rw [(span_append fun h => absurd h hnil).2] at hend
          exact (ih _ (Nat.lt_succ_of_le hlength) hs hend rfl).comment hnil
      · obtain ⟨t, r, ht⟩ := exists_takeToken? hsep hcomment hs
        obtain ⟨hlength, happend⟩ := takeToken?_append ht
        rw [tokensFrom?_token hsep hcomment ht, Option.map_eq_some_iff] at hs
        rw [tokensFrom?_token hsep hcomment (happend _ hcomma), Option.map_eq_some_iff] at hend
        obtain ⟨ts, hs, rfl⟩ := hs
        obtain ⟨us, hend, hus⟩ := hend
        cases hus
        rw [withoutCommas_cons]
        exact (ih _ (Nat.lt_succ_of_le hlength) hs hend rfl).token hsep hcomment ht

end GraphQLClient.Sdl
