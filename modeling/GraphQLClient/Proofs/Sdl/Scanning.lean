import GraphQLClient.Proofs.Json.Numbers
import GraphQLClient.Sdl.Token

/-!
# Scanning single tokens

The scanner of a token reads it from the front of a text and leaves the rest.  What it has read it
does not read otherwise when the text goes on: a string ends with its quotes, and a name or number
ends where a character follows that is no part of it.  So a token may be looked at on its own,
whatever stands behind it.  A larger alphabet only adds characters and escapes, and reads nothing
otherwise.

## Main definitions

* `Sdl.Delimited` : a text that goes on with no part of a token before it.

## Main results

* `Sdl.takeToken?_append` : a token is the same when the text goes on.
* `Sdl.tokens?_all` : the tokens of a text are the same in all alphabets that have some.
-/

namespace GraphQLClient.Sdl

variable {alpha : Alphabet}

/-- A text that does not go on with a character of a name or a number, or with a quote. -/
def Delimited (s : List Char) : Prop :=
  ∀ c ∈ s.head?, Name.isNameContinue c = false ∧ c ≠ '.' ∧ c ≠ '"'

theorem delimited_nil : Delimited [] := by
  intro c hc
  cases hc

theorem delimited_cons {c : Char} (s : List Char) (hname : Name.isNameContinue c = false)
    (hpoint : c ≠ '.') (hquote : c ≠ '"') : Delimited (c :: s) := by
  intro d hd
  cases hd
  exact ⟨hname, hpoint, hquote⟩

/-- What continues a number continues a name, or is a point. -/
theorem Delimited.endsNumber {s : List Char} (h : Delimited s) : Json.Source.EndsNumber s := by
  intro c hc
  obtain ⟨hname, hpoint, -⟩ := h c hc
  have hdigit : Decimal.isDigit c = false := (Bool.or_eq_false_iff.mp hname).2
  refine ⟨hdigit, hpoint, ?_, ?_⟩ <;> rintro rfl <;> cases hname

/-! ### Strings -/

theorem takeBraced?_append {s r : List Char} {c : Char} (h : takeBraced? s = some (c, r)) :
    r.length + 2 ≤ s.length ∧ ∀ x, takeBraced? (s ++ x) = some (c, r ++ x) := by
  simp only [takeBraced?, List.span_eq_takeWhile_dropWhile] at h ⊢
  split at h
  case h_2 => cases h
  case h_1 rest hrest =>
    split at h
    · cases h
    · next hdigits =>
      rw [Option.map_eq_some_iff] at h
      obtain ⟨d, hd, hdr⟩ := h
      cases hdr
      refine ⟨?_, fun x => ?_⟩
      · have hsplit := List.takeWhile_append_dropWhile
          (p := fun c => (Json.Source.hexValue? c).isSome) (l := s)
        have hlength := congrArg List.length hsplit
        rw [List.length_append, hrest, List.length_cons] at hlength
        rw [List.isEmpty_iff, ← List.length_eq_zero_iff] at hdigits
        omega
      · obtain ⟨htake, hdrop⟩ := span_append (x := x)
          (p := fun c => (Json.Source.hexValue? c).isSome) (s := s)
          (fun hnil => by rw [hrest] at hnil; cases hnil)
        rw [htake, hdrop, hrest, List.cons_append]
        simp only
        rw [if_neg hdigits, hd, Option.map_some]

theorem takeHalf?_append {s r : List Char} {n : Nat} (h : takeHalf? s = some (n, r)) :
    r.length ≤ s.length ∧ ∀ x, takeHalf? (s ++ x) = some (n, r ++ x) := by
  unfold takeHalf? at h
  split at h
  case h_2 => cases h
  case h_1 a b c d rest =>
    split at h
    · cases h
    · next m hm =>
      split at h
      · next hhalf =>
        cases h
        refine ⟨by simp only [List.length_cons]; omega, fun x => ?_⟩
        simp only [List.cons_append, takeHalf?, hm]
        rw [if_pos hhalf]
      · cases h

/-- A text does not break off within an escape that is the second half of a pair. -/
def EndsNoHalf (s : List Char) : Prop :=
  takeHalf? s = none → ∀ x, takeHalf? (s ++ x) = none

theorem takeUnits?_append {halves : Bool} {s r : List Char} {c : Char}
    (h : takeUnits? halves s = some (c, r)) :
    r.length + 4 ≤ s.length ∧
      (EndsNoHalf r → ∀ x, takeUnits? halves (s ++ x) = some (c, r ++ x)) := by
  unfold takeUnits? at h
  split at h
  case h_2 => cases h
  case h_1 a b c' d rest =>
    split at h
    · cases h
    · next n hn =>
      simp only at h
      split at h
      · next hhigh =>
        split at h
        · next m rest' hhalf =>
          obtain ⟨hlength, happend⟩ := takeHalf?_append hhalf
          obtain ⟨hc, hr⟩ := Prod.mk.inj (Option.some.inj h)
          subst hr
          refine ⟨by simp only [List.length_cons]; omega, fun _ x => ?_⟩
          simp only [List.cons_append, takeUnits?, hn, happend x]
          rw [if_pos hhigh, hc]
        · next hhalf =>
          rw [Option.ite_none_right_eq_some] at h
          obtain ⟨hhalves, h⟩ := h
          cases h
          refine ⟨by simp only [List.length_cons]; omega, fun hends x => ?_⟩
          simp only [List.cons_append, takeUnits?, hn, hends hhalf x]
          rw [if_pos hhigh, if_pos hhalves]
      · next hhigh =>
        split at h
        · next hlow =>
          rw [Option.ite_none_right_eq_some] at h
          obtain ⟨hhalves, h⟩ := h
          cases h
          refine ⟨by simp only [List.length_cons]; omega, fun _ x => ?_⟩
          simp only [List.cons_append, takeUnits?, hn]
          rw [if_neg hhigh, if_pos hlow, if_pos hhalves]
        · next hlow =>
          rw [Option.map_eq_some_iff] at h
          obtain ⟨d', hd', hdr⟩ := h
          cases hdr
          refine ⟨by simp only [List.length_cons]; omega, fun _ x => ?_⟩
          simp only [List.cons_append, takeUnits?, hn]
          rw [if_neg hhigh, if_neg hlow, hd', Option.map_some]

theorem takeEscape?_append {s r : List Char} {c : Char} (h : takeEscape? alpha s = some (c, r)) :
    r.length < s.length ∧
      (EndsNoHalf r → ∀ x, takeEscape? alpha (s ++ x) = some (c, r ++ x)) := by
  unfold takeEscape? at h
  split at h
  · next rest =>
    split at h
    · next hfull =>
      obtain ⟨hlength, happend⟩ := takeBraced?_append h
      refine ⟨by simp only [List.length_cons]; omega, fun _ x => ?_⟩
      rw [List.cons_append, List.cons_append, takeEscape?, if_pos hfull, happend x]
    · cases h
  · next rest hbrace =>
    obtain ⟨hlength, happend⟩ := takeUnits?_append h
    refine ⟨by simp only [List.length_cons]; omega, fun hends x => ?_⟩
    cases rest with
    | nil => cases h
    | cons d rest =>
      have hd : d ≠ '\x7b' := by
        rintro rfl
        exact hbrace rest rfl
      rw [List.cons_append, List.cons_append, takeEscape?]
      · exact happend hends x
      · rintro rest' hrest
        cases hrest
        exact hd rfl
  · next d rest hbrace hu =>
    rw [Option.map_eq_some_iff] at h
    obtain ⟨e, he, her⟩ := h
    cases her
    refine ⟨Nat.lt_succ_self _, fun _ x => ?_⟩
    rw [List.cons_append, takeEscape?, he, Option.map_some]
    · rintro rest' rfl
      exact fun _ => hu rfl
    · exact hu
  · cases h

theorem takeHalf?_of_ne {c : Char} (hc : c ≠ '\\') (s : List Char) : takeHalf? (c :: s) = none := by
  unfold takeHalf?
  split
  · next heq => exact absurd (List.cons.inj heq).1 hc
  · rfl

theorem takeHalf?_of_ne_u {d : Char} (hd : d ≠ 'u') (s : List Char) :
    takeHalf? ('\\' :: d :: s) = none := by
  unfold takeHalf?
  split
  · next heq => exact absurd (List.cons.inj (List.cons.inj heq).2).1 hd
  · rfl

theorem length_of_takeEscape?_u {s r : List Char} {c : Char}
    (h : takeEscape? alpha ('u' :: s) = some (c, r)) : r.length + 3 ≤ s.length := by
  unfold takeEscape? at h
  split at h
  · next rest heq =>
    cases heq
    split at h
    · have := (takeBraced?_append h).1
      rw [List.length_cons]
      omega
    · cases h
  · next rest _ heq =>
    cases heq
    have := (takeUnits?_append h).1
    omega
  · next _ _ _ hu heq =>
    cases heq
    exact absurd rfl hu
  · next heq => cases heq

/-- An escape with its four digits is not the second half of a pair for what follows it. -/
theorem takeHalf?_u_append {s : List Char} (hfour : 4 ≤ s.length)
    (h : takeHalf? ('\\' :: 'u' :: s) = none) (x : List Char) :
    takeHalf? ('\\' :: 'u' :: (s ++ x)) = none := by
  match s, hfour with
  | a :: b :: c :: d :: rest, _ =>
    simp only [List.cons_append, takeHalf?] at h ⊢
    cases hhex : Json.Source.hexUnit? a b c d with
    | none => rfl
    | some m =>
      simp only [hhex] at h ⊢
      split at h
      · cases h
      · next hnot => rw [if_neg hnot]

/-- A string that begins with an escape by number and closes has four characters or more behind the
letter of the escape, the closing quote among them. -/
theorem four_le_length_of_takeQuoted?_u {n : Nat} {s : List Char} {p : List Char × List Char}
    (h : takeQuoted? alpha (n + 1) ('\\' :: 'u' :: s) = some p) : 4 ≤ s.length := by
  rw [takeQuoted?] at h
  cases hescape : takeEscape? alpha ('u' :: s) with
  | none =>
    rw [hescape] at h
    cases h
  | some q =>
    obtain ⟨c, r⟩ := q
    have hlength := length_of_takeEscape?_u hescape
    simp only [hescape, Option.map_eq_some_iff] at h
    obtain ⟨q, hq, -⟩ := h
    have hr : r ≠ [] := by
      rintro rfl
      cases n <;> cases hq
    have hpos := List.length_pos_iff.mpr hr
    omega

/-- A text that goes on to a closing quote does not break off within an escape. -/
theorem endsNoHalf_of_takeQuoted? {n : Nat} {s : List Char} {p : List Char × List Char}
    (h : takeQuoted? alpha n s = some p) : EndsNoHalf s := by
  obtain ⟨n, rfl⟩ : ∃ k, n = k + 1 := by
    cases n with
    | zero => cases h
    | succ n => exact ⟨n, rfl⟩
  intro hhalf x
  match s with
  | [] => cases h
  | [c] =>
    by_cases hc : c = '\\'
    · subst hc
      cases h
    · exact takeHalf?_of_ne hc _
  | c :: d :: s =>
    by_cases hc : c = '\\'
    · subst hc
      by_cases hd : d = 'u'
      · subst hd
        exact takeHalf?_u_append (four_le_length_of_takeQuoted?_u h) hhalf x
      · exact takeHalf?_of_ne_u hd _
    · exact takeHalf?_of_ne hc _

/-- The number of steps of a quoted string that ends does not matter. -/
theorem takeQuoted?_append {n : Nat} {s r u : List Char} (h : takeQuoted? alpha n s = some (u, r)) :
    r.length ≤ s.length ∧ ∀ m x, n ≤ m → takeQuoted? alpha m (s ++ x) = some (u, r ++ x) := by
  induction n generalizing s u with
  | zero => cases h
  | succ n ih =>
    have hsteps : ∀ m, n + 1 ≤ m → ∃ k, m = k + 1 ∧ n ≤ k := fun m hm =>
      ⟨m - 1, by omega, by omega⟩
    cases s with
    | nil => cases h
    | cons c s =>
      by_cases hquote : c = '"'
      · subst hquote
        cases h
        refine ⟨Nat.le_succ _, fun m x hm => ?_⟩
        obtain ⟨k, rfl, hk⟩ := hsteps m hm
        rfl
      · by_cases hescape : c = '\\'
        · subst hescape
          rw [takeQuoted?] at h
          cases he : takeEscape? alpha s with
          | none => rw [he] at h; cases h
          | some p =>
            obtain ⟨e, s'⟩ := p
            simp only [he, Option.map_eq_some_iff] at h
            obtain ⟨⟨u', r'⟩, hu, hur⟩ := h
            cases hur
            obtain ⟨hlength, happend⟩ := takeEscape?_append he
            obtain ⟨hlength', happend'⟩ := ih hu
            refine ⟨by rw [List.length_cons]; omega, fun m x hm => ?_⟩
            obtain ⟨k, rfl, hk⟩ := hsteps m hm
            rw [List.cons_append, takeQuoted?, happend (endsNoHalf_of_takeQuoted? hu) x]
            simp only
            rw [happend' k x hk, Option.map_some]
        · rw [takeQuoted?] at h
          · split at h
            · cases h
            · next hline =>
              rw [Option.map_eq_some_iff] at h
              obtain ⟨⟨u', r'⟩, hu, hur⟩ := h
              cases hur
              obtain ⟨hlength, happend⟩ := ih hu
              refine ⟨by rw [List.length_cons]; omega, fun m x hm => ?_⟩
              obtain ⟨k, rfl, hk⟩ := hsteps m hm
              rw [List.cons_append, takeQuoted?]
              · rw [if_neg hline, happend k x hk, Option.map_some]
              · exact hquote
              · exact hescape
          · exact hquote
          · exact hescape

/-- A block string that ends has at least its three closing quotes. -/
theorem three_le_length_of_takeBlock? {s r u : List Char} (h : takeBlock? s = some (u, r)) :
    3 ≤ s.length := by
  fun_induction takeBlock? s generalizing u with
  | case1 => cases h
  | case2 rest => simp
  | case3 rest ih => simp
  | case4 c rest hclose hescape ih =>
    rw [Option.map_eq_some_iff] at h
    obtain ⟨⟨u', r'⟩, hu, hur⟩ := h
    cases hur
    have hrest := ih hu
    rw [List.length_cons]
    omega

theorem takeBlock?_append {s r u : List Char} (h : takeBlock? s = some (u, r)) :
    r.length ≤ s.length ∧ ∀ x, takeBlock? (s ++ x) = some (u, r ++ x) := by
  fun_induction takeBlock? s generalizing u with
  | case1 => cases h
  | case2 rest =>
    cases h
    exact ⟨by simp only [List.length_cons]; omega, fun x => rfl⟩
  | case3 rest ih =>
    rw [Option.map_eq_some_iff] at h
    obtain ⟨⟨u', r'⟩, hu, hur⟩ := h
    cases hur
    obtain ⟨hlength, happend⟩ := ih hu
    refine ⟨by simp only [List.length_cons]; omega, fun x => ?_⟩
    simp only [List.cons_append, takeBlock?, happend x, Option.map_some]
  | case4 c rest hclose hescape ih =>
    rw [Option.map_eq_some_iff] at h
    obtain ⟨⟨u', r'⟩, hu, hur⟩ := h
    cases hur
    obtain ⟨hlength, happend⟩ := ih hu
    refine ⟨by rw [List.length_cons]; omega, fun x => ?_⟩
    -- The quotes that would close or escape lie within the text, which goes on for three more.
    obtain ⟨a, b, d, rest', rfl⟩ : ∃ a b d rest', rest = a :: b :: d :: rest' := by
      have hthree := three_le_length_of_takeBlock? hu
      match rest, hthree with
      | a :: b :: d :: rest', _ => exact ⟨a, b, d, rest', rfl⟩
    rw [List.cons_append, takeBlock?, happend x, Option.map_some]
    · rintro y rfl hy
      cases hy
      exact hclose _ rfl rfl
    · rintro y rfl hy
      cases hy
      exact hescape _ rfl rfl

theorem takeString?_append {s r : List Char} {t : Token} (h : takeString? alpha s = some (t, r)) :
    r.length ≤ s.length ∧ ∀ x, Delimited x → takeString? alpha (s ++ x) = some (t, r ++ x) := by
  unfold takeString? at h
  split at h
  · next body =>
    rw [Option.map_eq_some_iff] at h
    obtain ⟨⟨raw, r'⟩, hraw, hr⟩ := h
    cases hr
    obtain ⟨hlength, happend⟩ := takeBlock?_append hraw
    refine ⟨by simp only [List.length_cons]; omega, fun x _ => ?_⟩
    simp only [List.cons_append, takeString?, happend x, Option.map_some]
  · next hblock =>
    rw [Option.map_eq_some_iff] at h
    obtain ⟨⟨u, r'⟩, hu, hr⟩ := h
    cases hr
    obtain ⟨hlength, happend⟩ := takeQuoted?_append hu
    refine ⟨hlength, fun x hx => ?_⟩
    have hsteps := happend ((s ++ x).length + 1) x (by rw [List.length_append]; omega)
    unfold takeString?
    split
    · next body hbody =>
      cases s with
      | nil => cases hu
      | cons c s =>
        cases s with
        | nil =>
          cases x with
          | nil => cases hbody
          | cons d x =>
            cases hbody
            exact absurd rfl (hx '"' rfl).2.2
        | cons d s =>
          cases hbody
          exact absurd rfl (hblock s)
    · rw [hsteps, Option.map_some]

/-! ### Numbers -/

theorem endsNumber_append {r : List Char} (hr : endsNumber r = true) {x : List Char}
    (hx : Delimited x) : endsNumber (r ++ x) = true := by
  cases r with
  | cons c r => exact hr
  | nil =>
    cases x with
    | nil => rfl
    | cons c x =>
      obtain ⟨hname, hpoint, -⟩ := hx c rfl
      simp [endsNumber, hname, hpoint]

theorem takeNumber?_append {sign s r : List Char} {t : Token}
    (h : takeNumber? sign s = some (t, r)) :
    r.length < s.length ∧ ∀ x, Delimited x → takeNumber? sign (s ++ x) = some (t, r ++ x) := by
  simp only [takeNumber?] at h
  cases hm : Json.Source.takeMagnitude? false s with
  | none => simp [hm] at h
  | some p =>
    obtain ⟨n, r'⟩ := p
    obtain ⟨hlength, happend⟩ := Json.Source.takeMagnitude?_append hm
    simp only [hm] at h
    split at h
    · next hends =>
      cases h
      refine ⟨hlength, fun x hx => ?_⟩
      have htake : (s ++ x).take ((s ++ x).length - (r ++ x).length) =
          s.take (s.length - r.length) := by
        rw [List.length_append, List.length_append, Nat.add_sub_add_right,
          List.take_append_of_le_length (Nat.sub_le _ _)]
      simp only [takeNumber?, happend x hx.endsNumber, htake]
      rw [if_pos (endsNumber_append hends hx)]
    · cases h

/-! ### Tokens -/

/-- **A token is the same when the text goes on**, unless the text goes on with a part of it. -/
theorem takeToken?_append {c : Char} {s r : List Char} {t : Token}
    (h : takeToken? alpha c s = some (t, r)) :
    r.length ≤ s.length ∧ ∀ x, Delimited x → takeToken? alpha c (s ++ x) = some (t, r ++ x) := by
  unfold takeToken? at h ⊢
  split at h
  · next hmark =>
    cases h
    exact ⟨Nat.le_refl _, fun x _ => by rw [if_pos hmark]⟩
  · next hmark =>
    simp only [if_neg hmark]
    split at h
    · next hname =>
      cases h
      refine ⟨(List.dropWhile_suffix _).length_le, fun x hx => ?_⟩
      obtain ⟨htake, hdrop⟩ := span_append (s := s) fun _ c hc => (hx c hc).1
      rw [if_pos hname, htake, hdrop]
    · next hname =>
      simp only [if_neg hname]
      split at h
      · next hquote =>
        obtain ⟨hlength, happend⟩ := takeString?_append h
        exact ⟨hlength, fun x hx => by rw [if_pos hquote, happend x hx]⟩
      · next hquote =>
        simp only [if_neg hquote]
        split at h
        · next hsign =>
          obtain ⟨hlength, happend⟩ := takeNumber?_append h
          exact ⟨Nat.le_of_lt hlength, fun x hx => by rw [if_pos hsign, happend x hx]⟩
        · next hsign =>
          simp only [if_neg hsign]
          split at h
          · next hdigit =>
            obtain ⟨hlength, happend⟩ := takeNumber?_append h
            refine ⟨Nat.le_of_lt_succ hlength, fun x hx => ?_⟩
            rw [if_pos hdigit, ← List.cons_append, happend x hx]
          · cases h

/-! ### Alphabets -/

theorem takeUnits?_all {halves : Bool} {s : List Char} {p : Char × List Char}
    (h : takeUnits? halves s = some p) : takeUnits? true s = some p := by
  unfold takeUnits? at h ⊢
  split at h
  case h_2 => cases h
  case h_1 a b c d rest =>
    have hhalf {q : Char × List Char}
        (hq : (if halves then some ('\ufffd', rest) else none) = some q) :
        some ('\ufffd', rest) = some q :=
      (Option.ite_none_right_eq_some.mp hq).2
    cases hhex : Json.Source.hexUnit? a b c d with
    | none =>
      simp only [hhex] at h
      cases h
    | some n =>
      simp only [hhex, if_true] at h ⊢
      split at h
      · next hhigh =>
        rw [if_pos hhigh]
        split at h
        · exact h
        · exact hhalf h
      · next hhigh =>
        rw [if_neg hhigh]
        split at h
        · next hlow => rw [if_pos hlow, hhalf h]
        · next hlow => rw [if_neg hlow, h]

theorem takeEscape?_all {s : List Char} {p : Char × List Char} (h : takeEscape? alpha s = some p) :
    takeEscape? .all s = some p := by
  unfold takeEscape? at h ⊢
  split at h
  · split at h
    · exact h
    · cases h
  · exact takeUnits?_all h
  · exact h
  · cases h

theorem takeQuoted?_all {n : Nat} {s : List Char} {p : List Char × List Char}
    (h : takeQuoted? alpha n s = some p) : takeQuoted? .all n s = some p := by
  fun_induction takeQuoted? alpha n s generalizing p with
  | case1 => cases h
  | case2 => cases h
  | case3 => exact h
  | case4 => cases h
  | case5 steps rest c rest' hescape ih =>
    obtain ⟨q, hq, rfl⟩ := Option.map_eq_some_iff.mp h
    rw [takeQuoted?, takeEscape?_all hescape]
    simp only [ih hq, Option.map_some]
  | case6 => cases h
  | case7 steps c rest hquote hbackslash hend ih =>
    obtain ⟨q, hq, rfl⟩ := Option.map_eq_some_iff.mp h
    rw [takeQuoted?, if_neg hend, ih hq, Option.map_some]
    · exact hquote
    · exact hbackslash

theorem takeString?_all {s : List Char} {p : Token × List Char} (h : takeString? alpha s = some p) :
    takeString? .all s = some p := by
  unfold takeString? at h ⊢
  split at h
  · exact h
  · obtain ⟨q, hq, rfl⟩ := Option.map_eq_some_iff.mp h
    rw [takeQuoted?_all hq, Option.map_some]

theorem takeToken?_all {c : Char} {s : List Char} {p : Token × List Char}
    (h : takeToken? alpha c s = some p) : takeToken? .all c s = some p := by
  unfold takeToken? at h ⊢
  split_ifs at h ⊢ with _ _ hquote
  · exact h
  · exact h
  · exact takeString?_all h
  · exact h
  · exact h

theorem tokensWithin?_all {n : Nat} {s : List Char} {ts : List Token}
    (h : tokensWithin? alpha n s = some ts) : tokensWithin? .all n s = some ts := by
  fun_induction tokensWithin? alpha n s generalizing ts with
  | case1 => cases h
  | case2 n hn =>
    rw [tokensWithin?]
    · exact h
    · exact hn
  | case3 steps c rest hsep ih =>
    rw [tokensWithin?, if_pos hsep, ih h]
  | case4 steps rest hsep ih =>
    rw [tokensWithin?, if_neg hsep, if_pos rfl, ih h]
  | case5 => cases h
  | case6 steps c rest hsep hcomment token r htoken ih =>
    obtain ⟨q, hq, rfl⟩ := Option.map_eq_some_iff.mp h
    rw [tokensWithin?, if_neg hsep, if_neg hcomment, takeToken?_all htoken]
    simp only [ih hq, Option.map_some]

/-- **The tokens of a text do not depend on the alphabet**: where one has some, they are those with
all characters and escapes. -/
theorem tokens?_all {text : String} {ts : List Token} (h : tokens? alpha text = some ts) :
    tokens? .all text = some ts := by
  rw [tokens?, Option.ite_none_right_eq_some] at h
  rw [tokens?, show Alphabet.all.full = true from rfl, Bool.true_or, if_pos rfl]
  exact tokensWithin?_all h.2

end GraphQLClient.Sdl
