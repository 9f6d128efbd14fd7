import GraphQLClient.Proofs.Sdl.Constant

/-!
# Documents that are read in two dialects

The client reads a dialect of the published grammar.  A document that both of them read has the same
definitions in both: the dialect refuses some documents of the grammar and takes some that are none,
but it never reads a document of the grammar in another way.

The grammar is read on the tokens without their commas, the dialect on the tokens as they stand.
The readers of the two are compared where both succeed; each step of the grammar is then a step of
the dialect, and agreement is shown for one combinator at a time.

## Main definitions

* `Sdl.AgreesAt`, `Sdl.Agrees` : two readers read the same where both succeed, at given tokens and
  at all tokens.

## Main results

* `Sdl.AgreesAt.bind` : readers that agree, one after the other.
* `Sdl.definition_agrees` : the definitions of the two dialects.
* `Sdl.parse?_eq_of_parseAs?` : a document that both dialects read.
-/

namespace GraphQLClient.Sdl

/-! ### Commas -/

theorem withoutCommas_cons_of_ne {t : Token} (ht : t ≠ .mark ',') (ts : List Token) :
    withoutCommas (t :: ts) = t :: withoutCommas ts :=
  List.filter_cons_of_pos (by simpa using ht)

/-- Commas at the front go with the others. -/
theorem withoutCommas_afterCommas (ts : List Token) :
    withoutCommas (afterCommas ts) = withoutCommas ts := by
  induction ts with
  | nil => rfl
  | cons t ts ih =>
    by_cases ht : t = .mark ','
    · subst ht
      exact ih
    · rw [afterCommas_of_ne ht]

/-- Tokens start with commas, and then there are none, or another one comes next. -/
theorem tokens_cases (ts : List Token) :
    (afterCommas ts = [] ∧ withoutCommas ts = []) ∨
      ∃ t rest, t ≠ .mark ',' ∧ afterCommas ts = t :: rest ∧
        withoutCommas ts = t :: withoutCommas rest ∧ t :: rest <:+ ts := by
  induction ts with
  | nil => exact .inl ⟨rfl, rfl⟩
  | cons t ts ih =>
    by_cases ht : t = .mark ','
    · subst ht
      refine ih.imp_right fun ⟨t, rest, ht, hafter, hwithout, hsuffix⟩ => ?_
      exact ⟨t, rest, ht, hafter, hwithout, hsuffix.trans (List.suffix_cons _ _)⟩
    · exact .inr ⟨t, ts, ht, afterCommas_of_ne ht ts, withoutCommas_cons_of_ne ht ts,
        List.suffix_refl _⟩

theorem afterCommas_withoutCommas (ts : List Token) :
    afterCommas (withoutCommas ts) = withoutCommas ts := by
  rcases tokens_cases ts with ⟨-, hwithout⟩ | ⟨t, rest, ht, -, hwithout, -⟩
  · rw [hwithout]
    rfl
  · rw [hwithout, afterCommas_of_ne ht]

/-! ### Agreement -/

/-- Two readers read the same if both succeed, the first on the tokens without commas and the second
on the tokens as they stand. -/
structure AgreesAt {α : Type} (p c : Reader α) (ts : List Token) : Prop where
  /-- The second reader leaves an end of its tokens. -/
  suffix : ∀ {b rest'}, c ts = some (b, rest') → rest' <:+ ts
  agree : ∀ {a b rest rest'}, p (withoutCommas ts) = some (a, rest) → c ts = some (b, rest') →
    a = b ∧ rest = withoutCommas rest'

/-- Two readers read the same wherever both succeed. -/
def Agrees {α : Type} (p c : Reader α) : Prop :=
  ∀ ts, AgreesAt p c ts

section Combinators

variable {α β : Type} {p c : Reader α} {ts : List Token}

/-- Readers that agree, one after the other. -/
theorem AgreesAt.bind {f g : α → Reader β} (h : AgreesAt p c ts)
    (hfg : ∀ a rest, c ts = some (a, rest) → AgreesAt (f a) (g a) rest) :
    AgreesAt (p >>= f) (c >>= g) ts where
  suffix hrun := by
    obtain ⟨a, middle, hc, hg⟩ := bind_eq_some.mp hrun
    exact ((hfg a middle hc).suffix hg).trans (h.suffix hc)
  agree hrun hrun' := by
    obtain ⟨a, middle, hp, hf⟩ := bind_eq_some.mp hrun
    obtain ⟨a', middle', hc, hg⟩ := bind_eq_some.mp hrun'
    obtain ⟨rfl, rfl⟩ := h.agree hp hc
    exact (hfg a middle' hc).agree hf hg

theorem Agrees.bind {f g : α → Reader β} (h : Agrees p c) (hfg : ∀ a, Agrees (f a) (g a)) :
    Agrees (p >>= f) (c >>= g) :=
  fun ts => (h ts).bind fun a rest _ => hfg a rest

/-- Readers that read the same. -/
theorem agreesAt_of_eq {a : α} {rest : List Token} (hrest : rest <:+ ts)
    (hp : p (withoutCommas ts) = some (a, withoutCommas rest)) (hc : c ts = some (a, rest)) :
    AgreesAt p c ts where
  suffix hrun := by
    rw [hc] at hrun
    cases hrun
    exact hrest
  agree hrun hrun' := by
    rw [hp] at hrun
    rw [hc] at hrun'
    cases hrun
    cases hrun'
    exact ⟨rfl, rfl⟩

theorem agreesAt_of_eq_none (hc : c ts = none) : AgreesAt p c ts where
  suffix hrun := by
    rw [hc] at hrun
    cases hrun
  agree _ hrun' := by
    rw [hc] at hrun'
    cases hrun'

theorem agrees_pure (a : α) : Agrees (pure a) (pure a) :=
  fun ts => agreesAt_of_eq (List.suffix_refl ts) rfl rfl

theorem agrees_failure : Agrees p failure :=
  fun _ => agreesAt_of_eq_none rfl

/-- Readers that go on with readers that agree, and turn what they read into the same. -/
theorem AgreesAt.map {q q' : Reader β} {rest : List Token} (h : AgreesAt q q' rest)
    (hrest : rest <:+ ts) {f : β → α}
    (hp : p (withoutCommas ts) = (q (withoutCommas rest)).map fun r => (f r.1, r.2))
    (hc : c ts = (q' rest).map fun r => (f r.1, r.2)) : AgreesAt p c ts where
  suffix hrun := by
    rw [hc] at hrun
    obtain ⟨⟨b, rest'⟩, hq, hf⟩ := Option.map_eq_some_iff.mp hrun
    cases hf
    exact (h.suffix hq).trans hrest
  agree hrun hrun' := by
    rw [hp] at hrun
    rw [hc] at hrun'
    obtain ⟨⟨a, rest⟩, hq, hf⟩ := Option.map_eq_some_iff.mp hrun
    obtain ⟨⟨a', rest'⟩, hq', hf'⟩ := Option.map_eq_some_iff.mp hrun'
    cases hf
    cases hf'
    obtain ⟨rfl, rfl⟩ := h.agree hq hq'
    exact ⟨rfl, rfl⟩

/-- What the second reader reads where the first one fails is of no account. -/
theorem Agrees.failure_left (h : Agrees p c) : Agrees failure c := fun ts =>
  { suffix := (h ts).suffix
    agree := by rintro _ _ _ _ ⟨⟩ }

end Combinators

/-! ### Single tokens -/

theorem accept_agrees (t : Token) : Agrees (accept t) (accept t) := fun ts => by
  rcases tokens_cases ts with ⟨h, hp⟩ | ⟨t', rest, ht, h, hp, hsuffix⟩
  · exact agreesAt_of_eq (a := false) List.nil_suffix (by rw [hp]; rfl) (by rw [accept, h])
  · by_cases ht' : t' = t
    · subst ht'
      refine agreesAt_of_eq (a := true) ((List.suffix_cons _ _).trans hsuffix) ?_ ?_
      · rw [hp, accept_self ht]
      · rw [accept, h]
        exact congrArg some (if_pos rfl)
    · refine agreesAt_of_eq (a := false) hsuffix ?_ ?_
      · rw [hp, accept_of_ne _ _ ht ht', withoutCommas_cons_of_ne ht]
      · rw [accept, h]
        exact congrArg some (if_neg ht')

theorem expect_agrees (t : Token) : Agrees (expect t) (expect t) := fun ts => by
  rcases tokens_cases ts with ⟨h, -⟩ | ⟨t', rest, ht, h, hp, hsuffix⟩
  · exact agreesAt_of_eq_none (by rw [expect, h])
  · by_cases ht' : t' = t
    · refine agreesAt_of_eq (a := ()) ((List.suffix_cons _ _).trans hsuffix) ?_ ?_
      · rw [hp, expect, afterCommas_of_ne ht]
        exact if_pos ht'
      · rw [expect, h]
        exact if_pos ht'
    · refine agreesAt_of_eq_none ?_
      rw [expect, h]
      exact if_neg ht'

theorem name?_agrees : Agrees name? name? := fun ts => by
  rcases tokens_cases ts with ⟨h, hp⟩ | ⟨t, rest, ht, h, hp, hsuffix⟩
  · exact agreesAt_of_eq (a := none) List.nil_suffix (by rw [hp]; rfl) (by rw [name?, h])
  · cases t with
    | name s =>
      refine agreesAt_of_eq (a := some s) ((List.suffix_cons _ _).trans hsuffix) ?_ ?_
      · rw [hp, name?_name]
      · rw [name?, h]
    | mark _ | int _ | float _ | string _ =>
      refine agreesAt_of_eq (a := none) hsuffix ?_ ?_
      · rw [hp, name?, afterCommas_of_ne ht, withoutCommas_cons_of_ne ht]
      · rw [name?, h]

theorem description_agrees : Agrees description description := fun ts => by
  rcases tokens_cases ts with ⟨h, hp⟩ | ⟨t, rest, ht, h, hp, hsuffix⟩
  · exact agreesAt_of_eq (a := none) List.nil_suffix (by rw [hp]; rfl) (by rw [description, h])
  · cases t with
    | string s =>
      refine agreesAt_of_eq (a := some s) ((List.suffix_cons _ _).trans hsuffix) ?_ ?_
      · rw [hp, description_string]
      · rw [description, h]
    | mark _ | int _ | float _ | name _ =>
      refine agreesAt_of_eq (a := none) hsuffix ?_ ?_
      · rw [hp, description, afterCommas_of_ne ht, withoutCommas_cons_of_ne ht]
      · rw [description, h]

/-- Where no name may follow, the dialect drops commas that mean nothing. -/
theorem pure_agrees_noName : Agrees (pure ()) noName := fun ts => by
  rcases tokens_cases ts with ⟨h, hp⟩ | ⟨t, rest, ht, h, hp, hsuffix⟩
  · exact agreesAt_of_eq (a := ()) List.nil_suffix (by rw [hp]; rfl) (by rw [noName, h])
  · cases t with
    | name s => exact agreesAt_of_eq_none (by rw [noName, h])
    | mark _ | int _ | float _ | string _ =>
      refine agreesAt_of_eq (a := ()) hsuffix ?_ ?_
      · rw [hp, pure_apply, withoutCommas_cons_of_ne ht]
      · rw [noName, h]

theorem noComma_agrees : Agrees noComma noComma := fun ts => by
  by_cases h : ts.head? = some (.mark ',')
  · exact agreesAt_of_eq_none (if_pos h)
  · refine agreesAt_of_eq (a := ()) (List.suffix_refl ts) (if_neg ?_) (if_neg h)
    intro hcomma
    have hmem : .mark ',' ∈ withoutCommas ts := List.mem_of_head? hcomma
    simp [withoutCommas] at hmem

theorem name_agrees : Agrees name name :=
  name?_agrees.bind fun n => by
    cases n with
    | none => exact agrees_failure
    | some s => exact agrees_pure s

/-! ### Repetition -/

section Repetition

variable {α : Type} {p c : Reader α}

theorem untilWithin_agrees (h : Agrees p c) (stop : Char) (n m : Nat) :
    Agrees (untilWithin p stop n) (untilWithin c stop m) := by
  induction m generalizing n with
  | zero => exact agrees_failure
  | succ m ih =>
    have hstep (n : Nat) : Agrees (untilWithin p stop (n + 1)) (untilWithin c stop (m + 1)) :=
      (accept_agrees _).bind fun stopped => by
        cases stopped with
        | true => exact agrees_pure []
        | false => exact h.bind fun a => (ih n).bind fun rest => agrees_pure (a :: rest)
    cases n with
    | zero => exact (hstep 0).failure_left
    | succ n => exact hstep n

theorem upTo_agrees (h : Agrees p c) (stop : Char) : Agrees (upTo p stop) (upTo c stop) :=
  fun ts =>
    have hwithin := untilWithin_agrees h stop (withoutCommas ts).length ts.length ts
    ⟨hwithin.suffix, hwithin.agree⟩

theorem optionalGroup_agrees (start : Char) (h : Agrees p c) (stop : Char) :
    Agrees (optionalGroup start p stop) (optionalGroup start c stop) :=
  (accept_agrees _).bind fun started => by
    cases started with
    | true => exact h.bind fun a => (upTo_agrees h stop).bind fun rest => agrees_pure (a :: rest)
    | false => exact agrees_pure []

/-- What follows a mark that was taken is shorter, with commas and without them. -/
theorem length_lt_of_accept {t : Token} {ts rest : List Token}
    (h : accept t ts = some (true, rest)) :
    rest.length < ts.length ∧ (withoutCommas rest).length < (withoutCommas ts).length := by
  rcases tokens_cases ts with ⟨hafter, -⟩ | ⟨t', rest', ht, hafter, hp, hsuffix⟩
  · rw [accept, hafter] at h
    cases h
  · rw [accept, hafter] at h
    by_cases ht' : t' = t
    · simp only [ht', if_true, Option.some.injEq, Prod.mk.injEq, true_and] at h
      subst h
      refine ⟨hsuffix.length_le, ?_⟩
      rw [hp, List.length_cons]
      exact Nat.lt_succ_self _
    · simp [ht'] at h

theorem length_withoutCommas_le {ts rest : List Token} (h : rest <:+ ts) :
    (withoutCommas rest).length ≤ (withoutCommas ts).length :=
  (h.filter _).length_le

theorem moreWithin_nil (separator : Char) (p : Reader α) (n : Nat) :
    moreWithin separator p n [] = some ([], []) := by
  cases n <;> rfl

/-- Steps for every token are enough for all parts, whether or not commas count. -/
theorem moreWithin_agreesAt (separator : Char) (h : Agrees p c) {n m : Nat} {ts : List Token}
    (hn : (withoutCommas ts).length ≤ n) (hm : ts.length ≤ m) :
    AgreesAt (moreWithin separator p n) (moreWithin separator c m) ts := by
  induction n generalizing m ts with
  | zero =>
    -- Nothing but commas is left, and the dialect drops them.
    have hnil : withoutCommas ts = [] := List.eq_nil_of_length_eq_zero (Nat.le_zero.mp hn)
    cases m with
    | zero => exact agrees_pure [] ts
    | succ m =>
      rcases tokens_cases ts with ⟨hafter, -⟩ | ⟨t, rest, -, -, hcons, -⟩
      · have haccept : accept (.mark separator) ts = some (false, []) := by rw [accept, hafter]
        refine agreesAt_of_eq (a := []) List.nil_suffix (by rw [hnil]; rfl) ?_
        rw [moreWithin, bind_of_eq haccept]
        rfl
      · rw [hnil] at hcons
        cases hcons
  | succ n ih =>
    cases m with
    | zero =>
      obtain rfl : ts = [] := List.eq_nil_of_length_eq_zero (Nat.le_zero.mp hm)
      exact agreesAt_of_eq (List.suffix_refl _) (moreWithin_nil separator p _) rfl
    | succ m =>
      refine (accept_agrees _ ts).bind fun took rest htook => ?_
      cases took with
      | false => exact agrees_pure [] rest
      | true =>
        obtain ⟨hlt, hlt'⟩ := length_lt_of_accept htook
        refine (h rest).bind fun a rest' ha => ?_
        have hsuffix := (h rest).suffix ha
        have hle := hsuffix.length_le
        have hle' := length_withoutCommas_le hsuffix
        exact (ih (by omega) (by omega)).bind fun more rest _ => agrees_pure (a :: more) rest

theorem more_agrees (separator : Char) (h : Agrees p c) :
    Agrees (fun ts => moreWithin separator p ts.length ts)
      (fun ts => moreWithin separator c ts.length ts) := fun ts =>
  have hmore := moreWithin_agreesAt separator h (Nat.le_refl (withoutCommas ts).length)
    (Nat.le_refl ts.length)
  ⟨hmore.suffix, hmore.agree⟩

theorem separated_agrees (separator : Char) (h : Agrees p c) :
    Agrees (separated separator p) (separated separator c) :=
  (accept_agrees _).bind fun _ => h.bind fun a => (more_agrees separator h).bind fun rest =>
    agrees_pure (a :: rest)

end Repetition

/-! ### Types and values -/

theorem typeExprWithin_agrees (n m : Nat) : Agrees (typeExprWithin n) (typeExprWithin m) := by
  induction m generalizing n with
  | zero => exact agrees_failure
  | succ m ih =>
    have hstep (n : Nat) : Agrees (typeExprWithin (n + 1)) (typeExprWithin (m + 1)) :=
      (accept_agrees _).bind fun isList => by
        cases isList with
        | true =>
          exact (ih n).bind fun item => (expect_agrees _).bind fun _ =>
            (accept_agrees _).bind fun required => agrees_pure (TypeExpr.list item required)
        | false =>
          exact name_agrees.bind fun s => (accept_agrees _).bind fun required =>
            agrees_pure (TypeExpr.named s required)
    cases n with
    | zero => exact (hstep 0).failure_left
    | succ n => exact hstep n

theorem typeExpr_agrees (d d' : Dialect) : Agrees (typeExpr d) (typeExpr d') := fun ts =>
  have hwithin := typeExprWithin_agrees (d.depth (withoutCommas ts)) (d'.depth ts) ts
  ⟨hwithin.suffix, hwithin.agree⟩

/-- A part that the grammar asks for may be left out in the dialect. -/
theorem valueOf_agrees {value value' : Reader Literal} (h : Agrees value value') :
    Agrees (valueOf .published value) (valueOf .client value') :=
  name_agrees.bind fun n => (accept_agrees _).bind fun given => by
    cases given with
    | true => exact h.bind fun v => agrees_pure [(n, v)]
    | false => exact (agrees_pure []).failure_left

theorem constantWithin_agrees (n m : Nat) :
    Agrees (constantWithin .published n) (constantWithin .client m) := by
  induction m generalizing n with
  | zero => exact agrees_failure
  | succ m ih =>
    have hstep (n : Nat) :
        Agrees (constantWithin .published (n + 1)) (constantWithin .client (m + 1)) := fun ts => by
      rcases tokens_cases ts with ⟨h, -⟩ | ⟨t, rest, ht, h, hp, hsuffix⟩
      · exact agreesAt_of_eq_none (by rw [constantWithin_succ, h])
      have hrest : rest <:+ ts := (List.suffix_cons _ _).trans hsuffix
      have hafter : afterCommas (withoutCommas ts) = t :: withoutCommas rest := by
        rw [hp, afterCommas_of_ne ht]
      have hrun := constantWithin_succ .published n (withoutCommas ts)
      have hrun' := constantWithin_succ .client m ts
      rw [hafter] at hrun
      rw [h] at hrun'
      cases t with
      | int s | float s | string s | name s => exact agreesAt_of_eq hrest hrun hrun'
      | mark ch =>
        simp only at hrun hrun'
        by_cases hlist : ch = '['
        · rw [if_pos hlist] at hrun hrun'
          exact (upTo_agrees (ih n) ']' rest).map hrest (f := .list) hrun hrun'
        · rw [if_neg hlist] at hrun hrun'
          by_cases hobject : ch = '\x7b'
          · rw [if_pos hobject] at hrun hrun'
            exact (upTo_agrees (valueOf_agrees (ih n)) '\x7d' rest).map hrest
              (f := fun fields => .object fields.flatten) hrun hrun'
          · rw [if_neg hobject] at hrun'
            exact agreesAt_of_eq_none hrun'
    cases n with
    | zero => exact (hstep 0).failure_left
    | succ n => exact hstep n

theorem constant_agrees : Agrees (constant .published) (constant .client) := fun ts =>
  have hwithin := constantWithin_agrees (Dialect.published.depth (withoutCommas ts))
    (Dialect.client.depth ts) ts
  ⟨hwithin.suffix, hwithin.agree⟩

/-! ### Directives -/

/-- A directive after its mark. -/
def appliedDirective (d : Dialect) : Reader Directive := do
  let n ← name
  let args ← optionalGroup '(' (valueOf d (constant d)) ')'
  pure ⟨n, args.flatten⟩

theorem directivesWithin_eq_moreWithin (d : Dialect) (n : Nat) :
    directivesWithin d n = moreWithin '@' (appliedDirective d) n := by
  induction n with
  | zero => rfl
  | succ n ih =>
    rw [directivesWithin, moreWithin, ih]
    simp only [appliedDirective, bind_assoc, pure_bind]

theorem directives_agrees : Agrees (directives .published) (directives .client) := fun ts => by
  have hone : Agrees (appliedDirective .published) (appliedDirective .client) :=
    name_agrees.bind fun n =>
      (optionalGroup_agrees '(' (valueOf_agrees constant_agrees) ')').bind fun args =>
        agrees_pure (Directive.mk n args.flatten)
  have hmore := more_agrees '@' hone ts
  refine ⟨?_, ?_⟩
  · simp only [directives, directivesWithin_eq_moreWithin]
    exact hmore.suffix
  · simp only [directives, directivesWithin_eq_moreWithin]
    exact hmore.agree

/-! ### Parts of definitions -/

theorem defaultValue_agrees : Agrees (defaultValue .published) (defaultValue .client) :=
  (accept_agrees _).bind fun given => by
    cases given with
    | true => exact constant_agrees.bind fun c => agrees_pure (some c)
    | false => exact agrees_pure none

theorem inputValue_agrees : Agrees (inputValue .published) (inputValue .client) :=
  description_agrees.bind fun text => name_agrees.bind fun n => (expect_agrees _).bind fun _ =>
    (typeExpr_agrees _ _).bind fun t => defaultValue_agrees.bind fun default =>
      directives_agrees.bind fun ds => agrees_pure (InputValue.mk text n t default ds)

theorem argumentDefinitions_agrees :
    Agrees (argumentDefinitions .published) (argumentDefinitions .client) :=
  optionalGroup_agrees '(' inputValue_agrees ')'

theorem fieldDefinition_agrees :
    Agrees (fieldDefinition .published) (fieldDefinition .client) :=
  description_agrees.bind fun text => name_agrees.bind fun n =>
    argumentDefinitions_agrees.bind fun args => (expect_agrees _).bind fun _ =>
      (typeExpr_agrees _ _).bind fun t => directives_agrees.bind fun ds =>
        agrees_pure (FieldDefinition.mk text n args t ds)

theorem enumMember_agrees : Agrees (enumMember .published) (enumMember .client) :=
  description_agrees.bind fun text => name_agrees.bind fun n => by
    split
    · exact agrees_failure
    · exact directives_agrees.bind fun ds => agrees_pure (EnumMember.mk text n ds)

theorem interfaces_agrees : Agrees interfaces interfaces :=
  (accept_agrees _).bind fun given => by
    cases given with
    | true => exact separated_agrees '&' name_agrees
    | false => exact agrees_pure []

theorem unionMembers_agrees : Agrees unionMembers unionMembers :=
  (accept_agrees _).bind fun given => by
    cases given with
    | true => exact separated_agrees '|' name_agrees
    | false => exact agrees_pure []

theorem location_agrees : Agrees location location :=
  name_agrees.bind fun n => by
    split
    · exact agrees_pure n
    · exact agrees_failure

/-- The name of a root type, after the operation it belongs to. -/
def rootName (d : Dialect) (kind : RootKind) : Reader (List (RootKind × String)) := do
  mark ':'
  match ← name? with
  | some n => pure [(kind, n)]
  | none => if d.omissions then pure [] else failure

theorem rootName_agrees (kind : RootKind) :
    Agrees (rootName .published kind) (rootName .client kind) :=
  (expect_agrees _).bind fun _ => name?_agrees.bind fun n => by
    cases n with
    | some n => exact agrees_pure [(kind, n)]
    | none => exact (agrees_pure []).failure_left

theorem root_agrees : Agrees (root .published) (root .client) :=
  name_agrees.bind fun s => by
    dsimp only
    split
    · exact (agrees_pure RootKind.query).bind rootName_agrees
    · exact (agrees_pure RootKind.mutation).bind rootName_agrees
    · exact (agrees_pure RootKind.subscription).bind rootName_agrees
    · exact agrees_failure.bind rootName_agrees

/-! ### Definitions -/

theorem typeDefinition_agrees (extension : Bool) (text : Option String) :
    Agrees (typeDefinition .published extension text) (typeDefinition .client extension text) :=
  name_agrees.bind fun kind => name_agrees.bind fun n => by
    dsimp only
    split
    · exact directives_agrees.bind fun ds => agrees_pure (TypeDefinition.mk text n ds .scalar)
    · refine interfaces_agrees.bind fun is => ?_
      have htail := directives_agrees.bind fun ds =>
        (optionalGroup_agrees '\x7b' fieldDefinition_agrees '\x7d').bind fun fields =>
          agrees_pure (TypeDefinition.mk text n ds (.object is fields))
      have hbare : ¬(!extension && is.isEmpty && !Dialect.published.bareObjects) = true := by
        simp [Dialect.published]
      rw [if_neg hbare]
      split
      · exact pure_agrees_noName.bind fun _ => htail
      · exact htail
    · exact interfaces_agrees.bind fun is => directives_agrees.bind fun ds =>
        (optionalGroup_agrees '\x7b' fieldDefinition_agrees '\x7d').bind fun fields =>
          agrees_pure (TypeDefinition.mk text n ds (.interface is fields))
    · exact directives_agrees.bind fun ds => unionMembers_agrees.bind fun members =>
        agrees_pure (TypeDefinition.mk text n ds (.union members))
    · exact directives_agrees.bind fun ds =>
        (optionalGroup_agrees '\x7b' enumMember_agrees '\x7d').bind fun members =>
          agrees_pure (TypeDefinition.mk text n ds (.enum members))
    · exact directives_agrees.bind fun ds =>
        (optionalGroup_agrees '\x7b' inputValue_agrees '\x7d').bind fun fields =>
          agrees_pure (TypeDefinition.mk text n ds (.input fields))
    · exact agrees_failure

theorem directiveDefinition_agrees (text : Option String) :
    Agrees (directiveDefinition .published text) (directiveDefinition .client text) :=
  (expect_agrees _).bind fun _ => name_agrees.bind fun n =>
    argumentDefinitions_agrees.bind fun args => (accept_agrees _).bind fun repeatable =>
      (expect_agrees _).bind fun _ => (separated_agrees '|' location_agrees).bind fun locations =>
        agrees_pure (DirectiveDefinition.mk text n args repeatable locations)

theorem extension_agrees : Agrees (extension .published) (extension .client) :=
  noComma_agrees.bind fun _ => (accept_agrees _).bind fun isSchema => by
    cases isSchema with
    | true =>
      refine directives_agrees.bind fun ds =>
        (optionalGroup_agrees '\x7b' root_agrees '\x7d').bind fun roots => ?_
      split
      · exact agrees_failure
      · exact agrees_pure (Definition.schemaExtension ⟨none, ds, roots.flatten⟩)
    | false =>
      refine (typeDefinition_agrees true none).bind fun t => ?_
      split
      · exact agrees_pure (Definition.typeExtension t)
      · exact agrees_failure

theorem described_agrees (text : Option String) :
    Agrees (described .published text) (described .client text) :=
  (accept_agrees _).bind fun isSchema => by
    cases isSchema with
    | true =>
      exact directives_agrees.bind fun ds => (expect_agrees _).bind fun _ =>
        root_agrees.bind fun first => (upTo_agrees root_agrees '\x7d').bind fun more =>
          agrees_pure (Definition.schema ⟨text, ds, first ++ more.flatten⟩)
    | false =>
      refine (accept_agrees _).bind fun isDirective => ?_
      cases isDirective with
      | true =>
        exact (directiveDefinition_agrees text).bind fun d => agrees_pure (Definition.directive d)
      | false =>
        exact (typeDefinition_agrees false text).bind fun t => agrees_pure (Definition.type t)

theorem definition_agrees : Agrees (definition .published) (definition .client) :=
  (accept_agrees _).bind fun isExtension => by
    cases isExtension with
    | true => exact extension_agrees
    | false =>
      refine description_agrees.bind fun text => ?_
      split
      · exact noComma_agrees.bind fun _ => described_agrees text
      · exact (agrees_pure ()).bind fun _ => described_agrees text

/-! ### Documents -/

theorem definitionsWithin?_nil (d : Dialect) (n : Nat) :
    definitionsWithin? d n [] = some [] := by
  cases n <;> rfl

/-- Definitions are there if the first one is read, and then the others. -/
theorem definitionsWithin?_cons_eq_some {d : Dialect} {n : Nat} {t : Token} {ts : List Token}
    {ds : List Definition} (h : definitionsWithin? d n (t :: ts) = some ds) :
    ∃ k first rest more, definition d (t :: ts) = some (first, rest) ∧
      definitionsWithin? d k (afterCommas rest) = some more ∧ ds = first :: more := by
  cases n with
  | zero => cases h
  | succ n =>
    rw [definitionsWithin?, if_neg (by simp)] at h
    split at h
    · cases h
    · rename_i first rest hfirst
      obtain ⟨more, hmore, rfl⟩ := Option.map_eq_some_iff.mp h
      exact ⟨n, first, rest, more, hfirst, hmore, rfl⟩

/-- Definitions that are read in both dialects are the same. -/
theorem definitionsWithin?_eq {n m : Nat} {ts : List Token} {ds ds' : List Definition}
    (hp : definitionsWithin? .published n (withoutCommas ts) = some ds)
    (hc : definitionsWithin? .client m (afterCommas ts) = some ds') : ds' = ds := by
  induction ds' generalizing n m ts ds with
  | nil =>
    rcases tokens_cases ts with ⟨-, hwithout⟩ | ⟨t, rest, -, hafter, -, -⟩
    · rw [hwithout, definitionsWithin?_nil] at hp
      exact Option.some.inj hp
    · rw [hafter] at hc
      obtain ⟨_, _, _, _, -, -, hds⟩ := definitionsWithin?_cons_eq_some hc
      cases hds
  | cons d' ds' ih =>
    rcases tokens_cases ts with ⟨hafter, -⟩ | ⟨t, rest, -, hafter, hwithout, -⟩
    · rw [hafter, definitionsWithin?_nil] at hc
      cases hc
    · rw [hafter] at hc
      rw [hwithout] at hp
      obtain ⟨_, first', rest', more', hfirst', hmore', hds'⟩ := definitionsWithin?_cons_eq_some hc
      obtain ⟨_, first, rest, more, hfirst, hmore, rfl⟩ := definitionsWithin?_cons_eq_some hp
      cases hds'
      rw [← hwithout, ← withoutCommas_afterCommas, hafter] at hfirst
      obtain ⟨rfl, rfl⟩ := (definition_agrees _).agree hfirst hfirst'
      rw [afterCommas_withoutCommas] at hmore
      rw [ih hmore hmore']

/-- What the client reads are the definitions of the tokens of a document, which may be none. -/
theorem parse?_eq_some_iff {text : String} {ds : List Definition} :
    parse? text = some ds ↔ ∃ ts, tokens? .client text = some ts ∧
      definitionsWithin? .client ts.length (afterCommas ts) = some ds := by
  have halphabet : Dialect.client.alphabet = .client := rfl
  have hblank : Dialect.client.blankDocuments = true := rfl
  have hsignificant (ts : List Token) : Dialect.client.significant ts = ts := rfl
  have hfilter (o : Option (List Definition)) : o.filter (fun _ => true) = o := by
    cases o <;> rfl
  simp only [parse?, parseAs?, halphabet, hblank, hsignificant, Option.bind_eq_some_iff,
    Bool.true_or, hfilter]

/-- **A document that both dialects read has the same definitions in both.** -/
theorem parse?_eq_of_parseAs? {text : String} {ds ds' : List Definition}
    (hp : parseAs? .published text = some ds) (hc : parse? text = some ds') : ds' = ds := by
  obtain ⟨ts', hts', hc⟩ := parse?_eq_some_iff.mp hc
  rw [parseAs?, Option.bind_eq_some_iff] at hp
  obtain ⟨ts, hts, hp⟩ := hp
  obtain rfl := Option.some.inj ((tokens?_all hts).symm.trans (tokens?_all hts'))
  have hpublished : Dialect.published.significant ts = withoutCommas ts := rfl
  rw [hpublished, afterCommas_withoutCommas, Option.filter_eq_some_iff] at hp
  exact definitionsWithin?_eq hp.1 hc

end GraphQLClient.Sdl
