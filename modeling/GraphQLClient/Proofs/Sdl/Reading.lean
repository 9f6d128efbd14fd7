import GraphQLClient.Sdl.Parser

/-!
# Reading parts of a document

A reader takes its part from the front of the tokens and leaves the rest.  What stands behind a part
matters only where the part could go on: a type with a mark, a list with a separator, a definition
with a group.  Tokens that start with a name or a string, or with a closing mark, go on with none of
these.

## Main definitions

* `Sdl.Avoids`, `Sdl.Fresh` : tokens that do not start with given marks, or with any mark by which a
  part could go on.
* `Sdl.Reads` : a reader takes given tokens, whatever fresh tokens follow.

## Main results

* `Sdl.upTo_of_reads`, `Sdl.optionalGroup_of_reads` : parts up to a mark, and between marks.
* `Sdl.separated_names` : names with a mark between them.
* `Sdl.typeExpr_tokens` : the tokens of a type expression.
* `Sdl.constant_append` : a constant is the same when the tokens go on.
-/

namespace GraphQLClient

namespace Sdl

/-- A reader after another goes on where the first one stops. -/
theorem bind_of_eq {α β : Type} {p : Reader α} {f : α → Reader β} {ts rest : List Token} {a : α}
    (h : p ts = some (a, rest)) : (p >>= f) ts = f a rest := by
  change StateT.bind p f ts = f a rest
  rw [StateT.bind, h]
  rfl

theorem pure_apply {α : Type} (a : α) (ts : List Token) :
    (pure a : Reader α) ts = some (a, ts) := rfl

/-! ### Single tokens -/

theorem afterCommas_of_ne {t : Token} (ht : t ≠ .mark ',') (rest : List Token) :
    afterCommas (t :: rest) = t :: rest :=
  List.dropWhile_cons_of_neg (by rw [decide_eq_true_eq]; exact ht)

theorem accept_self {t : Token} (ht : t ≠ .mark ',') (rest : List Token) :
    accept t (t :: rest) = some (true, rest) := by
  rw [accept, afterCommas_of_ne ht]
  exact congrArg some (if_pos rfl)

theorem accept_of_ne (t t' : Token) (ht : t' ≠ .mark ',') (hne : t' ≠ t) (rest : List Token) :
    accept t (t' :: rest) = some (false, t' :: rest) := by
  rw [accept, afterCommas_of_ne ht]
  exact congrArg some (if_neg hne)

theorem mark_self {c : Char} (hc : c ≠ ',') (rest : List Token) :
    mark c (.mark c :: rest) = some ((), rest) := by
  rw [mark, expect, afterCommas_of_ne (by rintro ⟨⟩; exact hc rfl)]
  exact if_pos rfl

theorem keyword_self (s : String) (rest : List Token) :
    keyword s (.name s :: rest) = some ((), rest) := by
  rw [keyword, expect, afterCommas_of_ne (by rintro ⟨⟩)]
  exact if_pos rfl

theorem name?_name (s : String) (rest : List Token) :
    name? (.name s :: rest) = some (some s, rest) := by
  rw [name?, afterCommas_of_ne (by rintro ⟨⟩)]

theorem name_name (s : String) (rest : List Token) : name (.name s :: rest) = some (s, rest) := by
  rw [name, bind_of_eq (name?_name s rest)]
  rfl

theorem description_string (s : String) (rest : List Token) :
    description (.string s :: rest) = some (some s, rest) := by
  rw [description, afterCommas_of_ne (by rintro ⟨⟩)]

theorem description_name (s : String) (rest : List Token) :
    description (.name s :: rest) = some (none, .name s :: rest) := by
  rw [description, afterCommas_of_ne (by rintro ⟨⟩)]

/-! ### What follows a part -/

/-- Tokens that do not start with one of given marks. -/
def Avoids (marks : List Char) : List Token → Prop
  | .mark c :: _ => c ∉ marks
  | _ => True

/-- The marks by which a part of a document could go on. -/
def openers : List Char :=
  [',', '!', '=', '@', '(', '\x7b', '&', '|']

/-- Tokens that do not start with a mark by which a part could go on. -/
def Fresh (ts : List Token) : Prop :=
  Avoids openers ts

/-- Tokens that start with a name or a string. -/
def Starts : List Token → Prop
  | .name _ :: _ => True
  | .string _ :: _ => True
  | _ => False

theorem Avoids.mono {marks marks' : List Char} (h : marks ⊆ marks') {ts : List Token}
    (hts : Avoids marks' ts) : Avoids marks ts := by
  cases ts with
  | nil => trivial
  | cons t ts =>
    cases t with
    | mark c => exact fun hc => hts (h hc)
    | name s => trivial
    | int s => trivial
    | float s => trivial
    | string s => trivial

theorem Starts.avoids {ts : List Token} (h : Starts ts) (marks : List Char) (rest : List Token) :
    Avoids marks (ts ++ rest) := by
  cases ts with
  | nil => exact h.elim
  | cons t ts =>
    cases t with
    | mark c => exact h.elim
    | name s => trivial
    | int s => exact h.elim
    | float s => exact h.elim
    | string s => trivial

theorem afterCommas_of_avoids {marks : List Char} {ts : List Token} (h : Avoids marks ts)
    (hcomma : ',' ∈ marks) : afterCommas ts = ts := by
  cases ts with
  | nil => rfl
  | cons t ts =>
    refine afterCommas_of_ne ?_ ts
    rintro rfl
    exact h hcomma

/-- A mark that is not next is not taken. -/
theorem accept_of_avoids {marks : List Char} {ts : List Token} (h : Avoids marks ts)
    (hcomma : ',' ∈ marks) {c : Char} (hc : c ∈ marks) :
    accept (.mark c) ts = some (false, ts) := by
  cases ts with
  | nil => rfl
  | cons t ts =>
    have hne (d : Char) (hd : d ∈ marks) : t ≠ .mark d := by
      rintro rfl
      exact h hd
    exact accept_of_ne _ _ (hne ',' hcomma) (hne c hc) ts

theorem accept_of_fresh {ts : List Token} (h : Fresh ts) {c : Char}
    (hc : c ∈ openers) :
    accept (.mark c) ts = some (false, ts) :=
  accept_of_avoids h List.mem_cons_self hc

/-- No mark is taken where a name or a string is next. -/
theorem accept_of_starts {ts : List Token} (h : Starts ts) (c : Char) (rest : List Token) :
    accept (.mark c) (ts ++ rest) = some (false, ts ++ rest) :=
  accept_of_avoids (h.avoids [',', c] rest) (by simp) (by simp)

/-- A reader takes given tokens, whatever fresh tokens follow. -/
def Reads {α : Type} (p : Reader α) (ts : List Token) (a : α) : Prop :=
  ∀ rest, Fresh rest → p (ts ++ rest) = some (a, rest)

/-! ### Repetition -/

section Repetition

variable {α β : Type} {part : Reader α} {tokens : β → List Token} {value : β → α}

theorem Starts.length_pos {ts : List Token} (h : Starts ts) : 0 < ts.length := by
  cases ts with
  | nil => exact h.elim
  | cons t ts => exact Nat.succ_pos _

/-- Parts that start with a name or a string, and the mark that ends them, are fresh. -/
theorem fresh_flatten {stop : Char} (hstop : stop ∉ openers) {xs : List β}
    (hxs : ∀ x ∈ xs, Starts (tokens x)) (rest : List Token) :
    Fresh ((xs.map tokens).flatten ++ .mark stop :: rest) := by
  cases xs with
  | nil => exact hstop
  | cons x xs =>
    rw [List.map_cons, List.flatten_cons, List.append_assoc]
    exact (hxs x List.mem_cons_self).avoids _ _

/-- Parts one after the other, each read from its tokens, up to the mark that ends them. -/
theorem untilWithin_of_reads {stop : Char} (hstop : stop ∉ openers)
    {xs : List β} (hxs : ∀ x ∈ xs, Starts (tokens x) ∧ Reads part (tokens x) (value x))
    (rest : List Token) {n : Nat} (hn : xs.length < n) :
    untilWithin part stop n ((xs.map tokens).flatten ++ .mark stop :: rest) =
      some (xs.map value, rest) := by
  induction xs generalizing n with
  | nil =>
    obtain ⟨n, rfl⟩ : ∃ k, n = k + 1 := ⟨n - 1, by omega⟩
    have hcomma : Token.mark stop ≠ .mark ',' := by
      rintro ⟨⟩
      exact hstop List.mem_cons_self
    rw [untilWithin, List.map_nil, List.flatten_nil, List.nil_append,
      bind_of_eq (accept_self hcomma rest), if_pos rfl, pure_apply, List.map_nil]
  | cons x xs ih =>
    rw [List.length_cons] at hn
    obtain ⟨n, rfl⟩ : ∃ k, n = k + 1 := ⟨n - 1, by omega⟩
    obtain ⟨hstarts, hreads⟩ := hxs x List.mem_cons_self
    have hmore := ih (fun y hy => hxs y (List.mem_cons_of_mem _ hy)) (n := n) (by omega)
    have hfresh := fresh_flatten hstop (fun y hy => (hxs y (List.mem_cons_of_mem _ hy)).1) rest
    rw [untilWithin, List.map_cons, List.flatten_cons, List.append_assoc,
      bind_of_eq (accept_of_starts hstarts stop _), if_neg Bool.false_ne_true,
      bind_of_eq (hreads _ hfresh), bind_of_eq hmore, pure_apply, List.map_cons]

theorem length_le_flatten {tss : List (List Token)} (h : ∀ ts ∈ tss, Starts ts) :
    tss.length ≤ tss.flatten.length := by
  induction tss with
  | nil => exact Nat.zero_le _
  | cons ts tss ih =>
    have hts := (h ts List.mem_cons_self).length_pos
    have hrest := ih fun us hus => h us (List.mem_cons_of_mem _ hus)
    rw [List.flatten_cons, List.length_append, List.length_cons]
    omega

theorem upTo_of_reads {stop : Char} (hstop : stop ∉ openers)
    {xs : List β} (hxs : ∀ x ∈ xs, Starts (tokens x) ∧ Reads part (tokens x) (value x))
    (rest : List Token) :
    upTo part stop ((xs.map tokens).flatten ++ .mark stop :: rest) = some (xs.map value, rest) := by
  have hlength : (xs.map tokens).length ≤ (xs.map tokens).flatten.length := by
    refine length_le_flatten fun ts hts => ?_
    obtain ⟨x, hx, rfl⟩ := List.mem_map.mp hts
    exact (hxs x hx).1
  rw [List.length_map] at hlength
  refine untilWithin_of_reads hstop hxs rest ?_
  rw [List.length_append, List.length_cons]
  omega

/-- The tokens of parts between two marks; there are none without parts. -/
def groupTokens (start stop : Char) (parts : List (List Token)) : List Token :=
  if parts.isEmpty then [] else .mark start :: parts.flatten ++ [.mark stop]

/-- Parts between two marks, or none where the first mark does not follow. -/
theorem optionalGroup_of_reads {start stop : Char} (hstart : start ≠ ',')
    (hstop : stop ∉ openers)
    {xs : List β} (hxs : ∀ x ∈ xs, Starts (tokens x) ∧ Reads part (tokens x) (value x))
    {rest : List Token} (hrest : Avoids [',', start] rest) :
    optionalGroup start part stop (groupTokens start stop (xs.map tokens) ++ rest) =
      some (xs.map value, rest) := by
  cases xs with
  | nil =>
    have hnot : accept (.mark start) rest = some (false, rest) :=
      accept_of_avoids hrest (by simp) (by simp)
    rw [optionalGroup, groupTokens, List.map_nil, List.isEmpty_nil, if_pos rfl, List.nil_append,
      bind_of_eq hnot, if_neg Bool.false_ne_true, pure_apply, List.map_nil]
  | cons x xs =>
    obtain ⟨hstarts, hreads⟩ := hxs x List.mem_cons_self
    have hmore := upTo_of_reads hstop (fun y hy => hxs y (List.mem_cons_of_mem _ hy)) rest
    have hfresh := fresh_flatten hstop (fun y hy => (hxs y (List.mem_cons_of_mem _ hy)).1) rest
    have hself : accept (.mark start)
        (.mark start :: (tokens x ++ ((xs.map tokens).flatten ++ .mark stop :: rest))) =
        some (true, tokens x ++ ((xs.map tokens).flatten ++ .mark stop :: rest)) :=
      accept_self (by rintro ⟨⟩; exact hstart rfl) _
    have htokens : groupTokens start stop ((x :: xs).map tokens) ++ rest =
        .mark start :: (tokens x ++ ((xs.map tokens).flatten ++ .mark stop :: rest)) := by
      simp [groupTokens]
    rw [optionalGroup, htokens, bind_of_eq hself, if_pos rfl, bind_of_eq (hreads _ hfresh),
      bind_of_eq hmore, pure_apply, List.map_cons]

end Repetition

/-! ### Names with marks between them -/

/-- The tokens of names with a mark between each two of them. -/
def separatedTokens (separator : Char) : List String → List Token
  | [] => []
  | n :: more => .name n :: more.flatMap fun m => [.mark separator, .name m]

theorem moreWithin_names {separator : Char} (hseparator : separator ≠ ',') {part : Reader String}
    {more : List String} (hpart : ∀ n ∈ more, ∀ rest, part (.name n :: rest) = some (n, rest))
    {rest : List Token} (hrest : Avoids [',', separator] rest) {n : Nat} (hn : more.length ≤ n) :
    moreWithin separator part n ((more.flatMap fun m => [.mark separator, .name m]) ++ rest) =
      some (more, rest) := by
  induction more generalizing n with
  | nil =>
    rw [List.flatMap_nil, List.nil_append]
    cases n with
    | zero => rw [moreWithin, pure_apply]
    | succ n =>
      rw [moreWithin, bind_of_eq (accept_of_avoids hrest (by simp) (by simp)),
        if_neg Bool.false_ne_true, pure_apply]
  | cons m more ih =>
    rw [List.length_cons] at hn
    obtain ⟨n, rfl⟩ : ∃ k, n = k + 1 := ⟨n - 1, by omega⟩
    have hmore := ih (fun k hk => hpart k (List.mem_cons_of_mem _ hk)) (n := n) (by omega)
    have hself := accept_self (t := .mark separator) (by rintro ⟨⟩; exact hseparator rfl)
      (.name m :: ((more.flatMap fun m => [.mark separator, .name m]) ++ rest))
    rw [List.flatMap_cons, List.append_assoc, List.cons_append, List.singleton_append, moreWithin,
      bind_of_eq hself, if_pos rfl, bind_of_eq (hpart m List.mem_cons_self _), bind_of_eq hmore,
      pure_apply]

theorem length_le_flatMap (separator : Char) (more : List String) :
    more.length ≤ (more.flatMap fun m => [Token.mark separator, .name m]).length := by
  induction more with
  | nil => exact Nat.zero_le _
  | cons m more ih =>
    rw [List.flatMap_cons, List.length_append, List.length_cons]
    simp only [List.length_cons]
    omega

/-- Names with a mark between each two of them, each read as itself. -/
theorem separated_names {separator : Char} (hseparator : separator ≠ ',') {part : Reader String}
    {names : List String} (hnames : names ≠ [])
    (hpart : ∀ n ∈ names, ∀ rest, part (.name n :: rest) = some (n, rest))
    {rest : List Token} (hrest : Avoids [',', separator] rest) :
    separated separator part (separatedTokens separator names ++ rest) = some (names, rest) := by
  cases names with
  | nil => exact absurd rfl hnames
  | cons n more =>
    have hlength : more.length ≤
        ((more.flatMap fun m => [Token.mark separator, .name m]) ++ rest).length := by
      rw [List.length_append]
      have hmore := length_le_flatMap separator more
      omega
    have hnot := accept_of_ne (.mark separator) (.name n) (by rintro ⟨⟩) (by rintro ⟨⟩)
      ((more.flatMap fun m => [.mark separator, .name m]) ++ rest)
    have hmore := moreWithin_names hseparator
      (fun k hk => hpart k (List.mem_cons_of_mem _ hk)) hrest hlength
    rw [separated, separatedTokens, List.cons_append, bind_of_eq hnot,
      bind_of_eq (hpart n List.mem_cons_self _),
      bind_of_eq (p := fun ts => moreWithin separator part ts.length ts) hmore, pure_apply]

/-! ### Types -/

end Sdl

/-- The mark of a type that excludes null. -/
def requiredTokens (required : Bool) : List Sdl.Token :=
  if required then [.mark '!'] else []

/-- The tokens of a type expression. -/
def TypeExpr.tokens : TypeExpr → List Sdl.Token
  | .named n required => .name n :: requiredTokens required
  | .list item required => .mark '[' :: tokens item ++ .mark ']' :: requiredTokens required

/-- The number of lists around the name of a type expression. -/
def TypeExpr.nesting : TypeExpr → Nat
  | .named _ _ => 0
  | .list item _ => nesting item + 1

namespace Sdl

theorem nesting_lt_length_tokens (t : TypeExpr) : t.nesting < t.tokens.length := by
  induction t with
  | named n required => exact Nat.succ_pos _
  | list item required ih =>
    rw [TypeExpr.nesting, TypeExpr.tokens, List.length_append, List.length_cons, List.length_cons]
    omega

theorem accept_required (required : Bool) {rest : List Token} (hrest : Avoids [',', '!'] rest) :
    accept (.mark '!') (requiredTokens required ++ rest) = some (required, rest) := by
  cases required with
  | true => exact accept_self (by rintro ⟨⟩) rest
  | false => exact accept_of_avoids hrest (by simp) (by simp)

theorem typeExprWithin_tokens (t : TypeExpr) {n : Nat} (hn : t.nesting < n) {rest : List Token}
    (hrest : Avoids [',', '!'] rest) : typeExprWithin n (t.tokens ++ rest) = some (t, rest) := by
  induction t generalizing n rest with
  | named name required =>
    obtain ⟨n, rfl⟩ : ∃ k, n = k + 1 := ⟨n - 1, by omega⟩
    have hnot := accept_of_ne (.mark '[') (.name name) (by rintro ⟨⟩) (by rintro ⟨⟩)
      (requiredTokens required ++ rest)
    rw [TypeExpr.tokens, List.cons_append, typeExprWithin, bind_of_eq hnot,
      if_neg Bool.false_ne_true, bind_of_eq (name_name _ _),
      bind_of_eq (accept_required required hrest), pure_apply]
  | list item required ih =>
    rw [TypeExpr.nesting] at hn
    obtain ⟨n, rfl⟩ : ∃ k, n = k + 1 := ⟨n - 1, by omega⟩
    have hclose : Avoids [',', '!'] (.mark ']' :: (requiredTokens required ++ rest)) := by
      change ']' ∉ [',', '!']
      decide
    have hitem := ih (n := n) (by omega) hclose
    have hself := accept_self (t := .mark '[') (by rintro ⟨⟩)
      (item.tokens ++ .mark ']' :: (requiredTokens required ++ rest))
    rw [TypeExpr.tokens, List.cons_append, List.cons_append, List.append_assoc, List.cons_append,
      typeExprWithin, bind_of_eq hself, if_pos rfl, bind_of_eq hitem,
      bind_of_eq (mark_self (by decide) _), bind_of_eq (accept_required required hrest),
      pure_apply]

/-- The tokens of a type expression are read as the type expression. -/
theorem typeExpr_tokens (t : TypeExpr) {rest : List Token} (hrest : Avoids [',', '!'] rest) :
    typeExpr .published (t.tokens ++ rest) = some (t, rest) := by
  have hnesting := nesting_lt_length_tokens t
  refine typeExprWithin_tokens t ?_ hrest
  change t.nesting < (t.tokens ++ rest).length + 1
  rw [List.length_append]
  omega

end Sdl

end GraphQLClient
