import GraphQLClient.Proofs.Sdl.Reading
import GraphQLClient.Proofs.Sdl.Spelling

/-!
# Constants

A constant has a last token that is its own, so a reader that has read one from some tokens reads
the same one when more tokens follow.  A default value comes as a text, and it denotes a constant if
its tokens are read as one and the text does not end in a comment, which would hide what follows.

## Main definitions

* `Sdl.Extends` : a reader takes all that another one takes, also when more tokens follow.
* `Sdl.literal?`, `Sdl.literalTokens` : the constant that a text denotes, and its tokens.

## Main results

* `Sdl.extends_constantWithin` : reading a constant, whatever follows.
* `Sdl.spells_literal`, `Sdl.constant_literal` : a text that denotes a constant is read as it,
  wherever the text stands.
-/

namespace GraphQLClient.Sdl

/-! ### Readers that look no further -/

/-- A reader takes, from tokens that another reader takes, the same when more tokens follow; and
there is a token to be taken. -/
def Extends {α : Type} (p q : Reader α) : Prop :=
  ∀ ts a r, p ts = some (a, r) → afterCommas ts ≠ [] ∧ ∀ x, q (ts ++ x) = some (a, r ++ x)

theorem bind_eq_some {α β : Type} {p : Reader α} {f : α → Reader β} {ts r : List Token} {b : β} :
    (p >>= f) ts = some (b, r) ↔ ∃ a rest, p ts = some (a, rest) ∧ f a rest = some (b, r) := by
  change StateT.bind p f ts = some (b, r) ↔ _
  rw [StateT.bind]
  constructor
  · intro h
    obtain ⟨⟨a, rest⟩, ha, hb⟩ := Option.bind_eq_some_iff.mp h
    exact ⟨a, rest, ha, hb⟩
  · rintro ⟨a, rest, ha, hb⟩
    exact Option.bind_eq_some_iff.mpr ⟨(a, rest), ha, hb⟩

theorem afterCommas_append {ts : List Token} (h : afterCommas ts ≠ []) (x : List Token) :
    afterCommas (ts ++ x) = afterCommas ts ++ x := by
  rw [afterCommas, List.dropWhile_append, if_neg (by rw [List.isEmpty_iff]; exact h)]
  rfl

/-- What is accepted, or not, is the same when tokens follow, unless there was none. -/
theorem accept_eq_some {t : Token} {ts r : List Token} {b : Bool}
    (h : accept t ts = some (b, r)) :
    (afterCommas ts = [] ∧ b = false ∧ r = []) ∨
      (afterCommas ts ≠ [] ∧ ∀ x, accept t (ts ++ x) = some (b, r ++ x)) := by
  unfold accept at h ⊢
  cases hts : afterCommas ts with
  | nil =>
    rw [hts] at h
    cases h
    exact .inl ⟨rfl, rfl, rfl⟩
  | cons t' rest =>
    refine .inr ⟨by rintro ⟨⟩, fun x => ?_⟩
    rw [hts] at h
    rw [afterCommas_append (by rw [hts]; rintro ⟨⟩), hts, List.cons_append]
    by_cases ht : t' = t
    · simp only [if_pos ht] at h ⊢
      cases h
      rfl
    · simp only [if_neg ht] at h ⊢
      cases h
      rfl

theorem extends_name : Extends name name := by
  intro ts a r h
  obtain ⟨o, rest, ho, ha⟩ := bind_eq_some.mp h
  unfold name? at ho
  cases hts : afterCommas ts with
  | nil =>
    rw [hts] at ho
    cases ho
    cases ha
  | cons t ts' =>
    rw [hts] at ho
    refine ⟨by rintro ⟨⟩, fun x => ?_⟩
    cases t with
    | name s =>
      cases ho
      cases ha
      have hname : name? (ts ++ x) = some (some a, r ++ x) := by
        rw [name?, afterCommas_append (by rw [hts]; rintro ⟨⟩), hts]
        rfl
      rw [name, bind_of_eq hname]
      rfl
    | mark c => cases ho; cases ha
    | int s => cases ho; cases ha
    | float s => cases ho; cases ha
    | string s => cases ho; cases ha

theorem extends_untilWithin {α : Type} {p q : Reader α} (hpq : Extends p q) (stop : Char)
    {n m : Nat} (hnm : n ≤ m) : Extends (untilWithin p stop n) (untilWithin q stop m) := by
  induction n generalizing m with
  | zero =>
    intro ts a r h
    cases h
  | succ n ih =>
    obtain ⟨m, rfl⟩ : ∃ k, m = k + 1 := ⟨m - 1, by omega⟩
    intro ts as r h
    obtain ⟨b, rest, hb, h⟩ := bind_eq_some.mp h
    cases b with
    | true =>
      rw [if_pos rfl] at h
      cases h
      obtain ⟨-, hb', -⟩ | ⟨hne, happend⟩ := accept_eq_some hb
      · cases hb'
      · refine ⟨hne, fun x => ?_⟩
        rw [untilWithin, bind_of_eq (happend x), if_pos rfl, pure_apply]
    | false =>
      rw [if_neg Bool.false_ne_true] at h
      obtain ⟨a, rest', ha, h⟩ := bind_eq_some.mp h
      obtain ⟨as', rest'', has, h⟩ := bind_eq_some.mp h
      cases h
      obtain ⟨hne, hitem⟩ := hpq _ _ _ ha
      obtain ⟨-, hmore⟩ := ih (m := m) (by omega) _ _ _ has
      obtain ⟨-, -, rfl⟩ | ⟨hne', happend⟩ := accept_eq_some hb
      · exact absurd rfl hne
      · refine ⟨hne', fun x => ?_⟩
        rw [untilWithin, bind_of_eq (happend x), if_neg Bool.false_ne_true, bind_of_eq (hitem x),
          bind_of_eq (hmore x), pure_apply]

theorem extends_upTo {α : Type} {p q : Reader α} (hpq : Extends p q) (stop : Char) :
    Extends (upTo p stop) (upTo q stop) := by
  intro ts as r h
  refine ⟨((extends_untilWithin hpq stop (Nat.le_refl _)) ts as r h).1, fun x => ?_⟩
  have hlength : ts.length ≤ (ts ++ x).length := by
    rw [List.length_append]
    omega
  exact ((extends_untilWithin hpq stop hlength) ts as r h).2 x

theorem extends_valueOf {p q : Reader Literal} (hpq : Extends p q) :
    Extends (valueOf .published p) (valueOf .published q) := by
  intro ts fields r h
  obtain ⟨n, rest, hn, h⟩ := bind_eq_some.mp h
  obtain ⟨b, rest', hb, h⟩ := bind_eq_some.mp h
  obtain ⟨hne, hname⟩ := extends_name _ _ _ hn
  cases b with
  | false => cases h
  | true =>
    rw [if_pos rfl] at h
    obtain ⟨v, rest'', hv, h⟩ := bind_eq_some.mp h
    cases h
    obtain ⟨-, hvalue⟩ := hpq _ _ _ hv
    obtain ⟨-, hb', -⟩ | ⟨-, happend⟩ := accept_eq_some hb
    · cases hb'
    · refine ⟨hne, fun x => ?_⟩
      rw [valueOf, bind_of_eq (hname x), bind_of_eq (happend x), if_pos rfl,
        bind_of_eq (hvalue x), pure_apply]

/-! ### Constants -/

/-- The constant of a name. -/
def nameLiteral (s : String) : Literal :=
  if s = "true" then .boolean true
  else if s = "false" then .boolean false
  else if s = "null" then .null
  else .enum s

theorem bind_pure_apply {α β : Type} (p : Reader α) (f : α → β) (ts : List Token) :
    (p >>= fun a => pure (f a)) ts = (p ts).map fun r => (f r.1, r.2) := by
  change StateT.bind p (fun a => pure (f a)) ts = _
  rw [StateT.bind]
  cases p ts with
  | none => rfl
  | some r => rfl

theorem constantWithin_succ (d : Dialect) (n : Nat) (ts : List Token) :
    constantWithin d (n + 1) ts =
      match afterCommas ts with
      | .int s :: rest => some (.int s, rest)
      | .float s :: rest => some (.float s, rest)
      | .string s :: rest => some (.string s, rest)
      | .name s :: rest => some (nameLiteral s, rest)
      | .mark c :: rest =>
        if c = '[' then (upTo (constantWithin d n) ']' rest).map fun p => (.list p.1, p.2)
        else if c = '\x7b' then
          (upTo (valueOf d (constantWithin d n)) '\x7d' rest).map fun p =>
            (.object p.1.flatten, p.2)
        else none
      | [] => none := by
  have hget : (get : Reader (List Token)) ts = some (ts, ts) := rfl
  rw [constantWithin, bind_of_eq hget]
  cases afterCommas ts with
  | nil => rfl
  | cons t rest =>
    have hset : (set rest : Reader PUnit) ts = some (⟨⟩, rest) := rfl
    cases t with
    | int s => rfl
    | float s => rfl
    | string s => rfl
    | name s => rfl
    | mark c =>
      simp only
      rw [bind_of_eq hset]
      by_cases hlist : c = '['
      · rw [if_pos hlist, if_pos hlist, bind_pure_apply]
      · rw [if_neg hlist, if_neg hlist]
        by_cases hobject : c = '\x7b'
        · rw [if_pos hobject, if_pos hobject, bind_pure_apply]
        · rw [if_neg hobject, if_neg hobject]
          rfl

theorem extends_constantWithin {n m : Nat} (hnm : n ≤ m) :
    Extends (constantWithin .published n) (constantWithin .published m) := by
  induction n generalizing m with
  | zero =>
    intro ts a r h
    cases h
  | succ n ih =>
    obtain ⟨m, rfl⟩ : ∃ k, m = k + 1 := ⟨m - 1, by omega⟩
    have hitem := ih (m := m) (by omega)
    intro ts l r h
    rw [constantWithin_succ] at h
    cases hts : afterCommas ts with
    | nil =>
      rw [hts] at h
      cases h
    | cons t ts' =>
      have hne : afterCommas ts ≠ [] := by
        rw [hts]
        rintro ⟨⟩
      refine ⟨by rintro ⟨⟩, fun x => ?_⟩
      rw [hts] at h
      rw [constantWithin_succ, afterCommas_append hne, hts, List.cons_append]
      cases t with
      | int s => cases h; rfl
      | float s => cases h; rfl
      | string s => cases h; rfl
      | name s => cases h; rfl
      | mark c =>
        simp only at h ⊢
        by_cases hlist : c = '['
        · rw [if_pos hlist] at h ⊢
          obtain ⟨⟨ls, rest⟩, hls, hl⟩ := Option.map_eq_some_iff.mp h
          cases hl
          rw [(extends_upTo hitem ']' _ _ _ hls).2 x, Option.map_some]
        · rw [if_neg hlist] at h ⊢
          by_cases hobject : c = '\x7b'
          · rw [if_pos hobject] at h ⊢
            obtain ⟨⟨fields, rest⟩, hfields, hl⟩ := Option.map_eq_some_iff.mp h
            cases hl
            rw [(extends_upTo (extends_valueOf hitem) '\x7d' _ _ _ hfields).2 x, Option.map_some]
          · rw [if_neg hobject] at h
            cases h

/-! ### The constant of a text -/

variable {alpha : Alphabet}

/-- The constant that a text denotes in an alphabet.  A text that ends in a comment denotes none,
since the comment goes on with whatever follows. -/
def literal? (alpha : Alphabet) (text : String) : Option Literal :=
  match tokens? alpha text with
  | none => none
  | some ts =>
    if tokens? alpha (text ++ ",") = some (ts ++ [.mark ',']) then
      match constant .published (withoutCommas ts) with
      | some (l, []) => some l
      | _ => none
    else none

/-- The tokens of a text that denotes a constant. -/
def literalTokens (text : String) : List Token :=
  withoutCommas ((tokens? .all text).getD [])

theorem literal?_eq_some_iff {text : String} {l : Literal} :
    literal? alpha text = some l ↔
      ∃ ts, tokens? alpha text = some ts ∧ tokens? alpha (text ++ ",") = some (ts ++ [.mark ',']) ∧
        constant .published (withoutCommas ts) = some (l, []) := by
  constructor
  · intro h
    unfold literal? at h
    split at h
    · cases h
    · next ts hts =>
      split at h
      · next hend =>
        split at h
        · next l' hl =>
          cases h
          exact ⟨ts, hts, hend, hl⟩
        · cases h
      · cases h
  · rintro ⟨ts, hts, hend, hl⟩
    simp only [literal?, hts, if_pos hend, hl]

/-- A text denotes the same constant with all characters and escapes. -/
theorem literal?_all {text : String} {l : Literal} (h : literal? alpha text = some l) :
    literal? .all text = some l := by
  obtain ⟨ts, hts, hend, hl⟩ := literal?_eq_some_iff.mp h
  exact literal?_eq_some_iff.mpr ⟨ts, tokens?_all hts, tokens?_all hend, hl⟩

/-- A text that denotes a constant spells its tokens. -/
theorem spells_literal {text : String} {l : Literal} (h : literal? alpha text = some l) :
    Spells alpha text.toList (literalTokens text) := by
  obtain ⟨ts, hts, hend, -⟩ := literal?_eq_some_iff.mp h
  rw [literalTokens, tokens?_all hts, Option.getD_some]
  refine spells_of_tokensFrom? (tokens?_eq_some_iff.mp hts).2 ?_
  rw [tokens?_eq_some_iff, String.toList_append] at hend
  exact hend.2

/-- The tokens of a text that denotes a constant are read as the constant. -/
theorem constant_literal {text : String} {l : Literal} (h : literal? alpha text = some l)
    (rest : List Token) :
    constant .published (literalTokens text ++ rest) = some (l, rest) := by
  obtain ⟨ts, hts, -, hl⟩ := literal?_eq_some_iff.mp h
  rw [literalTokens, tokens?_all hts, Option.getD_some]
  have hdepth : (withoutCommas ts).length + 1 ≤ (withoutCommas ts ++ rest).length + 1 := by
    rw [List.length_append]
    omega
  exact ((extends_constantWithin hdepth) _ _ _ hl).2 rest

end GraphQLClient.Sdl
