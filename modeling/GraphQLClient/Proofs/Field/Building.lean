import GraphQLClient.Document.Build
import GraphQLClient.Fragment.Inflate
import GraphQLClient.Proofs.Entries.Mentions

/-!
# Building fields

A field is built from another by calls that give arguments, set the alias, or select below it.  Each
kind of call touches a part of the field of its own.  So what comes of a sequence of calls can be
told from three things: the last alias, all arguments one after the other, and all selections one
after the other.  Calls of different kinds may be made in any order, and the arguments may be given
in any portions.

## Main definitions

* `Field.Call`, `Field.calls?` : calls, and the field that comes of a sequence of them.
* `Field.given` : a field with an alias, arguments and selections.
* `Field.Call.Agrees`, `Field.Call.Reorders` : calls that give the same, and the same calls with
  those of different kinds in another order.

## Main results

* `Field.call?_eq_ok` : one call.
* `Field.calls?_eq_ok` : a sequence of calls, by one call after the other.
* `Field.eq_given_of_calls?` : what a sequence of calls depends on.
-/

namespace GraphQLClient.Field

/-! ### Calls -/

/-- A call that builds a field from another. -/
inductive Call where
  | withArguments (arguments : Entries Value)
  | withAlias (key : String)
  | select (children : List Field)

/-- The kinds of calls. -/
inductive Call.Kind where
  | arguments
  | key
  | selection
  deriving DecidableEq

namespace Call

def kind : Call → Kind
  | .withArguments _ => .arguments
  | .withAlias _ => .key
  | .select _ => .selection

/-- The arguments that a call gives. -/
def arguments : Call → Entries Value
  | .withArguments arguments => arguments
  | _ => []

/-- The alias that a call sets. -/
def key? : Call → Option String
  | .withAlias key => some key
  | _ => none

/-- The fields that a call selects. -/
def children : Call → List Field
  | .select children => children
  | _ => []

/-- The arguments that calls give, one after the other. -/
def allArguments (calls : List Call) : Entries Value :=
  calls.flatMap arguments

/-- The alias that is set last. -/
def lastKey? (calls : List Call) : Option String :=
  (calls.filterMap key?).getLast?

/-- The fields that calls select, one after the other. -/
def allChildren (calls : List Call) : List Field :=
  calls.flatMap children

/-- Calls that set the same alias last and select the same fields, and that give the same arguments
if each keeps the place of its first mention and the value of its last. -/
structure Agrees (calls calls' : List Call) : Prop where
  key : lastKey? calls' = lastKey? calls
  arguments : (allArguments calls').merged = (allArguments calls).merged
  children : allChildren calls' = allChildren calls

/-- The same calls, those of each kind in the same order. -/
def Reorders (calls calls' : List Call) : Prop :=
  ∀ k, calls'.filter (·.kind = k) = calls.filter (·.kind = k)

end Call

/-- The field that comes of a call. -/
def call? (f : Field) : Call → Except Refusal Field
  | .withArguments arguments => .ok (f.withArguments arguments)
  | .withAlias key => .ok (f.withAlias key)
  | .select children => f.select? children

/-- The field that comes of calls, one after the other. -/
def calls? (f : Field) (calls : List Call) : Except Refusal Field :=
  calls.foldlM call? f

end Field

/-- A field with an alias, if there is one, and with arguments behind its own. -/
def FieldHead.given (h : FieldHead) (key? : Option String) (arguments : Entries Value) :
    FieldHead :=
  { h with
    alias? := key?.or h.alias?
    accessor := key?.getD h.accessor
    arguments := (h.arguments ++ arguments).merged }

namespace FieldHead

theorem given_none_nil {h : FieldHead} (hh : h.arguments.keys.Nodup) : h.given none [] = h := by
  simp [given, Entries.merged_of_nodup hh]

theorem given_given (h : FieldHead) (first? second? : Option String)
    (arguments arguments' : Entries Value) :
    (h.given first? arguments).given second? arguments' =
      h.given (second?.or first?) (arguments ++ arguments') := by
  have hkey : second?.getD (first?.getD h.accessor) = (second?.or first?).getD h.accessor := by
    cases second? <;> rfl
  simp only [given, Option.or_assoc, hkey, Entries.merged_merged_append, List.append_assoc]

/-- Arguments may be merged before they are given. -/
theorem given_merged {h : FieldHead} (hh : h.arguments.keys.Nodup) (key? : Option String)
    (arguments : Entries Value) : h.given key? arguments.merged = h.given key? arguments := by
  have hmerged : (h.arguments ++ arguments.merged).merged = (h.arguments ++ arguments).merged := by
    rw [← Entries.putAll_eq_merged hh, ← Entries.putAll_eq_merged hh, Entries.putAll_merged hh]
  rw [given, given, hmerged]

end FieldHead

namespace Field

/-- A field with an alias, if there is one, with arguments behind its own, and with more selected
below it, if anything can be. -/
def given (f : Field) (key? : Option String) (arguments : Entries Value) (children : List Field) :
    Field :=
  match f with
  | .leaf h => .leaf (h.given key? arguments)
  | .composite h existing => .composite (h.given key? arguments) (existing ++ children)

/-! ### What is given -/

variable {f g : Field}

theorem nodup_keys_given (f : Field) (key? : Option String) (arguments : Entries Value)
    (children : List Field) : (f.given key? arguments children).head.arguments.keys.Nodup := by
  cases f <;> exact Entries.nodup_keys_merged _

/-- Giving nothing changes nothing. -/
theorem given_none_nil_nil (hf : f.head.arguments.keys.Nodup) : f.given none [] [] = f := by
  cases f with
  | leaf h => exact congrArg leaf (FieldHead.given_none_nil hf)
  | composite h existing =>
    rw [given, FieldHead.given_none_nil (h := h) hf, List.append_nil]

/-- What is given later comes behind what is given first, and its alias counts. -/
theorem given_given (f : Field) (first? second? : Option String)
    (arguments arguments' : Entries Value) (children children' : List Field) :
    (f.given first? arguments children).given second? arguments' children' =
      f.given (second?.or first?) (arguments ++ arguments') (children ++ children') := by
  cases f with
  | leaf h => exact congrArg leaf (h.given_given _ _ _ _)
  | composite h existing => simp only [given, h.given_given, List.append_assoc]

/-- Arguments may be merged before they are given. -/
theorem given_merged (hf : f.head.arguments.keys.Nodup) (key? : Option String)
    (arguments : Entries Value) (children : List Field) :
    f.given key? arguments.merged children = f.given key? arguments children := by
  cases f with
  | leaf h => exact congrArg leaf (FieldHead.given_merged hf _ _)
  | composite h existing => rw [given, given, FieldHead.given_merged (h := h) hf]

/-! ### One call -/

theorem withArguments_eq_given (hf : f.head.arguments.keys.Nodup) (arguments : Entries Value) :
    f.withArguments arguments = f.given none arguments [] := by
  have hhead (h : FieldHead) (hh : h.arguments.keys.Nodup) :
      { h with arguments := h.arguments.putAll arguments } = h.given none arguments := by
    rw [Entries.putAll_eq_merged hh, FieldHead.given, Option.none_or, Option.getD_none]
  cases f with
  | leaf h => exact congrArg leaf (hhead h hf)
  | composite h existing =>
    rw [given, List.append_nil, ← hhead h hf]
    rfl

theorem withAlias_eq_given (hf : f.head.arguments.keys.Nodup) (key : String) :
    f.withAlias key = f.given (some key) [] [] := by
  have hhead (h : FieldHead) (hh : h.arguments.keys.Nodup) :
      { h with alias? := some key, accessor := key } = h.given (some key) [] := by
    rw [FieldHead.given, List.append_nil, Entries.merged_of_nodup hh, Option.some_or,
      Option.getD_some]
  cases f with
  | leaf h => exact congrArg leaf (hhead h hf)
  | composite h existing =>
    rw [given, List.append_nil, ← hhead h hf]
    rfl

/-- Something can be selected below a field exactly if it has a composite type. -/
theorem select?_eq_ok (hf : f.head.arguments.keys.Nodup) {children : List Field} :
    f.select? children = .ok g ↔ f.isLeaf = false ∧ g = f.given none [] children := by
  cases f with
  | leaf h => simp [select?, isLeaf]
  | composite h existing =>
    rw [given, FieldHead.given_none_nil (h := h) hf]
    simp [select?, isLeaf, eq_comm]

/-- What comes of a call is the field with what the call gives. -/
theorem call?_eq_ok (hf : f.head.arguments.keys.Nodup) {call : Call} :
    f.call? call = .ok g ↔
      (call.kind = .selection → f.isLeaf = false) ∧
        g = f.given call.key? call.arguments call.children := by
  cases call with
  | withArguments arguments =>
    have hgiven := withArguments_eq_given hf arguments
    exact ⟨fun h => ⟨nofun, (Except.ok.inj h).symm.trans hgiven⟩,
      fun h => congrArg Except.ok (hgiven.trans h.2.symm)⟩
  | withAlias key =>
    have hgiven := withAlias_eq_given hf key
    exact ⟨fun h => ⟨nofun, (Except.ok.inj h).symm.trans hgiven⟩,
      fun h => congrArg Except.ok (hgiven.trans h.2.symm)⟩
  | select children =>
    rw [call?, select?_eq_ok hf, Call.kind, imp_iff_right rfl]
    rfl

@[simp]
theorem isLeaf_given (f : Field) (key? : Option String) (arguments : Entries Value)
    (children : List Field) : (f.given key? arguments children).isLeaf = f.isLeaf := by
  cases f <;> rfl

/-! ### Sequences of calls -/

namespace Call

theorem lastKey?_cons (call : Call) (calls : List Call) :
    lastKey? (call :: calls) = (lastKey? calls).or call.key? := by
  rw [lastKey?, lastKey?, List.filterMap_cons]
  cases call.key? with
  | none => rw [Option.or_none]
  | some key =>
    rw [List.getLast?_cons]
    cases (calls.filterMap key?).getLast? <;> rfl

theorem allArguments_cons (call : Call) (calls : List Call) :
    allArguments (call :: calls) = call.arguments ++ allArguments calls :=
  List.flatMap_cons

theorem allChildren_cons (call : Call) (calls : List Call) :
    allChildren (call :: calls) = call.children ++ allChildren calls :=
  List.flatMap_cons

end Call

theorem calls?_cons_eq_ok {call : Call} {calls : List Call} :
    f.calls? (call :: calls) = .ok g ↔ ∃ f', f.call? call = .ok f' ∧ f'.calls? calls = .ok g := by
  rw [calls?, List.foldlM_cons]
  cases f.call? call <;> simp [calls?, bind, Except.bind]

/-- What comes of calls is the field with all that they give, and they can be made unless something
is selected below a field of another than a composite type. -/
theorem calls?_eq_ok (hf : f.head.arguments.keys.Nodup) {calls : List Call} :
    f.calls? calls = .ok g ↔
      (∀ call ∈ calls, call.kind = .selection → f.isLeaf = false) ∧
        g = f.given (Call.lastKey? calls) (Call.allArguments calls) (Call.allChildren calls) := by
  induction calls generalizing f with
  | nil =>
    have hnothing : f.given (Call.lastKey? []) (Call.allArguments []) (Call.allChildren []) = f :=
      given_none_nil_nil hf
    rw [hnothing, and_iff_right fun _ h => absurd h List.not_mem_nil]
    exact ⟨fun h => (Except.ok.inj h).symm, fun h => congrArg Except.ok h.symm⟩
  | cons call calls ih =>
    simp only [calls?_cons_eq_ok, call?_eq_ok hf, and_assoc, exists_and_left, exists_eq_left,
      ih (nodup_keys_given _ _ _ _), isLeaf_given, given_given, Call.lastKey?_cons,
      Call.allArguments_cons, Call.allChildren_cons, List.forall_mem_cons]

/-! ### Calls in another order -/

namespace Call

variable {calls calls' : List Call}

/-- What only calls of one kind give can be told from the calls of that kind. -/
theorem flatMap_filter_kind {α : Type} {part : Call → List α} {k : Kind}
    (hpart : ∀ call, call.kind ≠ k → part call = []) (calls : List Call) :
    (calls.filter (·.kind = k)).flatMap part = calls.flatMap part := by
  induction calls with
  | nil => rfl
  | cons call calls ih =>
    rw [List.filter_cons, List.flatMap_cons]
    by_cases hk : call.kind = k
    · rw [if_pos (decide_eq_true hk), List.flatMap_cons, ih]
    · rw [if_neg (by simpa using hk), ih, hpart call hk, List.nil_append]

theorem allArguments_filter (calls : List Call) :
    allArguments (calls.filter (·.kind = .arguments)) = allArguments calls := by
  refine flatMap_filter_kind (fun call hcall => ?_) calls
  cases call with
  | withArguments => exact absurd rfl hcall
  | withAlias | select => rfl

theorem allChildren_filter (calls : List Call) :
    allChildren (calls.filter (·.kind = .selection)) = allChildren calls := by
  refine flatMap_filter_kind (fun call hcall => ?_) calls
  cases call with
  | select => exact absurd rfl hcall
  | withArguments | withAlias => rfl

theorem lastKey?_filter (calls : List Call) :
    lastKey? (calls.filter (·.kind = .key)) = lastKey? calls := by
  rw [lastKey?, lastKey?, List.filterMap_eq_flatMap_toList, List.filterMap_eq_flatMap_toList,
    flatMap_filter_kind fun call hcall => ?_]
  cases call with
  | withAlias => exact absurd rfl hcall
  | withArguments | select => rfl

theorem Reorders.agrees (h : Reorders calls calls') : Agrees calls calls' where
  key := by rw [← lastKey?_filter, h, lastKey?_filter]
  arguments := by rw [← allArguments_filter, h, allArguments_filter]
  children := by rw [← allChildren_filter, h, allChildren_filter]

theorem Reorders.mem (h : Reorders calls calls') {call : Call} (hcall : call ∈ calls') :
    call ∈ calls := by
  have hfilter : call ∈ calls'.filter (·.kind = call.kind) :=
    List.mem_filter.mpr ⟨hcall, decide_eq_true rfl⟩
  rw [h] at hfilter
  exact List.mem_of_mem_filter hfilter

end Call

/-- What agreeing calls give is the same. -/
theorem given_eq_of_agrees (hf : f.head.arguments.keys.Nodup) {calls calls' : List Call}
    (h : Call.Agrees calls calls') :
    f.given (Call.lastKey? calls') (Call.allArguments calls') (Call.allChildren calls') =
      f.given (Call.lastKey? calls) (Call.allArguments calls) (Call.allChildren calls) := by
  rw [h.key, h.children, ← given_merged hf, h.arguments, given_merged hf]

/-- **Building fields.** What comes of a sequence of calls is the field with the last alias, with
all arguments behind its own, each name at its first place and with its last value, and with all
selections behind its own.  Calls that agree on these give a field that is written in the same way,
or not at all for the same reason, and that reads the same results.  Calls of different kinds can be
made in any other order. -/
theorem eq_given_of_calls? {f g : Field} (hf : f.head.arguments.keys.Nodup) {calls : List Call}
    (h : f.calls? calls = .ok g) :
    g = f.given (Call.lastKey? calls) (Call.allArguments calls) (Call.allChildren calls) ∧
      (∀ calls' g', Call.Agrees calls calls' → f.calls? calls' = .ok g' →
        g'.responseKey = g.responseKey ∧ g'.accessor = g.accessor ∧
          ∀ c : Catalog,
            (∀ typename table, c.selectionOf typename g' table = c.selectionOf typename g table) ∧
              ∀ j path, c.inflateField g' j path = c.inflateField g j path) ∧
      ∀ calls', Call.Reorders calls calls' → f.calls? calls' = .ok g := by
  obtain ⟨hcalls, hg⟩ := (calls?_eq_ok hf).mp h
  refine ⟨hg, fun calls' g' hagrees hg' => ?_, fun calls' hreorders => ?_⟩
  · have heq : g' = g := by
      rw [((calls?_eq_ok hf).mp hg').2, given_eq_of_agrees hf hagrees, hg]
    subst heq
    exact ⟨rfl, rfl, fun _ => ⟨fun _ _ => rfl, fun _ _ => rfl⟩⟩
  · refine (calls?_eq_ok hf).mpr ⟨fun call hcall => hcalls call (hreorders.mem hcall), ?_⟩
    rw [given_eq_of_agrees hf hreorders.agrees, hg]

/-! ### A search -/

/-- The head of a search without arguments. -/
def searchHead : FieldHead where
  parent := "Query"
  definition :=
    ⟨none, "search",
      [⟨none, "text", .named "String" false, none, []⟩,
        ⟨none, "first", .named "Int" false, none, []⟩],
      .list (.named "Character" true) false, []⟩
  alias? := none
  accessor := "search"
  arguments := []

def characterName : Field :=
  .leaf ⟨"Character", ⟨none, "name", [], .named "String" false, []⟩, none, "name", []⟩

/-- Calls that set an alias twice, and give an argument twice. -/
def searchCalls : List Call :=
  [.withArguments [("text", .string "luke"), ("first", .int 5)], .withAlias "first",
    .select [characterName], .withArguments [("text", .string "leia")], .withAlias "heroes",
    .select [characterName.withAlias "title"]]

/-- The field that comes of them. -/
def heroSearch : Field :=
  .composite
    { searchHead with
      alias? := some "heroes"
      accessor := "heroes"
      arguments := [("text", .string "leia"), ("first", .int 5)] }
    [characterName, characterName.withAlias "title"]

/-- The selections may come first, and the arguments last. -/
theorem calls?_heroSearch :
    searchHead.arguments.keys.Nodup ∧
      (Field.composite searchHead []).calls? searchCalls = .ok heroSearch ∧
      (Field.composite searchHead []).calls?
        [.select [characterName], .withAlias "first", .select [characterName.withAlias "title"],
          .withArguments [("text", .string "luke"), ("first", .int 5)], .withAlias "heroes",
          .withArguments [("text", .string "leia")]] = .ok heroSearch := by
  have hsearch : searchHead.arguments.keys.Nodup := List.nodup_nil
  have hcalls : (Field.composite searchHead []).calls? searchCalls = .ok heroSearch := rfl
  refine ⟨hsearch, hcalls,
    (eq_given_of_calls? (f := .composite searchHead []) hsearch hcalls).2.2 _ fun k => ?_⟩
  cases k <;> rfl

end Field

end GraphQLClient
