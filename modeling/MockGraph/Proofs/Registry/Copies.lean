import MockGraph.Mock.Registry
import Mathlib.Data.List.Dedup
import Mathlib.Data.List.Induction
import Mathlib.Data.List.Perm.Basic

/-!
# `Proofs/Registry/Copies`: registries that are copied

A program makes registries, copies them, binds names in a copy and calls what a name is bound to in
one (`Action`). What a copy binds is a matter of its own history alone: what was bound in its origin
until it was copied, and what was bound in the copy itself since (`histories`). What a generator
yields is not: the log of calls is one for all copies, so a generator goes on where a call through
another copy left it.

`separate_copies` says both over all lists of actions. A constant, and the absence of a resolver,
has no use for the log. The program is sequential; what copies do in threads of their own is not
said here.
-/

set_option autoImplicit false

namespace MockGraph

namespace Resolver

/-- The identity of a generator. -/
def id? : Resolver → Option Nat
  | .constant _ => none
  | .generator id _ => some id

/-- What a resolver answers after some calls. -/
def answer (calls : List Nat) : Resolver → Json
  | .constant value => value
  | .generator id yield => yield (calls.count id)

/-- The order of the calls before does not matter. -/
theorem answer_reverse (resolver : Resolver) (calls : List Nat) :
    resolver.answer calls.reverse = resolver.answer calls := by
  cases resolver with
  | constant value => rfl
  | generator id yield => rw [answer, List.count_reverse, answer]

end Resolver

namespace Registry

/-! ## 1. A registry and its history -/

/-- What was bound to which name, in the order in which it was done. -/
abbrev History := List (String × Resolver)

def History.insert (history : History) (name : String) (resolver : Resolver) : History :=
  history ++ [(name, resolver)]

/-- What was bound to a name last. -/
def History.last? (history : History) (name : String) : Option Resolver :=
  (history.reverse.find? (·.1 = name)).map (·.2)

/-- The names that were bound, each of them once. -/
def History.names (history : History) : List String := (history.map (·.1)).dedup

/-- The history of a registry that starts with constants. -/
def History.ofConstants (constants : Json.Object) : History :=
  constants.map fun (name, value) => (name, .constant value)

/-- The registry that comes of a history. -/
def ofHistory (history : History) : Registry :=
  history.foldl (fun registry (name, resolver) => registry.insert name resolver) empty

/-- A registry is the map that its history gives. -/
structure Behaves (registry : Registry) (history : History) : Prop where
  get : ∀ name, registry.get? name = history.last? name
  contains : ∀ name, registry.contains name = true ↔ name ∈ history.names
  size : registry.size = history.names.length
  isEmpty : registry.isEmpty = true ↔ registry.size = 0

section Histories

variable {registry : Registry} {history : History} {name : String} {resolver : Resolver}

/-- The induction goes back in time: a history is empty, or something was bound last. -/
@[elab_as_elim]
theorem History.induction {motive : History → Prop} (nil : motive [])
    (insert : ∀ (history : History) (name : String) (resolver : Resolver), motive history →
      motive (history.insert name resolver)) (history : History) : motive history :=
  List.reverseRecOn history nil fun history binding => insert history binding.1 binding.2

theorem ofHistory_insert (history : History) (name : String) (resolver : Resolver) :
    ofHistory (history.insert name resolver) = (ofHistory history).insert name resolver := by
  rw [ofHistory, History.insert, List.foldl_append, List.foldl_cons, List.foldl_nil, ofHistory]

theorem ofHistory_ofConstants (constants : Json.Object) :
    ofHistory (.ofConstants constants) = ofConstants constants := by
  rw [ofHistory, History.ofConstants, List.foldl_map, ofConstants, insertConstants]

theorem History.last?_insert (history : History) (name other : String) (resolver : Resolver) :
    (history.insert name resolver).last? other =
      if name = other then some resolver else history.last? other := by
  rw [last?, insert, List.reverse_append, List.reverse_singleton, List.singleton_append]
  by_cases h : name = other
  · rw [List.find?_cons_of_pos (by simpa using h), if_pos h, Option.map_some]
  · rw [List.find?_cons_of_neg (by simpa using h), if_neg h, last?]

theorem get?_ofHistory (history : History) (name : String) :
    (ofHistory history).get? name = history.last? name := by
  induction history using History.induction with
  | nil => rfl
  | insert history bound resolver ih =>
    rw [ofHistory_insert, History.last?_insert]
    by_cases h : bound = name
    · rw [if_pos h, h, get?_insert_self]
    · rw [if_neg h, get?_insert_of_ne _ _ (Ne.symm h), ih]

theorem map_bindings_insert (registry : Registry) (name : String) (resolver : Resolver) :
    (registry.insert name resolver).bindings.map (·.1) =
      name :: (registry.bindings.map (·.1)).filter (· ≠ name) := by
  rw [insert, List.map_cons, List.filter_map]
  rfl

theorem run_call (registry : Registry) (name : String) (calls : Calls) :
    (registry.call name).run calls = ((registry.get? name).map (·.answer calls),
      ((registry.get? name).bind Resolver.id?).toList ++ calls) := by
  unfold Registry.call
  rcases registry.get? name with _ | (value | ⟨id, yield⟩)
  · rfl
  · rfl
  · rfl

/-- No name is bound twice. -/
theorem nodup_ofHistory (history : History) :
    ((ofHistory history).bindings.map (·.1)).Nodup := by
  induction history using History.induction with
  | nil => exact List.nodup_nil
  | insert history bound resolver ih =>
    rw [ofHistory_insert, map_bindings_insert]
    exact List.nodup_cons.mpr ⟨by simp, ih.filter _⟩

theorem mem_map_bindings_ofHistory (history : History) (name : String) :
    name ∈ (ofHistory history).bindings.map (·.1) ↔ name ∈ history.map (·.1) := by
  induction history using History.induction with
  | nil => rfl
  | insert history bound resolver ih =>
    rw [ofHistory_insert, map_bindings_insert, List.mem_cons, List.mem_filter, ih, History.insert,
      List.map_append, List.mem_append, List.map_singleton, List.mem_singleton]
    by_cases h : name = bound <;> simp [h]

theorem mem_of_last? (h : history.last? name = some resolver) : (name, resolver) ∈ history := by
  obtain ⟨binding, hfind, hresolver⟩ := Option.map_eq_some_iff.mp h
  have hname : binding.1 = name := by simpa using List.find?_some hfind
  have hmem := List.mem_reverse.mp (List.mem_of_find?_eq_some hfind)
  rwa [← hname, ← hresolver]

theorem last?_ofConstants {constants : Json.Object} {value : Json} (hkeys : constants.keys.Nodup)
    (h : (name, value) ∈ constants) :
    (History.ofConstants constants).last? name = some (.constant value) := by
  cases hlast : (History.ofConstants constants).last? name with
  | none =>
    have hnone := List.find?_eq_none.mp (Option.map_eq_none_iff.mp hlast) (name, .constant value)
      (List.mem_reverse.mpr (List.mem_map_of_mem h))
    simp at hnone
  | some resolver =>
    obtain ⟨⟨other, own⟩, hmem, hsame⟩ := List.mem_map.mp (mem_of_last? hlast)
    cases hsame
    cases List.inj_on_of_nodup_map hkeys hmem h rfl
    rfl

theorem contains_iff : registry.contains name = true ↔ name ∈ registry.bindings.map (·.1) := by
  rw [contains, get?, Option.isSome_map, List.find?_isSome, List.mem_map]
  simp

theorem behaves_ofHistory (history : History) : (ofHistory history).Behaves history where
  get := get?_ofHistory history
  contains name := by
    rw [contains_iff, mem_map_bindings_ofHistory, History.names, List.mem_dedup]
  size := by
    have hperm : ((ofHistory history).bindings.map (·.1)).Perm history.names := by
      refine (List.perm_ext_iff_of_nodup (nodup_ofHistory history) (List.nodup_dedup _)).mpr
        fun name => ?_
      rw [mem_map_bindings_ofHistory, List.mem_dedup]
    rw [Registry.size, ← hperm.length_eq, List.length_map]
  isEmpty := by
    rw [Registry.isEmpty, Registry.size, List.isEmpty_iff, List.length_eq_zero_iff]

end Histories

/-! ## 2. Programs -/

/-- A step of a program that works with registries. They are numbered in the order in which they
come to be. -/
inductive Action where
  /-- A registry is made from constants; without any it is empty. -/
  | create (constants : Json.Object)
  | clone (origin : Nat)
  | bind (copy : Nat) (name : String) (resolver : Resolver)
  | call (copy : Nat) (name : String)

/-- What an action does to a list of what there is for each copy: `made` is for a new registry, and
`bound` for a name that is bound. -/
def Action.apply {α : Type} (made : Json.Object → α) (bound : α → String → Resolver → α)
    (copies : List α) : Action → List α
  | .create constants => copies ++ [made constants]
  | .clone origin => copies ++ copies[origin]?.toList
  | .bind copy name resolver => copies.modify copy (bound · name resolver)
  | .call _ _ => copies

/-- The registries of a program, and the calls of their generators. -/
structure Session where
  copies : List Registry
  calls : Calls

namespace Session

/-- No registry was made. -/
def start : Session := ⟨[], []⟩

/-- What an action is answered, and the log after it. -/
def perform (session : Session) : Action → Option Json × Calls
  | .call copy name =>
    match session.copies[copy]? with
    | none => (none, session.calls)
    | some registry => (registry.call name).run session.calls
  | _ => (none, session.calls)

def answer (session : Session) (action : Action) : Option Json := (session.perform action).1

def step (session : Session) (action : Action) : Session :=
  ⟨action.apply ofConstants insert session.copies, (session.perform action).2⟩

def run (session : Session) (actions : List Action) : Session := actions.foldl step session

end Session

/-! ## 3. What is past -/

/-- The resolver that a call reaches, by the history of the copy it is made through. -/
def Action.reached? (histories : List History) : Action → Option Resolver
  | .call copy name => histories[copy]?.bind (·.last? name)
  | _ => none

/-- The history of each copy, and the generators that were called through any of them, in the order
of the calls. -/
structure Past where
  histories : List History
  called : List Nat

namespace Past

def nothing : Past := ⟨[], []⟩

def add (past : Past) (action : Action) : Past where
  histories := action.apply History.ofConstants History.insert past.histories
  called := past.called ++ ((action.reached? past.histories).bind Resolver.id?).toList

def addAll (past : Past) (actions : List Action) : Past := actions.foldl add past

end Past

/-- A session is where its past has led. -/
structure Session.Matches (session : Session) (past : Past) : Prop where
  copies : session.copies = past.histories.map ofHistory
  calls : session.calls = past.called.reverse

section Steps

variable {session : Session} {past : Past}

/-- An action does the same to registries as to their histories. -/
theorem Action.apply_map (action : Action) (histories : List History) :
    action.apply ofConstants insert (histories.map ofHistory) =
      (action.apply History.ofConstants History.insert histories).map ofHistory := by
  cases action with
  | create constants => simp [apply, ofHistory_ofConstants]
  | clone origin => simp [apply, Option.toList_map]
  | bind copy name resolver =>
    apply List.ext_getElem?
    intro place
    simp only [apply, List.getElem?_modify, List.getElem?_map]
    cases histories[place]? with
    | none => rfl
    | some history =>
      by_cases h : copy = place
      · simp [h, ofHistory_insert]
      · simp [h]
  | call copy name => rfl

/-- A call is answered by the resolver that it reaches. -/
theorem Session.Matches.perform (h : session.Matches past) (action : Action) :
    session.perform action =
      ((action.reached? past.histories).map (·.answer past.called),
        (past.add action).called.reverse) := by
  have hidle : (none, session.calls) = ((none : Option Json), (past.called ++ []).reverse) := by
    rw [List.append_nil, h.calls]
  rw [Past.add]
  cases action with
  | create constants | clone origin | bind copy name resolver => exact hidle
  | call copy name =>
    rw [Session.perform, Action.reached?, h.copies, List.getElem?_map]
    cases past.histories[copy]? with
    | none => exact hidle
    | some history =>
      simp only [Option.map_some, Option.bind_some, run_call, get?_ofHistory]
      cases history.last? name with
      | none => exact hidle
      | some resolver =>
        simp only [Option.map_some, Option.bind_some, h.calls, Resolver.answer_reverse]
        cases resolver.id? with
        | none => simp
        | some id => simp

theorem Session.Matches.step (h : session.Matches past) (action : Action) :
    (session.step action).Matches (past.add action) where
  copies := by rw [Session.step, h.copies, Action.apply_map, Past.add]
  calls := by rw [Session.step, h.perform]

theorem Session.Matches.run (h : session.Matches past) (actions : List Action) :
    (session.run actions).Matches (past.addAll actions) := by
  induction actions generalizing session past with
  | nil => exact h
  | cons action actions ih => exact ih (h.step action)

theorem Session.matches_start : Session.start.Matches .nothing := ⟨rfl, rfl⟩

end Steps

/-! ## 4. One sequence for all copies -/

/-- The values that a generator yields in the course of actions, through whatever copy it is
called: the answers to the actions that reach it. -/
def yielded (id : Nat) : Session → Past → List Action → List Json
  | _, _, [] => []
  | session, past, action :: rest =>
    (if (action.reached? past.histories).bind Resolver.id? = some id then
      (session.answer action).toList else []) ++
    yielded id (session.step action) (past.add action) rest

/-- Whatever is bound under an identity yields the same values. -/
def Past.Yields (past : Past) (id : Nat) (yield : Nat → Json) : Prop :=
  ∀ history ∈ past.histories, ∀ name other, (name, .generator id other) ∈ history → other = yield

section Sequences

variable {session : Session} {past : Past} {id : Nat} {yield : Nat → Json}

theorem Past.Yields.add (h : past.Yields id yield) {action : Action}
    (haction : ∀ copy name other, action = .bind copy name (.generator id other) → other = yield) :
    (past.add action).Yields id yield := by
  intro history hmem name other hbinding
  cases action with
  | create constants =>
    rcases List.mem_append.mp hmem with hmem | hmem
    · exact h history hmem name other hbinding
    · rw [List.mem_singleton.mp hmem, History.ofConstants, List.mem_map] at hbinding
      obtain ⟨_, -, hconstant⟩ := hbinding
      cases hconstant
  | clone origin =>
    rcases List.mem_append.mp hmem with hmem | hmem
    · exact h history hmem name other hbinding
    · exact h history (List.mem_of_getElem? (Option.mem_toList.mp hmem)) name other hbinding
  | bind copy bound resolver =>
    obtain ⟨place, hplace⟩ := List.mem_iff_getElem?.mp hmem
    rw [Past.add, Action.apply, List.getElem?_modify] at hplace
    obtain ⟨before, hbefore, rfl⟩ := Option.map_eq_some_iff.mp hplace
    have hpast := h before (List.mem_of_getElem? hbefore) name other
    split at hbinding
    · rcases List.mem_append.mp hbinding with hbinding | hbinding
      · exact hpast hbinding
      · cases List.mem_singleton.mp hbinding
        exact haction copy _ other rfl
    · exact hpast hbinding
  | call copy name' => exact h history hmem name other hbinding

/-- What is reached under an identity yields these values. -/
theorem Past.Yields.of_reached (h : past.Yields id yield) {action : Action} {own : Nat → Json}
    (hreached : action.reached? past.histories = some (.generator id own)) : own = yield := by
  cases action with
  | create constants | clone origin | bind copy name resolver => cases hreached
  | call copy name =>
    obtain ⟨history, hhistory, hlast⟩ := Option.bind_eq_some_iff.mp hreached
    exact h history (List.mem_of_getElem? hhistory) name own (mem_of_last? hlast)

/-- A call that reaches a generator is answered with the next value of its sequence. -/
theorem Session.Matches.append_value (h : session.Matches past) (hyields : past.Yields id yield)
    (action : Action) :
    (List.range (past.called.count id)).map yield ++
        (if (action.reached? past.histories).bind Resolver.id? = some id then
          (session.answer action).toList else []) =
      (List.range ((past.add action).called.count id)).map yield := by
  rw [Session.answer, h.perform, Past.add, List.count_append]
  cases hreached : action.reached? past.histories with
  | none => simp
  | some resolver =>
    simp only [Option.bind_some, Option.map_some]
    cases resolver with
    | constant value => simp [Resolver.id?]
    | generator other own =>
      simp only [Resolver.id?, Option.some.injEq, Option.toList_some]
      by_cases hid : other = id
      · subst hid
        rw [if_pos rfl, hyields.of_reached hreached, Resolver.answer, List.count_singleton_self,
          List.range_succ, List.map_append, List.map_singleton]
      · simp [hid]

/-- What a generator has yielded before, and then in the course of some actions, is the beginning of
its sequence. -/
theorem Session.Matches.append_yielded (h : session.Matches past) (hyields : past.Yields id yield)
    {actions : List Action}
    (hactions : ∀ copy name other, .bind copy name (.generator id other) ∈ actions →
      other = yield) :
    (List.range (past.called.count id)).map yield ++ yielded id session past actions =
      (List.range ((past.addAll actions).called.count id)).map yield := by
  induction actions generalizing session past with
  | nil => exact List.append_nil _
  | cons action actions ih =>
    have hadd := hyields.add fun copy name other heq =>
      hactions copy name other (heq ▸ List.mem_cons_self)
    rw [yielded, ← List.append_assoc, h.append_value hyields]
    exact ih (h.step action) hadd fun copy name other hmem =>
      hactions copy name other (List.mem_cons_of_mem _ hmem)

end Sequences

/-! ## 5. Copies -/

section Frames

variable (session : Session)

theorem Session.run_snoc (actions : List Action) (action : Action) :
    session.run (actions ++ [action]) = (session.run actions).step action := by
  rw [run, List.foldl_append, List.foldl_cons, List.foldl_nil, run]

/-- What is bound in one copy is bound in no other. -/
theorem Session.copies_bind {copy other : Nat} (hother : other ≠ copy) (name : String)
    (resolver : Resolver) :
    (session.step (.bind copy name resolver)).copies[other]? = session.copies[other]? := by
  show (session.copies.modify copy (·.insert name resolver))[other]? = session.copies[other]?
  simp only [List.getElem?_modify, if_neg (Ne.symm hother), id_map']

/-- A clone is what its origin is. -/
theorem Session.copies_clone {origin : Nat} {registry : Registry}
    (h : session.copies[origin]? = some registry) :
    (session.step (.clone origin)).copies = session.copies ++ [registry] := by
  rw [step, Action.apply, h, Option.toList_some]

variable {past : Past} {copy : Nat} {name : String}

/-- What a call reaches stays, until something else is bound to the name in the same copy. -/
theorem Past.reached_add {history : History} (h : past.histories[copy]? = some history)
    {action : Action} (hunbound : ∀ resolver, action ≠ .bind copy name resolver) :
    ∃ next, (past.add action).histories[copy]? = some next ∧
      next.last? name = history.last? name := by
  have hlength := (List.getElem?_eq_some_iff.mp h).1
  cases action with
  | create constants | clone origin =>
    exact ⟨history, (List.getElem?_append_left hlength).trans h, rfl⟩
  | call other bound => exact ⟨history, h, rfl⟩
  | bind other bound resolver =>
    have hnext : (past.add (.bind other bound resolver)).histories[copy]? =
        some (if other = copy then history.insert bound resolver else history) := by
      simp only [Past.add, Action.apply, List.getElem?_modify, h]
      rfl
    refine ⟨_, hnext, ?_⟩
    split
    · next hcopy =>
      have hname : bound ≠ name := by
        rintro rfl
        exact hunbound resolver (by rw [hcopy])
      rw [History.last?_insert, if_neg hname]
    · rfl

theorem Past.reached_addAll {history : History} (h : past.histories[copy]? = some history)
    {actions : List Action} (hunbound : ∀ resolver, .bind copy name resolver ∉ actions) :
    Action.reached? (past.addAll actions).histories (.call copy name) = history.last? name := by
  induction actions generalizing past history with
  | nil => rw [Past.addAll, List.foldl_nil, Action.reached?, h, Option.bind_some]
  | cons action actions ih =>
    obtain ⟨next, hnext, hlast⟩ := reached_add h fun resolver heq =>
      hunbound resolver (heq ▸ List.mem_cons_self)
    rw [← hlast]
    exact ih hnext fun resolver hmem => hunbound resolver (List.mem_cons_of_mem _ hmem)

end Frames

/-- **Copies bind apart and yield together.** After any actions each copy is the map that its own
history gives. A call is answered by the resolver that was bound last in the history of the copy:
with its value, if that is a constant, and by a generator with the value that comes after all calls of
it so far, through whatever copies. So the values that a generator yields through all copies are one
sequence. Nothing that is bound in a copy is seen in another one, and a clone has the resolvers of
its origin, generators included. A constant that a copy is made from is the answer to every call of
its name, whatever is done in between, until another resolver is bound to the name in the copy. -/
theorem separate_copies (actions : List Action) :
    List.Forall₂ Behaves (Session.start.run actions).copies
      (Past.nothing.addAll actions).histories ∧
    (∀ action, (Session.start.run actions).answer action =
      (action.reached? (Past.nothing.addAll actions).histories).map
        (·.answer (Past.nothing.addAll actions).called)) ∧
    (∀ id yield,
      (∀ copy name other, .bind copy name (.generator id other) ∈ actions → other = yield) →
      yielded id .start .nothing actions =
        (List.range ((Past.nothing.addAll actions).called.count id)).map yield) ∧
    (∀ copy name resolver other, other ≠ copy →
      (Session.start.run (actions ++ [.bind copy name resolver])).copies[other]? =
        (Session.start.run actions).copies[other]?) ∧
    (∀ origin registry, (Session.start.run actions).copies[origin]? = some registry →
      (Session.start.run (actions ++ [.clone origin])).copies =
        (Session.start.run actions).copies ++ [registry]) ∧
    (∀ constants name value more, constants.keys.Nodup → (name, value) ∈ constants →
      (∀ resolver, .bind (Session.start.run actions).copies.length name resolver ∉ more) →
      (Session.start.run (actions ++ .create constants :: more)).answer
        (.call (Session.start.run actions).copies.length name) = some value) := by
  have hmatches := Session.matches_start.run actions
  refine ⟨?_, fun action => ?_, fun id yield hactions => ?_, ?_, ?_, ?_⟩
  · rw [hmatches.copies, List.forall₂_map_left_iff, List.forall₂_same]
    exact fun history _ => behaves_ofHistory history
  · rw [Session.answer, hmatches.perform]
  · have hyields : Past.nothing.Yields id yield := fun history hmem => absurd hmem List.not_mem_nil
    exact Session.matches_start.append_yielded hyields hactions
  · intro copy name resolver other hother
    rw [Session.run_snoc]
    exact Session.copies_bind _ hother name resolver
  · intro origin registry horigin
    rw [Session.run_snoc]
    exact Session.copies_clone _ horigin
  · intro constants name value more hkeys hmem hunbound
    have hmade : ((Past.nothing.addAll actions).add (.create constants)).histories[
        (Session.start.run actions).copies.length]? = some (.ofConstants constants) := by
      rw [hmatches.copies, List.length_map]
      exact List.getElem?_concat_length ..
    have hmore := (hmatches.step (.create constants)).run more
    have hrun : Session.start.run (actions ++ .create constants :: more) =
        ((Session.start.run actions).step (.create constants)).run more := by
      rw [Session.run, List.foldl_append, List.foldl_cons, Session.run, Session.run]
    rw [hrun, Session.answer, hmore.perform, Past.reached_addAll hmade hunbound,
      last?_ofConstants hkeys hmem, Option.map_some, Resolver.answer]

/-- Counts its calls. -/
def counter (id : Nat) : Resolver := .generator id fun calls => .array (List.replicate calls .null)

/-- A counter that two copies share until one of them replaces it. -/
def sharedCounter : List Action :=
  [.create [("Int", .bool true)], .bind 0 "ID" (counter 0), .clone 0, .call 0 "ID", .call 1 "ID",
    .bind 1 "ID" (.constant .null), .call 1 "ID", .call 0 "ID"]

theorem separate_copies_counter :
    yielded 0 .start .nothing sharedCounter =
      [.array [], .array [.null], .array [.null, .null]] ∧
    (Session.start.run sharedCounter).answer (.call 1 "ID") = some .null ∧
    (Session.start.run sharedCounter).answer (.call 1 "Int") = some (.bool true) ∧
    (Session.start.run (sharedCounter ++ [.bind 1 "Int" (counter 1)])).copies[0]? =
      (Session.start.run sharedCounter).copies[0]? ∧
    (Session.start.run (sharedCounter ++ [.clone 0])).copies =
      (Session.start.run sharedCounter).copies ++
        [ofHistory [("Int", .constant (.bool true)), ("ID", counter 0)]] ∧
    (Session.start.run (sharedCounter ++ [.create [("ID", .bool false)], .bind 0 "ID" (counter 2),
      .call 2 "ID"])).answer (.call 2 "ID") = some (.bool false) := by
  obtain ⟨-, hanswer, hyielded, hframe, hclone, hconstant⟩ := separate_copies sharedCounter
  refine ⟨?_, hanswer _, hanswer _, hframe 1 "Int" (counter 1) 0 (by decide), hclone 0 _ rfl, ?_⟩
  · refine hyielded 0 (fun calls => .array (List.replicate calls .null)) ?_
    intro copy name other hbound
    simp only [sharedCounter, counter, List.mem_cons, List.not_mem_nil, or_false, reduceCtorEq,
      false_or, Action.bind.injEq, Resolver.generator.injEq, and_false] at hbound
    exact hbound.2.2.2
  · refine hconstant [("ID", .bool false)] "ID" (.bool false) _ (by decide) List.mem_cons_self ?_
    intro resolver hbound
    have hlength : (Session.start.run sharedCounter).copies.length = 2 := rfl
    simp [hlength] at hbound

end Registry

end MockGraph
