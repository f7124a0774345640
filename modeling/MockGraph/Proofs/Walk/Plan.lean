import MockGraph.Proofs.Walk.Order

/-!
# `Proofs/Walk/Plan`: what a walk does before anything is known of its resolvers

A plan is the mock of selections with a place left open for each value that a resolver may supply.
The places are numbered in the order in which a walk asks for them. Planning is a walk that asks
nobody: it knows the schema and the fragments, and of a field it only notes that it was asked.

Main statement, `perform_eq_plan`: a walk fails if its plan does and with the same error, and
otherwise its mock is the plan with the answers to the noted fields filled in, the first answer in
the first place and so on. So whatever a walk looks up, copies or refuses is in the plan, where no
resolver has a say.
-/

set_option autoImplicit false

namespace MockGraph.Walk

open Syntax

/-! ## 1. Answers -/

/-- The type whose resolver may supply a field. -/
def innerType? (schema : TypeSystem) (field : Occurrence) : Option Name :=
  match target schema field.outer field.name with
  | .ok found => some found.name
  | .error _ => none

theorem innerType?_of_target {schema : TypeSystem} {field : Occurrence} {found : Target}
    (ht : target schema field.outer field.name = .ok found) :
    innerType? schema field = some found.name := by
  rw [innerType?, ht]

/-- Calls the resolver that may supply a field. -/
def answerOf (context : Context) (field : Occurrence) : StateM Calls (Option Json) :=
  match innerType? context.schema field with
  | some type => context.registry.call type
  | none => pure none

/-- What the resolvers answer to fields that are asked in this order, and the calls after that. -/
def answersTo (context : Context) (fields : List Occurrence) (calls : Calls) :
    List (Option Json) × Calls :=
  (fields.mapM (answerOf context)).run calls

section Answers

variable (context : Context) (fields more : List Occurrence) (calls : Calls)

@[simp] theorem answersTo_nil : answersTo context [] calls = ([], calls) := rfl

theorem answersTo_cons (field : Occurrence) :
    answersTo context (field :: fields) calls =
      (((answerOf context field).run calls).1 ::
          (answersTo context fields ((answerOf context field).run calls).2).1,
        (answersTo context fields ((answerOf context field).run calls).2).2) := by
  simp only [answersTo, List.mapM_cons]
  rfl

theorem answersTo_append :
    answersTo context (fields ++ more) calls =
      ((answersTo context fields calls).1 ++
          (answersTo context more (answersTo context fields calls).2).1,
        (answersTo context more (answersTo context fields calls).2).2) := by
  simp only [answersTo, List.mapM_append]
  rfl

theorem length_answersTo : (answersTo context fields calls).1.length = fields.length := by
  induction fields generalizing calls with
  | nil => rfl
  | cons field rest ih =>
    rw [answersTo_cons, List.length_cons, List.length_cons, ih]

end Answers

/-! ## 2. Plans -/

/-- What becomes of a selection. -/
inductive Plan where
  | typename (key cursor : Name)
  /-- A field and what it leads to. The answer of its resolver has the number `call`. -/
  | field (field : Occurrence) (found : Target) (call : Nat) (inner : List Plan)
  | inline (parts : List Plan)
  | spread (name : Name) (parts : List Plan)

mutual

/-- The members that a selection contributes once the answers are known. -/
def Plan.members (schema : TypeSystem) (answer : Nat → Option Json) : Plan → Json.Object
  | .typename key cursor => [(key, .string cursor)]
  | .field field found call inner =>
    fieldMembers field.key found.depth
      (if found.kind.isComposite then
          some (overlay (filledInto schema answer [] inner) (answer call))
        else (answer call).or (leafSample schema found.kind found.name field.name))
  | .inline parts => filledInto schema answer [] parts
  | .spread _ parts => filledInto schema answer [] parts

/-- Merges what selections contribute into `mock`. -/
def filledInto (schema : TypeSystem) (answer : Nat → Option Json) (mock : Json.Object) :
    List Plan → Json.Object
  | [] => mock
  | part :: rest => filledInto schema answer (mock.merge (part.members schema answer)) rest

end

/-- The mock of a plan, where `values` are the answers in their order. -/
def filled (schema : TypeSystem) (values : List (Option Json)) (parts : List Plan) : Json.Object :=
  filledInto schema (fun call => values[call]?.join) [] parts

mutual

/-- The parts of a plan, at every depth. -/
def Plan.nodes : Plan → List Plan
  | .typename key cursor => [.typename key cursor]
  | .field field found call inner => .field field found call inner :: nodesIn inner
  | .inline parts => .inline parts :: nodesIn parts
  | .spread name parts => .spread name parts :: nodesIn parts

def nodesIn : List Plan → List Plan
  | [] => []
  | part :: rest => part.nodes ++ nodesIn rest

end

/-! ## 3. Planning -/

/-- What planning notes: the fields in the order in which they are asked, and the plans of
fragments. A fragment that is being planned has no plan yet. -/
structure Draft where
  asked : List Occurrence
  plans : List (Name × Option (List Plan))

/-- A computation that plans. -/
abbrev Planning (α : Type) := ExceptT WalkError (StateM Draft) α

/-- The plan of a fragment that was spread. -/
def Draft.plan? (draft : Draft) (name : Name) : Option (Option (List Plan)) :=
  (draft.plans.find? (·.1 = name)).map (·.2)

def Draft.noted (draft : Draft) (name : Name) (plan : Option (List Plan)) : Draft :=
  { draft with plans := (name, plan) :: draft.plans }

def Draft.ask (draft : Draft) (field : Occurrence) : Draft :=
  { draft with asked := draft.asked ++ [field] }

/-- Notes that a field is asked, and gives the number of its answer. -/
def ask (field : Occurrence) : Planning Nat := do
  let draft ← get
  set (draft.ask field)
  return draft.asked.length

/-- Plans a field that leads to `found`. The selections on it are planned before it is asked. -/
def planField (field : Occurrence) (found : Target) (nested : Planning (List Plan)) :
    Planning Plan := do
  if found.kind = .inputObject then throw (.mismatch (.invalidType found.name found.kind))
  else if found.kind.isComposite then
    let inner ← nested
    return .field field found (← ask field) inner
  else return .field field found (← ask field) []

mutual

/-- Plans a selection on the type `cursor`, where `inside` plans a fragment. -/
def planOne (schema : TypeSystem) (inside : Name → Planning (List Plan)) (cursor : Name) :
    Selection → Planning Plan
  | .field alias? name arguments _ nested =>
    if name = "__typename" then return .typename (alias?.getD name) cursor
    else
      match target schema cursor name with
      | .error mismatch => throw (.mismatch mismatch)
      | .ok found =>
        planField ⟨cursor, alias?.getD name, name, arguments, nested⟩ found
          (planAll schema inside found.name nested)
  | .spread name _ => return .spread name (← inside name)
  | .inline condition _ nested =>
    return .inline (← planAll schema inside (condition.getD cursor) nested)

def planAll (schema : TypeSystem) (inside : Name → Planning (List Plan)) (cursor : Name) :
    List Selection → Planning (List Plan)
  | [] => return []
  | selection :: rest => do
    let part ← planOne schema inside cursor selection
    let parts ← planAll schema inside cursor rest
    return part :: parts

end

/-- The plan of a fragment where it is spread: the noted one, or the one that `plan` makes. -/
def planWith (fragments : List Fragment) (plan : Fragment → Planning (List Plan)) (name : Name) :
    Planning (List Plan) := do
  match fragments.find? (·.name = name) with
  | none => throw (.unknownFragment name)
  | some fragment =>
    match (← get).plan? name with
    | some (some parts) => return parts
    | some none => throw (.cyclicFragment name)
    | none =>
      modify (·.noted name none)
      let parts ← plan fragment
      modify (·.noted name (some parts))
      return parts

/-- Plans a fragment, with at most `depth` fragments inside each other. -/
def planAt (schema : TypeSystem) (fragments : List Fragment) : Nat → Name → Planning (List Plan)
  | 0 => planWith fragments fun fragment => throw (.cyclicFragment fragment.name)
  | depth + 1 => planWith fragments fun fragment =>
    planAll schema (planAt schema fragments depth) fragment.typeCondition fragment.selections

/-- What a planning computation gives for a draft, and the draft after it. -/
def drafted {α : Type} (planning : Planning α) (draft : Draft) : Except WalkError α × Draft :=
  StateT.run (ExceptT.run planning) draft

/-- The plan of selections on the type `cursor`, and the fields that are asked. -/
def plan (schema : TypeSystem) (fragments : List Fragment) (cursor : Name) (set : List Selection) :
    Except WalkError (List Plan) × List Occurrence :=
  let (result, draft) :=
    drafted (planAll schema (planAt schema fragments fragments.length) cursor set) ⟨[], []⟩
  (result, draft.asked)

section Drafted

variable {α β : Type} (draft : Draft)

@[simp] theorem drafted_get : drafted get draft = (.ok draft, draft) := rfl

@[simp] theorem drafted_modify (change : Draft → Draft) :
    drafted (modify change) draft = (.ok (), change draft) := rfl

theorem drafted_bind (planning : Planning α) (next : α → Planning β) :
    drafted (planning >>= next) draft =
      match drafted planning draft with
      | (.ok a, after) => drafted (next a) after
      | (.error error, after) => (.error error, after) := by
  have hb : drafted (planning >>= next) draft =
      ExceptT.bindCont next (drafted planning draft).1 (drafted planning draft).2 := rfl
  rw [hb]
  rcases drafted planning draft with ⟨_ | a, after⟩
  · rfl
  · rfl

theorem plan?_noted (name other : Name) (found : Option (List Plan)) :
    (draft.noted name found).plan? other =
      if name = other then some found else draft.plan? other := by
  by_cases h : name = other
  · simp [Draft.noted, Draft.plan?, h]
  · simp [Draft.noted, Draft.plan?, h]

end Drafted

/-! ## 4. A walk follows its plan -/

/-- `answer` gives what the resolvers answered to the fields that were asked. -/
def Supplies (context : Context) (calls : Calls) (asked : List Occurrence)
    (answer : Nat → Option Json) : Prop :=
  ∀ k value, (answersTo context asked calls).1[k]? = some value → answer k = value

/-- What a walk and its plan note of a fragment: the object of one that is finished is its plan with
the answers filled in. -/
def Alike (context : Context) (calls : Calls) (asked : List Occurrence) :
    Option Progress → Option (Option (List Plan)) → Prop
  | none, none => True
  | some .started, some none => True
  | some (.finished mock), some (some parts) => ∀ answer, Supplies context calls asked answer →
      filledInto context.schema answer [] parts = mock
  | _, _ => False

/-- The states of a walk and of its plan, if the walk began with `calls`. -/
structure Linked (context : Context) (calls : Calls) (state : State) (draft : Draft) : Prop where
  calls_eq : state.calls = (answersTo context draft.asked calls).2
  table : ∀ name,
    Alike context calls draft.asked (state.progress? name) (draft.plan? name)

/-- A walk and its plan come from `start` to the same end. Results are related by `rel`, whatever
the answers are that have not been given yet. -/
def Follows (context : Context) (calls : Calls) {α β : Type} (start : Draft)
    (rel : (Nat → Option Json) → α → β → Prop) :
    Except WalkError α × State → Except WalkError β × Draft → Prop
  | (.ok a, state), (.ok b, draft) =>
    start.asked <+: draft.asked ∧ Linked context calls state draft ∧
      ∀ answer, Supplies context calls draft.asked answer → rel answer a b
  | (.error error, state), (.error error', draft) =>
    error = error' ∧ Linked context calls state draft
  | _, _ => False

section Linked

variable {context : Context} {calls : Calls} {state : State} {draft : Draft} {name : Name}

theorem Supplies.of_begins {asked more : List Occurrence} {answer : Nat → Option Json}
    (h : Supplies context calls more answer) (hp : asked <+: more) :
    Supplies context calls asked answer := by
  obtain ⟨rest, rfl⟩ := hp
  intro k value hk
  refine h k value ?_
  obtain ⟨hlt, -⟩ := List.getElem?_eq_some_iff.mp hk
  rw [answersTo_append, List.getElem?_append_left hlt, hk]

theorem Alike.of_begins {asked more : List Occurrence} {progress : Option Progress}
    {found : Option (Option (List Plan))} (h : Alike context calls asked progress found)
    (hp : asked <+: more) : Alike context calls more progress found := by
  unfold Alike at h ⊢
  split at h
  · trivial
  · trivial
  · exact fun answer hs => h answer (hs.of_begins hp)
  · exact h.elim

/-- Walk and plan ask the next field. -/
theorem Linked.ask (h : Linked context calls state draft) {field : Occurrence} {type : Name}
    (ht : innerType? context.schema field = some type) :
    Linked context calls
      { state with calls := ((context.registry.call type).run state.calls).2 } (draft.ask field) ∧
    ∀ answer, Supplies context calls (draft.ask field).asked answer →
      answer draft.asked.length = ((context.registry.call type).run state.calls).1 := by
  have hone : answersTo context [field] state.calls =
      ([((context.registry.call type).run state.calls).1],
        ((context.registry.call type).run state.calls).2) := by
    rw [answersTo_cons, answersTo_nil, answerOf, ht]
  have hall : answersTo context (draft.ask field).asked calls =
      ((answersTo context draft.asked calls).1 ++
          [((context.registry.call type).run state.calls).1],
        ((context.registry.call type).run state.calls).2) := by
    rw [Draft.ask, answersTo_append, ← h.calls_eq, hone]
  refine ⟨⟨?_, fun name => ?_⟩, fun answer hs => ?_⟩
  · rw [hall]
  · exact (h.table name).of_begins (List.prefix_append _ _)
  · refine hs _ _ ?_
    rw [hall, ← length_answersTo context draft.asked calls]
    exact List.getElem?_concat_length

theorem Linked.start (h : Linked context calls state draft) :
    Linked context calls (state.noted name .started) (draft.noted name none) := by
  refine ⟨h.calls_eq, fun other => ?_⟩
  rw [progress?_noted, plan?_noted]
  by_cases hn : name = other
  · rw [if_pos hn, if_pos hn]
    trivial
  · rw [if_neg hn, if_neg hn]
    exact h.table other

theorem Linked.finish (h : Linked context calls state draft) {mock : Json.Object}
    {parts : List Plan} (hm : ∀ answer, Supplies context calls draft.asked answer →
      filledInto context.schema answer [] parts = mock) :
    Linked context calls (state.noted name (.finished mock))
      (draft.noted name (some parts)) := by
  refine ⟨h.calls_eq, fun other => ?_⟩
  rw [progress?_noted, plan?_noted]
  by_cases hn : name = other
  · rw [if_pos hn, if_pos hn]
    exact hm
  · rw [if_neg hn, if_neg hn]
    exact h.table other

/-- A walk that has its result follows a plan that has its. -/
theorem Follows.result {α β : Type} {rel : (Nat → Option Json) → α → β → Prop} {a : α} {b : β}
    (h : Linked context calls state draft)
    (hr : ∀ answer, Supplies context calls draft.asked answer → rel answer a b) :
    Follows context calls draft rel (outcome (pure a) state) (drafted (pure b) draft) :=
  ⟨List.prefix_refl _, h, hr⟩

theorem Follows.of_begins {α β : Type} {rel : (Nat → Option Json) → α → β → Prop} {start : Draft}
    {walked : Except WalkError α × State} {planned : Except WalkError β × Draft}
    (hp : start.asked <+: draft.asked) (h : Follows context calls draft rel walked planned) :
    Follows context calls start rel walked planned := by
  unfold Follows at h ⊢
  split at h
  · exact ⟨hp.trans h.1, h.2⟩
  · exact h
  · exact h.elim

theorem Follows.bind {α β γ δ : Type} {walk : Walk α} {planning : Planning β}
    {next : α → Walk γ} {next' : β → Planning δ} {rel : (Nat → Option Json) → α → β → Prop}
    {rel' : (Nat → Option Json) → γ → δ → Prop}
    (h : Follows context calls draft rel (outcome walk state) (drafted planning draft))
    (hn : ∀ a b between middle, Linked context calls between middle →
      (∀ answer, Supplies context calls middle.asked answer → rel answer a b) →
      Follows context calls middle rel' (outcome (next a) between) (drafted (next' b) middle)) :
    Follows context calls draft rel' (outcome (walk >>= next) state)
      (drafted (planning >>= next') draft) := by
  rw [outcome_bind, drafted_bind]
  rcases hw : outcome walk state with ⟨error | a, between⟩ <;>
    rcases hp : drafted planning draft with ⟨error' | b, middle⟩ <;> rw [hw, hp] at h
  · exact h
  · exact h.elim
  · exact h.elim
  · obtain ⟨hbegins, hl, hrel⟩ := h
    exact .of_begins hbegins (hn a b between middle hl hrel)

/-- What a plan becomes makes no difference to the walk. -/
theorem Follows.map {α β γ : Type} {walk : Walk α} {planning : Planning β} {f : β → γ}
    {rel : (Nat → Option Json) → α → β → Prop} {rel' : (Nat → Option Json) → α → γ → Prop}
    (h : Follows context calls draft rel (outcome walk state) (drafted planning draft))
    (hr : ∀ answer a b, Supplies context calls draft.asked answer → rel answer a b →
      rel' answer a (f b)) :
    Follows context calls draft rel' (outcome walk state)
      (drafted (planning >>= fun b => pure (f b)) draft) := by
  rw [drafted_bind]
  rcases hw : outcome walk state with ⟨error | a, after⟩ <;>
    rcases hp : drafted planning draft with ⟨error' | b, last⟩ <;> rw [hw, hp] at h
  · exact h
  · exact h.elim
  · exact h.elim
  · obtain ⟨hbegins, hl, hrel⟩ := h
    exact ⟨hbegins, hl, fun answer hs => hr answer a b (hs.of_begins hbegins) (hrel answer hs)⟩

end Linked

/-- The selections of a set are walked like their plan. -/
def FollowsAll (context : Context) (calls : Calls) (mock : Json.Object) (draft : Draft) :
    Except WalkError Json.Object × State → Except WalkError (List Plan) × Draft → Prop :=
  Follows context calls draft fun answer after parts =>
    filledInto context.schema answer mock parts = after

section Selections

variable {context : Context} {calls : Calls} {state : State} {draft : Draft}

/-- A field that is found follows its plan, if the selections on it do. -/
theorem follows_field {cursor name : Name} {alias? : Option Name} {arguments : List Argument}
    {nested : List Selection} {found : Target} {walk : Walk Json.Object}
    {planning : Planning (List Plan)} (hl : Linked context calls state draft)
    (ht : target context.schema cursor name = .ok found)
    (hw : FollowsAll context calls [] draft (outcome walk state) (drafted planning draft)) :
    Follows context calls draft
      (fun answer members (part : Plan) => part.members context.schema answer = members)
      (outcome (do
        let value? ← fieldValue context name found walk
        return fieldMembers (alias?.getD name) found.depth value?) state)
      (drafted (planField ⟨cursor, alias?.getD name, name, arguments, nested⟩ found planning)
        draft) := by
  have htype : innerType? context.schema ⟨cursor, alias?.getD name, name, arguments, nested⟩ =
      some found.name := innerType?_of_target ht
  rw [outcome_bind, planField]
  by_cases hi : found.kind = .inputObject
  · rw [outcome_fieldValue_input hi, if_pos hi]
    exact ⟨rfl, hl⟩
  rw [if_neg hi]
  cases hk : found.kind.isComposite with
  | false =>
    obtain ⟨hl', hanswer⟩ := hl.ask htype
    rw [outcome_fieldValue_leaf hk hi (outcome_resolve ..)]
    refine ⟨List.prefix_append _ _, hl', fun answer hs => ?_⟩
    change Plan.members context.schema answer _ = _
    rw [Plan.members, hk, hanswer answer hs]
    rfl
  | true =>
    rw [if_pos rfl, drafted_bind]
    rcases hout : outcome walk state with ⟨error | mock, between⟩ <;>
      rcases hplan : drafted planning draft with ⟨error' | parts, middle⟩ <;>
        rw [hout, hplan] at hw
    · rw [outcome_fieldValue_fails hk hout]
      exact hw
    · exact hw.elim
    · exact hw.elim
    · obtain ⟨hbegins, hl, hmock⟩ := hw
      obtain ⟨hl', hanswer⟩ := hl.ask htype
      rw [outcome_fieldValue_composite hk hout (outcome_resolve ..)]
      refine ⟨hbegins.trans (List.prefix_append _ _), hl', fun answer hs => ?_⟩
      have hmock := hmock answer (hs.of_begins (List.prefix_append _ _))
      change Plan.members context.schema answer _ = _
      rw [Plan.members, hk, hanswer answer hs, if_pos rfl, hmock]

variable {spread : Name → Walk Json.Object} {inside : Name → Planning (List Plan)}

mutual

theorem follows_contribution
    (hs : ∀ name state draft, Linked context calls state draft →
      FollowsAll context calls [] draft (outcome (spread name) state) (drafted (inside name) draft))
    (cursor : Name) (state : State) (draft : Draft) (hl : Linked context calls state draft) :
    ∀ selection, Follows context calls draft
      (fun answer members (part : Plan) => part.members context.schema answer = members)
      (outcome (contribution context spread cursor selection) state)
      (drafted (planOne context.schema inside cursor selection) draft)
  | .field alias? name arguments directives nested => by
    rw [contribution, planOne]
    by_cases hn : name = "__typename"
    · rw [if_pos hn, if_pos hn]
      exact .result hl fun answer _ => rfl
    rw [if_neg hn, if_neg hn, outcome_bind, outcome_require]
    cases ht : target context.schema cursor name with
    | error mismatch => exact ⟨rfl, hl⟩
    | ok found =>
      exact follows_field hl ht (follows_selectionsInto hs found.name [] state draft hl nested)
  | .spread name directives => by
    rw [contribution, planOne]
    exact (hs name state draft hl).map fun answer members parts _ hm => hm
  | .inline condition directives nested => by
    rw [contribution, planOne]
    have h := follows_selectionsInto hs (condition.getD cursor) [] state draft hl nested
    exact h.map fun answer members parts _ hm => hm

theorem follows_selectionsInto
    (hs : ∀ name state draft, Linked context calls state draft →
      FollowsAll context calls [] draft (outcome (spread name) state) (drafted (inside name) draft))
    (cursor : Name) (mock : Json.Object) (state : State) (draft : Draft)
    (hl : Linked context calls state draft) :
    ∀ set, FollowsAll context calls mock draft
      (outcome (selectionsInto context spread cursor mock set) state)
      (drafted (planAll context.schema inside cursor set) draft)
  | [] => by
    rw [selectionsInto, planAll]
    exact .result hl fun answer _ => rfl
  | selection :: rest => by
    rw [selectionsInto, planAll]
    refine Follows.bind (follows_contribution hs cursor state draft hl selection) ?_
    intro members part between middle hl' hm
    have h := follows_selectionsInto hs cursor (mock.merge members) between middle hl' rest
    refine h.map fun answer after parts hs hafter => ?_
    rw [filledInto, hm answer hs]
    exact hafter

end

end Selections

/-- A spread follows its plan, if what is in the fragment does. -/
theorem follows_spreadWith {context : Context} {calls : Calls} {walk : Fragment → Walk Json.Object}
    {planning : Fragment → Planning (List Plan)}
    (hw : ∀ fragment state draft, Linked context calls state draft →
      FollowsAll context calls [] draft (outcome (walk fragment) state)
        (drafted (planning fragment) draft))
    (name : Name) (state : State) (draft : Draft) (hl : Linked context calls state draft) :
    FollowsAll context calls [] draft (outcome (spreadWith context walk name) state)
      (drafted (planWith context.fragments planning name) draft) := by
  unfold spreadWith planWith Context.fragment?
  cases context.fragments.find? (·.name = name) with
  | none => exact ⟨rfl, hl⟩
  | some fragment =>
    rw [outcome_bind, drafted_bind, outcome_get, drafted_get]
    have htable := hl.table name
    rcases hprogress : state.progress? name with _ | (_ | mock) <;>
      rcases hplan : draft.plan? name with _ | (_ | parts) <;> rw [hprogress, hplan] at htable
    case none.none =>
      simp only [hprogress, hplan]
      rw [outcome_bind, outcome_note, drafted_bind, drafted_modify]
      refine Follows.bind (hw fragment _ _ hl.start) fun mock parts between middle hl' hm => ?_
      rw [outcome_bind, outcome_note, drafted_bind, drafted_modify]
      exact ⟨List.prefix_refl _, hl'.finish hm, hm⟩
    case some.started.some.none =>
      simp only [hprogress, hplan]
      exact ⟨rfl, hl⟩
    case some.finished.some.some =>
      simp only [hprogress, hplan]
      exact .result hl htable
    all_goals exact htable.elim

/-- Fragments follow their plans, however deep they may be inside each other. -/
theorem follows_spreadAt (context : Context) (calls : Calls) (depth : Nat) :
    ∀ name state draft, Linked context calls state draft →
      FollowsAll context calls [] draft (outcome (spreadAt context depth name) state)
        (drafted (planAt context.schema context.fragments depth name) draft) := by
  induction depth with
  | zero => exact follows_spreadWith fun fragment state draft hl => ⟨rfl, hl⟩
  | succ depth ih =>
    exact follows_spreadWith fun fragment state draft hl =>
      follows_selectionsInto ih fragment.typeCondition [] state draft hl fragment.selections

/-- **No resolver has a say in the plan of a walk.** The walk asks the fields that its plan notes,
and fails as the plan does. If it succeeds, its mock is the plan with the answers filled in. -/
theorem perform_eq_plan (context : Context) (cursor : Name) (set : List Selection) (calls : Calls) :
    perform context cursor set calls =
      ((plan context.schema context.fragments cursor set).1.map
          (filled context.schema
            (answersTo context (plan context.schema context.fragments cursor set).2 calls).1),
        (answersTo context (plan context.schema context.fragments cursor set).2 calls).2) := by
  have hl : Linked context calls ⟨[], calls⟩ ⟨[], []⟩ := ⟨rfl, fun name => trivial⟩
  have h := follows_selectionsInto (follows_spreadAt context calls context.fragments.length)
    cursor [] ⟨[], calls⟩ ⟨[], []⟩ hl set
  have hperform : perform context cursor set calls =
      ((outcome (selections context cursor set) ⟨[], calls⟩).1,
        (outcome (selections context cursor set) ⟨[], calls⟩).2.calls) := rfl
  rw [hperform]
  unfold selections plan
  rcases hw : outcome (selectionsInto context (spreadAt context context.fragments.length) cursor []
      set) ⟨[], calls⟩ with ⟨error | mock, after⟩ <;>
    rcases hp : drafted (planAll context.schema
      (planAt context.schema context.fragments context.fragments.length) cursor set) ⟨[], []⟩
      with ⟨error' | parts, draft⟩ <;> rw [hw, hp] at h
  · obtain ⟨rfl, hl'⟩ := h
    exact Prod.ext rfl hl'.calls_eq
  · exact h.elim
  · exact h.elim
  · obtain ⟨-, hl', hmock⟩ := h
    refine Prod.ext ?_ hl'.calls_eq
    refine congrArg Except.ok (hmock _ fun k value hk => ?_).symm
    rw [hk]
    rfl

end MockGraph.Walk
