import MockGraph.Proofs.Stages
import MockGraph.Proofs.Walk.Calls
import MockGraph.Proofs.Walk.Expansion
import MockGraph.Proofs.Walk.Renaming
import Mathlib.Data.List.Find
import Mathlib.Data.List.Nodup

/-!
# `Proofs/Walk/Arrangement`: the order and the names of definitions

A document is rearranged if its definitions are put in another order, its fragments get other
names, and definitions are added. `generate_arrangement` says that the mock stays what it is, and so
does an error, up to the names in it, as long as the same operation is found and its walk does not
come to the fragments that were added.

Checks of documents are switched off here. With them an added definition may be refused.

Nothing is assumed about resolvers: they are called in the same order before and after.
-/

set_option autoImplicit false

namespace MockGraph

open Syntax Walk

/-! ## 1. Documents under other names -/

def Syntax.Operation.renamed (rename : Name → Name) (operation : Operation) : Operation :=
  { operation with selections := Selection.renamedIn rename operation.selections }

def Syntax.Definition.renamed (rename : Name → Name) : Definition → Definition
  | .operation o => .operation (o.renamed rename)
  | .fragment f => .fragment (f.renamed rename)
  | definition => definition

/-- A document with its fragments and all spreads under other names. -/
def Syntax.Document.renamed (rename : Name → Name) (document : Document) : Document :=
  document.map (·.renamed rename)

/-- The names of the fragments that a document has, and of those that it spreads. -/
def Syntax.Document.fragmentNames (document : Document) : List Name :=
  document.fragments.map (·.name) ++
    (document.operations.flatMap (Selection.spreadsIn ·.selections) ++
      document.fragments.flatMap (Selection.spreadsIn ·.selections))

def Diagnostic.renamed (rename : Name → Name) : Diagnostic → Diagnostic
  | .unknownFragment name => .unknownFragment (rename name)
  | .cyclicFragment name => .cyclicFragment (rename name)
  | diagnostic => diagnostic

/-- A failure with the fragments in its causes under other names. -/
def Failure.renamed (rename : Name → Name) : Failure → Failure
  | .invalidDocument causes => .invalidDocument (causes.map (Diagnostic.renamed rename))
  | failure => failure

/-- A document that is `document` in another order, under other names, and with more definitions. -/
structure Rearranges (rename : Name → Name) (added document document' : Document) : Prop where
  perm : document'.Perm (document.renamed rename ++ added)
  /-- Different names stay different. -/
  injective : ∀ name ∈ document.fragmentNames, ∀ other ∈ document.fragmentNames,
    rename name = rename other → name = other
  /-- No two fragments have one name. -/
  distinct : (document.fragments.map (·.name)).Nodup

section Documents

variable {rename : Name → Name} {document document' added : Document}

theorem fragments_renamed (rename : Name → Name) (document : Document) :
    (document.renamed rename).fragments = document.fragments.map (·.renamed rename) := by
  unfold Document.fragments Document.renamed
  rw [List.filterMap_map, List.map_filterMap]
  exact List.filterMap_congr fun definition _ => by cases definition <;> rfl

theorem operations_renamed (rename : Name → Name) (document : Document) :
    (document.renamed rename).operations = document.operations.map (·.renamed rename) := by
  unfold Document.operations Document.renamed
  rw [List.filterMap_map, List.map_filterMap]
  exact List.filterMap_congr fun definition _ => by cases definition <;> rfl

theorem fragments_append (document added : Document) :
    Document.fragments (document ++ added) = document.fragments ++ added.fragments :=
  List.filterMap_append

theorem operations_append (document added : Document) :
    Document.operations (document ++ added) = document.operations ++ added.operations :=
  List.filterMap_append

theorem Rearranges.fragments_perm (h : Rearranges rename added document document') :
    document'.fragments.Perm (document.fragments.map (·.renamed rename) ++ added.fragments) := by
  have hperm : document'.fragments.Perm (Document.fragments (document.renamed rename ++ added)) :=
    h.perm.filterMap _
  rwa [fragments_append, fragments_renamed] at hperm

theorem mem_fragmentNames_of_mem_fragments {fragment : Fragment}
    (h : fragment ∈ document.fragments) : fragment.name ∈ document.fragmentNames :=
  List.mem_append_left _ (List.mem_map_of_mem h)

/-- A fragment whose other name is not that of an added one is found under it. -/
theorem Rearranges.find? (h : Rearranges rename added document document') {name : Name}
    (hn : name ∈ document.fragmentNames)
    (hadded : ∀ fragment ∈ added.fragments, fragment.name ≠ rename name) :
    document'.fragments.find? (·.name = rename name) =
      (document.fragments.find? (·.name = name)).map (·.renamed rename) := by
  have hsame : ∀ fragment ∈ document.fragments, rename fragment.name = rename name →
      fragment.name = name := fun fragment hf =>
    h.injective _ (mem_fragmentNames_of_mem_fragments hf) _ hn
  have hnone : added.fragments.find? (·.name = rename name) = none :=
    List.find?_eq_none.mpr fun fragment hf => by simpa using hadded fragment hf
  have hmoved : document'.fragments.find? (·.name = rename name) =
      (document.fragments.map (·.renamed rename) ++ added.fragments).find?
        (·.name = rename name) := by
    refine (List.find?_eq_find?_of_perm h.fragments_perm.symm ?_).symm
    rintro a ⟨ha, hpa⟩ b ⟨hb, hpb⟩
    simp only [decide_eq_true_eq] at hpa hpb
    rcases List.mem_append.mp ha with ha | ha
    · rcases List.mem_append.mp hb with hb | hb
      · obtain ⟨f, hf, rfl⟩ := List.mem_map.mp ha
        obtain ⟨g, hg, rfl⟩ := List.mem_map.mp hb
        have hfg : f.name = g.name := (hsame f hf hpa).trans (hsame g hg hpb).symm
        rw [List.inj_on_of_nodup_map h.distinct hf hg hfg]
      · exact absurd hpb (hadded b hb)
    · exact absurd hpa (hadded a ha)
  rw [hmoved, List.find?_append, hnone, Option.or_none, List.find?_map]
  congr 1
  refine List.find?_congr fun fragment hf => decide_eq_decide.mpr ⟨hsame fragment hf, ?_⟩
  exact fun heq => congrArg rename heq

end Documents

/-! ## 2. The same walk -/

section Walks

variable {rename : Name → Name} {document document' added : Document} {schema : TypeSystem}
  {registry : Registry} {operation : Operation} {root : Name}

/-- The context in which an operation of a document is walked. -/
abbrev contextOf (schema : TypeSystem) (registry : Registry) (document : Document) : Context :=
  ⟨schema, registry, document.fragments⟩

/-- A walk comes to no other names than those that are written. -/
theorem mem_fragmentNames_of_reachable (ho : operation ∈ document.operations) {name : Name}
    (h : Reachable (contextOf schema registry document)
      (spreadsIn schema root operation.selections) name) : name ∈ document.fragmentNames := by
  refine List.mem_append_right _ ?_
  induction h with
  | direct hn =>
    exact List.mem_append_left _ (List.mem_flatMap.mpr ⟨operation, ho, spreads_visitsIn _ hn⟩)
  | through _ hs _ =>
    obtain ⟨fragment, hf, hn⟩ := hs
    have hmem : fragment ∈ document.fragments := List.mem_of_find?_eq_some hf
    exact List.mem_append_right _ (List.mem_flatMap.mpr ⟨fragment, hmem, spreads_visitsIn _ hn⟩)

/-- No walk of the operation comes to an added fragment. -/
def Untouched (schema : TypeSystem) (registry : Registry) (document' added : Document) (root : Name)
    (set : List Selection) : Prop :=
  ∀ fragment ∈ added.fragments,
    ¬ Reachable (contextOf schema registry document') (spreadsIn schema root set) fragment.name

/-- Where the walk came before, it comes under the other name. -/
theorem Rearranges.reachable (h : Rearranges rename added document document')
    (ho : operation ∈ document.operations)
    (hadded : Untouched schema registry document' added root
      (Selection.renamedIn rename operation.selections)) {name : Name}
    (hr : Reachable (contextOf schema registry document)
      (spreadsIn schema root operation.selections) name) :
    Reachable (contextOf schema registry document')
      (spreadsIn schema root (Selection.renamedIn rename operation.selections)) (rename name) := by
  induction hr with
  | direct hn =>
    refine .direct ?_
    rw [spreadsIn_renamedIn]
    exact List.mem_map_of_mem hn
  | @through name _ hr hs ih =>
    refine .through ih ?_
    obtain ⟨fragment, hf, hn⟩ := hs
    refine ⟨fragment.renamed rename, ?_, ?_⟩
    · have hf : document.fragments.find? (·.name = name) = some fragment := hf
      have hfind := h.find? (mem_fragmentNames_of_reachable ho hr) fun other hother heq =>
        hadded other hother (heq ▸ ih)
      rw [hf] at hfind
      exact hfind
    · show rename _ ∈ spreadsIn schema fragment.typeCondition
        (Selection.renamedIn rename fragment.selections)
      rw [spreadsIn_renamedIn]
      exact List.mem_map_of_mem hn

/-- So the contexts of both documents mirror each other where the walk comes. -/
theorem Rearranges.mirrors (h : Rearranges rename added document document')
    (ho : operation ∈ document.operations)
    (hadded : Untouched schema registry document' added root
      (Selection.renamedIn rename operation.selections)) :
    Walk.Mirrors rename (contextOf schema registry document) (contextOf schema registry document')
      (Reachable (contextOf schema registry document)
        (spreadsIn schema root operation.selections)) where
  schema := rfl
  registry := rfl
  injective name other hn hother := h.injective name (mem_fragmentNames_of_reachable ho hn) other
    (mem_fragmentNames_of_reachable ho hother)
  fragments _ hn := h.find? (mem_fragmentNames_of_reachable ho hn) fun fragment hf heq =>
    hadded fragment hf (heq ▸ h.reachable ho hadded hn)
  closed _ _ hn hs := .through hn hs

theorem failure_renamed (error : WalkError) :
    (error.renamed rename).failure = error.failure.renamed rename := by
  cases error <;> rfl

/-- The operation is walked with the same result, up to the names in an error. -/
theorem walkOperation_renamed {reached : Name → Prop}
    (h : Walk.Mirrors rename (contextOf schema registry document)
      (contextOf schema registry document') reached)
    (hreach : ∀ name ∈ spreadsIn schema root operation.selections, reached name) (calls : Calls) :
    walkOperation document' (operation.renamed rename) registry schema root calls =
      ((walkOperation document operation registry schema root calls).1.mapError
        (Failure.renamed rename),
        (walkOperation document operation registry schema root calls).2) := by
  have hperform := perform_renamed h hreach calls
  have hselections : (operation.renamed rename).selections =
      Selection.renamedIn rename operation.selections := rfl
  simp only [walkOperation, hselections]
  rw [hperform]
  cases (perform (contextOf schema registry document) root operation.selections calls).1 with
  | ok mock => rfl
  | error error => exact Prod.ext (congrArg Except.error (failure_renamed error)) rfl

end Walks

/-! ## 3. The same request -/

/-- The operation that is found is one of the document. -/
theorem mem_operations_of_findOperation {document : Document} {name? : Option String}
    {operation : Operation} (h : findOperation document name? = .ok operation) :
    operation ∈ document.operations := by
  unfold findOperation at h
  split at h
  · cases h
  · next hfirst =>
    cases h
    rw [hfirst]
    exact List.mem_cons_self
  · split at h
    · next hfound =>
      cases h
      exact List.mem_of_find?_eq_some hfound
    · cases h

namespace MockRequest

variable {rename : Name → Name} {request : MockRequest} {document' added : Document}
  {failure : Failure} {operation : Operation} {schema : TypeSystem} {root : Name}

/-- A request that starts has found its operation. -/
theorem finds_of_start (h : request.start = .ok (operation, schema, root)) :
    request.Finds operation := by
  unfold start at h
  cases hf : findOperation request.document request.operation with
  | error cause =>
    rw [hf] at h
    cases h
  | ok found =>
    rw [hf] at h
    cases ha : request.acquired with
    | error cause =>
      rw [ha] at h
      cases h
    | ok source =>
      rw [ha] at h
      cases hp : prepare request.document found source request.rules with
      | error cause => simp [hp, bind, Except.bind] at h
      | ok prepared =>
        simp only [mapError_ok, hp, bind, Except.bind, pure, Except.pure] at h
        cases h
        exact hf

/-- Before the walk no failure is about fragments, unless documents are checked. -/
theorem renamed_of_start_error (hr : .document ∉ request.rules)
    (h : request.start = .error failure) : failure.renamed rename = failure := by
  rcases request.succeeds_or_fails .empty [] with
    ⟨json, after, operation, schema, root, hc, hroot, -⟩ | ⟨stage, found, hfails⟩
  · rw [hc.start, TypeSystem.root, hroot] at h
    cases h
  · have hfound := hfails.generate
    rw [generate_of_start_error h] at hfound
    cases hfound
    cases hfails with
    | invalidDocument _ hrule _ => exact absurd hrule hr
    | walkFails hc hroot _ =>
      rw [hc.start, TypeSystem.root, hroot] at h
      cases h
    | _ => rfl

/-- A request with another document starts with the operation that is found there. -/
theorem start_renamed (hr : .document ∉ request.rules)
    (hfind : findOperation document' request.operation =
      (findOperation request.document request.operation).map (Operation.renamed rename)) :
    MockRequest.start { request with document := document' } =
      request.start.map fun (operation, schema, root) =>
        (operation.renamed rename, schema, root) := by
  have hprepare : ∀ operation : Operation, ∀ source,
      prepare document' (operation.renamed rename) source request.rules =
        prepare request.document operation source request.rules := by
    intro operation source
    have hcheck : ∀ schema document, checkDocument request.rules schema document = .ok () :=
      fun schema document => checkDocument_of_valid fun h => absurd h hr
    simp only [prepare, hcheck]
    rfl
  unfold start
  simp only [hfind]
  cases findOperation request.document request.operation with
  | error cause => rfl
  | ok operation =>
    cases request.acquired with
    | error cause => rfl
    | ok source =>
      have hsame := hprepare operation source
      simp only [bind, Except.bind, Except.map, mapError_ok, hsame]
      cases prepare request.document operation source request.rules with
      | error cause => rfl
      | ok prepared => rfl

/-- A request with another document has the same result, up to names in an error, if the walks of
both mirror each other. -/
theorem generate_renamed (registry : Registry) (calls : Calls) (hr : .document ∉ request.rules)
    (hfind : findOperation document' request.operation =
      (findOperation request.document request.operation).map (Operation.renamed rename))
    (hm : ∀ operation schema root, request.start = .ok (operation, schema, root) → ∃ reached,
      Walk.Mirrors rename (contextOf schema registry request.document)
        (contextOf schema registry document') reached ∧
      ∀ name ∈ spreadsIn schema root operation.selections, reached name) :
    MockRequest.generate { request with document := document' } registry calls =
      ((request.generate registry calls).1.mapError (Failure.renamed rename),
        (request.generate registry calls).2) := by
  rw [generate_eq, generate_eq, start_renamed hr hfind]
  cases hs : request.start with
  | error failure =>
    exact Prod.ext (congrArg Except.error (renamed_of_start_error hr hs).symm) rfl
  | ok started =>
    obtain ⟨operation, schema, root⟩ := started
    obtain ⟨reached, hmirrors, hreach⟩ := hm operation schema root hs
    exact walkOperation_renamed hmirrors hreach calls

end MockRequest

/-! ## 4. Selected operations -/

/-- The operation that is selected in a document is selected in another one as well. -/
def StaysSelected (rename : Name → Name) (name? : Option String) (document document' : Document) :
    Prop :=
  findOperation document' name? = (findOperation document name?).map (Operation.renamed rename)

section Selected

variable {rename : Name → Name} {document document' added : Document} {operation : Operation}

/-- The only operation of a name is selected by it, wherever it stands. -/
theorem findOperation_of_unique {name : String} (ho : operation ∈ document.operations)
    (hname : operation.name = some name)
    (hunique : ∀ other ∈ document.operations, other.name = some name → other = operation) :
    findOperation document (some name) = .ok operation := by
  have hfind : document.operations.find? (·.name = some name) = some operation := by
    cases hf : document.operations.find? (·.name = some name) with
    | none => exact absurd hname (by simpa using List.find?_eq_none.mp hf operation ho)
    | some found =>
      rw [hunique found (List.mem_of_find?_eq_some hf) (by simpa using List.find?_some hf)]
  cases hs : document.operations with
  | nil => simp [hs] at ho
  | cons first rest =>
    rw [hs] at hfind
    simp only [findOperation, hs, hfind]

theorem Rearranges.staysSelected_of_unique (h : Rearranges rename added document document')
    {name : String} (ho : operation ∈ document.operations) (hname : operation.name = some name)
    (hunique : ∀ other ∈ document.operations, other.name = some name → other = operation)
    (hadded : ∀ other ∈ added.operations, other.name ≠ some name) :
    StaysSelected rename (some name) document document' := by
  have hmem : ∀ other, other ∈ document'.operations ↔
      other ∈ document.operations.map (·.renamed rename) ++ added.operations := by
    have hperm : document'.operations.Perm
        (Document.operations (document.renamed rename ++ added)) :=
      h.perm.filterMap _
    rw [operations_append, operations_renamed] at hperm
    exact fun other => hperm.mem_iff
  have hselected : findOperation document' (some name) = .ok (operation.renamed rename) := by
    refine findOperation_of_unique ((hmem _).mpr ?_) hname fun other hother hsame => ?_
    · exact List.mem_append_left _ (List.mem_map_of_mem ho)
    · rcases List.mem_append.mp ((hmem other).mp hother) with hother | hother
      · obtain ⟨found, hfound, rfl⟩ := List.mem_map.mp hother
        rw [hunique found hfound hsame]
      · exact absurd hsame (hadded other hother)
  rw [StaysSelected, hselected, findOperation_of_unique ho hname hunique]
  rfl

/-- The first operation is selected if none is named. -/
theorem staysSelected_of_first {rest rest' : List Operation}
    (h : document.operations = operation :: rest)
    (h' : document'.operations = operation.renamed rename :: rest') :
    StaysSelected rename none document document' := by
  simp only [StaysSelected, findOperation, h, h']
  rfl

end Selected

/-! ## 5. Fragments of one name -/

section Repeated

variable {before after : Document} {fragment : Fragment}

theorem fragments_cons (before after : Document) (fragment : Fragment) :
    Document.fragments (before ++ .fragment fragment :: after) =
      before.fragments ++ fragment :: after.fragments :=
  fragments_append before (.fragment fragment :: after)

/-- The first fragment of a name is the one that is found. -/
theorem find?_of_first (after : Document)
    (hfirst : ∀ earlier ∈ before.fragments, earlier.name ≠ fragment.name) :
    (Document.fragments (before ++ .fragment fragment :: after)).find? (·.name = fragment.name) =
      some fragment := by
  have hnone : before.fragments.find? (·.name = fragment.name) = none :=
    List.find?_eq_none.mpr fun earlier he => by simpa using hfirst earlier he
  rw [fragments_cons, List.find?_append, hnone, Option.none_or, List.find?_cons_of_pos (by simp)]

/-- A later one is never found. -/
theorem find?_without_later (after : Document)
    (hlater : ∃ earlier ∈ before.fragments, earlier.name = fragment.name) (name : Name) :
    (Document.fragments (before ++ after)).find? (·.name = name) =
      (Document.fragments (before ++ .fragment fragment :: after)).find? (·.name = name) := by
  rw [fragments_cons, fragments_append, List.find?_append, List.find?_append]
  by_cases hname : fragment.name = name
  · obtain ⟨earlier, he, hsame⟩ := hlater
    have hsome : (before.fragments.find? (·.name = name)).isSome :=
      List.find?_isSome.mpr ⟨earlier, he, by simpa using hsame.trans hname⟩
    obtain ⟨found, hfound⟩ := Option.isSome_iff_exists.mp hsome
    rw [hfound, Option.some_or, Option.some_or]
  · rw [List.find?_cons_of_neg (by simpa using hname)]

theorem Failure.renamed_id (failure : Failure) : failure.renamed id = failure := by
  have hsame : Diagnostic.renamed id = id := funext fun diagnostic => by cases diagnostic <;> rfl
  cases failure with
  | invalidDocument causes => rw [Failure.renamed, hsame, List.map_id]
  | _ => rfl

/-- Without a later fragment of some name the result is the same. -/
theorem MockRequest.generate_without_later {request : MockRequest} (registry : Registry)
    (calls : Calls) (hr : .document ∉ request.rules)
    (hd : request.document = before ++ .fragment fragment :: after)
    (hlater : ∃ earlier ∈ before.fragments, earlier.name = fragment.name) :
    MockRequest.generate { request with document := before ++ after } registry calls =
      request.generate registry calls := by
  have hoperations : Document.operations (before ++ after) = request.document.operations := by
    rw [hd, operations_append, operations_append]
    rfl
  have hrenamed : Operation.renamed id = id :=
    funext fun operation => by rw [Operation.renamed, renamedIn_id]; rfl
  have hfind : findOperation (before ++ after) request.operation =
      (findOperation request.document request.operation).map (Operation.renamed id) := by
    rw [hrenamed, Except.map_id]
    simp only [findOperation, hoperations]
    rfl
  have hmirrors : ∀ schema, Walk.Mirrors id (contextOf schema registry request.document)
      (contextOf schema registry (before ++ after)) fun _ => True := by
    intro schema
    refine ⟨rfl, rfl, fun _ _ _ _ h => h, fun name _ => ?_, fun _ _ _ _ => trivial⟩
    have hsame := find?_without_later after hlater name
    rw [← hd] at hsame
    have hid : Fragment.renamed id = id := funext Fragment.renamed_id
    rw [hid, Option.map_id]
    exact hsame
  have hresult := generate_renamed registry calls hr hfind fun operation schema root _ =>
    ⟨fun _ => True, hmirrors schema, fun _ _ => trivial⟩
  have hid : Failure.renamed id = id := funext Failure.renamed_id
  rw [hresult, hid]
  rcases request.generate registry calls with ⟨_ | _, _⟩ <;> rfl

end Repeated

/-- **Neither the order nor the names of definitions matter.** With a document in another order,
with other names of fragments, and with definitions that are not selected and that no walk comes to,
the result is the same, up to the names in an error. So it is without the later ones of several
fragments with one name: with constant resolvers, the mock is that of an expansion in which every
spread stands for the first one. -/
theorem generate_arrangement (request : MockRequest) (registry : Registry) (calls : Calls)
    (hr : .document ∉ request.rules) :
    (∀ rename added document', Rearranges rename added request.document document' →
      StaysSelected rename request.operation request.document document' →
      (∀ operation schema root, request.start = .ok (operation, schema, root) →
        Untouched schema registry document' added root
          (Selection.renamedIn rename operation.selections)) →
      MockRequest.generate { request with document := document' } registry calls =
        ((request.generate registry calls).1.mapError (Failure.renamed rename),
          (request.generate registry calls).2)) ∧
    (∀ (before after : Document) (fragment : Fragment),
      request.document = before ++ .fragment fragment :: after →
      (∃ earlier ∈ before.fragments, earlier.name = fragment.name) →
      MockRequest.generate { request with document := before ++ after } registry calls =
        request.generate registry calls) ∧
    (registry.IsConstant → ∀ operation schema root,
      request.start = .ok (operation, schema, root) →
      let context := contextOf schema registry request.document
      (request.generate registry calls).1 =
        ((expandAll context (expandFragment context []) root [] operation.selections).map
          Json.object).mapError WalkError.failure ∧
      ∀ (before after : Document) (fragment : Fragment),
        request.document = before ++ .fragment fragment :: after →
        (∀ earlier ∈ before.fragments, earlier.name ≠ fragment.name) →
        ∀ stack, fragment.name ∉ stack →
          expandFragment context stack fragment.name =
            expandAll context (expandFragment context (fragment.name :: stack))
              fragment.typeCondition [] fragment.selections) := by
  refine ⟨?_, ?_, ?_⟩
  · intro rename added document' hmoved hselected hadded
    refine MockRequest.generate_renamed registry calls hr hselected ?_
    intro operation schema root hs
    have ho := mem_operations_of_findOperation (MockRequest.finds_of_start hs)
    exact ⟨_, hmoved.mirrors ho (hadded operation schema root hs), fun name hn => .direct hn⟩
  · intro before after fragment hd hlater
    exact MockRequest.generate_without_later registry calls hr hd hlater
  · intro hc operation schema root hs context
    constructor
    · exact MockRequest.generate_eq_expandAll hc calls hs
    · intro before after fragment hd hfirst stack hn
      refine expandFragment_not_mem ?_ hn
      have hfind := find?_of_first after hfirst
      rw [← hd] at hfind
      exact hfind

namespace Walk.Sample

/-- Two fragments take each other's names. -/
def exchanged : Name → Name
  | "member" => "teamOf"
  | "teamOf" => "member"
  | name => name

/-- A fragment that nothing spreads, although it spreads others. -/
def lonely : Fragment := ⟨"lonely", "User", [], [spread "member", spread "nowhere"]⟩

/-- A fragment whose name is taken. -/
def laterMember : Fragment := ⟨"member", "User", [], []⟩

/-- Another operation. -/
def names : Operation := ⟨.query, some "Names", [], [], [field "me" [field "name" []]]⟩

def namedRoster : Operation := { roster with name := some "Roster" }

def namedDocument : Document := [.operation namedRoster, .fragment member, .fragment teamOf]

/-- The other way round, with more definitions. -/
def reversed (document added : Document) : Document := (document.renamed exchanged ++ added).reverse

theorem untouched_lonely : Untouched staff counters (reversed rosterDocument [.fragment lonely])
    [.fragment lonely] "Query" (Selection.renamedIn exchanged roster.selections) := by
  intro fragment hf hreach
  obtain rfl : fragment = lonely := by simpa [Document.fragments] using hf
  have hclosed := hreach.mem_of_closed ["member", "teamOf"] (by decide) ?_
  · exact absurd hclosed (by decide)
  · rintro name inner hname ⟨found, hfound, hinner⟩
    simp only [List.mem_cons, List.not_mem_nil, or_false] at hname
    rcases hname with rfl | rfl
    · cases hfound
      revert inner
      decide
    · cases hfound
      revert inner
      decide

theorem rearranges_reversed {document added : Document}
    (hinjective : ∀ name ∈ document.fragmentNames, ∀ other ∈ document.fragmentNames,
      exchanged name = exchanged other → name = other)
    (hdistinct : (document.fragments.map (·.name)).Nodup) :
    Rearranges exchanged added document (reversed document added) :=
  ⟨List.reverse_perm _, hinjective, hdistinct⟩

/-- The second mock of the roster, with the document the other way round: once with the first
operation selected, once with an operation that is selected by name. A second fragment with a name
that is taken changes nothing. -/
theorem generate_arrangement_roster :
    MockRequest.generate ⟨reversed rosterDocument [.fragment lonely], .ok (.built staff), [], none⟩
      counters [2, 2, 1] = (.ok secondRoster, [2, 2, 1, 2, 2, 1]) ∧
    MockRequest.generate ⟨reversed namedDocument [.fragment lonely, .operation names],
      .ok (.built staff), [], some "Roster"⟩ counters [2, 2, 1] =
        (.ok secondRoster, [2, 2, 1, 2, 2, 1]) ∧
    rosterRequest.generate counters [2, 2, 1] =
      MockRequest.generate ⟨rosterDocument ++ [.fragment laterMember], .ok (.built staff), [], none⟩
        counters [2, 2, 1] := by
  refine ⟨?_, ?_, ?_⟩
  · have hmoved := (generate_arrangement rosterRequest counters [2, 2, 1] (by decide)).1 exchanged
      [.fragment lonely] _ (rearranges_reversed (by decide) (by decide))
      (staysSelected_of_first rfl rfl)
    refine (hmoved ?_).trans rfl
    intro operation schema root hs
    cases hs
    exact untouched_lonely
  · have hmoves : Rearranges exchanged [.fragment lonely, .operation names] namedDocument _ :=
      rearranges_reversed (by decide) (by decide)
    have hselected : StaysSelected exchanged (some "Roster") namedDocument
        (reversed namedDocument [.fragment lonely, .operation names]) := by
      have ho : namedRoster ∈ namedDocument.operations := List.mem_cons_self
      refine hmoves.staysSelected_of_unique ho rfl ?_ ?_
      · intro other hother _
        simpa [namedDocument, Document.operations] using hother
      · intro other hother
        obtain rfl : other = names := by simpa [Document.operations] using hother
        decide
    have hmoved := (generate_arrangement ⟨namedDocument, .ok (.built staff), [], some "Roster"⟩
      counters [2, 2, 1] (by decide)).1 exchanged _ _ hmoves hselected
    refine (hmoved ?_).trans rfl
    intro operation schema root hs
    cases hs
    exact untouched_lonely
  · exact (generate_arrangement ⟨rosterDocument ++ [.fragment laterMember], .ok (.built staff), [],
      none⟩ counters [2, 2, 1] (by decide)).2.1 rosterDocument [] laterMember rfl
      ⟨member, by simp [rosterDocument, Document.fragments], rfl⟩

end Walk.Sample

end MockGraph
