import MockGraph.CommandLine.Run
import MockGraph.Proofs.Json.Assignment
import MockGraph.Proofs.Json.PathText
import Mathlib.Data.List.Forall2

/-!
# `Proofs/CommandLine/Assignments`: what `--set` means

The text of an assignment is divided by its first equals sign. A path whose keys are free of them
is read back from its text with any JSON behind it, and what is not JSON there, or the lack of an
equals sign, is all that can go wrong (`Assignment.parse_eq_error_iff`).

`Assigning` puts assignments between the other arguments, attached to their option or in the
argument after it. They change nothing about how the others are read (`Assigning.readFrom`), and
every line that is accepted is made in this way (`separates_of_readFrom`). The assignments are
applied to the mock of the line without them, in their order; each is applied to what those before
it have left, dropped ones included.

How a JSON text is read is not said here: only that it is the text of a value.
-/

set_option autoImplicit false

namespace MockGraph

/-! ## 1. The text of an assignment -/

section Texts

variable {separator : Char} {cs before after : List Char}

theorem Text.splitFirst?_append (hbefore : separator ∉ before) (after : List Char) :
    Text.splitFirst? separator (before ++ separator :: after) = some (before, after) := by
  induction before with
  | nil => rw [List.nil_append, Text.splitFirst?, if_pos rfl]
  | cons c before ih =>
    rw [List.mem_cons, not_or] at hbefore
    obtain ⟨hc, hbefore⟩ := hbefore
    rw [List.cons_append, Text.splitFirst?, if_neg (Ne.symm hc), ih hbefore, Option.map_some]

theorem Text.splitFirst?_eq_some (h : Text.splitFirst? separator cs = some (before, after)) :
    cs = before ++ separator :: after ∧ separator ∉ before := by
  induction cs generalizing before with
  | nil => cases h
  | cons c cs ih =>
    rw [Text.splitFirst?] at h
    split at h
    · next hc =>
      cases h
      exact ⟨by rw [hc, List.nil_append], List.not_mem_nil⟩
    · next hc =>
      obtain ⟨⟨front, rest⟩, hsplit, heq⟩ := Option.map_eq_some_iff.mp h
      cases heq
      obtain ⟨rfl, hfront⟩ := ih hsplit
      refine ⟨rfl, ?_⟩
      rw [List.mem_cons, not_or]
      exact ⟨Ne.symm hc, hfront⟩

theorem Text.splitFirst?_eq_none_iff : Text.splitFirst? separator cs = none ↔ separator ∉ cs := by
  induction cs with
  | nil => simp [Text.splitFirst?]
  | cons c cs ih =>
    rw [Text.splitFirst?, List.mem_cons, not_or]
    split
    · next hc => simp [hc]
    · next hc => rw [Option.map_eq_none_iff, ih, and_iff_right (Ne.symm hc)]

/-- The text of a path has an equals sign only where a key has one. -/
theorem not_mem_render {path : Path} (hkeys : ∀ name, .key name ∈ path → '=' ∉ name.toList) :
    '=' ∉ path.render.toList := by
  rw [toList_render, List.mem_flatMap]
  rintro ⟨_, hspelling, hmem⟩
  obtain ⟨step, hstep, rfl⟩ := List.mem_map.mp hspelling
  rcases List.mem_cons.mp hmem with hslash | hmem
  · cases hslash
  · cases step with
    | key name => exact hkeys name hstep hmem
    | index i => exact absurd (isDigit_of_mem_spelling hmem) (by decide)

theorem Assignment.parse_of_split {text json : String} {path : List Char}
    (h : Text.splitFirst? '=' text.toList = some (path, json.toList)) {value : Json}
    (hjson : Json.parse? json = some value) :
    Assignment.parse text = .ok (Path.parse (String.ofList path), value) := by
  simp only [Assignment.parse, h, String.ofList_toList, hjson]

/-- A path and a value are read back from their texts. -/
theorem Assignment.parse_render {path : Path} (hpath : path.IsReadable)
    (hkeys : ∀ name, .key name ∈ path → '=' ∉ name.toList) {json : String} {value : Json}
    (hjson : Json.parse? json = some value) :
    Assignment.parse (path.render ++ "=" ++ json) = .ok (path, value) := by
  have hsplit : Text.splitFirst? '=' (path.render ++ "=" ++ json).toList =
      some (path.render.toList, json.toList) := by
    rw [String.toList_append, String.toList_append, List.append_assoc]
    exact Text.splitFirst?_append (not_mem_render hkeys) json.toList
  rw [parse_of_split hsplit hjson, String.ofList_toList, parse_render_of_readable hpath]

/-- What can be wrong with the text of an assignment. -/
theorem Assignment.parse_eq_error_iff {text : String} :
    (∃ error, Assignment.parse text = .error error) ↔
      '=' ∉ text.toList ∨ ∃ before after, text.toList = before ++ '=' :: after ∧ '=' ∉ before ∧
        Json.parse? (String.ofList after) = none := by
  rw [Assignment.parse]
  cases hsplit : Text.splitFirst? '=' text.toList with
  | none => simp [Text.splitFirst?_eq_none_iff.mp hsplit]
  | some split =>
    obtain ⟨path, json⟩ := split
    obtain ⟨htext, hpath⟩ := Text.splitFirst?_eq_some hsplit
    have hmem : '=' ∈ text.toList := htext ▸ List.mem_append_right _ List.mem_cons_self
    have hunique : (∃ before after, text.toList = before ++ '=' :: after ∧ '=' ∉ before ∧
        Json.parse? (String.ofList after) = none) ↔ Json.parse? (String.ofList json) = none := by
      constructor
      · rintro ⟨before, after, heq, hbefore, hnone⟩
        have hagain := Text.splitFirst?_append hbefore after
        rw [← heq, hsplit] at hagain
        cases hagain
        exact hnone
      · exact fun hnone => ⟨path, json, htext, hpath, hnone⟩
    simp only [hunique, hmem, not_true_eq_false, false_or]
    cases Json.parse? (String.ofList json) with
    | none => simp
    | some value => simp

end Texts

/-! ## 2. Arguments and assignments -/

namespace Arguments

/-- The arguments with these assignments instead of theirs. -/
def assigning (arguments : Arguments) (assignments : List Assignment) : Arguments :=
  { arguments with assignments := assignments }

/-- The option that an argument leaves without its value. -/
def pending? (argument : String) : Option ValueOption :=
  match blank.putNext argument with
  | .ok (.waiting option) => some option
  | _ => none

/-- A command line comes of another one by putting assignments into it, whose texts are these. No
other assignments are in it. -/
inductive Assigning : List String → List String → List String → Prop where
  | nil : Assigning [] [] []
  /-- After the mark all arguments are positional. -/
  | marked (positional : List String) : Assigning ("--" :: positional) [] ("--" :: positional)
  | attached {line texts full : List String} (text : String) (h : Assigning line texts full) :
      Assigning line (text :: texts) (("--set=" ++ text) :: full)
  | following {line texts full : List String} {text : String}
      (hvalue : looksLikeOption text = false) (h : Assigning line texts full) :
      Assigning line (text :: texts) ("--set" :: text :: full)
  | single {line texts full : List String} {argument : String} (hmark : argument ≠ "--")
      (hpending : pending? argument = none) (hset : ∀ text, argument ≠ "--set=" ++ text)
      (h : Assigning line texts full) : Assigning (argument :: line) texts (argument :: full)
  | option {line texts full : List String} {argument value : String} {option : ValueOption}
      (hpending : pending? argument = some option) (hset : option ≠ .assignment)
      (h : Assigning line texts full) :
      Assigning (argument :: value :: line) texts (argument :: value :: full)

section Reading

variable {arguments read : Arguments} {argument value text : String} {option : ValueOption}
  {assignments : List Assignment}

theorem assigning_assigning (first second : List Assignment) :
    (arguments.assigning first).assigning second = arguments.assigning second := rfl

/-- An option that is no assignment does not look at them. -/
theorem put_assigning (hset : option ≠ .assignment) :
    (arguments.assigning assignments).put option value =
      (arguments.put option value).map (·.assigning assignments) := by
  cases option with
  | schema | operation | resolvers =>
    simp only [put, assigning]
    first
    | cases onePath _ _ value <;> rfl
    | cases once _ _ value <;> rfl
  | assignment => exact absurd rfl hset

theorem put_assignment {assignment : Assignment} (h : Assignment.parse text = .ok assignment) :
    arguments.put .assignment text =
      .ok (arguments.assigning (arguments.assignments ++ [assignment])) := by
  rw [put, h]
  rfl

theorem put_assignment_eq_ok {next : Arguments} (h : arguments.put .assignment text = .ok next) :
    ∃ assignment, Assignment.parse text = .ok assignment ∧
      next = arguments.assigning (arguments.assignments ++ [assignment]) := by
  cases hparse : Assignment.parse text with
  | error error =>
    rw [put, hparse] at h
    cases h
  | ok assignment =>
    rw [put_assignment hparse, Except.ok.injEq] at h
    exact ⟨assignment, rfl, h.symm⟩

/-- What does not look at assignments keeps them. -/
theorem assignments_of_assigning {result : Except UsageError Arguments} {next : Arguments}
    (hnext : result = .ok next) (h : result = result.map (·.assigning arguments.assignments)) :
    next.assignments = arguments.assignments := by
  rw [hnext] at h
  have hsame : next = next.assigning arguments.assignments := Except.ok.inj h
  rw [hsame, assigning]

theorem putDocument_assigning :
    (arguments.assigning assignments).putDocument value =
      (arguments.putDocument value).map (·.assigning assignments) := by
  have hdocument : (arguments.assigning assignments).document = arguments.document := rfl
  rw [putDocument, putDocument, hdocument]
  by_cases hsome : arguments.document.isSome = true
  · rw [if_pos hsome, if_pos hsome]
    rfl
  · rw [if_neg hsome, if_neg hsome]
    cases onePath "document" none value <;> rfl

theorem skipChecks_assigning :
    (arguments.assigning assignments).skipChecks =
      arguments.skipChecks.map (·.assigning assignments) := by
  have hvalidate : (arguments.assigning assignments).validate = arguments.validate := rfl
  rw [skipChecks, skipChecks, hvalidate]
  cases arguments.validate <;> rfl

/-- What the next argument does, whatever was read before it. -/
inductive Effect (argument : String) : Prop where
  | waits (option : ValueOption) (hset : option = .assignment → argument = "--set")
      (h : ∀ arguments : Arguments, arguments.putNext argument = .ok (.waiting option))
  | answers (request : Request) (hrequest : ∀ arguments, request ≠ .mock arguments)
      (h : ∀ arguments : Arguments, arguments.putNext argument = .ok (.answered request))
  | fails (error : UsageError)
      (h : ∀ arguments : Arguments, arguments.putNext argument = .error error)
  /-- The arguments are changed, and assignments have no part in it. -/
  | changes (change : Arguments → Except UsageError Arguments)
      (hchange : ∀ arguments assignments, change (assigning arguments assignments) =
        (change arguments).map (·.assigning assignments))
      (h : ∀ arguments : Arguments,
        arguments.putNext argument = (change arguments).map .done)
  | assigns (text : String) (h : argument = "--set=" ++ text)

/-- A long option, unless it is an assignment with its text. -/
theorem effect_of_long {name : String} {value? : Option String}
    (hargument : ∀ arguments : Arguments,
      arguments.putNext argument = arguments.putLong name value?)
    (hset : ValueOption.ofName? name = some .assignment → value? = none ∧ argument = "--set") :
    Effect argument := by
  cases hoption : ValueOption.ofName? name with
  | some option =>
    cases value? with
    | none =>
      refine .waits option (fun heq => (hset (heq ▸ hoption)).2) fun arguments => ?_
      simp only [hargument, putLong, hoption]
    | some value =>
      have hother : option ≠ .assignment := by
        rintro rfl
        exact Option.some_ne_none value (hset hoption).1
      refine .changes (·.put option value) (fun _ _ => put_assigning hother) fun arguments => ?_
      simp only [hargument, putLong, hoption]
      cases arguments.put option value <;> rfl
  | none =>
    -- The name alone decides, so that the branch is the same one for all arguments.
    have hlong : ∀ arguments : Arguments, arguments.putNext argument =
        if !(["version", "help", "no-validate"].contains name) then .error (.unknown ("--" ++ name))
        else if value?.isSome then .error (.needlessValue name)
        else if name = "no-validate" then arguments.skipChecks.map .done
        else .ok (.answered (if name = "version" then .version else .help)) := by
      intro arguments
      simp only [hargument, putLong, hoption]
      cases value? <;> cases arguments.skipChecks <;> rfl
    split at hlong
    · exact .fails _ hlong
    · split at hlong
      · exact .fails _ hlong
      · split at hlong
        · exact .changes skipChecks (fun _ _ => skipChecks_assigning) hlong
        · refine .answers _ (fun arguments => ?_) hlong
          split <;> exact Request.noConfusion

/-- No assignment has a short name. -/
theorem effect_of_short {letter : Char} {rest : List Char}
    (hargument : ∀ arguments : Arguments,
      arguments.putNext argument = arguments.putShort letter rest) : Effect argument := by
  cases hoption : ValueOption.letters.lookup letter with
  | some option =>
    have hother : option ≠ .assignment := by
      rintro rfl
      obtain ⟨before, after, hletters, -⟩ := List.lookup_eq_some_iff.mp hoption
      have hmem : (letter, .assignment) ∈ ValueOption.letters :=
        hletters ▸ List.mem_append_right _ List.mem_cons_self
      simp [ValueOption.letters] at hmem
    have hattached (value : String) (h : ∀ arguments : Arguments,
        arguments.putNext argument = (arguments.put option value).map .done) : Effect argument :=
      .changes (·.put option value) (fun _ _ => put_assigning hother) h
    cases rest with
    | nil =>
      refine .waits option (absurd · hother) fun arguments => ?_
      simp only [hargument, putShort, hoption]
    | cons c rest =>
      by_cases hc : c = '='
      · refine hattached (String.ofList rest) fun arguments => ?_
        simp only [hargument, putShort, hoption, hc]
        cases arguments.put option (String.ofList rest) <;> rfl
      · refine hattached (String.ofList (c :: rest)) fun arguments => ?_
        rw [hargument, putShort.eq_def, hoption]
        split
        · next hrest => cases hrest
        · next hrest =>
          cases hrest
          exact absurd rfl hc
        · next hsame _ _ =>
          cases hsame
          cases arguments.put option (String.ofList (c :: rest)) <;> rfl
        · next hsame => cases hsame
  | none =>
    have hshort : ∀ arguments : Arguments, arguments.putNext argument =
        if letter = 'V' then .ok (.answered .version)
        else if letter = 'h' then .ok (.answered .help)
        else .error (.unknown (String.ofList ['-', letter])) := by
      intro arguments
      simp only [hargument, putShort, hoption]
    split at hshort
    · exact .answers _ (fun _ => Request.noConfusion) hshort
    · split at hshort
      · exact .answers _ (fun _ => Request.noConfusion) hshort
      · exact .fails _ hshort

theorem putNext_set (arguments : Arguments) (text : String) :
    arguments.putNext ("--set=" ++ text) = (arguments.put .assignment text).map .done := by
  have htext : ("--set=" ++ text).toList =
      '-' :: '-' :: (['s', 'e', 't'] ++ '=' :: text.toList) := by
    rw [String.toList_append]
    rfl
  have hsplit : Text.splitFirst? '=' (['s', 'e', 't'] ++ '=' :: text.toList) =
      some (['s', 'e', 't'], text.toList) := Text.splitFirst?_append (by decide) text.toList
  have hname : ValueOption.ofName? (String.ofList ['s', 'e', 't']) = some .assignment := by decide
  simp only [putNext, htext, hsplit, putLong, hname, String.ofList_toList]
  cases arguments.put .assignment text <;> rfl

theorem toList_of_name {name : List Char}
    (h : ValueOption.ofName? (String.ofList name) = some .assignment) : name = ['s', 'e', 't'] := by
  have hfound := List.find?_some h
  have hname : String.ofList ['s', 'e', 't'] = String.ofList name := of_decide_eq_true hfound
  exact (String.ofList_inj.mp hname).symm

theorem exists_effect (argument : String) : Effect argument := by
  have hargument := fun arguments : Arguments => putNext.eq_def arguments argument
  split at hargument
  · next long htext =>
    cases hsplit : Text.splitFirst? '=' long with
    | none =>
      simp only [hsplit] at hargument
      refine effect_of_long hargument fun hset => ⟨rfl, String.toList_inj.mp ?_⟩
      rw [htext, toList_of_name hset]
      rfl
    | some split =>
      obtain ⟨name, value⟩ := split
      simp only [hsplit] at hargument
      obtain ⟨rfl, -⟩ := Text.splitFirst?_eq_some hsplit
      by_cases hset : ValueOption.ofName? (String.ofList name) = some .assignment
      · refine .assigns (String.ofList value) (String.toList_inj.mp ?_)
        rw [htext, toList_of_name hset, String.toList_append, String.toList_ofList (l := value)]
        rfl
      · exact effect_of_long hargument (absurd · hset)
  · exact effect_of_short hargument
  · refine .changes (·.putDocument argument) (fun _ _ => putDocument_assigning) fun arguments => ?_
    rw [hargument]
    cases arguments.putDocument argument <;> rfl

theorem map_done_eq_ok {result : Except UsageError Arguments} {progress : Progress}
    (h : result.map .done = .ok progress) : ∃ next, progress = .done next ∧ result = .ok next := by
  cases result with
  | error error => cases h
  | ok next =>
    cases h
    exact ⟨next, rfl, rfl⟩

theorem map_done_ne_waiting {result : Except UsageError Arguments} :
    result.map Progress.done ≠ .ok (.waiting option) := by
  cases result <;> exact nofun

/-- What waits for its value does so whatever was read before it, and only one argument waits for the
text of an assignment. -/
theorem waits_everywhere (h : arguments.putNext argument = .ok (.waiting option)) :
    (option = .assignment → argument = "--set") ∧
      ∀ other : Arguments, other.putNext argument = .ok (.waiting option) := by
  cases exists_effect argument with
  | waits other hset hwaits =>
    rw [hwaits] at h
    cases h
    exact ⟨hset, hwaits⟩
  | answers request _ heffect | fails error heffect =>
    rw [heffect] at h
    cases h
  | changes change _ heffect =>
    rw [heffect] at h
    exact absurd h map_done_ne_waiting
  | assigns text heq =>
    rw [heq, putNext_set] at h
    exact absurd h map_done_ne_waiting

theorem pending?_eq_some :
    pending? argument = some option ↔ blank.putNext argument = .ok (.waiting option) := by
  unfold pending?
  split
  · next hwaits => rw [hwaits, Option.some.injEq, Except.ok.injEq, Progress.waiting.injEq]
  · next hwaits => exact ⟨nofun, fun h => absurd h (hwaits option)⟩

/-- What an argument leaves pending does not depend on what was read before it. -/
theorem putNext_of_pending (hpending : pending? argument = some option) (arguments : Arguments) :
    arguments.putNext argument = .ok (.waiting option) :=
  (waits_everywhere (pending?_eq_some.mp hpending)).2 arguments

theorem pending?_of_waiting (h : arguments.putNext argument = .ok (.waiting option)) :
    pending? argument = some option :=
  pending?_eq_some.mpr ((waits_everywhere h).2 blank)

/-- Only one argument leaves the text of an assignment pending. -/
theorem eq_of_pending_assignment (hpending : pending? argument = some .assignment) :
    argument = "--set" :=
  (waits_everywhere (pending?_eq_some.mp hpending)).1 rfl

theorem pending?_of_done {next : Arguments} (h : arguments.putNext argument = .ok (.done next)) :
    pending? argument = none := by
  cases hpending : pending? argument with
  | none => rfl
  | some option =>
    rw [putNext_of_pending hpending] at h
    cases h

/-- What is no assignment and leaves nothing pending changes the arguments as it would change them
with other assignments, unless the request is answered or refused. -/
theorem putNext_of_single (hpending : pending? argument = none)
    (hset : ∀ text, argument ≠ "--set=" ++ text) :
    (∀ arguments next : Arguments, arguments.putNext argument = .ok (.done next) →
      ∀ assignments, (arguments.assigning assignments).putNext argument =
        .ok (.done (next.assigning assignments))) ∧
    (∀ (arguments : Arguments) (option : ValueOption),
      arguments.putNext argument ≠ .ok (.waiting option)) := by
  cases exists_effect argument with
  | waits option _ h =>
    rw [pending?, h] at hpending
    cases hpending
  | answers request _ h | fails error h =>
    refine ⟨fun arguments next hnext => ?_, fun arguments option hwaits => ?_⟩
    · rw [h] at hnext
      cases hnext
    · rw [h] at hwaits
      cases hwaits
  | changes change hchange h =>
    refine ⟨fun arguments next hnext assignments => ?_, fun arguments option hwaits => ?_⟩
    · rw [h] at hnext ⊢
      obtain ⟨_, hdone, hresult⟩ := map_done_eq_ok hnext
      cases hdone
      rw [hchange, hresult]
      rfl
    · rw [h] at hwaits
      exact absurd hwaits map_done_ne_waiting
  | assigns text h => exact absurd h (hset text)

/-- No request for a mock is an answer to a single argument. -/
theorem not_answered_mock {arguments : Arguments} {request : Request}
    (h : arguments.putNext argument = .ok (.answered request)) (read : Arguments) :
    request ≠ .mock read := by
  cases exists_effect argument with
  | waits option _ heffect | fails error heffect =>
    rw [heffect] at h
    cases h
  | answers other hother heffect =>
    rw [heffect] at h
    cases h
    exact hother read
  | changes change _ heffect =>
    rw [heffect] at h
    obtain ⟨_, hdone, -⟩ := map_done_eq_ok h
    cases hdone
  | assigns text heq =>
    rw [heq, putNext_set] at h
    obtain ⟨_, hdone, -⟩ := map_done_eq_ok h
    cases hdone

/-! ## 3. Lines with assignments -/

/-- An argument that is read to its end is followed by the rest of the line. -/
theorem readFrom_done {next : Arguments} (hmark : argument ≠ "--")
    (h : arguments.putNext argument = .ok (.done next)) (rest : List String) :
    arguments.readFrom none (argument :: rest) = next.readFrom none rest := by
  rw [readFrom, if_neg hmark, h]

theorem readFrom_waiting (hmark : argument ≠ "--")
    (h : arguments.putNext argument = .ok (.waiting option)) (rest : List String) :
    arguments.readFrom none (argument :: rest) = arguments.readFrom (some option) rest := by
  rw [readFrom, if_neg hmark, h]

theorem readFrom_value {next : Arguments} (hvalue : looksLikeOption value = false)
    (h : arguments.put option value = .ok next) (rest : List String) :
    arguments.readFrom (some option) (value :: rest) = next.readFrom none rest := by
  rw [readFrom, hvalue, h]
  rfl

/-- What the first argument of a line does that asks for a mock. -/
theorem readFrom_cons_eq_mock {rest : List String} (hmark : argument ≠ "--")
    (h : arguments.readFrom none (argument :: rest) = .ok (.mock read)) :
    (∃ next, arguments.putNext argument = .ok (.done next) ∧
      next.readFrom none rest = .ok (.mock read)) ∨
    ∃ option value next line, arguments.putNext argument = .ok (.waiting option) ∧
      rest = value :: line ∧ looksLikeOption value = false ∧
      arguments.put option value = .ok next ∧ next.readFrom none line = .ok (.mock read) := by
  rw [readFrom, if_neg hmark] at h
  cases hnext : arguments.putNext argument with
  | error error =>
    rw [hnext] at h
    cases h
  | ok progress =>
    rw [hnext] at h
    cases progress with
    | done next => exact .inl ⟨next, rfl, h⟩
    | answered request =>
      cases h
      exact absurd rfl (not_answered_mock hnext read)
    | waiting option =>
      cases rest with
      | nil => cases h
      | cons value line =>
        simp only [readFrom] at h
        split at h
        · cases h
        · next hvalue =>
          cases hput : arguments.put option value with
          | error error =>
            rw [hput] at h
            cases h
          | ok next =>
            rw [hput] at h
            exact .inr ⟨option, value, next, line, rfl, rfl, by simpa using hvalue, hput, h⟩

theorem foldlM_putDocument_assigning (positional : List String) :
    positional.foldlM putDocument (arguments.assigning assignments) =
      (positional.foldlM putDocument arguments).map (·.assigning assignments) := by
  induction positional generalizing arguments with
  | nil => rfl
  | cons path rest ih =>
    rw [List.foldlM_cons, List.foldlM_cons, putDocument_assigning]
    cases arguments.putDocument path with
    | error error => rfl
    | ok next => exact ih

theorem readFrom_marked (arguments : Arguments) (positional : List String) :
    arguments.readFrom none ("--" :: positional) =
      (positional.foldlM putDocument arguments).map .mock := by
  rw [readFrom, if_pos rfl]
  cases positional.foldlM putDocument arguments <;> rfl

/-- The option of an assignment waits for its text. -/
theorem putNext_option (arguments : Arguments) :
    arguments.putNext "--set" = .ok (.waiting .assignment) := rfl

theorem set_append_ne_mark (text : String) : "--set=" ++ text ≠ "--" := by
  intro heq
  have hlist := congrArg String.toList heq
  rw [String.toList_append] at hlist
  cases hlist

theorem option_ne_mark (hpending : pending? argument = some option) : argument ≠ "--" := by
  rintro rfl
  cases hpending

/-- A line with assignments is read as the line without them, and they are added in their order. -/
theorem Assigning.readFrom {line texts full : List String} (h : Assigning line texts full)
    {assignments : List Assignment}
    (htexts : List.Forall₂ (Assignment.parse · = .ok ·) texts assignments)
    (hline : arguments.readFrom none line = .ok (.mock read)) (before : List Assignment) :
    (arguments.assigning before).readFrom none full =
      .ok (.mock (read.assigning (before ++ assignments))) := by
  -- What was assigned `before` grows along the line, while the line without it is read apart.
  induction h generalizing arguments assignments before with
  | nil =>
    cases htexts
    cases hline
    rw [List.append_nil]
    rfl
  | marked positional =>
    cases htexts
    rw [readFrom_marked] at hline ⊢
    rw [foldlM_putDocument_assigning, List.append_nil]
    cases hread : positional.foldlM putDocument arguments with
    | error error =>
      rw [hread] at hline
      cases hline
    | ok next =>
      rw [hread] at hline
      cases hline
      rfl
  | attached text _ ih =>
    cases htexts with
    | @cons _ assignment _ assignments hfirst hrest =>
      have hnext := putNext_set (arguments.assigning before) text
      rw [put_assignment hfirst] at hnext
      rw [readFrom_done (set_append_ne_mark text) hnext,
        List.append_cons before assignment assignments]
      exact ih hrest hline (before ++ [assignment])
  | following hvalue _ ih =>
    cases htexts with
    | @cons _ assignment _ assignments hfirst hrest =>
      have hput : (arguments.assigning before).put .assignment _ =
          .ok (arguments.assigning (before ++ [assignment])) := put_assignment hfirst
      rw [readFrom_waiting (by decide) (putNext_option _), readFrom_value hvalue hput,
        List.append_cons before assignment assignments]
      exact ih hrest hline (before ++ [assignment])
  | single hmark hpending hset _ ih =>
    obtain ⟨hdone, hwaits⟩ := putNext_of_single hpending hset
    rcases readFrom_cons_eq_mock hmark hline with ⟨next, hnext, hrest⟩ | ⟨option, _, _, _, hnext, -⟩
    · rw [readFrom_done hmark (hdone _ _ hnext before)]
      exact ih htexts hrest before
    · exact absurd hnext (hwaits _ option)
  | option hpending hset _ ih =>
    have hmark := option_ne_mark hpending
    have hwaits := putNext_of_pending hpending
    rcases readFrom_cons_eq_mock hmark hline with
      ⟨next, hnext, -⟩ | ⟨_, _, next, _, hnext, heq, hvalue, hput, hrest⟩
    · rw [hwaits] at hnext
      cases hnext
    · rw [hwaits] at hnext
      cases hnext
      cases heq
      have hput' := (put_assigning hset).trans (congrArg (Except.map (·.assigning before)) hput)
      rw [readFrom_waiting hmark (hwaits _), readFrom_value hvalue hput']
      exact ih htexts hrest before

/-- What was read of a line is what is read of it without its assignments, and those in addition. -/
def Separates (arguments read : Arguments) (full : List String) : Prop :=
  ∃ line texts assignments, Assigning line texts full ∧
    List.Forall₂ (Assignment.parse · = .ok ·) texts assignments ∧
    read.assignments = arguments.assignments ++ assignments ∧
    ∀ other, (arguments.assigning other).readFrom none line = .ok (.mock (read.assigning other))

section Separating

variable {next : Arguments} {full : List String} {assignment : Assignment}

theorem separates_nil (arguments : Arguments) : Separates arguments arguments [] :=
  ⟨[], [], [], .nil, .nil, (List.append_nil _).symm, fun _ => rfl⟩

theorem separates_marked {positional : List String}
    (h : positional.foldlM putDocument arguments = .ok read) :
    Separates arguments read ("--" :: positional) := by
  have hsame := assignments_of_assigning h (foldlM_putDocument_assigning positional)
  refine ⟨_, [], [], .marked positional, .nil, by rw [hsame, List.append_nil], fun other => ?_⟩
  rw [readFrom_marked, foldlM_putDocument_assigning, h]
  rfl

/-- An assignment in front is added to those that are read after it. -/
theorem Separates.assign (hparse : Assignment.parse text = .ok assignment)
    (h : Separates (arguments.assigning (arguments.assignments ++ [assignment])) read full) :
    Separates arguments read (("--set=" ++ text) :: full) ∧
      (looksLikeOption text = false → Separates arguments read ("--set" :: text :: full)) := by
  obtain ⟨line, texts, assignments, hline, htexts, hread, hother⟩ := h
  have hall : read.assignments = arguments.assignments ++ assignment :: assignments := by
    rw [hread, List.append_cons arguments.assignments assignment assignments]
    rfl
  exact ⟨⟨line, text :: texts, _, .attached text hline, .cons hparse htexts, hall, hother⟩,
    fun hvalue => ⟨line, text :: texts, _, .following hvalue hline, .cons hparse htexts, hall,
      hother⟩⟩

theorem Separates.single (h : Separates next read full) (hmark : argument ≠ "--")
    (hset : ∀ text, argument ≠ "--set=" ++ text)
    (hnext : arguments.putNext argument = .ok (.done next)) :
    Separates arguments read (argument :: full) := by
  obtain ⟨line, texts, assignments, hline, htexts, hread, hother⟩ := h
  have hpending := pending?_of_done hnext
  obtain ⟨hdone, -⟩ := putNext_of_single hpending hset
  refine ⟨argument :: line, texts, assignments, .single hmark hpending hset hline, htexts, ?_,
    fun other => ?_⟩
  · have hself := hnext.symm.trans (hdone _ _ hnext arguments.assignments)
    have hsame : next = next.assigning arguments.assignments :=
      Progress.done.inj (Except.ok.inj hself)
    rw [hread, hsame, assigning]
  · rw [readFrom_done hmark (hdone _ _ hnext other)]
    exact hother other

theorem Separates.other (h : Separates next read full) (hset : option ≠ .assignment)
    (hwaits : arguments.putNext argument = .ok (.waiting option))
    (hvalue : looksLikeOption value = false) (hput : arguments.put option value = .ok next) :
    Separates arguments read (argument :: value :: full) := by
  obtain ⟨line, texts, assignments, hline, htexts, hread, hother⟩ := h
  have hpending := pending?_of_waiting hwaits
  have hsame := assignments_of_assigning hput (put_assigning hset)
  refine ⟨argument :: value :: line, texts, assignments, .option hpending hset hline, htexts,
    by rw [hread, hsame], fun other => ?_⟩
  have hput' := (put_assigning hset).trans (congrArg (Except.map (·.assigning other)) hput)
  rw [readFrom_waiting (option_ne_mark hpending) (putNext_of_pending hpending _),
    readFrom_value hvalue hput']
  exact hother other

end Separating

/-- Assignments are found in every line that is accepted, and without them it is accepted, too. -/
theorem separates_of_readFrom {arguments read : Arguments} {full : List String}
    (h : arguments.readFrom none full = .ok (.mock read)) : Separates arguments read full := by
  match full with
  | [] =>
    cases h
    exact separates_nil arguments
  | argument :: rest =>
    by_cases hmark : argument = "--"
    · subst hmark
      rw [readFrom_marked] at h
      cases hread : rest.foldlM putDocument arguments with
      | error error =>
        rw [hread] at h
        cases h
      | ok next =>
        rw [hread] at h
        cases h
        exact separates_marked hread
    · rcases readFrom_cons_eq_mock hmark h with
        ⟨next, hnext, hrest⟩ | ⟨option, value, next, after, hwaits, rfl, hvalue, hput, hrest⟩
      · have hafter := separates_of_readFrom hrest
        by_cases hset : ∃ text, argument = "--set=" ++ text
        · obtain ⟨text, rfl⟩ := hset
          rw [putNext_set] at hnext
          obtain ⟨_, hdone, hput⟩ := map_done_eq_ok hnext
          cases hdone
          obtain ⟨assignment, hparse, rfl⟩ := put_assignment_eq_ok hput
          exact (Separates.assign hparse hafter).1
        · exact hafter.single hmark (not_exists.mp hset) hnext
      · -- The option takes two arguments, so the induction is on the length of the line.
        have hafter := separates_of_readFrom hrest
        by_cases hset : option = .assignment
        · subst hset
          obtain rfl := eq_of_pending_assignment (pending?_of_waiting hwaits)
          obtain ⟨assignment, hparse, rfl⟩ := put_assignment_eq_ok hput
          exact (Separates.assign hparse hafter).2 hvalue
        · exact hafter.other hset hwaits hvalue hput
termination_by full.length

/-- In a line that assignments are put into there are none before. -/
theorem Assigning.without {line texts full : List String} (h : Assigning line texts full) :
    Assigning line [] line := by
  induction h with
  | nil => exact .nil
  | marked positional => exact .marked positional
  | attached _ _ ih | following _ _ ih => exact ih
  | single hmark hpending hset _ ih => exact .single hmark hpending hset ih
  | option hpending hset _ ih => exact .option hpending hset ih

theorem complete_assigning (schemaVariable : Option String) :
    (arguments.assigning assignments).complete schemaVariable =
      (arguments.complete schemaVariable).map (·.assigning assignments) := by
  have hdocument : (arguments.assigning assignments).document = arguments.document := rfl
  have hschema : (arguments.assigning assignments).schema = arguments.schema := rfl
  unfold complete
  simp only [hdocument, hschema]
  cases arguments.document <;> cases arguments.schema <;> cases schemaVariable with
  | none => rfl
  | some path =>
    dsimp only
    first
    | rfl
    | cases onePath ValueOption.schema.name none path <;> rfl

end Reading

end Arguments

/-! ## 4. Requests with assignments -/

section Requests

variable {arguments : Arguments} {schemaVariable : Option String} {line texts full : List String}
  {assignments : List Assignment}

theorem Request.parse_eq_mock :
    Request.parse line schemaVariable = .ok (.mock arguments) ↔
      ∃ read, Arguments.blank.readFrom none line = .ok (.mock read) ∧
        read.complete schemaVariable = .ok arguments := by
  unfold Request.parse
  cases Arguments.blank.readFrom none line with
  | error error => exact ⟨nofun, fun ⟨_, h, _⟩ => nomatch h⟩
  | ok request =>
    cases request with
    | version | help => exact ⟨nofun, fun ⟨_, h, _⟩ => nomatch h⟩
    | mock read =>
      show (read.complete schemaVariable >>= fun completed => pure (Request.mock completed)) = _ ↔ _
      constructor
      · intro h
        cases hcomplete : read.complete schemaVariable with
        | error error =>
          rw [hcomplete] at h
          cases h
        | ok completed =>
          rw [hcomplete] at h
          cases h
          exact ⟨read, rfl, hcomplete⟩
      · rintro ⟨_, hread, hcomplete⟩
        cases hread
        rw [hcomplete]
        rfl

theorem parse_of_assigning (h : Arguments.Assigning line texts full)
    (htexts : List.Forall₂ (Assignment.parse · = .ok ·) texts assignments)
    (hline : Request.parse line schemaVariable = .ok (.mock arguments)) :
    Request.parse full schemaVariable = .ok (.mock (arguments.assigning assignments)) := by
  obtain ⟨read, hread, hcomplete⟩ := Request.parse_eq_mock.mp hline
  refine Request.parse_eq_mock.mpr ⟨read.assigning assignments, h.readFrom htexts hread [], ?_⟩
  rw [Arguments.complete_assigning, hcomplete]
  rfl

theorem assignments_of_parse (h : Arguments.Assigning line texts full)
    (hline : Request.parse line schemaVariable = .ok (.mock arguments)) :
    arguments.assigning [] = arguments := by
  have hself := parse_of_assigning h.without .nil hline
  rw [hline] at hself
  exact (Request.mock.inj (Except.ok.inj hself)).symm

theorem exists_assigning_of_parse
    (h : Request.parse full schemaVariable = .ok (.mock arguments)) :
    ∃ line texts, Arguments.Assigning line texts full ∧
      List.Forall₂ (Assignment.parse · = .ok ·) texts arguments.assignments ∧
      Request.parse line schemaVariable = .ok (.mock (arguments.assigning [])) := by
  obtain ⟨read, hread, hcomplete⟩ := Request.parse_eq_mock.mp h
  obtain ⟨line, texts, assignments, hline, htexts, hassignments, hother⟩ :=
    Arguments.separates_of_readFrom hread
  have hsame := Arguments.assignments_of_assigning hcomplete (Arguments.complete_assigning _)
  refine ⟨line, texts, hline, ?_, Request.parse_eq_mock.mpr ⟨_, hother [], ?_⟩⟩
  · rw [hsame, hassignments]
    exact htexts
  · rw [Arguments.complete_assigning, hcomplete]
    rfl

end Requests

/-! ## 5. Mocks with assignments -/

section Mocks

variable {m : Type → Type} [Monad m] [LawfulMonad m]

/-- The assignments wait until the mock is there. -/
theorem makeMock_assigning (world : Surroundings m) (arguments : Arguments)
    (assignments : List Assignment) :
    makeMock world (arguments.assigning assignments) = do
      let mock ← makeMock world (arguments.assigning [])
      return mock.assignAll assignments := by
  simp only [makeMock, Arguments.assigning, bind_assoc]
  -- Only the last stage looks at the assignments.
  congr 1
  funext text
  congr 1
  funext source?
  congr 1
  funext registry
  congr 1
  funext result
  rcases result with ⟨failure | mock, calls⟩
  · exact ExceptT.ext (by simp)
  · simp [Json.assignAll]

/-- The command prints what the assignments of its arguments make of the mock. -/
theorem runCommand_of_parse (world : Surroundings m) {line : List String} {arguments : Arguments}
    (h : Request.parse line world.schemaVariable = .ok (.mock arguments)) :
    runCommand world line = do
      match ← (makeMock world (arguments.assigning [])).run with
      | .ok mock => return .printed ((mock.assignAll arguments.assignments).pretty ++ "\n")
      | .error error => return .failed error := by
  have hmock : makeMock world arguments = _ :=
    makeMock_assigning world arguments arguments.assignments
  rw [runCommand, h]
  simp only [hmock, ExceptT.run_bind, bind_assoc]
  congr 1
  funext result
  cases result with
  | error error => simp
  | ok mock => simp

end Mocks

/-- What the last of several assignments puts in place is there, whether those before it were
dropped or not. -/
theorem get?_assignAll_snoc {mock value : Json} {path : Path} (hpath : path ≠ [])
    (before : List Assignment)
    (happlied : (Json.assignAt path (mock.assignAll before) value).applied = true) :
    (mock.assignAll (before ++ [(path, value)])).get? path = some value := by
  have hlast : mock.assignAll (before ++ [(path, value)]) =
      (Json.assignAt path (mock.assignAll before) value).value := by
    cases path with
    | nil => exact absurd rfl hpath
    | cons step rest =>
      rw [Json.assignAll, List.foldl_append]
      rfl
  rw [hlast]
  exact Json.get?_assignAt happlied

/-- **Assignments mean what they say.** A path whose keys are neither empty nor cut by a slash or an
equals sign nor read as an index is read back from its text with any JSON behind the equals sign. An
assignment is refused exactly if its text has no equals sign, or no JSON after the first one.
Whatever assignments are put into a command line, the command prints the mock of that line with the
assignments applied one after the other, in their order; so what the last one puts in place is
there, even if others before it were dropped. And every line that asks for a mock is made so. -/
theorem assignments_apply :
    (∀ (path : Path) (json : String) (value : Json),
      (∀ name, .key name ∈ path →
        name ≠ "" ∧ '/' ∉ name.toList ∧ '=' ∉ name.toList ∧ ¬ SpellsIndex name) →
      Json.parse? json = some value →
      Assignment.parse (path.render ++ "=" ++ json) = .ok (path, value)) ∧
    (∀ text, (∃ error, Assignment.parse text = .error error) ↔
      '=' ∉ text.toList ∨ ∃ before after, text.toList = before ++ '=' :: after ∧ '=' ∉ before ∧
        Json.parse? (String.ofList after) = none) ∧
    (∀ {m : Type → Type} [Monad m] [LawfulMonad m] (world : Surroundings m)
      {line texts full : List String} {arguments : Arguments} {assignments : List Assignment},
      Arguments.Assigning line texts full →
      List.Forall₂ (Assignment.parse · = .ok ·) texts assignments →
      Request.parse line world.schemaVariable = .ok (.mock arguments) →
      runCommand world full = do
        match ← (makeMock world arguments).run with
        | .ok mock =>
          return .printed ((assignments.foldl (fun mock (path, value) => mock.assign path value)
            mock).pretty ++ "\n")
        | .error error => return .failed error) ∧
    (∀ (mock : Json) (before : List Assignment) (path : Path) (value : Json), path ≠ [] →
      (Json.assignAt path (mock.assignAll before) value).applied = true →
      (mock.assignAll (before ++ [(path, value)])).get? path = some value) ∧
    (∀ full schemaVariable arguments,
      Request.parse full schemaVariable = .ok (.mock arguments) →
      ∃ line texts, Arguments.Assigning line texts full ∧
        List.Forall₂ (Assignment.parse · = .ok ·) texts arguments.assignments ∧
        Request.parse line schemaVariable = .ok (.mock (arguments.assigning []))) := by
  refine ⟨fun path json value hkeys hjson => ?_, fun text => Assignment.parse_eq_error_iff, ?_,
    fun mock before path value hpath => get?_assignAll_snoc hpath before,
    fun full schemaVariable arguments => exists_assigning_of_parse⟩
  · have hpath : path.IsReadable := fun name hname =>
      ⟨(hkeys name hname).1, (hkeys name hname).2.1, (hkeys name hname).2.2.2⟩
    exact Assignment.parse_render hpath (fun name hname => (hkeys name hname).2.2.1) hjson
  · intro m _ _ world line texts full arguments assignments hfull htexts hline
    rw [runCommand_of_parse world (parse_of_assigning hfull htexts hline),
      Arguments.assigning_assigning, assignments_of_parse hfull hline]
    rfl

/-- The schema of a shop in the only file that there is. -/
def shopFiles : FileTree :=
  .directory [("shop.graphql", .file "type Query \x7b id: Int tag: String \x7d".toUTF8.toList)]

/-- The query stands in the standard input. -/
def shopWorld : Surroundings Id where
  files := shopFiles.access shopFiles.rootPlace
  input := .ok "\x7b id tag \x7d"
  directory := .ok "/"
  schemaVariable := some "shop.graphql"

/-- The request of `--no-validate -`. -/
def shopArguments : Arguments := ⟨some "-", some "shop.graphql", none, none, false, []⟩

theorem assigning_shop (dropped : String) {tagged : String}
    (htagged : Arguments.looksLikeOption tagged = false) :
    Arguments.Assigning ["--no-validate", "-"] [dropped, tagged]
      ["--set=" ++ dropped, "--no-validate", "-", "--set", tagged] := by
  refine .attached dropped (.single (by decide) rfl ?_ (.single (by decide) rfl ?_
    (.following htagged .nil)))
  all_goals
    intro text heq
    have hlist := congrArg String.toList heq
    rw [String.toList_append] at hlist
    cases hlist

/-- The first assignment goes into a number and is dropped. -/
theorem assignments_apply_shop :
    ∃ mock, (makeMock shopWorld shopArguments).run = .ok mock ∧
      runCommand shopWorld ["--set=" ++ (Path.render [.key "id", .index 7] ++ "=" ++ "null"),
          "--no-validate", "-", "--set", Path.render [.key "tag"] ++ "=" ++ "\"a=b\""] =
        .printed (((mock.assign [.key "id", .index 7] .null).assign [.key "tag"]
          (.string "a=b")).pretty ++ "\n") := by
  obtain ⟨hback, -, hrun, -, -⟩ := assignments_apply
  have hdropped := hback [.key "id", .index 7] "null" .null (by simp; decide) rfl
  have htagged := hback [.key "tag"] "\"a=b\"" (.string "a=b") (by simp; decide) rfl
  have hline : Request.parse ["--no-validate", "-"] shopWorld.schemaVariable =
      .ok (.mock shopArguments) := rfl
  have hmade : (makeMock shopWorld shopArguments).run.toBool = true := by decide +kernel
  cases hmock : (makeMock shopWorld shopArguments).run with
  | error error =>
    rw [hmock] at hmade
    cases hmade
  | ok mock =>
    refine ⟨mock, rfl, ?_⟩
    rw [hrun shopWorld (assigning_shop _ rfl) (.cons hdropped (.cons htagged .nil)) hline, hmock]
    rfl

end MockGraph
