import MockGraph.Proofs.Introspection.Printing
import MockGraph.Proofs.Walk.Conformance

/-!
# `Proofs/TypeSystem/References`: type references keep their meaning

A type is written in three ways: as a reference, which fuses non-null marks with what they stand on,
as a `FieldType`, which has a wrapper for each list and each mark, and as text. Main statement,
`ofTypeRef_meaning`: a `FieldType` made from a reference is printed like it, and what is printed is
read back as the reference, if there are not too many lists in it for a parser. Without its wrappers
it has the name of the reference, and the number of its lists is that of the reference.

Marks make no difference to what a field's value is made of: types that are the same without them
(`FieldType.bare`) have the same name and the same number of lists. `strip?` is one round of the loop
that takes wrappers off; it comes to an end from every type.
-/

set_option autoImplicit false

namespace MockGraph

open Syntax

/-! ## 1. References as text -/

namespace Syntax

theorem scan_name {name : String} (h : isName name = true) :
    Token.scan name = .ok [.name name] := by
  unfold isName at h
  cases hl : name.toList with
  | nil => simp [hl] at h
  | cons first cs =>
    rw [hl] at h
    obtain ⟨hfirst, hcs⟩ := Bool.and_eq_true_iff.mp h
    have hstart : Lexer.step ⟨[], .between⟩ first = .ok ⟨[], .name [first]⟩ :=
      start_of_isNameStart hfirst []
    have hall := foldlM_name (List.all_eq_true.mp hcs) [] [first] []
    have hname : String.ofList (cs.reverse ++ [first]).reverse = name := by
      rw [List.reverse_append, List.reverse_reverse]
      exact (congrArg String.ofList hl).symm.trans String.ofList_toList
    rw [List.append_nil] at hall
    rw [Token.scan, hl, foldlM_step_cons hstart, hall]
    change Lexer.finish ⟨[], .name (cs.reverse ++ [first])⟩ = _
    simp only [Lexer.finish, hname, List.reverse_singleton]

/-- A reference is scanned to its tokens, and it may end in a name that goes on. -/
theorem scan_render {t : TypeRef} (h : isName t.innerName = true) :
    Pending t.render t.tokens ∧ Token.scan t.render = .ok t.tokens := by
  have hopen : Closed "[" [.punct .openBracket] := fun _ _ => rfl
  induction t with
  | named n => exact ⟨pending_name h, scan_name h⟩
  | nonNullNamed n =>
    have hbang : Closed "!" [.punct .bang] := fun _ _ => rfl
    have hall := (pending_name h).append_closed hbang ⟨_, _, rfl, rfl⟩
    exact ⟨hall.pending, hall.scan⟩
  | list t ih =>
    have hclose : Closed "]" [.punct .closeBracket] := fun _ _ => rfl
    have hall := (hopen.append_pending (ih h).1).append_closed hclose ⟨_, _, rfl, rfl⟩
    exact ⟨hall.pending, hall.scan⟩
  | nonNullList t ih =>
    have hclose : Closed "]!" [.punct .closeBracket, .punct .bang] := fun _ _ => rfl
    have hall := (hopen.append_pending (ih h).1).append_closed hclose ⟨_, _, rfl, rfl⟩
    exact ⟨hall.pending, hall.scan⟩

theorem openLists_full {depth : Nat} (h : ¬ depth < maxNesting) (flag : Bool)
    (rest : List Lexeme) :
    Parser.openLists depth (⟨.punct .openBracket, flag⟩ :: rest) = .error .tooDeep := by
  rw [Parser.openLists, if_neg h]

/-- Where a type has too many lists, the parser gives up at a bracket that opens one. -/
theorem openLists_tooDeep (t : TypeRef) {depth : Nat} {lexemes : List Lexeme}
    (rest : List Lexeme) (hl : lexemes.map (·.token) = t.tokens) (hd : depth ≤ maxNesting)
    (hmore : maxNesting < depth + t.lists) :
    Parser.openLists depth (lexemes ++ rest) = .error .tooDeep := by
  induction t generalizing depth lexemes rest with
  | named n | nonNullNamed n =>
    have hmore : maxNesting < depth + 0 := hmore
    omega
  | list t ih | nonNullList t ih =>
    obtain ⟨⟨token, flag⟩, others, rfl, rfl, hothers⟩ := List.map_eq_cons_iff.mp hl
    obtain ⟨inner, closing, rfl, hinner, -⟩ := List.map_eq_append_iff.mp hothers
    have hmore : maxNesting < depth + (t.lists + 1) := hmore
    rw [List.cons_append]
    by_cases hroom : depth < maxNesting
    · rw [openLists_bracket hroom, List.append_assoc]
      exact ih (closing ++ rest) hinner (by omega) (by omega)
    · exact openLists_full hroom flag _

/-- **References are read back.** What is printed is parsed as it was, unless there are more lists
inside each other than a parser follows. -/
theorem parse_render_reference {t : TypeRef} (h : isName t.innerName = true) :
    TypeRef.parse t.render = if t.lists ≤ maxNesting then .ok t else .error .tooDeep := by
  have hscan : Lexeme.scan t.render = .ok (Lexeme.ofTokens false t.tokens) := by
    rw [Lexeme.scan, (scan_render h).2]
    rfl
  have htokens : (Lexeme.ofTokens false t.tokens).map (·.token) = t.tokens := by
    rw [map_token_ofTokens, Introspection.significant_tokens]
  split
  · next hd =>
    have hread := takes_typeRef hd _ [] htokens (by simp [notPunct, next])
    rw [List.append_nil] at hread
    simp only [TypeRef.parse, hscan, bind, Except.bind, hread]
    rfl
  · next hd =>
    have hread := openLists_tooDeep t [] htokens (Nat.zero_le _) (by omega)
    rw [List.append_nil] at hread
    simp only [TypeRef.parse, hscan, bind, Except.bind, Parser.typeRef, hread]

end Syntax

/-! ## 2. Wrappers -/

namespace FieldType

/-- Whether a type is a list or marked as non-null. -/
def isWrapper : FieldType → Bool
  | .list _ | .nonNull _ => true
  | _ => false

/-- A type without its non-null marks. -/
def bare : FieldType → FieldType
  | .nonNull t => t.bare
  | .list t => .list t.bare
  | t => t

/-- Takes one wrapper off a type, and counts it if it is a list. There may be none. -/
def strip? : FieldType × Nat → Option (FieldType × Nat)
  | (.nonNull t, lists) => some (t, lists)
  | (.list t, lists) => some (t, lists + 1)
  | _ => none

theorem strip?_eq_none_iff (t : FieldType) (lists : Nat) :
    strip? (t, lists) = none ↔ t.isWrapper = false := by
  cases t <;> simp [strip?, isWrapper]

@[simp] theorem isWrapper_unwrap (t : FieldType) : t.unwrap.1.isWrapper = false := by
  induction t with
  | nonNull t ih | list t ih => exact ih
  | named | string | int | float | id | boolean => rfl

/-- Wrappers are taken off one after the other, and the end is the type inside them. -/
theorem strips_unwrap (t : FieldType) (lists : Nat) :
    Relation.ReflTransGen (fun before after => strip? before = some after) (t, lists)
      (t.unwrap.1, lists + t.unwrap.2) := by
  induction t generalizing lists with
  | nonNull t ih => exact .head rfl (ih lists)
  | list t ih =>
    have hrest := ih (lists + 1)
    rw [Nat.add_assoc, Nat.add_comm 1] at hrest
    exact .head rfl hrest
  | named | string | int | float | id | boolean => exact .refl

theorem unwrap_bare (t : FieldType) : t.bare.unwrap = t.unwrap := by
  induction t with
  | nonNull t ih => exact ih
  | list t ih => simp only [bare, unwrap, ih]
  | named | string | int | float | id | boolean => rfl

/-- The name of a type is that of what is inside its wrappers. -/
theorem innerName_eq (t : FieldType) : t.innerName = t.unwrap.1.render := by
  induction t with
  | nonNull t ih | list t ih => exact ih
  | named | string | int | float | id | boolean => rfl

/-! ## 3. References as types -/

@[simp] theorem render_ofName (name : Name) : (ofName name).render = name := by
  unfold ofName
  split <;> rfl

@[simp] theorem unwrap_ofName (name : Name) : (ofName name).unwrap = (ofName name, 0) := by
  unfold ofName
  split <;> rfl

theorem render_ofTypeRef (t : TypeRef) : (ofTypeRef t).render = t.render := by
  induction t with
  | named n => simp [ofTypeRef, TypeRef.render]
  | nonNullNamed n => simp [ofTypeRef, TypeRef.render, render]
  | list t ih => simp [ofTypeRef, TypeRef.render, render, ih]
  | nonNullList t ih => simp [ofTypeRef, TypeRef.render, render, ih, String.append_assoc]

theorem unwrap_ofTypeRef (t : TypeRef) : (ofTypeRef t).unwrap = (ofName t.innerName, t.lists) := by
  induction t with
  | named n | nonNullNamed n => simp [ofTypeRef, unwrap, TypeRef.innerName, TypeRef.lists]
  | list t ih | nonNullList t ih =>
    simp [ofTypeRef, unwrap, TypeRef.innerName, TypeRef.lists, ih]

/-- **Type references keep their meaning.** The type that a reference stands for is printed like the
reference, and read back as the same type if the reference has no more lists inside each other than
a parser follows. Taking its wrappers off comes to an end, at a type that is no wrapper and has the
name of the reference, after as many lists as the reference has; and a value is wrapped in one list
for each of them. Where the marks of a type stand makes no difference to its name and its lists. -/
theorem ofTypeRef_meaning (t : TypeRef) (h : isName t.innerName = true) :
    (ofTypeRef t).render = t.render ∧
    (TypeRef.parse (ofTypeRef t).render).map ofTypeRef =
      (if t.lists ≤ maxNesting then .ok (ofTypeRef t) else .error .tooDeep) ∧
    (ofTypeRef t).unwrap = (ofName t.innerName, t.lists) ∧ (ofTypeRef t).innerName = t.innerName ∧
    (∀ value : Json, value.wrap (ofTypeRef t).unwrap.2 = t.enclose value) ∧
    ∀ type : FieldType, type.unwrap.1.isWrapper = false ∧
      Relation.ReflTransGen (fun before after => strip? before = some after) (type, 0)
        type.unwrap ∧
      strip? type.unwrap = none ∧
      ∀ other : FieldType, type.bare = other.bare →
        type.unwrap = other.unwrap ∧ type.innerName = other.innerName := by
  refine ⟨render_ofTypeRef t, ?_, unwrap_ofTypeRef t, innerName_ofTypeRef t,
    fun value => (enclose_eq_wrap value t).symm, fun type => ?_⟩
  · rw [render_ofTypeRef, parse_render_reference h]
    split <;> rfl
  have hend := isWrapper_unwrap type
  have hstrips := strips_unwrap type 0
  rw [Nat.zero_add] at hstrips
  refine ⟨hend, hstrips, (strip?_eq_none_iff _ _).mpr hend, fun other hsame => ?_⟩
  have hunwrap : type.unwrap = other.unwrap := by
    rw [← unwrap_bare type, hsame, unwrap_bare]
  exact ⟨hunwrap, by rw [innerName_eq, innerName_eq, hunwrap]⟩

/-- A list of lists, with a mark at the inside and one at the outside. -/
theorem ofTypeRef_meaning_matrix :
    let matrix : TypeRef := .nonNullList (.list (.nonNullNamed "Int"))
    isName matrix.innerName = true ∧
    ofTypeRef matrix = .nonNull (.list (.list (.nonNull .int))) ∧
    (TypeRef.parse (ofTypeRef matrix).render).map ofTypeRef = .ok (ofTypeRef matrix) ∧
    (ofTypeRef matrix).unwrap = (.int, 2) := by
  intro matrix
  obtain ⟨-, hread, hunwrap, -⟩ := ofTypeRef_meaning matrix (by decide)
  exact ⟨by decide, rfl, hread, hunwrap⟩

/-- A type with one list too many is printed and not read back. -/
theorem parse_render_too_deep :
    let deep : TypeRef := TypeRef.list^[501] (.named "Int")
    isName deep.innerName = true ∧
    (TypeRef.parse (ofTypeRef deep).render).map ofTypeRef ≠ .ok (ofTypeRef deep) := by
  intro deep
  have hname : isName deep.innerName = true := by decide +kernel
  refine ⟨hname, ?_⟩
  rw [render_ofTypeRef, parse_render_reference hname, if_neg (by decide +kernel)]
  rintro ⟨⟩

end FieldType

end MockGraph
