import MockGraph.Syntax.Document
import MockGraph.Syntax.Token

/-!
# `Syntax/Parser`: documents from lexemes

One function for each production of the grammar of October 2021, with three liberties: a `schema`
definition may do without its braces, an entry for a root type may end after its colon, and the
extension of a schema by directives may have nothing in its braces.

A parser takes lexemes from the front of a list; `Parser.loop` repeats one and is bounded by the
number of lexemes there are. Commas are passed over except where a reader has to look ahead: between
an alias and its colon, after three dots, after the description of a definition and after `extend`.

Types, values and selection sets nest. All of them count down the levels that are left of
`maxNesting`, so no document is deeper than that.

`Document.parse` reads a whole text. A document has at least one definition. Descriptions may stand
before definitions of a type system only, and an extension has to extend something.
-/

set_option autoImplicit false

namespace MockGraph.Syntax

/-- Takes lexemes from the front of a list. -/
abbrev Parser (α : Type) := StateT (List Lexeme) (Except SyntaxError) α

/-- How many selection sets, items of list values, fields of object values and list types may stand
inside each other. -/
def maxNesting : Nat := 500

/-- The failure to find something in front of the given lexemes. -/
def SyntaxError.missing (what : String) (lexemes : List Lexeme) : SyntaxError :=
  .expected what (lexemes.head?.map (·.token))

namespace Parser

/-! ## 1. Single tokens and repetition -/

/-- The failure to find something at the front. -/
def missing {α : Type} (what : String) : Parser α := fun lexemes => .error (.missing what lexemes)

/-- The failure to go one level deeper. -/
def tooDeep {α : Type} : Parser α := fun _ => .error .tooDeep

/-- The next token, left in place. -/
def peek : Parser (Option Token) := fun lexemes => .ok (lexemes.head?.map (·.token), lexemes)

/-- Whether commas stand in front of the next token. -/
def atComma : Parser Bool := fun lexemes => .ok (lexemes.head?.any (·.afterComma), lexemes)

/-- Refuses commas in front of the next token. -/
def noComma : Parser Unit := fun lexemes =>
  if lexemes.head?.any (·.afterComma) then .error .comma else .ok ((), lexemes)

/-- Takes a punctuator. -/
def punct (p : Punctuator) : Parser Unit := fun lexemes =>
  match lexemes with
  | ⟨.punct q, _⟩ :: rest =>
    if q = p then .ok ((), rest) else .error (.missing ("\"" ++ p.text ++ "\"") lexemes)
  | _ => .error (.missing ("\"" ++ p.text ++ "\"") lexemes)

/-- Takes a punctuator if it is next. -/
def punct? (p : Punctuator) : Parser Bool := fun lexemes =>
  match lexemes with
  | ⟨.punct q, _⟩ :: rest => if q = p then .ok (true, rest) else .ok (false, lexemes)
  | _ => .ok (false, lexemes)

/-- Takes a name. -/
def name (what : String) : Parser Name := fun lexemes =>
  match lexemes with
  | ⟨.name text, _⟩ :: rest => .ok (text, rest)
  | _ => .error (.missing what lexemes)

/-- Takes a name if one is next. -/
def name? : Parser (Option Name) := fun lexemes =>
  match lexemes with
  | ⟨.name text, _⟩ :: rest => .ok (some text, rest)
  | _ => .ok (none, lexemes)

/-- Takes a keyword. -/
def keyword (word : String) : Parser Unit := fun lexemes =>
  match lexemes with
  | ⟨.name text, _⟩ :: rest =>
    if text = word then .ok ((), rest) else .error (.missing word lexemes)
  | _ => .error (.missing word lexemes)

/-- Takes a keyword if it is next. -/
def keyword? (word : String) : Parser Bool := fun lexemes =>
  match lexemes with
  | ⟨.name text, _⟩ :: rest => if text = word then .ok (true, rest) else .ok (false, lexemes)
  | _ => .ok (false, lexemes)

/-- Whether a punctuator is next. -/
def atPunct (p : Punctuator) : Parser Bool := fun lexemes =>
  .ok (lexemes.head?.map (·.token) = some (.punct p), lexemes)

/-- Takes items as long as `more` holds before the next one, at most `fuel` of them. -/
def loop {α : Type} (more : Parser Bool) (item : Parser α) : Nat → Parser (List α)
  | 0 => pure []
  | fuel + 1 => do
    if ← more then
      let first ← item
      let rest ← loop more item fuel
      return first :: rest
    else return []

/-- Takes items as long as `more` holds before the next one. Each item has to take a token. -/
def repeated {α : Type} (more : Parser Bool) (item : Parser α) : Parser (List α) := fun lexemes =>
  loop more item lexemes.length lexemes

/-- Items up to a closing punctuator, which is taken too. -/
def itemsUntil {α : Type} (close : Punctuator) (item : Parser α) : Parser (List α) := do
  let items ← repeated (return !(← atPunct close)) item
  punct close
  return items

/-- One or more items between two punctuators. -/
def enclosed {α : Type} (opening closing : Punctuator) (item : Parser α) : Parser (List α) := do
  punct opening
  let first ← item
  let rest ← itemsUntil closing item
  return first :: rest

/-- Like `enclosed`, but nothing at all if the opening punctuator is not next. -/
def enclosed? {α : Type} (opening closing : Punctuator) (item : Parser α) : Parser (List α) := do
  if ← atPunct opening then enclosed opening closing item else return []

/-- One or more items with a punctuator between them, and possibly one before the first. -/
def separated {α : Type} (separator : Punctuator) (item : Parser α) : Parser (List α) := do
  let _ ← punct? separator
  let first ← item
  let rest ← repeated (punct? separator) item
  return first :: rest

/-! ## 2. Types -/

/-- The end of a named or list type: it may be marked as non-null. -/
def marked (type : TypeRef) : List Lexeme → TypeRef × List Lexeme
  | ⟨.punct .bang, _⟩ :: rest => (type.nonNull, rest)
  | rest => (type, rest)

/-- Closes the lists that are open around a type. -/
def closeLists : Nat → TypeRef → Parser TypeRef
  | 0, type => fun lexemes => .ok (marked type lexemes)
  | depth + 1, type => fun lexemes =>
    let (type, rest) := marked type lexemes
    match rest with
    | ⟨.punct .closeBracket, _⟩ :: rest => closeLists depth (.list type) rest
    | rest => .error (.missing "\"]\"" rest)

/-- A type with `depth` lists open around it. -/
def openLists (depth : Nat) : List Lexeme → Except SyntaxError (TypeRef × List Lexeme)
  | ⟨.punct .openBracket, _⟩ :: rest =>
    if depth < maxNesting then openLists (depth + 1) rest else .error .tooDeep
  | ⟨.name text, _⟩ :: rest => closeLists depth (.named text) rest
  | lexemes => .error (.missing "a type" lexemes)

/-- A reference to a type. -/
def typeRef : Parser TypeRef := openLists 0

/-! ## 3. Values, arguments and directives -/

/-- A field of an object literal. -/
def objectField (value : Parser Value) : Parser (Name × Value) := do
  let field ← name "a field name"
  punct .colon
  return (field, ← value)

/-- The value that a name stands for. -/
def Value.ofName : Name → Value
  | "true" => .boolean true
  | "false" => .boolean false
  | "null" => .null
  | name => .enum name

/-- A value in which the items of lists and the values of fields are taken by `inner`. There are no
variables in one that is to be constant. -/
def valueWith (constant : Bool) (inner : Parser Value) : Parser Value := fun lexemes =>
  match lexemes with
  | ⟨.punct .dollar, _⟩ :: ⟨.name text, _⟩ :: rest =>
    if constant then .error (.missing "a constant" lexemes) else .ok (.var text, rest)
  | ⟨.int numeral, _⟩ :: rest => .ok (.int numeral, rest)
  | ⟨.float numeral, _⟩ :: rest => .ok (.float numeral, rest)
  | ⟨.string value, _⟩ :: rest => .ok (.string value, rest)
  | ⟨.blockString value, _⟩ :: rest => .ok (.string value, rest)
  | ⟨.name text, _⟩ :: rest => .ok (Value.ofName text, rest)
  | ⟨.punct .openBracket, _⟩ :: rest => do
    let (items, rest) ← itemsUntil .closeBracket inner rest
    return (.list items, rest)
  | ⟨.punct .openBrace, _⟩ :: rest => do
    let (fields, rest) ← itemsUntil .closeBrace (objectField inner) rest
    return (.object fields, rest)
  | _ => .error (.missing "a value" lexemes)

/-- A value inside which there are at most `depth` levels. -/
def valueAt (constant : Bool) : Nat → Parser Value
  | 0 => valueWith constant tooDeep
  | depth + 1 => valueWith constant (valueAt constant depth)

/-- A named argument. -/
def argument (constant : Bool) (depth : Nat) : Parser Argument := do
  let (name, value) ← objectField (valueAt constant depth)
  return ⟨name, value⟩

/-- Arguments in parentheses, if there are any. -/
def arguments (constant : Bool) (depth : Nat) : Parser (List Argument) :=
  enclosed? .openParen .closeParen (argument constant depth)

def directive (constant : Bool) (depth : Nat) : Parser Directive := do
  punct .atSign
  let directive ← name "a directive name"
  return ⟨directive, ← arguments constant depth⟩

/-- Any number of directives where at most `depth` levels are left. -/
def directivesAt (constant : Bool) (depth : Nat) : Parser (List Directive) :=
  repeated (atPunct .atSign) (directive constant depth)

/-- Any number of directives outside all selection sets. -/
def directives (constant : Bool) : Parser (List Directive) := directivesAt constant maxNesting

/-! ## 4. Selections -/

/-- A field where at most `depth` levels are left. The parser `nested` takes selection sets. -/
def field (depth : Nat) (nested : Parser (List Selection)) : Parser Selection := do
  let first ← name "a field name"
  let aliased ← if ← atComma then pure false else punct? .colon
  let field ← if aliased then name "a field name" else pure first
  let arguments ← arguments false depth
  let directives ← directivesAt false depth
  let selections ← if ← atPunct .openBrace then nested else pure []
  return .field (if aliased then some first else none) field arguments directives selections

/-- What follows three dots: the name of a fragment, or an inline fragment. -/
def afterEllipsis (depth : Nat) (nested : Parser (List Selection)) : Parser Selection := do
  noComma
  match ← name? with
  | some "on" =>
    let condition ← name "a type name"
    let directives ← directivesAt false depth
    return .inline (some condition) directives (← nested)
  | some fragment => return .spread fragment (← directivesAt false depth)
  | none =>
    let directives ← directivesAt false depth
    return .inline none directives (← nested)

/-- One entry of a selection set. -/
def selection (depth : Nat) (nested : Parser (List Selection)) : Parser Selection := do
  if ← punct? .ellipsis then afterEllipsis depth nested else field depth nested

/-- A selection set with at most `depth` levels, itself included. -/
def selectionSetAt : Nat → Parser (List Selection)
  | 0 => tooDeep
  | depth + 1 => enclosed .openBrace .closeBrace (selection depth (selectionSetAt depth))

/-- A selection set: one or more entries in braces. -/
def selectionSet : Parser (List Selection) := selectionSetAt maxNesting

/-! ## 5. Executable definitions -/

def default? : Parser (Option Value) := do
  if ← punct? .equals then return some (← valueAt true maxNesting) else return none

/-- The declaration of a variable. -/
def variableDefinition : Parser VariableDefinition := do
  punct .dollar
  let declared ← name "a variable name"
  punct .colon
  let type ← typeRef
  let default ← default?
  return ⟨declared, type, default, ← directives true⟩

/-- An operation after its keyword. -/
def operation (kind : OperationKind) : Parser Operation := do
  let operation ← name?
  let declared ← enclosed? .openParen .closeParen variableDefinition
  let directives ← directives false
  return ⟨kind, operation, declared, directives, ← selectionSet⟩

/-- A fragment after its keyword. Its name is not `on`. -/
def fragment : Parser Fragment := do
  let fragment ← name "a fragment name"
  if fragment = "on" then missing "a fragment name"
  keyword "on"
  let condition ← name "a type name"
  let directives ← directives false
  return ⟨fragment, condition, directives, ← selectionSet⟩

/-! ## 6. Type system definitions -/

def description? : Parser (Option String) := fun lexemes =>
  match lexemes with
  | ⟨.string text, _⟩ :: rest => .ok (some text, rest)
  | ⟨.blockString text, _⟩ :: rest => .ok (some text, rest)
  | _ => .ok (none, lexemes)

/-- An argument definition or a field of an input object. -/
def inputValue : Parser InputValue := do
  let description ← description?
  let input ← name "an argument or field name"
  punct .colon
  let type ← typeRef
  let default ← default?
  return ⟨description, input, type, default, ← directives true⟩

/-- A field of an object or interface. -/
def fieldDefinition : Parser FieldDefinition := do
  let description ← description?
  let field ← name "a field name"
  let arguments ← enclosed? .openParen .closeParen inputValue
  punct .colon
  let type ← typeRef
  return ⟨description, field, arguments, type, ← directives true⟩

/-- A member of an enum; three names are taken by other values. -/
def enumValue : Parser EnumValue := do
  let description ← description?
  let member ← name "an enum value"
  if ["true", "false", "null"].contains member then missing "an enum value"
  return ⟨description, member, ← directives true⟩

/-- The interfaces that a type implements. -/
def interfaces : Parser (List Name) := do
  if ← keyword? "implements" then separated .ampersand (name "an interface name") else return []

/-- The members of a union. -/
def members : Parser (List Name) := do
  if ← punct? .equals then separated .pipe (name "a type name") else return []

/-- An entry for a root type of a schema. One that ends after its colon is empty. -/
def root : Parser (Option (OperationKind × Name)) := do
  let word ← name "a kind of operation"
  match OperationKind.ofKeyword? word with
  | none => missing "a kind of operation"
  | some kind =>
    punct .colon
    let type? ← name?
    return type?.map (kind, ·)

/-- The fields of an object or interface, if there are any. -/
def fields : Parser (List FieldDefinition) := enclosed? .openBrace .closeBrace fieldDefinition

/-- A type after its keyword. -/
def typeDefinition (description : Option String) (word : String) :
    Parser (Option TypeDefinition) := do
  match word with
  | "scalar" =>
    let type ← name "a type name"
    return some ⟨description, type, ← directives true, .scalar⟩
  | "type" | "interface" =>
    let type ← name "a type name"
    let interfaces ← interfaces
    let directives ← directives true
    let fields ← fields
    let body := if word = "type" then TypeBody.object interfaces fields
      else .interface interfaces fields
    return some ⟨description, type, directives, body⟩
  | "union" =>
    let type ← name "a type name"
    let directives ← directives true
    return some ⟨description, type, directives, .union (← members)⟩
  | "enum" =>
    let type ← name "a type name"
    let directives ← directives true
    return some ⟨description, type, directives,
      .enum (← enclosed? .openBrace .closeBrace enumValue)⟩
  | "input" =>
    let type ← name "a type name"
    let directives ← directives true
    return some ⟨description, type, directives,
      .inputObject (← enclosed? .openBrace .closeBrace inputValue)⟩
  | _ => return none

/-- A place where a directive may stand. -/
def location : Parser DirectiveLocation := do
  let word ← name "a directive location"
  match DirectiveLocation.ofName? word with
  | some location => return location
  | none => missing "a directive location"

/-- The definition of a directive after its keyword. -/
def directiveDefinition (description : Option String) : Parser DirectiveDefinition := do
  punct .atSign
  let directive ← name "a directive name"
  let arguments ← enclosed? .openParen .closeParen inputValue
  let repeatable ← keyword? "repeatable"
  keyword "on"
  return ⟨description, directive, arguments, repeatable, ← separated .pipe location⟩

/-- Whether an extension of a type adds anything. -/
def extendsSomething (type : TypeDefinition) : Bool :=
  !type.directives.isEmpty || match type.body with
    | .scalar => false
    | .object interfaces fields | .interface interfaces fields =>
      !interfaces.isEmpty || !fields.isEmpty
    | .union members => !members.isEmpty
    | .enum values => !values.isEmpty
    | .inputObject fields => !fields.isEmpty

/-- The entries for root types that an extension of a schema adds. -/
def addedRoots : Parser (List (Option (OperationKind × Name))) := do
  if ← punct? .openBrace then itemsUntil .closeBrace root else return []

/-- An extension after its keyword. -/
def extension : Parser Definition := do
  noComma
  let word ← name "a kind of definition"
  if word = "schema" then
    let directives ← directives true
    let roots ← addedRoots
    if directives.isEmpty && roots.isEmpty then missing "something to extend"
    return .extendSchema ⟨directives, roots.filterMap id⟩
  else match ← typeDefinition none word with
    | none => missing "a kind of definition"
    | some type =>
      if !extendsSomething type then missing "something to extend"
      return .extendType type

/-! ## 7. Documents -/

/-- A definition of a type system after its keyword. -/
def typeSystemDefinition (description : Option String) (word : String) : Parser Definition := do
  if word = "schema" then
    let directives ← directives true
    let roots ← enclosed? .openBrace .closeBrace root
    return .schema ⟨directives, roots.filterMap id⟩
  else if word = "directive" then return .directive (← directiveDefinition description)
  else match ← typeDefinition description word with
    | some type => return .type type
    | none => missing "a definition"

/-- A definition that has no description. -/
def undescribed (word : String) : Parser Definition := do
  if word = "fragment" then return .fragment (← fragment)
  else if word = "extend" then extension
  else match OperationKind.ofKeyword? word with
    | some kind => return .operation (← operation kind)
    | none => typeSystemDefinition none word

def definition : Parser Definition := do
  if ← atPunct .openBrace then
    return .operation ⟨.query, none, [], [], ← selectionSet⟩
  else
    match ← description? with
    | none => undescribed (← name "a definition")
    | some text =>
      noComma
      typeSystemDefinition (some text) (← name "a definition")

/-- One or more definitions up to the end. -/
def document : Parser Document := do
  let first ← definition
  let rest ← repeated (return (← peek).isSome) definition
  return first :: rest

end Parser

/-- The document that a list of lexemes spells. -/
def Document.ofLexemes (lexemes : List Lexeme) : Except SyntaxError Document := do
  let (document, rest) ← Parser.document lexemes
  match rest with
  | [] => return document
  | rest => throw (.missing "the end" rest)

/-- Reads a text that is a document. -/
def Document.parse (text : String) : Except SyntaxError Document := do
  Document.ofLexemes (← Lexeme.scan text)

/-- Reads a text that is a reference to a type. -/
def TypeRef.parse (text : String) : Except SyntaxError TypeRef := do
  let (type, rest) ← Parser.typeRef (← Lexeme.scan text)
  match rest with
  | [] => return type
  | rest => throw (.missing "the end" rest)

end MockGraph.Syntax
