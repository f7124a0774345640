/-!
# `Validation/Rule`: which checks run before a generation

There are two checks, of the schema and of the document. A list of rules names those that run; how
often and in which order it names them makes no difference to what is checked.
-/

set_option autoImplicit false

namespace MockGraph

/-- A check before a generation. -/
inductive Rule where
  /-- The schema is well formed. -/
  | schema
  /-- The document is valid against the schema. -/
  | document
  deriving DecidableEq

/-- The checks that run. -/
abbrev Rules := List Rule

/-- Every check. -/
def Rules.all : Rules := [.schema, .document]

end MockGraph
