import SchemaBinding.Json.Quoted

/-!
# Deprecations in schema documents

A deprecation is printed as a directive.  Its reason is left out where it is
the one that a reader supplies anyway.
-/

namespace SchemaBinding.Sdl

/-- The reason a deprecation has when none is given. -/
def defaultReason : String :=
  "No longer supported"

/-- The directive of a deprecation, with the blank before it. -/
def deprecationMark : Option String → String
  | none => ""
  | some reason =>
    if reason = defaultReason then " @deprecated"
    else " @deprecated(reason: " ++ Json.quote reason ++ ")"

end SchemaBinding.Sdl
