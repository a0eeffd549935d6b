import LiveScope.Expr.Basic

/-!
# The fields of an expression

The names an expression reads from its scope, relative to the scope object: `$name` and `name` are
the field `name` of the object itself, and each further sigil stays and leads one scope up. A bare
run of sigils refers to a scope as a whole and is no field; neither is a member of the spec row.
-/

namespace LiveScope

/-- The field that a scope reference reads, with one sigil dropped. -/
def ScopedName.field? (r : ScopedName) : Option ScopedName :=
  if r.name.isEmpty then none else some ⟨r.sigils - 1, r.name⟩

/-- A reference with a name reads a field. -/
theorem ScopedName.field?_of_name {r : ScopedName} (h : r.name ≠ "") :
    r.field? = some ⟨r.sigils - 1, r.name⟩ :=
  if_neg fun hempty => h (String.isEmpty_iff.1 hempty)

/-- The fields read by the references in an expression, from left to right. -/
def Expr.references : Expr → List ScopedName
  | literal _ | property _ => []
  | reference n => n.field?.toList
  | unary _ e => e.references
  | binary _ l r => l.references ++ r.references

/-- The given names in ascending order of their texts, each once. -/
def ScopedName.sorted (names : List ScopedName) : List ScopedName :=
  (Dict.ofList (names.map fun n => (n.text, n))).values

/-- The fields of an expression in ascending order, each once. -/
def Expr.fields (e : Expr) : List ScopedName := ScopedName.sorted e.references

end LiveScope
