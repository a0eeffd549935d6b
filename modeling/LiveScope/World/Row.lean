import LiveScope.Json.Printer
import LiveScope.World.Bind

/-!
# Spec rows

A spec row is a JSON object. Binding it to an object binds each of its members that is a text with
live marks, in the order of their names, with the row itself supplying the `@` properties. A member
that cannot be bound fails the whole row, and what was bound before it is released.
-/

namespace LiveScope

variable {γ : Type}

/-- A bound spec row. -/
structure BoundRow where
  /-- The object it is bound to, which it does not keep alive. -/
  scope : ObjectId
  /-- The numbers of the registrations of the members that change. -/
  ids : List Nat
  /-- The values of the members when they were bound. -/
  values : Dict Value

namespace BoundRow

open Act

/-- What keeping a row keeps. -/
def holds (row : BoundRow) : List Hold := row.values.values.flatMap Value.holds

/-- Releases the registrations of a row, if its object is still alive. -/
def undo (row : BoundRow) (m : Model) : Model :=
  if m.isAlive row.scope then row.ids.foldl (fun m id => (m.unbind row.scope id).2) m else m

/-- Releases a row's registrations; its values stay. -/
def unbind (row : BoundRow) (m : Model) : BoundRow × Model := ({ row with ids := [] }, row.undo m)

/-- Gives a row up: its registrations are released and its values are no longer held. -/
def drop (row : BoundRow) (m : Model) : Model := (row.undo m).releaseAll row.holds

/-- Binds the members of a row that follow those bound already. Their values are held. -/
def bindMembers (listen : Listener γ) (callback : CallbackId) (this : Value) :
    List (String × Json) → BoundRow → Act γ BoundRow
  | [], row => return row
  | (name, member) :: members, row => do
    match member.text?.filter fun s => Template.isLive s.toList with
    | none => bindMembers listen callback this members row
    | some src =>
      let bound ← tryCatch
        (Scope.bindTemplate listen row.scope src this ⟨callback, some name⟩)
        fun fault => do
          run (listen (.warning (.member name fault)))
          run (·.mapModel row.drop)
          throw fault
      run (·.mapModel (·.holdAll bound.value.holds))
      bindMembers listen callback this members
        { row with
          ids := row.ids ++ bound.id.toList
          values := row.values.insert name bound.value }

/-- Binds a row to an object and holds the values of its members. -/
def bind (listen : Listener γ) (o : ObjectId) (json : Json) (callback : CallbackId) :
    Act γ BoundRow := do
  match json with
  | .object members =>
    let this ← edit (modifyGet (·.ofJson json))
    holding (.object o :: this.holds)
      (bindMembers listen callback this members ⟨o, [], Dict.empty⟩)
  | _ => throw (.rowNotObject json.print)

end BoundRow

end LiveScope
