import LiveScope.Proofs.World.Reentrance

/-!
# Clients that keep a journal

A journal shows more than a history: the client notes what it writes and what it is told, each with
the model in which that happens. So it can be said of what was noted at some moment how things were
then, and that nothing was written since. Runs are as those of histories (`Moves`): one operation
follows another, and each is performed with a listener of its own, which may do anything that is a
run again (`Journal.Moves`).
-/

namespace LiveScope

/-- Whether an operation succeeds and tells of a key. -/
def Operation.Tells (op : Operation) (m : Model) (o : ObjectId) (key : String) : Prop :=
  ∃ μ, op.mutation? m o = .ok μ ∧ ∃ a ∈ μ.announcements, a.1 = key

/-- Something that a client notes, with the model in which it happens. -/
inductive Note where
  /-- The client writes an object. -/
  | wrote (o : ObjectId) (op : Operation) (before : Model)
  /-- The client is told something. -/
  | told (notice : Notice) (now : Model)

/-- What a client noted, the latest first. -/
abbrev Journal : Type := List Note

/-- Whether what is noted is a write that tells of a key of an object. -/
def Note.Writes (o : ObjectId) (key : String) : Note → Prop
  | wrote p op before => p = o ∧ op.Tells before o key
  | told .. => False

namespace World

/-- The client notes that it is told something. -/
def hear (n : Notice) (w : World Journal) : World Journal :=
  { w with client := .told n w.model :: w.client }

/-- The client notes that it writes an object. -/
def begin (o : ObjectId) (op : Operation) (w : World Journal) : World Journal :=
  { w with client := .wrote o op w.model :: w.client }

end World

/-- From one world to another by operations, each performed with a listener that goes on in the same
way whenever it is told something. -/
inductive Journal.Moves (Op : Listener Journal → World Journal → World Journal → Prop) :
    World Journal → World Journal → Prop
  | done (w : World Journal) : Moves Op w w
  | next {listen : Listener Journal} {w w' w'' : World Journal}
      (reacts : ∀ n u, Moves Op (u.hear n) (listen n u)) (step : Op listen w w')
      (rest : Moves Op w' w'') : Moves Op w w''

/-- A relation that every operation stays within if its listener does holds over a run. -/
theorem Journal.Moves.within {Op : Listener Journal → World Journal → World Journal → Prop}
    {I : World Journal → World Journal → Prop} (hI : Steady I)
    (h : ∀ listen w w', (∀ n u, I (u.hear n) (listen n u)) → Op listen w w' → I w w')
    {w w' : World Journal} (moves : Moves Op w w') : I w w' := by
  induction moves with
  | done w => exact hI.refl w
  | next _ step _ ih ihrest => exact hI.trans (h _ _ _ ih step) ihrest

end LiveScope
