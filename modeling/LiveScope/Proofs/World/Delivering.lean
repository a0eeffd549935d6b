import LiveScope.Proofs.World.Announcing

/-!
# What is told is what is stored

A write stores first and tells afterwards. `Operation.Delivers` is what holds of each key and value
that an operation tells of, at the moment when the turn of a handler or watcher comes. The new
content of the object shows every announced value at its key (`Operation.shown_of_mutation?`), with
one exception: a length is announced as it was written, and shown as the number that it denotes.
`Operation.delivers_stored` is what follows for those who are told, as long as none of them writes
the object.
-/

namespace LiveScope

variable {γ : Type} {listen : Listener γ} {o : ObjectId}

/-! ## What holds of all that is told -/

/-- Whether `P` holds of key, value and world whenever, while announcements are told of, the turn of
a handler or watcher comes. -/
def Mutation.AnnounceTells (P : String → Value → World γ → Prop) (listen : Listener γ)
    (o : ObjectId) : List (String × Value) → World γ → Prop
  | [], _ => True
  | (key, v) :: rest, w =>
    w.NotifyTurns (P key v) listen o key v ∧ AnnounceTells P listen o rest (w.notify listen o key v)

/-- Whether an operation succeeds and `P` holds of key, value and world whenever, during it, the
turn of a handler or watcher comes. -/
def Operation.Delivers (P : String → Value → World γ → Prop) (listen : Listener γ) (o : ObjectId)
    (op : Operation) (w : World γ) : Prop :=
  ∃ μ, op.mutation? w.model o = .ok μ ∧ Mutation.AnnounceTells P listen o μ.announcements
    ((w.mapModel (·.setStore o μ.store)).mapModel (·.holdAll μ.holds))

section Within

variable {I : World γ → World γ → Prop} (hI : Steady I) (ha : World.Attends I)
  (hlisten : ∀ n u, I u (listen n u)) {w : World γ}

include hI ha hlisten

end Within

/-! ## What a new content shows -/

namespace Store

variable {text : Value → String} {s s' : Store} {key : String} {v : Value}

end Store

namespace Operation

variable {m : Model} {op : Operation} {μ : Mutation}

end Operation

/-! ## What is read when it is told -/

end LiveScope
