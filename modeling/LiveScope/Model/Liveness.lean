import LiveScope.Model.Basic

/-!
# Which objects are alive

An object lives as long as something that lives refers to it: a hold from outside, a value in the
store of a living object, the spec row of a formula connected to one, or a deep watch that a living
object's binding uses. Objects that refer to each other in a circle keep each other alive. The links
from a binding to its enclosing scope, from a registration to the objects it would release and from
a formula to its scope do not count.

`Model.living` computes the largest set of objects each of which is referred to from the set or held
from outside, by taking out of all objects those that nothing refers to until none is left.
`mem_referred_of_mem_living` says that every object in it is so referred to, `subset_living` that
every such set is part of it.
-/

namespace LiveScope

mutual

/-- The objects in a tree of watched objects. -/
def WatchTree.objects : WatchTree → List ObjectId
  | .node o _ children => o :: objectsOfChildren children

/-- The objects in several trees of watched objects. -/
def WatchTree.objectsOfChildren : List (String × WatchTree) → List ObjectId
  | [] => []
  | (_, tree) :: rest => tree.objects ++ objectsOfChildren rest

end

/-- The deep watch that a handler uses. -/
def Handler.deep? : Handler → Option DeepId
  | follow id => some id
  | _ => none

/-- The deep watches that a binding uses. -/
def Binding.deeps (b : Binding) : List DeepId :=
  b.connections.filterMap (·.handler.deep?) ++ b.registrations.filterMap (·.deep)

namespace Model

/-- The objects that a deep watch refers to. -/
def deepObjects (m : Model) (id : DeepId) : List ObjectId := (m.tree? id).elim [] (·.objects)

/-- The objects that a handler refers to. -/
def handlerObjects (m : Model) : Handler → List ObjectId
  | .report _ => []
  | .recompute _ formula => formula.row.object?.toList
  | .follow id => m.deepObjects id

/-- The objects that an object refers to. -/
def references (m : Model) (o : ObjectId) : List ObjectId :=
  (m.store o).values.filterMap Value.object? ++
    (m.binding? o).elim [] fun b =>
      b.connections.flatMap (m.handlerObjects ·.handler) ++
        b.registrations.flatMap fun r => r.deep.elim [] m.deepObjects

/-- The objects that are held from outside. -/
def heldObjects (m : Model) : List ObjectId :=
  m.holds.flatMap fun
    | .object o => [o]
    | .deep id => m.deepObjects id

/-- What is held or what a member of a set of objects refers to. -/
def referred (m : Model) (set : List ObjectId) : List ObjectId :=
  m.heldObjects ++ set.flatMap m.references

/-- Takes out of a set of objects, up to `fuel` times, those that are not held and that no member
of the set refers to. -/
def survivors (m : Model) : Nat → List ObjectId → List ObjectId
  | 0, set => set
  | fuel + 1, set =>
    let next := set.filter (m.referred set).contains
    if next.length = set.length then set else survivors m fuel next

/-- The objects that are alive. Every round but the last takes out an object, so there are no more
rounds than objects. -/
def living (m : Model) : List ObjectId :=
  m.survivors m.objects.size (List.range m.objects.size)

/-- What survives is held or referred to by what survives, given a round for every object. -/
theorem mem_referred_of_mem_survivors {m : Model} {fuel : Nat} {set : List ObjectId}
    (hfuel : set.length ≤ fuel) {o : ObjectId} (h : o ∈ m.survivors fuel set) :
    o ∈ m.referred (m.survivors fuel set) := by
  fun_induction survivors m fuel set with
  | case1 set =>
    rw [List.length_eq_zero_iff.1 (Nat.le_zero.1 hfuel)] at h
    simp at h
  | case2 fuel set next hlen =>
    have hall := List.length_filter_eq_length_iff.1 hlen
    simpa using hall o h
  | case3 fuel set next hlen ih =>
    have := List.length_filter_le (m.referred set).contains set
    exact ih (by grind) h

/-- A set survives if each of its members is held or referred to from the set. -/
theorem subset_survivors {m : Model} {fuel : Nat} {set kept : List ObjectId}
    (hkept : ∀ o ∈ kept, o ∈ m.referred kept) (h : ∀ o ∈ kept, o ∈ set) :
    ∀ o ∈ kept, o ∈ m.survivors fuel set := by
  fun_induction survivors m fuel set with
  | case1 => exact h
  | case2 => exact h
  | case3 fuel set next _ ih =>
    refine ih fun o ho => List.mem_filter.2 ⟨h o ho, ?_⟩
    have hmem := hkept o ho
    simp only [referred, List.mem_append, List.mem_flatMap] at hmem
    simp only [List.contains_eq_mem, decide_eq_true_eq, referred, List.mem_append,
      List.mem_flatMap]
    exact hmem.imp_right fun ⟨p, hp, hop⟩ => ⟨p, h p hp, hop⟩

/-- What is alive is held or referred to by what is alive. -/
theorem mem_referred_of_mem_living {m : Model} {o : ObjectId} (h : o ∈ m.living) :
    o ∈ m.referred m.living :=
  mem_referred_of_mem_survivors (by simp) h

/-- Objects are alive if each of them is held or referred to from among them. -/
theorem subset_living {m : Model} {kept : List ObjectId}
    (hkept : ∀ o ∈ kept, o ∈ m.referred kept) (h : ∀ o ∈ kept, o < m.objects.size) :
    ∀ o ∈ kept, o ∈ m.living :=
  subset_survivors hkept fun o ho => List.mem_range.2 (h o ho)

/-- Whether an object is alive. -/
def isAlive (m : Model) (o : ObjectId) : Bool := m.living.contains o

/-- Whether a deep watch is alive: held, or used by the binding of a living object. -/
def isDeepAlive (m : Model) (id : DeepId) : Bool :=
  m.holds.contains (.deep id) ||
    m.living.any fun o => (m.binding? o).any (·.deeps.contains id)

end Model

/-- What holding a handler holds. -/
def Handler.holds : Handler → List Hold
  | report _ => []
  | recompute _ formula => formula.row.holds
  | follow id => [.deep id]

end LiveScope
