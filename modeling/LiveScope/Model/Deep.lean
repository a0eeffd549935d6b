import LiveScope.Model.Subscribe

/-!
# Deep watches

A deep watch follows a property and everything inside its value. It keeps a tree of the objects
reached from the value: each node stands for one object and for one watcher on its binding, and its
children, in ascending order of their keys, for the objects at its keys. When a watched object
changes, only the part of the tree below the changed key is taken down and built again.

Building a tree watches the children first, in the order of their keys. If an object lies too deep,
building stops there, and what is watched by then stays watched though it belongs to no tree.
-/

namespace LiveScope

namespace WatchTree

/-- The object of the root. -/
def object : WatchTree → ObjectId
  | node o _ _ => o

/-- The number of the root's watcher. -/
def watcher : WatchTree → Nat
  | node _ w _ => w

/-- The trees below the root. -/
def children : WatchTree → List (String × WatchTree)
  | node _ _ children => children

mutual

/-- The watchers of a tree, each with its object. -/
def watchers : WatchTree → List (ObjectId × Nat)
  | node o w children => (o, w) :: watchersOfChildren children

/-- The watchers of several trees. -/
def watchersOfChildren : List (String × WatchTree) → List (ObjectId × Nat)
  | [] => []
  | (_, tree) :: rest => tree.watchers ++ watchersOfChildren rest

end

mutual

/-- The node of a watcher on an object, with its depth; the root has depth `depth`. -/
def find? (o : ObjectId) (w : Nat) (depth : Nat) : WatchTree → Option (Nat × WatchTree)
  | node o' w' children =>
    if o' = o ∧ w' = w then some (depth, node o' w' children)
    else findInChildren? o w (depth + 1) children

/-- The node of a watcher in one of several trees. -/
def findInChildren? (o : ObjectId) (w : Nat) (depth : Nat) :
    List (String × WatchTree) → Option (Nat × WatchTree)
  | [] => none
  | (_, tree) :: rest =>
    match tree.find? o w depth with
    | some found => some found
    | none => findInChildren? o w depth rest

end

mutual

/-- The tree with `f` applied to the children of the node of a watcher. -/
def modify (o : ObjectId) (w : Nat) (f : List (String × WatchTree) → List (String × WatchTree)) :
    WatchTree → WatchTree
  | node o' w' children =>
    if o' = o ∧ w' = w then node o' w' (f children)
    else node o' w' (modifyChildren o w f children)

/-- Several trees with `f` applied to the children of the node of a watcher. -/
def modifyChildren (o : ObjectId) (w : Nat)
    (f : List (String × WatchTree) → List (String × WatchTree)) :
    List (String × WatchTree) → List (String × WatchTree)
  | [] => []
  | (key, tree) :: rest => (key, tree.modify o w f) :: modifyChildren o w f rest

end

end WatchTree

namespace Model

/-- Removes the watchers of a tree. -/
def detach (m : Model) (tree : WatchTree) : Model :=
  tree.watchers.foldl (fun m (o, w) => (m.unwatch o w).2) m

/-- Watches an object and everything inside it for a deep watch, at most `levels` objects deep. -/
def attach (id : DeepId) : (levels : Nat) → ObjectId → Edit WatchTree
  | 0, _ => throw .nestedObjects
  | levels + 1, o => do
    let members := ((← get).store o).entries.filterMap fun (key, v) => v.object?.map (key, ·)
    let children ← members.mapM fun (key, child) => do
      modify (·.ensureBinding child)
      return (key, ← attach id levels child)
    let w ← modifyGet (·.watch o (.mend id))
    return .node o w (Dict.ofList children).entries

/-- Takes down the tree of a deep watch. -/
def dropTree (m : Model) (id : DeepId) : Model :=
  ((m.tree? id).elim m m.detach).setTree id none

/-- Moves a deep watch to a new value of its property. If the value is the object watched already,
the tree stays. -/
def retarget (id : DeepId) (v : Value) : Edit Unit := do
  let current := ((← get).tree? id).map (·.object)
  match v with
  | .object o =>
    if current = some o then return
    modify (·.dropTree id)
    modify (·.ensureBinding o)
    let tree ← attach id maxDepth o
    modify (·.setTree id (some tree))
  | _ => modify (·.dropTree id)

/-- The children that lie past the end of a list, and the others. -/
def pastEnd (length : Nat) (children : List (String × WatchTree)) :
    List (String × WatchTree) × List (String × WatchTree) :=
  children.partition fun (key, _) => (Store.index? key).any (length ≤ ·)

/-- Mends the tree of a deep watch after a change of `key` in the object of the watcher `w`: what is
past the end of a list is taken down when its length changes, and otherwise what was at the key,
unless it is still there. A watcher that belongs to no living tree has nothing to mend. -/
def mend (id : DeepId) (o : ObjectId) (w : Nat) (key : String) (v : Value) : Edit Unit := do
  let m ← get
  if !m.isDeepAlive id then return
  match (m.tree? id).bind (·.find? o w 1) with
  | none => return
  | some (depth, node) =>
    let replace (f : List (String × WatchTree) → List (String × WatchTree)) : Edit Unit :=
      modify fun m => m.setTree id ((m.tree? id).map (·.modify o w f))
    if key = Store.lengthKey ∧ (m.store o).isList then
      let (gone, _) := pastEnd (m.store o).size node.children
      replace fun children => (pastEnd (m.store o).size children).2
      modify fun m => gone.foldl (fun m (_, tree) => m.detach tree) m
    else
      let current := node.children.lookup key
      if current.isSome ∧ current.map (·.object) = v.object? then return
      replace fun children => children.filter (·.1 != key)
      modify fun m => current.elim m m.detach
      match v.object? with
      | none => return
      | some child =>
        modify (·.ensureBinding child)
        let tree ← attach id (maxDepth - depth) child
        replace (Dict.insertEntry key tree)

end Model

end LiveScope
