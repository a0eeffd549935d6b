import LiveScope.Proofs.Formula.Fields
import LiveScope.Proofs.Model.Climbing
import LiveScope.World.Controller

/-!
# Paths wire their ancestors

`Controller.bind` reads the segments of a path one after the other and links every object on the way
to the one before it. In data of the shape of a tree an object has one holder, so that a link that
is set again is set to what it was. Hence links are only added (`Model.Wires`), whether a call comes
to the end of its path or not, and whatever proxies are held in between (`Controller.Calls`). Above
the object at the end of a path stand the objects at its shorter starts
(`Model.Anchored.above_eq`), for names and variables alike: `Controller.bind_wires`.
-/

namespace LiveScope

namespace Model

variable {m m' : Model} {root o p : ObjectId} {key : String} {keys : List String}

/-! ## Data of the shape of a tree -/

/-- The object reached by reading keys in turn, if there is an object at each. -/
def walk (m : Model) : ObjectId → List String → Option ObjectId
  | o, [] => some o
  | o, key :: keys => (m.get o key).object?.bind fun p => m.walk p keys

/-- Whether the objects of a model are held by one object each, and the root by none. -/
structure TreeShaped (m : Model) (root : ObjectId) : Prop where
  /-- Objects that are held exist. -/
  whole : m.Whole
  /-- No two objects hold the same one. -/
  holder : ∀ {o o' key key' p}, m.get o key = .object p → m.get o' key' = .object p → o = o'
  /-- The root is held by none. -/
  top : ∀ o key, m.get o key ≠ .object root

/-- Reading one more key. -/
theorem walk_concat (m : Model) (o : ObjectId) (keys : List String) (key : String) :
    m.walk o (keys ++ [key]) =
      (m.walk o keys).bind fun p => (m.get p key).object? := by
  induction keys generalizing o with
  | nil =>
    show ((m.get o key).object?.bind fun p => some p) = (m.get o key).object?
    cases (m.get o key).object? <;> rfl
  | cons k keys ih =>
    show ((m.get o k).object?.bind fun p => m.walk p (keys ++ [key])) = _
    rw [walk, Option.bind_assoc]
    exact Option.bind_congr fun p _ => ih p

/-- The objects at the starts of a path that leads to an object. -/
theorem exists_walk_of_append {before after : List String}
    (h : m.walk o (before ++ after) = some p) :
    ∃ q, m.walk o before = some q ∧ m.walk q after = some p := by
  induction before generalizing o with
  | nil => exact ⟨o, rfl, h⟩
  | cons key before ih =>
    obtain ⟨q, hq, h⟩ := Option.bind_eq_some_iff.1 h
    obtain ⟨r, hr, h⟩ := ih h
    exact ⟨r, Option.bind_eq_some_iff.2 ⟨q, hq, hr⟩, h⟩

/-- A path leads to the same object in models with the same content. -/
theorem walk_congr (h : ∀ o, m'.store o = m.store o) (o : ObjectId) (keys : List String) :
    m'.walk o keys = m.walk o keys := by
  induction keys generalizing o with
  | nil => rfl
  | cons key keys ih =>
    unfold walk Model.get
    rw [h]
    exact Option.bind_congr fun p _ => ih p

/-- An object that is held exists. -/
theorem TreeShaped.lt_size (h : m.TreeShaped root) (hget : m.get o key = .object p) :
    p < m.objects.size :=
  h.whole o p (Store.get_mem_values hget)

/-- An object below the root does not hold itself. -/
theorem TreeShaped.get_ne_self (h : m.TreeShaped root) (hwalk : m.walk root keys = some o)
    (key : String) : m.get o key ≠ .object o := by
  induction keys using List.reverseRecOn generalizing o with
  | nil =>
    obtain rfl := Option.some.inj hwalk
    exact h.top root key
  | append_singleton keys k ih =>
    -- Its holder would be itself, and so would be what is one step up.
    rw [walk_concat] at hwalk
    obtain ⟨q, hq, hget⟩ := Option.bind_eq_some_iff.1 hwalk
    intro hself
    obtain rfl := h.holder hself (Value.object?_eq_some_iff.1 hget)
    exact ih hq hself

/-- The content of a model decides whether it is a tree. -/
theorem TreeShaped.congr (h : m.TreeShaped root) (hsize : m'.objects.size = m.objects.size)
    (hstore : ∀ o, m'.store o = m.store o) : m'.TreeShaped root where
  whole o q hq := by
    rw [hstore] at hq
    rw [hsize]
    exact h.whole o q hq
  holder hget hget' := by
    unfold Model.get at hget hget'
    rw [hstore] at hget hget'
    exact h.holder hget hget'
  top o key hget := by
    unfold Model.get at hget
    rw [hstore] at hget
    exact h.top o key hget

/-- What a living object holds is alive. -/
theorem mem_living_of_get (hwhole : m.Whole) (ho : o ∈ m.living) (hget : m.get o key = .object p) :
    p ∈ m.living := by
  have hvalue := Store.get_mem_values hget
  refine @subset_living m (p :: m.living) (fun q hq => ?_) (fun q hq => ?_) p List.mem_cons_self
  · rcases List.mem_cons.1 hq with rfl | hq
    · refine List.mem_append_right _ (List.mem_flatMap.2 ⟨o, List.mem_cons_of_mem _ ho, ?_⟩)
      exact List.mem_append_left _ (List.mem_filterMap.2 ⟨_, hvalue, rfl⟩)
    · exact referred_mono (fun _ => List.mem_cons_of_mem _) (mem_referred_of_mem_living hq)
  · rcases List.mem_cons.1 hq with rfl | hq
    · exact hwhole o q hvalue
    · exact lt_size_of_mem_living hq

/-- Every object below a living root is alive. -/
theorem mem_living_of_walk (hwhole : m.Whole) (hroot : root ∈ m.living)
    (hwalk : m.walk root keys = some o) : o ∈ m.living := by
  induction keys generalizing root with
  | nil =>
    obtain rfl := Option.some.inj hwalk
    exact hroot
  | cons key keys ih =>
    obtain ⟨p, hp, hwalk⟩ := Option.bind_eq_some_iff.1 hwalk
    exact ih (mem_living_of_get hwhole hroot (Value.object?_eq_some_iff.1 hp)) hwalk

/-! ## Links -/

/-- Whether every link leads to an object that holds the one linked, and all of them to bindings. -/
structure Wired (m : Model) : Prop where
  /-- Links lead to bindings. -/
  linked : m.Linked
  /-- Links lead to holders. -/
  holds : ∀ o p, m.linkOf o = some p → ∃ key, m.get p key = .object o

/-- What wiring the objects on a path comes to: the content stays, and bindings and links are only
added. -/
structure Wires (m m' : Model) : Prop where
  /-- There are as many objects. -/
  size : m'.objects.size = m.objects.size
  /-- The content stays. -/
  store : ∀ o, m'.store o = m.store o
  /-- Bindings stay. -/
  bound : ∀ o, m.isBound o = true → m'.isBound o = true
  /-- Links stay. -/
  links : ∀ o p, m.linkOf o = some p → m'.linkOf o = some p

namespace Wires

/-- Nothing is wired. -/
theorem refl (m : Model) : m.Wires m := ⟨rfl, fun _ => rfl, fun _ => id, fun _ _ => id⟩

/-- One after the other. -/
theorem trans {m'' : Model} (h : m.Wires m') (h' : m'.Wires m'') : m.Wires m'' where
  size := h'.size.trans h.size
  store o := (h'.store o).trans (h.store o)
  bound o := h'.bound o ∘ h.bound o
  links o p := h'.links o p ∘ h.links o p

/-- Holding other things. -/
theorem holds (m : Model) (holds : List Hold) : m.Wires { m with holds } :=
  ⟨rfl, fun _ => rfl, fun _ => id, fun _ _ => id⟩

/-- A tree stays one. -/
theorem treeShaped (h : m.Wires m') (htree : m.TreeShaped root) : m'.TreeShaped root :=
  htree.congr h.size h.store

end Wires

/-- The model with the object at a key wired to the one that holds it. -/
def wire (m : Model) (o p : ObjectId) : Model :=
  (m.ensureBinding p).modifyBinding p fun b => { b with parent := some o }

/-- An object that is wired is linked, and the others are as before. -/
theorem linkOf_wire (hp : p < m.objects.size) (q : ObjectId) :
    (m.wire o p).linkOf q = if q = p then some o else m.linkOf q := by
  unfold wire linkOf
  rw [binding?_modifyBinding, binding?_ensureBinding]
  by_cases hq : q = p
  · subst hq
    rw [if_pos rfl, if_pos ⟨rfl, hp⟩, if_pos rfl]
    rfl
  · rw [if_neg hq, if_neg fun h => hq h.1, if_neg hq]

/-- Wiring gives bindings and takes none. -/
theorem isBound_wire (m : Model) (o p q : ObjectId) :
    (m.wire o p).isBound q = (m.ensureBinding p).isBound q :=
  isBound_modifyBinding _ p _ q

/-- Wiring an object to the one that holds it adds a link. -/
theorem wires_wire (htree : m.TreeShaped root) (hwired : m.Wired)
    (hget : m.get o key = .object p) : m.Wires (m.wire o p) where
  size := (size_modifyObject _ p _).trans (size_modifyObject m p _)
  store q := (store_modifyBinding _ p _ q).trans (store_ensureBinding m p q)
  bound q hq := by
    rw [isBound_wire]
    exact isBound_ensureBinding hq p
  links q r hqr := by
    rw [linkOf_wire (htree.lt_size hget)]
    split
    · rename_i hqp
      subst hqp
      -- The object has one holder, which it was linked to already.
      obtain ⟨k, hk⟩ := hwired.holds q r hqr
      rw [htree.holder hget hk]
    · exact hqr

/-- Wiring an object to the one that holds it keeps links leading to holders. -/
theorem Wired.wire (hwired : m.Wired) (htree : m.TreeShaped root) (ho : m.isBound o = true)
    (hget : m.get o key = .object p) : (m.wire o p).Wired := by
  have hwires := wires_wire htree hwired hget
  have hlinks (q r : ObjectId) (hqr : (m.wire o p).linkOf q = some r) :
      (q = p ∧ r = o) ∨ m.linkOf q = some r := by
    rw [linkOf_wire (htree.lt_size hget)] at hqr
    split at hqr
    · rename_i hqp
      exact .inl ⟨hqp, (Option.some.inj hqr).symm⟩
    · exact .inr hqr
  refine ⟨fun q r hqr => ?_, fun q r hqr => ?_⟩
  · rcases hlinks q r hqr with ⟨_, rfl⟩ | hold
    · exact hwires.bound r ho
    · exact hwires.bound r (hwired.linked q r hold)
  · unfold Model.get
    rw [hwires.store]
    rcases hlinks q r hqr with ⟨rfl, rfl⟩ | hold
    · exact ⟨key, hget⟩
    · exact hwired.holds q r hold

/-- Wiring keeps the same objects alive. -/
theorem mem_living_wire (m : Model) (o p q : ObjectId) :
    q ∈ (m.wire o p).living ↔ q ∈ m.living := by
  rw [← mem_living_ensureBinding m p q]
  have hrefs : ∀ q, (m.wire o p).references q = (m.ensureBinding p).references q := by
    intro q
    unfold references wire
    rw [store_modifyBinding]
    congr 1
    exact elim_modifyBinding (fun b => b.connections.flatMap (m.handlerObjects ·.handler) ++
      b.registrations.flatMap fun r => r.deep.elim [] m.deepObjects) (fun _ => by rfl) [] _ p q
  exact mem_living_congr (size_modifyObject _ p _) (fun _ hr => hr) (fun _ hr => .inl hr)
    (fun q r hr => hrefs q ▸ hr) (fun q r hr => .inl (hrefs q ▸ hr)) q

/-- The object at a key is wired, if there is one. -/
theorem child_of_object (hget : m.get o key = .object p) (hne : o ≠ p) :
    Model.child o key m = (.ok p, m.wire o p) := by
  have hproxy : proxy (.object p) m = (.ok p, m.ensureBinding p) := rfl
  unfold Model.child
  rw [Edit.bind_of_ok (e := get) rfl, hget]
  refine Edit.tryCatch_of_ok ?_
  unfold proxyWithin setParent
  rw [Edit.bind_of_ok hproxy, if_neg fun h => hne (Option.some.inj h)]
  rfl

/-- Nothing is wired if there is no object at a key. -/
theorem child_of_not_object (hget : (m.get o key).object? = none) :
    ∃ fault, Model.child o key m = (.error fault, m) := by
  have hproxy : proxy (m.get o key) m = (.error (.notBindable (m.kind (m.get o key))), m) := by
    unfold proxy
    rw [hget]
    rfl
  refine ⟨.member key (.notBindable (m.kind (m.get o key))), ?_⟩
  unfold Model.child
  rw [Edit.bind_of_ok (e := get) rfl]
  refine (Edit.tryCatch_of_error (e := proxyWithin (m.get o key) o) ?_).trans rfl
  unfold proxyWithin
  exact Edit.bind_of_error hproxy

/-! ## Paths -/

/-- Whether every object on a path is linked to the one before it. -/
def Anchored (m : Model) : ObjectId → List String → Prop
  | _, [] => True
  | o, key :: keys => ∀ p, m.get o key = .object p → m.linkOf p = some o ∧ m.Anchored p keys

/-- Links that are added leave a path anchored. -/
theorem Anchored.wires (hwires : m.Wires m') (h : m.Anchored o keys) : m'.Anchored o keys := by
  induction keys generalizing o with
  | nil => trivial
  | cons key keys ih =>
    intro p hget
    unfold Model.get at hget
    rw [hwires.store] at hget
    obtain ⟨hlink, hrest⟩ := h p hget
    exact ⟨hwires.links p o hlink, ih hrest⟩

/-- The last object on an anchored path is linked to the one before it. -/
theorem Anchored.concat (h : m.Anchored o (keys ++ [key])) :
    m.Anchored o keys ∧ ∀ p q, m.walk o keys = some p → m.get p key = .object q →
      m.linkOf q = some p := by
  induction keys generalizing o with
  | nil =>
    refine ⟨trivial, fun p q hp hq => ?_⟩
    obtain rfl := Option.some.inj hp
    exact (h q hq).1
  | cons k keys ih =>
    refine ⟨fun p hget => ⟨(h p hget).1, (ih (h p hget).2).1⟩, fun p q hp hq => ?_⟩
    obtain ⟨r, hr, hp⟩ := Option.bind_eq_some_iff.1 hp
    exact (ih (h r (Value.object?_eq_some_iff.1 hr)).2).2 p q hp hq

/-- A link to a living object encloses. -/
theorem enclosing?_of_linkOf (hlinked : m.Linked) (hlink : m.linkOf o = some p)
    (halive : p ∈ m.living) : m.enclosing? o = some p := by
  have hparent : m.parent? o = some p := by
    show (m.linkOf o).filter _ = some p
    rw [hlink, Option.filter_some, hlinked o p hlink]
    unfold isAlive
    simp [halive]
  unfold enclosing?
  rw [hparent]
  rfl

/-- Above the object at the end of an anchored path stand the objects at its starts. -/
theorem Anchored.above_eq (h : m.Anchored root keys) (hlinked : m.Linked) (hwhole : m.Whole)
    (hroot : root ∈ m.living) (hwalk : m.walk root keys = some o) {hops : Nat}
    (hle : hops ≤ keys.length) :
    m.above hops o = m.walk root (keys.take (keys.length - hops)) := by
  induction keys using List.reverseRecOn generalizing o hops with
  | nil =>
    obtain rfl := Nat.le_zero.1 hle
    exact hwalk.symm
  | append_singleton keys key ih =>
    cases hops with
    | zero =>
      rw [Nat.sub_zero, List.take_length]
      exact hwalk.symm
    | succ hops =>
      obtain ⟨hbelow, hlast⟩ := h.concat
      rw [walk_concat] at hwalk
      obtain ⟨p, hp, hget⟩ := Option.bind_eq_some_iff.1 hwalk
      have hlink := hlast p o hp (Value.object?_eq_some_iff.1 hget)
      have halive := mem_living_of_walk hwhole hroot hp
      rw [List.length_append, List.length_singleton] at hle ⊢
      have hlast : keys.length + 1 - (hops + 1) = keys.length - hops := by omega
      rw [above, enclosing?_of_linkOf hlinked hlink halive, Option.bind_some,
        ih hbelow hp (Nat.le_of_succ_le_succ hle), hlast,
        List.take_append_of_le_length (Nat.sub_le _ _)]

/-- What following a path from an object comes to: links and bindings are added, and the object at
its end is found with the whole path anchored, if there is one. -/
structure Descends (m : Model) (o : ObjectId) (keys : List String)
    (run : Except Fault ObjectId × Model) : Prop where
  /-- Links and bindings are added. -/
  wires : m.Wires run.2
  /-- All links lead to holders. -/
  wired : run.2.Wired
  /-- The same objects are alive. -/
  living : ∀ q, q ∈ run.2.living ↔ q ∈ m.living
  /-- The object at the end is found, if there is one. -/
  result : ∀ p, run.1 = .ok p ↔ m.walk o keys = some p
  /-- The path is anchored, if there is an object at its end. -/
  anchored : ∀ p, m.walk o keys = some p → run.2.Anchored o keys

/-- A path is followed from any object below the root that has a binding. -/
theorem descends_foldlM {before : List String} (htree : m.TreeShaped root) (hwired : m.Wired)
    (hwalk : m.walk root before = some o) (hbound : m.isBound o = true) :
    m.Descends o keys (keys.foldlM Model.child o m) := by
  induction keys generalizing m o before with
  | nil =>
    refine ⟨.refl m, hwired, fun _ => .rfl, fun p => ?_, fun _ _ => trivial⟩
    show Except.ok o = .ok p ↔ some o = some p
    rw [Except.ok.injEq, Option.some.injEq]
  | cons key keys ih =>
    rw [List.foldlM_cons]
    cases hget : (m.get o key).object? with
    | none =>
      obtain ⟨fault, hchild⟩ := child_of_not_object hget
      have hnone : m.walk o (key :: keys) = none := by
        unfold walk
        rw [hget]
        rfl
      rw [Edit.bind_of_error hchild]
      refine ⟨.refl m, hwired, fun _ => .rfl, fun p => ?_, fun p hp => ?_⟩
      · rw [hnone]
        exact iff_of_false (fun h => by cases h) fun h => by cases h
      · rw [hnone] at hp
        cases hp
    | some p =>
      have hp := Value.object?_eq_some_iff.1 hget
      have hne : o ≠ p := by
        rintro rfl
        exact htree.get_ne_self hwalk key hp
      have hwires := wires_wire htree hwired hp
      have hwalk' : (m.wire o p).walk root (before ++ [key]) = some p := by
        rw [walk_congr hwires.store, walk_concat, hwalk]
        exact hget
      have hself : (m.wire o p).isBound p = true := by
        rw [isBound_wire]
        exact isBound_ensureBinding_self (htree.lt_size hp)
      have h := ih (hwires.treeShaped htree) (hwired.wire htree hbound hp) hwalk' hself
      have hpath : m.walk o (key :: keys) = (m.wire o p).walk p keys := by
        rw [walk_congr hwires.store, walk, hget]
        rfl
      rw [Edit.bind_of_ok (child_of_object hp hne)]
      refine ⟨hwires.trans h.wires, h.wired, fun q => ?_, fun q => ?_, fun q hq => ?_⟩
      · rw [h.living, mem_living_wire]
      · rw [hpath]
        exact h.result q
      · intro r hr
        -- The first object on the path is the one that was wired.
        unfold Model.get at hr hp
        rw [h.wires.store, hwires.store, hp] at hr
        obtain rfl := Value.object.inj hr
        rw [hpath] at hq
        refine ⟨h.wires.links _ _ ?_, h.anchored q hq⟩
        rw [linkOf_wire (htree.lt_size (Value.object?_eq_some_iff.1 hget)), if_pos rfl]

end Model

/-! ## Names with sigils -/

/-- What a variable finds in the scope above: a member, or the scope itself if it has no name. -/
theorem Model.lookup_of_above {m : Model} {o p : ObjectId} {n : ScopedName} (hsigils : n.sigils ≠ 0)
    (hle : n.sigils ≤ maxDepth) (habove : m.above (n.sigils - 1) o = some p) :
    m.lookup (.object o) n = .ok (if n.name = "" then .object p else m.get p n.name) := by
  unfold lookup
  rw [if_neg hsigils, if_neg (Nat.not_lt.2 hle), climb_object, habove]
  show Except.ok (if n.name.isEmpty then Value.object p else m.get p n.name) = _
  simp only [String.isEmpty_iff]

/-! ## Controllers -/

namespace Controller

variable {c : Controller} {m m' : Model}

/-- The data of a controller before any call: a tree under the root, which has a binding and is
held, and without links but from objects to their holders. -/
structure Ready (c : Controller) (m : Model) : Prop where
  /-- The data have the shape of a tree. -/
  tree : m.TreeShaped c.data
  /-- All links lead to holders. -/
  wired : m.Wired
  /-- The root has a binding. -/
  bound : m.isBound c.data = true
  /-- The root is alive. -/
  alive : c.data ∈ m.living

/-- What a sequence of calls does, whether they succeed or not, while the root is held and other
things are held or not. -/
inductive Calls (c : Controller) (m : Model) : Model → Prop
  | nil : Calls c m m
  | bind {m' : Model} (path : String) (earlier : Calls c m m') : Calls c m (c.bind path m').2
  | hold {m' : Model} (holds : List Hold) (earlier : Calls c m m')
      (alive : c.data ∈ ({ m' with holds } : Model).living) : Calls c m { m' with holds }

/-- A call follows its path from the root. -/
theorem descends_bind (h : c.Ready m) (path : String) :
    m.Descends c.data (segments path) (c.bind path m) :=
  Model.descends_foldlM h.tree h.wired (show m.walk c.data [] = some c.data from rfl) h.bound

/-- Calls add links and bindings, and leave the data ready for more. -/
theorem Calls.wires (h : c.Calls m m') (hready : c.Ready m) : m.Wires m' ∧ c.Ready m' := by
  induction h with
  | nil => exact ⟨.refl m, hready⟩
  | bind path _ ih =>
    obtain ⟨hwires, hready⟩ := ih
    have h := descends_bind hready path
    exact ⟨hwires.trans h.wires, h.wires.treeShaped hready.tree, h.wired,
      h.wires.bound _ hready.bound, (h.living _).2 hready.alive⟩
  | @hold m' holds _ alive ih =>
    obtain ⟨hwires, hready⟩ := ih
    have hholds := Model.Wires.holds m' holds
    exact ⟨hwires.trans hholds, hholds.treeShaped hready.tree, ⟨hready.wired.linked,
      hready.wired.holds⟩, hready.bound, alive⟩

/-- A call finds the object at the end of its path if there is an object at every start of it, and
whatever calls come before and after it, the scopes above that object are the objects at the shorter
starts: a name with sigils is resolved in them, and a variable, which has one sigil more, reads
their members, or without a name is the object itself. -/
theorem bind_wires {initial before after : Model} (hready : c.Ready initial)
    (hbefore : c.Calls initial before) (path : String)
    (hafter : c.Calls (c.bind path before).2 after) :
    ((∃ o, (c.bind path before).1 = .ok o) ↔
        ∀ keys, keys <+: segments path → ∃ p, initial.walk c.data keys = some p) ∧
      ∀ o, (c.bind path before).1 = .ok o →
        initial.walk c.data (segments path) = some o ∧
        ∀ hops ≤ (segments path).length, ∃ p,
          initial.walk c.data ((segments path).take ((segments path).length - hops)) = some p ∧
          ∀ name : String, name.toList.head? ≠ some '$' →
            (hops ≤ maxDepth →
              ScopedName.ofString (ScopedName.text ⟨hops, name⟩) = ⟨hops, name⟩ ∧
              (Model.resolve o (.ofString (ScopedName.text ⟨hops, name⟩)) after).1 = .ok p) ∧
            (hops < maxDepth → ∀ row,
              (Expr.reference (.ofString (ScopedName.text ⟨hops + 1, name⟩))).eval after
                (.object o) row =
                  .ok (if name = "" then .object p else initial.get p name)) := by
  obtain ⟨hwires, hready'⟩ := hbefore.wires hready
  have hbind := descends_bind hready' path
  have hwalk := Model.walk_congr hwires.store c.data (segments path)
  refine ⟨⟨fun ⟨o, ho⟩ keys ⟨rest, hrest⟩ => ?_, fun hall => ?_⟩, fun o ho => ?_⟩
  · have hpath := (hbind.result o).1 ho
    rw [hwalk, ← hrest] at hpath
    obtain ⟨p, hp, _⟩ := Model.exists_walk_of_append hpath
    exact ⟨p, hp⟩
  · obtain ⟨o, ho⟩ := hall _ (List.prefix_refl _)
    exact ⟨o, (hbind.result o).2 (hwalk.trans ho)⟩
  · have hpath := (hbind.result o).1 ho
    obtain ⟨hlater, hready''⟩ := hafter.wires ⟨hbind.wires.treeShaped hready'.tree, hbind.wired,
      hbind.wires.bound _ hready'.bound, (hbind.living _).2 hready'.alive⟩
    have hanchored := (hbind.anchored o hpath).wires hlater
    have hstore (q : ObjectId) : after.store q = initial.store q :=
      (hlater.store q).trans ((hbind.wires.store q).trans (hwires.store q))
    have hsame := Model.walk_congr hstore c.data
    rw [hwalk] at hpath
    refine ⟨hpath, fun hops hle => ?_⟩
    -- The scope is the object at a start of the path.
    have hsplit := hpath
    rw [← List.take_append_drop ((segments path).length - hops) (segments path)] at hsplit
    obtain ⟨p, hp, _⟩ := Model.exists_walk_of_append hsplit
    have habove : after.above hops o = some p := by
      rw [hanchored.above_eq hready''.wired.linked hready''.tree.whole hready''.alive
        ((hsame _).trans hpath) hle, hsame, hp]
    refine ⟨p, hp, fun name hname => ?_⟩
    have htext (n : Nat) : ScopedName.ofString (ScopedName.text ⟨n, name⟩) = ⟨n, name⟩ :=
      ScopedName.ofString_text hname
    refine ⟨fun hmax => ⟨htext hops, ?_⟩, fun hmax row => ?_⟩
    · rw [htext]
      exact (Model.resolveFrom_eq_ok_iff hready''.wired.linked name maxDepth hops o p).2
        ⟨hmax, habove⟩
    · rw [htext]
      have hlookup :=
        Model.lookup_of_above (n := ⟨hops + 1, name⟩) (Nat.succ_ne_zero hops) hmax habove
      refine hlookup.trans ?_
      unfold Model.get
      rw [hstore]

/-- A hall with a room in it and a cupboard in the room; the hall has a member without a name. -/
def hall : Model :=
  { objects := #[⟨.map (Dict.ofList [("", .bool true), ("room", .object 1)]), some {}⟩,
      ⟨.map (Dict.ofList [("cupboard", .object 2)]), none⟩, ⟨.map Dict.empty, none⟩],
    holds := [.object 0] }

/-- The controller of the hall. -/
def porter : Controller := { data := 0 }

/-- The hall is ready for calls. -/
theorem ready_hall : porter.Ready hall := by
  have hheld {o p : ObjectId} (h : .object p ∈ (hall.store o).values) :
      (o = 0 ∧ p = 1) ∨ (o = 1 ∧ p = 2) := by
    match o with
    | 0 =>
      have hvalues : (hall.store 0).values = [.bool true, .object 1] := rfl
      rw [hvalues] at h
      simp only [List.mem_cons, List.not_mem_nil, or_false] at h
      rcases h with h | h
      · cases h
      · exact .inl ⟨rfl, Value.object.inj h⟩
    | 1 =>
      have hvalues : (hall.store 1).values = [.object 2] := rfl
      rw [hvalues] at h
      exact .inr ⟨rfl, Value.object.inj (List.mem_singleton.1 h)⟩
    | 2 | _ + 3 => cases h
  refine ⟨⟨fun o p hp => ?_, fun hget hget' => ?_, fun o key hget => ?_⟩,
    ⟨fun o p hop => ?_, fun o p hop => ?_⟩, rfl, by decide +kernel⟩
  · have hsize : hall.objects.size = 3 := rfl
    rcases hheld hp with ⟨_, rfl⟩ | ⟨_, rfl⟩ <;> omega
  · have h := hheld (Store.get_mem_values hget)
    have h' := hheld (Store.get_mem_values hget')
    rcases h with ⟨rfl, rfl⟩ | ⟨rfl, rfl⟩ <;> rcases h' with ⟨rfl, h⟩ | ⟨rfl, h⟩ <;>
      first | rfl | cases h
  · rcases hheld (Store.get_mem_values hget) with ⟨_, h⟩ | ⟨_, h⟩ <;> cases h
  all_goals
    match o with
    | 0 | 1 | 2 | _ + 3 => cases hop

/-- From the cupboard, two scopes up there is the hall, also after a call that fails. -/
theorem bind_wires_hall :
    let before := (porter.bind "room.window" hall).2
    let after := (porter.bind "room.cupboard.door" (porter.bind "room.cupboard" before).2).2
    porter.Ready hall ∧ (porter.bind "room.cupboard" before).1 = .ok 2 ∧
      (Model.resolve 2 (.ofString "$$x") after).1 = .ok 0 ∧
      (Expr.reference (.ofString "$$$room")).eval after (.object 2) .null = .ok (.object 1) := by
  intro before after
  have hbefore : porter.Calls hall before := .bind "room.window" .nil
  have hafter : porter.Calls (porter.bind "room.cupboard" before).2 after :=
    .bind "room.cupboard.door" .nil
  have hok : (porter.bind "room.cupboard" before).1 = .ok 2 := rfl
  obtain ⟨_, hpath⟩ := bind_wires ready_hall hbefore "room.cupboard" hafter
  obtain ⟨p, hp, hnames⟩ := (hpath 2 hok).2 2 (by decide)
  obtain rfl : 0 = p := Option.some.inj hp
  refine ⟨ready_hall, hok, ((hnames "x" (by decide)).1 (by decide)).2, ?_⟩
  exact (hnames "room" (by decide)).2 (by decide) .null

/-- Sigils alone refer to the scope itself, and not to its member without a name. -/
theorem bind_sigils_alone :
    porter.Ready hall ∧ (porter.bind "room" hall).1 = .ok 1 ∧ hall.get 0 "" = .bool true ∧
      (Expr.reference (.ofString (ScopedName.text ⟨2, ""⟩))).eval (porter.bind "room" hall).2
        (.object 1) .null ≠ .ok (hall.get 0 "") := by
  have hscope : (Expr.reference (.ofString (ScopedName.text ⟨2, ""⟩))).eval
      (porter.bind "room" hall).2 (.object 1) .null = .ok (.object 0) := rfl
  refine ⟨ready_hall, rfl, rfl, fun h => ?_⟩
  rw [hscope] at h
  cases h

end Controller

end LiveScope
