import LiveScope.Proofs.Model.Edits
import Mathlib.Data.List.Chain

/-!
# Scopes stay where they are while something is subscribed

Subscribing gives objects bindings and connects handlers to them. Neither changes which objects are
alive, as long as the handler refers to living objects only, and so neither changes which scope
encloses which (`Model.enclosing?_congr`). Hence all names of a subscription are resolved in the
same chain of scopes (`Model.Climbable`).
-/

namespace LiveScope.Model

variable {m m' : Model}

/-- What is held or referred to from a set only grows with the set. -/
theorem referred_mono {set set' : List ObjectId} (h : ∀ o ∈ set, o ∈ set') {o : ObjectId}
    (ho : o ∈ m.referred set) : o ∈ m.referred set' := by
  unfold referred at *
  rw [List.mem_append, List.mem_flatMap] at *
  exact ho.imp_right fun ⟨p, hp, hop⟩ => ⟨p, h p hp, hop⟩

/-- What is alive is an object of the model. -/
theorem lt_size_of_mem_living {o : ObjectId} (h : o ∈ m.living) : o < m.objects.size := by
  have hsub : ∀ fuel set, o ∈ m.survivors fuel set → o ∈ set := by
    intro fuel set hmem
    fun_induction survivors m fuel set with
    | case1 => exact hmem
    | case2 => exact hmem
    | case3 _ _ _ _ ih => exact List.mem_of_mem_filter (ih hmem)
  exact List.mem_range.1 (hsub _ _ h)

/-- The same objects are alive in two models if what one of them holds and refers to in addition are
living objects. -/
theorem mem_living_congr (hsize : m'.objects.size = m.objects.size)
    (hheld : ∀ p ∈ m.heldObjects, p ∈ m'.heldObjects)
    (hnewHeld : ∀ p ∈ m'.heldObjects, p ∈ m.heldObjects ∨ p ∈ m.living)
    (hsub : ∀ o, ∀ p ∈ m.references o, p ∈ m'.references o)
    (hnew : ∀ o, ∀ p ∈ m'.references o, p ∈ m.references o ∨ p ∈ m.living) (o : ObjectId) :
    o ∈ m'.living ↔ o ∈ m.living := by
  have grows : ∀ p ∈ m.living, p ∈ m'.living := by
    refine subset_living (fun p hp => ?_) fun p hp => hsize ▸ lt_size_of_mem_living hp
    have := mem_referred_of_mem_living hp
    unfold referred at *
    rw [List.mem_append, List.mem_flatMap] at *
    exact this.imp (hheld p) fun ⟨q, hq, hpq⟩ => ⟨q, hq, hsub q p hpq⟩
  have old : ∀ p ∈ m.living, p ∈ m.referred m'.living :=
    fun p hp => referred_mono grows (mem_referred_of_mem_living hp)
  have shrinks : ∀ p ∈ m'.living, p ∈ m.living := by
    refine subset_living (fun p hp => ?_) fun p hp => hsize ▸ lt_size_of_mem_living hp
    have := mem_referred_of_mem_living hp
    unfold referred at this
    rw [List.mem_append, List.mem_flatMap] at this
    rcases this with hheld | ⟨q, hq, hpq⟩
    · exact (hnewHeld p hheld).elim (List.mem_append_left _) (old p)
    · rcases hnew q p hpq with hold | halive
      · exact List.mem_append_right _ (List.mem_flatMap.2 ⟨q, hq, hold⟩)
      · exact old p halive
  exact ⟨shrinks o, grows o⟩

/-- Holding an object that is alive keeps the same objects alive. -/
theorem mem_living_hold {o : ObjectId} (h : o ∈ m.living) (p : ObjectId) :
    p ∈ (m.holdAll [.object o]).living ↔ p ∈ m.living := by
  have hheld : (m.holdAll [.object o]).heldObjects = o :: m.heldObjects := rfl
  have hsize : (m.holdAll [.object o]).objects.size = m.objects.size := rfl
  refine mem_living_congr hsize (fun q hq => ?_) (fun q hq => ?_) (fun _ _ hr => hr)
    (fun _ _ hr => .inl hr) p
  · exact hheld ▸ List.mem_cons_of_mem o hq
  · rw [hheld] at hq
    rcases List.mem_cons.1 hq with rfl | hq
    · exact .inr h
    · exact .inl hq

/-- The same scope encloses an object in two models that have the same links and members, in which
the same objects are alive, if links lead to objects that have a binding. -/
theorem enclosing?_congr (hstore : ∀ o, m'.store o = m.store o)
    (hlink : ∀ o, m'.linkOf o = m.linkOf o) (hbound : ∀ o, m.isBound o = true → m'.isBound o = true)
    (halive : ∀ o, o ∈ m'.living ↔ o ∈ m.living)
    (hlinks : ∀ o p, m.linkOf o = some p → m.isBound p = true) (o : ObjectId) :
    m'.enclosing? o = m.enclosing? o := by
  have hparent : m'.parent? o = m.parent? o := by
    show (m'.linkOf o).filter _ = (m.linkOf o).filter _
    rw [hlink o]
    cases hl : m.linkOf o with
    | none => rfl
    | some p =>
      have hb := hlinks o p hl
      have hiff : m'.isAlive p = m.isAlive p := by
        unfold isAlive
        rw [Bool.eq_iff_iff]
        simpa using halive p
      rw [Option.filter_some, Option.filter_some, hb, hbound p hb, hiff]
  unfold enclosing? Model.get
  rw [hparent, hstore o]

/-- Whether the objects of a chain of scopes exist and enclose one another, and all links lead to
objects with bindings. -/
structure Climbable (m : Model) (scopes : List ObjectId) : Prop where
  /-- The objects exist. -/
  exist : ∀ o ∈ scopes, o < m.objects.size
  /-- Each is enclosed by the next. -/
  encloses : scopes.IsChain fun a b => m.enclosing? a = some b
  /-- Links lead to objects with bindings. -/
  linked : ∀ o p, m.linkOf o = some p → m.isBound p = true

/-- A chain of scopes stays one if nothing changes that it depends on. -/
theorem Climbable.congr {scopes : List ObjectId} (h : m.Climbable scopes)
    (hsize : m'.objects.size = m.objects.size) (hstore : ∀ o, m'.store o = m.store o)
    (hlink : ∀ o, m'.linkOf o = m.linkOf o) (hbound : ∀ o, m.isBound o = true → m'.isBound o = true)
    (halive : ∀ o, o ∈ m'.living ↔ o ∈ m.living) : m'.Climbable scopes where
  exist o ho := hsize ▸ h.exist o ho
  encloses := h.encloses.imp fun a b hab => by
    rw [enclosing?_congr hstore hlink hbound halive h.linked]
    exact hab
  linked o p hop := hbound p (h.linked o p (hlink o ▸ hop))

/-- Giving an object a binding keeps the same objects alive. -/
theorem mem_living_ensureBinding (m : Model) (o p : ObjectId) :
    p ∈ (m.ensureBinding o).living ↔ p ∈ m.living := by
  have hrefs : ∀ q, (m.ensureBinding o).references q = m.references q := by
    intro q
    unfold references
    rw [store_ensureBinding]
    congr 1
    exact elim_ensureBinding (fun b => b.connections.flatMap (m.handlerObjects ·.handler) ++
      b.registrations.flatMap fun r => r.deep.elim [] m.deepObjects) m o q
  exact mem_living_congr (size_modifyObject m o _) (fun _ hr => hr) (fun _ hr => .inl hr)
    (fun q r hr => hrefs q ▸ hr) (fun q r hr => .inl (hrefs q ▸ hr)) p

/-- Giving an object a binding keeps a chain of scopes. -/
theorem Climbable.ensureBinding {scopes : List ObjectId} (h : m.Climbable scopes) (o : ObjectId) :
    (m.ensureBinding o).Climbable scopes := by
  exact h.congr (size_modifyObject m o _) (store_ensureBinding m o) (linkOf_ensureBinding m o)
    (fun p hp => isBound_ensureBinding hp o) (mem_living_ensureBinding m o)

end LiveScope.Model
