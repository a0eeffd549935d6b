import LiveScope.Proofs.Model.Attaching
import LiveScope.Proofs.Model.Scopes
import LiveScope.World.Bind
import Mathlib.Tactic.Tauto

/-!
# What subscribing changes

A subscription to several names resolves each of them and connects a handler to it.
`Model.Subscribes` says what that changes: connections with new numbers are put behind those that
are there, and objects are given bindings. `Model.connectFields_of_ok` says which connections a
subscription that succeeds makes, and `Model.Climbable.connectFields` that there is one for each
name, at the scope that the name belongs to. `Model.SetUp` says what setting up a deep watch comes
to.
-/

namespace LiveScope.Model

variable {m m' m'' : Model} {news news' : ObjectId → List Connection}

/-- `m'` has the connections `news` beside those of `m`, with numbers that were not given out in
`m`, and else differs at most in which objects have a binding. -/
structure Subscribes (news : ObjectId → List Connection) (m m' : Model) : Prop where
  /-- There are the same objects. -/
  size : m'.objects.size = m.objects.size
  /-- The deep watches are the same. -/
  deeps : m'.deeps = m.deeps
  /-- The same is held. -/
  holds : m'.holds = m.holds
  /-- All content is the same. -/
  store : ∀ o, m'.store o = m.store o
  /-- The watchers are the same. -/
  watchersOf : ∀ o, m'.watchersOf o = m.watchersOf o
  /-- The registrations are the same. -/
  registrationsOf : ∀ o, m'.registrationsOf o = m.registrationsOf o
  /-- The links are the same. -/
  linkOf : ∀ o, m'.linkOf o = m.linkOf o
  /-- Changes of the same keys are told of. -/
  keysOf : ∀ o, m'.keysOf o = m.keysOf o
  /-- Bindings are kept. -/
  isBound : ∀ o, m.isBound o = true → m'.isBound o = true
  /-- Numbers that were given out stay given out. -/
  lastIdOf : ∀ o, m.lastIdOf o ≤ m'.lastIdOf o
  /-- The new connections stand behind the old ones. -/
  connectionsOf : ∀ o, m'.connectionsOf o = m.connectionsOf o ++ news o
  /-- Their numbers are new. -/
  fresh : ∀ o, ∀ c ∈ news o, m.lastIdOf o < c.seq ∧ c.seq ≤ m'.lastIdOf o
  /-- They are in the order of their numbers. -/
  ascending : ∀ o, (news o).Pairwise (·.seq < ·.seq)

namespace Subscribes

/-- Nothing is subscribed. -/
theorem refl (m : Model) : Subscribes (fun _ => []) m m where
  size := rfl
  deeps := rfl
  holds := rfl
  store _ := rfl
  watchersOf _ := rfl
  registrationsOf _ := rfl
  linkOf _ := rfl
  keysOf _ := rfl
  isBound _ h := h
  lastIdOf _ := Nat.le_refl _
  connectionsOf _ := (List.append_nil _).symm
  fresh _ _ h := by cases h
  ascending _ := .nil

/-- One subscription after another. -/
theorem trans (h : Subscribes news m m') (h' : Subscribes news' m' m'') :
    Subscribes (fun o => news o ++ news' o) m m'' where
  size := h'.size.trans h.size
  deeps := h'.deeps.trans h.deeps
  holds := h'.holds.trans h.holds
  store o := (h'.store o).trans (h.store o)
  watchersOf o := (h'.watchersOf o).trans (h.watchersOf o)
  registrationsOf o := (h'.registrationsOf o).trans (h.registrationsOf o)
  linkOf o := (h'.linkOf o).trans (h.linkOf o)
  keysOf o := (h'.keysOf o).trans (h.keysOf o)
  isBound o hb := h'.isBound o (h.isBound o hb)
  lastIdOf o := Nat.le_trans (h.lastIdOf o) (h'.lastIdOf o)
  connectionsOf o := by rw [h'.connectionsOf, h.connectionsOf, List.append_assoc]
  fresh o c hc := by
    have hle := h.lastIdOf o
    have hle' := h'.lastIdOf o
    rcases List.mem_append.1 hc with hc | hc
    · have := h.fresh o c hc
      omega
    · have := h'.fresh o c hc
      omega
  ascending o := by
    refine List.pairwise_append.2 ⟨h.ascending o, h'.ascending o, fun c hc c' hc' => ?_⟩
    have := (h.fresh o c hc).2
    have := (h'.fresh o c' hc').1
    omega

end Subscribes

/-- Giving an object a binding subscribes nothing. -/
theorem subscribes_ensureBinding (m : Model) (o : ObjectId) :
    Subscribes (fun _ => []) m (m.ensureBinding o) where
  size := size_modifyObject m o _
  deeps := rfl
  holds := rfl
  store := store_ensureBinding m o
  watchersOf := elim_ensureBinding (·.watchers) m o
  registrationsOf := elim_ensureBinding (·.registrations) m o
  linkOf := linkOf_ensureBinding m o
  keysOf := keysOf_ensureBinding m o
  isBound p h := isBound_ensureBinding h o
  lastIdOf p := Nat.le_of_eq (elim_ensureBinding (·.lastId) m o p).symm
  connectionsOf p := by
    rw [List.append_nil]
    exact elim_ensureBinding (·.connections) m o p
  fresh _ _ h := by cases h
  ascending _ := .nil

/-- The connection that connecting a handler makes. -/
def newConnection (m : Model) (o : ObjectId) (key : String) (handler : Handler) (p : ObjectId) :
    List Connection :=
  if p = o ∧ m.isBound o = true then [⟨m.nextId o, key, handler⟩] else []

/-- The connection is the only one, under a number that was not given out. -/
theorem mem_newConnection {o p : ObjectId} {key : String} {handler : Handler} {c : Connection} :
    c ∈ m.newConnection o key handler p ↔
      (p = o ∧ m.isBound o = true) ∧ c = ⟨m.nextId o, key, handler⟩ := by
  unfold newConnection
  split
  · rename_i h
    rw [List.mem_singleton, and_iff_right h]
  · rename_i h
    exact iff_of_false List.not_mem_nil fun hc => h hc.1

/-- Connecting a handler makes one connection, if the object has a binding. -/
theorem subscribes_connect (m : Model) (o : ObjectId) (key : String) (handler : Handler) :
    Subscribes (m.newConnection o key handler) m (m.connect o key handler).2 where
  size := size_modifyObject m o _
  deeps := rfl
  holds := rfl
  store := store_modifyBinding m o _
  watchersOf := elim_modifyBinding (·.watchers) (fun _ => by rfl) [] m o
  registrationsOf := elim_modifyBinding (·.registrations) (fun _ => by rfl) [] m o
  linkOf := linkOf_modifyBinding (fun _ => by rfl) m o
  keysOf := keysOf_modifyBinding (fun _ => by rfl) m o
  isBound p h := by
    show (m.modifyBinding o _).isBound p = true
    rw [isBound_modifyBinding]
    exact h
  lastIdOf p := by
    unfold Model.lastIdOf connect
    rw [binding?_modifyBinding]
    split
    · cases m.binding? p with
      | none => exact Nat.le_refl _
      | some b => exact Nat.le_succ _
    · exact Nat.le_refl _
  connectionsOf p := by
    unfold Model.connectionsOf connect newConnection nextId Model.isBound
    rw [binding?_modifyBinding]
    by_cases hp : p = o
    · subst hp
      cases m.binding? p <;> simp [Binding.connect]
    · simp [hp]
  fresh p c hc := by
    obtain ⟨⟨rfl, hb⟩, rfl⟩ := mem_newConnection.1 hc
    obtain ⟨b, hb⟩ := Option.isSome_iff_exists.1 hb
    dsimp only
    rw [nextId_eq]
    refine ⟨Nat.lt_succ_self _, ?_⟩
    unfold Model.lastIdOf connect
    rw [binding?_modifyBinding, if_pos rfl, hb]
    exact Nat.le_refl _
  ascending p := by
    unfold newConnection
    split
    · exact List.pairwise_singleton _ _
    · exact .nil

/-- A scope on the way to the owner of a name gets a binding before it is asked. -/
theorem resolveFrom_of_some {name : String} {hops sigils : Nat} {o p : ObjectId}
    (h : m.enclosing? o = some p) :
    resolveFrom name (hops + 1) (sigils + 1) o m =
      resolveFrom name hops sigils p (m.ensureBinding p) := by
  rw [resolveFrom, Edit.bind_of_ok (e := get) rfl, h]
  exact Edit.bind_of_ok (e := modify _) rfl

/-- A name with more sigils than there are scopes has no owner. -/
theorem resolveFrom_of_none {name : String} {hops sigils : Nat} {o : ObjectId}
    (h : m.enclosing? o = none) :
    resolveFrom name (hops + 1) (sigils + 1) o m =
      (.error (.noParentScope (ScopedName.text ⟨sigils + 1, name⟩)), m) := by
  rw [resolveFrom, Edit.bind_of_ok (e := get) rfl, h]
  rfl

/-- Resolving a name subscribes nothing, whether it has an owner or not. -/
theorem subscribes_resolveFrom (name : String) (hops sigils : Nat) (o : ObjectId) (m : Model) :
    Subscribes (fun _ => []) m (resolveFrom name hops sigils o m).2 := by
  induction hops generalizing sigils o m with
  | zero => cases sigils <;> exact .refl m
  | succ hops ih =>
    cases sigils with
    | zero => exact .refl m
    | succ sigils =>
      cases hp : m.enclosing? o with
      | some p =>
        rw [resolveFrom_of_some hp]
        exact (subscribes_ensureBinding m p).trans (ih sigils p _)
      | none =>
        rw [resolveFrom_of_none hp]
        exact .refl m

/-- Resolving a name subscribes nothing, whether it has an owner or not. -/
theorem subscribes_resolve {o : ObjectId} {n : ScopedName} {r : Except Fault ObjectId}
    (h : resolve o n m = (r, m')) : Subscribes (fun _ => []) m m' := by
  have := subscribes_resolveFrom n.name maxDepth n.sigils o m
  unfold resolve at h
  rwa [h] at this

section connectFields

variable {o owner : ObjectId} {handler : ScopedName → Handler} {n : ScopedName}
  {names : List ScopedName} {made made' : List (ObjectId × SubscriptionId)} {m₁ : Model}

/-- A name that has an owner is connected there before the others. -/
theorem connectFields_of_resolved (hres : resolve o n m = (.ok owner, m₁)) :
    connectFields o handler (n :: names) made m =
      connectFields o handler names (made ++ [(owner, ⟨n.name, m₁.nextId owner⟩)])
        (m₁.connect owner n.name (handler n)).2 := by
  rw [connectFields, Edit.bind_of_ok (Edit.tryCatch_of_ok hres)]
  exact Edit.bind_of_ok (e := modifyGet _) rfl

/-- At a name that has no owner all are disconnected that were connected before it. -/
theorem connectFields_of_unresolved {fault : Fault} (hres : resolve o n m = (.error fault, m₁)) :
    connectFields o handler (n :: names) made m = (.error fault, m₁.disconnectAll made) := by
  rw [connectFields]
  exact Edit.bind_of_error
    (Edit.tryCatch_of_error hres |>.trans (Edit.bind_of_ok (e := modify _) rfl))

/-- If all names are connected the first has an owner. -/
theorem resolve_of_connectFields
    (h : connectFields o handler (n :: names) made m = (.ok made', m')) :
    ∃ owner m₁, resolve o n m = (.ok owner, m₁) ∧
      connectFields o handler names (made ++ [(owner, ⟨n.name, m₁.nextId owner⟩)])
        (m₁.connect owner n.name (handler n)).2 = (.ok made', m') := by
  cases hres : resolve o n m with
  | mk r m₁ =>
    cases r with
    | error fault =>
      rw [connectFields_of_unresolved hres] at h
      cases h
    | ok owner => exact ⟨owner, m₁, rfl, connectFields_of_resolved hres ▸ h⟩

end connectFields

/-- A subscription to several names makes connections with handlers for these names. If it succeeds
it gives them back beside those that were made before, and if it fails it takes all of them out
again. -/
theorem connectFields_made {o : ObjectId} {handler : ScopedName → Handler}
    {names : List ScopedName} {made : List (ObjectId × SubscriptionId)}
    {r : Except Fault (List (ObjectId × SubscriptionId))}
    (h : connectFields o handler names made m = (r, m')) :
    ∃ news added m₁, Subscribes news m m₁ ∧
      (∀ p, ∀ c ∈ news p, (p, ⟨c.key, c.seq⟩) ∈ added ∧ ∃ n ∈ names, c.handler = handler n) ∧
      (∀ x ∈ added, m.lastIdOf x.1 < x.2.seq) ∧
      (r = .ok (made ++ added) ∧ m' = m₁ ∨
        (∃ fault, r = .error fault) ∧ m' = m₁.disconnectAll (made ++ added)) := by
  induction names generalizing made m with
  | nil =>
    obtain ⟨rfl, rfl⟩ := Prod.mk.inj h
    exact ⟨_, [], m, .refl m, nofun, nofun, .inl ⟨by rw [List.append_nil], rfl⟩⟩
  | cons n names ih =>
    cases hres : resolve o n m with
    | mk resolved m₁ =>
      have hresolve := subscribes_resolve hres
      cases resolved with
      | error fault =>
        rw [connectFields_of_unresolved hres] at h
        obtain ⟨rfl, rfl⟩ := Prod.mk.inj h
        exact ⟨_, [], m₁, hresolve, nofun, nofun,
          .inr ⟨⟨fault, rfl⟩, by rw [List.append_nil]⟩⟩
      | ok owner =>
        rw [connectFields_of_resolved hres] at h
        have hconnect := subscribes_connect m₁ owner n.name (handler n)
        obtain ⟨news, added, m₂, hsub, hnews, hadded, hend⟩ := ih h
        rw [List.append_assoc] at hend
        refine ⟨_, (owner, ⟨n.name, m₁.nextId owner⟩) :: added, m₂,
          (hresolve.trans hconnect).trans hsub, fun p c hc => ?_, fun x hx => ?_, hend⟩
        · rw [List.nil_append] at hc
          rcases List.mem_append.1 hc with hc | hc
          · obtain ⟨⟨rfl, _⟩, rfl⟩ := mem_newConnection.1 hc
            exact ⟨List.mem_cons_self, n, List.mem_cons_self, rfl⟩
          · obtain ⟨hmem, n', hn', hhandler⟩ := hnews p c hc
            exact ⟨List.mem_cons_of_mem _ hmem, n', List.mem_cons_of_mem _ hn', hhandler⟩
        · -- Numbers only grow, so that those given out later are new at the start, too.
          have hle := (hresolve.trans hconnect).lastIdOf x.1
          rcases List.mem_cons.1 hx with rfl | hx
          · have := hresolve.lastIdOf owner
            dsimp only
            rw [nextId_eq]
            omega
          · have := hadded x hx
            omega

/-- A subscription to several names that succeeds makes connections with handlers for these names,
and gives them back beside those that were made before. -/
theorem connectFields_of_ok {o : ObjectId} {handler : ScopedName → Handler}
    {names : List ScopedName} {made made' : List (ObjectId × SubscriptionId)}
    (h : connectFields o handler names made m = (.ok made', m')) :
    ∃ news added, made' = made ++ added ∧ Subscribes news m m' ∧
      (∀ p, ∀ c ∈ news p, (p, ⟨c.key, c.seq⟩) ∈ added ∧ ∃ n ∈ names, c.handler = handler n) ∧
      ∀ x ∈ added, m.lastIdOf x.1 < x.2.seq := by
  obtain ⟨news, added, m₁, hsub, hnews, hadded, ⟨hmade, rfl⟩ | ⟨⟨_, herror⟩, _⟩⟩ :=
    connectFields_made h
  · exact ⟨news, added, Except.ok.inj hmade, hsub, hnews, hadded⟩
  · cases herror

/-- A subscription to several names that fails takes the connections out again that were made. -/
theorem connectFields_of_error {o : ObjectId} {handler : ScopedName → Handler} {fault : Fault}
    {names : List ScopedName} {made : List (ObjectId × SubscriptionId)}
    (h : connectFields o handler names made m = (.error fault, m')) :
    ∃ news added m₁, Subscribes news m m₁ ∧ m' = m₁.disconnectAll (made ++ added) ∧
      (∀ p, ∀ c ∈ news p, (p, ⟨c.key, c.seq⟩) ∈ added) ∧ ∀ x ∈ added, m.lastIdOf x.1 < x.2.seq := by
  obtain ⟨news, added, m₁, hsub, hnews, hadded, ⟨hmade, _⟩ | ⟨_, rfl⟩⟩ := connectFields_made h
  · cases hmade
  · exact ⟨news, added, m₁, hsub, rfl, fun p c hc => (hnews p c hc).1, hadded⟩

/-! ## The owners of the names -/

/-- The scope that encloses an object exists. -/
theorem lt_size_of_enclosing? (hwhole : m.Whole) {o p : ObjectId} (h : m.enclosing? o = some p) :
    p < m.objects.size := by
  unfold enclosing? at h
  cases hparent : m.parent? o with
  | some q =>
    rw [hparent] at h
    obtain rfl := Option.some.inj h
    unfold parent? at hparent
    obtain ⟨_, hq⟩ := Option.filter_eq_some_iff.1 hparent
    obtain ⟨_, hbound⟩ := Bool.and_eq_true_iff.1 hq
    obtain ⟨b, hb⟩ := Option.isSome_iff_exists.1 hbound
    exact lt_size_of_binding? hb
  | none =>
    rw [hparent] at h
    exact hwhole o p (Store.get_mem_values (Value.object?_eq_some_iff.1 h))

/-- The owner of a name has a binding, if the object has one that the name was resolved from. -/
theorem isBound_of_resolve {o owner : ObjectId} {n : ScopedName} (hwhole : m.Whole)
    (hb : m.isBound o = true) (h : resolve o n m = (.ok owner, m')) : m'.isBound owner = true := by
  unfold resolve at h
  generalize maxDepth = hops at h
  generalize n.sigils = sigils at h
  induction hops generalizing sigils o m with
  | zero =>
    cases sigils with
    | zero =>
      obtain ⟨howner, rfl⟩ := Prod.mk.inj h
      obtain rfl := Except.ok.inj howner
      exact hb
    | succ => cases h
  | succ hops ih =>
    cases sigils with
    | zero =>
      obtain ⟨howner, rfl⟩ := Prod.mk.inj h
      obtain rfl := Except.ok.inj howner
      exact hb
    | succ sigils =>
      cases hp : m.enclosing? o with
      | none =>
        rw [resolveFrom_of_none hp] at h
        cases h
      | some p =>
        rw [resolveFrom_of_some hp] at h
        have hwhole' : (m.ensureBinding p).Whole := by
          intro q r hr
          rw [store_ensureBinding] at hr
          exact Nat.lt_of_lt_of_eq (hwhole q r hr) (size_modifyObject m p _).symm
        exact ih hwhole' (isBound_ensureBinding_self (lt_size_of_enclosing? hwhole hp)) _ h

/-- The connections that a subscription to several names makes have numbers that were given out. -/
theorem numbered_connectFields {o : ObjectId} {handler : ScopedName → Handler}
    {names : List ScopedName} {made made' : List (ObjectId × SubscriptionId)} (hwhole : m.Whole)
    (hb : m.isBound o = true) (hmade : ∀ x ∈ made, x.2.seq ≤ m.lastIdOf x.1)
    (h : connectFields o handler names made m = (.ok made', m')) :
    ∀ x ∈ made', x.2.seq ≤ m'.lastIdOf x.1 := by
  induction names generalizing made m with
  | nil =>
    obtain ⟨hmade', rfl⟩ := Prod.mk.inj h
    obtain rfl := Except.ok.inj hmade'
    exact hmade
  | cons n names ih =>
    obtain ⟨owner, m₁, hres, h⟩ := resolve_of_connectFields h
    have hresolve := subscribes_resolve hres
    have hconnect := subscribes_connect m₁ owner n.name (handler n)
    have hsub := hresolve.trans hconnect
    have howner := isBound_of_resolve hwhole hb hres
    refine ih (fun p q hq => ?_) (hsub.isBound o hb) (fun x hx => ?_) h
    · rw [hsub.store] at hq
      exact Nat.lt_of_lt_of_eq (hwhole p q hq) hsub.size.symm
    · rcases List.mem_append.1 hx with hx | hx
      · exact Nat.le_trans (hmade x hx) (hsub.lastIdOf x.1)
      · obtain rfl := List.mem_singleton.1 hx
        exact (hconnect.fresh owner _ (mem_newConnection.2 ⟨⟨rfl, howner⟩, rfl⟩)).2

/-! ## The scopes of the names -/

/-- The same objects are alive in both models, and chains of scopes of the first are ones of the
second. -/
structure Undisturbed (m m' : Model) : Prop where
  /-- The same objects are alive. -/
  living : ∀ o, o ∈ m'.living ↔ o ∈ m.living
  /-- Chains of scopes stay chains of scopes. -/
  climbable : ∀ scopes, m.Climbable scopes → m'.Climbable scopes

/-- Any number of changes that leave scopes undisturbed do. -/
theorem Undisturbed.steady : Steady Undisturbed where
  refl _ := ⟨fun _ => Iff.rfl, fun _ h => h⟩
  trans h h' := ⟨fun o => (h'.living o).trans (h.living o),
    fun scopes hs => h'.climbable scopes (h.climbable scopes hs)⟩

/-- Resolving a name leaves scopes undisturbed. -/
theorem undisturbed_resolveFrom (name : String) (hops sigils : Nat) (o : ObjectId) :
    Edit.Keeps Undisturbed (resolveFrom name hops sigils o) := by
  have hI := Undisturbed.steady
  induction hops generalizing sigils o with
  | zero => cases sigils <;> exact hI.refl
  | succ hops ih =>
    cases sigils with
    | zero => exact hI.refl
    | succ sigils =>
      unfold resolveFrom
      refine .bind hI (.get hI) fun m => ?_
      cases m.enclosing? o with
      | none => exact .throw hI _
      | some p =>
        exact .bind hI (.modify fun m => ⟨mem_living_ensureBinding m p,
          fun _ h => h.ensureBinding p⟩) fun _ => ih sigils p

/-- Connecting a handler leaves scopes undisturbed if it refers to living objects. -/
theorem undisturbed_connect {o : ObjectId} {key : String} {handler : Handler}
    (h : ∀ p ∈ m.handlerObjects handler, p ∈ m.living) :
    Undisturbed m (m.connect o key handler).2 := by
  have hsub := subscribes_connect m o key handler
  -- An object refers to what is in it, and by its tables to what handlers and deep watches hold.
  have hobjects : ∀ q, (m.connect o key handler).2.references q =
      (m.store q).values.filterMap Value.object? ++
        ((m.connectionsOf q ++ m.newConnection o key handler q).flatMap
          (m.handlerObjects ·.handler) ++
        (m.registrationsOf q).flatMap fun r => r.deep.elim [] m.deepObjects) := by
    intro q
    rw [← hsub.connectionsOf, ← hsub.registrationsOf, ← hsub.store]
    unfold references Model.connectionsOf Model.registrationsOf
    cases (m.connect o key handler).2.binding? q <;> rfl
  have hobjects' : ∀ q, m.references q = (m.store q).values.filterMap Value.object? ++
      ((m.connectionsOf q).flatMap (m.handlerObjects ·.handler) ++
        (m.registrationsOf q).flatMap fun r => r.deep.elim [] m.deepObjects) := by
    intro q
    unfold references Model.connectionsOf Model.registrationsOf
    cases m.binding? q <;> rfl
  have hliving : ∀ p, p ∈ (m.connect o key handler).2.living ↔ p ∈ m.living := by
    refine mem_living_congr hsub.size (fun _ hr => hr) (fun _ hr => .inl hr) (fun q r hr => ?_)
      fun q r hr => ?_
    · rw [hobjects' q] at hr
      rw [hobjects q, List.flatMap_append]
      simp only [List.mem_append] at hr ⊢
      tauto
    · rw [hobjects q, List.flatMap_append] at hr
      have hnew : r ∈ (m.newConnection o key handler q).flatMap (m.handlerObjects ·.handler) →
          r ∈ m.living := by
        intro hr
        obtain ⟨c, hc, hrc⟩ := List.mem_flatMap.1 hr
        obtain ⟨_, rfl⟩ := mem_newConnection.1 hc
        exact h r hrc
      rw [hobjects' q]
      simp only [List.mem_append] at hr ⊢
      tauto
  exact ⟨hliving, fun _ hs => hs.congr hsub.size hsub.store hsub.linkOf hsub.isBound hliving⟩

/-- A name is resolved to the scope that it belongs to, which has a binding then. -/
theorem Climbable.resolveFrom {name : String} {hops sigils : Nat} {scope owner p : ObjectId}
    {outer : List ObjectId} (h : m.Climbable (scope :: outer)) (hb : m.isBound scope = true)
    (hres : resolveFrom name hops sigils scope m = (.ok owner, m'))
    (hp : (scope :: outer)[sigils]? = some p) : owner = p ∧ m'.isBound p = true := by
  induction hops generalizing sigils scope outer m with
  | zero =>
    cases sigils with
    | zero =>
      obtain ⟨howner, rfl⟩ := Prod.mk.inj hres
      obtain rfl := Except.ok.inj howner
      obtain rfl := Option.some.inj hp
      exact ⟨rfl, hb⟩
    | succ => cases hres
  | succ hops ih =>
    cases sigils with
    | zero =>
      obtain ⟨howner, rfl⟩ := Prod.mk.inj hres
      obtain rfl := Except.ok.inj howner
      obtain rfl := Option.some.inj hp
      exact ⟨rfl, hb⟩
    | succ sigils =>
      cases outer with
      | nil => cases hp
      | cons next outer =>
        obtain ⟨hnext, hrest⟩ := List.isChain_cons_cons.1 h.encloses
        rw [resolveFrom_of_some hnext] at hres
        have hclimb : m.Climbable (next :: outer) :=
          ⟨fun o ho => h.exist o (List.mem_cons_of_mem _ ho), hrest, h.linked⟩
        exact ih (hclimb.ensureBinding next)
          (isBound_ensureBinding_self (hclimb.exist next List.mem_cons_self)) hres hp

/-- A subscription to several names connects a handler for each at the scope that the name belongs
to. -/
theorem Climbable.connectFields {scope : ObjectId} {outer : List ObjectId}
    {handler : ScopedName → Handler} {names : List ScopedName}
    {made made' : List (ObjectId × SubscriptionId)} (h : m.Climbable (scope :: outer))
    (hb : m.isBound scope = true)
    (halive : ∀ n ∈ names, ∀ p ∈ m.handlerObjects (handler n), p ∈ m.living)
    (hstatic : ∀ n m₁ m₂, handlerObjects m₁ (handler n) = handlerObjects m₂ (handler n))
    (hok : connectFields scope handler names made m = (.ok made', m')) :
    ∀ n ∈ names, ∀ p, (scope :: outer)[n.sigils]? = some p →
      ∃ c ∈ m'.connectionsOf p, c.key = n.name ∧ c.handler = handler n := by
  induction names generalizing made m with
  | nil =>
    intro n hn
    cases hn
  | cons n names ih =>
    obtain ⟨owner, m₁, hres, hok⟩ := resolve_of_connectFields hok
    have hundisturbed : Undisturbed m m₁ :=
      (undisturbed_resolveFrom n.name maxDepth n.sigils scope).of_run hres
    have hresolve := subscribes_resolve hres
    have hconnect := subscribes_connect m₁ owner n.name (handler n)
    have halive₁ : ∀ p ∈ m₁.handlerObjects (handler n), p ∈ m₁.living := by
      intro p hp
      rw [hundisturbed.living p]
      exact halive n List.mem_cons_self p (hstatic n m₁ m ▸ hp)
    have hundisturbed₂ : Undisturbed m (m₁.connect owner n.name (handler n)).2 :=
      Undisturbed.steady.trans hundisturbed (undisturbed_connect halive₁)
    have hrest := ih (hundisturbed₂.climbable _ h)
      (hconnect.isBound _ (hresolve.isBound _ hb))
      (fun n' hn' p hp => by
        rw [hundisturbed₂.living p]
        exact halive n' (List.mem_cons_of_mem _ hn') p (hstatic n' _ m ▸ hp)) hok
    -- The connection of the first name is among those at the end, since none is taken out again.
    obtain ⟨_, _, _, hsub, _, _⟩ := connectFields_of_ok hok
    intro n' hn' p hp
    rcases List.mem_cons.1 hn' with rfl | hn'
    · obtain ⟨rfl, hbound⟩ := h.resolveFrom hb hres hp
      refine ⟨⟨m₁.nextId owner, n'.name, handler n'⟩, ?_, rfl, rfl⟩
      rw [hsub.connectionsOf, hconnect.connectionsOf]
      exact List.mem_append_left _
        (List.mem_append_right _ (mem_newConnection.2 ⟨⟨rfl, hbound⟩, rfl⟩))
    · exact hrest n' hn' p hp

/-- Subscribing to several names connects a handler to each and registers what was connected, if
there are names at all. -/
theorem bindFields_eq (o : ObjectId) (names : List ScopedName) (handler : ScopedName → Handler)
    (m : Model) :
    bindFields o names handler m =
      if names.isEmpty then (.ok none, m)
      else match connectFields o handler names [] m with
        | (.error fault, m') => (.error fault, m')
        | (.ok made, m') => (.ok (some (m'.nextId o)), (m'.register o made none).2) := by
  unfold bindFields
  split
  · rfl
  · cases h : connectFields o handler names [] m with
    | mk r m' =>
      cases r with
      | error fault => exact Edit.bind_of_error h
      | ok made => exact Edit.bind_of_ok h

/-- `m'` has the connections `news` beside those of `m`, and the same content, restrictions and deep
watches. -/
structure Connects (news : ObjectId → List Connection) (m m' : Model) : Prop where
  /-- There are the same objects. -/
  size : m'.objects.size = m.objects.size
  /-- The deep watches are the same. -/
  deeps : m'.deeps = m.deeps
  /-- All content is the same. -/
  store : ∀ o, m'.store o = m.store o
  /-- Changes of the same keys are told of. -/
  keysOf : ∀ o, m'.keysOf o = m.keysOf o
  /-- The new connections stand behind the old ones. -/
  connectionsOf : ∀ o, m'.connectionsOf o = m.connectionsOf o ++ news o

/-- What is registered does not count as a connection. -/
theorem Subscribes.register (h : Subscribes news m m') (o : ObjectId)
    (connections : List (ObjectId × SubscriptionId)) (deep : Option DeepId) :
    Connects news m (m'.register o connections deep).2 where
  size := (size_modifyObject m' o _).trans h.size
  deeps := h.deeps
  store p := (store_modifyBinding m' o _ p).trans (h.store p)
  keysOf p := by
    rw [← h.keysOf]
    exact keysOf_modifyBinding (fun _ => by rfl) m' o p
  connectionsOf p := by
    rw [← h.connectionsOf]
    exact elim_modifyBinding (·.connections) (fun _ => by rfl) [] m' o p

/-- Subscribing to several names makes connections with handlers for these names, one at the scope
that each name belongs to. -/
theorem Climbable.bindFields {scope : ObjectId} {outer : List ObjectId}
    {handler : ScopedName → Handler} {names : List ScopedName} {id : Option Nat}
    (h : m.Climbable (scope :: outer)) (hb : m.isBound scope = true)
    (halive : ∀ n ∈ names, ∀ p ∈ m.handlerObjects (handler n), p ∈ m.living)
    (hstatic : ∀ n m₁ m₂, handlerObjects m₁ (handler n) = handlerObjects m₂ (handler n))
    (hok : Model.bindFields scope names handler m = (.ok id, m')) :
    ∃ news, Connects news m m' ∧ (∀ p, ∀ c ∈ news p, ∃ n ∈ names, c.handler = handler n) ∧
      ∀ n ∈ names, ∀ p, (scope :: outer)[n.sigils]? = some p →
        ∃ c ∈ m'.connectionsOf p, c.key = n.name ∧ c.handler = handler n := by
  rw [bindFields_eq] at hok
  split at hok
  · rename_i hempty
    obtain ⟨_, rfl⟩ := Prod.mk.inj hok
    refine ⟨fun _ => [], ⟨rfl, rfl, fun _ => rfl, fun _ => rfl, fun _ => (List.append_nil _).symm⟩,
      ?_, ?_⟩
    · intro _ _ hc
      cases hc
    · intro n hn
      rw [List.isEmpty_iff.1 hempty] at hn
      cases hn
  · cases hc : Model.connectFields scope handler names [] m with
    | mk r m₁ =>
      rw [hc] at hok
      cases r with
      | error => cases hok
      | ok made =>
        obtain ⟨_, rfl⟩ := Prod.mk.inj hok
        obtain ⟨news, added, _, hsub, hnews, _⟩ := connectFields_of_ok hc
        refine ⟨news, hsub.register scope made none, fun p c hc => (hnews p c hc).2, ?_⟩
        intro n hn p hp
        rw [(hsub.register scope made none).connectionsOf, ← hsub.connectionsOf]
        exact h.connectFields hb halive hstatic hc n hn p hp

/-! ## Setting up a deep watch -/

/-- What becomes of a model when a deep watch is set up: it is moved to the value of its property
before it is connected to it. -/
inductive SetUp (o : ObjectId) (n : ScopedName) (k : CallbackId) (m : Model) :
    Except Fault (Nat × ObjectId × Value) → Model → Prop
  /-- The name belongs to no scope. -/
  | unresolved {fault : Fault} {a : Model} (resolve : resolve o n m = (.error fault, a)) :
      SetUp o n k m (.error fault) a
  /-- The value of the property is refused. -/
  | refused {owner : ObjectId} {fault : Fault} {a b : Model}
      (resolve : resolve o n m = (.ok owner, a))
      (retarget : retarget a.deeps.size (a.get owner n.name)
        (a.addDeep ⟨owner, n.name, k, none⟩) = (.error fault, b)) :
      SetUp o n k m (.error fault) b
  /-- The deep watch is connected to its property, and registered. -/
  | bound {owner : ObjectId} {a b c : Model} {seq : SubscriptionId}
      (resolve : resolve o n m = (.ok owner, a))
      (retarget : retarget a.deeps.size (a.get owner n.name)
        (a.addDeep ⟨owner, n.name, k, none⟩) = (.ok (), b))
      (connect : b.connect owner n.name (.follow a.deeps.size) = (seq, c)) :
      SetUp o n k m (.ok ((c.register o [(owner, seq)] (some a.deeps.size)).1, owner,
        a.get owner n.name)) (c.register o [(owner, seq)] (some a.deeps.size)).2

/-- Setting up a deep watch comes to one of these. -/
theorem setUp_of_bindDeep {o : ObjectId} {n : ScopedName} {k : CallbackId}
    {res : Except Fault (Nat × ObjectId × Value)} (h : bindDeep o n k m = (res, m')) :
    SetUp o n k m res m' := by
  unfold bindDeep at h
  cases hres : resolve o n m with
  | mk r a =>
    cases r with
    | error fault =>
      rw [Edit.bind_of_error hres] at h
      obtain ⟨rfl, rfl⟩ := Prod.mk.inj h
      exact .unresolved hres
    | ok owner =>
      rw [Edit.bind_of_ok hres, Edit.bind_of_ok (e := get) rfl, Edit.bind_of_ok (e := get) rfl,
        Edit.bind_of_ok (e := modify _) rfl] at h
      change (retarget a.deeps.size (a.get owner n.name) >>= _)
        (a.addDeep ⟨owner, n.name, k, none⟩) = (res, m') at h
      cases hret : retarget a.deeps.size (a.get owner n.name)
          (a.addDeep ⟨owner, n.name, k, none⟩) with
      | mk r b =>
        cases r with
        | error fault =>
          rw [Edit.bind_of_error hret] at h
          obtain ⟨rfl, rfl⟩ := Prod.mk.inj h
          exact .refused hres hret
        | ok =>
          rw [Edit.bind_of_ok hret, Edit.bind_of_ok (e := modifyGet _) rfl,
            Edit.bind_of_ok (e := modifyGet _) rfl] at h
          obtain ⟨rfl, rfl⟩ := Prod.mk.inj h
          exact .bound hres hret rfl

end LiveScope.Model
