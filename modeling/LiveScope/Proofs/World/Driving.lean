import LiveScope.Proofs.World.Announcing

/-!
# What a setter drives

A subscription stays at the owner that its name had when it was made, and the setter that is handed
out with it resolves the name anew at every write. As long as the name still leads to that owner the
two belong together, whatever was done to the scopes in between: `Setter.set_drives` says that the
value is there when the turns of the handlers begin, and that the function of the subscription is
called with it. When the name leads elsewhere the setter writes elsewhere
(`Setter.not_set_drives`).

A subscription is recognized in later models by its number alone (`Model.Enlists.unique`), since no
number is given out again.
-/

namespace LiveScope

namespace Model

variable {m m' m'' : Model} {o owner : ObjectId} {n : ScopedName} {k : CallbackId}
  {handler : Handler} {c : Connection} {id : Nat}

/-! ## Handlers that hand values on -/

/-- Whether a handler calls a function with every value that its key is given. -/
def HandsOn (m : Model) (handler : Handler) (k : CallbackId) : Prop :=
  handler = .report ⟨k, none⟩ ∨ ∃ d, handler = .follow d ∧ m.handlerCallback (.follow d) = some k

/-- Such a handler ends with the call. -/
theorem HandsOn.told {γ : Type} {w : World γ} (h : w.model.HandsOn handler k)
    (listen : Listener γ) (v : Value) :
    ∃ u, handler.run listen v w = listen (.value k v) u := by
  rcases h with rfl | ⟨d, rfl, hk⟩
  · exact ⟨w, rfl⟩
  · obtain ⟨deep, hdeep, rfl⟩ := Option.map_eq_some_iff.1 hk
    unfold Handler.run
    dsimp only
    rw [hdeep]
    exact ⟨_, rfl⟩

/-- Whether every handler that tells a function in one model tells it in another. -/
def Recalls (m m' : Model) : Prop :=
  ∀ handler k, m.handlerCallback handler = some k → m'.handlerCallback handler = some k

/-- Handlers tell the same functions where the deep watches are the same. -/
theorem Recalls.of_deeps (h : m'.deeps = m.deeps) : m.Recalls m' :=
  fun handler _ hk => (handlerCallback_congr h handler).trans hk

/-- Handlers tell the same functions whatever a client changes. -/
theorem recalls_admits : Admits Recalls where
  steady := ⟨fun _ _ _ hk => hk, fun h h' handler k hk => h' handler k (h handler k hk)⟩
  ensureBinding _ _ := .of_deeps rfl
  watch _ _ _ := .of_deeps rfl
  unwatch _ _ _ := .of_deeps rfl
  setTree m d tree handler _ hk :=
    (handlerCallback_of_rewatches (rewatches_setTree m d tree) handler).trans hk
  addDeep m deep handler k hk := by
    cases handler with
    | report | recompute => exact hk
    | follow d =>
      -- A deep watch that tells somebody is there already.
      have hne : d ≠ m.deeps.size := by
        rintro rfl
        have hnone : m.handlerCallback (.follow m.deeps.size) = none :=
          congrArg (Option.map _) m.deep?_size
        rw [hnone] at hk
        cases hk
      rw [handlerCallback_addDeep, if_neg hne, hk]
  connect _ _ _ _ := .of_deeps rfl
  disconnect _ _ _ := .of_deeps rfl
  register _ _ _ _ := .of_deeps rfl
  unregister _ _ _ := .of_deeps rfl
  unregisterAll _ _ := .of_deeps rfl
  clear _ _ := .of_deeps rfl
  holds _ _ := .of_deeps rfl
  add _ _ := .of_deeps rfl
  setStore _ _ _ := .of_deeps rfl
  bind m v keys := by
    unfold Model.bind
    cases v.object? with
    | none => exact .of_deeps rfl
    | some o =>
      dsimp only
      rw [Edit.bind_of_ok (e := get) rfl]
      by_cases hb : m.isBound o = true
      · rw [if_pos hb]
        exact .of_deeps rfl
      · rw [if_neg hb]
        exact .of_deeps rfl
  setParent m o parent _ := by
    unfold Model.setParent
    split
    · exact .of_deeps rfl
    · exact .of_deeps rfl

/-- A handler goes on handing values on. -/
theorem HandsOn.recalls (h : m.HandsOn handler k) (hm : m.Recalls m') : m'.HandsOn handler k :=
  h.imp_right fun ⟨d, hd, hk⟩ => ⟨d, hd, hm _ k hk⟩

/-! ## Subscriptions to a name -/

/-- What has become of a model when a function was subscribed to a name, under a number: the owner
of the name has a new handler for its key that hands values on to the function, and the registration
records the handler. -/
structure Enlists (o : ObjectId) (n : ScopedName) (k : CallbackId) (id : Nat) (owner : ObjectId)
    (c : Connection) (m m' : Model) : Prop where
  /-- The owner is what the name resolves to. -/
  owned : (resolve o n m).1 = .ok owner
  /-- The registration records the handler. -/
  registered : ∃ deep, ⟨id, [(owner, ⟨c.key, c.seq⟩)], deep⟩ ∈ m'.registrationsOf o
  /-- The handler is connected to the owner. -/
  connected : c ∈ m'.connectionsOf owner
  /-- It is connected to the key of the name. -/
  key : c.key = n.name
  /-- It hands values on to the function. -/
  handsOn : m'.HandsOn c.handler k

/-- Whether the subscription that an object has under a number is there with its handler: neither
the one nor the other was released. -/
def Active (m : Model) (o : ObjectId) (id : Nat) (owner : ObjectId) (c : Connection) : Prop :=
  c ∈ m.connectionsOf owner ∧
    ∃ deep, ⟨id, [(owner, ⟨c.key, c.seq⟩)], deep⟩ ∈ m.registrationsOf o

/-- What is there under the number of a subscription is that subscription. -/
theorem Enlists.unique {owner' : ObjectId} {c' : Connection} (h : Enlists o n k id owner c m m')
    (hn : m'.Numbered) (hm : m'.Renews m'') (hactive : m''.Active o id owner' c') :
    owner' = owner ∧ c' = c := by
  obtain ⟨hconnected, deep', hregistered'⟩ := hactive
  obtain ⟨deep, hregistered⟩ := h.registered
  have hconnected₀ := h.connected
  rw [registrationsOf_eq] at hregistered hregistered'
  rw [connectionsOf_eq] at hconnected hconnected₀
  -- The number was given out before, so that the registration under it is the old one.
  have hid : id ≤ (m'.bindingOf o).lastId :=
    (hn o).registrations.bounded id (List.mem_map.2 ⟨_, hregistered, rfl⟩)
  have hold := (hm.bindings o).registrations _ hregistered' hid
  have hsame := (hn o).registrations.eq_of_number hold hregistered rfl
  obtain ⟨howner, hseq⟩ := Prod.mk.inj (List.cons.inj (Registration.mk.inj hsame).2.1).1
  obtain ⟨_, hseq⟩ := SubscriptionId.mk.inj hseq
  subst howner
  -- So was the number of the handler that it records.
  have hle : c'.seq ≤ (m'.bindingOf owner').lastId := by
    rw [hseq]
    exact (hn owner').connections.bounded c.seq (List.mem_map_of_mem hconnected₀)
  have hold := (hm.bindings owner').connections c' hconnected hle
  exact ⟨rfl, (hn owner').connections.eq_of_number hold hconnected₀ hseq⟩

/-- A handler that is connected to the owner of a name and registered is a subscription. -/
theorem enlists_register {a b : Model} (hres : resolve o n m = (.ok owner, a))
    (howner : b.isBound owner = true) (hb : b.isBound o = true) (hk : b.HandsOn handler k)
    (deep : Option DeepId) :
    let made := b.connect owner n.name handler
    let registered := made.2.register o [(owner, made.1)] deep
    Enlists o n k registered.1 owner ⟨b.nextId owner, n.name, handler⟩ m registered.2 := by
  have hsub := subscribes_connect b owner n.name handler
  have hconnected : ⟨b.nextId owner, n.name, handler⟩ ∈
      (b.connect owner n.name handler).2.connectionsOf owner := by
    rw [hsub.connectionsOf]
    exact List.mem_append_right _ (mem_newConnection.2 ⟨⟨rfl, howner⟩, rfl⟩)
  refine ⟨by rw [hres], ⟨deep, ?_⟩, ?_, rfl, hk.recalls (.of_deeps rfl)⟩
  · rw [registrationsOf_register (hsub.isBound o hb), if_pos rfl]
    exact List.mem_append_right _ List.mem_cons_self
  · obtain ⟨new, hnew, _⟩ :=
      (adds_register (hsub.isBound o hb) [(owner, _)] deep k).connections owner
    rw [hnew]
    exact List.mem_append_left _ hconnected

/-- To subscribe a function to a property is such a subscription. -/
theorem enlists_bindProperty (hwhole : m.Whole) (hb : m.isBound o = true)
    (h : bindProperty o n k m = (.ok id, m')) :
    ∃ owner c, Enlists o n k id owner c m m' := by
  unfold bindProperty at h
  cases hres : resolve o n m with
  | mk r a =>
    cases r with
    | error fault =>
      rw [Edit.bind_of_error hres] at h
      cases h
    | ok owner =>
      rw [Edit.bind_of_ok hres, Edit.bind_of_ok (e := modifyGet _) rfl] at h
      obtain ⟨hid, rfl⟩ := Prod.mk.inj h
      obtain rfl := Except.ok.inj hid
      have howner := isBound_of_resolve hwhole hb hres
      have hb' := (subscribes_resolve hres).isBound o hb
      exact ⟨owner, _, enlists_register hres howner hb' (.inl rfl) none⟩

/-- To subscribe it to a property with everything inside its value is one, too. -/
theorem enlists_bindDeep (hwhole : m.Whole) (hb : m.isBound o = true) {v : Value}
    (h : bindDeep o n k m = (.ok (id, owner, v), m')) :
    ∃ c, Enlists o n k id owner c m m' := by
  have hset := setUp_of_bindDeep h
  generalize hr : (Except.ok (id, owner, v) : Except Fault (Nat × ObjectId × Value)) = r at hset
  cases hset with
  | unresolved | refused => cases hr
  | @bound owner a b c' seq hres hret hconnect =>
    obtain ⟨rfl, rfl, rfl⟩ : id = _ ∧ _ = owner ∧ v = _ := by
      simpa only [Except.ok.injEq, Prod.mk.injEq] using hr
    obtain ⟨rfl, rfl⟩ := Prod.mk.inj hconnect
    have hsub := subscribes_resolve hres
    have howner := isBound_of_resolve hwhole hb hres
    have hr : (a.addDeep ⟨owner, n.name, k, none⟩).Rewatches b :=
      (rewatches_retarget _ _).of_run hret
    have hk : b.handlerCallback (.follow a.deeps.size) = some k := by
      rw [handlerCallback_of_rewatches hr, handlerCallback_addDeep, if_pos rfl]
    exact ⟨_, enlists_register hres (hr.isBound owner howner) (hr.isBound o (hsub.isBound o hb))
      (.inr ⟨_, rfl, hk⟩) _⟩

end Model

/-- A function that is subscribed to a name is enlisted, and then told the value if it is to be told
at once. -/
theorem Subscription.enlists {γ : Type} {listen : Listener γ} {w w' : World γ} {o : ObjectId}
    {n : ScopedName} {k : CallbackId} {id : Nat} {s : Subscription} (hwhole : w.model.Whole)
    (hb : w.model.isBound o = true) (hs : s = .property n ∨ s = .object n)
    (h : s.run listen o k w = (.ok (some id), w')) :
    ∃ owner c m, Model.Enlists o n k id owner c w.model m ∧ w.model.Renews m ∧
      (w' = { w with model := m } ∨
        ∃ hs v, w' = World.holding hs (listen (.value k v)) { w with model := m }) := by
  rcases hs with rfl | rfl
  · -- A handler is connected, and nobody is told.
    rw [run, map_eq] at h
    obtain ⟨hr, rfl⟩ := Prod.mk.inj h
    cases hbind : Model.bindProperty o n k w.model with
    | mk r m =>
      have hedit : (Act.edit (Model.bindProperty o n k) : Act γ Nat) w =
          (r, { w with model := m }) := by
        unfold Act.edit
        rw [hbind]
      rw [hedit] at hr ⊢
      cases r with
      | error => cases hr
      | ok id' =>
        obtain rfl : id' = id := Option.some.inj (Except.ok.inj hr)
        obtain ⟨owner, c, henlists⟩ := Model.enlists_bindProperty hwhole hb hbind
        have hrenews := Model.renews_alters.bindFields o [n] (fun _ => .report ⟨k, none⟩) w.model
        rw [Model.bindFields_singleton, hbind] at hrenews
        exact ⟨owner, c, m, henlists, hrenews, .inl rfl⟩
  · -- A deep watch is set up, and its function is told the value.
    rw [run, map_eq, Scope.bindObject_eq] at h
    cases hbind : Model.bindDeep o n k w.model with
    | mk r m =>
      rw [hbind] at h
      cases r with
      | error => cases h
      | ok x =>
        obtain ⟨id', owner, v⟩ := x
        obtain ⟨hid, rfl⟩ := Prod.mk.inj h
        obtain rfl : id' = id := Option.some.inj (Except.ok.inj hid)
        obtain ⟨c, henlists⟩ := Model.enlists_bindDeep hwhole hb hbind
        have hrenews : w.model.Renews m := (Model.renews_alters.bindDeep o n k).of_run hbind
        exact ⟨owner, c, m, henlists, hrenews, .inr ⟨_, v, rfl⟩⟩

/-! ## Writes through a setter -/

/-- To write a key of a map is to change the value there and to tell of it. -/
theorem Proxy.set_of_map {γ : Type} (listen : Listener γ) {o : ObjectId} {w : World γ}
    (hmap : (w.model.store o).isList = false) (key : String) (v : Value) :
    ∃ s : Store, s.get key = v ∧ Proxy.set listen o key v w =
      (.ok (), (w.mapModel (·.setStore o s)).holding (.object o :: v.holds)
        (·.notify listen o key v)) := by
  cases hs : w.model.store o with
  | list items =>
    rw [hs] at hmap
    cases hmap
  | map entries =>
    refine ⟨.map (entries.insert key v), ?_, ?_⟩
    · show ((entries.insert key v).find? key).getD .null = v
      rw [Dict.find?_insert, if_pos rfl]
      rfl
    · have hwrite : (w.model.store o).write w.model.text key v =
          .ok (.map (entries.insert key v), .key) := by
        rw [hs]
        rfl
      unfold Proxy.set
      rw [Act.edit_bind_of_ok (Proxy.update_of_ok (by rw [hwrite]; rfl))]
      rfl

/-- What a write through a setter finds when it begins to tell: the value is there, and nothing was
subscribed or released. -/
structure Setter.Written {γ : Type} (owner : ObjectId) (key : String) (v : Value)
    (w u : World γ) : Prop where
  /-- The value is there. -/
  stored : u.model.get owner key = v
  /-- The connections are the same. -/
  connectionsOf : ∀ p, u.model.connectionsOf p = w.model.connectionsOf p
  /-- Changes of the same keys are told of. -/
  keysOf : ∀ p, u.model.keysOf p = w.model.keysOf p
  /-- The tables are renewed. -/
  renews : w.model.Renews u.model
  /-- Handlers tell the functions that they told. -/
  recalls : w.model.Recalls u.model

/-- A write through a setter whose name belongs to a map succeeds, and tells of the key. -/
theorem Setter.set_eq {γ : Type} (listen : Listener γ) {w : World γ} {o owner : ObjectId}
    {n : ScopedName} (hlinked : w.model.Linked) (halive : w.model.isAlive o = true)
    (howner : (Model.resolve o n w.model).1 = .ok owner) (hexists : owner < w.model.objects.size)
    (hmap : (w.model.store owner).isList = false) (v : Value) :
    ∃ u hs, Written owner n.name v w u ∧ Setter.set listen ⟨o, n⟩ v w =
      (.ok (), (u.notify listen owner n.name v).mapModel (·.releaseAll hs)) := by
  -- The object is held while its name is resolved, which does not change the owner.
  let held : World γ := w.mapModel (·.holdAll [.object o])
  have howner' : (Model.resolve o n held.model).1 = .ok owner :=
    Model.resolve_hold hlinked (List.contains_iff_mem.1 halive) howner
  cases hres : Model.resolve o n held.model with
  | mk r a =>
    rw [hres] at howner'
    obtain rfl : r = .ok owner := howner'
    have hsub := Model.subscribes_resolve hres
    have hstore (p : ObjectId) : a.store p = w.model.store p := hsub.store p
    obtain ⟨s, hs, hset⟩ := Proxy.set_of_map listen (w := { w with model := a })
      (by rw [hstore]; exact hmap) n.name v
    let u : World γ := { w with
      model := (a.setStore owner s).holdAll (.object owner :: v.holds) }
    have hwritten : Written owner n.name v w u := by
      have hsize : owner < a.objects.size := Nat.lt_of_lt_of_eq hexists hsub.size.symm
      refine ⟨?_, fun p => ?_, fun p => ?_, ?_, ?_⟩
      · show ((a.setStore owner s).store owner).get n.name = v
        rw [Model.store_setStore_self hsize, hs]
      · have hsame := hsub.connectionsOf p
        rw [List.append_nil] at hsame
        exact (Model.connectionsOf_setStore a owner s p).trans hsame
      · exact (Model.keysOf_setStore a owner s p).trans (hsub.keysOf p)
      · have hresolved : held.model.Renews a :=
          (Model.renews_alters.resolve o n).of_run hres
        exact Model.Renews.steady.trans (Model.renews_holds w.model _)
          (Model.Renews.steady.trans hresolved (Model.Renews.steady.trans
            (.setStore a owner s) (Model.renews_holds _ _)))
      · exact .of_deeps hsub.deeps
    refine ⟨u, .object owner :: v.holds ++ [.object o], hwritten, ?_⟩
    -- What is held for the write is released first, and then the object.
    have hvalue : Scope.setValue listen o n v w =
        (.ok (), ((u.notify listen owner n.name v).mapModel
          (·.releaseAll (.object owner :: v.holds))).mapModel (·.releaseAll [.object o])) := by
      unfold Scope.setValue Act.holding
      rw [Act.edit_bind_of_ok hres]
      show (match Proxy.set listen owner n.name v { w with model := a } with
        | (r, u) => (r, u.mapModel (·.releaseAll [.object o]))) = _
      rw [hset]
      rfl
    have hlive : Setter.set listen ⟨o, n⟩ v w = Scope.setValue listen o n v w := by
      show (if w.model.isAlive o then Scope.setValue listen o n v else throw _) w = _
      rw [if_pos halive]
    have hreleases (m : Model) : (m.releaseAll (.object owner :: v.holds)).releaseAll [.object o] =
        m.releaseAll (.object owner :: v.holds ++ [.object o]) := by
      unfold Model.releaseAll
      rw [List.foldl_append]
    rw [hlive, hvalue]
    exact congrArg (fun m => (Except.ok (), World.mk m _)) (hreleases _)

/-- As long as its name leads to the owner that the subscription was made at, a setter drives the
subscription: what is written is there when the turns of the handlers begin, and the function of the
subscription is called with it, unless a call made before takes its handler off. -/
theorem Setter.set_drives {listen₀ listen : Listener History} {w₀ w₁ w : World History}
    {o owner : ObjectId} {n : ScopedName} {k : CallbackId} {s : Subscription} {id : Nat}
    {c : Connection} (hstart : Moves Request ⟨{}, []⟩ w₀) (hwhole : w₀.model.Whole)
    (hb : w₀.model.isBound o = true) (hs : s = .property n ∨ s = .object n)
    (hlisten₀ : ∀ n u, Moves Request (u.record (.told n)) (listen₀ n u))
    (hbound : s.run listen₀ o k w₀ = (.ok (some id), w₁)) (hlater : Moves Request w₁ w)
    (hactive : w.model.Active o id owner c) (halive : w.model.isAlive o = true)
    (hkeys : w.model.keysOf owner = none) (hmap : (w.model.store owner).isList = false)
    (hsame : (Model.resolve o n w.model).1 = .ok owner)
    (hlisten : ∀ n u, Moves Request (u.record (.told n)) (listen n u)) (v : Value) :
    (Model.resolve o n w₀.model).1 = .ok owner ∧ (Setter.set listen ⟨o, n⟩ v w).1 = .ok () ∧
    ∃ (u : World History) (calls : List (Call History)) (hs : List Hold),
      u.model.get owner n.name = v ∧ u.TakesTurns listen owner n.name v calls ∧
      (Setter.set listen ⟨o, n⟩ v w).2 =
        (u.notify listen owner n.name v).mapModel (·.releaseAll hs) ∧
      (∀ call ∈ calls, call.IsOf c → ∃ u', call.after = listen (.value k v) u') ∧
      ∃ call ∈ calls, call.IsOf c ∨ call.Removes owner c := by
  obtain ⟨owner', c', m, henlists, hrenews₀, hw⟩ := Subscription.enlists hwhole hb hs hbound
  -- What holds over whatever a client changes holds from the subscription to the write.
  have hadmits {I : Model → Model → Prop} (hI : Model.Admits I) : I m w.model := by
    refine hI.steady.trans ?_ (hlater.admits hI)
    rcases hw with rfl | ⟨hs, v, rfl⟩
    · exact hI.steady.refl m
    · have hsteady : Steady fun u u' : World History => I u.model u'.model :=
        ⟨fun u => hI.steady.refl u.model, hI.steady.trans⟩
      have htold (u : World History) : I u.model (listen₀ (.value k v) u).model := by
        have := (hlisten₀ (.value k v) u).admits hI
        exact this
      have hloose : World.Loose fun u u' : World History => I u.model u'.model :=
        fun u holds => hI.holds u.model holds
      have hholding := hloose.holding hsteady htold hs { w₀ with model := m }
      exact hholding
  have hrenews : m.Renews w.model := hadmits Model.renews_admits
  have hrecalls : m.Recalls w.model := hadmits Model.recalls_admits
  have hn : m.Numbered := hrenews₀.numbered (numbered_of_moves hstart)
  have hlinked : w.model.Linked := hrenews.linked (hrenews₀.linked (linked_of_moves hstart))
  obtain ⟨rfl, rfl⟩ := henlists.unique hn hrenews hactive
  have hbound := Model.isBound_of_mem_connectionsOf hactive.1
  obtain ⟨u, hs, hwritten, hset⟩ :=
    Setter.set_eq listen hlinked halive hsame (Model.lt_size_of_isBound hbound) hmap v
  -- The handler is among those whom the dispatch finds when it begins.
  have hc : c ∈ u.model.connectionsOf owner := by
    rw [hwritten.connectionsOf]
    exact hactive.1
  have hkeys' : u.model.keysOf owner = none := (hwritten.keysOf owner).trans hkeys
  have hfound : .handler c ∈ u.model.recipients owner n.name :=
    List.mem_append_left _ (List.mem_map_of_mem (Model.mem_handlersOf.2 ⟨hc, henlists.key⟩))
  have hnotifies := Model.notifies_of_mem hc (Model.opens_of_none hkeys' n.name)
  have hnumbered : u.model.Numbered := hwritten.renews.numbered (hrenews.numbered hn)
  obtain ⟨calls, hdispatches⟩ := dispatches_notify (v := v) hnumbered
    (fun n u => (hlisten n u).renews) hnotifies
  have hturns := hdispatches.takesTurns hnumbered hlisten
  refine ⟨henlists.owned, by rw [hset], u, calls, hs, hwritten.stored, hturns, by rw [hset], ?_,
    hturns.turns.called_or_removed hc hfound⟩
  intro call hcall hof
  have hcalled : (u.holdHandlers owner n.name).model.Recalls call.before.model := by
    have hsteady : Steady fun u u' : World History => u.model.Recalls u'.model :=
      ⟨fun u => Model.recalls_admits.steady.refl u.model, Model.recalls_admits.steady.trans⟩
    have hattends : World.Attends fun u u' : World History => u.model.Recalls u'.model :=
      Model.recalls_admits.toWatches.attends Model.recalls_admits.setTree
        Model.recalls_admits.holds fun _ _ h => h
    have htold (n : Notice) (u : World History) : u.model.Recalls (listen n u).model := by
      have := (hlisten n u).admits Model.recalls_admits
      exact this
    exact (hturns.turns.call_within hsteady hattends htold call hcall).1
  have hhands : call.before.model.HandsOn c.handler k :=
    ((henlists.handsOn.recalls hrecalls).recalls hwritten.recalls).recalls hcalled
  obtain ⟨u', hu'⟩ := hhands.told listen v
  refine ⟨u', ?_⟩
  rw [hturns.turns.after_eq call hcall, show call.recipient = .handler c from hof]
  exact hu'

/-- Two scopes with a member `x`, and an object that is linked to the first. -/
def Model.housed : Model :=
  let scope : Store := .map (Dict.ofList [("x", .bool true)])
  let m := (((Model.add {} scope).2.add scope).2.add (.map .empty)).2
  let m := ((m.ensureBinding 0).ensureBinding 1).ensureBinding 2
  { (Model.setParent 2 (some 0) m).2 with holds := [.object 0, .object 1, .object 2] }

/-- A run makes it. -/
theorem Model.housed_moves : Moves Request ⟨{}, []⟩ ⟨Model.housed, []⟩ :=
  .next noting_moves (.add (s := .map (Dict.ofList [("x", .bool true)]))) <|
  .next noting_moves (.add (s := .map (Dict.ofList [("x", .bool true)]))) <|
  .next noting_moves (.add (s := .map .empty)) <|
  .next noting_moves (.proxy (o := 0)) <|
  .next noting_moves (.proxy (o := 1)) <|
  .next noting_moves (.proxy (o := 2)) <|
  .next noting_moves (.setParent (o := 2) fun _ (h : some 0 = some _) => Option.some.inj h ▸ rfl) <|
  .next noting_moves .hold <|
  .done _

/-- Nothing in it refers to an object. -/
theorem Model.whole_housed : Model.housed.Whole := by
  intro o q hq
  match o with
  | 0 | 1 => cases List.mem_singleton.1 hq
  | 2 | _ + 3 => cases hq

namespace Setter

/-- A function is subscribed from the object to the `x` of its scope. -/
def subscribed : World History :=
  ((Subscription.property ⟨1, "x"⟩).run noting 2 1 ⟨Model.housed, []⟩).2

/-- The object refers to the same scope in another way, by its member `parent`. -/
def relinked : World History :=
  let w := subscribed.mapModel (·.setStore 2 (.map (Dict.ofList [(parentKey, .object 0)])))
  w.mapModel fun m => (Model.setParent 2 none m).2

/-- The object is linked to the other scope. -/
def rewired : World History := subscribed.mapModel fun m => (Model.setParent 2 (some 1) m).2

/-- When the scope is the same as before, however it is found, the setter drives the
subscription. -/
theorem set_drives_relinked :
    (Model.housed.isBound 2 = true ∧ Moves Request subscribed relinked ∧
      relinked.model.Active 2 1 0 ⟨1, "x", .report ⟨1, none⟩⟩ ∧
      relinked.model.isAlive 2 = true ∧ (Model.resolve 2 ⟨1, "x"⟩ relinked.model).1 = .ok 0) ∧
    (Setter.set noting ⟨2, ⟨1, "x"⟩⟩ (.bool false) relinked).1 = .ok () ∧
    (Setter.set noting ⟨2, ⟨1, "x"⟩⟩ (.bool false) relinked).2.client =
      [.told (.value 1 (.bool false))] := by
  have hbound : (Subscription.property ⟨1, "x"⟩).run noting 2 1 ⟨Model.housed, []⟩ =
      (.ok (some 1), subscribed) := rfl
  have hlater : Moves Request subscribed relinked :=
    .next noting_moves .setStore <| .next noting_moves (.setParent fun _ hp => by cases hp) <|
      .done _
  have hactive : relinked.model.Active 2 1 0 ⟨1, "x", .report ⟨1, none⟩⟩ :=
    ⟨List.mem_cons_self, none, List.mem_cons_self⟩
  have hsame : (Model.resolve 2 ⟨1, "x"⟩ relinked.model).1 = .ok 0 := rfl
  have halive : relinked.model.isAlive 2 = true := by decide
  obtain ⟨_, hok, _⟩ := set_drives Model.housed_moves Model.whole_housed rfl (.inl rfl)
    noting_moves hbound hlater hactive halive rfl rfl hsame noting_moves (.bool false)
  exact ⟨⟨rfl, hlater, hactive, halive, hsame⟩, hok, rfl⟩

/-- When the object was linked to another scope the setter writes there: nobody is called, and the
property that the function is subscribed to stays what it was. -/
theorem not_set_drives :
    Moves Request ⟨{}, []⟩ ⟨Model.housed, []⟩ ∧
    (Model.resolve 2 ⟨1, "x"⟩ Model.housed).1 = .ok 0 ∧
    ((Subscription.property ⟨1, "x"⟩).run noting 2 1 ⟨Model.housed, []⟩).1 = .ok (some 1) ∧
    Moves Request subscribed rewired ∧
    rewired.model.Active 2 1 0 ⟨1, "x", .report ⟨1, none⟩⟩ ∧
    (∀ o ∈ [0, 1, 2], rewired.model.isAlive o = true) ∧ rewired.model.keysOf 0 = none ∧
    (rewired.model.store 0).isList = false ∧
    (Setter.set noting ⟨2, ⟨1, "x"⟩⟩ (.bool false) rewired).1 = .ok () ∧
    (Setter.set noting ⟨2, ⟨1, "x"⟩⟩ (.bool false) rewired).2.model.get 0 "x" = .bool true ∧
    (Setter.set noting ⟨2, ⟨1, "x"⟩⟩ (.bool false) rewired).2.client = [] := by
  have hlater : Moves Request subscribed rewired :=
    .next noting_moves (.setParent fun p hp => Option.some.inj hp ▸ rfl) <| .done _
  exact ⟨Model.housed_moves, rfl, rfl, hlater, ⟨List.mem_cons_self, none, List.mem_cons_self⟩,
    by decide, rfl, rfl, rfl, rfl, rfl⟩

end Setter

end LiveScope
