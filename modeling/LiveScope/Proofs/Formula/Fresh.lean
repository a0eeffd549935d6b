import LiveScope.Proofs.Formula.Fields
import LiveScope.Proofs.Formula.Tracking
import LiveScope.Proofs.Model.Subscribing
import LiveScope.Proofs.World.Binding
import LiveScope.Proofs.World.Dispatching

/-!
# Bound formulas are never stale

`Formula.Step` are the operations of a run in which a formula is bound and its fields are written:
any write of any object, before and after the formula is bound, at the top or from inside a function
that is told of something; the binding itself, of an expression or of a template
(`Formula.Binds`); and whatever else leaves the formula alone. Each of them leads onward, writes of
fields included (`Formula.write_within`), and so does a whole run. `Formula.lastHeard_eq_value` is
the result: a binding that succeeds tells the value at once, and when a run is over in which that
happened, the value that the function of the formula was told last is the value of the formula.

The objects of a run are part of its model from the start; an object that is made later is one that
nothing refers to before.
-/

namespace LiveScope

namespace Formula

/-- What may be written while a formula is bound: nothing inside its row, and no list to one of its
fields. -/
structure Admits (f : Formula) (outer : List ObjectId) (inside : ObjectId → Prop) (m : Model)
    (o : ObjectId) (op : Operation) : Prop where
  /-- What is written is not inside the row. -/
  outside : ¬ inside o
  /-- No list is written to a field. -/
  settled : ∀ key v, op = .set key v → f.Field outer o key → m.Settled inside v

/-- What a model is when a formula can be bound: the scopes of the formula's fields exist, each with
the next as its enclosing scope, they are maps whose changes are all told of, no field has a list
for its value, and the row is alive, with all that is in it `inside`. -/
structure Bindable (f : Formula) (outer : List ObjectId) (inside : ObjectId → Prop) (m : Model) :
    Prop where
  /-- The scope of the formula has a binding. -/
  bound : m.isBound f.scope = true
  /-- Its scopes exist, each enclosed by the next. -/
  climbable : m.Climbable (f.scope :: outer)
  /-- The row is alive. -/
  row : ∀ q, f.row.object? = some q → q ∈ m.living
  /-- All changes of the scopes are told of. -/
  unrestricted : ∀ o ∈ f.scope :: outer, m.keysOf o = none
  /-- The scopes are maps. -/
  maps : ∀ o ∈ f.scope :: outer, (m.store o).isList = false
  /-- No field has a list for its value, unless it is inside the row. -/
  settled : ∀ o key, f.Field outer o key → m.Settled inside (m.get o key)
  /-- What is in something inside is inside. -/
  closed : m.Closed inside

/-- Whether the formula is bound from one world to another: by the source of an expression, or by a
template. -/
inductive Binds (f : Formula) {γ : Type} (listen : Listener γ) (w : World γ) (b : BoundFormula)
    (w' : World γ) : Prop
  /-- An expression is bound, and its source is read as that of the formula. -/
  | expr {src : String} (source : Expr.ofSource src = .ok f.expr)
      (binds : Scope.bindExpr listen f.scope src f.row f.sink w = (.ok b, w'))
  /-- A template is bound, and it is read as the expression of the formula. -/
  | template {src : String} (source : Expr.ofTemplate src = .ok f.expr)
      (binds : Scope.bindTemplate listen f.scope src f.row f.sink w = (.ok b, w'))

/-- An operation of a run in which the formula is bound at most once. `outer` are the scopes that
enclose the formula's own, and `inside` are the objects inside its row. -/
inductive Step (f : Formula) (outer : List ObjectId) (inside : ObjectId → Prop) :
    Listener History → World History → World History → Prop
  /-- A write. Once the formula is bound, its scopes are in place whenever a turn comes. -/
  | write {listen : Listener History} {w : World History} {o : ObjectId} {op : Operation}
      (admitted : f.sink.lastHeard w.client ≠ none → f.Admits outer inside w.model o op)
      (intact : op.Turns (f.Intact outer) listen o w) :
      Step f outer inside listen w (op.run listen o w)
  /-- The formula is bound. -/
  | bind {listen : Listener History} {w w' : World History} {b : BoundFormula}
      (unbound : f.sink.lastHeard w.client = none) (bindable : f.Bindable outer inside w.model)
      (binds : f.Binds listen w b w') : Step f outer inside listen w w'
  /-- Others are subscribed or released. -/
  | other {listen : Listener History} {w : World History} {m : Model}
      (spares : f.Spares w.model m) : Step f outer inside listen w { w with model := m }
  /-- Others are told something. -/
  | tell {listen : Listener History} {w : World History} {n : Notice}
      (others : f.sink.heard? n = none) : Step f outer inside listen w (listen n w)

variable {f : Formula} {outer : List ObjectId} {inside : ObjectId → Prop}
variable {listen : Listener History} {w w' : World History}

/-! ## Writes -/

section Writes

variable {m : Model} {o : ObjectId} {op : Operation} {μ : Mutation}

/-- What is inside the row is not written. -/
theorem store_written_of_inside (hout : ¬ inside o) {p : ObjectId} (hp : inside p) (s : Store) :
    (m.setStore o s).store p = m.store p := by
  rw [Model.store_setStore, if_neg]
  rintro ⟨rfl, _⟩
  exact hout hp

/-- A write changes the value of a field only if it is the write of that field. -/
theorem field_written (hlive : f.Live outer inside m) (h : op.mutation? m o = .ok μ)
    {p : ObjectId} {key : String} (hfield : f.Field outer p key) :
    (m.setStore o μ.store).get p key = m.get p key ∨
      p = o ∧ ∃ v, μ.announcements = [(key, v)] ∧ (op = .set key v ∨ v = .null) ∧
        (m.setStore o μ.store).get p key = v := by
  unfold Model.get
  rw [Model.store_setStore]
  split
  · rename_i hp
    obtain ⟨rfl, _⟩ := hp
    obtain ⟨k, v, hann, hop, hget⟩ := Operation.mutation?_of_map (hlive.maps p key hfield) h
    rw [hget]
    by_cases hkey : key = k
    · subst hkey
      rw [if_pos rfl]
      exact .inr ⟨rfl, v, hann, hop.imp_right And.right, rfl⟩
    · rw [if_neg hkey]
      exact .inl rfl
  · exact .inl rfl

/-- A formula whose fields are connected has them connected after a write. -/
theorem live_written (hlive : f.Live outer inside m) (hadmits : f.Admits outer inside m o op)
    (h : op.mutation? m o = .ok μ) : f.Live outer inside (m.setStore o μ.store) where
  connected p key hfield := by
    rw [Model.connectionsOf_setStore]
    exact hlive.connected p key hfield
  unrestricted p key hfield := by
    rw [Model.keysOf_setStore]
    exact hlive.unrestricted p key hfield
  maps p key hfield := by
    rw [Operation.isList_setStore h]
    exact hlive.maps p key hfield
  settled p key hfield := by
    unfold Model.Settled
    simp only [Operation.isList_setStore h]
    rcases field_written hlive h hfield with heq | ⟨_, v, _, hop, heq⟩
    · rw [heq]
      exact hlive.settled p key hfield
    · rw [heq]
      rcases hop with hop | rfl
      · exact hadmits.settled key v hop (‹p = o› ▸ hfield)
      · intro q hq
        cases hq
  closed p hp := by
    rw [store_written_of_inside hadmits.outside hp]
    exact hlive.closed p hp

/-- To tell of one announcement after the other leads onward, and makes the world current if one of
them is that of a field. -/
theorem announce_within (hrow : ∀ q, f.row.object? = some q → inside q) (hres : f.Resolved outer)
    (hlisten : ∀ n u, f.Onward outer inside (u.record (.told n)) (listen n u))
    {announcements : List (String × Value)}
    (hturns : Mutation.AnnounceTurns (f.Intact outer) listen o announcements w)
    (hready : f.Ready outer inside w) :
    f.Carries outer inside w (Mutation.announce listen o announcements w) ∧
      (f.Current outer inside w ∨
        f.Tracked outer inside w ∧ (∃ a ∈ announcements, f.Field outer o a.1) →
        f.Current outer inside (Mutation.announce listen o announcements w)) := by
  induction announcements generalizing w with
  | nil =>
    refine ⟨.refl hready, fun h => h.resolve_right ?_⟩
    rintro ⟨_, _, ha, _⟩
    cases ha
  | cons a rest ih =>
    obtain ⟨hfirst, hrest⟩ := hturns
    obtain ⟨hcarries, hcurrent⟩ := notify_within hrow hres hlisten hfirst hready
    obtain ⟨hcarries', hcurrent'⟩ := ih hrest hcarries.ready
    refine ⟨hcarries.trans hcarries', fun h => hcurrent' ?_⟩
    rcases h with h | ⟨ht, b, hb, hfield⟩
    · exact .inl (hcurrent (.inl h))
    · rcases List.mem_cons.1 hb with rfl | hb
      · exact .inl (hcurrent (.inr ⟨ht, hfield⟩))
      · exact .inr ⟨hcarries.tracked ht, b, hb, hfield⟩

/-- Whatever a write does to the value of a formula, the world is current when the write is told
of. -/
theorem write_within (hrow : ∀ q, f.row.object? = some q → inside q) (hres : f.Resolved outer)
    (hlisten : ∀ n u, f.Onward outer inside (u.record (.told n)) (listen n u))
    (hadmits : f.sink.lastHeard w.client ≠ none → f.Admits outer inside w.model o op)
    (hturns : op.Turns (f.Intact outer) listen o w) :
    f.Onward outer inside w (op.run listen o w) := by
  intro hready
  rw [Operation.run_eq]
  cases hμ : op.mutation? w.model o with
  | error => exact ⟨.refl hready, id⟩
  | ok μ =>
    have hobject := Operation.object_of_mutation? hμ
    have hturns := hturns μ hμ
    dsimp only
    unfold Mutation.run World.holding
    rw [hobject] at hturns ⊢
    -- The content changes first; that alone may leave the formula with another value.
    let w₁ : World History := w.mapModel (·.setStore o μ.store)
    have hconnections (p : ObjectId) : w₁.model.connectionsOf p = w.model.connectionsOf p :=
      Model.connectionsOf_setStore w.model o μ.store p
    have htracked (ht : f.Tracked outer inside w) : f.Tracked outer inside w₁ :=
      ⟨ht.heard, live_written ht.live (hadmits ht.heard) hμ⟩
    have hwritten : f.Carries outer inside w w₁ := by
      refine ⟨⟨⟨fun p c hc => ?_, hready.exclusive.deeps⟩, ?_⟩, htracked, fun p c hc _ => ?_⟩
      · exact hready.exclusive.handlers p c (hconnections p ▸ hc)
      · refine hready.bound.imp (fun hsilent => ⟨hsilent.heard, fun p c hc => ?_⟩) htracked
        exact hsilent.runs p c (hconnections p ▸ hc)
      · rw [hconnections]
        exact hc
    have hstill (hcurrent : f.Current outer inside w) : f.Current outer inside w₁ ∨
        f.Tracked outer inside w₁ ∧ ∃ a ∈ μ.announcements, f.Field outer o a.1 := by
      by_cases hheard : f.sink.lastHeard w.client = none
      · exact .inl fun ht => absurd hheard ht.heard
      have ht := hready.tracked hheard
      by_cases hsame : ∀ p key, f.Field outer p key → w₁.model.get p key = w.model.get p key
      · refine .inl fun _ v hv => hcurrent ht v ?_
        rw [← hv]
        refine (valueAt_congr ht.live.closed hrow (fun p key hfield => ?_) (fun p hp => ?_)
          (Operation.isList_setStore hμ)).symm
        · exact ⟨hsame p key hfield, ht.live.settled p key hfield⟩
        · exact store_written_of_inside (hadmits hheard).outside hp μ.store
      · push Not at hsame
        obtain ⟨p, key, hfield, hne⟩ := hsame
        obtain ⟨rfl, v, hann, _, _⟩ := (field_written ht.live hμ hfield).resolve_left hne
        refine .inr ⟨htracked ht, (key, v), ?_, hfield⟩
        rw [hann]
        exact List.mem_singleton.2 rfl
    obtain ⟨hhold, hcurrent⟩ := Onward.quiet hrow w₁ _
      (Model.rewatches_holds w₁.model (μ.holds ++ w₁.model.holds)) hwritten.ready
    obtain ⟨htold, hcurrent'⟩ := announce_within hrow hres hlisten hturns hhold.ready
    obtain ⟨hrelease, hcurrent''⟩ := Onward.quiet hrow _ _ (Model.rewatches_releaseAll
      (Mutation.announce listen o μ.announcements (w₁.mapModel (·.holdAll μ.holds))).model μ.holds)
      htold.ready
    refine ⟨((hwritten.trans hhold).trans htold).trans hrelease, fun h => ?_⟩
    refine hcurrent'' (hcurrent' ((hstill h).imp hcurrent fun ⟨ht, hann⟩ => ?_))
    exact ⟨hhold.tracked ht, hann⟩

end Writes

/-! ## The binding -/

/-- When the fields of a formula have been connected, it is bound, once its function is told. -/
theorem live_of_bindFields {m m₁ : Model} (hres : f.Resolved outer)
    (hstripped : ∀ n ∈ f.expr.names, n.Stripped) (h : f.Bindable outer inside m)
    {news : ObjectId → List Connection} (hconnects : Model.Connects news m m₁)
    (hfields : ∀ n ∈ f.expr.fields, ∀ p, (f.scope :: outer)[n.sigils]? = some p →
      ∃ c ∈ m₁.connectionsOf p, c.key = n.name ∧ c.handler = .recompute n.text f) :
    f.Live outer inside m₁ where
  connected o key hfield := by
    obtain ⟨n, hn, rfl, howner⟩ := hfield
    have hmem := Expr.mem_fields hstripped hn (hres.named n hn)
    obtain ⟨c, hc, hkey, hhandler⟩ := hfields _ hmem o howner
    exact ⟨c, hc, hkey, _, hhandler⟩
  unrestricted o key hfield := by
    obtain ⟨_, _, _, howner⟩ := hfield
    rw [hconnects.keysOf]
    exact h.unrestricted o (List.mem_of_getElem? howner)
  maps o key hfield := by
    obtain ⟨_, _, _, howner⟩ := hfield
    rw [hconnects.store]
    exact h.maps o (List.mem_of_getElem? howner)
  settled o key hfield := by
    unfold Model.Settled Model.get
    simp only [hconnects.store]
    exact h.settled o key hfield
  closed := by
    unfold Model.Closed
    simp only [hconnects.store]
    exact h.closed

/-- To bind a formula is to bind what its source is read as, which has no sigils left. -/
theorem Binds.formula {γ : Type} {listen : Listener γ} {w w' : World γ} {b : BoundFormula}
    (h : f.Binds listen w b w') :
    Scope.bindFormula listen f.scope f.expr f.row f.sink w = (.ok b, w') ∧
      ∀ n ∈ f.expr.names, n.Stripped := by
  cases h with
  | expr source binds =>
    rw [Scope.bindExpr_eq listen f.scope w source] at binds
    exact ⟨binds, Expr.stripped_ofSource source⟩
  | template source binds =>
    rw [Scope.bindTemplate_eq listen f.scope w source] at binds
    exact ⟨binds, Expr.stripped_ofTemplate source⟩

/-- A formula that is bound was evaluated, and its function is told the value at once. -/
theorem Binds.told {b : BoundFormula} (h : f.Binds listen w b w')
    (hlisten : ∀ n u, (World.record (.told n) u).client <:+ (listen n u).client) :
    f.expr.eval w.model (.object f.scope) f.row = .ok b.value ∧
      .told (f.sink.notice b.value) :: w.client <:+ w'.client := by
  obtain ⟨hvalue, m, _, rfl⟩ := Scope.bindFormula_of_ok h.formula.1
  let hs : List Hold := .object f.scope :: f.row.holds ++ b.value.holds
  exact ⟨hvalue, hlisten (f.sink.notice b.value) { w with model := m.holdAll hs }⟩

/-- To bind the formula leads onward. -/
theorem bind_within (hrow : ∀ q, f.row.object? = some q → inside q) (hres : f.Resolved outer)
    (hlisten : ∀ n u, f.Onward outer inside (u.record (.told n)) (listen n u))
    (hunbound : f.sink.lastHeard w.client = none) (h : f.Bindable outer inside w.model)
    {b : BoundFormula} (hbinds : f.Binds listen w b w') : f.Onward outer inside w w' := by
  intro hready
  have hsilent : f.Silent w := hready.bound.resolve_right fun ht => ht.heard hunbound
  obtain ⟨hformula, hstripped⟩ := hbinds.formula
  obtain ⟨hv, m₁, hfields, rfl⟩ := Scope.bindFormula_of_ok hformula
  have halive : ∀ n ∈ f.expr.fields, ∀ p ∈ w.model.handlerObjects (.recompute n.text f),
      p ∈ w.model.living := by
    intro n _ p hp
    exact h.row p (Option.mem_toList.1 hp)
  obtain ⟨news, hconnects, hnews, hconnected⟩ :=
    h.climbable.bindFields h.bound halive (fun _ _ _ => rfl) hfields
  have hlive := live_of_bindFields hres hstripped h hconnects hconnected
  have hexclusive : f.Exclusive m₁ := by
    refine ⟨fun o c hc => ?_, fun d deep hd => ?_⟩
    · rw [hconnects.connectionsOf] at hc
      rcases List.mem_append.1 hc with hc | hc
      · exact hready.exclusive.handlers o c hc
      · obtain ⟨_, _, hhandler⟩ := hnews o c hc
        rw [hhandler]
        exact fun _ => rfl
    · refine hready.exclusive.deeps d deep ?_
      unfold Model.deep? at *
      rwa [hconnects.deeps] at hd
  have hvalue : f.valueAt outer m₁ = .ok b.value := by
    rw [← hv, eval_eq hres h.climbable.encloses]
    refine valueAt_congr h.closed hrow (fun o key hfield => ⟨?_, h.settled o key hfield⟩)
      (fun o _ => hconnects.store o) (fun o => by rw [hconnects.store])
    unfold Model.get
    rw [hconnects.store]
  unfold World.holding
  generalize .object f.scope :: f.row.holds ++ b.value.holds = hs
  -- Holding something does not concern what is connected.
  let w₂ : World History := { w with model := m₁.holdAll hs }
  have hvalue₂ : f.valueAt outer w₂.model = .ok b.value :=
    (valueAt_of_spares hrow hlive
      (.of_rewatches f (Model.rewatches_holds m₁ (hs ++ m₁.holds)))).trans hvalue
  obtain ⟨htold, hcurrent⟩ := tell_own hlisten (w := w₂)
    ⟨hexclusive.handlers, hexclusive.deeps⟩
    ⟨hlive.connected, hlive.unrestricted, hlive.maps, hlive.settled, hlive.closed⟩ hvalue₂
  obtain ⟨hrelease, hcurrent'⟩ := Onward.quiet hrow _ _
    (Model.rewatches_releaseAll (listen (f.sink.notice b.value) w₂).model hs) htold.ready
  refine ⟨⟨hrelease.ready, fun ht => absurd hunbound ht.heard, fun o c hc hruns => ?_⟩,
    fun _ => hcurrent' hcurrent⟩
  exact absurd hruns (hsilent.runs o c hc)

/-! ## Runs -/

/-- Every operation of a run leads onward. -/
theorem step_within (hrow : ∀ q, f.row.object? = some q → inside q) (hres : f.Resolved outer)
    (hlisten : ∀ n u, f.Onward outer inside (u.record (.told n)) (listen n u))
    (h : Step f outer inside listen w w') : f.Onward outer inside w w' := by
  cases h with
  | write admitted intact => exact write_within hrow hres hlisten admitted intact
  | bind unbound bindable binds => exact bind_within hrow hres hlisten unbound bindable binds
  | other spares => exact onward_of_spares hrow spares
  | tell others => exact tell_other hlisten others w

/-- Nothing that the client was told is forgotten in a run. -/
theorem client_suffix (moves : Moves (Step f outer inside) w w') : w.client <:+ w'.client := by
  refine moves.within (I := fun w w' => w.client <:+ w'.client) World.history_steady ?_
  intro listen w w' hlisten h
  have htells (n : Notice) (u : World History) : u.client <:+ (listen n u).client :=
    (List.suffix_cons _ _).trans (hlisten n u)
  cases h with
  | write =>
    exact Operation.run_within World.history_steady World.history_attends htells
      fun _ _ => List.suffix_rfl
  | bind _ _ binds => exact (List.suffix_cons _ _).trans (binds.told hlisten).2
  | other => exact List.suffix_rfl
  | tell => exact htells _ w

/-- A formula that is bound in a run is evaluated and its function is told the value at once, even
if that is in the middle of a dispatch. Whenever the run is over after that, the value that its
function was told last is the value of the formula. The binding is in the past of a world if what
was known of it afterwards is part of what is known there. -/
theorem lastHeard_eq_value (hrow : ∀ q, f.row.object? = some q → inside q)
    (hres : f.Resolved outer) (hexclusive : f.Exclusive w.model) (hsilent : f.Silent w)
    (moves : Moves (Step f outer inside) w w') {u u' : World History} {b : BoundFormula}
    (hlisten : ∀ n u, Moves (Step f outer inside) (u.record (.told n)) (listen n u))
    (hbinds : f.Binds listen u b u') (hpast : u'.client <:+ w'.client) :
    f.expr.eval u.model (.object f.scope) f.row = .ok b.value ∧
      .told (f.sink.notice b.value) :: u.client <:+ u'.client ∧
      (f.InScope outer w'.model → ∀ v, f.expr.eval w'.model (.object f.scope) f.row = .ok v →
        f.sink.lastHeard w'.client = some v) := by
  obtain ⟨hvalue, htold⟩ := hbinds.told fun n u => client_suffix (hlisten n u)
  refine ⟨hvalue, htold, fun hscope v hv => ?_⟩
  have hheard : f.sink.lastHeard w'.client ≠ none := by
    refine Sink.lastHeard_of_suffix (htold.trans hpast) ?_
    rw [Sink.lastHeard_notice]
    exact Option.some_ne_none b.value
  have honward : f.Onward outer inside w w' :=
    moves.within Onward.steady fun _ _ _ hlisten h => step_within hrow hres hlisten h
  obtain ⟨hcarries, hcurrent⟩ := honward ⟨hexclusive, .inl hsilent⟩
  rw [eval_eq hres hscope.encloses] at hv
  exact hcurrent (fun ht => absurd hsilent.heard ht.heard) (hcarries.ready.tracked hheard) v hv

/-- A room with a switch that is off, and a lamp in it. -/
def lamp : Model :=
  { objects := #[⟨.map (Dict.ofList [("on", .bool false)]), some {}⟩,
      ⟨.map Dict.empty, some { parent := some 0 }⟩]
    holds := [.object 0, .object 1] }

/-- The formula that says in the lamp whether the switch of the room is on. -/
def lampOn : Formula :=
  ⟨.unary .group (.binary .concat (.literal (.text "Lamp ")) (.reference ⟨2, "on"⟩)), 1, .null,
    ⟨0, none⟩⟩

/-- The formula is that of a template. -/
theorem ofTemplate_lampOn : Expr.ofTemplate "Lamp $$on" = .ok lampOn.expr := by
  with_unfolding_all rfl

/-- A client that puts the switch off when it is told that the lamp is on, if the scopes of the
formula are in place meanwhile. -/
def dimming : Listener History := fun n w =>
  let off : Operation := .set "on" (.bool false)
  let u := w.record (.told n)
  match n with
  | .value 0 (.text "Lamp true") =>
    if off.Turns (lampOn.Intact [0]) noting 0 u then off.run noting 0 u else u
  | _ => u

/-- The lamp when the template has been bound, by a client that only listens. -/
def lampBound : World History :=
  ⟨(Model.bindFields 1 [⟨1, "on"⟩] (fun n => .recompute n.text lampOn) lamp).2,
    [.told (.value 0 (.text "Lamp false"))]⟩

/-- The lamp when the switch has been put on after that, and off again while the client was told. -/
def lampDimmed : World History := (Operation.set "on" (.bool true)).run dimming 0 lampBound

/-- The template is bound. -/
theorem binds_lamp :
    lampOn.Binds noting ⟨lamp, []⟩ ⟨some 1, .text "Lamp false", [⟨1, "on"⟩]⟩ lampBound := by
  refine .template ofTemplate_lampOn ?_
  rw [Scope.bindTemplate_eq _ _ _ ofTemplate_lampOn]
  rfl

/-- The switch is what the formula reads. -/
theorem field_lampOn {o : ObjectId} {key : String} (h : lampOn.Field [0] o key) :
    o = 0 ∧ key = "on" := by
  obtain ⟨n, hn, rfl, ho⟩ := h
  obtain rfl := List.mem_singleton.1 hn
  exact ⟨(Option.some.inj ho).symm, rfl⟩

/-- The template can be bound. -/
theorem bindable_lamp : lampOn.Bindable [0] (fun _ => False) lamp where
  bound := rfl
  climbable := by
    refine ⟨by decide, by decide, fun o p h => ?_⟩
    match o, h with
    | 0, h => cases h
    | 1, h => exact Option.some.inj h ▸ rfl
    | _ + 2, h => cases h
  row q hq := by cases hq
  unrestricted := by decide
  maps := by decide
  settled o key hfield q hq := by
    obtain ⟨rfl, rfl⟩ := field_lampOn hfield
    cases hq
  closed _ h := h.elim

/-- When the switch is put on, the client is told so and puts it off again. What it is told last is
that the lamp is off. -/
theorem lastHeard_eq_value_lamp :
    lampDimmed.client = [.told (.value 0 (.text "Lamp false")),
      .told (.value 0 (.text "Lamp true")), .told (.value 0 (.text "Lamp false"))] ∧
    lampOn.expr.eval lampDimmed.model (.object 1) .null = .ok (.text "Lamp false") ∧
    lampOn.sink.lastHeard lampDimmed.client = some (.text "Lamp false") := by
  -- To write the switch is admitted at any time, if the scopes are in place at all turns.
  have hwrite (b : Bool) {listen : Listener History} {u : World History}
      (hturns : (Operation.set "on" (.bool b)).Turns (lampOn.Intact [0]) listen 0 u) :
      Step lampOn [0] (fun _ => False) listen u
        ((Operation.set "on" (.bool b)).run listen 0 u) := by
    refine .write (fun _ => ⟨id, fun key v h _ q hq => ?_⟩) hturns
    cases h
    cases hq
  have hnoting (n : Notice) (u : World History) :
      Moves (Step lampOn [0] fun _ => False) (u.record (.told n)) (noting n u) := .done _
  have hdimming (n : Notice) (u : World History) :
      Moves (Step lampOn [0] fun _ => False) (u.record (.told n)) (dimming n u) := by
    unfold dimming
    dsimp only
    split
    · split
      · exact .next hnoting (hwrite false ‹_›) (.done _)
      · exact .done _
    · exact .done _
  have hmoves : Moves (Step lampOn [0] fun _ => False) ⟨lamp, []⟩ lampDimmed :=
    .next hnoting (.bind rfl bindable_lamp binds_lamp) <|
      .next hdimming (hwrite true (by decide)) <| .done _
  -- Nothing is connected before the template is bound.
  have hnone : ∀ o, ∀ c ∈ lamp.connectionsOf o, False := fun o _ hc =>
    match o, hc with
    | 0, hc | 1, hc | _ + 2, hc => by cases hc
  have hexclusive : lampOn.Exclusive lamp :=
    ⟨fun o c hc => (hnone o c hc).elim, fun d deep hd => by cases hd⟩
  have hsilent : lampOn.Silent ⟨lamp, []⟩ := ⟨rfl, fun o c hc => (hnone o c hc).elim⟩
  have hres : lampOn.Resolved [0] := by
    refine ⟨by decide, fun n hn => ?_⟩
    obtain rfl := List.mem_singleton.1 hn
    exact ⟨0, rfl⟩
  have hpast : lampBound.client <:+ lampDimmed.client := ⟨[_, _], rfl⟩
  obtain ⟨_, _, hcurrent⟩ := lastHeard_eq_value (fun q hq => by cases hq) hres hexclusive hsilent
    hmoves hnoting binds_lamp hpast
  exact ⟨rfl, rfl, hcurrent (by decide) _ rfl⟩

end Formula

end LiveScope
