import LiveScope.Proofs.Release.Subscribing
import LiveScope.Proofs.World.Reentrance

/-!
# What a history says of the model

A history tells which functions were subscribed, under which numbers, and which of them have been
released. `Ledger` is what that has to do with the model: all that tells a function belongs to a
subscription in the history, and nothing tells a function that was released. `History.Exact` is what
is to be shown of a history: every release took away exactly what belonged to it, and nothing that
was released was told of anything afterwards.
-/

namespace LiveScope

/-- Whether a notice tells a function something. -/
def Notice.Tells (k : CallbackId) : Notice → Prop
  | value callback _ => callback = k
  | member callback _ _ => callback = k
  | change callback _ _ _ => callback = k
  | warning _ => False

namespace History

/-- Whether a function was handed to a binding, to be subscribed. -/
def Asked (h : History) (k : CallbackId) : Prop := ∃ o, .asked o k ∈ h

/-- Whether the subscription of a function has been released: its number was released at the binding
that gave it out, or all was released at the binding that it was handed to. -/
inductive Released (k : CallbackId) : History → Prop
  | unbind {h : History} {o : ObjectId} {id : Nat} {before : Model} (bound : .bound o id k ∈ h) :
      Released k (.released o id before :: h)
  | unbindAll {h : History} {o : ObjectId} {before : Model} (asked : .asked o k ∈ h) :
      Released k (.cleared o before :: h)
  | later {h : History} {e : Event} (before : Released k h) : Released k (e :: h)

/-- Whether no object was found to lie too deep to watch. -/
def Healthy (h : History) : Prop := ∀ key fault,
  .told (.warning (.replacement key fault)) ∉ h ∧ .told (.warning (.nested key fault)) ∉ h

/-- What is so of the releases in a history. -/
structure Exact (h : History) : Prop where
  /-- Releasing a number removes exactly what tells the function that the number was given out for,
  and that registration. -/
  unbind : ∀ o id before earlier, .released o id before :: earlier <:+ h →
    ∀ k, .bound o id k ∈ earlier →
      Model.Removes (fun _ => False) (fun p r => p = o ∧ r.id = id) (· = k)
        before (before.unbind o id).2
  /-- Releasing all of an object removes exactly what tells the functions that were subscribed from
  there, and what is connected to the object itself. Nothing is left, and there is nothing to
  release. -/
  unbindAll : ∀ o before earlier, .cleared o before :: earlier <:+ h →
    Model.Removes (· = o) (fun p _ => p = o) (fun k => .asked o k ∈ earlier)
        before (before.unbindAll o) ∧
      (before.unbindAll o).handlerCount o = 0 ∧ (before.unbindAll o).bindCount o = 0 ∧
      (before.unbindAll o).unbindAll o = before.unbindAll o
  /-- Nothing is told to a function whose subscription has been released. -/
  silent : ∀ n earlier, .told n :: earlier <:+ h → ∀ k, Released k earlier → ¬ n.Tells k

variable {h h' : History} {k : CallbackId}

/-- What was asked for earlier was asked for. -/
theorem Asked.mono (hsub : h <:+ h') (hk : h.Asked k) : h'.Asked k := by
  obtain ⟨o, ho⟩ := hk
  exact ⟨o, hsub.subset ho⟩

/-- What is healthy was so earlier. -/
theorem Healthy.of_suffix (hsub : h <:+ h') (hhealthy : h'.Healthy) : h.Healthy := by
  intro key fault
  obtain ⟨hreplacement, hnested⟩ := hhealthy key fault
  exact ⟨fun hmem => hreplacement (hsub.subset hmem), fun hmem => hnested (hsub.subset hmem)⟩

/-- One more event is exact if it is, and what came before. -/
theorem Exact.cons {e : Event} (hexact : h.Exact)
    (hunbind : ∀ o id before, e = .released o id before → ∀ k, .bound o id k ∈ h →
      Model.Removes (fun _ => False) (fun p r => p = o ∧ r.id = id) (· = k)
        before (before.unbind o id).2)
    (hunbindAll : ∀ o before, e = .cleared o before →
      Model.Removes (· = o) (fun p _ => p = o) (fun k => .asked o k ∈ h)
        before (before.unbindAll o))
    (hsilent : ∀ n, e = .told n → ∀ k, Released k h → ¬ n.Tells k) : Exact (e :: h) where
  unbind o id before earlier hsub := by
    rcases List.suffix_cons_iff.1 hsub with heq | hsub
    · obtain ⟨he, rfl⟩ := List.cons.inj heq
      exact hunbind o id before he.symm
    · exact hexact.unbind o id before earlier hsub
  unbindAll o before earlier hsub := by
    rcases List.suffix_cons_iff.1 hsub with heq | hsub
    · obtain ⟨he, rfl⟩ := List.cons.inj heq
      exact ⟨hunbindAll o before he.symm, before.handlerCount_unbindAll o,
        before.bindCount_unbindAll o, before.unbindAll_unbindAll o⟩
    · exact hexact.unbindAll o before earlier hsub
  silent n earlier hsub := by
    rcases List.suffix_cons_iff.1 hsub with heq | hsub
    · obtain ⟨he, rfl⟩ := List.cons.inj heq
      exact hsilent n he.symm
    · exact hexact.silent n earlier hsub

end History

open History

/-- What a history says of the model. -/
structure Ledger (m : Model) (h : History) : Prop where
  /-- The functions that are told were handed in. -/
  knows : m.Known h.Asked
  /-- A registration covers a function that was handed to its object. -/
  registered : ∀ o, ∀ r ∈ m.registrationsOf o, ∃ k, .asked o k ∈ h ∧ m.Covers r k
  /-- What tells a function that was handed to an object is registered there, or belongs to it. -/
  issued : ∀ o k, .asked o k ∈ h → m.Issued o k
  /-- A number that was given out is that of its registration, as long as anything tells the
  function. -/
  held : ∀ o id k, .bound o id k ∈ h → h.Asked k ∧ m.Held o id k
  /-- Nothing tells a function whose subscription was released. -/
  silent : ∀ k, Released k h → h.Asked k ∧ m.Dead k

namespace Ledger

variable {m m' : Model} {h : History} {o : ObjectId} {k : CallbackId}

/-- A change that subscribes nothing keeps what the history says. -/
theorem eased (hl : Ledger m h) (heased : m.Eased h.Asked m') (hfollows : m.Follows h.Asked m') :
    Ledger m' h where
  knows := heased.knows
  registered p r hr := by
    obtain ⟨k, hk, hcovers⟩ := hl.registered p r (heased.registrations p r hr)
    exact ⟨k, hk, hfollows.persists.covers r k ⟨p, hk⟩ hcovers⟩
  issued p k hk := hfollows.issued ⟨p, hk⟩ (hl.issued p k hk)
  held p id k hk := by
    obtain ⟨hasked, hheld⟩ := hl.held p id k hk
    exact ⟨hasked, hfollows.held hasked hheld⟩
  silent k hk := by
    obtain ⟨hasked, hdead⟩ := hl.silent k hk
    exact ⟨hasked, hfollows.persists.dead k hasked hdead⟩

/-- An event that subscribes nothing. -/
theorem cons {e : Event} (hl : Ledger m h) (hasked : ∀ o k, e ≠ .asked o k)
    (hbound : ∀ o id k, e = .bound o id k → h.Asked k ∧ m.Held o id k)
    (hreleased : ∀ k, Released k (e :: h) → Released k h ∨ h.Asked k ∧ m.Dead k) :
    Ledger m (e :: h) := by
  have hmono : ∀ k, h.Asked k → Asked (e :: h) k := fun _ => Asked.mono (List.suffix_cons e h)
  have hmem {o : ObjectId} {k : CallbackId} (hk : .asked o k ∈ e :: h) : .asked o k ∈ h :=
    (List.mem_cons.1 hk).resolve_left fun heq => hasked o k heq.symm
  refine ⟨hl.knows.mono hmono, fun p r hr => ?_, fun p k hk => hl.issued p k (hmem hk),
    fun p id k hk => ?_, fun k hk => ?_⟩
  · obtain ⟨k, hk, hcovers⟩ := hl.registered p r hr
    exact ⟨k, List.mem_cons_of_mem e hk, hcovers⟩
  · rcases List.mem_cons.1 hk with heq | hk
    · exact (hbound p id k heq.symm).imp_left (hmono k)
    · exact (hl.held p id k hk).imp_left (hmono k)
  · rcases hreleased k hk with hk | hdead
    · exact (hl.silent k hk).imp_left (hmono k)
    · exact hdead.imp_left (hmono k)

/-- What is told subscribes and releases nothing. -/
theorem told (hl : Ledger m h) (n : Notice) : Ledger m (.told n :: h) := by
  refine hl.cons (fun _ _ heq => by cases heq) (fun _ _ _ heq => by cases heq) fun k hk => ?_
  cases hk with
  | later hk => exact .inl hk

/-- A function that was not known is subscribed. -/
theorem asked {id : Option Nat} (hl : Ledger m h)
    (hs : Model.Subscribed h.Asked o k id m m') : Ledger m' (.asked o k :: h) := by
  have hmono : ∀ k', h.Asked k' → Asked (.asked o k :: h) k' :=
    fun _ => Asked.mono (List.suffix_cons _ h)
  refine ⟨hs.knows.mono fun k' hk' => ?_, fun p r hr => ?_, fun p k' hk' => ?_,
    fun p i k' hk' => ?_, fun k' hk' => ?_⟩
  · rcases hk' with hk' | rfl
    · exact hmono k' hk'
    · exact ⟨o, List.mem_cons_self⟩
  · rcases hs.registered p r hr with hr | ⟨rfl, hcovers⟩
    · obtain ⟨k', hk', hcovers⟩ := hl.registered p r hr
      exact ⟨k', List.mem_cons_of_mem _ hk', hs.follows.persists.covers r k' ⟨p, hk'⟩ hcovers⟩
    · exact ⟨k, List.mem_cons_self, hcovers⟩
  · rcases List.mem_cons.1 hk' with heq | hk'
    · obtain ⟨rfl, rfl⟩ := Event.asked.inj heq
      exact hs.issued
    · exact hs.follows.issued ⟨p, hk'⟩ (hl.issued p k' hk')
  · rcases List.mem_cons.1 hk' with heq | hk'
    · cases heq
    · obtain ⟨hasked, hheld⟩ := hl.held p i k' hk'
      exact ⟨hmono k' hasked, hs.follows.held hasked hheld⟩
  · cases hk' with
    | later hk' =>
      obtain ⟨hasked, hdead⟩ := hl.silent k' hk'
      exact ⟨hmono k' hasked, hs.follows.persists.dead k' hasked hdead⟩

/-- A number is given out for a function that was handed in. -/
theorem bound {id : Nat} (hl : Ledger m h) (hk : h.Asked k) (hheld : m.Held o id k) :
    Ledger m (.bound o id k :: h) := by
  refine hl.cons (fun _ _ heq => by cases heq) (fun p i k' heq => ?_) fun k' hk' => ?_
  · obtain ⟨rfl, rfl, rfl⟩ := Event.bound.inj heq
    exact ⟨hk, hheld⟩
  · cases hk' with
    | later hk' => exact .inl hk'

/-- A number is released. -/
theorem unbind (hl : Ledger m h) (ho : m.Orderly) (o : ObjectId) (id : Nat) :
    Ledger (m.unbind o id).2 (.released o id m :: h) := by
  have heased := Model.eases_unbind m o id ho hl.knows
  have hfollows : m.Follows h.Asked (m.unbind o id).2 :=
    ⟨heased.persists, fun p r hr k _ hcovers => Model.released_unbind ho o id p hr hcovers⟩
  refine (hl.eased heased hfollows).cons (fun _ _ heq => by cases heq)
    (fun _ _ _ heq => by cases heq) fun k hk => ?_
  cases hk with
  | unbind hbound =>
    obtain ⟨hasked, hheld⟩ := hl.held o id k hbound
    exact .inr ⟨hasked, Model.dead_unbind ho hheld⟩
  | later hk => exact .inl hk

/-- All of an object is released. -/
theorem unbindAll (hl : Ledger m h) (ho : m.Orderly) (o : ObjectId) :
    Ledger (m.unbindAll o) (.cleared o m :: h) := by
  have heased := Model.eases_unbindAll m o ho hl.knows
  have hfollows : m.Follows h.Asked (m.unbindAll o) :=
    ⟨heased.persists, fun p r hr k _ hcovers =>
      Model.released_unbindAll ho o p (hl.registered o) hr hcovers⟩
  refine (hl.eased heased hfollows).cons (fun _ _ heq => by cases heq)
    (fun _ _ _ heq => by cases heq) fun k hk => ?_
  cases hk with
  | unbindAll hasked =>
    exact .inr ⟨⟨o, hasked⟩, Model.dead_unbindAll ho (hl.registered o) (hl.issued o k hasked)⟩
  | later hk => exact .inl hk

end Ledger

/-- What a world is in every run: its tables are in order, its history says what is in them, and the
releases in the history are exact. -/
structure Sound (w : World History) : Prop where
  /-- The tables are in order. -/
  orderly : w.model.Orderly
  /-- The history says what is in them. -/
  ledger : Ledger w.model w.client
  /-- The releases in the history are exact. -/
  exact : w.client.Exact

/-- The relation between an earlier and a later world of a run: the history goes on, and if it is
healthy, a sound world remains sound and keeps what is so of the functions known in it. -/
structure Leads (w w' : World History) : Prop where
  /-- The history goes on. -/
  grows : w.client <:+ w'.client
  /-- A sound world remains sound and keeps what is so of the functions known in it. -/
  sound : w'.client.Healthy → Sound w → Sound w' ∧ w.model.Follows w.client.Asked w'.model

namespace Leads

/-- One after the other. -/
theorem steady : Steady Leads where
  refl w := ⟨List.suffix_refl _, fun _ hs => ⟨hs, .refl _ _⟩⟩
  trans h h' := by
    refine ⟨h.grows.trans h'.grows, fun hhealthy hs => ?_⟩
    obtain ⟨hs', hf⟩ := h.sound (hhealthy.of_suffix h'.grows) hs
    obtain ⟨hs'', hf'⟩ := h'.sound hhealthy hs'
    exact ⟨hs'', hf.trans hf' fun _ hk => hk.mono h.grows⟩

variable {w w' : World History}

/-- That the world is sound may be used if the history is known to go on. -/
theorem of_sound (hgrows : w.client <:+ w'.client) (h : Sound w → Leads w w') : Leads w w' :=
  ⟨hgrows, fun hhealthy hs => (h hs).sound hhealthy hs⟩

/-- What leads on from a sound world that was led to leads on from the first world. -/
theorem extend {u : World History} (h : Leads w u) (hgrows : u.client <:+ w'.client)
    (hnext : Sound w → Sound u → w.model.Follows w.client.Asked u.model → Leads u w') :
    Leads w w' := by
  refine ⟨h.grows.trans hgrows, fun hhealthy hs => ?_⟩
  obtain ⟨hsu, hf⟩ := h.sound (hhealthy.of_suffix hgrows) hs
  obtain ⟨hs', hf'⟩ := (hnext hs hsu hf).sound hhealthy hsu
  exact ⟨hs', hf.trans hf' fun _ hk => hk.mono h.grows⟩

/-- Nothing is to be shown if an object was found to lie too deep. -/
theorem of_not_healthy (hgrows : w.client <:+ w'.client) (h : ¬ w'.client.Healthy) : Leads w w' :=
  ⟨hgrows, fun hhealthy => absurd hhealthy h⟩

/-- A change of the model that subscribes and releases nothing. -/
theorem of_eases {m : Model} (h : w.model.Eases w.client.Asked m)
    (hregs : ∀ o, m.registrationsOf o = w.model.registrationsOf o) :
    Leads w { w with model := m } := by
  refine ⟨List.suffix_refl _, fun _ hs => ?_⟩
  have heased := h hs.orderly hs.ledger.knows
  have hf : w.model.Follows w.client.Asked m :=
    ⟨heased.persists, fun p r hr _ _ _ => .inl (hregs p ▸ hr)⟩
  exact ⟨⟨heased.orderly, hs.ledger.eased heased hf, hs.exact⟩, hf⟩

/-- Holding other things. -/
theorem holds (w : World History) (holds : List Hold) :
    Leads w { w with model := { w.model with holds } } :=
  of_eases ((Model.alike_holds w.model holds).eases id) fun _ => rfl

/-- Giving up several holds. -/
theorem releaseAll (w : World History) (hs : List Hold) :
    Leads w (w.mapModel (·.releaseAll hs)) := by
  refine of_eases ((Model.Eases.steady _).foldl hs (fun h _ m => ?_) _) fun p => ?_
  · exact (Model.alike_holds m _).eases id
  · exact (Model.rewatches_releaseAll w.model hs).registrationsOf p

/-- Doing something while holding objects leads on if doing it does. -/
theorem holding {hs : List Hold} {f : World History → World History}
    (hf : Leads (w.mapModel (·.holdAll hs)) (f (w.mapModel (·.holdAll hs)))) :
    Leads w (w.holding hs f) := by
  have hhold : Leads w (w.mapModel (·.holdAll hs)) := holds w _
  exact steady.trans hhold (steady.trans hf (releaseAll _ hs))

end Leads

end LiveScope
