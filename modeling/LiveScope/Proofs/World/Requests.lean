import LiveScope.Proofs.Model.Renewal
import LiveScope.Proofs.Release.Subscribing
import LiveScope.Proofs.World.Reentrance

/-!
# What clients ask for

`Request` lists what a client may do at any time, also in the middle of a dispatch: write,
subscribe, release, and change the model beside that. A run of requests (`Moves Request`) is what a
handler does when it is called, and what a program does from the start. `Model.Admits` is what has
to be shown of a relation between models that is to hold over all of this (`Moves.admits`). Whatever
is requested renews the tables (`Moves.renews`), so that in every run numbers are in order and links
lead to bindings (`numbered_of_moves`, `linked_of_moves`).
-/

namespace LiveScope

variable {γ : Type} {I : Model → Model → Prop} {J : World γ → World γ → Prop}
  {listen : Listener γ}

/-- A relation between worlds that holds over every change of the watchers, of the trees and of the
holds holds over what is done while a change is told of. -/
theorem Model.Watches.attends (hI : Model.Watches I) (htree : ∀ m id tree, I m (m.setTree id tree))
    (hholds : ∀ m holds, I m { m with holds })
    (hmodel : ∀ w m, I w.model m → J w { w with model := m }) : World.Attends J where
  loose w holds := hmodel w _ (hholds w.model holds)
  retarget w id v := hmodel w _ (hI.retarget (fun m tree => htree m id tree) v w.model)
  mend w id o seq key v := hmodel w _ (hI.mend (fun m _ _ _ => htree m id _) o seq key v w.model)

/-- Any number of renewals is one. -/
theorem World.renews_steady : Steady fun w w' : World γ => w.model.Renews w'.model :=
  ⟨fun w => Model.Renews.steady.refl w.model, Model.Renews.steady.trans⟩

/-- What is done while a change is told of renews the tables. -/
theorem World.renews_attends : World.Attends fun w w' : World γ => w.model.Renews w'.model :=
  Model.renews_alters.toWatches.attends Model.renews_alters.setTree Model.renews_holds
    fun _ _ h => h

namespace Subscription

variable (hJ : Steady J) (hloose : World.Loose J) (hlisten : ∀ n u, J u (listen n u))
  {o : ObjectId} {w : World γ} (hI : Model.Binds I o w.model)
  (hmodel : ∀ m, I w.model m → J w { w with model := m })

include hJ hloose hlisten hI hmodel

/-- Binding a formula does no more than subscribe and tell. -/
theorem formulates_within {r : Except Fault BoundFormula × World γ}
    (h : Scope.Formulates listen o w r) : J w r.2 := by
  have hbound {names : List ScopedName} {handler : ScopedName → Handler}
      {r : Except Fault (Option Nat)} {m : Model}
      (hfields : Model.bindFields o names handler w.model = (r, m)) :
      J w { w with model := m } := by
    refine hmodel m ?_
    have := hI.bindFields names handler
    rwa [hfields] at this
  cases h with
  | unvalued => exact hJ.refl w
  | unresolved hfields => exact hbound hfields
  | bound hfields => exact hJ.trans (hbound hfields) (hloose.holding hJ (hlisten _) _ _)

/-- Binding a property with everything inside its value does no more than subscribe and tell. -/
theorem bindObject_within (n : ScopedName) (k : CallbackId) :
    J w (Scope.bindObject listen o n k w).2 := by
  have hbound := hI.bindDeep n k
  rw [Scope.bindObject_eq]
  cases hdeep : Model.bindDeep o n k w.model with
  | mk r m =>
    rw [hdeep] at hbound
    cases r with
    | error => exact hmodel m hbound
    | ok => exact hJ.trans (hmodel m hbound) (hloose.holding hJ (hlisten _) _ _)

/-- Subscribing a function does no more than change tables and tell. -/
theorem run_within (s : Subscription) (k : CallbackId) : J w (s.run listen o k w).2 := by
  cases s with
  | connect key => exact hmodel _ (hI.connect key _)
  | watch => exact hmodel _ (hI.watch _)
  | property n =>
    have hbound := hI.bindFields [n] fun _ => .report ⟨k, none⟩
    rw [Model.bindFields_singleton] at hbound
    rw [run, map_eq]
    exact hmodel _ hbound
  | fields names => exact hmodel _ (hI.bindFields names _)
  | expr src row =>
    rw [run, map_eq]
    exact formulates_within hJ hloose hlisten hI hmodel (Scope.formulates_bindExpr _ o w src row _)
  | template src row =>
    rw [run, map_eq]
    exact formulates_within hJ hloose hlisten hI hmodel
      (Scope.formulates_bindTemplate _ o w src row _)
  | object n =>
    rw [run, map_eq]
    exact bindObject_within hJ hloose hlisten hI hmodel n k

end Subscription

/-- What a client may ask for. -/
inductive Request : Listener History → World History → World History → Prop
  /-- A write of an object through its proxy. -/
  | write {listen : Listener History} {w : World History} {o : ObjectId} {op : Operation} :
      Request listen w (op.run listen o w)
  /-- A function is subscribed from an object, anew or again. -/
  | subscribe {listen : Listener History} {w : World History} {o : ObjectId} {k : CallbackId}
      {s : Subscription} : Request listen w (s.run listen o k w).2
  /-- A handler is removed by its number. -/
  | disconnect {listen : Listener History} {w : World History} {o : ObjectId}
      {id : SubscriptionId} : Request listen w (w.mapModel fun m => (m.disconnect o id).2)
  /-- A watcher is removed by its number. -/
  | unwatch {listen : Listener History} {w : World History} {o : ObjectId} {seq : Nat} :
      Request listen w (w.mapModel fun m => (m.unwatch o seq).2)
  /-- A registration is released. -/
  | unbind {listen : Listener History} {w : World History} {o : ObjectId} {id : Nat} :
      Request listen w (w.mapModel fun m => (m.unbind o id).2)
  /-- All that is bound to an object is released. -/
  | unbindAll {listen : Listener History} {w : World History} {o : ObjectId} :
      Request listen w (w.mapModel fun m => m.unbindAll o)
  /-- An object is made. -/
  | add {listen : Listener History} {w : World History} {s : Store} :
      Request listen w (w.mapModel fun m => (m.add s).2)
  /-- An object is given a binding, unless it has one. -/
  | proxy {listen : Listener History} {w : World History} {o : ObjectId} :
      Request listen w (w.mapModel fun m => m.ensureBinding o)
  /-- An object is given a binding that may be restricted to some keys. -/
  | bind {listen : Listener History} {w : World History} {v : Value}
      {keys : Option (List String)} : Request listen w (w.mapModel fun m => (m.bind v keys).2)
  /-- An object is linked to one with a binding as its enclosing scope, or its link is cleared. -/
  | setParent {listen : Listener History} {w : World History} {o : ObjectId}
      {parent : Option ObjectId} (bound : ∀ p, parent = some p → w.model.isBound p = true) :
      Request listen w (w.mapModel fun m => (Model.setParent o parent m).2)
  /-- An object is changed and nobody is told. -/
  | setStore {listen : Listener History} {w : World History} {o : ObjectId} {s : Store} :
      Request listen w (w.mapModel fun m => m.setStore o s)
  /-- Other things are held from outside. -/
  | hold {listen : Listener History} {w : World History} {holds : List Hold} :
      Request listen w (w.mapModel fun m => { m with holds })

/-- A relation between models that holds over whatever a client may change. -/
structure Model.Admits (I : Model → Model → Prop) : Prop extends Model.Alters I where
  /-- Other things are held. -/
  holds : ∀ m holds, I m { m with holds }
  /-- An object is made. -/
  add : ∀ m s, I m (m.add s).2
  /-- A content is replaced. -/
  setStore : ∀ m o s, I m (m.setStore o s)
  /-- A value is bound, perhaps for certain keys alone. -/
  bind : ∀ m v keys, I m (Model.bind v keys m).2
  /-- An object is linked to one with a binding. -/
  setParent : ∀ m o parent, (∀ p, parent = some p → m.isBound p = true) →
    I m (Model.setParent o parent m).2

/-- Renewing the tables is such a relation. -/
theorem Model.renews_admits : Model.Admits Model.Renews where
  toAlters := Model.renews_alters
  holds := Model.renews_holds
  add := Model.Renews.add
  setStore := Model.Renews.setStore
  bind m v keys := Model.Renews.bind v keys m
  setParent _ o _ bound := Model.Renews.setParent bound o

variable {w w' : World History}

/-- What holds over every change that a client may make of a model holds over what is requested if
it holds over what is done by those who are told. -/
theorem Request.within {I : Model → Model → Prop} {J : World History → World History → Prop}
    (hI : Model.Admits I) (hJ : Steady J) (hmodel : ∀ w m, I w.model m → J w { w with model := m })
    {listen : Listener History} (hlisten : ∀ n u, J u (listen n u)) (h : Request listen w w') :
    J w w' := by
  have ha : World.Attends J := hI.toWatches.attends hI.setTree hI.holds hmodel
  cases h with
  | write =>
    exact Operation.run_within hJ ha hlisten fun μ _ => hmodel w _ (hI.setStore w.model _ _)
  | subscribe =>
    exact Subscription.run_within hJ ha.loose hlisten (hI.binds _ _) (hmodel w) _ _
  | disconnect => exact hmodel w _ (hI.disconnect w.model _ _)
  | unwatch => exact hmodel w _ (hI.unwatch w.model _ _)
  | unbind => exact hmodel w _ (hI.unbind w.model _ _)
  | unbindAll => exact hmodel w _ (hI.unbindAll w.model _)
  | add => exact hmodel w _ (hI.add w.model _)
  | proxy => exact hmodel w _ (hI.ensureBinding w.model _)
  | bind => exact hmodel w _ (hI.bind w.model _ _)
  | setParent bound => exact hmodel w _ (hI.setParent w.model _ _ bound)
  | setStore => exact hmodel w _ (hI.setStore w.model _ _)
  | hold => exact hmodel w _ (hI.holds w.model _)

/-- A relation between models that holds over whatever a client may change holds over a run. -/
theorem Moves.admits {I : Model → Model → Prop} (hI : Model.Admits I)
    (moves : Moves Request w w') : I w.model w'.model := by
  have hsteady : Steady fun w w' : World History => I w.model w'.model :=
    ⟨fun w => hI.steady.refl w.model, hI.steady.trans⟩
  exact moves.within hsteady fun _ _ _ => Request.within hI hsteady fun _ _ h => h

/-- A run of requests renews the tables. -/
theorem Moves.renews (moves : Moves Request w w') : w.model.Renews w'.model :=
  moves.admits Model.renews_admits

/-- A run of requests forgets nothing that was known. -/
theorem Moves.client_suffix (moves : Moves Request w w') : w.client <:+ w'.client := by
  refine moves.within World.history_steady fun _ _ _ hlisten => ?_
  refine Request.within Model.renews_admits World.history_steady (fun _ _ _ => List.suffix_rfl)
    fun n u => ?_
  exact (List.suffix_cons (Event.told n) u.client).trans (hlisten n u)

/-- In every run numbers are in order. -/
theorem numbered_of_moves (moves : Moves Request ⟨{}, []⟩ w) : w.model.Numbered :=
  moves.renews.numbered Model.numbered_empty

/-- In every run links lead to bindings. -/
theorem linked_of_moves (moves : Moves Request ⟨{}, []⟩ w) : w.model.Linked :=
  moves.renews.linked Model.linked_empty

end LiveScope
