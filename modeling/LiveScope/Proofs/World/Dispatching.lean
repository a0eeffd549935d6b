import LiveScope.Proofs.World.Requests

/-!
# Whom a dispatch calls

A dispatch finds whom to call (`Model.recipients`) when it begins: the handlers of the key in the
order of connection, then the watchers in the order of registration. Each has its turn, and is
called if it is registered then. `Dispatches` is this rule, with the list of the calls made; each
call comes with the world before it and the world that it leaves, in which everything that was done
in it is done. `notify_takesTurns` says that a dispatch goes by the rule, whatever is done by those
who are called, and that nobody who was added or added again since it began is called.

A dispatch looks its recipients up by their numbers. That this finds out who is still registered
rests on numbers that are never given out again (`Model.Renews`).
-/

namespace LiveScope

variable {γ : Type}

/-- Whom a dispatch may call. -/
inductive Recipient where
  | handler (c : Connection)
  | watcher (x : Watcher)

namespace Recipient

/-- The number under which it was registered. -/
def seq : Recipient → Nat
  | handler c => c.seq
  | watcher x => x.seq

/-- What is held until its turn is over. -/
def holds : Recipient → List Hold
  | handler c => c.handler.holds
  | watcher _ => []

/-- Whether it is registered at an object. -/
def Registered (m : Model) (o : ObjectId) : Recipient → Prop
  | handler c => c ∈ m.connectionsOf o
  | watcher x => x ∈ m.watchersOf o

/-- Whether something is registered at an object under its number. -/
def isFound (m : Model) (o : ObjectId) : Recipient → Bool
  | handler c => m.isConnected o ⟨c.key, c.seq⟩
  | watcher x => m.isWatching o x.seq

/-- It is called with a key and a value. -/
def call (listen : Listener γ) (o : ObjectId) (key : String) (v : Value) :
    Recipient → World γ → World γ
  | handler c => c.handler.run listen v
  | watcher x => x.run listen o key v

/-- Its turn. -/
def turn (listen : Listener γ) (o : ObjectId) (key : String) (v : Value) (w : World γ)
    (r : Recipient) : World γ :=
  (if r.isFound w.model o then r.call listen o key v w else w).mapModel (·.releaseAll r.holds)

end Recipient

/-- Those whom a dispatch of a key finds when it begins, in the order of their turns. -/
def Model.recipients (m : Model) (o : ObjectId) (key : String) : List Recipient :=
  (m.handlersOf o key).map .handler ++ (m.watchersOf o).map .watcher

/-- A call that a dispatch makes. -/
structure Call (γ : Type) where
  /-- Who is called. -/
  recipient : Recipient
  /-- The world when it is called. -/
  before : World γ
  /-- The world when it is done. -/
  after : World γ

/-- From one world to another by the turns of recipients, and the calls made: one is called if it is
registered when its turn comes, and passed over if not. -/
inductive Dispatches (listen : Listener γ) (o : ObjectId) (key : String) (v : Value) :
    List Recipient → World γ → List (Call γ) → World γ → Prop
  | done (w : World γ) : Dispatches listen o key v [] w [] w
  | called {r : Recipient} {rs : List Recipient} {w w' : World γ} {calls : List (Call γ)}
      (registered : r.Registered w.model o)
      (rest : Dispatches listen o key v rs
        ((r.call listen o key v w).mapModel (·.releaseAll r.holds)) calls w') :
      Dispatches listen o key v (r :: rs) w (⟨r, w, r.call listen o key v w⟩ :: calls) w'
  | passed {r : Recipient} {rs : List Recipient} {w w' : World γ} {calls : List (Call γ)}
      (gone : ¬ r.Registered w.model o)
      (rest : Dispatches listen o key v rs (w.mapModel (·.releaseAll r.holds)) calls w') :
      Dispatches listen o key v (r :: rs) w calls w'

variable {listen : Listener γ} {o : ObjectId} {key : String} {v : Value}

/-! ## Recipients and their numbers -/

namespace Recipient

variable {m m' : Model} {r : Recipient}

/-- Who is found when a dispatch begins is registered. -/
theorem registered_of_mem (h : r ∈ m.recipients o key) : r.Registered m o := by
  rcases List.mem_append.1 h with h | h
  · obtain ⟨c, hc, rfl⟩ := List.mem_map.1 h
    exact (Model.mem_handlersOf.1 hc).1
  · obtain ⟨x, hx, rfl⟩ := List.mem_map.1 h
    exact hx

/-- A number in use was given out. -/
theorem Registered.seq_le (h : r.Registered m o) (hn : m.Numbered) : r.seq ≤ m.lastIdOf o := by
  rw [Model.lastIdOf_eq]
  cases r with
  | handler c =>
    have hc : c ∈ m.connectionsOf o := h
    rw [Model.connectionsOf_eq] at hc
    exact (hn o).connections.bounded c.seq (List.mem_map_of_mem hc)
  | watcher x =>
    have hx : x ∈ m.watchersOf o := h
    rw [Model.watchersOf_eq] at hx
    exact (hn o).watchers.bounded x.seq (List.mem_map_of_mem hx)

/-- Who is registered under an old number has been registered since then. -/
theorem Registered.of_renews (h : r.Registered m' o) (hm : m.Renews m')
    (hle : r.seq ≤ m.lastIdOf o) : r.Registered m o := by
  rw [Model.lastIdOf_eq] at hle
  cases r with
  | handler c =>
    have hc : c ∈ m'.connectionsOf o := h
    rw [Model.connectionsOf_eq] at hc
    show c ∈ m.connectionsOf o
    rw [Model.connectionsOf_eq]
    exact (hm.bindings o).connections c hc hle
  | watcher x =>
    have hx : x ∈ m'.watchersOf o := h
    rw [Model.watchersOf_eq] at hx
    show x ∈ m.watchersOf o
    rw [Model.watchersOf_eq]
    exact (hm.bindings o).watchers x hx hle

/-- A number that was in use is not given out again. -/
theorem Registered.seq_lt_nextId (h : r.Registered m o) (hn : m.Numbered) (hm : m.Renews m') :
    r.seq < m'.nextId o := by
  rw [Model.nextId_eq]
  exact Nat.lt_succ_of_le (Nat.le_trans (h.seq_le hn) (hm.lastIdOf o))

/-- Who was registered since has a number beyond those that were in use. -/
theorem Registered.seq_lt_of_new {r' : Recipient} (h : r.Registered m o) (hn : m.Numbered)
    (hm : m.Renews m') (h' : r'.Registered m' o) (hnew : ¬ r'.Registered m o) : r.seq < r'.seq :=
  Nat.lt_of_le_of_lt (h.seq_le hn) (Nat.not_le.1 fun hle => hnew (h'.of_renews hm hle))

/-- One that was registered is found under its number if and only if it still is registered. -/
theorem isFound_iff (h : r.Registered m o) (hn : m.Numbered) (hm : m.Renews m') :
    r.isFound m' o = true ↔ r.Registered m' o := by
  cases r with
  | handler c => exact hm.connected_iff hn h
  | watcher x => exact hm.watching_iff hn h

/-- Recipients of one dispatch have different numbers. -/
theorem nodup_recipients (hn : m.Numbered) (o : ObjectId) (key : String) :
    ((m.recipients o key).map seq).Nodup := by
  -- Handlers and watchers have their numbers from one counter.
  have hsub : ((m.recipients o key).map seq).Sublist (m.bindingOf o).numbers := by
    unfold Model.recipients Binding.numbers
    rw [List.map_append, List.map_map, List.map_map, ← Model.watchersOf_eq,
      ← Model.connectionsOf_eq]
    refine List.Sublist.trans ?_ (List.sublist_append_left _ _)
    rw [Model.handlersOf_eq]
    exact (List.filter_sublist.map _).append (List.Sublist.refl _)
  exact (hn o).distinct.sublist hsub

/-- Calling does no more than attend to deep watches and tell. -/
theorem call_within {I : World γ → World γ → Prop} (hI : Steady I) (ha : World.Attends I)
    (hlisten : ∀ n w, I w (listen n w)) (r : Recipient) (w : World γ) :
    I w (r.call listen o key v w) := by
  cases r with
  | handler c => exact World.handler_within hI ha hlisten v c.handler w
  | watcher x => exact World.watcher_within hI ha hlisten o key v x w

/-- Calling, and giving up what was held for it, does no more than attend to deep watches and
tell. -/
theorem turn_within {I : World γ → World γ → Prop} (hI : Steady I) (ha : World.Attends I)
    (hlisten : ∀ n w, I w (listen n w)) (o : ObjectId) (key : String) (v : Value) (r : Recipient)
    (w : World γ) : I w ((r.call listen o key v w).mapModel (·.releaseAll r.holds)) :=
  hI.trans (call_within hI ha hlisten r w) (ha.loose.releaseAll hI r.holds _)

end Recipient

/-! ## What holds of the calls of a dispatch -/

namespace Dispatches

variable {rs : List Recipient} {w w' : World γ} {calls : List (Call γ)}

/-- Calls are made in the order of the turns. -/
theorem sublist (h : Dispatches listen o key v rs w calls w') :
    (calls.map (·.recipient)).Sublist rs := by
  induction h with
  | done => exact .slnil
  | called _ _ ih => exact ih.cons_cons _
  | passed _ _ ih => exact ih.cons _

/-- Who is called is registered. -/
theorem registered (h : Dispatches listen o key v rs w calls w') :
    ∀ c ∈ calls, c.recipient.Registered c.before.model o := by
  induction h with
  | done => exact nofun
  | called hr _ ih =>
    intro c hc
    rcases List.mem_cons.1 hc with rfl | hc
    · exact hr
    · exact ih c hc
  | passed _ _ ih => exact ih

/-- A call leaves what the one who is called makes of what it finds. -/
theorem after_eq (h : Dispatches listen o key v rs w calls w') :
    ∀ c ∈ calls, c.after = c.recipient.call listen o key v c.before := by
  induction h with
  | done => exact nofun
  | called _ _ ih =>
    intro c hc
    rcases List.mem_cons.1 hc with rfl | hc
    · rfl
    · exact ih c hc
  | passed _ _ ih => exact ih

/-- What a call leaves the next one finds, as far as the client knows. -/
theorem chain (h : Dispatches listen o key v rs w calls w') :
    (∀ c ∈ calls.head?, c.before.client = w.client) ∧
      calls.IsChain fun c c' => c'.before.client = c.after.client := by
  induction h with
  | done => exact ⟨nofun, .nil⟩
  | called _ _ ih =>
    refine ⟨fun c hc => ?_, List.isChain_cons.2 ⟨ih.1, ih.2⟩⟩
    rw [← Option.some.inj hc]
  | passed _ _ ih => exact ih

section Within

variable {I : World γ → World γ → Prop} (hI : Steady I) (ha : World.Attends I)
  (hlisten : ∀ n w, I w (listen n w))

include hI ha hlisten

/-- A dispatch does no more than attend to deep watches and tell. -/
theorem within (h : Dispatches listen o key v rs w calls w') : I w w' := by
  induction h with
  | done w => exact hI.refl w
  | called _ _ ih => exact hI.trans (Recipient.turn_within hI ha hlisten o key v _ _) ih
  | passed _ _ ih => exact hI.trans (ha.loose.releaseAll hI _ _) ih

/-- Up to any of its calls, and in it, a dispatch does no more than attend to deep watches and
tell. -/
theorem call_within (h : Dispatches listen o key v rs w calls w') :
    ∀ c ∈ calls, I w c.before ∧ I c.before c.after := by
  induction h with
  | done => exact nofun
  | called _ _ ih =>
    intro c hc
    rcases List.mem_cons.1 hc with rfl | hc
    · exact ⟨hI.refl _, Recipient.call_within hI ha hlisten _ _⟩
    · exact (ih c hc).imp_left (hI.trans (Recipient.turn_within hI ha hlisten o key v _ _))
  | passed _ _ ih =>
    exact fun c hc => (ih c hc).imp_left (hI.trans (ha.loose.releaseAll hI _ _))

/-- From one of its calls to a later one a dispatch does no more than attend to deep watches and
tell. -/
theorem between_within (h : Dispatches listen o key v rs w calls w') :
    calls.Pairwise fun c c' => I c.after c'.before := by
  induction h with
  | done => exact .nil
  | called _ rest ih =>
    exact .cons (fun c hc => hI.trans (ha.loose.releaseAll hI _ _)
      (rest.call_within hI ha hlisten c hc).1) ih
  | passed _ _ ih => exact ih

end Within

end Dispatches

namespace World

/-- What the handlers of a key refer to is held from the beginning of a dispatch. -/
def holdHandlers (o : ObjectId) (key : String) (w : World γ) : World γ :=
  w.mapModel (·.holdAll ((w.model.handlersOf o key).flatMap (·.handler.holds)))

/-- A dispatch is the turns of its recipients. -/
theorem notify_eq_turns (listen : Listener γ) (key : String) (v : Value) {w : World γ}
    (hkey : w.model.notifies o key = true) :
    w.notify listen o key v = (w.model.recipients o key).foldl (Recipient.turn listen o key v)
      (w.holdHandlers o key) := by
  rw [notify_eq, if_pos hkey, Model.recipients, List.foldl_append, List.foldl_map, List.foldl_map]
  rfl

end World

/-- Turns of those that were registered are a dispatch to them, if what is done in them renews the
tables. -/
theorem dispatches_foldl {w : World γ} (hn : w.model.Numbered)
    (hlisten : ∀ n (u : World γ), u.model.Renews (listen n u).model) {rs : List Recipient}
    (hrs : ∀ r ∈ rs, r.Registered w.model o) {u : World γ} (hu : w.model.Renews u.model) :
    ∃ calls, Dispatches listen o key v rs u calls
      (rs.foldl (Recipient.turn listen o key v) u) := by
  have hI := World.renews_steady (γ := γ)
  have ha := World.renews_attends (γ := γ)
  -- The induction carries that the tables were renewed since the dispatch began: hence looking up a
  -- number finds out whether the recipient itself is still registered.
  induction rs generalizing u with
  | nil => exact ⟨[], .done u⟩
  | cons r rs ih =>
    have hfound := Recipient.isFound_iff (hrs r List.mem_cons_self) hn hu
    have hrest := fun r' hr' => hrs r' (List.mem_cons_of_mem r hr')
    rw [List.foldl_cons, Recipient.turn]
    by_cases hr : r.Registered u.model o
    · rw [if_pos (hfound.2 hr)]
      have hturn := Recipient.turn_within hI ha hlisten o key v r u
      obtain ⟨calls, h⟩ := ih hrest (hI.trans hu hturn)
      exact ⟨_, .called hr h⟩
    · rw [if_neg fun h => hr (hfound.1 h)]
      obtain ⟨calls, h⟩ := ih hrest (hI.trans hu (ha.loose.releaseAll hI r.holds u))
      exact ⟨calls, .passed hr h⟩

/-- A dispatch is made of the turns of its recipients, if what is done in them renews the tables. -/
theorem dispatches_notify {w : World γ} (hn : w.model.Numbered)
    (hlisten : ∀ n (u : World γ), u.model.Renews (listen n u).model)
    (hkey : w.model.notifies o key = true) :
    ∃ calls, Dispatches listen o key v (w.model.recipients o key) (w.holdHandlers o key) calls
      (w.notify listen o key v) := by
  rw [World.notify_eq_turns listen key v hkey]
  exact dispatches_foldl hn hlisten (fun _ hr => Recipient.registered_of_mem hr)
    (World.renews_attends.loose w _)

/-- Who is gone after a call is not called later, and nobody else has its number. -/
theorem Dispatches.not_called_of_gone {m : Model} {w w' : World γ} {calls : List (Call γ)}
    (hn : m.Numbered) (hm : m.Renews w.model)
    (hlisten : ∀ n (u : World γ), u.model.Renews (listen n u).model)
    (h : Dispatches listen o key v (m.recipients o key) w calls w') :
    calls.Pairwise fun c c' => ∀ r ∈ m.recipients o key,
      ¬ r.Registered c.after.model o → c'.recipient.seq ≠ r.seq := by
  have hI := World.renews_steady (γ := γ)
  have ha := World.renews_attends (γ := γ)
  refine (h.between_within hI ha hlisten).imp_of_mem fun {c c'} hc hc' hlater r hr hgone hseq => ?_
  obtain rfl : c'.recipient = r := List.inj_on_of_nodup_map (Recipient.nodup_recipients hn o key)
    (h.sublist.subset (List.mem_map_of_mem hc')) hr hseq
  obtain ⟨hbefore, hcall⟩ := h.call_within hI ha hlisten c hc
  have hafter : m.Renews c.after.model := Model.Renews.steady.trans hm (hI.trans hbefore hcall)
  -- A number in use at first was given out before the call, so that it says who was there then.
  have hle := Nat.le_trans ((Recipient.registered_of_mem hr).seq_le hn) (hafter.lastIdOf o)
  exact hgone ((h.registered c' hc').of_renews hlater hle)

/-! ## Dispatches under reentrance -/

/-- What a dispatch of a key with a value does, given the calls that it makes. -/
structure World.TakesTurns (listen : Listener History) (o : ObjectId) (key : String) (v : Value)
    (w : World History) (calls : List (Call History)) : Prop where
  /-- The calls are what the turns of the recipients come to. -/
  turns : Dispatches listen o key v (w.model.recipients o key) (w.holdHandlers o key) calls
    (w.notify listen o key v)
  /-- They are made in the order of the recipients. -/
  order : (calls.map (·.recipient)).Sublist (w.model.recipients o key)
  /-- Handlers come in the order of connection. -/
  handlers : ((w.model.handlersOf o key).map (·.seq)).Pairwise (· < ·)
  /-- Watchers come in the order of registration. -/
  watchers : ((w.model.watchersOf o).map (·.seq)).Pairwise (· < ·)
  /-- Nobody is called twice. -/
  once : (calls.map (·.recipient.seq)).Nodup
  /-- Tables are renewed on the way to each call, and in it. -/
  renewed : ∀ c ∈ calls, w.model.Renews c.before.model ∧ c.before.model.Renews c.after.model
  /-- Who is added while tables are renewed has a number beyond those of all recipients. -/
  added : ∀ m, w.model.Renews m → ∀ r ∈ w.model.recipients o key, r.seq < m.nextId o ∧
    ∀ r' : Recipient, r'.Registered m o → ¬ r'.Registered w.model o → r.seq < r'.seq
  /-- Who is gone after a call is not called later, even if added again. -/
  gone : calls.Pairwise fun c c' => ∀ r ∈ w.model.recipients o key,
    ¬ r.Registered c.after.model o → c'.recipient.seq ≠ r.seq
  /-- A call adds to what the client knows, and all of it is there before the next call. -/
  nested : (∀ c ∈ calls, c.before.client <:+ c.after.client) ∧
    calls.IsChain fun c c' => c'.before.client = c.after.client

/-- The turns of a dispatch are taken by the rule if all that is done in them are requests. -/
theorem Dispatches.takesTurns {listen : Listener History} {w : World History}
    {calls : List (Call History)} (hn : w.model.Numbered)
    (hlisten : ∀ n u, Moves Request (u.record (.told n)) (listen n u))
    (h : Dispatches listen o key v (w.model.recipients o key) (w.holdHandlers o key) calls
      (w.notify listen o key v)) : w.TakesTurns listen o key v calls := by
  have hI := World.renews_steady (γ := History)
  have ha := World.renews_attends (γ := History)
  have hrenews n (u : World History) : u.model.Renews (listen n u).model := (hlisten n u).renews
  have hclient n (u : World History) : u.client <:+ (listen n u).client :=
    (List.suffix_cons (Event.told n) u.client).trans (hlisten n u).client_suffix
  have hstart : w.model.Renews (w.holdHandlers o key).model := ha.loose w _
  have horder := h.sublist
  exact {
    turns := h
    order := horder
    handlers := by
      rw [Model.handlersOf_eq, Model.connectionsOf_eq]
      exact (hn o).connections.ascending.sublist (List.filter_sublist.map _)
    watchers := by
      rw [Model.watchersOf_eq]
      exact (hn o).watchers.ascending
    once := by
      have hsub := horder.map Recipient.seq
      rw [List.map_map] at hsub
      exact (Recipient.nodup_recipients hn o key).sublist hsub
    renewed := fun c hc => (h.call_within hI ha hrenews c hc).imp_left (hI.trans hstart)
    added := fun m hm r hr =>
      have hstarted := Recipient.registered_of_mem hr
      ⟨hstarted.seq_lt_nextId hn hm, fun r' => hstarted.seq_lt_of_new hn hm⟩
    gone := h.not_called_of_gone hn hstart hrenews
    nested := ⟨fun c hc =>
      (h.call_within World.history_steady World.history_attends hclient c hc).2, h.chain.2⟩ }

/-- A dispatch goes by turns, whatever is requested in them. Numbers are in order in every run
(`numbered_of_moves`). -/
theorem World.notify_takesTurns {listen : Listener History} {w : World History}
    (hn : w.model.Numbered)
    (hlisten : ∀ n u, Moves Request (u.record (.told n)) (listen n u))
    (hkey : w.model.notifies o key = true) : ∃ calls, w.TakesTurns listen o key v calls := by
  obtain ⟨calls, h⟩ := dispatches_notify (v := v) hn (fun n u => (hlisten n u).renews) hkey
  exact ⟨calls, h.takesTurns hn hlisten⟩

/-- An object with two handlers for a key and a watcher. -/
def Model.shared : Model :=
  let m := (Model.add {} (.map .empty)).2.ensureBinding 0
  let m := (m.connect 0 "k" (.report ⟨1, none⟩)).2
  let m := (m.connect 0 "k" (.report ⟨2, none⟩)).2
  (m.watch 0 (.report 3)).2

/-- A client that does no more than remember what it is told. -/
def noting : Listener History := fun n u => u.record (.told n)

/-- Remembering is no request. -/
theorem noting_moves (n : Notice) (u : World History) :
    Moves Request (u.record (.told n)) (noting n u) :=
  .done _

/-- A client that, when its first function is told true, disconnects the second one, connects it
anew, and writes the key again. -/
def replacing : Listener History := fun n u =>
  match n with
  | .value 1 (.bool true) =>
    let u := (u.record (.told n)).mapModel fun m => (m.disconnect 0 ⟨"k", 2⟩).2
    let u := ((Subscription.connect "k").run noting 0 2 u).2
    (Operation.set "k" (.bool false)).run noting 0 u
  | n => u.record (.told n)

/-- The second function is told of the write made meanwhile, under its new number, and not of the
change that it was disconnected in. -/
theorem World.notify_takesTurns_replaced :
    (Model.shared.Numbered ∧ (∀ n u, Moves Request (u.record (.told n)) (replacing n u)) ∧
      Model.shared.notifies 0 "k" = true) ∧
    (∃ calls, World.TakesTurns replacing 0 "k" (.bool true) ⟨Model.shared, []⟩ calls) ∧
    (World.notify replacing 0 "k" (.bool true) ⟨Model.shared, []⟩).client =
      [.told (.change 3 "k" (.bool true) 0), .told (.change 3 "k" (.bool false) 0),
        .told (.value 2 (.bool false)), .told (.value 1 (.bool false)),
        .told (.value 1 (.bool true))] := by
  have hmade : Moves Request ⟨{}, []⟩ ⟨Model.shared, []⟩ :=
    .next noting_moves (.add (s := .map .empty)) <|
    .next noting_moves (.proxy (o := 0)) <|
    .next noting_moves (.subscribe (o := 0) (k := 1) (s := .connect "k")) <|
    .next noting_moves (.subscribe (o := 0) (k := 2) (s := .connect "k")) <|
    .next noting_moves (.subscribe (o := 0) (k := 3) (s := .watch)) <|
    .done _
  have hlisten n u : Moves Request (u.record (.told n)) (replacing n u) := by
    unfold replacing
    split
    · exact .next noting_moves .disconnect <| .next noting_moves .subscribe <|
        .next noting_moves .write <| .done _
    · exact .done _
  have hn := numbered_of_moves hmade
  have hkey : Model.shared.notifies 0 "k" = true := by decide
  exact ⟨⟨hn, hlisten, hkey⟩, World.notify_takesTurns hn hlisten hkey, rfl⟩

end LiveScope
