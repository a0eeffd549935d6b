import LiveScope.Proofs.Deep.Bystanders
import LiveScope.Proofs.World.Dispatching

/-!
# What a deep watch refuses in a dispatch

A deep watch that is called in a dispatch, as a handler to be moved or as a watcher to be mended,
refuses a value that lies too deep, and a warning is told of it. Other deep watches warn in the same
words, so that it is not read off the warnings whose they are: `World.refusals` follows the turns of
a dispatch and collects the faults of one deep watch, and `Operation.refusals` does so for all that
an operation tells of. Each of them is warned of (`Spectating.run_warned`).

The clients here only look on (`Listener.Spectates`): they write nothing and take nothing away from
the deep watch. Then a turn of any other recipient leaves the deep watch as it is
(`Spectating.turn_other`), and whatever happens only adds to the model and to what was told
(`World.Onlooks`).
-/

namespace LiveScope

variable {γ : Type}

/-- The fault of an operation that failed. -/
def fault? {α : Type} : Except Fault α → Option Fault
  | .ok _ => none
  | .error fault => some fault

/-- An operation without a result has no fault exactly if it is done. -/
theorem fault?_eq_none_iff {res : Except Fault Unit} : fault? res = none ↔ res = .ok () := by
  cases res with
  | ok => exact iff_of_true rfl rfl
  | error => exact iff_of_false nofun nofun

namespace Recipient

/-- Whether a recipient attends to a deep watch. -/
def Attends (d : DeepId) : Recipient → Prop
  | handler c => c.handler.follows d = true
  | watcher x => x.watch = .mend d

/-- The fault for which a deep watch does not take up the value that a recipient is called with. -/
def refusal? (d : DeepId) (o : ObjectId) (key : String) (v : Value) (m : Model) :
    Recipient → Option Fault
  | handler c => if c.handler.follows d then fault? (Model.retarget d v m).1 else none
  | watcher x => if x.watch = .mend d then fault? (Model.mend d o x.seq key v m).1 else none

variable {d : DeepId} {o : ObjectId} {key : String} {v : Value} {m : Model} {r : Recipient}

/-- Those who attend to something else refuse nothing. -/
theorem refusal?_of_not_attends (h : ¬ r.Attends d) : r.refusal? d o key v m = none := by
  cases r with
  | handler c => exact if_neg h
  | watcher x => exact if_neg h

/-- Only an object can be refused. -/
theorem refusal?_of_object?_eq_none (h : v.object? = none) : r.refusal? d o key v m = none := by
  have hnot (q : ObjectId) : v ≠ .object q := by
    rintro rfl
    cases h
  cases r with
  | handler c =>
    have hdone : (Model.retarget d v m).1 = .ok () := by
      cases hret : Model.retarget d v m with
      | mk res m' =>
        cases Model.moved_of_retarget hret with
        | stays | dropped | built => rfl
        | refused hvalue => exact absurd hvalue (hnot _)
    unfold refusal?
    dsimp only
    rw [fault?_eq_none_iff.2 hdone, ite_self]
  | watcher x =>
    have hdone : (Model.mend d o x.seq key v m).1 = .ok () := by
      cases hmend : Model.mend d o x.seq key v m with
      | mk res m' =>
        cases Model.mended_of_mend hmend with
        | absent | shortened | unchanged | removed | replaced => rfl
        | refused _ _ _ hvalue => exact absurd hvalue (hnot _)
    unfold refusal?
    dsimp only
    rw [fault?_eq_none_iff.2 hdone, ite_self]

end Recipient

/-! ## The faults of a dispatch -/

namespace World

/-- The faults for which a deep watch does not take up a value in the turns of recipients. -/
def refusals (d : DeepId) (listen : Listener γ) (o : ObjectId) (key : String) (v : Value) :
    List Recipient → World γ → List Fault
  | [], _ => []
  | r :: rs, w =>
    (if r.isFound w.model o then r.refusal? d o key v w.model else none).toList ++
      refusals d listen o key v rs (r.turn listen o key v w)

/-- The faults for which a deep watch does not take up a value in a dispatch. -/
def notifyRefusals (d : DeepId) (listen : Listener γ) (o : ObjectId) (key : String) (v : Value)
    (w : World γ) : List Fault :=
  if w.model.notifies o key then
    refusals d listen o key v (w.model.recipients o key) (w.holdHandlers o key)
  else []

end World

/-- The faults for which a deep watch does not take up a value while announcements are told of. -/
def Mutation.refusals (d : DeepId) (listen : Listener γ) (o : ObjectId) :
    List (String × Value) → World γ → List Fault
  | [], _ => []
  | (key, v) :: rest, w =>
    w.notifyRefusals d listen o key v ++
      Mutation.refusals d listen o rest (w.notify listen o key v)

/-- The faults for which a deep watch does not take up a value during an operation. -/
def Operation.refusals (d : DeepId) (listen : Listener γ) (o : ObjectId) (op : Operation)
    (w : World γ) : List Fault :=
  match op.mutation? w.model o with
  | .ok μ => Mutation.refusals d listen μ.object μ.announcements
      ((w.mapModel (·.setStore μ.object μ.store)).mapModel (·.holdAll μ.holds))
  | .error _ => []

namespace World

variable {d : DeepId} {listen : Listener γ} {o : ObjectId} {key : String} {v : Value}
  {rs rs' : List Recipient} {w : World γ}

/-- The faults of some turns and of others after them. -/
theorem refusals_append : refusals d listen o key v (rs ++ rs') w =
    refusals d listen o key v rs w ++
      refusals d listen o key v rs' (rs.foldl (Recipient.turn listen o key v) w) := by
  induction rs generalizing w with
  | nil => rfl
  | cons r rs ih =>
    rw [List.cons_append, refusals, refusals, ih, List.append_assoc, List.foldl_cons]

/-- A deep watch refuses nothing in turns that keep what makes it take up the value. -/
theorem refusals_eq_nil {P : World γ → Prop}
    (hP : ∀ (r : Recipient) u, P u → P (r.turn listen o key v u))
    (h : ∀ r ∈ rs, ∀ u, P u → r.refusal? d o key v u.model = none) (hw : P w) :
    refusals d listen o key v rs w = [] := by
  induction rs generalizing w with
  | nil => rfl
  | cons r rs ih =>
    rw [refusals, h r List.mem_cons_self w hw, ite_self,
      ih (fun r' hr' => h r' (List.mem_cons_of_mem r hr')) (hP r w hw)]
    rfl

/-- A deep watch refuses nothing in the turns of others. -/
theorem refusals_of_not_attends (h : ∀ r ∈ rs, ¬ r.Attends d) :
    refusals d listen o key v rs w = [] :=
  refusals_eq_nil (P := fun _ => True) (fun _ _ _ => trivial)
    (fun r hr _ _ => Recipient.refusal?_of_not_attends (h r hr)) trivial

/-- In a dispatch of what is no object nothing is refused. -/
theorem notifyRefusals_of_object?_eq_none (h : v.object? = none) :
    w.notifyRefusals d listen o key v = [] := by
  unfold notifyRefusals
  split
  · exact refusals_eq_nil (P := fun _ => True) (fun _ _ _ => trivial)
      (fun r _ _ _ => Recipient.refusal?_of_object?_eq_none h) trivial
  · rfl

/-- In a dispatch to others nothing is refused. -/
theorem notifyRefusals_of_not_attends (h : ∀ r ∈ w.model.recipients o key, ¬ r.Attends d) :
    w.notifyRefusals d listen o key v = [] := by
  unfold notifyRefusals
  split
  · exact refusals_of_not_attends h
  · rfl

end World

/-- The faults of some announcements and of others after them. -/
theorem Mutation.refusals_append {d : DeepId} {listen : Listener γ} {o : ObjectId}
    (as bs : List (String × Value)) (w : World γ) :
    Mutation.refusals d listen o (as ++ bs) w = Mutation.refusals d listen o as w ++
      Mutation.refusals d listen o bs (Mutation.announce listen o as w) := by
  induction as generalizing w with
  | nil => rfl
  | cons a as ih =>
    obtain ⟨key, v⟩ := a
    rw [List.cons_append, refusals, refusals, ih, List.append_assoc]
    rfl

/-- While it is told of what is no object nothing is refused. -/
theorem Mutation.refusals_of_object?_eq_none {d : DeepId} {listen : Listener γ} {o : ObjectId}
    {as : List (String × Value)} (h : ∀ a ∈ as, a.2.object? = none) (w : World γ) :
    Mutation.refusals d listen o as w = [] := by
  induction as generalizing w with
  | nil => rfl
  | cons a as ih =>
    rw [Mutation.refusals, World.notifyRefusals_of_object?_eq_none (h a List.mem_cons_self),
      ih fun b hb => h b (List.mem_cons_of_mem a hb)]
    rfl

/-! ## Clients that look on -/

namespace World

/-- Whether nothing that was there is changed between two worlds, and nothing that was told is
forgotten. -/
structure Onlooks (w w' : World History) : Prop where
  /-- All content is the same. -/
  content : w.model.Extends w'.model
  /-- All that is referred to exists, if it did. -/
  whole : w.model.Whole → w'.model.Whole
  /-- Deep watches that existed exist. -/
  deeps : ∀ d, (w.model.deep? d).isSome = true → (w'.model.deep? d).isSome = true
  /-- The history goes on. -/
  grows : w.client <:+ w'.client

variable {w w' : World History} {P : Notice → Prop}

/-- Looking on goes on. -/
theorem Onlooks.steady : Steady Onlooks where
  refl w := ⟨Model.Extends.steady.refl w.model, id, fun _ hd => hd, List.suffix_rfl⟩
  trans h h' := ⟨Model.Extends.steady.trans h.content h'.content, fun hw => h'.whole (h.whole hw),
    fun d hd => h'.deeps d (h.deeps d hd), h.grows.trans h'.grows⟩

/-- What is done to a model while a change is told of changes nothing that was there. -/
theorem Onlooks.attends : Attends Onlooks :=
  Quiet.attends fun _ _ hr =>
    ⟨hr.extends, fun hw => hw.rewatches hr, fun d hd => (hr.isSome_deep? d).trans hd,
      List.suffix_rfl⟩

/-- Whether a notice of some kind is told between two worlds. -/
def Notified (P : Notice → Prop) (w w' : World History) : Prop :=
  ∃ new n, w'.client = new ++ w.client ∧ .told n ∈ new ∧ P n

/-- Whether a function is told a value between two worlds. -/
def Told (k : CallbackId) : World History → World History → Prop :=
  Notified fun n => ∃ V, n = .value k V

/-- Whether it is warned between two worlds that something is not watched, because of a fault. -/
def Warned (fault : Fault) : World History → World History → Prop :=
  Notified fun n => ∃ key, n = .warning (.replacement key fault) ∨ n = .warning (.nested key fault)

/-- What is told in a part of the time is told in all of it. -/
theorem Notified.within {w₁ w₂ : World History} (h : Notified P w₁ w₂)
    (hbefore : w.client <:+ w₁.client) (hafter : w₂.client <:+ w'.client) : Notified P w w' := by
  obtain ⟨new, n, hnew, hmem, hn⟩ := h
  obtain ⟨old, hold⟩ := hbefore
  obtain ⟨late, hlate⟩ := hafter
  refine ⟨late ++ (new ++ old), n, ?_, List.mem_append_right _ (List.mem_append_left _ hmem), hn⟩
  rw [← hlate, hnew, ← hold, List.append_assoc, List.append_assoc]

end World

/-- Whether a client, when it is told something, writes nothing and forgets nothing, and takes
nothing away from a deep watch that is connected to its property. -/
def Listener.Spectates (d : DeepId) (r : ObjectId) (p : String) (k : CallbackId)
    (listen : Listener History) : Prop :=
  ∀ n u, World.Onlooks (u.record (.told n)) (listen n u) ∧
    (u.model.Posted d r p k → Model.Aside d k u.model (listen n u).model)

namespace Spectating

variable (d : DeepId) (r : ObjectId) (p : String) (k : CallbackId) (v : Value)

/-- Whether a deep watch that is connected to its property is left as it is between two worlds, if
the value told of exists. -/
def Spares (w w' : World History) : Prop :=
  w.model.Posted d r p k → (∀ q, v = .object q → q < w.model.objects.size) →
    Model.Aside d k w.model w'.model

variable {d r p k v} {listen : Listener History} {w : World History} {o : ObjectId} {key : String}

/-- A deep watch that is left as it is stays connected, and what exists goes on to exist. -/
theorem Spares.steady : Steady (Spares d r p k v) where
  refl w _ _ := (Model.Aside.steady d k).refl w.model
  trans h h' hposted hknown := by
    have hfirst := h hposted hknown
    refine (Model.Aside.steady d k).trans hfirst (h' (hposted.aside hfirst) fun q hq => ?_)
    exact Nat.lt_of_lt_of_le (hknown q hq) hfirst.size

/-- Holding other things. -/
theorem Spares.loose : World.Loose (Spares d r p k v) := fun w holds _ _ =>
  Model.aside_holds d k w.model holds

section Listening

variable (hlisten : listen.Spectates d r p k)

include hlisten

/-- To tell something changes nothing that was there. -/
theorem tell_onlooks (n : Notice) (w : World History) : World.Onlooks w (listen n w) := by
  have hlisten := (hlisten n w).1
  exact ⟨hlisten.content, hlisten.whole, hlisten.deeps,
    (List.suffix_cons _ _).trans hlisten.grows⟩

/-- A turn changes nothing that was there. -/
theorem turn_onlooks (r' : Recipient) (w : World History) :
    World.Onlooks w (r'.turn listen o key v w) := by
  have hI := World.Onlooks.steady
  have ha := World.Onlooks.attends
  unfold Recipient.turn
  refine hI.trans ?_ (ha.loose.releaseAll hI r'.holds _)
  split
  · exact Recipient.call_within hI ha (tell_onlooks hlisten) r' w
  · exact hI.refl w

/-- Any number of turns change nothing that was there. -/
theorem turns_onlooks (rs : List Recipient) (w : World History) :
    World.Onlooks w (rs.foldl (Recipient.turn listen o key v) w) :=
  World.Onlooks.steady.foldl rs (fun r' _ u => turn_onlooks hlisten r' u) w

/-- A dispatch changes nothing that was there. -/
theorem notify_onlooks (o : ObjectId) (key : String) (v : Value) (w : World History) :
    World.Onlooks w (w.notify listen o key v) :=
  World.notify_within World.Onlooks.steady World.Onlooks.attends (tell_onlooks hlisten) o key v w

/-- Announcements change nothing that was there. -/
theorem announce_onlooks (o : ObjectId) (as : List (String × Value)) (w : World History) :
    World.Onlooks w (Mutation.announce listen o as w) :=
  World.Onlooks.steady.foldl as (fun a _ u => notify_onlooks hlisten o a.1 a.2 u) w

/-- What is told is told. -/
theorem tell_notified {P : Notice → Prop} {n : Notice} (hn : P n) (w : World History) :
    World.Notified P w (listen n w) := by
  obtain ⟨new, hnew⟩ := (hlisten n w).1.grows
  have hclient : new ++ .told n :: w.client = (listen n w).client := hnew
  refine ⟨new ++ [.told n], n, ?_, List.mem_append_right new List.mem_cons_self, hn⟩
  rw [← hclient, List.append_assoc]
  rfl

/-- To tell the function of a deep watch something. -/
theorem tell_told (V : Value) (w : World History) : World.Told k w (listen (.value k V) w) :=
  tell_notified hlisten ⟨V, rfl⟩ w

/-- To tell something leaves the deep watch as it is. -/
theorem tell_spares (n : Notice) (w : World History) : Spares d r p k v w (listen n w) :=
  fun hposted _ => (hlisten n w).2 hposted

/-- To tell something while objects are held leaves the deep watch as it is. -/
theorem holding_spares (hs : List Hold) (n : Notice) (w : World History) :
    Spares d r p k v w (w.holding hs (listen n)) :=
  Spares.loose.holding Spares.steady (tell_spares hlisten n) hs w

/-- To call another recipient leaves the deep watch as it is. -/
theorem call_other {r' : Recipient} (h : ¬ r'.Attends d) (w : World History) :
    Spares d r p k v w (r'.call listen o key v w) := by
  cases r' with
  | handler c =>
    refine World.handler_tells Spares.steady (holding_spares hlisten) (tell_spares hlisten)
      fun e he => ?_
    have hne : e ≠ d := by
      rintro rfl
      refine h ?_
      show c.handler.follows e = true
      rw [he]
      exact beq_self_eq_true e
    exact fun hposted hknown => (Model.reshaped_retarget hposted.whole hknown).aside
      hposted.toNoded hne fun e' he' => Model.sameDeep_retarget he' v w.model
  | watcher x =>
    refine World.watcher_tells Spares.steady (holding_spares hlisten) (tell_spares hlisten)
      fun e he => ?_
    have hne : e ≠ d := by
      rintro rfl
      exact h he
    exact fun hposted hknown => (Model.reshaped_mend hposted.whole hknown).aside
      hposted.toNoded hne fun e' he' => Model.sameDeep_mend he' o x.seq key v w.model

/-- The turn of another recipient leaves the deep watch as it is. -/
theorem turn_other {r' : Recipient} (h : ¬ r'.Attends d) (w : World History) :
    Spares d r p k v w (r'.turn listen o key v w) := by
  unfold Recipient.turn
  refine Spares.steady.trans ?_ (Spares.loose.releaseAll Spares.steady r'.holds _)
  split
  · exact call_other hlisten h w
  · exact Spares.steady.refl w

/-- The turns of other recipients leave the deep watch as it is. -/
theorem turns_other {rs : List Recipient} (h : ∀ r' ∈ rs, ¬ r'.Attends d) (w : World History) :
    Spares d r p k v w (rs.foldl (Recipient.turn listen o key v) w) :=
  Spares.steady.foldl rs (fun r' hr' u => turn_other hlisten (h r' hr') u) w

/-- A dispatch to other recipients leaves the deep watch as it is. -/
theorem notify_other (h : ∀ r' ∈ w.model.recipients o key, ¬ r'.Attends d) :
    Spares d r p k v w (w.notify listen o key v) := by
  by_cases hkey : w.model.notifies o key = true
  · rw [World.notify_eq_turns listen key v hkey]
    exact Spares.steady.trans (Spares.loose w _) (turns_other hlisten h _)
  · rw [World.notify_eq, if_neg hkey]
    exact Spares.steady.refl w

/-! ## What is refused is warned of -/

/-- A turn in which a deep watch refuses the value warns of it. -/
theorem turn_warned {r' : Recipient} {fault : Fault} (hdeep : (w.model.deep? d).isSome = true)
    (hfound : r'.isFound w.model o = true)
    (hrefused : r'.refusal? d o key v w.model = some fault) :
    World.Warned fault w (r'.turn listen o key v w) := by
  obtain ⟨deep, hdeep⟩ := Option.isSome_iff_exists.1 hdeep
  have hwarned {n : Notice} (hn : ∃ key, n = .warning (.replacement key fault) ∨
      n = .warning (.nested key fault)) (m : Model) :
      World.Warned fault w (listen n { w with model := m }) :=
    (tell_notified hlisten hn { w with model := m }).within List.suffix_rfl List.suffix_rfl
  suffices World.Warned fault w (r'.call listen o key v w) by
    unfold Recipient.turn
    rw [if_pos hfound]
    exact this.within List.suffix_rfl List.suffix_rfl
  cases r' with
  | handler c =>
    unfold Recipient.refusal? at hrefused
    dsimp only at hrefused
    split at hrefused
    · -- The deep watch cannot be moved to the value, and warns with the key of its property.
      rename_i hfollows
      unfold Recipient.call Handler.run
      dsimp only
      rw [Handler.eq_follow hfollows]
      dsimp only
      rw [hdeep]
      cases hret : Model.retarget d v w.model with
      | mk res m =>
        rw [hret] at hrefused
        cases res with
        | ok => cases hrefused
        | error e =>
          obtain rfl := Option.some.inj hrefused
          exact (hwarned ⟨deep.key, .inl rfl⟩ m).within List.suffix_rfl
            (tell_onlooks hlisten _ _).grows
    · cases hrefused
  | watcher x =>
    unfold Recipient.refusal? at hrefused
    dsimp only at hrefused
    split at hrefused
    · -- The deep watch cannot be mended, and warns with the key that was written before it tells.
      rename_i hmends
      unfold Recipient.call Watcher.run
      dsimp only
      rw [hmends]
      dsimp only
      rw [hdeep]
      cases hmend : Model.mend d o x.seq key v w.model with
      | mk res m =>
        rw [hmend] at hrefused
        cases res with
        | ok => cases hrefused
        | error e =>
          obtain rfl := Option.some.inj hrefused
          refine (hwarned ⟨key, .inr rfl⟩ m).within List.suffix_rfl ?_
          exact (World.deep_tells World.Onlooks.steady (fun hs n u =>
            World.Onlooks.attends.loose.holding World.Onlooks.steady (tell_onlooks hlisten n) hs u)
            deep _).grows
    · cases hrefused

/-- Turns in which a deep watch refuses something warn of it. -/
theorem turns_warned {rs : List Recipient} {fault : Fault}
    (hdeep : (w.model.deep? d).isSome = true)
    (hrefused : fault ∈ World.refusals d listen o key v rs w) :
    World.Warned fault w (rs.foldl (Recipient.turn listen o key v) w) := by
  induction rs generalizing w with
  | nil => cases hrefused
  | cons r' rs ih =>
    have hturn : World.Onlooks w (r'.turn listen o key v w) := turn_onlooks hlisten r' w
    rw [List.foldl_cons]
    rcases List.mem_append.1 hrefused with hfirst | hlater
    · split at hfirst
      · rename_i hfound
        exact (turn_warned hlisten hdeep hfound (Option.mem_toList.1 hfirst)).within
          List.suffix_rfl (turns_onlooks hlisten rs _).grows
      · cases hfirst
    · exact (ih (hturn.deeps d hdeep) hlater).within hturn.grows List.suffix_rfl

/-- A dispatch in which a deep watch refuses something warns of it. -/
theorem notify_warned {fault : Fault} (hdeep : (w.model.deep? d).isSome = true)
    (hrefused : fault ∈ w.notifyRefusals d listen o key v) :
    World.Warned fault w (w.notify listen o key v) := by
  unfold World.notifyRefusals at hrefused
  split at hrefused
  · rename_i hkey
    rw [World.notify_eq_turns listen key v hkey]
    exact (turns_warned hlisten (w := w.holdHandlers o key) hdeep hrefused).within
      List.suffix_rfl List.suffix_rfl
  · cases hrefused

/-- Announcements during which a deep watch refuses something warn of it. -/
theorem announce_warned {as : List (String × Value)} {fault : Fault}
    (hdeep : (w.model.deep? d).isSome = true)
    (hrefused : fault ∈ Mutation.refusals d listen o as w) :
    World.Warned fault w (Mutation.announce listen o as w) := by
  induction as generalizing w with
  | nil => cases hrefused
  | cons a as ih =>
    have hnotify := notify_onlooks hlisten o a.1 a.2 w
    rcases List.mem_append.1 hrefused with hfirst | hlater
    · exact (notify_warned hlisten hdeep hfirst).within List.suffix_rfl
        (announce_onlooks hlisten o as _).grows
    · exact (ih (hnotify.deeps d hdeep) hlater).within hnotify.grows List.suffix_rfl

/-- An operation during which a deep watch refuses something warns of it. -/
theorem run_warned {op : Operation} {fault : Fault} (hdeep : (w.model.deep? d).isSome = true)
    (hrefused : fault ∈ op.refusals d listen o w) :
    World.Warned fault w (op.run listen o w) := by
  unfold Operation.refusals at hrefused
  rw [Operation.run_eq]
  cases hμ : op.mutation? w.model o with
  | error =>
    rw [hμ] at hrefused
    cases hrefused
  | ok μ =>
    rw [hμ] at hrefused
    refine (announce_warned hlisten ?_ hrefused).within List.suffix_rfl List.suffix_rfl
    exact hdeep

end Listening

end Spectating

end LiveScope
