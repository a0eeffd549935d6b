import LiveScope.Proofs.World.Reentrance

/-!
# Who hears what

A notice tells a value to one function at most (`Sink.heard?`). Handlers and watchers that do not
tell a function concern it only by what those do whom they tell: a relation that holds whenever
somebody else is told holds over the turns of all of them (`World.handler_avoiding`,
`World.watcher_avoiding`).
-/

namespace LiveScope

namespace Sink

/-- The value that a notice tells to whom it concerns. -/
def heard? (s : Sink) : Notice → Option Value
  | .value c v => if s = ⟨c, none⟩ then some v else none
  | .member c name v => if s = ⟨c, some name⟩ then some v else none
  | .change .. | .warning _ => none

/-- The value that was told last. -/
def lastHeard (s : Sink) : History → Option Value
  | [] => none
  | .told n :: history => (s.heard? n).or (lastHeard s history)
  | _ :: history => lastHeard s history

/-- A value is heard by whom it is told. -/
theorem heard?_notice (s s' : Sink) (v : Value) :
    s.heard? (s'.notice v) = if s = s' then some v else none := by
  obtain ⟨c, member⟩ := s'
  cases member with
  | none => rfl
  | some => rfl

/-- What concerns others is not heard. -/
theorem heard?_notice_of_ne {s s' : Sink} (h : s ≠ s') (v : Value) :
    s.heard? (s'.notice v) = none := by
  rw [heard?_notice, if_neg h]

/-- A value that is told is the last that was. -/
theorem lastHeard_notice (s : Sink) (v : Value) (history : History) :
    s.lastHeard (.told (s.notice v) :: history) = some v := by
  show (s.heard? (s.notice v)).or _ = _
  rw [heard?_notice, if_pos rfl]
  rfl

/-- What concerns others changes nothing about it. -/
theorem lastHeard_told_of_none {s : Sink} {n : Notice} (h : s.heard? n = none)
    (history : History) : s.lastHeard (.told n :: history) = s.lastHeard history := by
  show (s.heard? n).or _ = _
  rw [h]
  rfl

/-- What was told once was told something ever after. -/
theorem lastHeard_of_suffix {s : Sink} {history history' : History} (h : history <:+ history')
    (hheard : s.lastHeard history ≠ none) : s.lastHeard history' ≠ none := by
  obtain ⟨later, rfl⟩ := h
  induction later with
  | nil => exact hheard
  | cons e later ih =>
    cases e with
    | told n =>
      show (s.heard? n).or (s.lastHeard (later ++ history)) ≠ none
      exact fun hnone => ih (Option.or_eq_none_iff.1 hnone).2
    | asked | bound | released | cleared => exact ih

/-- Whether a handler does not tell a function; for one that follows a deep watch that is a matter
of the deep watch. -/
def Avoids (s : Sink) : Handler → Prop
  | .report s' => s ≠ s'
  | .recompute _ g => s ≠ g.sink
  | .follow _ => True

/-- Whether no deep watch tells a function. -/
def Unwatched (s : Sink) (m : Model) : Prop :=
  ∀ d deep, m.deep? d = some deep → s ≠ ⟨deep.callback, none⟩

/-- A deep watch tells the same function as long as nothing is done but to rewatch. -/
theorem Unwatched.of_rewatches {s : Sink} {m m' : Model} (hu : s.Unwatched m)
    (h : m.Rewatches m') : s.Unwatched m' := by
  intro d deep hd
  have hbare := (h.deep? d).symm.trans (congrArg (Option.map DeepWatch.bare) hd)
  obtain ⟨deep', hd', heq⟩ := Option.map_eq_some_iff.1 hbare
  have hcallback := congrArg DeepWatch.callback heq
  have hne := hu d deep' hd'
  rwa [show deep'.callback = deep.callback from hcallback] at hne

end Sink

namespace World

variable {γ : Type}

/-- Whether a relation holds over what is done for others than a function: they are told things,
while something is held for that, and their deep watches are moved and mended. -/
structure Bypasses (s : Sink) (listen : Listener γ) (I : World γ → World γ → Prop) : Prop where
  /-- Others are told something. -/
  told : ∀ n, s.heard? n = none → ∀ hs w, I w (w.holding hs (listen n))
  /-- A deep watch is moved. -/
  retarget : ∀ w id v, I w { w with model := (Model.retarget id v w.model).2 }
  /-- A deep watch is mended. -/
  mend : ∀ w id o seq key v, I w { w with model := (Model.mend id o seq key v w.model).2 }

variable {I : World γ → World γ → Prop} {listen : Listener γ} {s : Sink}

/-- A relation that holds over whatever is done to a model, and whenever others are told something,
holds over what is done for them. -/
theorem Attends.bypasses (ha : Attends I) (hI : Steady I)
    (hlisten : ∀ n, s.heard? n = none → ∀ w, I w (listen n w)) : Bypasses s listen I where
  told n hn hs w := ha.loose.holding hI (hlisten n hn) hs w
  retarget := ha.retarget
  mend := ha.mend

/-- Others are told something while nothing is held for it. -/
theorem Bypasses.now (hb : Bypasses s listen I) {n : Notice} (hn : s.heard? n = none)
    (w : World γ) : I w (listen n w) :=
  hb.told n hn [] w

section

variable (hI : Steady I) (hb : Bypasses s listen I)

include hI hb

/-- A deep watch tells its own function. -/
theorem tell_avoiding {deep : DeepWatch} (hdeep : s ≠ ⟨deep.callback, none⟩) (w : World γ) :
    I w (deep.tell listen w) := by
  unfold DeepWatch.tell
  split
  · exact hb.told (.value deep.callback _) (if_neg hdeep) _ w
  · exact hI.refl w

/-- To evaluate a formula again tells its own function. -/
theorem update_avoiding {g : Formula} (hg : s ≠ g.sink) (field : String) (w : World γ) :
    I w (g.update listen field w) := by
  unfold Formula.update
  split
  · split
    · exact hb.told _ (Sink.heard?_notice_of_ne hg _) _ w
    · exact hb.now (n := .warning _) rfl w
  · exact hI.refl w

/-- A handler that does not tell a function tells others. -/
theorem handler_avoiding {v : Value} {h : Handler} {w : World γ} (hh : s.Avoids h)
    (hu : s.Unwatched w.model) : I w (h.run listen v w) := by
  cases h with
  | report s' => exact hb.now (Sink.heard?_notice_of_ne hh v) w
  | recompute field g => exact update_avoiding hI hb hh field w
  | follow d =>
    unfold Handler.run
    dsimp only
    cases hd : w.model.deep? d with
    | none => exact hI.refl w
    | some deep =>
      have hmoved := hb.retarget w d v
      refine hI.trans (hI.trans hmoved ?_)
        (hb.now (n := .value deep.callback v) (if_neg (hu d deep hd)) _)
      split
      · exact hI.refl _
      · exact hb.now (n := .warning _) rfl _

/-- A watcher tells a value to nobody but the function of its deep watch. -/
theorem watcher_avoiding {o : ObjectId} {key : String} {v : Value} {x : Watcher} {w : World γ}
    (hu : s.Unwatched w.model) : I w (x.run listen o key v w) := by
  unfold Watcher.run
  split
  · exact hb.now (n := .change _ _ _ _) rfl w
  · rename_i d _
    cases hd : w.model.deep? d with
    | none => exact hI.refl w
    | some deep =>
      have hmended := hb.mend w d o x.seq key v
      refine hI.trans (hI.trans hmended ?_) (tell_avoiding hI hb (hu d deep hd) _)
      dsimp only
      split
      · exact hI.refl _
      · exact hb.now (n := .warning _) rfl _

end

end World

end LiveScope
