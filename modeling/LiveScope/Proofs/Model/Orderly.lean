import LiveScope.Proofs.Model.Mending

/-!
# Models whose tables are in order

A binding gives out every number once and appends to its tables, so these are in ascending order of
their numbers. A watcher that mends a deep watch is a node of its tree, and the number of a node
belongs to no other watcher. `Model.Orderly` says so of a model, and the lemmas after it that the
primitive changes keep it so.
-/

namespace LiveScope

namespace Model

/-- The function that a handler tells. -/
def handlerCallback (m : Model) : Handler → Option CallbackId
  | .report sink => some sink.callback
  | .recompute _ formula => some formula.sink.callback
  | .follow id => (m.deep? id).map (·.callback)

/-- The function that a watcher tells. -/
def watchCallback (m : Model) : Watch → Option CallbackId
  | .report callback => some callback
  | .mend id => (m.deep? id).map (·.callback)

end Model

/-- Whether numbers ascend, up to at most `last`. -/
structure Ascends (last : Nat) (numbers : List Nat) : Prop where
  /-- Each number is greater than the one before it. -/
  ascending : numbers.Pairwise (· < ·)
  /-- None is greater than the last. -/
  bounded : ∀ n ∈ numbers, n ≤ last

namespace Ascends

variable {last last' : Nat} {numbers numbers' : List Nat}

/-- There are no numbers at first. -/
theorem nil (last : Nat) : Ascends last [] := ⟨.nil, fun _ h => by cases h⟩

/-- Fewer numbers ascend, too, and more may be given out. -/
theorem sublist (h : Ascends last numbers) (hsub : numbers'.Sublist numbers)
    (hle : last ≤ last') : Ascends last' numbers' :=
  ⟨h.ascending.sublist hsub, fun n hn => Nat.le_trans (h.bounded n (hsub.subset hn)) hle⟩

/-- New numbers are put behind. -/
theorem append (h : Ascends last numbers) (hle : last ≤ last')
    (hasc : numbers'.Pairwise (· < ·)) (hfresh : ∀ n ∈ numbers', last < n ∧ n ≤ last') :
    Ascends last' (numbers ++ numbers') := by
  refine ⟨List.pairwise_append.2 ⟨h.ascending, hasc, fun n hn n' hn' => ?_⟩, fun n hn => ?_⟩
  · have := h.bounded n hn
    have := (hfresh n' hn').1
    omega
  · rcases List.mem_append.1 hn with hn | hn
    · exact Nat.le_trans (h.bounded n hn) hle
    · exact (hfresh n hn).2

/-- A number belongs to one entry of a table. -/
theorem eq_of_number {α : Type} {number : α → Nat} {table : List α}
    (h : Ascends last (table.map number)) {x y : α} (hx : x ∈ table) (hy : y ∈ table)
    (heq : number x = number y) : x = y := by
  have hnodup : (table.map number).Nodup :=
    h.ascending.imp Nat.ne_of_lt
  exact List.inj_on_of_nodup_map hnodup hx hy heq

end Ascends

namespace Model

/-- What the tables and trees of a model are in every run. -/
structure Orderly (m : Model) : Prop where
  /-- All that is referred to exists. -/
  whole : m.Whole
  /-- The connections of an object have ascending numbers that were given out. -/
  connections : ∀ o, Ascends (m.lastIdOf o) ((m.connectionsOf o).map (·.seq))
  /-- So have its watchers. -/
  watchers : ∀ o, Ascends (m.lastIdOf o) ((m.watchersOf o).map (·.seq))
  /-- So have its registrations. -/
  registrations : ∀ o, Ascends (m.lastIdOf o) ((m.registrationsOf o).map (·.id))
  /-- A deep watch that is moved exists. -/
  followed : ∀ o, ∀ c ∈ m.connectionsOf o, ∀ d, c.handler = .follow d → (m.deep? d).isSome = true
  /-- No node of a deep watch occurs twice. -/
  nodup : ∀ d, (m.watched d).Nodup
  /-- No key occurs twice below a node of a tree. -/
  keyed : ∀ d t, m.tree? d = some t → t.Keyed
  /-- The number of a node was given out, and belongs to no watcher but one that mends the deep
  watch. -/
  numbered : ∀ d x, x ∈ m.watched d → x.2 ≤ m.lastIdOf x.1 ∧
    ∀ y ∈ m.watchersOf x.1, y.seq = x.2 → y.watch = .mend d
  /-- A watcher that mends a deep watch is one of its nodes. -/
  covered : ∀ o, ∀ x ∈ m.watchersOf o, ∀ d, x.watch = .mend d → (o, x.seq) ∈ m.watched d

variable {m m' : Model} {id : DeepId}

/-- A deep watch with nodes exists. -/
theorem isSome_deep?_of_mem_watched {x : ObjectId × Nat} (h : x ∈ m.watched id) :
    (m.deep? id).isSome = true := by
  unfold watched tree? at h
  cases hd : m.deep? id with
  | none =>
    rw [hd] at h
    cases h
  | some => rfl

/-- The nodes are read off the deep watches. -/
theorem watched_congr (h : m'.deeps = m.deeps) (d : DeepId) : m'.watched d = m.watched d := by
  unfold watched
  rw [tree?_congr h]

namespace Orderly

/-- Before anything is subscribed the tables are in order. -/
theorem of_unsubscribed (hwhole : m.Whole) (hconnections : ∀ o, m.connectionsOf o = [])
    (hwatchers : ∀ o, m.watchersOf o = []) (hregistrations : ∀ o, m.registrationsOf o = [])
    (hdeeps : m.deeps = #[]) : m.Orderly := by
  have htree (d : DeepId) : m.tree? d = none := by
    unfold tree? deep?
    rw [hdeeps]
    rfl
  have hwatched (d : DeepId) : m.watched d = [] := by
    unfold watched
    rw [htree]
    rfl
  refine ⟨hwhole, fun o => ?_, fun o => ?_, fun o => ?_, fun o c hc => ?_, fun d => ?_,
    fun d t ht => ?_, fun d x hx => ?_, fun o x hx => ?_⟩
  · rw [hconnections]
    exact .nil _
  · rw [hwatchers]
    exact .nil _
  · rw [hregistrations]
    exact .nil _
  · rw [hconnections] at hc
    cases hc
  · rw [hwatched]
    exact .nil
  · rw [htree] at ht
    cases ht
  · rw [hwatched] at hx
    cases hx
  · rw [hwatchers] at hx
    cases hx

/-- A deep watch that a watcher mends exists. -/
theorem mended (h : m.Orderly) {o : ObjectId} {x : Watcher} (hx : x ∈ m.watchersOf o) {d : DeepId}
    (hd : x.watch = .mend d) : (m.deep? d).isSome = true :=
  isSome_deep?_of_mem_watched (h.covered o x hx d hd)

/-- Tables that lose entries stay in order. -/
theorem fewer (h : m.Orderly) (hwhole : m'.Whole) (hdeeps : m'.deeps = m.deeps)
    (hconnections : ∀ o, (m'.connectionsOf o).Sublist (m.connectionsOf o))
    (hwatchers : ∀ o, (m'.watchersOf o).Sublist (m.watchersOf o))
    (hregistrations : ∀ o, (m'.registrationsOf o).Sublist (m.registrationsOf o))
    (hlast : ∀ o, m.lastIdOf o ≤ m'.lastIdOf o) : m'.Orderly where
  whole := hwhole
  connections o := (h.connections o).sublist ((hconnections o).map _) (hlast o)
  watchers o := (h.watchers o).sublist ((hwatchers o).map _) (hlast o)
  registrations o := (h.registrations o).sublist ((hregistrations o).map _) (hlast o)
  followed o c hc d hd := by
    unfold deep?
    rw [hdeeps]
    exact h.followed o c ((hconnections o).subset hc) d hd
  nodup d := by
    rw [watched_congr hdeeps]
    exact h.nodup d
  keyed d t ht := by
    rw [tree?_congr hdeeps] at ht
    exact h.keyed d t ht
  numbered d x hx := by
    rw [watched_congr hdeeps] at hx
    obtain ⟨hle, hmend⟩ := h.numbered d x hx
    exact ⟨Nat.le_trans hle (hlast x.1), fun y hy => hmend y ((hwatchers x.1).subset hy)⟩
  covered o x hx d hd := by
    rw [watched_congr hdeeps]
    exact h.covered o x ((hwatchers o).subset hx) d hd

/-- A tree that is built again leaves the tables in order. -/
theorem regrown {out gone added : List (ObjectId × Nat)} (h : m.Orderly)
    (hr : Regrown id out gone added m m') : m'.Orderly := by
  have hsame := hr.swapped.rewatches
  have hfresh := hr.swapped.fresh
  have hout : ∀ x ∈ out, x ∈ m.watched id := fun x hx =>
    hr.before.mem_iff.2 (List.mem_append_left gone hx)
  constructor
  case whole => exact h.whole.rewatches hsame
  case connections =>
    intro o
    rw [hsame.connectionsOf]
    exact (h.connections o).sublist (.refl _) (hsame.lastIdOf o)
  case watchers =>
    intro o
    obtain ⟨new, hnew, hasc, hmem⟩ := hr.swapped.watchersOf o
    rw [hnew, List.map_append]
    refine ((h.watchers o).sublist (List.filter_sublist.map _) (Nat.le_refl _)).append
      (hsame.lastIdOf o) (List.pairwise_map.2 hasc) fun n hn => ?_
    obtain ⟨x, hx, rfl⟩ := List.mem_map.1 hn
    exact hfresh _ ((hmem x).1 hx).2
  case registrations =>
    intro o
    rw [hsame.registrationsOf]
    exact (h.registrations o).sublist (.refl _) (hsame.lastIdOf o)
  case followed =>
    intro o c hc d hd
    rw [hsame.connectionsOf] at hc
    rw [hsame.isSome_deep?]
    exact h.followed o c hc d hd
  case nodup =>
    intro d
    by_cases hd : d = id
    · subst hd
      refine hr.after.nodup_iff.2 (List.nodup_append.2 ⟨?_, hr.swapped.nodup, ?_⟩)
      · exact (List.nodup_append.1 (hr.before.nodup_iff.1 (h.nodup d))).1
      · -- The numbers of the new nodes were given out after those of the others.
        rintro x hx y hy rfl
        exact Nat.not_lt.2 (h.numbered d x (hout x hx)).1 (hfresh x hy).1
    · rw [hr.watched_of_ne hd]
      exact h.nodup d
  case keyed =>
    intro d t ht
    by_cases hd : d = id
    · subst hd
      exact hr.keyed t ht
    · rw [hr.others d hd] at ht
      exact h.keyed d t ht
  case numbered =>
    intro d x hx
    -- A node that was there before keeps its number for itself.
    have hold (hx : x ∈ m.watched d) : x.2 ≤ m'.lastIdOf x.1 ∧
        ∀ y ∈ m'.watchersOf x.1, y.seq = x.2 → y.watch = .mend d := by
      obtain ⟨hle, hmend⟩ := h.numbered d x hx
      refine ⟨Nat.le_trans hle (hsame.lastIdOf x.1), fun y hy heq => ?_⟩
      rcases hr.swapped.watcher_cases hy with ⟨hy, _⟩ | ⟨_, hy⟩
      · exact hmend y hy heq
      · exact absurd (hfresh _ hy).1 (Nat.not_lt.2 (heq ▸ hle))
    by_cases hd : d = id
    · subst hd
      rcases List.mem_append.1 (hr.after.mem_iff.1 hx) with hx | hx
      · exact hold (hout x hx)
      · -- The number of a new node was not in use.
        refine ⟨(hfresh x hx).2, fun y hy heq => ?_⟩
        rcases hr.swapped.watcher_cases hy with ⟨hy, _⟩ | ⟨hmend, _⟩
        · have hle := (h.watchers x.1).bounded y.seq (List.mem_map.2 ⟨y, hy, rfl⟩)
          exact absurd (hfresh x hx).1 (Nat.not_lt.2 (heq ▸ hle))
        · exact hmend
    · rw [hr.watched_of_ne hd] at hx
      exact hold hx
  case covered =>
    intro o x hx d hd
    rcases hr.swapped.watcher_cases hx with ⟨hx, hkept⟩ | ⟨hmend, hx⟩
    · have hnode := h.covered o x hx d hd
      by_cases hid : d = id
      · subst hid
        rcases List.mem_append.1 (hr.before.mem_iff.1 hnode) with hin | hin
        · exact hr.after.mem_iff.2 (List.mem_append_left added hin)
        · exact absurd hin hkept
      · rw [hr.watched_of_ne hid]
        exact hnode
    · rw [hmend] at hd
      obtain rfl := Watch.mend.inj hd
      exact hr.after.mem_iff.2 (List.mem_append_right out hx)

end Orderly

end Model

end LiveScope
