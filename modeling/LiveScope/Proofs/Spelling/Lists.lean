import LiveScope.Proofs.Row.Nodes
import LiveScope.Proofs.Spelling.Telling
import LiveScope.Proofs.World.Dispatching

/-!
# Writing one element of a list by two keys

The key of an element may be spelled with leading zeros. A write finds the element by the number
that the key denotes, and so leaves the same list however the key is spelled
(`Operation.agrees_through`). Handlers are connected to a key as it is spelled, and a tree keeps
what is in a list under the spelling of the write that put it there. Where neither has anything
under the two spellings, the two writes call the same handlers and watchers and leave deep watches
on the same objects (`Operation.writtenAlike`); where one of them has, they need not
(`Operation.not_writtenAlike`).
-/

namespace LiveScope

namespace Store

/-- Whether a key is a run of digits. -/
def isNumeral (key : String) : Bool :=
  !key.toList.isEmpty && key.toList.all fun c => (Decimal.digit? c).isSome

/-- Whether two keys are runs of digits that denote one number. -/
structure SameNumber (k k' : String) : Prop where
  /-- The first key is a run of digits. -/
  numeral : isNumeral k = true
  /-- The second key is a run of digits. -/
  numeral' : isNumeral k' = true
  /-- Both denote the same number. -/
  number : Decimal.natural 0 k.toList = Decimal.natural 0 k'.toList

/-- A run of digits denotes an index, if it is one of a machine word. -/
theorem index?_of_isNumeral {key : String} (h : isNumeral key = true) :
    index? key = if Decimal.natural 0 key.toList < Nat.pow 2 64
      then some (Decimal.natural 0 key.toList) else none := by
  obtain ⟨hempty, hdigits⟩ := (Bool.and_eq_true _ _).mp h
  have hany : (key.toList.any fun c => (Decimal.digit? c).isNone) = false := by
    rw [List.any_eq_false]
    intro c hc hnone
    have hsome := List.all_eq_true.1 hdigits c hc
    rw [Option.isNone_iff_eq_none] at hnone
    rw [hnone] at hsome
    cases hsome
  unfold index?
  dsimp only
  rw [hany, (Bool.not_eq_eq_eq_not ..).mp hempty]
  rfl

/-- Both denote the same index. -/
theorem SameNumber.index? {k k' : String} (h : SameNumber k k') : index? k = index? k' := by
  rw [index?_of_isNumeral h.numeral, index?_of_isNumeral h.numeral', h.number]

/-- A run of digits is not the key of the length. -/
theorem ne_lengthKey_of_isNumeral {key : String} (h : isNumeral key = true) : key ≠ lengthKey := by
  rintro rfl
  revert h
  decide

end Store

/-- Whether two keys are the same, or one spelling and the other. -/
def Respelling (k k' a b : String) : Prop := a = b ∨ (a = k ∧ b = k')

/-- Which keys stand for each other where a list was written by two keys: below the nodes that the
list has had since before that, the one for the other, and all others for themselves. -/
def Keying.spelled (l : ObjectId) (last : Nat) (k k' : String) : Keying := fun o w a b =>
  if o = l ∧ w ≤ last then (a = k ∧ b = k') ∨ (a = b ∧ a ≠ k ∧ a ≠ k') else a = b

namespace Keying

variable {l : ObjectId} {last : Nat} {k k' : String}

/-- Keys of one number stand for each other one by one. -/
theorem spelled_coherent (h : Store.SameNumber k k') : (spelled l last k k').Coherent where
  one {o w a b c d} hab hcd := by
    unfold spelled at hab hcd
    by_cases ho : o = l ∧ w ≤ last
    · rw [if_pos ho] at hab hcd
      -- Below old nodes of the list no other key stands for either spelling.
      rcases hab with ⟨rfl, rfl⟩ | ⟨rfl, hne, hne'⟩
      · rcases hcd with ⟨rfl, rfl⟩ | ⟨rfl, hne, hne'⟩
        · exact iff_of_true rfl rfl
        · exact iff_of_false (Ne.symm hne) (Ne.symm hne')
      · rcases hcd with ⟨rfl, rfl⟩ | ⟨rfl, _, _⟩
        · exact iff_of_false hne hne'
        · exact .rfl
    · rw [if_neg ho] at hab hcd
      rw [hab, hcd]
  index {o w a b} hab := by
    unfold spelled at hab
    split at hab
    · rcases hab with ⟨rfl, rfl⟩ | ⟨rfl, _, _⟩
      · exact h.index?
      · rfl
    · rw [hab]
  length {o w a b} hab := by
    unfold spelled at hab
    split at hab
    · rcases hab with ⟨rfl, rfl⟩ | ⟨rfl, _, _⟩
      · exact iff_of_false (Store.ne_lengthKey_of_isNumeral h.numeral)
          (Store.ne_lengthKey_of_isNumeral h.numeral')
      · rfl
    · rw [hab]

/-- The length stands for itself. -/
theorem spelled_length (h : Store.SameNumber k k') (o : ObjectId) (w : Nat) :
    spelled l last k k' o w Store.lengthKey Store.lengthKey := by
  unfold spelled
  split
  · exact .inr ⟨rfl, (Store.ne_lengthKey_of_isNumeral h.numeral).symm,
      (Store.ne_lengthKey_of_isNumeral h.numeral').symm⟩
  · rfl

end Keying

/-- Whether two keys of an object make no difference: no handler is connected to them, no tree has a
node there, and both or neither are told of. -/
structure Model.Indifferent (m : Model) (o : ObjectId) (k k' : String) : Prop where
  /-- Both or neither are told of. -/
  notifies : m.notifies o k' = m.notifies o k
  /-- No handler is connected to the first key. -/
  handlers : m.handlersOf o k = []
  /-- No handler is connected to the second key. -/
  handlers' : m.handlersOf o k' = []
  /-- No tree has a node at one of them. -/
  nodes : ∀ d t, m.tree? d = some t →
    t.Every fun p _ labels => p = o → ∀ e ∈ labels, e.1 ≠ k ∧ e.1 ≠ k'

/-- A change of the list makes no difference to that. -/
theorem Model.Indifferent.setStore {m : Model} {o : ObjectId} {k k' : String}
    (h : m.Indifferent o k k') (s : Store) : (m.setStore o s).Indifferent o k k' where
  notifies := by
    unfold Model.notifies
    rw [Model.binding?_setStore]
    exact h.notifies
  handlers := (Model.elim_setStore (·.handlersOf k) [] m o s o).trans h.handlers
  handlers' := (Model.elim_setStore (·.handlersOf k') [] m o s o).trans h.handlers'
  nodes := h.nodes

/-- Whether two operations are refused, or change an object in one way, hold the same and tell of
the same, but for the key that they tell of first. -/
inductive Mutation.Agrees (k k' : String) : Except Fault Mutation → Except Fault Mutation → Prop
  | refused (fault fault' : Fault) : Agrees k k' (.error fault) (.error fault')
  | made (o : ObjectId) (s : Store) (v : Value) (lengths : List Nat) (holds : List Hold) :
      Agrees k k' (.ok ⟨o, s, (k, v) :: lengths.map Operation.announcedLength, holds⟩)
        (.ok ⟨o, s, (k', v) :: lengths.map Operation.announcedLength, holds⟩)

namespace Operation

variable {l : ObjectId} {k k' : String} {v : Option Value}

/-- A write of a value through a key, or a deletion. -/
def through : Option Value → String → Operation
  | some v, key => .set key v
  | none, key => .delete key

/-- What is written is the value. -/
theorem value?_through (v : Option Value) (key : String) : (through v key).value? = v := by
  cases v <;> rfl

/-- Writes of an element by two keys make the same of the list. -/
theorem agrees_through {m : Model} (hlist : (m.store l).isList = true)
    (hsame : Store.SameNumber k k') :
    Mutation.Agrees k k' ((through v k).mutation? m l) ((through v k').mutation? m l) := by
  have hk := Store.ne_lengthKey_of_isNumeral hsame.numeral
  have hk' := Store.ne_lengthKey_of_isNumeral hsame.numeral'
  cases hs : m.store l with
  | map =>
    rw [hs] at hlist
    cases hlist
  | list items =>
    cases v with
    | some v =>
      dsimp only [through, mutation?]
      rw [hs]
      unfold Store.write
      dsimp only
      -- A list sees no more of a key than its index.
      rw [if_neg hk, if_neg hk', hsame.index?]
      cases Store.index? k' with
      | none => exact .refused _ _
      | some i =>
        dsimp only
        split
        · exact .made l _ v [] _
        · exact .made l _ v [i + 1] _
    | none =>
      dsimp only [through, mutation?]
      rw [hs]
      unfold Store.erase
      dsimp only
      rw [hsame.index?]
      cases Store.index? k' with
      | none => exact .refused _ _
      | some i => exact .made l _ .null [] _

end Operation

/-! ## Two writes in step -/

section Writing

variable {γ : Type} {C : γ → γ → Prop} {listen : Listener γ} {w w' : World γ} {l : ObjectId}
  {k k' : String} {v : Option Value}

/-- A world in which two keys make no difference is the same as itself. -/
theorem World.Respelled.refl (htidy : w.model.Tidy) (hunshared : w.model.Unshared)
    (hkeys : w.model.Indifferent l k k') (hclient : C w.client w.client) :
    World.Respelled (.spelled l (w.model.lastIdOf l) k k') C w.model.objects.size w w := by
  refine ⟨⟨rfl, rfl, fun _ => rfl, fun d => ?_⟩, hunshared, hunshared, htidy.whole,
    fun o x hx key => ?_, Nat.le_refl _, hclient⟩
  · cases ht : w.model.tree? d with
    | none => exact .none
    | some t =>
      refine .some (.refl ((hkeys.nodes d t ht).imp fun o x labels _ hne e he => ?_))
      unfold Keying.spelled
      split
      · rename_i ho
        exact .inr ⟨rfl, hne ho.1 e he⟩
      · rfl
  · unfold Keying.spelled
    rw [if_neg]
    -- A number that was not given out is not that of an old node.
    rintro ⟨rfl, hle⟩
    omega

/-- Lengths are told of in the same way. -/
theorem World.Respelled.lengths {n last : Nat} (hsame : Store.SameNumber k k')
    (hlisten : listen.Respells (Respelling k k') (.spelled l last k k') C n)
    (h : World.Respelled (.spelled l last k k') C n w w') (lengths : List Nat) :
    World.Respelled (.spelled l last k k') C n
      (Mutation.announce listen l (lengths.map Operation.announcedLength) w)
      (Mutation.announce listen l (lengths.map Operation.announcedLength) w') := by
  induction lengths generalizing w w' with
  | nil => exact h
  | cons length lengths ih =>
    refine ih (h.notify hlisten (Keying.spelled_coherent hsame) nofun (.inl rfl) rfl rfl ?_)
    exact fun x _ => Keying.spelled_length hsame l x.seq

namespace Operation

/-- Writes of an element by two keys that make no difference leave worlds that are the same but for
trees that are alike. -/
theorem respelled_through (htidy : w.model.Tidy) (hunshared : w.model.Unshared)
    (hlist : (w.model.store l).isList = true) (hsame : Store.SameNumber k k')
    (hv : ∀ q, v = some (.object q) → q < w.model.objects.size)
    (hkeys : w.model.Indifferent l k k') (hclient : C w.client w.client)
    (hlisten : listen.Respells (Respelling k k') (.spelled l (w.model.lastIdOf l) k k') C
      w.model.objects.size) :
    World.Respelled (.spelled l (w.model.lastIdOf l) k k') C w.model.objects.size
      ((through v k).run listen l w) ((through v k').run listen l w) := by
  rw [run_eq, run_eq]
  have hagrees := agrees_through (v := v) hlist hsame
  have hexist {μ : Mutation} (hμ : (through v k).mutation? w.model l = .ok μ) {q : ObjectId}
      (hq : .object q ∈ μ.store.values ∨ ∃ a ∈ μ.announcements, a.2 = .object q) :
      q < w.model.objects.size :=
    (object_mem_of_mutation? hμ hq).elim (htidy.whole l q) fun hvalue =>
      hv q ((value?_through v k).symm.trans hvalue)
  -- Either both are refused, or the list is written in one way and two keys are told of.
  generalize hl : (through v k).mutation? w.model l = r at hagrees hexist
  generalize (through v k').mutation? w.model l = r' at hagrees
  cases hagrees with
  | refused => exact .refl htidy hunshared hkeys hclient
  | made o s value lengths holds =>
    obtain rfl : o = l := object_of_mutation? hl
    let w₁ := w.mapModel (·.setStore o s)
    have hwritten : w.model.Sustains w₁.model :=
      .of_deeps (Model.upholds_setStore fun q hq => hexist rfl (.inl hq)) rfl
    have hlast : w₁.model.lastIdOf o = w.model.lastIdOf o :=
      Model.elim_setStore (·.lastId) 0 w.model o s o
    have hsize : w₁.model.objects.size = w.model.objects.size := Model.size_modifyObject _ _ _
    have hkeys₁ : w₁.model.Indifferent o k k' := hkeys.setStore s
    have hstart := World.Respelled.refl (C := C) (hwritten.upholds.tidy htidy)
      (hwritten.unshared htidy hunshared) hkeys₁ hclient
    rw [hlast, hsize] at hstart
    -- The keys are told of first, and then the lengths in both.
    refine World.Respelled.releaseAll ?_ holds
    refine .lengths hsame hlisten (.notify hlisten (Keying.spelled_coherent hsame)
      (hstart.holdAll holds) (fun q hq => ?_) (.inr ⟨rfl, rfl⟩) ?_ ?_ fun x hx => ?_) lengths
    · exact hexist rfl (.inr ⟨(k, value), List.mem_cons_self, hq⟩)
    · exact hkeys₁.notifies
    · exact hkeys₁.handlers'.trans hkeys₁.handlers.symm
    · -- Watchers of the list have numbers that were given out before the write.
      have hbounded := (hwritten.upholds.tidy htidy).numbered o
      have hmem : x ∈ (w₁.model.bindingOf o).watchers := Model.watchersOf_eq w₁.model o ▸ hx
      have hle := hbounded.watchers.bounded x.seq (List.mem_map_of_mem hmem)
      rw [← Model.lastIdOf_eq, hlast] at hle
      unfold Keying.spelled
      rw [if_pos ⟨rfl, hle⟩]
      exact .inl ⟨rfl, rfl⟩

end Operation

end Writing

/-! ## What clients are told -/

/-- Whether two events are the same but for the key of a change that was told. -/
inductive Event.Respelled (S : String → String → Prop) : Event → Event → Prop
  | told {n n' : Notice} (notice : n.Respelled S n') : Respelled S (.told n) (.told n')
  | same (e : Event) : Respelled S e e

/-- A client that does no more than remember takes no notice of the spelling. -/
theorem noting_respells (S : String → String → Prop) (K : Keying) (n : Nat) :
    noting.Respells S K (List.Forall₂ (Event.Respelled S)) n :=
  fun _ _ _ _ hx h => { h with clients := .cons (.told hx) h.clients }

/-- Whether two worlds are the same as far as one list is concerned: it has the same elements, the
client was told the same but for a key, and deep watches are on the same objects. -/
structure World.WrittenAlike (l : ObjectId) (k k' : String) (w w' : World History) : Prop where
  /-- The list has the same elements. -/
  list : w'.model.store l = w.model.store l
  /-- The client was told the same but for the key. -/
  told : List.Forall₂ (Event.Respelled (Respelling k k')) w.client w'.client
  /-- Deep watches are on the same objects. -/
  watched : ∀ d o, o ∈ w'.model.deepObjects d ↔ o ∈ w.model.deepObjects d

namespace Operation

/-- Writes of an element by two keys of one number make the same of the list, and tell of the same
but for the key. If the keys make no difference, and none to the client, all objects have the same
content and tables after them, and deep watches are on the same objects. -/
theorem writtenAlike {listen : Listener History} {w : World History} {l : ObjectId} {k k' : String}
    {v : Option Value} (moves : Moves Demand ⟨{}, []⟩ w)
    (hlist : (w.model.store l).isList = true) (hsame : Store.SameNumber k k')
    (hv : ∀ q, v = some (.object q) → q < w.model.objects.size) :
    Mutation.Agrees k k' ((through v k).mutation? w.model l) ((through v k').mutation? w.model l) ∧
      (w.model.Indifferent l k k' →
        listen.Respells (Respelling k k') (.spelled l (w.model.lastIdOf l) k k')
          (List.Forall₂ (Event.Respelled (Respelling k k'))) w.model.objects.size →
        let u := (through v k).run listen l w
        let u' := (through v k').run listen l w
        u'.model.objects = u.model.objects ∧ u'.model.holds = u.model.holds ∧
          World.WrittenAlike l k k' u u') := by
  refine ⟨agrees_through hlist hsame, fun hkeys hlisten => ?_⟩
  have hclient : List.Forall₂ (Event.Respelled (Respelling k k')) w.client w.client :=
    List.forall₂_same.2 fun e _ => .same e
  have h := respelled_through (tidy_of_moves moves) (unshared_of_moves moves) hlist hsame hv hkeys
    hclient hlisten
  exact ⟨h.models.objects, h.models.holds,
    congrFun (Model.store_congr h.models.objects) l, h.clients, h.models.mem_deepObjects⟩

end Operation

/-- A list with one thing in it, which is in a desk, and another thing. The list is watched from the
desk with everything inside it. -/
def desk : World History :=
  let m := (Model.add {} (.map .empty)).2
  let m := (m.add (.list [.object 0])).2
  let m := (m.add (.map (Dict.ofList [("drawer", .object 1)]))).2
  let m := ((m.add (.map .empty)).2.ensureBinding 2).holdAll [.object 2]
  ((Subscription.object ⟨0, "drawer"⟩).run noting 2 0 ⟨m, []⟩).2

/-- The desk can be built. -/
theorem moves_desk : Moves Demand ⟨{}, []⟩ desk := by
  have hnoting (n : Notice) (u : World History) :
      Moves Demand (u.record (.told n)) (noting n u) := .done _
  refine .next hnoting (.add (s := .map .empty) nofun) <|
    .next hnoting (.add (s := .list [.object 0]) fun q hq => ?_) <|
    .next hnoting (.add (s := .map (Dict.ofList [("drawer", .object 1)])) fun q hq => ?_) <|
    .next hnoting (.add (s := .map .empty) nofun) <| .next hnoting (.proxy (o := 2)) <|
    .next hnoting (@Demand.hold noting _ [.object 2]) <|
    .next hnoting (.subscribe (o := 2) (k := 0) (s := .object ⟨0, "drawer"⟩) (by decide)) <|
    .done _
  · obtain rfl := Value.object.inj (List.mem_singleton.1 hq)
    decide
  · obtain rfl := Value.object.inj (List.mem_singleton.1 hq)
    decide

namespace Operation

/-- The other thing is put behind the first one, with the same effect by both keys. -/
theorem writtenAlike_desk :
    (desk.model.store 1).isList = true ∧ Store.SameNumber "1" "01" ∧
      desk.model.Indifferent 1 "1" "01" ∧
      ((through (some (.object 3)) "01").run noting 1 desk).model.deepObjects 0 = [1, 0, 3] ∧
      World.WrittenAlike 1 "1" "01" ((through (some (.object 3)) "1").run noting 1 desk)
        ((through (some (.object 3)) "01").run noting 1 desk) := by
  have hsame : Store.SameNumber "1" "01" := ⟨by decide, by decide, by decide⟩
  have htree : desk.model.tree? 0 = some (.node 1 1 [("0", .node 0 1 [])]) := rfl
  have hdeeps : desk.model.deeps.size = 1 := by decide +kernel
  have hkeys : desk.model.Indifferent 1 "1" "01" := by
    refine ⟨by decide +kernel, rfl, rfl, fun d t ht => ?_⟩
    cases d with
    | zero =>
      obtain rfl := Option.some.inj (ht.symm.trans htree)
      refine .node (fun _ e he => ?_) fun e he => ?_
      · obtain rfl := List.mem_singleton.1 he
        decide
      · obtain rfl := List.mem_singleton.1 he
        exact .node (fun hlist => nomatch hlist) nofun
    | succ d =>
      -- There is one deep watch.
      have hnone : desk.model.deep? (d + 1) = none :=
        Array.getElem?_eq_none (hdeeps ▸ Nat.le_add_left 1 d)
      unfold Model.tree? at ht
      rw [hnone] at ht
      cases ht
  have hexist (q : ObjectId) (hq : some (.object 3) = some (Value.object q)) :
      q < desk.model.objects.size := by
    obtain rfl := Value.object.inj (Option.some.inj hq)
    decide +kernel
  obtain ⟨_, halike⟩ := writtenAlike (l := 1) moves_desk rfl hsame hexist
  exact ⟨rfl, hsame, hkeys, by decide +kernel, (halike hkeys (noting_respells _ _ _)).2.2⟩

/-- The thing in the list is replaced by a number through one key, and nobody watches it any more;
through the other key it is replaced, too, and still watched. -/
theorem not_writtenAlike : ¬ ∀ (w : World History) (l : ObjectId) (k k' : String)
    (v : Option Value), Moves Demand ⟨{}, []⟩ w → (w.model.store l).isList = true →
    Store.SameNumber k k' → (∀ q, v = some (.object q) → q < w.model.objects.size) →
    World.WrittenAlike l k k' ((through v k).run noting l w) ((through v k').run noting l w) := by
  intro h
  have hsame : Store.SameNumber "0" "00" := ⟨by decide, by decide, by decide⟩
  have hwatched := (h desk 1 "0" "00" (some (.bool true)) moves_desk rfl hsame nofun).watched 0 0
  have hgone : 0 ∉ ((through (some (.bool true)) "0").run noting 1 desk).model.deepObjects 0 := by
    decide +kernel
  exact hgone (hwatched.1 (by decide +kernel))

end Operation

end LiveScope
