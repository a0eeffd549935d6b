import LiveScope.Proofs.Model.Attaching
import LiveScope.Proofs.World.Mutation

/-!
# How an operation changes what is in an object

Whoever keeps track of the objects that are in an object is told of keys and values and not of the
new content. `Store.amend` is what is made of one such announcement. It takes the objects that were
there to those that are there (`Operation.amends_of_mutation?`), provided that the indices of a list
are written as the list writes them: under another spelling of an index nothing is found.
-/

namespace LiveScope

namespace Store

/-! ## What is found in a store -/

/-- In a list an element is found at the key of its index. -/
theorem lookup_entries_list (items : List Value) (i : Nat) :
    (list items).entries.lookup (indexKey i) = items[i]? := by
  have hfrom : ∀ (items : List Value) (start i : Nat),
      (((List.range' start items.length).map indexKey).zip items).lookup (indexKey (start + i)) =
        items[i]? := by
    intro items
    induction items with
    | nil => exact fun _ _ => rfl
    | cons v items ih =>
      intro start i
      rw [List.length_cons, List.range'_succ, List.map_cons, List.zip_cons_cons,
        Dict.lookup_cons_ite]
      cases i with
      | zero => rw [if_pos (by rw [Nat.add_zero])]; rfl
      | succ i =>
        rw [if_neg fun h => by have := indexKey_injective h; omega]
        have := ih (start + 1) i
        rw [Nat.add_right_comm] at this
        exact this
  have := hfrom items 0 i
  rw [Nat.zero_add, ← List.range_eq_range'] at this
  exact this

/-- In a list nothing is found at a key that is not that of an index. -/
theorem lookup_entries_list_of_ne (items : List Value) {key : String}
    (h : ∀ i, key ≠ indexKey i) : (list items).entries.lookup key = none := by
  rw [List.lookup_eq_none_iff]
  intro e he
  obtain ⟨i, _, hi⟩ := List.mem_map.1 (List.of_mem_zip he).1
  have := h i
  simpa [← hi] using this

end Store

namespace Model

/-- The objects in an object are in the order of their keys. -/
theorem ascending_members (m : Model) (o : ObjectId) : Ascending (m.members o) := Dict.ascending _

/-- At a key there is the object that is found there. -/
theorem lookup_members (m : Model) (o : ObjectId) (key : String) :
    (m.members o).lookup key = ((m.store o).entries.lookup key).bind Value.object? := by
  have hkeys : ((m.store o).entries.map (·.1)).Nodup := by
    rw [Store.map_fst_entries]
    exact (m.store o).keys_nodup
  unfold members
  rw [Dict.lookup_ofList (m.keys_objectMembers_nodup o)]
  exact Dict.lookup_filterMap hkeys Value.object? key

/-- In a map there is at a key the object that is read there. -/
theorem lookup_members_map {m : Model} {o : ObjectId} (h : (m.store o).isList = false)
    (key : String) : (m.members o).lookup key = ((m.store o).get key).object? := by
  rw [lookup_members]
  cases hs : m.store o with
  | list items =>
    rw [hs] at h
    cases h
  | map entries =>
    have hentries : (Store.map entries).entries = entries.entries :=
      (List.zip_of_prod rfl rfl).symm
    rw [hentries]
    show (entries.find? key).bind _ = ((entries.find? key).getD .null).object?
    cases entries.find? key <;> rfl

end Model

/-! ## What is made of an announcement -/

/-- The objects in an object with this content, if they were `members` before a change of `key` to
`v`: if the length of a list changes, what is past its end is gone; else there is at the key what
was written. -/
def Store.amend (s : Store) (key : String) (v : Value) (members : List (String × ObjectId)) :
    List (String × ObjectId) :=
  if key = lengthKey ∧ s.isList then
    members.filter fun e => !(index? e.1).any (s.size ≤ ·)
  else
    match v.object? with
    | none => members.filter (·.1 != key)
    | some q => Dict.insertEntry key q (members.filter (·.1 != key))

namespace Store

/-- An announcement keeps the order of the keys. -/
theorem ascending_amend (s : Store) (key : String) (v : Value) {members : List (String × ObjectId)}
    (h : Ascending members) : Ascending (s.amend key v members) := by
  unfold amend
  split
  · exact h.filter _
  · split
    · exact h.filter _
    · exact Dict.ascending_insertEntry key _ (h.filter _)

/-- What is found at a key after an announcement. -/
theorem lookup_amend (s : Store) (key : String) (v : Value) (members : List (String × ObjectId))
    (k : String) : (s.amend key v members).lookup k =
      if key = lengthKey ∧ s.isList then
        if (index? k).any (s.size ≤ ·) then none else members.lookup k
      else if k = key then v.object? else members.lookup k := by
  unfold amend
  split
  · rw [Dict.lookup_filter_key fun k => !(index? k).any (s.size ≤ ·)]
    cases (index? k).any (s.size ≤ ·) <;> rfl
  · split
    · rename_i hv
      rw [Dict.lookup_filter_ne, hv]
    · rename_i q hv
      rw [Dict.lookup_insertEntry, Dict.lookup_filter_ne, hv]
      split <;> rfl

/-- An object that is at the key already is found there afterwards. -/
theorem amend_eq_self (s : Store) {key : String} {v : Value} {members : List (String × ObjectId)}
    (hmembers : Ascending members) (hlength : ¬ (key = lengthKey ∧ s.isList))
    (h : members.lookup key = v.object?) : s.amend key v members = members := by
  refine Dict.eq_of_lookup (s.ascending_amend key v hmembers) hmembers fun k => ?_
  rw [lookup_amend, if_neg hlength]
  split
  · rename_i hk
    rw [hk, h]
  · rfl

/-- What is found in a list that was cut or filled to a length. -/
theorem object?_resize (items : List Value) (n i : Nat) :
    (resize items n)[i]?.bind Value.object? =
      if i < n then items[i]?.bind Value.object? else none := by
  rw [getElem?_resize]
  split
  · cases items[i]? <;> rfl
  · rfl

end Store

namespace Model

variable {m m' : Model} {o : ObjectId} {items items' : List Value} {key : String} {v : Value}

/-- What has to be so of each index for an announcement to make what is in a list of what was. -/
theorem amend_list (hs : m.store o = .list items) (hs' : m'.store o = .list items')
    (hkey : key = Store.lengthKey ∨ ∃ i, key = Store.indexKey i)
    (h : ∀ i, (if key = Store.lengthKey then
        if i < Nat.pow 2 64 ∧ items'.length ≤ i then none else items[i]?.bind Value.object?
      else if Store.indexKey i = key then v.object? else items[i]?.bind Value.object?) =
        items'[i]?.bind Value.object?) :
    (Store.list items').amend key v (m.members o) = m'.members o := by
  refine Dict.eq_of_lookup (Store.ascending_amend _ _ _ (m.ascending_members o))
    (m'.ascending_members o) fun k => ?_
  rw [Store.lookup_amend, lookup_members, lookup_members, hs, hs']
  by_cases hk : ∃ i, k = Store.indexKey i
  · obtain ⟨i, rfl⟩ := hk
    rw [Store.lookup_entries_list, Store.lookup_entries_list, Store.index?_indexKey_eq, ← h i]
    -- An index past what a machine word holds is no index, so that it is not cut off either.
    have hpast : ((if i < Nat.pow 2 64 then some i else none).any
        ((Store.list items').size ≤ ·) = true) ↔ i < Nat.pow 2 64 ∧ items'.length ≤ i := by
      split
      · rename_i hi
        rw [Option.any_some, decide_eq_true_iff]
        exact (and_iff_right hi).symm
      · rename_i hi
        simp [hi]
    by_cases hlength : key = Store.lengthKey
    · rw [if_pos ⟨hlength, rfl⟩, if_pos hlength]
      exact if_congr hpast rfl rfl
    · rw [if_neg fun h => hlength h.1, if_neg hlength]
  · -- At a key that is none of an index nothing is found, neither before nor after.
    push Not at hk
    rw [Store.lookup_entries_list_of_ne _ hk, Store.lookup_entries_list_of_ne _ hk]
    by_cases hlength : key = Store.lengthKey
    · rw [if_pos ⟨hlength, rfl⟩]
      split <;> rfl
    · have hne : k ≠ key := by
        rintro rfl
        obtain ⟨i, hi⟩ := hkey.resolve_left hlength
        exact hk i hi
      rw [if_neg fun h => hlength h.1, if_neg hne]

/-- The length of a list that has it already changes nothing. -/
theorem amend_length (hs : m.store o = .list items) :
    (Store.list items).amend Store.lengthKey v (m.members o) = m.members o := by
  refine amend_list hs hs (.inl rfl) fun i => ?_
  rw [if_pos rfl]
  split
  · rename_i h
    rw [List.getElem?_eq_none h.2]
    rfl
  · rfl

/-- To put a value at an index changes what is in a list there. -/
theorem amend_set {i : Nat} (hs : m.store o = .list items)
    (hs' : m'.store o = .list (items.set i v)) (hi : i < items.length ∨ v.object? = none) :
    (Store.list (items.set i v)).amend (Store.indexKey i) v (m.members o) = m'.members o := by
  refine amend_list hs hs' (.inr ⟨i, rfl⟩) fun j => ?_
  rw [if_neg (Store.indexKey_ne_lengthKey i), List.getElem?_set]
  by_cases hj : i = j
  · subst hj
    rw [if_pos rfl, if_pos rfl]
    rcases hi with hi | hv
    · rw [if_pos hi]
      rfl
    · rw [hv]
      split
      · exact hv.symm
      · rfl
  · rw [if_neg fun h => hj (Store.indexKey_injective h).symm, if_neg hj]

/-- To put a value behind a list that was filled changes what is in the list there. -/
theorem amend_append {n : Nat} (hn : items.length ≤ n) (hs : m.store o = .list items)
    (hs' : m'.store o = .list (Store.resize items n ++ [v])) :
    (Store.list (Store.resize items n ++ [v])).amend (Store.indexKey n) v (m.members o) =
      m'.members o := by
  have hlength : (Store.resize items n).length = n := Store.length_resize items n
  refine amend_list hs hs' (.inr ⟨n, rfl⟩) fun i => ?_
  rw [if_neg (Store.indexKey_ne_lengthKey n), List.getElem?_append, hlength]
  rcases Nat.lt_trichotomy i n with hi | rfl | hi
  · rw [if_neg fun h => Nat.ne_of_lt hi (Store.indexKey_injective h), if_pos hi,
      Store.object?_resize, if_pos hi]
  · rw [if_pos rfl, if_neg (Nat.lt_irrefl i), Nat.sub_self]
    rfl
  · rw [if_neg fun h => Nat.ne_of_gt hi (Store.indexKey_injective h), if_neg (by omega),
      List.getElem?_eq_none (l := items) (by omega), List.getElem?_eq_none]
    rw [List.length_singleton]
    omega

/-- To cut or fill a list, of which no index exceeds a machine word, takes away what is past its
end. -/
theorem amend_resize {n : Nat} (hlength : items.length ≤ Nat.pow 2 64)
    (hs : m.store o = .list items) (hs' : m'.store o = .list (Store.resize items n)) :
    (Store.list (Store.resize items n)).amend Store.lengthKey v (m.members o) = m'.members o := by
  have hn : (Store.resize items n).length = n := Store.length_resize items n
  refine amend_list hs hs' (.inl rfl) fun i => ?_
  rw [if_pos rfl, Store.object?_resize, hn]
  split
  · rw [if_neg (by omega)]
  · rename_i hpast
    split
    · rfl
    · rw [List.getElem?_eq_none (by omega)]
      rfl

end Model

namespace Operation

/-- The key that an operation names. -/
def key? : Operation → Option String
  | set key _ | delete key => some key
  | push _ | pop => none

/-- Whether an operation on a list names an index as the list itself writes it, and the list is not
longer than what a machine word counts. -/
def Spelled (m : Model) (o : ObjectId) (op : Operation) : Prop :=
  ∀ items, m.store o = .list items → items.length ≤ Nat.pow 2 64 ∧
    ∀ key, op.key? = some key → key = Store.lengthKey ∨ ∃ i, key = Store.indexKey i

variable {m m' : Model} {o : ObjectId} {op : Operation} {μ : Mutation}

/-- What the first announcement of an operation makes of the objects that were in an object are the
objects that are in it, and the announcements after it leave it at that. -/
structure Amends (s : Store) (announcements : List (String × Value))
    (before after : List (String × ObjectId)) : Prop where
  /-- Without an announcement nothing changes. -/
  nothing : announcements = [] → after = before
  /-- The first announcement makes the change. -/
  first : ∀ a ∈ announcements.head?, s.amend a.1 a.2 before = after
  /-- The others change nothing more. -/
  rest : ∀ a ∈ announcements.tail, s.amend a.1 a.2 after = after

variable {s : Store} {items : List Value} {key : String} {v : Value}

/-- An index that is written as the list writes it is the one that is read. -/
theorem eq_indexKey (hspelled : key = Store.lengthKey ∨ ∃ i, key = Store.indexKey i) {i : Nat}
    (h : Store.index? key = some i) : key = Store.indexKey i := by
  rcases hspelled with rfl | ⟨j, rfl⟩
  · have hnone : Store.index? Store.lengthKey = none := by decide
    rw [hnone] at h
    cases h
  · rw [Store.index?_indexKey_eq] at h
    split at h
    · rw [Option.some.inj h]
    · cases h

/-- A value at an index, after which the length may be told of. -/
theorem amends_written {i : Nat} {lengths : List (String × Value)} (hs : m'.store o = .list items)
    (hfirst : (Store.list items).amend (Store.indexKey i) v (m.members o) = m'.members o)
    (hlengths : ∀ a ∈ lengths, a.1 = Store.lengthKey) :
    Amends (.list items) ((Store.indexKey i, v) :: lengths) (m.members o) (m'.members o) where
  nothing h := by cases h
  first a ha := by
    obtain rfl := Option.some.inj ha
    exact hfirst
  rest a ha := by
    rw [hlengths a ha]
    exact Model.amend_length hs

/-- The new length of a list. -/
theorem amends_resize {n : Nat} (hlength : items.length ≤ Nat.pow 2 64)
    (hs : m.store o = .list items) (hs' : m'.store o = .list (Store.resize items n)) :
    Amends (.list (Store.resize items n)) [(Store.lengthKey, v)] (m.members o) (m'.members o) where
  nothing h := by cases h
  first a ha := by
    obtain rfl := Option.some.inj ha
    exact Model.amend_resize hlength hs hs'
  rest a ha := by cases ha

/-- An operation on a map. -/
theorem amends_map (hmap : (m.store o).isList = false) (h : op.mutation? m o = .ok μ)
    (hm' : m'.store o = μ.store) :
    Amends μ.store μ.announcements (m.members o) (m'.members o) := by
  have hmap' : μ.store.isList = false := by rw [isList_of_mutation? h, hmap]
  obtain ⟨key, v, hannounced, _, hget⟩ := mutation?_of_map hmap h
  rw [hannounced]
  refine ⟨fun h => by (cases h), fun a ha => ?_, fun a ha => by (cases ha)⟩
  obtain rfl := Option.some.inj ha
  refine Dict.eq_of_lookup (Store.ascending_amend _ _ _ (m.ascending_members o))
    (m'.ascending_members o) fun k => ?_
  rw [Store.lookup_amend, if_neg fun h => Bool.false_ne_true (hmap'.symm.trans h.2),
    Model.lookup_members_map hmap, Model.lookup_members_map (by rw [hm', hmap']), hm', hget]
  split <;> rfl

/-- What an operation on a list may make of the elements, and what it announces, if it names an
index as the list itself writes it. -/
inductive Reshapes (items : List Value) :
    Operation → List Value → List (String × Value) → Prop
  /-- A value is put in the place of an element; a deletion past the end changes nothing. -/
  | put {op : Operation} {i : Nat} {v : Value}
      (hop : op = set (Store.indexKey i) v ∨ op = delete (Store.indexKey i))
      (hi : i < items.length ∨ v = .null) :
      Reshapes items op (items.set i v) [(Store.indexKey i, v)]
  /-- A value is put behind the end, after nulls that fill the gap. -/
  | extend {op : Operation} {n length : Nat} {v : Value}
      (hop : op = set (Store.indexKey n) v ∨ op = push v) (hn : items.length ≤ n) :
      Reshapes items op (Store.resize items n ++ [v])
        [(Store.indexKey n, v), announcedLength length]
  /-- The list is cut or filled. -/
  | cut {op : Operation} {n : Nat} {v : Value} (hop : op = set Store.lengthKey v ∨ op = pop) :
      Reshapes items op (Store.resize items n) [(Store.lengthKey, v)]
  /-- There was no element to take off. -/
  | empty (hitems : items = []) : Reshapes items pop items []

/-- What an operation makes of a list. -/
theorem reshapes_of_mutation? (hs : m.store o = .list items)
    (hspelled : ∀ key, op.key? = some key → key = Store.lengthKey ∨ ∃ i, key = Store.indexKey i)
    (h : op.mutation? m o = .ok μ) :
    ∃ items', μ.store = .list items' ∧ Reshapes items op items' μ.announcements := by
  cases op with
  | set key v =>
    obtain ⟨⟨s, written⟩, hwrite, rfl⟩ := bind_pure_eq_ok_iff.1 h
    rw [hs] at hwrite
    dsimp only [Store.write] at hwrite ⊢
    split at hwrite
    · -- A length is written, and only the length is announced.
      rename_i hk
      split at hwrite
      · obtain ⟨rfl, rfl⟩ := Prod.mk.inj (Except.ok.inj hwrite)
        dsimp only
        rw [if_neg fun h => h hk, hk]
        exact ⟨_, rfl, .cut (.inl rfl)⟩
      · cases hwrite
    · rename_i hk
      split at hwrite
      · cases hwrite
      · rename_i i hindex
        obtain rfl := eq_indexKey (hspelled key rfl) hindex
        split at hwrite
        · -- The index is that of an element.
          rename_i hi
          obtain ⟨rfl, rfl⟩ := Prod.mk.inj (Except.ok.inj hwrite)
          exact ⟨_, rfl, .put (.inl rfl) (.inl hi)⟩
        · -- The index is past the end, and the list is filled up to it.
          rename_i hi
          obtain ⟨rfl, rfl⟩ := Prod.mk.inj (Except.ok.inj hwrite)
          dsimp only
          rw [if_pos hk]
          exact ⟨_, rfl, .extend (.inl rfl) (Nat.le_of_not_lt hi)⟩
  | delete key =>
    obtain ⟨s, herase, rfl⟩ := bind_pure_eq_ok_iff.1 h
    rw [hs] at herase
    dsimp only [Store.erase] at herase ⊢
    split at herase
    · cases herase
    · rename_i i hindex
      obtain rfl := Except.ok.inj herase
      obtain rfl := eq_indexKey (hspelled key rfl) hindex
      exact ⟨_, rfl, .put (.inr rfl) (.inr rfl)⟩
  | push v =>
    obtain ⟨s, hpush, rfl⟩ := bind_pure_eq_ok_iff.1 h
    rw [hs] at hpush
    obtain rfl := Except.ok.inj hpush
    -- To push is to write the index past the last one.
    have hsize : (Store.list (items ++ [v])).size - 1 = items.length := by
      rw [Store.size, List.length_append, List.length_singleton, Nat.add_sub_cancel]
    have hextends : Reshapes items (push v) (Store.resize items items.length ++ [v])
        [(Store.indexKey items.length, v), announcedLength (Store.list (items ++ [v])).size] :=
      .extend (.inr rfl) (Nat.le_refl items.length)
    dsimp only
    rw [hsize]
    rw [Store.resize_length] at hextends
    exact ⟨_, rfl, hextends⟩
  | pop =>
    obtain ⟨⟨v, s⟩, hpop, h⟩ := bind_eq_ok_iff.1 h
    rw [hs] at hpop
    obtain ⟨hlast, rfl⟩ := Prod.mk.inj (Except.ok.inj hpop)
    cases v with
    | none =>
      obtain rfl := Except.ok.inj h
      obtain rfl : items = [] := List.getLast?_eq_none_iff.1 hlast
      exact ⟨_, rfl, .empty rfl⟩
    | some v =>
      -- To pop is to write a length that is less by one.
      obtain rfl := Except.ok.inj h
      dsimp only
      rw [← Store.resize_pred_length]
      exact ⟨_, rfl, .cut (.inr rfl)⟩

/-- What is made of the announcements of an operation is what the operation does to the object. -/
theorem amends_of_mutation? (hspelled : op.Spelled m o) (h : op.mutation? m o = .ok μ)
    (hm' : m'.store o = μ.store) :
    Amends μ.store μ.announcements (m.members o) (m'.members o) := by
  cases hs : m.store o with
  | map entries => exact amends_map (by rw [hs]; rfl) h hm'
  | list items =>
    obtain ⟨hlength, hspelled⟩ := hspelled items hs
    obtain ⟨items', hstore, hreshapes⟩ := reshapes_of_mutation? hs hspelled h
    rw [hstore] at hm' ⊢
    generalize μ.announcements = announcements at hreshapes ⊢
    cases hreshapes with
    | put _ hi =>
      refine amends_written hm' (Model.amend_set hs hm' (hi.imp_right fun h => ?_)) nofun
      rw [h]
      rfl
    | extend _ hn =>
      refine amends_written hm' (Model.amend_append hn hs hm') fun a ha => ?_
      rw [List.mem_singleton.1 ha]
      rfl
    | cut => exact amends_resize hlength hs hm'
    | empty hitems =>
      refine ⟨fun _ => ?_, nofun, nofun⟩
      unfold Model.members Model.objectMembers
      rw [hm', hs]

end Operation

end LiveScope
