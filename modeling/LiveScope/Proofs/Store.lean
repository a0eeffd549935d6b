import LiveScope.Store
import LiveScope.Proofs.Decimal.Digits

/-!
# Stores and their keys

Every index has a key of its own, so that the keys of a store are all different. What a change of a
store leaves in it was there before or is the value written, and what is read at the key of a change
is what the change put there.
-/

namespace LiveScope

namespace Store

/-! ## Keys -/

/-- An index is denoted by its key alone. -/
theorem indexKey_injective {i j : Nat} (h : indexKey i = indexKey j) : i = j := by
  have hdigits : Nat.toDigits 10 i = Nat.toDigits 10 j := by
    rw [← Nat.toList_repr, ← Nat.toList_repr]
    exact congrArg String.toList h
  rw [← Decimal.natural_toDigits i, hdigits, Decimal.natural_toDigits]

/-- The key of an index denotes it, if the index is one of a machine word, and else nothing. -/
theorem index?_indexKey_eq (i : Nat) :
    index? (indexKey i) = if i < Nat.pow 2 64 then some i else none := by
  have hdigit : ∀ c : Char, c.isDigit = true → Decimal.digit? c ≠ none := by
    intro c hc
    rw [Decimal.digit?_of_isDigit hc]
    exact Option.some_ne_none _
  have hchars : (indexKey i).toList = Nat.toDigits 10 i := Nat.toList_repr
  have hall : ((Nat.toDigits 10 i).isEmpty ||
      (Nat.toDigits 10 i).any fun c => (Decimal.digit? c).isNone) = false := by
    rw [Bool.or_eq_false_iff]
    constructor
    · rw [Bool.eq_false_iff, Ne, List.isEmpty_iff]
      exact Nat.toDigits_ne_nil
    · rw [List.any_eq_false]
      intro c hc
      have := hdigit c (Nat.isDigit_of_mem_toDigits (by decide) (by decide) hc)
      simpa [Option.isNone_iff_eq_none] using this
  unfold index?
  rw [hchars]
  dsimp only
  rw [hall, Decimal.natural_toDigits]
  rfl

/-- No index is written as the key of the length. -/
theorem indexKey_ne_lengthKey (i : Nat) : indexKey i ≠ lengthKey := by
  intro h
  have hl : 'l' ∈ Nat.toDigits 10 i := by
    rw [← Nat.toList_repr, show i.repr = lengthKey from h]
    decide
  have hdigit := Nat.isDigit_of_mem_toDigits (by decide) (by decide) hl
  revert hdigit
  decide

/-- The keys of a store are different from each other. -/
theorem keys_nodup (s : Store) : s.keys.Nodup := by
  cases s with
  | map entries =>
    refine (List.pairwise_map.2 entries.ascending).imp ?_
    intro a b hlt heq
    rw [heq] at hlt
    exact String.lt_irrefl b hlt
  | list items =>
    exact List.pairwise_map.2 (List.nodup_range.imp fun hne h => hne (indexKey_injective h))

/-- A store lists its keys with the values. -/
theorem map_fst_entries (s : Store) : s.entries.map (·.1) = s.keys := by
  refine List.map_fst_zip (Nat.le_of_eq ?_)
  cases s with
  | map entries => exact (List.length_map _).trans (List.length_map _).symm
  | list items => exact (List.length_map _).trans List.length_range

/-! ## Values -/

/-- A list that was cut or filled has the length. -/
theorem length_resize (items : List Value) (n : Nat) : (resize items n).length = n := by
  unfold resize
  rw [List.length_append, List.length_take, List.length_replicate]
  omega

/-- A list that was cut or filled has what it had, and nulls. -/
theorem getElem?_resize (items : List Value) (n i : Nat) :
    (resize items n)[i]? = if i < n then some (items[i]?.getD .null) else none := by
  unfold resize
  rw [List.getElem?_append, List.getElem?_take, List.getElem?_replicate, List.length_take]
  by_cases hi : i < n
  · by_cases hlength : i < items.length
    · rw [if_pos (by omega), if_pos hi, if_pos hi, List.getElem?_eq_getElem hlength]
      rfl
    · rw [if_neg (by omega), if_pos (by omega), if_pos hi,
        List.getElem?_eq_none (Nat.le_of_not_lt hlength)]
      rfl
  · rw [if_neg (by omega), if_neg (by omega), if_neg hi]

/-- To cut or fill a list to its own length leaves it. -/
theorem resize_length (items : List Value) : resize items items.length = items := by
  unfold resize
  rw [List.take_length, Nat.sub_self, List.replicate_zero, List.append_nil]

/-- To cut a list by one is to take off its last element. -/
theorem resize_pred_length (items : List Value) :
    resize items (items.length - 1) = items.dropLast := by
  unfold resize
  rw [show items.length - 1 - items.length = 0 by omega, List.replicate_zero, List.append_nil,
    List.dropLast_eq_take]

/-- What is in an object is found among its values. -/
theorem get_mem_values {s : Store} {key : String} {o : ObjectId}
    (h : s.get key = .object o) : .object o ∈ s.values := by
  cases s with
  | map entries =>
    dsimp only [Store.get] at h
    cases hf : entries.find? key with
    | none =>
      rw [hf] at h
      cases h
    | some v =>
      rw [hf] at h
      obtain rfl : v = .object o := h
      obtain ⟨xs, ys, heq, _⟩ := List.lookup_eq_some_iff.1 hf
      refine List.mem_map.2 ⟨(key, .object o), ?_, rfl⟩
      rw [heq]
      exact List.mem_append_right _ List.mem_cons_self
  | list items =>
    dsimp only [Store.get] at h
    split at h
    · cases h
    · cases hf : (Store.index? key).bind (items[·]?) with
      | none =>
        rw [hf] at h
        cases h
      | some v =>
        rw [hf] at h
        obtain rfl : v = .object o := h
        obtain ⟨i, _, hi⟩ := Option.bind_eq_some_iff.1 hf
        exact List.mem_of_getElem? hi

/-- What a write leaves in a store was there before, or is the value written or null. -/
theorem mem_values_of_write {text : Value → String} {s s' : Store} {key : String} {v u : Value}
    {written : Written} (h : s.write text key v = .ok (s', written)) (hu : u ∈ s'.values) :
    u ∈ s.values ∨ u = .null ∨ u = v := by
  -- A list is filled up with null.
  have hresize {items : List Value} {n : Nat} (h : u ∈ resize items n) : u ∈ items ∨ u = .null := by
    unfold resize at h
    rcases List.mem_append.1 h with h | h
    · exact .inl (List.mem_of_mem_take h)
    · exact .inr (List.eq_of_mem_replicate h)
  unfold write at h
  split at h
  · obtain ⟨rfl, _⟩ := Prod.mk.inj (Except.ok.inj h)
    obtain ⟨e, he, rfl⟩ := List.mem_map.1 hu
    rcases Dict.mem_insertEntry he with rfl | he
    · exact .inr (.inr rfl)
    · exact .inl (List.mem_map.2 ⟨e, he, rfl⟩)
  split at h
  · split at h
    · obtain ⟨rfl, _⟩ := Prod.mk.inj (Except.ok.inj h)
      exact (hresize hu).imp_right .inl
    · cases h
  split at h
  · cases h
  split at h
  · obtain ⟨rfl, _⟩ := Prod.mk.inj (Except.ok.inj h)
    exact (List.mem_or_eq_of_mem_set hu).imp_right .inr
  · obtain ⟨rfl, _⟩ := Prod.mk.inj (Except.ok.inj h)
    rcases List.mem_append.1 hu with hu | hu
    · exact (hresize hu).imp_right .inl
    · exact .inr (.inr (List.mem_singleton.1 hu))

/-- What a deletion leaves in a store was there before or is null. -/
theorem mem_values_of_erase {s s' : Store} {key : String} {u : Value} (h : s.erase key = .ok s')
    (hu : u ∈ s'.values) : u ∈ s.values ∨ u = .null := by
  unfold erase at h
  split at h
  · obtain rfl := Except.ok.inj h
    obtain ⟨e, he, rfl⟩ := List.mem_map.1 hu
    exact .inl (List.mem_map.2 ⟨e, (List.mem_filter.1 he).1, rfl⟩)
  split at h
  · cases h
  · obtain rfl := Except.ok.inj h
    exact List.mem_or_eq_of_mem_set hu

/-- What is in a list that was appended to was there before or is the value. -/
theorem mem_values_of_push {s s' : Store} {v u : Value} (h : s.push v = .ok s')
    (hu : u ∈ s'.values) : u ∈ s.values ∨ u = v := by
  cases s with
  | map => cases h
  | list items =>
    obtain rfl := Except.ok.inj h
    exact (List.mem_append.1 hu).imp_right List.mem_singleton.1

/-- What is left of a list that an element was taken off was there before. -/
theorem mem_values_of_pop {s s' : Store} {v : Option Value} {u : Value} (h : s.pop = .ok (v, s'))
    (hu : u ∈ s'.values) : u ∈ s.values := by
  cases s with
  | map => cases h
  | list items =>
    obtain ⟨_, rfl⟩ := Prod.mk.inj (Except.ok.inj h)
    exact List.dropLast_subset items hu

/-! ## Maps and lists -/

/-- A write makes no list of a map, nor the other way round. -/
theorem isList_of_write {text : Value → String} {s s' : Store} {key : String} {v : Value}
    {written : Written} (h : s.write text key v = .ok (s', written)) : s'.isList = s.isList := by
  unfold write at h
  split at h
  · rw [← (Prod.mk.inj (Except.ok.inj h)).1]
    rfl
  split at h
  · split at h
    · rw [← (Prod.mk.inj (Except.ok.inj h)).1]
      rfl
    · cases h
  split at h
  · cases h
  split at h
  · rw [← (Prod.mk.inj (Except.ok.inj h)).1]
    rfl
  · rw [← (Prod.mk.inj (Except.ok.inj h)).1]
    rfl

/-- A deletion makes no list of a map, nor the other way round. -/
theorem isList_of_erase {s s' : Store} {key : String} (h : s.erase key = .ok s') :
    s'.isList = s.isList := by
  unfold erase at h
  split at h
  · rw [← Except.ok.inj h]
    rfl
  split at h
  · cases h
  · rw [← Except.ok.inj h]
    rfl

/-- A list that was appended to is a list. -/
theorem isList_of_push {s s' : Store} {v : Value} (h : s.push v = .ok s') :
    s'.isList = s.isList := by
  cases s with
  | map => cases h
  | list =>
    rw [← Except.ok.inj h]
    rfl

/-- A list that an element was taken off is a list. -/
theorem isList_of_pop {s s' : Store} {v : Option Value} (h : s.pop = .ok (v, s')) :
    s'.isList = s.isList := by
  cases s with
  | map => cases h
  | list =>
    rw [← (Prod.mk.inj (Except.ok.inj h)).2]
    rfl

/-- Only lists can be appended to. -/
theorem list_of_push {s s' : Store} {v : Value} (h : s.push v = .ok s') : s.isList = true := by
  cases s with
  | map => cases h
  | list => rfl

/-- Only from lists the last element can be taken. -/
theorem list_of_pop {s s' : Store} {v : Option Value} (h : s.pop = .ok (v, s')) :
    s.isList = true := by
  cases s with
  | map => cases h
  | list => rfl

/-! ## Reading what was written -/

/-- The length of a list is no object. -/
theorem object?_get_lengthKey {s : Store} (h : s.isList = true) :
    (s.get lengthKey).object? = none := by
  cases s with
  | map => cases h
  | list => rfl

/-- An object is no length. -/
theorem length?_object (o : ObjectId) : length? (.object o) = none := by
  have hnan : Number.integer? (0.0 / 0.0) = none := by decide +kernel
  unfold length? Value.toNumber
  rw [hnan]

/-- At a key that was written there is the object that was written, if one was. -/
theorem object?_get_of_write {text : Value → String} {s s' : Store} {key : String} {v : Value}
    {written : Written} (h : s.write text key v = .ok (s', written)) :
    (s'.get key).object? = v.object? := by
  unfold write at h
  split at h
  · -- A map takes any value at any key.
    rename_i entries
    obtain ⟨rfl, _⟩ := Prod.mk.inj (Except.ok.inj h)
    show (((entries.insert key v).find? key).getD .null).object? = _
    rw [Dict.find?_insert, if_pos rfl]
    rfl
  rename_i items
  split at h
  · -- No object is taken for a length.
    rename_i hkey
    split at h
    · rename_i n hlength
      obtain ⟨rfl, _⟩ := Prod.mk.inj (Except.ok.inj h)
      rw [hkey, object?_get_lengthKey rfl]
      cases v with
      | object o =>
        rw [length?_object] at hlength
        cases hlength
      | null | bool | number | text | function => rfl
    · cases h
  rename_i hkey
  split at h
  · cases h
  rename_i i hindex
  have hget {items' : List Value} (hi : items'[i]? = some v) :
      ((list items').get key).object? = v.object? := by
    dsimp only [get]
    rw [if_neg hkey, hindex, Option.bind_some, hi]
    rfl
  split at h
  · rename_i hi
    obtain ⟨rfl, _⟩ := Prod.mk.inj (Except.ok.inj h)
    exact hget (List.getElem?_set_self hi)
  · obtain ⟨rfl, _⟩ := Prod.mk.inj (Except.ok.inj h)
    refine hget ?_
    rw [List.getElem?_append_right (Nat.le_of_eq (length_resize items i)), length_resize,
      Nat.sub_self]
    rfl

/-- At a key that was deleted there is nothing. -/
theorem get_of_erase {s s' : Store} {key : String} (h : s.erase key = .ok s') :
    (s'.get key).object? = none := by
  unfold erase at h
  split at h
  · rename_i entries
    obtain rfl := Except.ok.inj h
    show (((entries.erase key).find? key).getD .null).object? = none
    rw [Dict.find?_erase, if_pos rfl]
    rfl
  rename_i items
  split at h
  · cases h
  rename_i i hindex
  obtain rfl := Except.ok.inj h
  dsimp only [get]
  split
  · rfl
  · rw [hindex, Option.bind_some]
    by_cases hi : i < items.length
    · rw [List.getElem?_set_self hi]
      rfl
    · rw [List.getElem?_eq_none (by rw [List.length_set]; exact Nat.le_of_not_lt hi)]
      rfl

/-- What was appended is the last element, if a machine word can count the elements. -/
theorem get_of_push {s s' : Store} {v : Value} (h : s.push v = .ok s')
    (hsize : s.size < Nat.pow 2 64) : s'.get (indexKey (s'.size - 1)) = v := by
  cases s with
  | map => cases h
  | list items =>
    obtain rfl := Except.ok.inj h
    have hlast : (list (items ++ [v])).size - 1 = items.length := by
      rw [size, List.length_append, List.length_singleton, Nat.add_sub_cancel]
    have hindex : index? (indexKey items.length) = some items.length :=
      (index?_indexKey_eq items.length).trans (if_pos hsize)
    rw [hlast]
    dsimp only [get]
    rw [if_neg (indexKey_ne_lengthKey items.length), hindex, Option.bind_some,
      List.getElem?_append_right (Nat.le_refl _), Nat.sub_self]
    rfl

end Store

end LiveScope
