/-!
# Finite maps from texts, in ascending order of their keys

A `Dict` keeps its entries in the order of their keys, which is the order of their UTF-8 bytes, so
that enumerating it needs no sorting and each key has one entry. The order is part of the type;
`find?_insert` and `find?_erase` say what the two operations do to the value at every key, and
`eq_of_find?` that the values at the keys make up the map.
-/

namespace LiveScope

/-- Whether entries are in strictly ascending order of their keys. -/
def Ascending {α : Type} (entries : List (String × α)) : Prop :=
  entries.Pairwise fun a b => a.1 < b.1

/-- A finite map from texts to values. -/
structure Dict (α : Type) where
  /-- The entries in ascending order of their keys. -/
  entries : List (String × α)
  /-- The keys ascend. -/
  ascending : Ascending entries
deriving Repr

namespace Dict

variable {α β : Type}

/-- The map without entries. -/
def empty : Dict α := ⟨[], .nil⟩

instance : Inhabited (Dict α) := ⟨empty⟩

/-- The value at a key. -/
def find? (d : Dict α) (key : String) : Option α := d.entries.lookup key

/-- Whether there is an entry for a key. -/
def contains (d : Dict α) (key : String) : Bool := (d.find? key).isSome

/-- Puts an entry in its place, replacing one with the same key. -/
def insertEntry (key : String) (value : α) : List (String × α) → List (String × α)
  | [] => [(key, value)]
  | (k, v) :: rest =>
    if key = k then (key, value) :: rest
    else if key < k then (key, value) :: (k, v) :: rest
    else (k, v) :: insertEntry key value rest

/-- What is there after an insertion is the new entry or was there before. -/
theorem mem_insertEntry {key : String} {value : α} {entries : List (String × α)}
    {e : String × α} (h : e ∈ insertEntry key value entries) :
    e = (key, value) ∨ e ∈ entries := by
  fun_induction insertEntry key value entries with
  | case1 => exact .inl (List.mem_singleton.1 h)
  | case2 v rest =>
    rcases List.mem_cons.1 h with h | h
    · exact .inl h
    · exact .inr (List.mem_cons_of_mem _ h)
  | case3 => exact List.mem_cons.1 h
  | case4 k v rest _ _ ih =>
    rcases List.mem_cons.1 h with h | h
    · exact .inr (List.mem_cons.2 (.inl h))
    · exact (ih h).imp_right (List.mem_cons_of_mem _)

/-- An insertion keeps the order. -/
theorem ascending_insertEntry (key : String) (value : α) {entries : List (String × α)}
    (h : Ascending entries) : Ascending (insertEntry key value entries) := by
  fun_induction insertEntry key value entries with
  | case1 => exact List.pairwise_singleton _ _
  | case2 v rest => exact .cons (List.pairwise_cons.1 h).1 (List.pairwise_cons.1 h).2
  | case3 k v rest _ hlt =>
    refine .cons (fun e he => ?_) h
    rcases List.mem_cons.1 he with rfl | he
    · exact hlt
    · exact String.lt_trans hlt ((List.pairwise_cons.1 h).1 e he)
  | case4 k v rest hne hnlt ih =>
    have ⟨hk, hrest⟩ := List.pairwise_cons.1 h
    refine .cons (fun e he => ?_) (ih hrest)
    rcases mem_insertEntry he with rfl | he
    · exact Std.lt_of_le_of_ne (String.not_lt.1 hnlt) (Ne.symm hne)
    · exact hk e he

/-- The map with `value` at `key`. -/
def insert (d : Dict α) (key : String) (value : α) : Dict α :=
  ⟨insertEntry key value d.entries, ascending_insertEntry key value d.ascending⟩

/-- The map without an entry for `key`. -/
def erase (d : Dict α) (key : String) : Dict α :=
  ⟨d.entries.filter fun e => e.1 != key, d.ascending.filter _⟩

/-- The number of entries. -/
def size (d : Dict α) : Nat := d.entries.length

/-- The keys in ascending order. -/
def keys (d : Dict α) : List String := d.entries.map (·.1)

/-- The values in the order of their keys. -/
def values (d : Dict α) : List α := d.entries.map (·.2)

/-- The map of the given entries; of several with one key the last counts. -/
def ofList (entries : List (String × α)) : Dict α :=
  entries.foldl (fun d e => d.insert e.1 e.2) empty

/-- Changing values keeps the order of the keys. -/
theorem ascending_map (f : String → α → β) {entries : List (String × α)} (h : Ascending entries) :
    Ascending (entries.map fun e => (e.1, f e.1 e.2)) :=
  List.pairwise_map.2 h

/-- The map with `f` applied to every key and its value. -/
def mapWithKey (f : String → α → β) (d : Dict α) : Dict β :=
  ⟨d.entries.map fun e => (e.1, f e.1 e.2), ascending_map f d.ascending⟩

/-- The map with `f` applied to every value. -/
def map (f : α → β) (d : Dict α) : Dict β := d.mapWithKey fun _ => f

/-! The value at a key after each operation. -/

/-- A look-up decides at each entry whether it is the one. -/
theorem lookup_cons_ite (k key : String) (value : α) (rest : List (String × α)) :
    ((key, value) :: rest).lookup k = if k = key then some value else rest.lookup k := by
  rw [List.lookup_cons]
  by_cases h : k = key
  · simp [h]
  · simp [h, beq_eq_false_iff_ne.2 h]

/-- An insertion changes what is found at its key only. -/
theorem lookup_insertEntry (key : String) (value : α) (entries : List (String × α)) (k : String) :
    (insertEntry key value entries).lookup k =
      if k = key then some value else entries.lookup k := by
  fun_induction insertEntry key value entries with
  | case1 => exact lookup_cons_ite k key value []
  | case2 v rest => grind [lookup_cons_ite]
  | case3 k' v rest => exact lookup_cons_ite k key value _
  | case4 k' v rest hne _ ih => grind [lookup_cons_ite]

/-- Nothing is found in the map without entries. -/
@[simp] theorem find?_empty (k : String) : (empty : Dict α).find? k = none := rfl

/-- An insertion changes the value at its key only. -/
theorem find?_insert (d : Dict α) (key : String) (value : α) (k : String) :
    (d.insert key value).find? k = if k = key then some value else d.find? k :=
  lookup_insertEntry key value d.entries k

/-- Taking the entries of a key out changes what is found at that key only. -/
theorem lookup_filter_ne (key : String) (entries : List (String × α)) (k : String) :
    (entries.filter fun e => e.1 != key).lookup k = if k = key then none else entries.lookup k := by
  induction entries with
  | nil => simp
  | cons e rest ih => grind [lookup_cons_ite]

/-- An erasure removes the value at its key only. -/
theorem find?_erase (d : Dict α) (key k : String) :
    (d.erase key).find? k = if k = key then none else d.find? k :=
  lookup_filter_ne key d.entries k

/-- Nothing is found at a key that lies before all others. -/
theorem lookup_eq_none_of_lt {key : String} {entries : List (String × α)}
    (h : ∀ e ∈ entries, key < e.1) : entries.lookup key = none := by
  rw [List.lookup_eq_none_iff]
  intro e he
  have hlt := h e he
  have hne : key ≠ e.1 := fun heq => String.lt_irrefl e.1 (by rwa [heq] at hlt)
  simpa using hne

/-- Ascending entries are determined by what is found at each key. -/
theorem eq_of_lookup {xs ys : List (String × α)} (hx : Ascending xs) (hy : Ascending ys)
    (h : ∀ k, xs.lookup k = ys.lookup k) : xs = ys := by
  induction xs generalizing ys with
  | nil =>
    cases ys with
    | nil => rfl
    | cons e ys =>
      obtain ⟨k, v⟩ := e
      simpa [lookup_cons_ite] using h k
  | cons d xs ih =>
    obtain ⟨k, v⟩ := d
    have ⟨hk, hxs⟩ := List.pairwise_cons.1 hx
    cases ys with
    | nil => simpa [lookup_cons_ite] using h k
    | cons e ys =>
      obtain ⟨k', v'⟩ := e
      have ⟨hk', hys⟩ := List.pairwise_cons.1 hy
      -- A first key that lies before the other list's first key is not found there.
      have heq : k = k' := by
        have hkv := h k
        have hkv' := h k'
        grind [lookup_cons_ite, lookup_eq_none_of_lt, String.lt_trans]
      subst heq
      have hv := h k
      simp only [lookup_cons_ite, if_true, Option.some.injEq] at hv
      subst hv
      rw [ih hxs hys fun a => ?_]
      have ha := h a
      simp only [lookup_cons_ite] at ha
      split at ha
      · rename_i hak
        subst hak
        rw [lookup_eq_none_of_lt hk, lookup_eq_none_of_lt hk']
      · exact ha

/-- A map is determined by the values at its keys. -/
theorem eq_of_find? {c d : Dict α} (h : ∀ k, c.find? k = d.find? k) : c = d := by
  obtain ⟨xs, hx⟩ := c
  obtain ⟨ys, hy⟩ := d
  cases eq_of_lookup hx hy h
  rfl

end Dict

/-- The given texts in ascending order, each once. -/
def sortedTexts (texts : List String) : List String :=
  (Dict.ofList (texts.map fun t => (t, ()))).keys

end LiveScope
