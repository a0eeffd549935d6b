import LiveScope.Proofs.Dict
import LiveScope.Proofs.World.Mutation
import Mathlib.Logic.Function.Basic
import Mathlib.Data.List.Basic

/-!
# What stores stand for

A list stands for its length and a function from indices to values (`Sequence`), a map for a
function from keys to optional values, and `Shape` is either. An operation does to a store what
`Shape.step` does to its shape, and fails where that has no result (`Store.shape_perform`); whatever
is read of a store, and in whatever spelling of an index, can be read off its shape
(`Store.shows_shape`).
-/

namespace LiveScope

/-! ## Spellings of an index -/

namespace Store

/-- Whether a key is a nonempty run of digits that denote a natural, leading zeros included. -/
def Spells (key : String) (n : Nat) : Prop :=
  key.toList ≠ [] ∧ (∀ c ∈ key.toList, c.isDigit = true) ∧ Nat.ofDigitChars 10 key.toList 0 = n

/-- The index that a key denotes is the natural it spells, if that fits into a machine word. -/
theorem index?_eq_some_iff {key : String} {i : Nat} :
    index? key = some i ↔ Spells key i ∧ i < Nat.pow 2 64 := by
  have hdigit (c : Char) : (Decimal.digit? c).isNone = false ↔ c.isDigit = true := by
    unfold Decimal.digit?
    simp [Char.isDigit, Char.le_def]
  have hall : (key.toList.isEmpty || key.toList.any fun c => (Decimal.digit? c).isNone) = false ↔
      key.toList ≠ [] ∧ ∀ c ∈ key.toList, c.isDigit = true := by
    rw [Bool.or_eq_false_iff, List.any_eq_false, Bool.eq_false_iff, Ne, List.isEmpty_iff]
    refine and_congr_right fun _ => forall₂_congr fun c _ => ?_
    rw [← hdigit, Bool.not_eq_true]
  unfold index? Spells
  dsimp only
  split
  · rename_i hkey
    constructor
    · intro h
      cases h
    · rintro ⟨⟨hne, hdigits, _⟩, _⟩
      rw [hall.2 ⟨hne, hdigits⟩] at hkey
      cases hkey
  · rename_i hkey
    obtain ⟨hne, hdigits⟩ := hall.1 (Bool.eq_false_iff.2 hkey)
    rw [Decimal.natural_eq hdigits]
    constructor
    · intro h
      split at h
      · obtain rfl := Option.some.inj h
        exact ⟨⟨hne, hdigits, rfl⟩, ‹_›⟩
      · cases h
    · rintro ⟨⟨_, _, rfl⟩, hlt⟩
      rw [if_pos hlt]

/-- A length is a natural that a value is coerced to. -/
theorem length?_eq_some_iff {v : Value} {n : Nat} :
    length? v = some n ↔ Number.integer? v.toNumber = some (n : Int) := by
  unfold length?
  split
  · rename_i k hk
    rw [hk]
    constructor
    · intro h
      rw [Option.some.inj h]
      rfl
    · intro h
      rw [Int.ofNat.inj (Option.some.inj h)]
  · rename_i hno
    constructor
    · intro h
      cases h
    · intro h
      exact absurd h (hno n)

end Store

/-! ## Lists as functions -/

/-- A list as its length and the values at its indices, which are null from the length on. -/
@[ext]
structure Sequence where
  /-- The number of elements. -/
  length : Nat
  /-- The value at an index. -/
  value : Nat → Value
  /-- There is nothing behind the elements. -/
  null_of_le : ∀ i, length ≤ i → value i = .null

namespace Sequence

/-- The list with a value at an index, long enough for it. -/
def put (q : Sequence) (i : Nat) (v : Value) : Sequence where
  length := max q.length (i + 1)
  value := Function.update q.value i v
  null_of_le j h := by
    rw [Function.update_of_ne (by omega), q.null_of_le j (by omega)]

/-- The list cut or filled with nulls to a length. -/
def resize (q : Sequence) (n : Nat) : Sequence where
  length := n
  value i := if i < n then q.value i else .null
  null_of_le i h := if_neg (by omega)

/-- The list with null at an index. -/
def clear (q : Sequence) (i : Nat) : Sequence where
  length := q.length
  value := Function.update q.value i .null
  null_of_le j h := by
    by_cases hj : j = i
    · rw [hj, Function.update_self]
    · rw [Function.update_of_ne hj, q.null_of_le j h]

/-- The list with a value after its elements. -/
def push (q : Sequence) (v : Value) : Sequence := q.put q.length v

/-- The list without its last element, if it has one. -/
def pop (q : Sequence) : Sequence := q.resize (q.length - 1)

/-- What a list stands for. -/
def ofList (items : List Value) : Sequence where
  length := items.length
  value i := items[i]?.getD .null
  null_of_le i h := by rw [List.getElem?_eq_none h]; rfl

/-- To cut or fill a list. -/
theorem ofList_resize (items : List Value) (n : Nat) :
    ofList (Store.resize items n) = (ofList items).resize n := by
  ext i
  · exact Store.length_resize items n
  · show (Store.resize items n)[i]?.getD .null = if i < n then items[i]?.getD .null else .null
    rw [Store.getElem?_resize]
    split <;> rfl

/-- To replace an element of a list. -/
theorem ofList_set {items : List Value} {i : Nat} (h : i < items.length) (v : Value) :
    ofList (items.set i v) = (ofList items).put i v := by
  ext j
  · show (items.set i v).length = max items.length (i + 1)
    rw [List.length_set]
    omega
  · show (items.set i v)[j]?.getD .null = Function.update (ofList items).value i v j
    rw [List.getElem?_set]
    by_cases hj : j = i
    · rw [if_pos hj.symm, if_pos h, hj, Function.update_self]
      rfl
    · rw [if_neg (Ne.symm hj), Function.update_of_ne hj]
      rfl

/-- To write past the end of a list. -/
theorem ofList_resize_append {items : List Value} {i : Nat} (h : items.length ≤ i) (v : Value) :
    ofList (Store.resize items i ++ [v]) = (ofList items).put i v := by
  ext j
  · show (Store.resize items i ++ [v]).length = max items.length (i + 1)
    rw [List.length_append, Store.length_resize, List.length_singleton]
    omega
  · show (Store.resize items i ++ [v])[j]?.getD .null = Function.update (ofList items).value i v j
    rw [List.getElem?_append, Store.length_resize, Store.getElem?_resize]
    by_cases hlt : j < i
    · rw [if_pos hlt, if_pos hlt, Function.update_of_ne (Nat.ne_of_lt hlt)]
      rfl
    · rw [if_neg hlt]
      by_cases hj : j = i
      · rw [hj, Nat.sub_self, Function.update_self]
        rfl
      · rw [Function.update_of_ne hj, List.getElem?_eq_none (by simp; omega)]
        exact ((ofList items).null_of_le j (by show items.length ≤ j; omega)).symm

/-- To append to a list. -/
theorem ofList_append (items : List Value) (v : Value) :
    ofList (items ++ [v]) = (ofList items).push v := by
  have h := ofList_resize_append (Nat.le_refl items.length) v
  rwa [Store.resize_length] at h

/-- To take the last element off a list. -/
theorem ofList_dropLast (items : List Value) : ofList items.dropLast = (ofList items).pop := by
  rw [← Store.resize_pred_length, ofList_resize]
  rfl

/-- To replace an element of a list by null, or none if there is none. -/
theorem ofList_set_null (items : List Value) (i : Nat) :
    ofList (items.set i .null) = (ofList items).clear i := by
  ext j
  · exact List.length_set
  · show (items.set i .null)[j]?.getD .null = Function.update (ofList items).value i .null j
    rw [List.getElem?_set]
    by_cases hj : j = i
    · rw [if_pos hj.symm, hj, Function.update_self]
      split <;> rfl
    · rw [if_neg (Ne.symm hj), Function.update_of_ne hj]
      rfl

end Sequence

/-! ## Shapes -/

/-- What a store stands for. -/
inductive Shape where
  /-- A list. -/
  | list (q : Sequence)
  /-- A map, as the value at each key that it has. -/
  | map (f : String → Option Value)

/-- What an operation makes of a shape, if it is allowed. -/
def Shape.step : Shape → Operation → Option Shape
  | list q, .set key v =>
    if key = Store.lengthKey then (Store.length? v).map fun n => list (q.resize n)
    else (Store.index? key).map fun i => list (q.put i v)
  | list q, .delete key => (Store.index? key).map fun i => list (q.clear i)
  | list q, .push v => some (list (q.push v))
  | list q, .pop => some (list q.pop)
  | map f, .set key v => some (map (Function.update f key (some v)))
  | map f, .delete key => some (map (Function.update f key none))
  | map _, .push _ | map _, .pop => none

/-- What an operation leaves of a shape: the shape itself, if the operation is not allowed. -/
def Shape.after (s : Shape) (op : Operation) : Shape := (s.step op).getD s

namespace Store

/-- What a store stands for. -/
def shape : Store → Shape
  | list items => .list (Sequence.ofList items)
  | map entries => .map entries.find?

/-- The content that an operation makes of another one, if that allows it. -/
def perform (text : Value → String) (s : Store) : Operation → Except Fault Store
  | .set key v => (s.write text key v).map (·.1)
  | .delete key => s.erase key
  | .push v => s.push v
  | .pop => s.pop.map (·.2)

/-- An operation does to a store what it does to the shape, and fails where that has no result. -/
theorem shape_perform (text : Value → String) (s : Store) (op : Operation) :
    (s.perform text op).toOption.map shape = s.shape.step op := by
  cases s with
  | map entries =>
    cases op with
    | set key v =>
      refine congrArg (fun f => some (Shape.map f)) (funext fun k => ?_)
      rw [Dict.find?_insert, Function.update_apply]
    | delete key =>
      refine congrArg (fun f => some (Shape.map f)) (funext fun k => ?_)
      rw [Dict.find?_erase, Function.update_apply]
    | push => rfl
    | pop => rfl
  | list items =>
    cases op with
    | set key v =>
      unfold perform write shape Shape.step
      dsimp only
      split
      · cases length? v with
        | none => rfl
        | some n => exact congrArg (some ∘ Shape.list) (Sequence.ofList_resize items n)
      · cases index? key with
        | none => rfl
        | some i =>
          dsimp only
          split
          · exact congrArg (some ∘ Shape.list) (Sequence.ofList_set ‹_› v)
          · exact congrArg (some ∘ Shape.list)
              (Sequence.ofList_resize_append (Nat.le_of_not_lt ‹_›) v)
    | delete key =>
      unfold perform erase shape Shape.step
      dsimp only
      cases index? key with
      | none => rfl
      | some i => exact congrArg (some ∘ Shape.list) (Sequence.ofList_set_null items i)
    | push v => exact congrArg (some ∘ Shape.list) (Sequence.ofList_append items v)
    | pop => exact congrArg (some ∘ Shape.list) (Sequence.ofList_dropLast items)

/-! ## What is read of a store -/

/-- What a store shows that stands for a list. -/
structure ShowsList (s : Store) (q : Sequence) : Prop where
  /-- It is a list. -/
  isList : s.isList = true
  /-- It has as many elements. -/
  size : s.size = q.length
  /-- Its keys are the indices. -/
  keys : s.keys = (List.range q.length).map indexKey
  /-- Its values are the elements. -/
  values : s.values = (List.range q.length).map q.value
  /-- Its entries are both. -/
  entries : s.entries = (List.range q.length).map fun i => (indexKey i, q.value i)
  /-- The length has a key of its own. -/
  length : s.get lengthKey = .number (Number.ofNat q.length) ∧ s.contains lengthKey = true
  /-- An index may be spelled in any way. It fits into a machine word, or there is nothing that far
  out. -/
  element : ∀ key i, Spells key i → i < Nat.pow 2 64 ∨ q.length ≤ Nat.pow 2 64 →
    s.get key = q.value i ∧ s.contains key = decide (i < q.length)
  /-- There is nothing at other keys. -/
  other : ∀ key, key ≠ lengthKey → (∀ i, ¬ Spells key i) →
    s.get key = .null ∧ s.contains key = false

/-- What a store shows that stands for a map. -/
structure ShowsMap (s : Store) (f : String → Option Value) : Prop where
  /-- It is no list. -/
  isList : s.isList = false
  /-- The keys ascend. -/
  ascending : s.keys.Pairwise (· < ·)
  /-- Its keys are those that have a value. -/
  mem_keys : ∀ key, key ∈ s.keys ↔ (f key).isSome
  /-- There are as many entries as keys. -/
  size : s.size = s.keys.length
  /-- The values are those of the keys, in their order. -/
  values : s.values.map some = s.keys.map f
  /-- The entries are both. -/
  entries : s.entries.map (fun e => (e.1, some e.2)) = s.keys.map fun key => (key, f key)
  /-- A key has its value, or null. -/
  get : ∀ key, s.get key = (f key).getD .null
  /-- A key is there if it has a value. -/
  contains : ∀ key, s.contains key = (f key).isSome

/-- What a store shows that stands for a list or a map. -/
def Shows (s : Store) : Shape → Prop
  | .list q => s.ShowsList q
  | .map f => s.ShowsMap f

/-- The key of the length spells no index. -/
theorem not_spells_lengthKey (i : Nat) : ¬ Spells lengthKey i := by
  rintro ⟨_, hdigits, _⟩
  exact absurd (hdigits 'l' (by decide)) (by decide)

/-- A list shows what it stands for. -/
theorem showsList_ofList (items : List Value) :
    (list items).ShowsList (Sequence.ofList items) := by
  have hvalues : items = (List.range items.length).map (Sequence.ofList items).value := by
    refine List.ext_getElem (by simp) fun i hi _ => ?_
    rw [List.getElem_map, List.getElem_range]
    show items[i] = items[i]?.getD .null
    rw [List.getElem?_eq_getElem hi]
    rfl
  have hread {key : String} (hkey : key ≠ lengthKey) :
      (list items).get key = ((index? key).bind (items[·]?)).getD .null ∧
        (list items).contains key = (index? key).any (· < items.length) := by
    unfold get contains
    dsimp only
    rw [if_neg hkey, beq_eq_false_iff_ne.2 hkey, Bool.false_or]
    exact ⟨rfl, rfl⟩
  refine ⟨rfl, rfl, rfl, hvalues, ?_, ⟨?_, ?_⟩, fun key i hspells hi => ?_,
    fun key hkey hspells => ?_⟩
  · calc (list items).entries
        = ((List.range items.length).map indexKey).zip
            ((List.range items.length).map (Sequence.ofList items).value) := by
          rw [← hvalues]
          rfl
      _ = _ := List.zip_map' ..
  · unfold get
    exact if_pos rfl
  · unfold contains
    dsimp only
    rw [beq_self_eq_true, Bool.true_or]
  · have hkey : key ≠ lengthKey := fun heq => not_spells_lengthKey i (heq ▸ hspells)
    rw [(hread hkey).1, (hread hkey).2]
    by_cases hlt : i < Nat.pow 2 64
    · rw [index?_eq_some_iff.2 ⟨hspells, hlt⟩]
      exact ⟨rfl, rfl⟩
    · -- The index does not fit into a word, but no list is so long.
      have hlength : (Sequence.ofList items).length ≤ i :=
        Nat.le_trans (hi.resolve_left hlt) (Nat.le_of_not_lt hlt)
      have hnone : index? key = none := by
        refine Option.eq_none_iff_forall_ne_some.2 fun j hj => ?_
        obtain ⟨hspells', hj⟩ := index?_eq_some_iff.1 hj
        obtain rfl : j = i := hspells'.2.2.symm.trans hspells.2.2
        exact hlt hj
      rw [hnone, (Sequence.ofList items).null_of_le i hlength,
        decide_eq_false (Nat.not_lt.2 hlength)]
      exact ⟨rfl, rfl⟩
  · have hnone : index? key = none := by
      refine Option.eq_none_iff_forall_ne_some.2 fun j hj => ?_
      exact hspells j (index?_eq_some_iff.1 hj).1
    rw [(hread hkey).1, (hread hkey).2, hnone]
    exact ⟨rfl, rfl⟩

/-- A map shows what it stands for. -/
theorem showsMap_find? (entries : Dict Value) : (map entries).ShowsMap entries.find? := by
  have hfind : ∀ e ∈ entries.entries, entries.find? e.1 = some e.2 := fun e he =>
    Dict.lookup_of_mem entries.ascending.nodup_keys he
  refine ⟨rfl, List.pairwise_map.2 entries.ascending, fun key => ⟨fun h => ?_, fun h => ?_⟩,
    ?_, ?_, ?_, fun key => rfl, fun key => rfl⟩
  · obtain ⟨e, he, rfl⟩ := List.mem_map.1 h
    rw [hfind e he]
    rfl
  · obtain ⟨v, hv⟩ := Option.isSome_iff_exists.1 h
    exact List.mem_map.2 ⟨(key, v), Dict.mem_of_lookup hv, rfl⟩
  · exact (List.length_map _).symm
  · show (entries.entries.map (·.2)).map some = (entries.entries.map (·.1)).map entries.find?
    rw [List.map_map, List.map_map]
    exact List.map_congr_left fun e he => (hfind e he).symm
  · show ((entries.entries.map (·.1)).zip (entries.entries.map (·.2))).map _ =
      (entries.entries.map (·.1)).map _
    rw [List.zip_map', List.map_map, List.map_map]
    exact List.map_congr_left fun e he => congrArg (e.1, ·) (hfind e he).symm

/-- A store shows what it stands for. -/
theorem shows_shape (s : Store) : s.Shows s.shape := by
  cases s with
  | list items => exact showsList_ofList items
  | map entries => exact showsMap_find? entries

end Store

end LiveScope
