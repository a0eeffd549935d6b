import LiveScope.Proofs.Decimal.Integers
import LiveScope.Proofs.Dict
import LiveScope.Proofs.Model.Depth
import Mathlib.Data.List.Perm.Basic

/-!
# Data and their documents

A value that is written as JSON and read again is copied: the copy consists of objects that are made
for it, one for each place where the document has a container (`Model.Planted`), and has the shape,
the keys and the scalars of what was written (`Model.Copies`). Copies are written alike
(`Model.toJsonWithin_of_copies`), so that nothing changes any more from the first document on.
`Model.toJson_roundTrip` puts this together with the limit of the nesting.

What is left out are values for which JSON has no form: functions, infinities and NaN
(`Model.Plain`).
-/

namespace LiveScope

open Relation (ReflTransGen TransGen)

namespace Dict

/-- Entries in ascending order are those of their map. -/
theorem entries_ofList {α : Type} {entries : List (String × α)} (h : Ascending entries) :
    (ofList entries).entries = entries :=
  eq_of_lookup (ofList entries).ascending h (lookup_ofList h.nodup_keys)

end Dict

/-- Whether JSON has a form for a value, what is inside it apart. -/
def Value.IsPlain : Value → Prop
  | function _ => False
  | number x => x.isFinite = true
  | _ => True

namespace Model

/-! ## Values that have a form -/

/-- Whether a value is another one or somewhere inside it. -/
inductive Occurs (m : Model) (v : Value) : Value → Prop
  | self : m.Occurs v v
  | inside {o : ObjectId} {u : Value} (outer : m.Occurs v (.object o))
      (mem : u ∈ (m.store o).values) : m.Occurs v u

/-- Whether JSON has a form for a value and all that is inside it. -/
def Plain (m : Model) (v : Value) : Prop := ∀ u, m.Occurs v u → u.IsPlain

variable {m n n' : Model} {levels : Nat} {o : ObjectId} {v v' : Value}

/-- What is inside a plain value is plain. -/
theorem Plain.of_mem (h : m.Plain (.object o)) (hv : v ∈ (m.store o).values) : m.Plain v := by
  intro u hu
  refine h u ?_
  induction hu with
  | self => exact .inside .self hv
  | inside _ mem ih => exact .inside ih mem

/-- A value is plain if it is one of several plain values inside of which there are no others. -/
theorem plain_of_closed (vs : List Value) (hv : v ∈ vs)
    (hclosed : ∀ o, .object o ∈ vs → ∀ u ∈ (m.store o).values, u ∈ vs)
    (hplain : ∀ u ∈ vs, u.IsPlain) : m.Plain v := by
  intro u hu
  refine hplain u ?_
  induction hu with
  | self => exact hv
  | inside _ mem ih => exact hclosed _ ih _ mem

/-! ## Fresh objects -/

/-- The model with objects added that have the given contents and no bindings. -/
def addAll (m : Model) (stores : List Store) : Model := stores.foldl (fun m s => (m.add s).2) m

/-- Objects can be added in two steps. -/
theorem addAll_append (m : Model) (stores stores' : List Store) :
    m.addAll (stores ++ stores') = (m.addAll stores).addAll stores' :=
  List.foldl_append

/-- The objects that are added come after the others. -/
theorem objects_addAll (m : Model) (stores : List Store) :
    (m.addAll stores).objects.toList = m.objects.toList ++ stores.map ({ store := · }) := by
  induction stores generalizing m with
  | nil => simp [addAll]
  | cons s stores ih =>
    show ((m.add s).2.addAll stores).objects.toList = _
    rw [ih]
    simp [add]

/-- There is an object more for each content. -/
theorem size_addAll (m : Model) (stores : List Store) :
    (m.addAll stores).objects.size = m.objects.size + stores.length := by
  rw [← Array.length_toList, objects_addAll]
  simp

/-- What was there before has its content. -/
theorem store_addAll (stores : List Store) (h : o < m.objects.size) :
    (m.addAll stores).store o = m.store o := by
  have hget : (m.addAll stores).objects[o]? = m.objects[o]? := by
    rw [← Array.getElem?_toList, objects_addAll, List.getElem?_append_left (by simpa using h),
      Array.getElem?_toList]
  unfold store
  rw [hget]

/-- The object that is added last has the last content. -/
theorem store_addAll_concat (m : Model) (stores : List Store) (s : Store) :
    (m.addAll (stores ++ [s])).store (m.objects.size + stores.length) = s := by
  unfold store
  rw [← Array.getElem?_toList, objects_addAll, List.map_append,
    List.getElem?_append_right (by simp), List.getElem?_append_right (by simp)]
  simp

/-- Whether values are made of the objects from `first` on, with the given contents, alone: each of
these is referred to once, and no others are. -/
def Planted (first : ObjectId) (roots : List Value) (stores : List Store) : Prop :=
  ((roots ++ stores.flatMap Store.values).filterMap Value.object?).Perm
    (List.range' first stores.length)

/-- Values that are made of no objects need none. -/
theorem planted_of_scalars {first : ObjectId} {vs : List Value} (h : ∀ v ∈ vs, v.object? = none) :
    Planted first vs [] := by
  unfold Planted
  rw [List.flatMap_nil, List.append_nil, List.filterMap_eq_nil_iff.2 h]
  exact .nil

/-- Values that are made one after the other are made of different objects. -/
theorem Planted.append {first : ObjectId} {roots roots' : List Value}
    {stores stores' : List Store} (h : Planted first roots stores)
    (h' : Planted (first + stores.length) roots' stores') :
    Planted first (roots ++ roots') (stores ++ stores') := by
  have hmove : (roots ++ roots' ++ (stores ++ stores').flatMap Store.values).Perm
      ((roots ++ stores.flatMap Store.values) ++ (roots' ++ stores'.flatMap Store.values)) := by
    rw [List.flatMap_append, List.append_assoc, List.append_assoc, ← List.append_assoc roots',
      ← List.append_assoc _ roots']
    exact (List.perm_append_comm.append_right _).append_left _
  unfold Planted at *
  rw [List.length_append, ← List.range'_append_1]
  have hboth := h.append h'
  rw [← List.filterMap_append] at hboth
  exact (hmove.filterMap _).trans hboth

/-- An object that is made of values takes them as its content. -/
theorem Planted.container {first : ObjectId} {stores : List Store} {s : Store}
    (h : Planted first s.values stores) :
    Planted first [.object (first + stores.length)] (stores ++ [s]) := by
  unfold Planted at *
  have hmove : (stores.flatMap Store.values ++ s.values).Perm
      (s.values ++ stores.flatMap Store.values) := List.perm_append_comm
  rw [List.flatMap_append, List.flatMap_singleton, List.length_append, List.length_singleton,
    List.range'_1_concat]
  exact (((hmove.filterMap _).trans h).cons _).trans (List.perm_append_singleton _ _).symm

/-! ## Copies -/

/-- Whether two values of two models are the same data: equal scalars, or objects of one kind with
the same keys in the same order, at which there are the same data. -/
inductive Copies (m n : Model) : Value → Value → Prop
  | null : Copies m n .null .null
  | bool (b : Bool) : Copies m n (.bool b) (.bool b)
  | number {x y : Float} (equal : (x == y) = true) : Copies m n (.number x) (.number y)
  | text (s : String) : Copies m n (.text s) (.text s)
  | object {o q : ObjectId} (present : q < n.objects.size)
      (kind : (n.store q).isList = (m.store o).isList)
      (keys : (n.store q).keys = (m.store o).keys)
      (values : ∀ e ∈ (m.store o).values.zip (n.store q).values, Copies m n e.1 e.2) :
      Copies m n (.object o) (.object q)

/-- A copy stays one when objects are added. -/
theorem Copies.of_grown (h : m.Copies n v v') (hsize : n.objects.size ≤ n'.objects.size)
    (hstore : ∀ o, o < n.objects.size → n'.store o = n.store o) : m.Copies n' v v' := by
  induction h with
  | null => exact .null
  | bool b => exact .bool b
  | number equal => exact .number equal
  | text s => exact .text s
  | object present kind keys _ ih =>
    have hq := hstore _ present
    refine .object (present.trans_le hsize) (by rw [hq, kind]) (by rw [hq, keys]) ?_
    rw [hq]
    exact ih

/-- A copy stays one when objects are added. -/
theorem Copies.addAll (h : m.Copies n v v') (stores : List Store) :
    m.Copies (n.addAll stores) v v' :=
  h.of_grown (by rw [size_addAll]; omega) fun _ => store_addAll stores

end Model

namespace Store

/-- There is a value for each key. -/
theorem length_values (s : Store) : s.values.length = s.keys.length := by
  cases s with
  | map entries => simp [values, keys, Dict.values, Dict.keys]
  | list items => simp [values, keys]

/-- Contents of one kind with the same keys have the same documents if their values do. -/
theorem document_congr {s t : Store} (hkind : t.isList = s.isList) (hkeys : t.keys = s.keys)
    (documents : List Json) : t.document documents = s.document documents := by
  unfold document
  rw [hkind, hkeys]

end Store

namespace Model

variable {m n : Model} {levels : Nat} {o : ObjectId} {v v' : Value} {j : Json}

/-- Copies are written alike. -/
theorem toJsonWithin_of_copies (h : m.Copies n v v') (levels : Nat) :
    n.toJsonWithin levels v' = m.toJsonWithin levels v := by
  induction h generalizing levels with
  | null => cases levels <;> rfl
  | bool b => cases levels <;> rfl
  | text s => cases levels <;> rfl
  | number equal =>
    have hnumber := numberToJson_congr equal
    cases levels <;> exact congrArg Except.ok hnumber.symm
  | object present kind keys _ ih =>
    rename_i o q _
    cases levels with
    | zero => rfl
    | succ levels =>
      have hlength : (m.store o).values.length = (n.store q).values.length := by
        rw [Store.length_values, Store.length_values, keys]
      have hvalues : (n.store q).values.mapM (n.toJsonWithin levels) =
          (m.store o).values.mapM (m.toJsonWithin levels) := by
        refine (mapM_congr_of_forall₂ (List.forall₂_iff_zip.2 ⟨hlength, fun h => ?_⟩)).symm
        exact (ih _ h levels).symm
      unfold toJsonWithin
      rw [Store.storeToJson_eq, Store.storeToJson_eq, hvalues]
      exact congrArg (· <$> _) (funext (Store.document_congr kind keys))

/-! ## Reading what was written -/

/-- The values that are read of several documents. -/
def ofJsonAll (documents : List Json) (n : Model) : List Value × Model :=
  n.buildItems (fun _ => .null) (Json.toDatumItems documents)

/-- What is read of several documents is read of one after the other. -/
theorem ofJsonAll_cons (document : Json) (documents : List Json) (n : Model) :
    n.ofJsonAll (document :: documents) =
      ((n.ofJson document).1 :: ((n.ofJson document).2.ofJsonAll documents).1,
        ((n.ofJson document).2.ofJsonAll documents).2) :=
  rfl

/-- What is read of the members of an object is read of their documents. -/
theorem buildMembers_zip (n : Model) {keys : List String} {documents : List Json}
    (hlength : keys.length = documents.length) :
    n.buildMembers (fun _ => .null) (Json.toDatumMembers (keys.zip documents)) =
      (keys.zip (n.ofJsonAll documents).1, (n.ofJsonAll documents).2) := by
  induction keys generalizing n documents with
  | nil =>
    obtain rfl := List.length_eq_zero_iff.1 hlength.symm
    rfl
  | cons key keys ih =>
    cases documents with
    | nil => cases hlength
    | cons document documents =>
      rw [List.zip_cons_cons, ofJsonAll_cons]
      unfold Json.toDatumMembers buildMembers
      dsimp only
      rw [ih _ (Nat.succ.inj hlength)]
      rfl

/-- As many values are read as there are documents. -/
theorem length_ofJsonAll (documents : List Json) (n : Model) :
    (n.ofJsonAll documents).1.length = documents.length := by
  induction documents generalizing n with
  | nil => rfl
  | cons document documents ih =>
    rw [ofJsonAll_cons, List.length_cons, ih, List.length_cons]

/-- What is read of the document of a content is a new object with a content of the same kind, with
the same keys and with the values that are read of their documents. -/
theorem ofJson_document (n : Model) {s : Store} {documents : List Json}
    (hlength : s.values.length = documents.length) :
    ∃ t : Store, t.isList = s.isList ∧ t.keys = s.keys ∧
      t.values = (n.ofJsonAll documents).1 ∧
      n.ofJson (s.document documents) =
        (.object (n.ofJsonAll documents).2.objects.size, ((n.ofJsonAll documents).2.add t).2) := by
  have hcount := length_ofJsonAll documents n
  cases s with
  | list items =>
    refine ⟨.list (n.ofJsonAll documents).1, rfl, ?_, rfl, rfl⟩
    show (List.range (n.ofJsonAll documents).1.length).map Store.indexKey = _
    rw [hcount, ← hlength]
    rfl
  | map entries =>
    have hkeys : entries.keys.length = documents.length :=
      (Store.length_values (.map entries)).symm.trans hlength
    have hfst : (entries.keys.zip (n.ofJsonAll documents).1).map (·.1) = entries.keys :=
      List.map_fst_zip (by omega)
    have hsnd : (entries.keys.zip (n.ofJsonAll documents).1).map (·.2) =
        (n.ofJsonAll documents).1 := List.map_snd_zip (by omega)
    -- The keys are in order, so that the map has them in this order.
    have hascending : Ascending (entries.keys.zip (n.ofJsonAll documents).1) := by
      have hkeys : entries.keys.Pairwise (· < ·) := List.pairwise_map.2 entries.ascending
      rw [← hfst] at hkeys
      exact List.pairwise_map.1 hkeys
    have hentries := Dict.entries_ofList hascending
    refine ⟨.map (Dict.ofList (entries.keys.zip (n.ofJsonAll documents).1)), rfl, ?_, ?_, ?_⟩
    · show (Dict.ofList _).entries.map (·.1) = entries.keys
      rw [hentries, hfst]
    · show (Dict.ofList _).entries.map (·.2) = _
      rw [hentries, hsnd]
    · show n.build (fun _ => .null) (.map (Json.toDatumMembers (entries.keys.zip documents))) = _
      unfold build
      rw [buildMembers_zip n hkeys]
      rfl

/-- Whether a copy of a value is read of a document, made of nothing but fresh objects, in any
model. -/
def Recovers (m : Model) (v : Value) (j : Json) : Prop :=
  ∀ n : Model, ∃ v' stores, n.ofJson j = (v', n.addAll stores) ∧
    Planted n.objects.size [v'] stores ∧ m.Copies (n.addAll stores) v v'

/-- Copies of several values are read of their documents. -/
theorem ofJsonAll_of_recovers {vs : List Value} {documents : List Json}
    (h : List.Forall₂ m.Recovers vs documents) (n : Model) :
    ∃ vs' stores, n.ofJsonAll documents = (vs', n.addAll stores) ∧
      Planted n.objects.size vs' stores ∧ List.Forall₂ (m.Copies (n.addAll stores)) vs vs' := by
  induction h generalizing n with
  | nil => exact ⟨[], [], rfl, planted_of_scalars (by simp), .nil⟩
  | cons hhead _ ih =>
    obtain ⟨v', stores, hread, hplanted, hcopies⟩ := hhead n
    obtain ⟨vs', stores', hread', hplanted', hcopies'⟩ := ih (n.addAll stores)
    rw [size_addAll] at hplanted'
    refine ⟨v' :: vs', stores ++ stores', ?_, hplanted.append hplanted', .cons ?_ ?_⟩
    · rw [ofJsonAll_cons, hread, hread', addAll_append]
    · rw [addAll_append]
      exact hcopies.addAll stores'
    · rw [addAll_append]
      exact hcopies'

/-- A plain scalar is recovered from what is written of it. -/
theorem recovers_of_scalar (hv : v.object? = none) (hplain : v.IsPlain)
    (h : m.toJsonWithin levels v = .ok j) : m.Recovers v j := by
  have hread {v' : Value} (hread : ∀ n : Model, n.ofJson j = (v', n)) (hv' : v'.object? = none)
      (hcopies : ∀ n : Model, m.Copies n v v') : m.Recovers v j := by
    intro n
    refine ⟨v', [], hread n, planted_of_scalars fun u hu => ?_, hcopies _⟩
    rw [List.mem_singleton.1 hu]
    exact hv'
  unfold toJsonWithin at h
  cases v with
  | object => cases hv
  | function => exact hplain.elim
  | null =>
    obtain rfl := Except.ok.inj h
    exact hread (fun _ => rfl) rfl fun _ => .null
  | bool b =>
    obtain rfl := Except.ok.inj h
    exact hread (fun _ => rfl) rfl fun _ => .bool b
  | text s =>
    obtain rfl := Except.ok.inj h
    exact hread (fun _ => rfl) rfl fun _ => .text s
  | number x =>
    obtain rfl := Except.ok.inj h
    obtain ⟨y, hy, hequal⟩ := toDatum_numberToJson hplain
    refine hread (fun n => ?_) rfl fun _ => .number hequal
    unfold ofJson
    rw [hy]
    rfl

/-- A plain value is recovered from what is written of it. -/
theorem recovers_of_toJsonWithin (hplain : m.Plain v) (h : m.toJsonWithin levels v = .ok j) :
    m.Recovers v j := by
  induction levels generalizing v j with
  | zero =>
    cases v with
    | object => cases h
    | null | bool | number | text | function =>
      exact recovers_of_scalar rfl (hplain _ .self) h
  | succ levels ih =>
    cases v with
    | object o =>
      obtain ⟨documents, hdocuments, rfl⟩ := toJsonWithin_object.1 h
      -- The values in the object are recovered one after the other, before an object for them.
      have heach := mapM_eq_ok_iff.1 hdocuments
      have hrecovers : List.Forall₂ m.Recovers (m.store o).values documents := by
        refine List.forall₂_iff_zip.2 ⟨heach.length_eq, fun h => ?_⟩
        exact ih (hplain.of_mem (List.of_mem_zip h).1) ((List.forall₂_iff_zip.1 heach).2 h)
      intro n
      obtain ⟨vs', stores, hread, hplanted, hcopies⟩ := ofJsonAll_of_recovers hrecovers n
      obtain ⟨t, hkind, hkeys, hvalues, hofJson⟩ := n.ofJson_document heach.length_eq
      rw [hread] at hvalues hofJson
      dsimp only at hvalues hofJson
      have hadd : ((n.addAll stores).add t).2 = n.addAll (stores ++ [t]) :=
        (addAll_append n stores [t]).symm
      have hstore := store_addAll_concat n stores t
      rw [hadd, size_addAll] at hofJson
      refine ⟨_, stores ++ [t], hofJson, (hvalues ▸ hplanted).container, .object ?_ ?_ ?_ ?_⟩
      · rw [size_addAll, List.length_append]
        exact Nat.lt_succ_self _
      · rw [hstore, hkind]
      · rw [hstore, hkeys]
      · rw [hstore, hvalues]
        intro e he
        rw [addAll_append]
        exact ((List.forall₂_iff_zip.1 hcopies).2 he).addAll [t]
    | null | bool | number | text | function =>
      exact recovers_of_scalar rfl (hplain _ .self) h

/-- A value without functions, infinities and NaN is written as JSON exactly if no chain of objects
inside it is longer than the limit, be it as a value or as an object, so that writing what leads to
a circle is refused. What is read of the document, in any model, is a copy that is made of fresh
objects, and it is written as the same document again. -/
theorem toJson_roundTrip (m : Model) (v : Value) (hplain : m.Plain v) :
    ((∃ j, m.toJson v = .ok j) ↔ m.Shallow maxDepth v) ∧
    (∀ fault, m.toJson v = .error fault → fault.kind = .recursion) ∧
    (∀ o q, v = .object o → m.Reaches o q → TransGen m.Contains q q →
      m.toJson v = .error .nestedData) ∧
    (∀ o, m.objectToJson o = m.toJson (.object o)) ∧
    ∀ j, m.toJson v = .ok j → ∀ n : Model, ∃ v' stores,
      n.ofJson j = (v', n.addAll stores) ∧ Planted n.objects.size [v'] stores ∧
      m.Copies (n.addAll stores) v v' ∧ (n.addAll stores).toJson v' = .ok j := by
  refine ⟨toJsonWithin_ok_iff, fun fault h => ?_, fun o q hv hreach hcycle => ?_, fun o => rfl,
    fun j h n => ?_⟩
  · rw [toJsonWithin_error h]
    rfl
  · rw [hv]
    exact toJson_eq_error_iff.2 (not_shallow_of_cycle hreach hcycle)
  · obtain ⟨v', stores, hread, hplanted, hcopies⟩ := recovers_of_toJsonWithin hplain h n
    exact ⟨v', stores, hread, hplanted, hcopies, (toJsonWithin_of_copies hcopies maxDepth).trans h⟩

/-- A map that has one list at two of its keys. -/
def twins : Model where
  objects := #[
    { store := .map (Dict.ofList [("a", .object 1), ("b", .object 1), ("c", .text "x")]) },
    { store := .list [.number 0.5, .null, .number 3] }]

/-- What is written of the map: the list twice. -/
def twinsDocument : Json :=
  let list : Json := .array [.float 0.5, .null, .integer 3]
  .object [("a", list), ("b", list), ("c", .text "x")]

/-- The list is written at both keys, and read as two lists. -/
theorem toJson_roundTrip_twins :
    twins.toJson (.object 0) = .ok twinsDocument ∧
    ∃ v' stores, twins.ofJson twinsDocument = (v', twins.addAll stores) ∧ stores.length = 3 ∧
      Planted 2 [v'] stores ∧ twins.Copies (twins.addAll stores) (.object 0) v' ∧
      (twins.addAll stores).toJson v' = .ok twinsDocument := by
  have hplain : twins.Plain (.object 0) := by
    refine plain_of_closed [.object 0, .object 1, .text "x", .number 0.5, .null, .number 3]
      List.mem_cons_self ?_ ?_
    · intro o ho u hu
      simp only [List.mem_cons, List.not_mem_nil, Value.object.injEq, reduceCtorEq, or_false] at ho
      rcases ho with rfl | rfl
      · have hvalues : (twins.store 0).values = [.object 1, .object 1, .text "x"] := rfl
        rw [hvalues] at hu
        simp only [List.mem_cons, List.not_mem_nil, or_false] at hu
        rcases hu with rfl | rfl | rfl <;> simp
      · have hvalues : (twins.store 1).values = [.number 0.5, .null, .number 3] := rfl
        rw [hvalues] at hu
        simp only [List.mem_cons, List.not_mem_nil, or_false] at hu
        rcases hu with rfl | rfl | rfl <;> simp
    · intro u hu
      simp only [List.mem_cons, List.not_mem_nil, or_false] at hu
      rcases hu with rfl | rfl | rfl | rfl | rfl | rfl
      · trivial
      · trivial
      · trivial
      · show Float.isFinite 0.5 = true
        decide +kernel
      · trivial
      · show Float.isFinite 3 = true
        decide +kernel
  have hwritten : twins.toJson (.object 0) = .ok twinsDocument := rfl
  obtain ⟨v', stores, hread, hplanted, hcopies, hagain⟩ :=
    (toJson_roundTrip twins (.object 0) hplain).2.2.2.2 _ hwritten twins
  have hlength : 2 + stores.length = 2 + 3 := calc
    2 + stores.length = (twins.addAll stores).objects.size := (size_addAll twins stores).symm
    _ = (twins.ofJson twinsDocument).2.objects.size := congrArg (·.2.objects.size) hread.symm
    _ = 2 + 3 := rfl
  exact ⟨hwritten, v', stores, hread, Nat.add_left_cancel hlength, hplanted, hcopies, hagain⟩

end Model

end LiveScope
