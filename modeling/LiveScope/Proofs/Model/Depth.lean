import LiveScope.Model.Snapshot
import LiveScope.Proofs.Outcome
import LiveScope.Proofs.Deep.Rebuilding

/-!
# How deep data are nested

Two guards keep nested data from being followed without end: a deep watch is set up for at most
`maxDepth` objects below each other, and so many are written as JSON. Both draw the line where the
longest chain of objects does, each of which is in the one before (`Model.Shallow`):
`Model.toJsonWithin_ok_iff` says so of JSON, and `Model.shallow_object_iff` says it of
`Model.Within`, which decides what can be watched.
-/

namespace LiveScope

open Relation (ReflTransGen TransGen)

/-! ## Operations on each member of a list -/

section Each

variable {ε α β γ : Type} {f : α → Except ε β}

/-- An operation succeeds on a list if it does on each member. -/
theorem mapM_eq_ok_iff {xs : List α} {ys : List β} :
    xs.mapM f = .ok ys ↔ List.Forall₂ (fun x y => f x = .ok y) xs ys := by
  induction xs generalizing ys with
  | nil =>
    rw [List.forall₂_nil_left_iff]
    exact ⟨fun h => (Except.ok.inj h).symm, fun h => h ▸ rfl⟩
  | cons x xs ih =>
    rw [List.mapM_cons, List.forall₂_cons_left_iff, bind_eq_ok_iff]
    constructor
    · rintro ⟨y, hy, h⟩
      obtain ⟨rest, hrest, h⟩ := bind_eq_ok_iff.1 h
      exact ⟨y, rest, hy, ih.1 hrest, (Except.ok.inj h).symm⟩
    · rintro ⟨y, rest, hy, hrest, rfl⟩
      exact ⟨y, hy, bind_eq_ok_iff.2 ⟨rest, ih.2 hrest, rfl⟩⟩

/-- An operation that fails on a list fails so on one of its members. -/
theorem exists_error_of_mapM {xs : List α} {e : ε} (h : xs.mapM f = .error e) :
    ∃ x ∈ xs, f x = .error e := by
  induction xs with
  | nil => cases h
  | cons x xs ih =>
    rw [List.mapM_cons] at h
    cases hx : f x with
    | error e' =>
      rw [hx] at h
      obtain rfl := Except.error.inj h
      exact ⟨x, List.mem_cons_self, hx⟩
    | ok y =>
      rw [hx] at h
      cases hxs : xs.mapM f with
      | error e' =>
        rw [hxs] at h
        obtain rfl := Except.error.inj h
        obtain ⟨x', hx', he⟩ := ih hxs
        exact ⟨x', List.mem_cons_of_mem _ hx', he⟩
      | ok ys =>
        rw [hxs] at h
        cases h

/-- An operation can be done on a list if it can be done on each member. -/
theorem exists_mapM_ok_iff {xs : List α} :
    (∃ ys, xs.mapM f = .ok ys) ↔ ∀ x ∈ xs, ∃ y, f x = .ok y := by
  constructor
  · rintro ⟨ys, h⟩ x hx
    obtain ⟨i, hi, rfl⟩ := List.mem_iff_getElem.1 hx
    obtain ⟨hlength, hall⟩ := List.forall₂_iff_get.1 (mapM_eq_ok_iff.1 h)
    exact ⟨_, hall i hi (hlength ▸ hi)⟩
  · intro h
    cases hxs : xs.mapM f with
    | ok ys => exact ⟨ys, rfl⟩
    | error e =>
      obtain ⟨x, hx, he⟩ := exists_error_of_mapM hxs
      obtain ⟨y, hy⟩ := h x hx
      rw [hy] at he
      cases he

/-- Operations that agree on the members of two lists agree on the lists. -/
theorem mapM_congr_of_forall₂ {g : γ → Except ε β} {xs : List α} {zs : List γ}
    (h : List.Forall₂ (fun x z => f x = g z) xs zs) : xs.mapM f = zs.mapM g := by
  induction h with
  | nil => rfl
  | cons hhead _ ih => rw [List.mapM_cons, List.mapM_cons, hhead, ih]

end Each

namespace Store

/-- The document of a content, given those of its values. -/
def document (s : Store) (documents : List Json) : Json :=
  if s.isList then .array documents else .object (s.keys.zip documents)

/-- A content is written by writing its values in their order. -/
theorem storeToJson_eq (toJson : Value → Except Fault Json) (s : Store) :
    Model.storeToJson toJson s = s.document <$> s.values.mapM toJson := by
  cases s with
  | list items =>
    show (items.mapM toJson >>= fun documents => pure (Json.array documents)) = _
    rw [bind_pure_comp]
    rfl
  | map entries =>
    have hmembers (es : List (String × Value)) :
        (es.mapM fun e => toJson e.2 >>= fun document => pure (e.1, document)) =
          ((es.map (·.1)).zip ·) <$> (es.map (·.2)).mapM toJson := by
      induction es with
      | nil => rfl
      | cons e es ih =>
        rw [List.mapM_cons, ih, List.map_cons, List.map_cons, List.mapM_cons]
        simp only [map_eq_pure_bind, bind_assoc, pure_bind, List.zip_cons_cons]
    show ((entries.entries.mapM fun e => toJson e.2 >>= fun document => pure (e.1, document)) >>=
      fun members => pure (Json.object members)) = _
    rw [hmembers, bind_pure_comp, Functor.map_map]
    rfl

end Store

namespace Model

variable {m : Model} {levels : Nat} {o q : ObjectId} {v : Value}

/-- Whether no chain of objects that starts at a value, each in the one before, is longer than
`levels`. -/
def Shallow (m : Model) (levels : Nat) (v : Value) : Prop :=
  ∀ o chain, v = .object o → (o :: chain).IsChain m.Contains → (o :: chain).length ≤ levels

/-- What is inside an object is as deep as the longest chain of objects is long. -/
theorem shallow_object_iff : m.Shallow levels (.object o) ↔ m.Within levels o := by
  induction levels generalizing o with
  | zero =>
    constructor
    · intro h
      exact absurd (h o [] rfl (List.isChain_singleton o)) (by simp)
    · intro h
      exact h.elim
  | succ levels ih =>
    constructor
    · intro h q hq
      refine ih.1 fun p chain hp hchain => ?_
      obtain rfl := Value.object.inj hp
      exact Nat.le_of_succ_le_succ (h o (q :: chain) rfl (List.isChain_cons_cons.2 ⟨hq, hchain⟩))
    · intro h p chain hp hchain
      obtain rfl := Value.object.inj hp
      cases chain with
      | nil => exact Nat.le_add_left 1 levels
      | cons q chain =>
        obtain ⟨hq, hchain⟩ := List.isChain_cons_cons.1 hchain
        exact Nat.succ_le_succ (ih.2 (h q hq) q chain rfl hchain)

/-- Only an object can be nested too deep. -/
theorem shallow_of_object?_eq_none (h : v.object? = none) : m.Shallow levels v := by
  rintro o chain rfl
  cases h

/-- A value is not too deep if, provided that it is an object, what is inside it is not. -/
theorem shallow_iff : m.Shallow levels v ↔ ∀ q, v = .object q → m.Within levels q := by
  constructor
  · rintro h q rfl
    exact shallow_object_iff.1 h
  · rintro h o chain rfl
    exact shallow_object_iff.2 (h o rfl) o chain rfl

/-- An object is as deep as the deepest of its values, and one level more. -/
theorem shallow_succ_iff :
    m.Shallow (levels + 1) (.object o) ↔ ∀ u ∈ (m.store o).values, m.Shallow levels u := by
  rw [shallow_object_iff]
  constructor
  · intro h u hu
    cases hobject : u.object? with
    | none => exact shallow_of_object?_eq_none hobject
    | some q =>
      obtain rfl := Value.object?_eq_some_iff.1 hobject
      exact shallow_object_iff.2 (h q hu)
  · intro h q hq
    exact shallow_object_iff.1 (h _ hq)

/-- What leads to an object that is inside itself is too deep for any limit. -/
theorem not_shallow_of_cycle (hreach : m.Reaches o q) (hcycle : TransGen m.Contains q q) :
    ¬ m.Shallow levels (.object o) := by
  rw [shallow_object_iff]
  intro h
  induction hreach using ReflTransGen.head_induction_on generalizing levels with
  | refl => exact h.acyclic hcycle
  | head hfirst _ ih =>
    cases levels with
    | zero => exact h
    | succ levels => exact ih (h _ hfirst)

/-! ## Writing -/

/-- Writing fails only because of the nesting. -/
theorem toJsonWithin_error {fault : Fault} (h : m.toJsonWithin levels v = .error fault) :
    fault = .nestedData := by
  induction levels generalizing v with
  | zero =>
    cases v with
    | object => exact (Except.error.inj h).symm
    | null | bool | number | text | function => cases h
  | succ levels ih =>
    cases v with
    | object o =>
      unfold toJsonWithin at h
      rw [Store.storeToJson_eq] at h
      cases hvalues : (m.store o).values.mapM (m.toJsonWithin levels) with
      | ok =>
        rw [hvalues] at h
        cases h
      | error fault' =>
        rw [hvalues] at h
        obtain rfl := Except.error.inj h
        obtain ⟨u, _, hu⟩ := exists_error_of_mapM hvalues
        exact ih hu
    | null | bool | number | text | function => cases h

/-- What is written of an object is written of its values, one level further in. -/
theorem toJsonWithin_object {j : Json} :
    m.toJsonWithin (levels + 1) (.object o) = .ok j ↔
      ∃ documents, (m.store o).values.mapM (m.toJsonWithin levels) = .ok documents ∧
        (m.store o).document documents = j := by
  unfold toJsonWithin
  rw [Store.storeToJson_eq]
  cases (m.store o).values.mapM (m.toJsonWithin levels) with
  | error fault =>
    constructor
    · intro h
      cases h
    · rintro ⟨_, h, _⟩
      cases h
  | ok documents =>
    constructor
    · intro h
      exact ⟨documents, rfl, Except.ok.inj h⟩
    · rintro ⟨_, h, rfl⟩
      cases h
      rfl

/-- A value can be written exactly if it is not nested too deep. -/
theorem toJsonWithin_ok_iff :
    (∃ j, m.toJsonWithin levels v = .ok j) ↔ m.Shallow levels v := by
  induction levels generalizing v with
  | zero =>
    cases v with
    | object o =>
      constructor
      · rintro ⟨j, h⟩
        cases h
      · intro h
        exact (shallow_object_iff.1 h).elim
    | null | bool | number | text | function =>
      exact ⟨fun _ => shallow_of_object?_eq_none rfl, fun _ => ⟨_, rfl⟩⟩
  | succ levels ih =>
    cases v with
    | object o =>
      rw [shallow_succ_iff]
      calc (∃ j, m.toJsonWithin (levels + 1) (.object o) = .ok j)
          ↔ ∃ documents, (m.store o).values.mapM (m.toJsonWithin levels) = .ok documents := by
            constructor
            · rintro ⟨j, h⟩
              obtain ⟨documents, hdocuments, _⟩ := toJsonWithin_object.1 h
              exact ⟨documents, hdocuments⟩
            · rintro ⟨documents, h⟩
              exact ⟨_, toJsonWithin_object.2 ⟨documents, h, rfl⟩⟩
        _ ↔ ∀ u ∈ (m.store o).values, m.Shallow levels u := by
            rw [exists_mapM_ok_iff]
            exact forall₂_congr fun u _ => ih
    | null | bool | number | text | function =>
      exact ⟨fun _ => shallow_of_object?_eq_none rfl, fun _ => ⟨_, rfl⟩⟩

/-- A value that cannot be written is nested too deep. -/
theorem toJson_eq_error_iff : m.toJson v = .error .nestedData ↔ ¬ m.Shallow maxDepth v := by
  rw [← toJsonWithin_ok_iff]
  unfold toJson
  cases h : m.toJsonWithin maxDepth v with
  | ok j => simp
  | error fault =>
    rw [toJsonWithin_error h]
    simp

end Model

end LiveScope
