import LiveScope.Dict
import Mathlib.Data.List.Perm.Basic

/-!
# Lists of entries and maps made from them
-/

namespace LiveScope

/-- Entries in ascending order of their keys have different keys. -/
theorem Ascending.nodup_keys {α : Type} {entries : List (String × α)} (h : Ascending entries) :
    (entries.map (·.1)).Nodup := by
  refine List.pairwise_map.2 (h.imp fun hlt heq => ?_)
  rw [heq] at hlt
  exact String.lt_irrefl _ hlt

namespace Dict

variable {α : Type}

/-- Of entries that agree on the value at a key, the map has that value. -/
theorem find?_ofList {entries : List (String × α)} {key : String} {v : α}
    (hagree : ∀ e ∈ entries, e.1 = key → e.2 = v) (hmem : (key, v) ∈ entries) :
    (ofList entries).find? key = some v := by
  have hfold : ∀ (entries : List (String × α)) (d : Dict α),
      (∀ e ∈ entries, e.1 = key → e.2 = v) → ((key, v) ∈ entries ∨ d.find? key = some v) →
      (entries.foldl (fun d e => d.insert e.1 e.2) d).find? key = some v := by
    intro entries
    induction entries with
    | nil =>
      intro d _ h
      exact h.resolve_left List.not_mem_nil
    | cons e entries ih =>
      intro d hagree h
      refine ih _ (fun e' he' => hagree e' (List.mem_cons_of_mem _ he')) ?_
      rw [find?_insert]
      by_cases hkey : key = e.1
      · rw [if_pos hkey, hagree e List.mem_cons_self hkey.symm]
        exact .inr rfl
      · rw [if_neg hkey]
        refine h.imp_left fun hmem => (List.mem_cons.1 hmem).resolve_left fun heq => hkey ?_
        rw [← heq]
  exact hfold entries empty hagree (.inl hmem)

/-- The entries of a map are among those that it is made of. -/
theorem mem_entries_ofList {entries : List (String × α)} {e : String × α}
    (h : e ∈ (ofList entries).entries) : e ∈ entries := by
  have hfold : ∀ (entries : List (String × α)) (d : Dict α),
      e ∈ (entries.foldl (fun d e => d.insert e.1 e.2) d).entries →
        e ∈ d.entries ∨ e ∈ entries := by
    intro entries
    induction entries with
    | nil => exact fun _ => .inl
    | cons e' entries ih =>
      intro d h
      rcases ih _ h with h | h
      · refine (mem_insertEntry h).symm.imp_right ?_
        rintro rfl
        exact List.mem_cons_self
      · exact .inr (List.mem_cons_of_mem _ h)
  exact (hfold entries empty h).resolve_left List.not_mem_nil

/-- An entry with a new key is added to the others. -/
theorem insertEntry_perm {key : String} (value : α) {entries : List (String × α)}
    (h : key ∉ entries.map (·.1)) :
    (insertEntry key value entries).Perm ((key, value) :: entries) := by
  fun_induction insertEntry key value entries with
  | case1 => exact .refl _
  | case2 v rest => exact absurd List.mem_cons_self h
  | case3 => exact .refl _
  | case4 k v rest _ _ ih =>
    have hrest : key ∉ rest.map (·.1) := fun hmem => h (List.mem_cons_of_mem _ hmem)
    exact ((ih hrest).cons (k, v)).trans (.swap _ _ _)

/-- A map of entries with different keys has these entries. -/
theorem ofList_perm {entries : List (String × α)} (h : (entries.map (·.1)).Nodup) :
    (ofList entries).entries.Perm entries := by
  have hfold : ∀ (entries : List (String × α)) (d : Dict α),
      (d.entries.map (·.1) ++ entries.map (·.1)).Nodup →
      (entries.foldl (fun d e => d.insert e.1 e.2) d).entries.Perm (d.entries ++ entries) := by
    intro entries
    induction entries with
    | nil =>
      intro d _
      rw [List.append_nil]
      exact .refl _
    | cons e entries ih =>
      intro d h
      have hnew : e.1 ∉ d.entries.map (·.1) := fun hmem =>
        (List.nodup_append.1 h).2.2 _ hmem _ List.mem_cons_self rfl
      have hinsert : (d.insert e.1 e.2).entries.Perm (e :: d.entries) := insertEntry_perm e.2 hnew
      have hmove : (e :: d.entries ++ entries).Perm (d.entries ++ e :: entries) :=
        List.perm_middle.symm
      refine (ih (d.insert e.1 e.2) ?_).trans ((hinsert.append_right entries).trans hmove)
      have hkeys := (hinsert.append_right entries).trans hmove
      rw [← List.map_append]
      rw [← List.map_append] at h
      exact (hkeys.map _).nodup_iff.2 h
  exact hfold entries empty h

/-- To insert an entry and to change the values can be done in either order. -/
theorem map_insertEntry {β : Type} (f : α → β) (key : String) (value : α)
    (entries : List (String × α)) :
    (insertEntry key value entries).map (fun e => (e.1, f e.2)) =
      insertEntry key (f value) (entries.map fun e => (e.1, f e.2)) := by
  fun_induction insertEntry key value entries with
  | case1 => rfl
  | case2 v rest => simp [insertEntry]
  | case3 k v rest hne hlt => simp [insertEntry, hne, hlt]
  | case4 k v rest hne hlt ih => simp [insertEntry, hne, hlt, ih]

/-- To make a map of entries and to change the values can be done in either order. -/
theorem map_entries_ofList {β : Type} (f : α → β) (entries : List (String × α)) :
    (ofList entries).entries.map (fun e => (e.1, f e.2)) =
      (ofList (entries.map fun e => (e.1, f e.2))).entries := by
  have hfold : ∀ (entries : List (String × α)) (c : Dict α) (d : Dict β),
      c.entries.map (fun e => (e.1, f e.2)) = d.entries →
      (entries.foldl (fun d e => d.insert e.1 e.2) c).entries.map (fun e => (e.1, f e.2)) =
        ((entries.map fun e => (e.1, f e.2)).foldl (fun d e => d.insert e.1 e.2) d).entries := by
    intro entries
    induction entries with
    | nil =>
      intro c d h
      exact h
    | cons e entries ih =>
      intro c d h
      refine ih _ _ ?_
      show (insertEntry e.1 e.2 c.entries).map _ = insertEntry e.1 (f e.2) d.entries
      rw [map_insertEntry, h]
  exact hfold entries empty empty rfl

/-! ## What is found -/

variable {β : Type}

/-- To take out keys changes what is found at these only. -/
theorem lookup_filter_key (keep : String → Bool) (entries : List (String × α)) (k : String) :
    (entries.filter fun e => keep e.1).lookup k = if keep k then entries.lookup k else none := by
  induction entries with
  | nil => simp
  | cons e entries ih => grind [lookup_cons_ite]

/-- An entry that is found is there. -/
theorem mem_of_lookup {entries : List (String × α)} {key : String} {v : α}
    (h : entries.lookup key = some v) : (key, v) ∈ entries := by
  obtain ⟨pre, post, rfl, _⟩ := List.lookup_eq_some_iff.1 h
  exact List.mem_append_right pre List.mem_cons_self

/-- Where the keys are different, an entry that is there is found. -/
theorem lookup_of_mem {entries : List (String × α)} (hkeys : (entries.map (·.1)).Nodup)
    {key : String} {v : α} (h : (key, v) ∈ entries) : entries.lookup key = some v := by
  induction entries with
  | nil => cases h
  | cons e entries ih =>
    obtain ⟨k, u⟩ := e
    obtain ⟨hnew, hkeys⟩ := List.nodup_cons.1 hkeys
    rw [lookup_cons_ite]
    rcases List.mem_cons.1 h with heq | hmem
    · obtain ⟨rfl, rfl⟩ := Prod.mk.inj heq
      rw [if_pos rfl]
    · have hne : key ≠ k := fun heq => hnew (List.mem_map.2 ⟨_, hmem, heq⟩)
      rw [if_neg hne, ih hkeys hmem]

/-- The map of entries with different keys has at each key what is found there. -/
theorem lookup_ofList {entries : List (String × α)} (hkeys : (entries.map (·.1)).Nodup)
    (key : String) : (ofList entries).entries.lookup key = entries.lookup key := by
  have hperm := ofList_perm hkeys
  refine Option.ext fun v => ⟨fun h => ?_, fun h => ?_⟩
  · exact lookup_of_mem hkeys (hperm.mem_iff.1 (mem_of_lookup h))
  · exact lookup_of_mem ((hperm.map _).nodup_iff.2 hkeys) (hperm.mem_iff.2 (mem_of_lookup h))

/-- Where the keys are different, what is found among some of the entries is found among all. -/
theorem lookup_filterMap {entries : List (String × α)} (hkeys : (entries.map (·.1)).Nodup)
    (f : α → Option β) (key : String) :
    (entries.filterMap fun (k, v) => (f v).map (k, ·)).lookup key =
      (entries.lookup key).bind f := by
  induction entries with
  | nil => rfl
  | cons e entries ih =>
    obtain ⟨k, v⟩ := e
    obtain ⟨hnew, hkeys⟩ := List.nodup_cons.1 hkeys
    have hnone : entries.lookup k = none := by
      rw [List.lookup_eq_none_iff]
      intro e he
      have hne : k ≠ e.1 := fun heq => hnew (List.mem_map.2 ⟨e, he, heq.symm⟩)
      simpa using hne
    have hrest := ih hkeys
    rw [List.filterMap_cons, lookup_cons_ite]
    dsimp only
    by_cases hk : key = k
    · subst hk
      rw [if_pos rfl]
      cases hv : f v with
      | none =>
        rw [hnone] at hrest
        exact hrest.trans hv.symm
      | some u => exact (lookup_cons_ite _ _ _ _).trans ((if_pos rfl).trans hv.symm)
    · rw [if_neg hk]
      cases f v with
      | none => exact hrest
      | some u => exact (lookup_cons_ite _ _ _ _).trans ((if_neg hk).trans hrest)

end Dict

end LiveScope
