import LiveScope.Proofs.Deep.Patching

/-!
# Trees under a change of one object

When one object changes, every node for it is mended by itself, and there may be several nodes for
it, at different depths. None is below another, because nothing inside an object leads back to it
(`WatchTree.Mirrors.apart`). So what is done at one node leaves the others where they are, with what
is below them (`WatchTree.find?_modify`), and each is mended at the depth at which it was when the
tree still mirrored. Together the nodes decide whether what is inside the root is too deep after the
change: exactly if the new object is, at one of them (`WatchTree.Mirrors.within_iff`). And a node
can be mended exactly if the new object is not too deep there (`Model.mend_ok_iff`).
-/

namespace LiveScope

open Relation (TransGen)

namespace WatchTree

variable {o q : ObjectId} {w n n' : Nat} {depth depth' : Nat} {t s : WatchTree}
  {f : List (String × WatchTree) → List (String × WatchTree)}

/-- A node that a tree does not have is not found. -/
theorem find?_eq_none (h : (o, w) ∉ t.watchers) (depth : Nat) : t.find? o w depth = none := by
  cases hfind : t.find? o w depth with
  | none => rfl
  | some found => exact absurd (find?_spec hfind).1 h

/-- A node is found where it is found below the root, if no two nodes have one watcher. -/
theorem find?_of_below {o' : ObjectId} {w' : Nat} {children : List (String × WatchTree)}
    (hnodup : (node o' w' children).watchers.Nodup) {e : String × WatchTree} (he : e ∈ children)
    (h : e.2.find? o w (depth + 1) = some (depth', s)) :
    (node o' w' children).find? o w depth = some (depth', s) := by
  have hmem := (find?_spec h).1
  have hroot : ¬ (o' = o ∧ w' = w) := by
    rintro ⟨rfl, rfl⟩
    exact (nodup_below hnodup e he).2 hmem
  obtain ⟨pre, post, rfl⟩ := List.append_of_mem he
  rw [watchers_node, List.flatMap_append, List.flatMap_cons] at hnodup
  have hapart := (List.nodup_append.1 (List.nodup_cons.1 hnodup).2).2.2
  rw [find?_node, if_neg hroot, List.findSome?_eq_some_iff]
  refine ⟨pre, e, post, rfl, h, fun e' he' => find?_eq_none (fun hmem' => ?_) _⟩
  exact hapart _ (List.mem_flatMap.2 ⟨e', he', hmem'⟩) _ (List.mem_append_left _ hmem) rfl

/-- A node is found as before after a change of the children of another, if neither is below the
other and the change puts no such node there. -/
theorem find?_modify {u : Nat} (hnodup : t.watchers.Nodup)
    (hf : ∀ children, ∀ e ∈ f children, e ∈ children ∨ (q, u) ∉ e.2.watchers)
    (hfind : t.find? q u depth = some (depth', s)) (hs : (o, w) ∉ s.watchers)
    (hapart : ∀ depth'' s', t.find? o w depth = some (depth'', s') → (q, u) ∉ s'.watchers) :
    (t.modify o w f).find? q u depth = some (depth', s) := by
  induction t using induct generalizing depth with
  | node o' w' children ih =>
    have hmem := (find?_spec hfind).1
    by_cases hroot : o' = o ∧ w' = w
    · refine absurd hmem (hapart depth (node o' w' children) ?_)
      rw [find?_node, if_pos hroot]
    · rw [modify_node, if_neg hroot]
      rw [find?_node] at hfind ⊢
      split at hfind
      · rename_i hfound
        obtain ⟨rfl, rfl⟩ := Prod.mk.inj (Option.some.inj hfind)
        -- The changed node is not below this one, so that nothing changes here.
        have hbelow : ∀ e ∈ children, (o, w) ∉ e.2.watchers := fun e he hmem' => hs (by
          rw [watchers_node]
          exact List.mem_cons_of_mem _ (List.mem_flatMap.2 ⟨e, he, hmem'⟩))
        rw [if_pos hfound, map_modify_of_not_mem hbelow]
      · rename_i hother
        obtain ⟨pre, e, post, rfl, hfind, hpre⟩ := List.findSome?_eq_some_iff.1 hfind
        have he : e ∈ pre ++ e :: post := List.mem_append_right _ List.mem_cons_self
        rw [if_neg hother, List.map_append, List.map_cons, List.findSome?_eq_some_iff]
        refine ⟨_, _, _, rfl, ih e he (nodup_below hnodup e he).1 hfind fun depth'' s' hfound =>
          hapart depth'' s' (find?_of_below hnodup he hfound), fun e' he' => ?_⟩
        -- The trees before did not have the node, and do not get it.
        obtain ⟨e₁, he₁, rfl⟩ := List.mem_map.1 he'
        have hnone : (q, u) ∉ e₁.2.watchers := by
          intro hmem'
          obtain ⟨_, _, hfound⟩ := exists_find? hmem' (depth + 1)
          rw [hpre e₁ he₁] at hfound
          cases hfound
        refine find?_eq_none (fun hmem' => ?_) _
        refine forall_watchers_modify (P := (· ≠ (q, u))) (fun x hx heq => hnone (heq ▸ hx))
          (fun children' hchildren' e₂ he₂ x hx heq => ?_) _ hmem' rfl
        rcases hf children' e₂ he₂ with hold | hnew
        · exact hchildren' e₂ hold x hx heq
        · exact hnew (heq ▸ hx)

/-! ## Nodes for the object that changes -/

namespace Mirrors

variable {m m' : Model} {levels : Nat}

/-- A node of a tree that mirrors is for its object and mirrors, and what is inside the object fits
there. -/
theorem found (h : t.Mirrors m) (hwithin : m.Within levels t.object)
    (hfind : t.find? o n depth = some (depth', s)) :
    s.Mirrors m ∧ s.object = o ∧ s.watcher = n ∧
      ∃ left, depth' + left = depth + levels ∧ m.Within left o := by
  obtain ⟨_, hobject, hwatcher⟩ := find?_spec hfind
  have hfits : t.Fits m levels := h.fits (o := o) (fun _ _ => rfl) hwithin hwithin
  obtain ⟨left, hleft, hfits'⟩ := hfits.find? hfind
  exact ⟨Every.find? h hfind, hobject, hwatcher, left, hleft, hobject ▸ hfits'.root_spec⟩

/-- What is below a node that mirrors does not lead back to its object. -/
theorem not_reaches (h : s.Mirrors m) (hwithin : m.Within levels s.object)
    {e : String × WatchTree} (he : e ∈ s.children) : ¬ m.Reaches e.2.object s.object := by
  intro hback
  have hmem := Model.contains_iff.2 ⟨_, mem_members h.root_spec he⟩
  exact hwithin.acyclic (TransGen.head'_iff.2 ⟨_, hmem, hback⟩)

/-- No node for an object is below another one for it. -/
theorem apart (h : t.Mirrors m) (hwithin : m.Within levels t.object)
    (hfind : t.find? o n depth = some (depth', s)) (hne : n' ≠ n) : (o, n') ∉ s.watchers := by
  obtain ⟨hmirrors, rfl, rfl, left, _, hroot⟩ := h.found hwithin hfind
  intro hmem
  obtain ⟨o', w', children⟩ := s
  rw [watchers_node] at hmem
  rcases List.mem_cons.1 hmem with heq | hmem
  · exact hne (Prod.mk.inj heq).2
  · obtain ⟨e, he, hmem⟩ := List.mem_flatMap.1 hmem
    have hbelow : e.2.Mirrors m := hmirrors.below_spec e he
    exact hmirrors.not_reaches hroot he (hbelow.mem_watchers_iff.1 ⟨_, hmem⟩)

/-- What was in the object that changes is still not too deep. -/
theorem within_below (h : t.Mirrors m) (hwithin : m.Within levels t.object)
    (hstore : ∀ p, p ≠ o → m'.store p = m.store p)
    (hfind : t.find? o n 1 = some (depth, s)) :
    ∀ e ∈ s.children, m'.Within (levels - depth) e.2.object := by
  intro e he
  obtain ⟨hmirrors, rfl, rfl, left, hleft, hroot⟩ := h.found hwithin hfind
  cases left with
  | zero => exact hroot.elim
  | succ left =>
    have hdepth : levels - depth = left := by omega
    rw [hdepth]
    exact (hroot.of_mem (mem_members hmirrors.root_spec he)).of_changed hstore
      (hmirrors.not_reaches hroot he)

/-- If what a change of one object put into it is not too deep at any node for it, what is inside
the root is not too deep after the change. -/
theorem within {v : Value} (h : t.Mirrors m) (hnodup : t.watchers.Nodup)
    (hwithin : m.Within levels t.object) (hstore : ∀ p, p ≠ o → m'.store p = m.store p)
    (hcontains : ∀ p, m'.Contains o p → m.Contains o p ∨ v = .object p)
    (hnodes : ∀ n depth' s, t.find? o n depth = some (depth', s) →
      ∀ p, v = .object p → m'.Within (depth + levels - (depth' + 1)) p) :
    m'.Within levels t.object := by
  induction h generalizing levels depth with
  | node root below ih =>
    rename_i o' w' children
    cases levels with
    | zero => exact hwithin
    | succ levels =>
      have hmirrors : (node o' w' children).Mirrors m := .node root below
      -- What was in the root before is the object of a tree below it.
      have hchild {p : ObjectId} (hp : m.Contains o' p) : ∃ e ∈ children, e.2.object = p := by
        obtain ⟨key, hkey⟩ := Model.contains_iff.1 hp
        rw [← root] at hkey
        obtain ⟨e, he, heq⟩ := List.mem_map.1 hkey
        exact ⟨e, he, (Prod.mk.inj heq).2⟩
      intro p hp
      by_cases ho : o' = o
      · subst ho
        rcases hcontains p hp with hold | hnew
        · obtain ⟨e, he, rfl⟩ := hchild hold
          exact (hwithin _ hold).of_changed hstore (hmirrors.not_reaches hwithin he)
        · have hfound : (node o' w' children).find? o' w' depth =
              some (depth, node o' w' children) := by
            rw [find?_node, if_pos ⟨rfl, rfl⟩]
          have hroom := hnodes _ _ _ hfound p hnew
          rwa [show depth + (levels + 1) - (depth + 1) = levels by omega] at hroom
      · have hold : m.Contains o' p := by
          have hsame := hstore o' ho
          unfold Model.Contains
          rw [← hsame]
          exact hp
        obtain ⟨e, he, rfl⟩ := hchild hold
        have hbelow (n depth' : Nat) (s : WatchTree)
            (hfind : e.2.find? o n (depth + 1) = some (depth', s)) (p : ObjectId)
            (hp : v = .object p) : m'.Within (depth + 1 + levels - (depth' + 1)) p := by
          have hroom := hnodes n depth' s (find?_of_below hnodup he hfind) p hp
          rwa [Nat.add_right_comm, Nat.add_assoc]
        exact ih e he (nodup_below hnodup e he).1 (hwithin _ hold) hbelow

/-- After a change of one object what is inside the root is not too deep exactly if what the change
put into the object is not too deep at any node for it. -/
theorem within_iff {v : Value} (h : t.Mirrors m) (hnodup : t.watchers.Nodup)
    (hwithin : m.Within levels t.object) (hstore : ∀ p, p ≠ o → m'.store p = m.store p)
    (hcontains : ∀ p, m'.Contains o p → m.Contains o p ∨ v = .object p)
    (hnew : ∀ p, v = .object p → m'.Contains o p) :
    m'.Within levels t.object ↔ ∀ n depth s, t.find? o n 1 = some (depth, s) →
      ∀ p, v = .object p → m'.Within (levels - depth) p := by
  constructor
  · intro hafter n depth s hfind p hp
    obtain ⟨left, hleft, hfits⟩ := (h.fits hstore hwithin hafter).find? hfind
    have hroot := hfits.root_spec
    rw [(find?_spec hfind).2.1] at hroot
    cases left with
    | zero => exact hroot.elim
    | succ left =>
      rw [show levels - depth = left by omega]
      exact hroot p (hnew p hp)
  · intro hnodes
    have hrooms (n depth : Nat) (s : WatchTree) (hfind : t.find? o n 1 = some (depth, s))
        (p : ObjectId) (hp : v = .object p) : m'.Within (1 + levels - (depth + 1)) p := by
      rw [show 1 + levels - (depth + 1) = levels - depth by omega]
      exact hnodes n depth s hfind p hp
    exact h.within hnodup hwithin hstore hcontains hrooms

end Mirrors

end WatchTree

/-! ## Moving the tree and mending one of its nodes -/

namespace Model

variable {m m' : Model} {d : DeepId} {o q : ObjectId} {n depth : Nat} {key : String} {v : Value}
  {t node : WatchTree}

/-- Whether a change of what is below a node takes trees away and puts in only such with new
watchers. -/
def Grafts (m : Model) (f : List (String × WatchTree) → List (String × WatchTree)) : Prop :=
  ∀ children, ∀ e ∈ f children, e ∈ children ∨ ∀ x ∈ e.2.watchers, m.lastIdOf x.1 < x.2

/-- A deep watch, of which what it watches is not too deep, can be moved exactly to what is not. -/
theorem retarget_ok_iff (hwhole : m.Whole) (hv : ∀ q, v = .object q → q < m.objects.size)
    (hroot : ∀ t ∈ m.tree? d, m.Within maxDepth t.object) :
    (retarget d v m).1 = .ok () ↔ ∀ q, v = .object q → m.Within maxDepth q := by
  constructor
  · rintro hdone q rfl
    have hret : retarget d (.object q) m = (.ok (), (retarget d (.object q) m).2) :=
      Prod.ext hdone rfl
    exact within_of_retarget hwhole (hv q rfl) hroot hret
  · intro hwithin
    obtain ⟨m', hret⟩ := Within.retargets (d := d) hwhole fun q hq => ⟨hv q hq, hwithin q hq⟩
    rw [hret]

/-- A node can be mended exactly if the new object is not too deep there. -/
theorem mend_ok_iff (hwhole : m.Whole) (halive : m.isDeepAlive d = true) (ht : m.tree? d = some t)
    (hfind : t.find? o n 1 = some (depth, node)) (hv : ∀ q, v = .object q → q < m.objects.size)
    (hlength : key = Store.lengthKey ∧ (m.store o).isList → v.object? = none)
    (hold : ∀ e ∈ node.children, m.Within (maxDepth - depth) e.2.object) :
    (mend d o n key v m).1 = .ok () ↔ ∀ q, v = .object q → m.Within (maxDepth - depth) q := by
  have hnothing (hnone : v.object? = none) (q : ObjectId) (hq : v = .object q) :
      m.Within (maxDepth - depth) q := by
    rw [hq] at hnone
    cases hnone
  -- The tree and the node of each case are those that were found.
  have hsame {t' node' : WatchTree} {depth' : Nat} (ht' : m.tree? d = some t')
      (hfind' : t'.find? o n 1 = some (depth', node')) :
      t' = t ∧ depth' = depth ∧ node' = node := by
    obtain rfl := Option.some.inj (ht'.symm.trans ht)
    exact ⟨rfl, Prod.mk.inj (Option.some.inj (hfind'.symm.trans hfind))⟩
  cases hmend : mend d o n key v m with
  | mk res m' =>
    cases mended_of_mend hmend with
    | absent hnone =>
      have hfound := hnone halive
      rw [ht, Option.bind_some, hfind] at hfound
      cases hfound
    | shortened _ _ hlist => exact iff_of_true rfl (hnothing (hlength hlist))
    | unchanged ht' hfind' _ hchild =>
      obtain ⟨rfl, rfl, rfl⟩ := hsame ht' hfind'
      refine iff_of_true rfl fun q hq => ?_
      rw [hq] at hchild
      obtain ⟨child, hlookup, rfl⟩ := Option.map_eq_some_iff.1 hchild
      exact hold _ (Dict.mem_of_lookup hlookup)
    | removed _ _ _ hvalue => exact iff_of_true rfl (hnothing hvalue)
    | @refused t' _ _ child _ _ ht' hfind' _ hvalue hattach =>
      obtain ⟨rfl, rfl, rfl⟩ := hsame ht' hfind'
      refine iff_of_false nofun fun hwithin => ?_
      obtain ⟨tree, m₂, hbuilt⟩ := (hwithin child hvalue).attaches (d := d) hwhole (hv child hvalue)
        (swapped_cut m d t' o n _ _).rewatches
      rw [hbuilt] at hattach
      cases hattach
    | @replaced t' _ _ _ child _ ht' hfind' _ hvalue hattach =>
      obtain ⟨rfl, rfl, rfl⟩ := hsame ht' hfind'
      refine iff_of_true rfl fun q hq => ?_
      obtain rfl := Value.object.inj (hvalue.symm.trans hq)
      exact (swapped_cut m d t' o n _ _).rewatches.within_of_attach hwhole (hv child hvalue) hattach

/-- To mend a tree changes at most what is below one node. -/
theorem grafts_of_mend (hwhole : m.Whole) (ht : m.tree? d = some t)
    (hv : ∀ q, v = .object q → q < m.objects.size) (hmend : mend d o n key v m = (.ok (), m')) :
    m' = m ∨ ∃ f, m'.tree? d = some (t.modify o n f) ∧ m.Grafts f := by
  cases mended_of_mend hmend with
  | absent => exact .inl rfl
  | unchanged => exact .inl rfl
  | shortened ht' =>
    obtain rfl := Option.some.inj (ht'.symm.trans ht)
    exact .inr ⟨_, (tree?_cut ht o n _ _ d).trans (if_pos rfl), fun children e he =>
      .inl (mem_of_mem_pastEnd (.inr he))⟩
  | removed ht' =>
    obtain rfl := Option.some.inj (ht'.symm.trans ht)
    exact .inr ⟨_, (tree?_cut ht o n _ _ d).trans (if_pos rfl), fun children e he =>
      .inl (List.mem_filter.1 he).1⟩
  | @replaced t' _ new _ child _ ht' _ _ hvalue hattach =>
    obtain rfl := Option.some.inj (ht'.symm.trans ht)
    obtain ⟨hswapped, hdeeps, _⟩ :=
      (swapped_cut m d t' o n _ _).attach_of_ok hwhole (hv child hvalue) hattach
    refine .inr ⟨_, (tree?_replaced ht hdeeps new d).trans (if_pos rfl), fun children e he => ?_⟩
    rcases Dict.mem_insertEntry he with rfl | he
    · exact .inr fun x hx => (hswapped.fresh x hx).1
    · exact .inl (List.mem_filter.1 he).1

end Model

end LiveScope
