import LiveScope.Proofs.Expr.Evaluation
import LiveScope.Proofs.Model.Climbing
import LiveScope.Proofs.Store
import LiveScope.Expr.Fields
import LiveScope.World.Dispatch
import Mathlib.Data.List.Perm.Subperm

/-!
# What a formula sees of a model

As long as the scopes that enclose one another from a formula's own are the same, every reference of
the formula reads one place: a name in one of these scopes. `Formula.valueAt` is the value of the
formula as read from these places, whatever encloses what at the moment, and `Formula.eval_eq`
says when it is what evaluation gives. `Formula.valueAt_congr` says which changes of a model do not
change it.
-/

namespace LiveScope

namespace Model

/-- Whether a set of objects has everything that is in one of them. -/
def Closed (m : Model) (inside : ObjectId → Prop) : Prop :=
  ∀ o, inside o → ∀ q, .object q ∈ (m.store o).values → inside q

/-- Whether a value is no list, or part of a set of objects. -/
def Settled (m : Model) (inside : ObjectId → Prop) (v : Value) : Prop :=
  ∀ q, v.object? = some q → inside q ∨ (m.store q).isList = false

variable {m m' : Model} {inside : ObjectId → Prop}

/-- What is in a closed set is settled. -/
theorem settled_get (h : m.Closed inside) {o : ObjectId} (ho : inside o) (key : String) :
    m.Settled inside (m.get o key) := by
  intro q hq
  have hget : (m.store o).get key = .object q := by
    unfold Value.object? at hq
    split at hq
    · obtain rfl := Option.some.inj hq
      assumption
    · cases hq
  exact .inl (h o ho q (Store.get_mem_values hget))

/-- Lists that are within one another, none of them twice, are no more than there are objects. -/
theorem length_le_size {path : List ObjectId} (hpath : path.Nodup)
    (hlists : ∀ o ∈ path, (m.store o).isList = true) : path.length ≤ m.objects.size := by
  have hsub : path ⊆ List.range m.objects.size := fun o ho =>
    List.mem_range.2 (lt_size_of_isList (hlists o ho))
  have hle := (List.Nodup.subperm hpath hsub).length_le
  rwa [List.length_range] at hle

/-- The text of what is in a closed set of objects depends on these alone, inside any lists of the
set, as long as no more lists are within one another than there are objects. -/
theorem textWithin_congr (hclosed : m.Closed inside)
    (hstore : ∀ o, inside o → m'.store o = m.store o) {fuel fuel' : Nat} {path : List ObjectId}
    (hpath : path.Nodup) (hlists : ∀ o ∈ path, inside o ∧ (m.store o).isList = true)
    (hfuel : fuel + path.length = m.objects.size + 1)
    (hfuel' : fuel' + path.length = m'.objects.size + 1) {v : Value}
    (hv : ∀ q, v.object? = some q → inside q) :
    m'.textWithin fuel' path v = m.textWithin fuel path v := by
  have hle := length_le_size hpath fun o ho => (hlists o ho).2
  have hle' : path.length ≤ m'.objects.size :=
    length_le_size hpath fun o ho => hstore o (hlists o ho).1 ▸ (hlists o ho).2
  induction fuel generalizing fuel' path v with
  | zero => omega
  | succ fuel ih =>
    obtain _ | fuel' := fuel'
    · omega
    cases v with
    | null | bool | number | text | function => rfl
    | object o =>
      have ho : inside o := hv o rfl
      unfold textWithin
      rw [hstore o ho]
      cases hs : m.store o with
      | map => rfl
      | list items =>
        dsimp only
        split
        · rfl
        · -- The list is new on the path, which therefore never gets longer than there are objects.
          rename_i hnew
          have hnot : o ∉ path := fun hmem => hnew (List.contains_iff_mem.2 hmem)
          have hpath' : (o :: path).Nodup := List.nodup_cons.2 ⟨hnot, hpath⟩
          have hlists' : ∀ q ∈ o :: path, inside q ∧ (m.store q).isList = true := by
            intro q hq
            rcases List.mem_cons.1 hq with rfl | hq
            · exact ⟨ho, by rw [hs]; rfl⟩
            · exact hlists q hq
          congr 1
          refine List.map_congr_left fun u hu => ?_
          refine ih hpath' hlists' (by rw [List.length_cons]; omega)
            (by rw [List.length_cons]; omega) (fun q hq => hclosed o ho q ?_)
            (length_le_size hpath' fun q hq => (hlists' q hq).2)
            (length_le_size hpath' fun q hq => hstore q (hlists' q hq).1 ▸ (hlists' q hq).2)
          rw [hs, ← Value.object?_eq_some_iff.1 hq]
          exact hu

/-- The text of what is in a closed set of objects depends on these alone. -/
theorem text_congr (hclosed : m.Closed inside) (hstore : ∀ o, inside o → m'.store o = m.store o)
    {v : Value} (hv : ∀ q, v.object? = some q → inside q) : m'.text v = m.text v :=
  textWithin_congr hclosed hstore .nil (fun _ h => by cases h) rfl rfl hv

/-- A map has the same text everywhere. -/
theorem text_of_map {o : ObjectId} (h : (m.store o).isList = false) :
    m.text (.object o) = "[object]" := by
  unfold text textWithin
  cases hs : m.store o with
  | map => rfl
  | list =>
    rw [hs] at h
    cases h

/-- The text of a settled value depends on the closed set and on what is a list. -/
theorem text_settled (hclosed : m.Closed inside)
    (hstore : ∀ o, inside o → m'.store o = m.store o)
    (hkind : ∀ o, (m'.store o).isList = (m.store o).isList) {v : Value}
    (hv : m.Settled inside v) : m'.text v = m.text v := by
  by_cases hin : ∀ q, v.object? = some q → inside q
  · exact text_congr hclosed hstore hin
  · push Not at hin
    obtain ⟨q, hq, hout⟩ := hin
    have hmap := (hv q hq).resolve_left hout
    obtain rfl := Value.object?_eq_some_iff.1 hq
    rw [text_of_map hmap, text_of_map ((hkind q).trans hmap)]

end Model

namespace Formula

variable {m m' : Model} {f : Formula} {outer : List ObjectId} {inside : ObjectId → Prop}

/-- The scope that a field of a formula belongs to, `outer` being the scopes that enclose the
formula's own. -/
def owner? (f : Formula) (outer : List ObjectId) (field : ScopedName) : Option ObjectId :=
  (f.scope :: outer)[field.sigils]?

/-- The value of a reference with a name, read from the scope that it belongs to. -/
def read (f : Formula) (outer : List ObjectId) (m : Model) (n : ScopedName) :
    Except Fault Value :=
  if maxDepth < n.sigils then .error (.deepVariable n.text)
  else match f.owner? outer ⟨n.sigils - 1, n.name⟩ with
    | some o => .ok (m.get o n.name)
    | none => .error (.noEnclosingScope n.text)

/-- The value of a formula, read from the scopes that its fields belong to. -/
def valueAt (f : Formula) (outer : List ObjectId) (m : Model) : Except Fault Value :=
  f.expr.evalBy m (f.read outer m) f.row

/-- Whether a formula's scope is alive and enclosed by `outer`, one by the next. -/
structure InScope (f : Formula) (outer : List ObjectId) (m : Model) : Prop where
  /-- The scope is alive. -/
  alive : m.isAlive f.scope = true
  /-- Each scope is enclosed by the next. -/
  encloses : List.IsChain (fun a b => m.enclosing? a = some b) (f.scope :: outer)

instance InScope.decidable (f : Formula) (outer : List ObjectId) (m : Model) :
    Decidable (f.InScope outer m) :=
  decidable_of_iff (m.isAlive f.scope = true ∧
    List.IsChain (fun a b => m.enclosing? a = some b) (f.scope :: outer))
    ⟨fun h => ⟨h.1, h.2⟩, fun h => ⟨h.1, h.2⟩⟩

/-- What the references of a formula need: all have names, and a scope to belong to. -/
structure Resolved (f : Formula) (outer : List ObjectId) : Prop where
  /-- All references have names. -/
  named : ∀ n ∈ f.expr.names, n.name ≠ ""
  /-- Each belongs to one of the scopes. -/
  owned : ∀ n ∈ f.expr.names, ∃ o, f.owner? outer ⟨n.sigils - 1, n.name⟩ = some o

/-- Whether a key of an object is a place that a reference of the formula reads. -/
def Field (f : Formula) (outer : List ObjectId) (o : ObjectId) (key : String) : Prop :=
  ∃ n ∈ f.expr.names, n.name = key ∧ f.owner? outer ⟨n.sigils - 1, n.name⟩ = some o

/-- A reference is looked up where the scope that it belongs to has it. -/
theorem lookup_eq_read (h : List.IsChain (fun a b => m.enclosing? a = some b) (f.scope :: outer))
    {n : ScopedName} (hname : n.name ≠ "") {o : ObjectId}
    (ho : f.owner? outer ⟨n.sigils - 1, n.name⟩ = some o) :
    m.lookup (.object f.scope) n = f.read outer m n := by
  unfold read
  rw [Model.lookup_eq m f.scope hname, Model.above_of_isChain h ho, ho]

/-- Evaluation gives the value read from the scopes. -/
theorem eval_eq (hres : f.Resolved outer)
    (h : List.IsChain (fun a b => m.enclosing? a = some b) (f.scope :: outer)) :
    f.expr.eval m (.object f.scope) f.row = f.valueAt outer m := by
  have hread : ∀ n ∈ f.expr.names,
      Expr.Agrees (fun _ => True) (f.read outer m n) (m.lookup (.object f.scope) n) := by
    intro n hn
    obtain ⟨o, ho⟩ := hres.owned n hn
    exact ⟨lookup_eq_read h (hres.named n hn) ho, fun _ _ => trivial⟩
  rw [Expr.eval_eq_evalBy]
  exact (Expr.evalBy_congr (fun _ => True) (fun _ _ => trivial) (fun _ _ => rfl)
    (fun _ => ⟨rfl, trivial⟩) f.expr hread).1

/-- The value of a formula does not change if its fields have the same values, the objects of its
row the same content, and no object becomes a list or ceases to be one. -/
theorem valueAt_congr (hclosed : m.Closed inside)
    (hrow : ∀ q, f.row.object? = some q → inside q)
    (hfields : ∀ o key, f.Field outer o key →
      m'.get o key = m.get o key ∧ m.Settled inside (m.get o key))
    (hstore : ∀ o, inside o → m'.store o = m.store o)
    (hkind : ∀ o, (m'.store o).isList = (m.store o).isList) :
    f.valueAt outer m' = f.valueAt outer m := by
  refine (Expr.evalBy_congr (m.Settled inside) ?_ ?_ ?_ f.expr ?_).1
  · intro v hv q hq
    rw [hv] at hq
    cases hq
  · exact fun v hv => Model.text_settled hclosed hstore hkind hv
  · intro name
    unfold Model.memberOf
    cases hq : f.row.object? with
    | none => exact ⟨rfl, fun q hq' => by cases hq'⟩
    | some q =>
      -- A member of the row is read from an object inside.
      have hin := hrow q hq
      refine ⟨?_, Model.settled_get hclosed hin name⟩
      show (m'.store q).get name = (m.store q).get name
      rw [hstore q hin]
  · intro n hn
    unfold read
    split
    · exact .error _
    · cases ho : f.owner? outer ⟨n.sigils - 1, n.name⟩ with
      | none => exact .error _
      | some o =>
        obtain ⟨hget, hsettled⟩ := hfields o n.name ⟨n, hn, rfl, ho⟩
        dsimp only
        rw [hget]
        exact .ok hsettled

end Formula

end LiveScope
