import LiveScope.Expr.Fields
import LiveScope.Proofs.Dict
import LiveScope.Proofs.Expr.Evaluation
import LiveScope.Proofs.Expr.Stacks

/-!
# Every reference of a parsed formula is one of its fields

The fields of an expression are sorted by their texts, each text once. Two fields of a parsed
expression with one text are the same, because a name that was read from a source has no sigils left
(`ScopedName.Stripped`), and so no reference is lost.
-/

namespace LiveScope

namespace ScopedName

/-- Whether a name has no sigils left. -/
def Stripped (n : ScopedName) : Prop := n.name.toList.head? ≠ some '$'

/-- A name that was read from a text has no sigils left. -/
theorem stripped_ofString (s : String) : (ofString s).Stripped := by
  intro h
  have hhead := List.head?_dropWhile_not (· == '$') s.toList
  have hname : (ofString s).name.toList = s.toList.dropWhile (· == '$') := by
    unfold ofString
    exact String.toList_ofList
  rw [← hname, h] at hhead
  exact absurd hhead (by decide)

/-- A text that is split is written again as it was. -/
theorem text_ofString (s : String) : (ofString s).text = s := by
  have hsigils : List.replicate (s.toList.takeWhile (· == '$')).length '$' =
      s.toList.takeWhile (· == '$') := by
    refine (List.eq_replicate_of_mem fun c hc => ?_).symm
    simpa using List.all_eq_true.1 List.all_takeWhile c hc
  unfold ofString text
  rw [hsigils, ← String.ofList_append, List.takeWhile_append_dropWhile, String.ofList_toList]

/-- Writing a name that has no sigils left with some and splitting it again gives it back. -/
theorem ofString_text {n : ScopedName} (h : n.Stripped) : ofString n.text = n := by
  obtain ⟨sigils, name⟩ := n
  have hchars : (text ⟨sigils, name⟩).toList = List.replicate sigils '$' ++ name.toList := by
    unfold text
    rw [String.toList_append, String.toList_ofList]
  have hall : ∀ c ∈ List.replicate sigils '$', (c == '$') = true := by
    intro c hc
    rw [List.eq_of_mem_replicate hc]
    rfl
  have hnone : name.toList.takeWhile (· == '$') = [] ∧
      name.toList.dropWhile (· == '$') = name.toList := by
    cases hname : name.toList with
    | nil => exact ⟨rfl, rfl⟩
    | cons c cs =>
      have hc : c ≠ '$' := by
        rintro rfl
        refine h ?_
        show name.toList.head? = _
        rw [hname]
        rfl
      rw [List.takeWhile_cons_of_neg (by simpa using hc),
        List.dropWhile_cons_of_neg (by simpa using hc)]
      exact ⟨rfl, rfl⟩
  unfold ofString
  rw [hchars, List.takeWhile_append_of_pos hall, List.dropWhile_append_of_pos hall, hnone.1,
    hnone.2, List.append_nil, List.length_replicate, String.ofList_toList]

/-- Names without sigils left are determined by their texts. -/
theorem eq_of_text {a b : ScopedName} (ha : a.Stripped) (hb : b.Stripped) (h : a.text = b.text) :
    a = b := by
  obtain ⟨i, a⟩ := a
  obtain ⟨j, b⟩ := b
  have hchars : List.replicate i '$' ++ a.toList = List.replicate j '$' ++ b.toList := by
    have := congrArg String.toList h
    simpa [text, String.toList_append] using this
  -- The sigils are taken off one by one from both texts.
  have htake : i = j ∧ a.toList = b.toList := by
    clear h
    induction i generalizing j with
    | zero =>
      cases j with
      | zero => exact ⟨rfl, hchars⟩
      | succ j =>
        refine absurd ?_ ha
        show a.toList.head? = _
        have : a.toList = '$' :: (List.replicate j '$' ++ b.toList) := hchars
        rw [this]
        rfl
    | succ i ih =>
      cases j with
      | zero =>
        refine absurd ?_ hb
        show b.toList.head? = _
        have : '$' :: (List.replicate i '$' ++ a.toList) = b.toList := hchars
        rw [← this]
        rfl
      | succ j =>
        obtain ⟨rfl, heq⟩ := ih ha j hb (List.cons.inj hchars).2
        exact ⟨rfl, heq⟩
  obtain ⟨rfl, heq⟩ := htake
  rw [String.toList_inj.1 heq]

/-- Sorting names without sigils left loses none of them. -/
theorem mem_sorted {names : List ScopedName} (hstripped : ∀ n ∈ names, n.Stripped)
    {n : ScopedName} (hn : n ∈ names) : n ∈ sorted names := by
  have hagree : ∀ e ∈ names.map fun n => (n.text, n), e.1 = n.text → e.2 = n := by
    intro e he hkey
    obtain ⟨n', hn', rfl⟩ := List.mem_map.1 he
    exact eq_of_text (hstripped n' hn') (hstripped n hn) hkey
  have hfind := Dict.find?_ofList hagree (List.mem_map.2 ⟨n, hn, rfl⟩)
  obtain ⟨xs, ys, heq, _⟩ := List.lookup_eq_some_iff.1 hfind
  refine List.mem_map.2 ⟨(n.text, n), ?_, rfl⟩
  rw [heq]
  exact List.mem_append_right _ List.mem_cons_self

end ScopedName

/-- Whether no reference in some trees has sigils left in its name. -/
def Expr.AllStripped (es : List Expr) : Prop := ∀ e ∈ es, ∀ n ∈ e.names, n.Stripped

namespace Parser

open LiveScope.Expr

variable {es es' : List Expr} {e : Expr}

/-- One more tree is put on a stack. -/
theorem allStripped_cons (he : ∀ n ∈ e.names, n.Stripped) (hes : AllStripped es) :
    AllStripped (e :: es) :=
  List.forall_mem_cons.2 ⟨he, hes⟩

/-- What is taken off a stack was on it. -/
theorem allStripped_of_pop (hes : AllStripped es) (h : pop es = .ok (e, es')) :
    (∀ n ∈ e.names, n.Stripped) ∧ AllStripped es' := by
  cases es with
  | nil => cases h
  | cons =>
    obtain ⟨rfl, rfl⟩ := Prod.mk.inj (Except.ok.inj h)
    exact List.forall_mem_cons.1 hes

/-- Applying an operator keeps the references of its operands. -/
theorem allStripped_of_apply {p : Pending} (hes : AllStripped es) (h : apply es p = .ok es') :
    AllStripped es' := by
  cases p with
  | opened => cases h
  | unary op token =>
    obtain ⟨⟨e, rest⟩, hpop, rfl⟩ := bind_pure_eq_ok_iff.1 h
    obtain ⟨he, hrest⟩ := allStripped_of_pop hes hpop
    exact allStripped_cons he hrest
  | binary op token =>
    obtain ⟨⟨r, rest⟩, hpop, h⟩ := bind_eq_ok_iff.1 h
    obtain ⟨⟨l, rest'⟩, hpop', h⟩ := bind_eq_ok_iff.1 h
    dsimp only at h
    split at h
    · cases h
    obtain rfl := Except.ok.inj h
    obtain ⟨hr, hrest⟩ := allStripped_of_pop hes hpop
    obtain ⟨hl, hrest'⟩ := allStripped_of_pop hrest hpop'
    exact allStripped_cons (List.forall_mem_append.2 ⟨hl, hr⟩) hrest'

/-- Applying several operators keeps the references of their operands. -/
theorem allStripped_of_applyWhile {condition : Pending → Bool} {ps ps' : List Pending}
    (hes : AllStripped es) (h : applyWhile condition es ps = .ok (es', ps')) :
    AllStripped es' := by
  induction ps generalizing es with
  | nil =>
    obtain ⟨rfl, _⟩ := Prod.mk.inj (Except.ok.inj h)
    exact hes
  | cons p ps ih =>
    unfold applyWhile at h
    split at h
    · obtain ⟨es₁, happly, h⟩ := bind_eq_ok_iff.1 h
      exact ih (allStripped_of_apply hes happly) h
    · obtain ⟨rfl, _⟩ := Prod.mk.inj (Except.ok.inj h)
      exact hes

/-- Reading a prefix operator keeps the complete operands. -/
theorem allStripped_of_addUnary {s s' : State} {t : Token} (hs : AllStripped s.operands)
    (h : s.addUnary t = .ok s') : AllStripped s'.operands := by
  obtain ⟨op, _, h⟩ := bind_eq_ok_iff.1 h
  rwa [← Except.ok.inj h]

/-- Reading an infix operator applies others. -/
theorem allStripped_of_addBinary {s s' : State} {t : Token} (hs : AllStripped s.operands)
    (h : s.addBinary t = .ok s') : AllStripped s'.operands := by
  unfold State.addBinary at h
  split at h
  · cases h
  obtain ⟨op, _, h⟩ := bind_eq_ok_iff.1 h
  obtain ⟨⟨es, ps⟩, happly, h⟩ := bind_eq_ok_iff.1 h
  rw [← Except.ok.inj h]
  exact allStripped_of_applyWhile hs happly

/-- Reading a closing parenthesis applies operators and groups what comes out. -/
theorem allStripped_of_close {s s' : State} {t : Token} (hs : AllStripped s.operands)
    (h : s.close t = .ok s') : AllStripped s'.operands := by
  unfold State.close at h
  split at h
  · cases h
  split at h
  · cases h
  obtain ⟨⟨es, ps⟩, happly, h⟩ := bind_eq_ok_iff.1 h
  obtain ⟨⟨e, rest⟩, hpop, h⟩ := bind_eq_ok_iff.1 h
  rw [← Except.ok.inj h]
  obtain ⟨he, hrest⟩ := allStripped_of_pop (allStripped_of_applyWhile hs happly) hpop
  exact allStripped_cons he hrest

/-- Reading one token brings in a reference that is read off it, or one of an interpolation. -/
theorem allStripped_of_step {nested : Token → Except Fault Expr}
    (hnested : ∀ t e, nested t = .ok e → ∀ n ∈ e.names, n.Stripped) {s s' : State} {t : Token}
    (hs : AllStripped s.operands) (h : State.step nested s t = .ok s') :
    AllStripped s'.operands := by
  have checked {f : Unit → Except Fault State} (h : s.checkOperand t >>= f = .ok s') :
      f () = .ok s' := by
    obtain ⟨_, _, h⟩ := bind_eq_ok_iff.1 h
    exact h
  unfold State.step at h
  cases hk : t.kind <;> rw [hk] at h
  case space => rwa [← Except.ok.inj h]
  case openParen => rwa [← Except.ok.inj (checked h)]
  case closeParen => exact allStripped_of_close hs h
  case interpolation =>
    obtain ⟨e, he, h⟩ := bind_eq_ok_iff.1 (checked h)
    rw [← Except.ok.inj h]
    exact allStripped_cons (hnested t e he) hs
  case reference =>
    rw [← Except.ok.inj (checked h)]
    refine allStripped_cons (fun n hn => ?_) hs
    obtain rfl := List.mem_singleton.1 hn
    exact ScopedName.stripped_ofString t.src
  case property =>
    rw [← Except.ok.inj (checked h)]
    exact allStripped_cons (fun _ hn => by cases hn) hs
  case literal =>
    obtain ⟨e, he, h⟩ := bind_eq_ok_iff.1 (checked h)
    obtain ⟨_, rfl⟩ := Token.ofLiteral_eq_literal he
    rw [← Except.ok.inj h]
    exact allStripped_cons (fun _ hn => by cases hn) hs
  case negation => exact allStripped_of_addUnary hs (checked h)
  case additive =>
    dsimp only at h
    split at h
    · exact allStripped_of_addUnary hs h
    · exact allStripped_of_addBinary hs h
  all_goals exact allStripped_of_addBinary hs h

/-- The references in the tree of any tokens have no sigils left. -/
theorem stripped_of_run {levels offset : Nat} {ts : List Token} (h : run levels offset ts = .ok e) :
    ∀ n ∈ e.names, n.Stripped := by
  induction levels generalizing offset ts e with
  | zero => cases h
  | succ levels ih =>
    rw [run_succ] at h
    obtain ⟨s, hfold, hfinish⟩ := bind_eq_ok_iff.1 h
    have hnested : ∀ t e, inner levels t = .ok e → ∀ n ∈ e.names, n.Stripped := by
      intro t e he
      obtain ⟨us, _, hrun⟩ := bind_eq_ok_iff.1 he
      exact ih hrun
    -- The trees on the stack are stripped after each token.
    have hs : AllStripped s.operands := by
      clear h hfinish
      have hempty : AllStripped (State.operands {}) := fun _ he => by cases he
      generalize ({} : State) = s₀ at hfold hempty
      induction ts generalizing s₀ with
      | nil => rwa [← Except.ok.inj hfold]
      | cons t ts ihts =>
        rw [List.foldlM_cons] at hfold
        obtain ⟨s₁, hstep, hfold⟩ := bind_eq_ok_iff.1 hfold
        exact ihts s₁ hfold (allStripped_of_step hnested hempty hstep)
    unfold State.finish at hfinish
    split at hfinish
    · cases hfinish
    split at hfinish
    · cases hfinish
    obtain ⟨⟨es, ps⟩, happly, hfinish⟩ := bind_eq_ok_iff.1 hfinish
    obtain ⟨⟨e', rest⟩, hpop, rfl⟩ := bind_pure_eq_ok_iff.1 hfinish
    exact (allStripped_of_pop (allStripped_of_applyWhile hs happly) hpop).1

end Parser

namespace Expr

/-- The references of a source have no sigils left. -/
theorem stripped_ofSource {src : String} {e : Expr} (h : ofSource src = .ok e) :
    ∀ n ∈ e.names, n.Stripped := by
  obtain ⟨ts, _, hparse⟩ := bind_eq_ok_iff.1 h
  exact Parser.stripped_of_run hparse

/-- The references of a template have no sigils left. -/
theorem stripped_ofTemplate {src : String} {e : Expr} (h : ofTemplate src = .ok e) :
    ∀ n ∈ e.names, n.Stripped := by
  obtain ⟨ts, _, hparse⟩ := bind_eq_ok_iff.1 h
  exact Parser.stripped_of_run hparse

/-- A reference with a name reads a field. -/
theorem mem_references {e : Expr} {n : ScopedName} (hn : n ∈ e.names) (hname : n.name ≠ "") :
    ⟨n.sigils - 1, n.name⟩ ∈ e.references := by
  induction e with
  | literal | property => cases hn
  | reference n' =>
    obtain rfl := List.mem_singleton.1 hn
    unfold references
    rw [ScopedName.field?_of_name hname]
    exact List.mem_singleton.2 rfl
  | unary _ _ ih => exact ih hn
  | binary _ _ _ ihl ihr =>
    unfold references
    rcases List.mem_append.1 hn with hn | hn
    · exact List.mem_append_left _ (ihl hn)
    · exact List.mem_append_right _ (ihr hn)

/-- A field is read by a reference. -/
theorem exists_name_of_mem_references {e : Expr} {field : ScopedName} (h : field ∈ e.references) :
    ∃ n ∈ e.names, field = ⟨n.sigils - 1, n.name⟩ := by
  induction e with
  | literal | property => cases h
  | reference n =>
    refine ⟨n, List.mem_singleton.2 rfl, ?_⟩
    unfold references ScopedName.field? at h
    split at h
    · cases h
    · exact List.mem_singleton.1 h
  | unary _ _ ih => exact ih h
  | binary _ _ _ ihl ihr =>
    unfold references at h
    rcases List.mem_append.1 h with h | h
    · obtain ⟨n, hn, heq⟩ := ihl h
      exact ⟨n, List.mem_append_left _ hn, heq⟩
    · obtain ⟨n, hn, heq⟩ := ihr h
      exact ⟨n, List.mem_append_right _ hn, heq⟩

/-- Every reference with a name is a field, if no reference has sigils left in its name. -/
theorem mem_fields {e : Expr} (hstripped : ∀ n ∈ e.names, n.Stripped) {n : ScopedName}
    (hn : n ∈ e.names) (hname : n.name ≠ "") : ⟨n.sigils - 1, n.name⟩ ∈ e.fields := by
  refine ScopedName.mem_sorted (fun field hfield => ?_) (mem_references hn hname)
  obtain ⟨n', hn', rfl⟩ := exists_name_of_mem_references hfield
  exact hstripped n' hn'

end Expr

end LiveScope
