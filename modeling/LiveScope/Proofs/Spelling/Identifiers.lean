import LiveScope.Proofs.Model.Targets
import LiveScope.Proofs.Row.Demands
import LiveScope.Proofs.Store.Shapes
import LiveScope.Proofs.World.Dispatching

/-!
# Spellings of a subscription

A connection is written as its key, a colon and its number. A key may have colons of its own, so a
text is read by its last one (`SubscriptionId.ofText_split`). What follows it may have a plus and
superfluous zeros in front, which the written form has not: several texts are read as one
subscription, and one of these is its written form (`SubscriptionId.text_eq_iff`). What is written
is read back as it was, so that in every run a handler can be removed by its text, and no other
handler is (`SubscriptionId.ofText_written`).
-/

namespace LiveScope

namespace SubscriptionId

/-! ## Numbers -/

/-- Whether a text spells a number: digits, at least one, after an optional plus. -/
def SpellsNumber (part : String) (n : Nat) : Prop :=
  ∃ digits, (part = digits ∨ part = "+" ++ digits) ∧ Store.Spells digits n

/-- Whether a number is spelled without a plus and without a superfluous zero. -/
def Plain (part : String) : Prop :=
  '+' ∉ part.toList ∧ (part.toList.head? = some '0' → part = "0")

/-- What is left of a number when a plus in front is taken off. -/
def unsigned : List Char → List Char
  | '+' :: ds => ds
  | ds => ds

/-- A number is read like the index of a list, after the plus. -/
theorem seq?_eq (cs : List Char) : seq? cs = Store.index? (String.ofList (unsigned cs)) := by
  have hdigits : (String.ofList (unsigned cs)).toList = unsigned cs := String.toList_ofList
  unfold Store.index?
  rw [hdigits]
  rfl

/-- A text is taken for the number that it spells, if that fits into a machine word. -/
theorem seq?_eq_some_iff {part : String} {n : Nat} :
    seq? part.toList = some n ↔ SpellsNumber part n ∧ n < Nat.pow 2 64 := by
  rw [seq?_eq, Store.index?_eq_some_iff]
  refine and_congr_left fun _ => ?_
  constructor
  · intro h
    refine ⟨_, ?_, h⟩
    unfold unsigned
    split
    · rename_i ds hpart
      right
      rw [← String.toList_inj, String.toList_append, hpart]
      show '+' :: ds = '+' :: (String.ofList ds).toList
      rw [String.toList_ofList]
    · left
      rw [String.ofList_toList]
  · rintro ⟨digits, rfl | rfl, hdigits⟩
    · -- Digits do not start with a plus.
      have hplus : unsigned part.toList = part.toList := by
        unfold unsigned
        split
        · rename_i ds hpart
          have := hdigits.2.1 '+' (by rw [hpart]; exact List.mem_cons_self)
          cases this
        · rfl
      rwa [hplus, String.ofList_toList]
    · rw [String.toList_append]
      show Store.Spells (String.ofList digits.toList) n
      rwa [String.ofList_toList]

/-- No number is spelled with a colon. -/
theorem SpellsNumber.no_colon {part : String} {n : Nat} (h : SpellsNumber part n) :
    ':' ∉ part.toList := by
  obtain ⟨digits, hpart, _, hdigits, _⟩ := h
  have hcolon : ':' ∉ digits.toList := fun hmem => absurd (hdigits _ hmem) (by decide)
  rcases hpart with rfl | rfl
  · exact hcolon
  · rw [String.toList_append, List.mem_append]
    exact fun hmem => hmem.elim (by decide) hcolon

/-- The digits of a natural spell it. -/
theorem spellsNumber_repr (n : Nat) : SpellsNumber n.repr n := by
  refine ⟨n.repr, .inl rfl, ?_, ?_, ?_⟩
  · rw [Nat.toList_repr]
    exact Nat.toDigits_ne_nil
  · rw [Nat.toList_repr]
    exact fun c hc => Nat.isDigit_of_mem_toDigits (by decide) (by decide) hc
  · rw [Nat.toList_repr, Nat.ofDigitChars_ten_toDigits]

/-- The digits of a natural are its plain spelling. -/
theorem repr_eq_iff {part : String} {n : Nat} (h : SpellsNumber part n) :
    n.repr = part ↔ Plain part := by
  constructor
  · rintro rfl
    refine ⟨?_, fun hzero => ?_⟩
    · rw [Nat.toList_repr]
      intro hplus
      exact absurd (Nat.isDigit_of_mem_toDigits (by decide) (by decide) hplus) (by decide)
    · rw [Nat.toList_repr] at hzero
      rw [← String.toList_inj, Nat.toList_repr, Decimal.toDigits_of_head? hzero]
      rfl
  · rintro ⟨hplus, hzero⟩
    obtain ⟨digits, rfl | rfl, hne, hdigits, rfl⟩ := h
    · rw [← String.toList_inj, Nat.toList_repr]
      refine Decimal.toDigits_ofDigitChars hne hdigits fun hhead => ?_
      rw [hzero hhead]
      rfl
    · exact absurd (by simp) hplus

/-! ## Texts -/

/-- Backwards through a text without a colon, none is met. -/
theorem ne_colon_of_mem_reverse {s : String} (h : ':' ∉ s.toList) :
    ∀ c ∈ s.toList.reverse, (c != ':') = true := by
  intro c hc
  rw [bne_iff_ne]
  rintro rfl
  exact h (List.mem_reverse.1 hc)

/-- Of a text with a colon, the key is what stands before the last one; it is malformed unless a
number follows. -/
theorem ofText_split (key : String) {part : String} (h : ':' ∉ part.toList) :
    ofText (key ++ ":" ++ part) = match seq? part.toList with
      | some seq => .ok ⟨key, seq⟩
      | none => .error (.malformedSubscription (key ++ ":" ++ part)) := by
  have hbackwards : (key ++ ":" ++ part).toList.reverse =
      part.toList.reverse ++ ':' :: key.toList.reverse := by
    simp
  have hpart := ne_colon_of_mem_reverse h
  have hnumber : ((key ++ ":" ++ part).toList.reverse.takeWhile (· != ':')).reverse =
      part.toList := by
    rw [hbackwards, List.takeWhile_append_of_pos hpart]
    simp
  have hrest : (key ++ ":" ++ part).toList.reverse.dropWhile (· != ':') =
      ':' :: key.toList.reverse := by
    rw [hbackwards, List.dropWhile_append_of_pos hpart]
    simp
  have hkey : String.ofList key.toList.reverse.reverse = key := by
    rw [List.reverse_reverse, String.ofList_toList]
  unfold ofText
  dsimp only
  rw [hnumber, hrest]
  cases seq? part.toList with
  | none => rfl
  | some seq =>
    show Except.ok (SubscriptionId.mk (String.ofList key.toList.reverse.reverse) seq) =
      .ok ⟨key, seq⟩
    rw [hkey]

/-- A text without a colon is malformed. -/
theorem ofText_of_no_colon {s : String} (h : ':' ∉ s.toList) :
    ofText s = .error (.malformedSubscription s) := by
  have hnone : s.toList.reverse.dropWhile (· != ':') = [] := by
    rw [← List.append_nil s.toList.reverse,
      List.dropWhile_append_of_pos (ne_colon_of_mem_reverse h)]
    rfl
  unfold ofText
  dsimp only
  rw [hnone]

/-- A text with a colon has a last one. -/
theorem exists_split {s : String} (h : ':' ∈ s.toList) :
    ∃ key part, s = key ++ ":" ++ part ∧ ':' ∉ part.toList := by
  obtain ⟨part, key, hsplit, hpart⟩ := List.eq_append_cons_of_mem (List.mem_reverse.2 h)
  refine ⟨String.ofList key.reverse, String.ofList part.reverse, ?_, ?_⟩
  · rw [← String.toList_inj, ← List.reverse_inj, hsplit]
    simp
  · rw [String.toList_ofList, List.mem_reverse]
    exact hpart

/-- A text is read as a subscription if it is the key, a colon, and a number that fits into a
machine word. -/
theorem ofText_eq_ok_iff {s : String} {id : SubscriptionId} :
    ofText s = .ok id ↔
      ∃ part, s = id.key ++ ":" ++ part ∧ SpellsNumber part id.seq ∧ id.seq < Nat.pow 2 64 := by
  constructor
  · intro h
    by_cases hcolon : ':' ∈ s.toList
    · obtain ⟨key, part, rfl, hpart⟩ := exists_split hcolon
      rw [ofText_split key hpart] at h
      split at h
      · rename_i seq hseq
        obtain rfl := Except.ok.inj h
        exact ⟨part, rfl, seq?_eq_some_iff.1 hseq⟩
      · cases h
    · rw [ofText_of_no_colon hcolon] at h
      cases h
  · rintro ⟨part, rfl, hnumber⟩
    rw [ofText_split id.key hnumber.1.no_colon, seq?_eq_some_iff.2 hnumber]

/-- The written form is read back. -/
theorem ofText_text {id : SubscriptionId} (h : id.seq < Nat.pow 2 64) : ofText id.text = .ok id :=
  ofText_eq_ok_iff.2 ⟨_, rfl, spellsNumber_repr id.seq, h⟩

/-- A text that is read is the written form if its number is spelled plainly. -/
theorem text_eq_iff {id : SubscriptionId} {part : String} (h : SpellsNumber part id.seq) :
    id.text = id.key ++ ":" ++ part ↔ Plain part := by
  rw [← repr_eq_iff h]
  exact String.append_right_inj _

/-! ## Removing handlers by what is written -/

/-- The written form of a subscription is read back. A text is read if there is a colon in it and a
number of 64 bits is spelled behind the last one; it is the written form of what is read if that
number is spelled plainly. So in every run, to disconnect a handler by the subscription read from
its written form takes this handler out of its table, and nothing else out of any. -/
theorem ofText_written :
    (∀ id : SubscriptionId, id.seq < Nat.pow 2 64 → ofText id.text = .ok id) ∧
    (∀ s, (∃ id, ofText s = .ok id) ↔ ∃ key part, s = key ++ ":" ++ part ∧ ':' ∉ part.toList ∧
      ∃ n < Nat.pow 2 64, SpellsNumber part n) ∧
    (∀ id key part, ':' ∉ part.toList → ofText (key ++ ":" ++ part) = .ok id →
      id.key = key ∧ SpellsNumber part id.seq ∧
        (id.text = key ++ ":" ++ part ↔ Plain part)) ∧
    ∀ w, Moves Demand ⟨{}, []⟩ w →
      ∀ o id, w.model.isConnected o id = true → id.seq < Nat.pow 2 64 →
      ∃ id', ofText id.text = .ok id' ∧ (w.model.disconnect o id').1 = true ∧
        (∃ before c after, (w.model.bindingOf o).connections = before ++ c :: after ∧
          c.key = id.key ∧ c.seq = id.seq ∧ (w.model.disconnect o id').2.bindingOf o =
            { w.model.bindingOf o with connections := before ++ after }) ∧
        ∀ p, p ≠ o → (w.model.disconnect o id').2.bindingOf p = w.model.bindingOf p := by
  refine ⟨fun _ => ofText_text, fun s => ⟨?_, ?_⟩, fun id key part hpart hread => ?_,
    fun w moves o id hlive hword => ?_⟩
  · rintro ⟨id, hread⟩
    obtain ⟨part, hs, hnumber, hword⟩ := ofText_eq_ok_iff.1 hread
    exact ⟨id.key, part, hs, hnumber.no_colon, id.seq, hword, hnumber⟩
  · rintro ⟨key, part, rfl, -, n, hword, hnumber⟩
    exact ⟨⟨key, n⟩, ofText_eq_ok_iff.2 ⟨part, rfl, hnumber, hword⟩⟩
  · rw [ofText_split key hpart] at hread
    split at hread
    · rename_i seq hseq
      obtain rfl := Except.ok.inj hread
      have hnumber := (seq?_eq_some_iff.1 hseq).1
      exact ⟨rfl, hnumber, @text_eq_iff ⟨key, seq⟩ part hnumber⟩
    · cases hread
  · obtain ⟨hremoved, hone⟩ := Model.disconnect_live (tidy_of_moves moves).numbered hlive
    refine ⟨id, ofText_text hword, hremoved, hone, fun p hp => ?_⟩
    show (w.model.modifyBinding o _).bindingOf p = _
    rw [Model.bindingOf_modifyBinding, if_neg fun h => hp h.1]

/-- An object with two handlers connected to one key, which has a colon. -/
def gong : World History :=
  ((Subscription.connect "a:b").run noting 0 1 ((Subscription.connect "a:b").run noting 0 0
    ⟨(Model.add {} (.map .empty)).2.ensureBinding 0, []⟩).2).2

/-- The first handler is removed by its text and the second one stays. With a plus and a zero the
number is read as well, but it is not so written. -/
theorem ofText_written_gong :
    (∃ id, ofText "a:b:+01" = .ok id) ∧ (⟨"a:b", 1⟩ : SubscriptionId).text ≠ "a:b:+01" ∧
    ∃ id, ofText "a:b:1" = .ok id ∧ (gong.model.disconnect 0 id).1 = true ∧
      (gong.model.disconnect 0 id).2.isConnected 0 ⟨"a:b", 2⟩ = true := by
  obtain ⟨hwritten, hread, hplain, hremove⟩ := ofText_written
  have hdigits : "01".toList.all Char.isDigit = true := by decide
  have hspelled : SpellsNumber "+01" 1 :=
    ⟨"01", .inr rfl, by decide, List.all_eq_true.1 hdigits, by decide⟩
  have hok : ofText "a:b:+01" = .ok ⟨"a:b", 1⟩ :=
    ofText_eq_ok_iff.2 ⟨_, rfl, hspelled, by decide⟩
  have hnoting (n : Notice) (u : World History) :
      Moves Demand (u.record (.told n)) (noting n u) := .done _
  have moves : Moves Demand ⟨{}, []⟩ gong :=
    .next hnoting (.add (s := .map .empty) nofun) <| .next hnoting (.proxy (o := 0)) <|
      .next hnoting (.subscribe (o := 0) (k := 0) (s := .connect "a:b") (by decide)) <|
      .next hnoting (.subscribe (o := 0) (k := 1) (s := .connect "a:b") (by decide)) (.done _)
  obtain ⟨id, hid, hremoved, -, -⟩ := hremove gong moves 0 ⟨"a:b", 1⟩ (by decide) (by decide)
  obtain rfl := Except.ok.inj ((hwritten ⟨"a:b", 1⟩ (by decide)).symm.trans hid)
  refine ⟨(hread _).2 ⟨"a:b", "+01", by decide, by decide, 1, by decide, hspelled⟩, ?_, _, hid,
    hremoved, by decide⟩
  intro hsame
  exact ((hplain ⟨"a:b", 1⟩ "a:b" "+01" (by decide) hok).2.2.1 hsame).1 (by decide)

end SubscriptionId

end LiveScope
