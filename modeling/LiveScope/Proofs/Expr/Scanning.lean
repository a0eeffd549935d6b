import LiveScope.Proofs.Expr.Legible
import LiveScope.Proofs.Expr.Spans

/-!
# Writing tokens one after the other

`Token.Scans` says that a text is read as certain tokens by itself: the rest after it is read as if
it stood alone. A text of any class is read so as one token, if what comes next cannot go on with it
(`Delimits`): the lemmas about `next?` say so class by class.
-/

namespace LiveScope

open Lexeme

namespace Lexeme

/-- Whether a rest goes on with nothing that stands before it. -/
def Delimits (rest : List Char) : Prop := ∀ c ∈ rest.head?, c = ' ' ∨ c = ')'

/-- A delimiter is no character of a name or of a number. -/
theorem Delimits.head {rest : List Char} (h : Delimits rest) :
    ∀ c ∈ rest.head?, isNameChar c = false ∧ isDigit c = false ∧ c ≠ '$' ∧ c ≠ '.' ∧
      c ≠ 'e' ∧ c ≠ 'E' := by
  intro c hc
  rcases h c hc with rfl | rfl <;> decide

/-- What is taken from a text and a rest that does not go on with it is the text. -/
theorem takeWhile_append_head {p : Char → Bool} {cs rest : List Char} (hcs : ∀ c ∈ cs, p c = true)
    (hrest : ∀ c ∈ rest.head?, p c = false) : (cs ++ rest).takeWhile p = cs := by
  rw [List.takeWhile_append_of_pos hcs]
  cases rest with
  | nil => simp
  | cons c rest => rw [List.takeWhile_cons_of_neg (by simp [hrest c rfl]), List.append_nil]

/-- What is left of a text and a rest that does not go on with it is the rest. -/
theorem dropWhile_append_head {p : Char → Bool} {cs rest : List Char} (hcs : ∀ c ∈ cs, p c = true)
    (hrest : ∀ c ∈ rest.head?, p c = false) : (cs ++ rest).dropWhile p = rest := by
  rw [List.dropWhile_append_of_pos hcs]
  cases rest with
  | nil => rfl
  | cons c rest => rw [List.dropWhile_cons_of_neg (by simp [hrest c rfl])]

/-- The range of the letters and the underscore has no blank, sigil, mark or digit in it. -/
theorem ne_of_isNameStart {c : Char} (h : isNameStart c = true) :
    Text.isBlank c = false ∧ c ≠ '$' ∧ c ≠ '@' ∧ c ≠ '=' := by
  have hcode : 65 ≤ c.toNat ∧ c.toNat ≤ 122 := by
    unfold isNameStart at h
    simp only [Bool.or_eq_true, Bool.and_eq_true, decide_eq_true_eq, beq_iff_eq, Char.le_def,
      UInt32.le_iff_toNat_le] at h
    rcases h with (⟨hl, hu⟩ | ⟨hl, hu⟩) | rfl
    · exact ⟨Nat.le_trans (by decide) hl, hu⟩
    · exact ⟨hl, Nat.le_trans hu (by decide)⟩
    · decide
  refine ⟨?_, ?_, ?_, ?_⟩
  · simp only [Text.isBlank, Bool.or_eq_false_iff, Bool.and_eq_false_iff, decide_eq_false_iff_not,
      beq_eq_false_iff_ne]
    omega
  · rintro rfl
    revert hcode
    decide
  · rintro rfl
    revert h
    decide
  · rintro rfl
    revert h
    decide

/-- A digit is no blank, sigil, mark or start of a name. -/
theorem ne_of_isDigit {c : Char} (h : isDigit c = true) :
    Text.isBlank c = false ∧ c ≠ '$' ∧ c ≠ '@' ∧ c ≠ '=' ∧ isNameStart c = false := by
  have hcode : 48 ≤ c.toNat ∧ c.toNat ≤ 57 := by
    unfold isDigit at h
    simp only [Bool.and_eq_true, decide_eq_true_eq, Char.le_def, UInt32.le_iff_toNat_le] at h
    exact h
  refine ⟨?_, ?_, ?_, ?_, ?_⟩
  · simp only [Text.isBlank, Bool.or_eq_false_iff, Bool.and_eq_false_iff, decide_eq_false_iff_not,
      beq_eq_false_iff_ne]
    omega
  · rintro rfl
    revert hcode
    decide
  · rintro rfl
    revert h
    decide
  · rintro rfl
    revert h
    decide
  · unfold isNameStart
    simp only [Bool.or_eq_false_iff, Bool.and_eq_false_iff, decide_eq_false_iff_not,
      beq_eq_false_iff_ne, Char.le_def, UInt32.le_iff_toNat_le]
    refine ⟨⟨.inl fun hle => ?_, .inl fun hle => ?_⟩, ?_⟩
    · exact absurd (Nat.le_trans hle hcode.2) (by decide)
    · exact absurd (Nat.le_trans hle hcode.2) (by decide)
    · rintro rfl
      revert hcode
      decide

/-- A word is read whole: it is a literal if it is a word of the language and else a name. -/
theorem next?_word {c : Char} {cs rest : List Char} (hc : isNameStart c = true)
    (hcs : NameChars cs) (hrest : Delimits rest) :
    next? (c :: cs ++ rest) = some (.token
      (if String.ofList (c :: cs) ∈ keywords then .literal else .reference) (c :: cs)) := by
  obtain ⟨hblank, hsigil, hmark, _⟩ := ne_of_isNameStart hc
  have hword := takeWhile_append_head hcs fun d hd => (hrest.head d hd).1
  simp only [List.cons_append, next?, hblank, hsigil, hmark, hc, hword, Bool.false_eq_true,
    if_false, if_true]

/-- A reference is read whole. -/
theorem next?_reference {cs rest : List Char} (h : IsReference cs) (hrest : Delimits rest) :
    next? (cs ++ rest) = some (.token .reference cs) := by
  obtain ⟨sigils, name, rfl, hname, hbare⟩ := h
  cases sigils with
  | zero =>
    obtain ⟨hstart, hne, hword⟩ := hbare rfl
    obtain ⟨c, cs, rfl⟩ := List.exists_cons_of_ne_nil hne
    have := next?_word (hstart c rfl) (fun d hd => hname d (List.mem_cons_of_mem c hd)) hrest
    rwa [if_neg hword] at this
  | succ n =>
    -- The sigils end where the name starts, which has none.
    have hsigils : ∀ c ∈ List.replicate n '$', (c == '$') = true := by
      intro c hc
      rw [List.eq_of_mem_replicate hc]
      rfl
    have hnext : ∀ c ∈ (name ++ rest).head?, (c == '$') = false := by
      intro c hc
      cases name with
      | nil => simpa using (hrest.head c hc).2.2.1
      | cons d ds =>
        obtain rfl := Option.some.inj hc
        rw [beq_eq_false_iff_ne]
        rintro rfl
        exact absurd (hname '$' List.mem_cons_self) (by decide)
    have htake := takeWhile_append_head hsigils hnext
    have hdrop := dropWhile_append_head hsigils hnext
    have hname' := takeWhile_append_head hname fun d hd => (hrest.head d hd).1
    rw [List.replicate_succ, List.append_assoc, List.cons_append]
    simp only [next?, htake, hdrop, hname']
    rfl

/-- A member of the spec row is read whole. -/
theorem next?_property {cs rest : List Char} (h : IsProperty cs) (hrest : Delimits rest) :
    next? (cs ++ rest) = some (.token .property cs) := by
  obtain ⟨name, rfl, hne, hname⟩ := h
  obtain ⟨c, cs, rfl⟩ := List.exists_cons_of_ne_nil hne
  have htake := takeWhile_append_head hname fun d hd => (hrest.head d hd).1
  simp only [List.cons_append] at htake ⊢
  simp only [next?, htake]
  rfl

/-- A number without an exponent is read whole. -/
theorem next?_number {whole fraction rest : List Char} (hne : whole ≠ []) (hwhole : Digits whole)
    (hfraction : Fractional fraction) (hrest : Delimits rest) :
    next? (whole ++ fraction ++ rest) = some (.token .literal (whole ++ fraction)) := by
  -- Each part of the number ends where the next one starts, and the last where the rest does.
  have hafter : ∀ c ∈ (fraction ++ rest).head?, isDigit c = false := by
    intro c hc
    rcases hfraction with rfl | ⟨ds, rfl, _⟩
    · exact (hrest.head c hc).2.1
    · obtain rfl := Option.some.inj hc
      rfl
  have htake : (whole ++ (fraction ++ rest)).takeWhile isDigit = whole :=
    takeWhile_append_head hwhole hafter
  have hfrac : Lexeme.fraction (fraction ++ rest) = fraction := by
    rcases hfraction with rfl | ⟨ds, rfl, hds, hdigits⟩
    · unfold Lexeme.fraction
      split
      · rename_i heq
        have hpoint := (hrest.head '.' (by rw [← List.nil_append rest, heq]; rfl)).2.2.2.1
        exact absurd rfl hpoint
      · rfl
    · obtain ⟨d, ds, rfl⟩ := List.exists_cons_of_ne_nil hds
      have hdrop := takeWhile_append_head hdigits fun c hc => (hrest.head c hc).2.1
      simp only [List.cons_append] at hdrop ⊢
      simp only [Lexeme.fraction, hdrop]
  have hexp : exponent rest = [] := by
    unfold exponent
    cases rest with
    | nil => rfl
    | cons c rest =>
      obtain ⟨_, _, _, _, he, hE⟩ := hrest.head c rfl
      exact if_neg (not_or.2 ⟨he, hE⟩)
  have hnumber : number (whole ++ (fraction ++ rest)) = whole ++ fraction := by
    unfold number
    dsimp only
    rw [htake, List.drop_left, hfrac, ← List.append_assoc, List.drop_left, hexp, List.append_nil]
  obtain ⟨d, ds, rfl⟩ := List.exists_cons_of_ne_nil hne
  have hd := hwhole d List.mem_cons_self
  obtain ⟨hblank, hsigil, hmark, _, hstart⟩ := ne_of_isDigit hd
  rw [List.append_assoc]
  rw [List.cons_append] at hnumber ⊢
  simp only [next?, hblank, hsigil, hmark, hstart, hd, hnumber, Bool.false_eq_true, if_false,
    if_true]

/-- A quoted string is read whole. -/
theorem next?_quoted {q : Char} (hq : isQuote q = true) {body rest : List Char}
    (h : quotedBody? q (body ++ q :: rest) = some (body, rest)) :
    next? (q :: body ++ [q] ++ rest) = some (.quoted q body) := by
  rw [List.append_assoc, List.cons_append, List.singleton_append]
  simp only [isQuote, Bool.or_eq_true, beq_iff_eq] at hq
  rcases hq with (rfl | rfl) | rfl <;>
    simp [next?, h, isQuote, isNameStart, isDigit, Text.isBlank]

end Lexeme

/-! ## Texts that are read by themselves -/

namespace Token

/-- Whether a text at an offset is read as certain tokens, whatever the rest is read as. -/
def Scans (offset : Nat) (cs rest : List Char) (ts : List Token) : Prop :=
  ∀ later, scan (offset + bytes cs) rest = .ok later → scan offset (cs ++ rest) = .ok (ts ++ later)

namespace Scans

variable {offset : Nat} {cs ds rest : List Char} {ts us : List Token}

/-- A text that is one lexeme is read as its tokens. -/
theorem of_shape {shape : Shape} (hnext : next? (shape.src ++ rest) = some shape)
    (hts : ofShape offset shape = .ok ts) : Scans offset shape.src rest ts := by
  intro later hlater
  have hne : ¬ (shape.src ++ rest).isEmpty = true := by
    intro hempty
    rw [List.isEmpty_iff.1 hempty] at hnext
    cases hnext
  rw [scan, if_neg hne]
  split
  · rename_i hnone
    cases hnext.symm.trans hnone
  · rename_i shape' hshape
    obtain rfl := Option.some.inj (hnext.symm.trans hshape)
    rw [hts, List.drop_left, hlater]
    rfl

/-- A text that is one lexeme and no quoted string is read as one token. -/
theorem of_next? {kind : TokenKind} (hnext : next? (cs ++ rest) = some (.token kind cs)) :
    Scans offset cs rest [⟨kind, String.ofList cs, offset⟩] := by
  have hscans : Scans offset (Shape.token kind cs).src rest [⟨kind, String.ofList cs, offset⟩] :=
    of_shape hnext rfl
  exact hscans

/-- Two texts one after the other are read one after the other. -/
theorem append (hcs : Scans offset cs (ds ++ rest) ts)
    (hds : Scans (offset + bytes cs) ds rest us) : Scans offset (cs ++ ds) rest (ts ++ us) := by
  intro later hlater
  have hbytes : bytes (cs ++ ds) = bytes cs + bytes ds := bytes_append cs ds
  rw [List.append_assoc, List.append_assoc]
  refine hcs _ (hds _ ?_)
  rwa [Nat.add_assoc, ← hbytes]

end Scans

end Token

end LiveScope
