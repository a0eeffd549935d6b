import LiveScope.Proofs.Template.Escaping
import LiveScope.Text.Quoted

/-!
# A shown text is read back

Diagnostics show a text in double quotes with the escapes of `Text.escape`, which are not those that
a source is written with: `Text.quoted` knows code points, and the reader knows references and
interpolations. The two agree on a text of plain characters without anything live
(`Text.Showable`): its quoted form is one string and is read as one constant
(`Text.tokens_escape`).
-/

namespace LiveScope

open Lexeme Template

namespace Text

/-- Whether a text has only printable characters of ASCII, tabs and line feeds, no sigil and no
opening braces. -/
structure Showable (cs : List Char) : Prop where
  /-- Every character is one of these. -/
  plain : ∀ c ∈ cs, (0x20 ≤ c.toNat ∧ c.toNat < 0x7f) ∨ c = '\t' ∨ c = '\n'
  /-- There is no sigil. -/
  noSigil : '$' ∉ cs
  /-- There are no two opening braces side by side. -/
  noBraces : ¬ ['{', '{'] <:+: cs

/-- What follows the first character of such a text is one. -/
theorem Showable.tail {c : Char} {cs : List Char} (h : Showable (c :: cs)) : Showable cs where
  plain d hd := h.plain d (List.mem_cons_of_mem c hd)
  noSigil hmem := h.noSigil (List.mem_cons_of_mem c hmem)
  noBraces hin := h.noBraces (hin.trans (List.suffix_cons c cs).isInfix)

/-- A plain character is shown behind a backslash by what the reader takes for it, or as it is. -/
theorem escape_cases {c : Char} (h : (0x20 ≤ c.toNat ∧ c.toNat < 0x7f) ∨ c = '\t' ∨ c = '\n') :
    (∃ d, escape c = ['\\', d] ∧ unescape d = c) ∨
      (escape c = [c] ∧ c ≠ '\\' ∧ c ≠ '"') := by
  by_cases htab : c = '\t'
  · exact .inl ⟨'t', by rw [htab]; rfl, by rw [htab]; rfl⟩
  by_cases hfeed : c = '\n'
  · exact .inl ⟨'n', by rw [hfeed]; rfl, by rw [hfeed]; rfl⟩
  by_cases hquote : c = '"'
  · exact .inl ⟨'"', by rw [hquote]; rfl, by rw [hquote]; rfl⟩
  by_cases hslash : c = '\\'
  · exact .inl ⟨'\\', by rw [hslash]; rfl, by rw [hslash]; rfl⟩
  obtain ⟨hlow, hhigh⟩ := (h.resolve_right fun h => h.elim htab hfeed)
  have hprintable : isPrintable c = true := by
    unfold isPrintable
    simp only [hhigh, if_true, decide_eq_true_eq]
    exact hlow
  refine .inr ⟨?_, hslash, hquote⟩
  unfold escape
  split
  · exact absurd hlow (by decide)
  · exact absurd rfl htab
  · exact absurd hlow (by decide)
  · exact absurd rfl hfeed
  · exact absurd rfl hquote
  · exact absurd rfl hslash
  · rw [if_pos hprintable]

/-- What a shown text starts with is a backslash or the first character of the text. -/
theorem head?_escape {cs : List Char} (h : Showable cs) :
    ∀ d ∈ (cs.flatMap escape).head?, d = '\\' ∨ cs.head? = some d := by
  cases cs with
  | nil => simp
  | cons c cs =>
    intro d hd
    rcases escape_cases (h.plain c List.mem_cons_self) with ⟨e, he, _⟩ | ⟨he, _⟩
    · rw [List.flatMap_cons, he] at hd
      exact .inl (Option.some.inj hd).symm
    · rw [List.flatMap_cons, he] at hd
      exact .inr hd

/-- A shown text is read as its characters, one piece each. -/
theorem pieces_escape (offset : Nat) {cs : List Char} (h : Showable cs) :
    ∃ ps, pieces offset (cs.flatMap escape) = .ok ps ∧ ps.map Prod.snd = cs.map .char := by
  induction cs generalizing offset with
  | nil => exact ⟨[], by rw [List.flatMap_nil, pieces], rfl⟩
  | cons c cs ih =>
    obtain ⟨ps, hps, hchars⟩ := ih (offset + bytes (escape c)) h.tail
    refine ⟨(offset, .char c) :: ps, ?_, by rw [List.map_cons, List.map_cons, hchars]⟩
    rw [List.flatMap_cons]
    rcases escape_cases (h.plain c List.mem_cons_self) with ⟨d, he, hd⟩ | ⟨he, hslash, _⟩
    · rw [he] at hps ⊢
      rw [List.cons_append, List.singleton_append, pieces, hps, hd]
      rfl
    · rw [he] at hps ⊢
      rw [List.singleton_append, pieces, hps]
      · rfl
      · exact fun hc _ => hslash hc
      · exact fun _ _ hc _ => hslash hc
      · -- A brace is not followed by another one.
        intro rest hc hrest
        have hnext : '{' ∈ (cs.flatMap escape).head? := by
          rw [hrest]
          rfl
        rcases head?_escape h.tail _ hnext with habs | hhead
        · cases habs
        · obtain ⟨cs, rfl⟩ : ∃ ds, cs = '{' :: ds := by
            cases cs with
            | nil => cases hhead
            | cons d ds => exact ⟨ds, by rw [Option.some.inj hhead]⟩
          exact h.noBraces (hc ▸ ⟨[], cs, rfl⟩)
      · rintro rfl
        exact h.noSigil List.mem_cons_self

/-- One who looks for the end of a string passes over a shown text. -/
theorem passes_escape {cs : List Char} (h : Showable cs) :
    Passes (quotedBody? '"') (cs.flatMap escape) := by
  induction cs with
  | nil => exact .nil
  | cons c cs ih =>
    rw [List.flatMap_cons]
    refine Passes.append ?_ (ih h.tail)
    rcases escape_cases (h.plain c List.mem_cons_self) with ⟨d, he, _⟩ | ⟨he, hslash, hquote⟩
    · rw [he]
      intro rest
      rw [List.cons_append, List.singleton_append, quotedBody?]
      rfl
    · rw [he]
      exact quotedBody?_cons hslash hquote

/-- A shown text is read as one constant. -/
theorem tokens_escape (offset : Nat) {cs : List Char} (h : Showable cs) :
    ∃ o, tokens offset (cs.flatMap escape) = .ok [⟨.literal, quote cs, o⟩] := by
  obtain ⟨ps, hps, hchars⟩ := pieces_escape offset h
  exact tokens_of_characters hps hchars

end Text

end LiveScope
