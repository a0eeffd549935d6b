import LiveScope.Expr.Fields
import LiveScope.Proofs.Template.Embedding

/-!
# Any text can be written as a literal

A backslash takes the meaning from the character after it, except that `n` and `t` get one: a text
is written with a backslash before every character but these two (`Template.escaped`). Three readers
go over what is written, the one for templates (`pieces_escaped`), the one for the end of a string
(`passes_escaped`) and the one for the end of an interpolation, and a quoted text is put in quotes a
second time on its way to the parser. `Template.ofTemplate_escaped` says that the text comes back as
it was, as a template, in quotes of each kind, and in quotes between braces.
-/

namespace LiveScope

namespace Template

open Lexeme

/-- A character as it is written in a literal. -/
def escape (c : Char) : List Char := if c = 'n' ∨ c = 't' then [c] else ['\\', c]

/-- A text as it is written in a literal. -/
def escaped (t : String) : String := String.ofList (t.toList.flatMap escape)

/-- A written character is read as that character. -/
theorem pieces_escape (offset : Nat) (c : Char) (rest : List Char) :
    pieces offset (escape c ++ rest) =
      do return (offset, .char c) :: (← pieces (offset + bytes (escape c)) rest) := by
  by_cases hc : c = 'n' ∨ c = 't'
  · have hplain : c ≠ '\\' ∧ c ≠ '{' ∧ c ≠ '$' := by rcases hc with rfl | rfl <;> decide
    rw [escape, if_pos hc, List.singleton_append, pieces]
    · exact fun h _ => hplain.1 h
    · exact fun _ _ h _ => hplain.1 h
    · exact fun _ h _ => hplain.2.1 h
    · exact hplain.2.2
  · have hself : unescape c = c := by
      rw [not_or] at hc
      rw [unescape, if_neg hc.1, if_neg hc.2]
    rw [escape, if_neg hc, List.cons_append, List.singleton_append, pieces, hself]

/-- A written text is read as its characters, one piece each. -/
theorem pieces_escaped (offset : Nat) (cs : List Char) :
    ∃ ps, pieces offset (cs.flatMap escape) = .ok ps ∧ ps.map Prod.snd = cs.map .char := by
  induction cs generalizing offset with
  | nil => exact ⟨[], by rw [List.flatMap_nil, pieces], rfl⟩
  | cons c cs ih =>
    obtain ⟨ps, hps, hchars⟩ := ih (offset + bytes (escape c))
    refine ⟨(offset, .char c) :: ps, ?_, by rw [List.map_cons, List.map_cons, hchars]⟩
    rw [List.flatMap_cons, pieces_escape, hps]
    rfl

/-- Pieces that are characters are joined to one constant run. -/
theorem exists_constants {ps : List (Nat × Piece)} {cs : List Char}
    (h : ps.map Prod.snd = cs.map .char) :
    ∃ offset, ps.foldr Part.cons [] = constants offset cs := by
  induction ps generalizing cs with
  | nil =>
    obtain rfl := List.map_eq_nil_iff.1 h.symm
    exact ⟨0, rfl⟩
  | cons p ps ih =>
    obtain ⟨offset, piece⟩ := p
    obtain ⟨c, cs, rfl, rfl, htail⟩ := List.map_eq_cons_iff.1 h.symm
    obtain ⟨later, hlater⟩ := ih htail.symm
    refine ⟨offset, ?_⟩
    rw [List.foldr_cons, hlater]
    cases cs <;> rfl

/-- A text that is read as characters is one constant. -/
theorem tokens_of_characters {offset : Nat} {cs ds : List Char} {ps : List (Nat × Piece)}
    (hps : pieces offset cs = .ok ps) (hchars : ps.map Prod.snd = ds.map .char) :
    ∃ o, tokens offset cs = .ok [⟨.literal, quote ds, o⟩] := by
  obtain ⟨o, hrun⟩ := exists_constants hchars
  have hparts : parts offset cs = .ok (constants o ds) := by
    rw [parts, hps]
    exact congrArg Except.ok hrun
  rw [tokens_eq, hparts]
  cases ds with
  | nil => exact ⟨offset, rfl⟩
  | cons d ds => exact ⟨o, rfl⟩

/-- A template that is read as characters is their text. -/
theorem ofTemplate_of_characters {src : String} {ds : List Char} {ps : List (Nat × Piece)}
    (hps : pieces 0 src.toList = .ok ps) (hchars : ps.map Prod.snd = ds.map .char) :
    Expr.ofTemplate src = .ok (.literal (.text (String.ofList ds))) := by
  obtain ⟨offset, hrun⟩ := exists_constants hchars
  have hparts : parts 0 src.toList = .ok (constants offset ds) := by
    rw [parts, hps]
    exact congrArg Except.ok hrun
  have hpadded : padded (constants offset ds) = constants offset ds := by
    cases ds <;> rfl
  have hone : concatenation (leaves ds) = .literal (.text (String.ofList ds)) := by
    cases ds <;> rfl
  rw [ofTemplate_eq_ok hparts (hpadded.symm ▸ tree_constants offset ds), hone]

/-- A written text is a template of one constant run. -/
theorem ofTemplate_written (t : String) :
    Expr.ofTemplate (escaped t) = .ok (.literal (.text t)) := by
  obtain ⟨ps, hps, hchars⟩ := pieces_escaped 0 t.toList
  have hwritten : pieces 0 (escaped t).toList = .ok ps := by
    rw [escaped, String.toList_ofList]
    exact hps
  rw [ofTemplate_of_characters hwritten hchars, String.ofList_toList]

/-- One who looks for the end of a string passes over a written text: a quote in it stands behind a
backslash. -/
theorem passes_escaped {q : Char} (hq : isQuote q = true) (cs : List Char) :
    Passes (quotedBody? q) (cs.flatMap escape) := by
  have hone (c : Char) : Passes (quotedBody? q) (escape c) := by
    by_cases hc : c = 'n' ∨ c = 't'
    · rw [escape, if_pos hc]
      refine quotedBody?_cons ?_ ?_
      · rcases hc with rfl | rfl <;> decide
      · rintro rfl
        rcases hc with rfl | rfl <;> exact absurd hq (by decide)
    · rw [escape, if_neg hc]
      intro rest
      rw [List.cons_append, List.singleton_append, quotedBody?]
      rfl
  induction cs with
  | nil => exact .nil
  | cons c cs ih =>
    rw [List.flatMap_cons]
    exact (hone c).append ih

/-- A written text in quotes is read as a literal. -/
theorem ofSource_written {q : Char} (hq : isQuote q = true) (t : String) :
    Expr.ofSource (inQuotes q (escaped t)) = .ok (.literal (.text t)) := by
  have hbody : quotedBody? q ((escaped t).toList ++ [q]) = some ((escaped t).toList, []) := by
    have hread := (passes_escaped hq t.toList).eq_some (quotedBody?_quote hq [])
    rwa [List.append_nil, ← String.toList_ofList (l := t.toList.flatMap escape)] at hread
  exact ofSource_quoted hq hbody (ofTemplate_written t)

/-- Any text can be written as a literal: as a template, in quotes of each kind, and in quotes
between braces, where it is a group of the literal and has its value. No field is read. -/
theorem ofTemplate_escaped (t : String) :
    Expr.ofTemplate (escaped t) = .ok (.literal (.text t)) ∧
    (Expr.literal (.text t)).fields = [] ∧
    ∀ q, isQuote q = true →
      Expr.ofSource (inQuotes q (escaped t)) = .ok (.literal (.text t)) ∧
      ∃ e, Expr.ofTemplate (interpolated (inQuotes q (escaped t))) = .ok e ∧
        e = .unary .group (.literal (.text t)) ∧ e.fields = [] ∧
        ∀ m data row, e.eval m data row = .ok (.text t) := by
  refine ⟨ofTemplate_written t, rfl, fun q hq => ?_⟩
  have hsource := ofSource_written hq t
  exact ⟨hsource, _, ofTemplate_interpolated hsource, rfl, rfl, fun _ _ _ => rfl⟩

/-- Quotes, a backslash, a sigil, braces and a line break mean nothing behind a backslash. -/
theorem ofTemplate_escaped_marks :
    Expr.ofTemplate "n\\\"\\'\\\\\\$\\é\\\x7b\\\x7b\\\nt\\\x7d\\\x7d" =
      .ok (.literal (.text "n\"'\\$é\x7b\x7b\nt\x7d\x7d")) ∧
    Expr.ofSource (inQuotes '\'' "n\\\"\\'\\\\\\$\\é\\\x7b\\\x7b\\\nt\\\x7d\\\x7d") =
      .ok (.literal (.text "n\"'\\$é\x7b\x7b\nt\x7d\x7d")) := by
  have hwritten : escaped "n\"'\\$é\x7b\x7b\nt\x7d\x7d" =
      "n\\\"\\'\\\\\\$\\é\\\x7b\\\x7b\\\nt\\\x7d\\\x7d" := by decide
  obtain ⟨htemplate, _, hquoted⟩ := ofTemplate_escaped "n\"'\\$é\x7b\x7b\nt\x7d\x7d"
  rw [hwritten] at htemplate hquoted
  exact ⟨htemplate, (hquoted '\'' (by decide)).1⟩

end Template

end LiveScope
