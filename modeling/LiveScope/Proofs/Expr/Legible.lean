import LiveScope.Proofs.Expr.Classes
import LiveScope.Proofs.Formula.Fields

/-!
# What the leaves of a parsed tree look like

A tree can hold any names and numbers, but one that is read from a text holds only what the lexer
takes for a token (`Expr.Legible`): its references and members of the spec row can be written, and
its numbers are nearest to decimals without a sign. `Spells.legible` says so of every tree that
tokens of their classes spell, the sources of interpolations included.
-/

namespace LiveScope

open Lexeme

namespace Expr

/-- Whether the leaves of a tree are such as are read from a source. -/
def Legible : Expr → Prop
  | literal (.number x) => ∃ coefficient exponent, x = Decimal.toFloat false coefficient exponent
  | literal _ => True
  | reference n => IsReference n.text.toList ∧ n.Stripped
  | property name => IsProperty ('@' :: name.toList)
  | unary _ e => e.Legible
  | binary _ l r => l.Legible ∧ r.Legible

/-- Whether a tree is read from a source or from a template. -/
def IsRead (e : Expr) : Prop := (∃ src, ofSource src = .ok e) ∨ ∃ src, ofTemplate src = .ok e

/-- What is read from a literal is legible. -/
theorem legible_of_ofLiteral {t : Token} (ht : IsLiteral t.src.toList) {e : Expr}
    (h : ofLiteral t = .ok e) : e.Legible := by
  unfold ofLiteral at h
  split at h
  · obtain rfl := Except.ok.inj h
    trivial
  · obtain rfl := Except.ok.inj h
    trivial
  · obtain rfl := Except.ok.inj h
    trivial
  · rename_i src htrue hfalse hnull
    split at h
    · obtain rfl := Except.ok.inj h
      trivial
    · rename_i hquote
      split at h
      · -- What is neither a keyword nor quoted is a numeral, and is rounded to the number.
        rename_i x hread
        obtain rfl := Except.ok.inj h
        rcases ht with hword | hnumeral | ⟨run, hrun⟩
        · rw [String.ofList_toList] at hword
          simp only [keywords, List.mem_cons, List.not_mem_nil, or_false] at hword
          rcases hword with hword | hword | hword
          · exact absurd hword htrue
          · exact absurd hword hfalse
          · exact absurd hword hnull
        · obtain ⟨coefficient, exponent, hnearest⟩ := Decimal.read?_of_numeral hnumeral
          rw [String.ofList_toList, hread] at hnearest
          exact ⟨coefficient, exponent, Option.some.inj hnearest⟩
        · rw [String.ofList_toList] at hrun
          rw [hrun] at hquote
          unfold Template.quote at hquote
          rw [String.toList_ofList] at hquote
          exact absurd rfl hquote
      · cases h

end Expr

/-- What is read from a token of its class is legible. -/
theorem Token.Regular.legible {t : Token} (h : t.Regular) {e : Expr} (he : t.leaf? = some e) :
    e.Legible := by
  obtain ⟨kind, src, offset⟩ := t
  unfold Token.leaf? at he
  split at he
  · rename_i hk
    obtain rfl : kind = .reference := hk
    obtain rfl := Option.some.inj he
    refine ⟨?_, ScopedName.stripped_ofString src⟩
    rw [ScopedName.text_ofString]
    exact h
  · rename_i hk
    obtain rfl : kind = .property := hk
    obtain rfl := Option.some.inj he
    obtain ⟨name, hsrc, hne, hname⟩ : IsProperty src.toList := h
    -- The name has no sigil of its own that would be dropped with the first one.
    have hdrop : src.toList.dropWhile (· == '@') = name := by
      obtain ⟨c, cs, rfl⟩ := List.exists_cons_of_ne_nil hne
      have hc : c ≠ '@' := by
        rintro rfl
        exact absurd (hname '@' List.mem_cons_self) (by decide)
      rw [hsrc, List.dropWhile_cons_of_pos rfl, List.dropWhile_cons_of_neg (by simpa using hc)]
    show IsProperty ('@' :: (String.ofList (src.toList.dropWhile (· == '@'))).toList)
    rw [hdrop, String.toList_ofList]
    exact ⟨name, rfl, hne, hname⟩
  · rename_i hk
    obtain rfl : kind = .literal := hk
    cases hread : Expr.ofLiteral ⟨.literal, src, offset⟩ with
    | ok e' =>
      rw [hread] at he
      obtain rfl := Option.some.inj he
      exact Expr.legible_of_ofLiteral h hread
    | error =>
      rw [hread] at he
      cases he
  · cases he

/-- A tree that tokens of their classes spell is legible. -/
theorem Spells.legible {e : Expr} {ts : List Token} (h : Spells e ts)
    (hts : ∀ t ∈ ts, t.Regular) : e.Legible := by
  induction h with
  | leaf tree => exact (hts _ List.mem_cons_self).legible tree
  | interpolation kind scan _ ih =>
    exact ih fun t ht => Token.regular_of_mem_scan scan (List.mem_of_mem_filter ht)
  | group opens closes _ ih => exact ih fun t ht => hts t (by simp [ht])
  | unary op_eq _ ih => exact ih fun t ht => hts t (List.mem_cons_of_mem _ ht)
  | binary _ op_eq _ ihl ihr =>
    exact ⟨ihl fun t ht => hts t (List.mem_append_left _ ht),
      ihr fun t ht => hts t (List.mem_append_right _ (List.mem_cons_of_mem _ ht))⟩

namespace Expr

/-- A tree that is read is legible. -/
theorem IsRead.legible {e : Expr} (h : e.IsRead) : e.Legible := by
  rcases h with ⟨src, h⟩ | ⟨src, h⟩
  · obtain ⟨ts, hscan, hparse⟩ := bind_eq_ok_iff.1 h
    have htree := Parser.run_isTree (fun t ht => (Token.mem_scan hscan ht).1) hparse
    exact htree.spells.legible fun t ht =>
      Token.regular_of_mem_scan hscan (List.mem_of_mem_filter ht)
  · obtain ⟨ts, htokens, hparse⟩ := bind_eq_ok_iff.1 h
    have htree := Parser.run_isTree (fun t ht => (mem_templateTokens htokens ht).1) hparse
    exact htree.spells.legible fun t ht =>
      Token.regular_of_mem_template htokens (List.mem_of_mem_filter ht)

end Expr

end LiveScope
