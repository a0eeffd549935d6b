import LiveScope.Proofs.Expr.Evaluation
import LiveScope.Proofs.Expr.Spans
import LiveScope.Proofs.Template.Escaping

/-!
# Texts without marks are constants

Something live begins with a sigil or with two opening braces, but not each of these begins
something live, since a backslash may stand before it. `Template.isLive` looks for the marks only,
and this is enough: a text that has none is read as its characters, with what the backslashes in it
stand for (`Template.readsPlain_of_not_live`), and so as one constant
(`Template.constant_of_not_live`), unless a backslash at its end makes it malformed.
-/

namespace LiveScope

/-- The members of the row in an expression, from left to right. -/
def Expr.properties : Expr → List String
  | literal _ | reference _ => []
  | property name => [name]
  | unary _ e => e.properties
  | binary _ l r => l.properties ++ r.properties

/-- Whether there is nothing in an expression that its value could depend on. -/
structure Expr.Inert (e : Expr) : Prop where
  /-- It reads no field. -/
  fields : e.fields = []
  /-- It refers to no scope. -/
  names : e.names = []
  /-- It reads no member of the row. -/
  properties : e.properties = []

/-- A constant is inert. -/
theorem Expr.inert_literal (v : Literal) : (literal v).Inert := ⟨rfl, rfl, rfl⟩

namespace Template

open Lexeme

/-- What follows the first character of a text without marks has none, and the first character
begins none. -/
theorem isLive_cons {c : Char} {cs : List Char} (h : isLive (c :: cs) = false) :
    isLive cs = false ∧ c ≠ '$' ∧ ∀ ds, c = '{' → cs ≠ '{' :: ds := by
  unfold isLive at h
  split at h
  · rename_i heq
    cases heq
  · cases h
  · rename_i hbraces heq
    obtain ⟨rfl, rfl⟩ := List.cons.inj heq
    obtain ⟨hsigil, hrest⟩ := (Bool.or_eq_false_iff ..).1 h
    exact ⟨hrest, beq_eq_false_iff_ne.1 hsigil, hbraces⟩

/-- What a text without marks is read as: the characters that it stands for, one piece each, unless
a backslash is left at its end. -/
def ReadsPlain (cs : List Char) : Prop :=
  (∃ before, cs = before ++ ['\\'] ∧ ∀ offset,
    pieces offset cs = .error (.malformed (offset + bytes before) .malformedEscape)) ∨
  ∀ offset, ∃ ps, pieces offset cs = .ok ps ∧
    ps.map Prod.snd = (Expr.unquote.unescape cs).map .char

/-- A text is read so if what follows its first character is, which may have a backslash before
it. -/
theorem ReadsPlain.append {cs : List Char} (front : List Char) (c : Char) (h : ReadsPlain cs)
    (hpieces : ∀ offset, pieces offset (front ++ cs) =
      do return (offset, .char c) :: (← pieces (offset + bytes front) cs))
    (hstands : Expr.unquote.unescape (front ++ cs) = c :: Expr.unquote.unescape cs) :
    ReadsPlain (front ++ cs) := by
  rcases h with ⟨before, hcs, hfails⟩ | hreads
  · refine .inl ⟨front ++ before, by rw [hcs, List.append_assoc], fun offset => ?_⟩
    rw [hpieces, hfails, bytes_append, ← Nat.add_assoc]
    rfl
  · refine .inr fun offset => ?_
    obtain ⟨ps, hps, hchars⟩ := hreads (offset + bytes front)
    refine ⟨(offset, .char c) :: ps, ?_, ?_⟩
    · rw [hpieces, hps]
      rfl
    · rw [hstands, List.map_cons, List.map_cons, hchars]

/-- A text without marks is read as the characters that it stands for. -/
theorem readsPlain_of_not_live {cs : List Char} (h : isLive cs = false) : ReadsPlain cs := by
  -- By the recursion of what a text stands for, which knows nothing but backslashes.
  fun_induction Expr.unquote.unescape cs with
  | case1 => exact .inr fun offset => ⟨[], by rw [pieces], rfl⟩
  | case2 => exact .inl ⟨[], rfl, fun offset => by rw [pieces]; rfl⟩
  | case3 c cs ih =>
    have hrest := (isLive_cons (isLive_cons h).1).1
    refine ReadsPlain.append ['\\', c] (unescape c) (ih hrest) (fun offset => ?_) rfl
    rw [List.cons_append, List.singleton_append, pieces]
  | case4 c cs hend hescape ih =>
    obtain ⟨hrest, hsigil, hbraces⟩ := isLive_cons h
    refine ReadsPlain.append [c] c (ih hrest) (fun offset => ?_) ?_
    · rw [List.singleton_append, pieces]
      · exact hend
      · exact hescape
      · exact hbraces
      · exact hsigil
    · rw [List.singleton_append, Expr.unquote.unescape]
      · exact hend
      · exact hescape

/-- A text without marks is one constant, as a template too, unless it is malformed because a
backslash is left at its end. -/
theorem constant_of_not_live {src : String} (h : isLive src.toList = false) :
    (∃ before, src.toList = before ++ ['\\'] ∧
      (∀ offset, tokens offset src.toList =
        .error (.malformed (offset + bytes before) .malformedEscape)) ∧
      Expr.ofTemplate src = .error (.malformed (bytes before) .malformedEscape)) ∨
    (∀ offset, ∃ o, tokens offset src.toList =
      .ok [⟨.literal, quote (Expr.unquote.unescape src.toList), o⟩]) ∧
    Expr.ofTemplate src =
      .ok (.literal (.text (String.ofList (Expr.unquote.unescape src.toList)))) := by
  rcases readsPlain_of_not_live h with ⟨before, hsrc, hfails⟩ | hreads
  · have htokens (offset : Nat) : tokens offset src.toList =
        .error (.malformed (offset + bytes before) .malformedEscape) := by
      rw [tokens_eq, parts, hfails]
      rfl
    refine .inl ⟨before, hsrc, htokens, ?_⟩
    unfold Expr.ofTemplate
    rw [htokens, Nat.zero_add]
    rfl
  · refine .inr ⟨fun offset => ?_, ?_⟩
    · obtain ⟨ps, hps, hchars⟩ := hreads offset
      exact tokens_of_characters hps hchars
    · obtain ⟨ps, hps, hchars⟩ := hreads 0
      exact ofTemplate_of_characters hps hchars

end Template

end LiveScope
