import LiveScope.Proofs.Outcome
import LiveScope.Expr.Lexer
import LiveScope.Number
import Mathlib.Data.List.TakeDrop

/-!
# Numerals

What the lexeme of a number looks like and what is read from it. `Lexeme.number` takes digits, a
fraction if digits follow the point, and an exponent if digits follow the letter
(`Lexeme.numeral_number`). `Decimal.read?` reads every text of this form
(`Decimal.read?_of_numeral`), and since a numeral has no sign of its own it reads the float nearest
to a decimal that is not negative.
-/

namespace LiveScope

namespace Lexeme

/-- Whether a text consists of digits. -/
def Digits (cs : List Char) : Prop := ∀ c ∈ cs, isDigit c = true

/-- A fraction: nothing, or a point and digits. -/
def Fractional (cs : List Char) : Prop := cs = [] ∨ ∃ ds, cs = '.' :: ds ∧ ds ≠ [] ∧ Digits ds

/-- An exponent: nothing, or its letter, a sign or none, and digits. -/
def Exponential (cs : List Char) : Prop :=
  cs = [] ∨ ∃ e sign ds, cs = e :: sign ++ ds ∧ (e = 'e' ∨ e = 'E') ∧
    (sign = [] ∨ sign = ['+'] ∨ sign = ['-']) ∧ ds ≠ [] ∧ Digits ds

/-- A numeral: digits, a fraction and an exponent. -/
def Numeral (cs : List Char) : Prop :=
  ∃ whole fraction exponent, cs = whole ++ fraction ++ exponent ∧ whole ≠ [] ∧ Digits whole ∧
    Fractional fraction ∧ Exponential exponent

/-- The digits at the start of a text are digits. -/
theorem digits_takeWhile (cs : List Char) : Digits (cs.takeWhile isDigit) :=
  fun c hc => List.all_eq_true.1 List.all_takeWhile c hc

/-- The fraction of a number is one. -/
theorem fractional_fraction (cs : List Char) : Fractional (fraction cs) := by
  unfold fraction
  split
  · rename_i cs
    split
    · exact .inl rfl
    · rename_i hne
      exact .inr ⟨_, rfl, hne, digits_takeWhile cs⟩
  · exact .inl rfl

/-- The exponent of a number is one. -/
theorem exponential_exponent (cs : List Char) : Exponential (exponent cs) := by
  unfold exponent
  split
  · rename_i e cs
    split
    · rename_i he
      dsimp only
      split
      · exact .inl rfl
      · rename_i hne
        refine .inr ⟨e, _, _, rfl, he, ?_, hne, digits_takeWhile _⟩
        split
        · exact .inr (.inl rfl)
        · exact .inr (.inr rfl)
        · exact .inl rfl
    · exact .inl rfl
  · exact .inl rfl

/-- The number at the start of a text that starts with a digit is a numeral. -/
theorem numeral_number {c : Char} (hc : isDigit c = true) (cs : List Char) :
    Numeral (number (c :: cs)) := by
  refine ⟨_, _, _, rfl, ?_, digits_takeWhile _, fractional_fraction _, exponential_exponent _⟩
  rw [List.takeWhile_cons_of_pos hc]
  exact List.cons_ne_nil _ _

end Lexeme

namespace Decimal

open Lexeme

/-- The digits of the lexer are those of the reader. -/
theorem isSome_digit? (c : Char) : (digit? c).isSome = isDigit c := by
  unfold digit? isDigit
  by_cases h : '0' ≤ c ∧ c ≤ '9'
  · rw [if_pos h]
    simp [h]
  · rw [if_neg h]
    simpa using h

/-- The reader takes digits up to what is none. -/
theorem spanDigits_append {ds rest : List Char} (hds : Digits ds)
    (hrest : ∀ c ∈ rest.head?, isDigit c = false) : spanDigits (ds ++ rest) = (ds, rest) := by
  have hdigit : (fun c => (digit? c).isSome) = isDigit := funext isSome_digit?
  unfold spanDigits
  rw [hdigit, List.span_eq_takeWhile_dropWhile, List.takeWhile_append_of_pos hds,
    List.dropWhile_append_of_pos hds]
  cases rest with
  | nil => simp
  | cons c rest =>
    have hc := hrest c rfl
    rw [List.takeWhile_cons_of_neg (by simp [hc]), List.dropWhile_cons_of_neg (by simp [hc]),
      List.append_nil]

/-- What starts with a digit has no sign. -/
theorem sign_of_digit {d : Char} (hd : isDigit d = true) (ds : List Char) :
    sign (d :: ds) = (false, d :: ds) := by
  unfold sign
  split
  · rename_i h
    obtain ⟨rfl, _⟩ := List.cons.inj h
    exact absurd hd (by decide)
  · rename_i h
    obtain ⟨rfl, _⟩ := List.cons.inj h
    exact absurd hd (by decide)
  · rfl

/-- No word starts with a digit. -/
theorem word?_of_digit {d : Char} (hd : isDigit d = true) (negative : Bool) (ds : List Char) :
    word? negative (d :: ds) = none := by
  -- A digit is the same in either case, and no letter.
  have hlower : d.toLower = d := by
    have hle : d ≤ '9' := by
      unfold isDigit at hd
      simp only [Bool.and_eq_true, decide_eq_true_eq] at hd
      exact hd.2
    have hnot : ¬ (d.val ≥ 'A'.val ∧ d.val ≤ 'Z'.val) := by
      rintro ⟨hA, _⟩
      have h9 : d.val ≤ '9'.val := hle
      have : 'A'.val ≤ '9'.val := UInt32.le_trans hA h9
      exact absurd this (by decide)
    unfold Char.toLower
    rw [dif_neg hnot]
  have hne (word : String) (h : word.toList.head?.any isDigit = false) :
      String.ofList ((d :: ds).map Char.toLower) ≠ word := by
    intro heq
    have hlist := congrArg String.toList heq
    rw [String.toList_ofList, List.map_cons, hlower] at hlist
    rw [← hlist, List.head?_cons, Option.any_some, hd] at h
    cases h
  unfold word?
  split
  · rename_i h
    exact absurd h (hne _ rfl)
  · rename_i h
    exact absurd h (hne _ rfl)
  · rename_i h
    exact absurd h (hne _ rfl)
  · rfl

/-- The exponent of a numeral is read. -/
theorem exists_exponent? {cs : List Char} (h : Exponential cs) : ∃ n, exponent? cs = some n := by
  rcases h with rfl | ⟨e, s, ds, rfl, he, hs, hne, hds⟩
  · exact ⟨0, rfl⟩
  · have hspan : spanDigits ds = (ds, []) := by
      have hend : ∀ c ∈ ([] : List Char).head?, isDigit c = false := by simp
      have := spanDigits_append hds hend
      rwa [List.append_nil] at this
    obtain ⟨d, ds, rfl⟩ := List.exists_cons_of_ne_nil hne
    have hsign : ∃ negative, sign (s ++ d :: ds) = (negative, d :: ds) := by
      rcases hs with rfl | rfl | rfl
      · exact ⟨false, sign_of_digit (hds d List.mem_cons_self) ds⟩
      · exact ⟨false, rfl⟩
      · exact ⟨true, rfl⟩
    obtain ⟨negative, hsign⟩ := hsign
    refine ⟨if negative then -(natural 0 (d :: ds) : Int) else natural 0 (d :: ds), ?_⟩
    rw [List.cons_append, exponent?, if_pos he, hsign]
    dsimp only
    rw [hspan]

/-- Digits with a fraction before an exponent are read digit by digit. -/
theorem magnitude?_append {whole fraction rest : List Char} (hne : whole ≠ [])
    (hwhole : Digits whole) (hfraction : Fractional fraction)
    (hrest : ∀ c ∈ rest.head?, isDigit c = false ∧ c ≠ '.') (negative : Bool) :
    magnitude? negative (whole ++ fraction ++ rest) = (exponent? rest).map fun e =>
      toFloat negative (natural (natural 0 whole) (fraction.drop 1))
        (e - ((fraction.drop 1).length : Nat)) := by
  have hempty : whole.isEmpty = false := by
    cases whole with
    | nil => exact absurd rfl hne
    | cons => rfl
  unfold magnitude?
  rcases hfraction with rfl | ⟨ds, rfl, hds, hdigits⟩
  · -- Without a fraction the digits are followed by no point.
    rw [List.append_nil, spanDigits_append hwhole fun c hc => (hrest c hc).1]
    dsimp only
    split
    · exact absurd rfl (hrest '.' rfl).2
    · rw [if_neg (by simp [hempty])]
      rfl
  · rw [List.append_assoc, spanDigits_append hwhole (by
      intro c hc
      obtain rfl := Option.some.inj hc
      decide)]
    have hspan := spanDigits_append hdigits fun c hc => (hrest c hc).1
    show (if whole.isEmpty ∧ (spanDigits (ds ++ rest)).1.isEmpty then none
      else (exponent? (spanDigits (ds ++ rest)).2).map fun e =>
        toFloat negative (natural (natural 0 whole) (spanDigits (ds ++ rest)).1)
          (e - (spanDigits (ds ++ rest)).1.length)) = _
    rw [hspan, if_neg (by simp [hempty])]
    rfl

/-- What is read from digits with a fraction and an exponent, which have no sign. -/
theorem read?_append {whole fraction rest : List Char} (hne : whole ≠ []) (hwhole : Digits whole)
    (hfraction : Fractional fraction) (hrest : ∀ c ∈ rest.head?, isDigit c = false ∧ c ≠ '.') :
    read? (String.ofList (whole ++ fraction ++ rest)) = (exponent? rest).map fun e =>
      toFloat false (natural (natural 0 whole) (fraction.drop 1))
        (e - ((fraction.drop 1).length : Nat)) := by
  rw [← magnitude?_append hne hwhole hfraction hrest false]
  obtain ⟨d, ds, rfl⟩ := List.exists_cons_of_ne_nil hne
  have hd := hwhole d List.mem_cons_self
  unfold read?
  rw [String.toList_ofList, List.cons_append, List.cons_append, sign_of_digit hd]
  dsimp only
  rw [word?_of_digit hd]

/-- A numeral is read as the float nearest to a decimal that is not negative. -/
theorem read?_of_numeral {cs : List Char} (h : Numeral cs) :
    ∃ coefficient exponent,
      read? (String.ofList cs) = some (toFloat false coefficient exponent) := by
  obtain ⟨whole, fraction, exponent, rfl, hne, hwhole, hfraction, hexponent⟩ := h
  obtain ⟨n, hn⟩ := exists_exponent? hexponent
  have hrest : ∀ c ∈ exponent.head?, isDigit c = false ∧ c ≠ '.' := by
    rcases hexponent with rfl | ⟨e, s, es, rfl, he, _⟩
    · simp
    · intro c hc
      obtain rfl := Option.some.inj hc
      rcases he with rfl | rfl <;> decide
  rw [read?_append hne hwhole hfraction hrest, hn]
  exact ⟨_, _, rfl⟩

end Decimal

end LiveScope
