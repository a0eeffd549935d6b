import LiveScope.Proofs.Template.Meaning

/-!
# Any expression can stand in a template

The end of an interpolation is found by counting braces outside of quoted strings, before anything
is known of the expression between them; the end of a quoted string is found by its quote alone.
Both ways of looking pass over a whole expression (`Passes`), because outside of its quoted strings
an expression has no quotes, braces or backslashes (`Lexeme.not_mem_marks_of_next?`) and all agree
on where a quoted string ends. `Template.ofTemplate_embed` is the result: between the braces stands
exactly the expression that was put there.
-/

namespace LiveScope

/-- Whether a reader that splits a text passes over what stands at its start. -/
def Passes (read : List Char → Option (List Char × List Char)) (xs : List Char) : Prop :=
  ∀ rest, read (xs ++ rest) = (read rest).map fun (taken, left) => (xs ++ taken, left)

namespace Passes

variable {read : List Char → Option (List Char × List Char)} {xs ys : List Char}

/-- Nothing is passed over. -/
theorem nil : Passes read [] := by
  intro rest
  rw [List.nil_append]
  cases read rest <;> rfl

/-- What is passed over one after the other is passed over. -/
theorem append (hx : Passes read xs) (hy : Passes read ys) : Passes read (xs ++ ys) := by
  intro rest
  rw [List.append_assoc, hx, hy, Option.map_map]
  refine congrArg (fun f => (read rest).map f) (funext fun ⟨taken, left⟩ => ?_)
  simp only [Function.comp_apply, List.append_assoc]

/-- What each character of is passed over is passed over. -/
theorem of_forall (h : ∀ c ∈ xs, Passes read [c]) : Passes read xs := by
  induction xs with
  | nil => exact nil
  | cons c xs ih =>
    exact append (h c List.mem_cons_self) (ih fun d hd => h d (List.mem_cons_of_mem c hd))

/-- What comes after is read as if nothing stood before. -/
theorem eq_some (h : Passes read xs) {rest taken left : List Char}
    (hrest : read rest = some (taken, left)) :
    read (xs ++ rest) = some (xs ++ taken, left) := by
  rw [h, hrest]
  rfl

end Passes

namespace Lexeme

/-! ## Characters that mean something to those who look for an end -/

/-- Quotes, braces and the backslash. -/
def marks : List Char := ['"', '\'', '`', '{', '}', '\\']

/-- What meets a condition that no mark meets is no mark. -/
theorem not_mem_marks {p : Char → Bool} (hp : marks.all (!p ·) = true) {c : Char}
    (hc : p c = true) : c ∉ marks := by
  intro hmem
  have hmark := List.all_eq_true.1 hp c hmem
  rw [hc] at hmark
  cases hmark

/-- The start of a text that meets such a condition has no marks. -/
theorem not_mem_marks_takeWhile {p : Char → Bool} (hp : marks.all (!p ·) = true)
    (cs : List Char) : ∀ c ∈ cs.takeWhile p, c ∉ marks := by
  intro c hc
  exact not_mem_marks hp (List.all_eq_true.1 List.all_takeWhile c hc)

/-- A number has no marks. -/
theorem not_mem_marks_number (cs : List Char) : ∀ c ∈ number cs, c ∉ marks := by
  have hdigits (cs : List Char) : ∀ c ∈ cs.takeWhile isDigit, c ∉ marks :=
    not_mem_marks_takeWhile (by decide) cs
  have hfraction (cs : List Char) : ∀ c ∈ fraction cs, c ∉ marks := by
    unfold fraction
    split
    · split
      · simp
      · intro c hc
        rcases List.mem_cons.1 hc with rfl | hc
        · decide
        · exact hdigits _ c hc
    · simp
  have hexponent (cs : List Char) : ∀ c ∈ exponent cs, c ∉ marks := by
    unfold exponent
    split
    · rename_i e cs
      split
      · rename_i he
        dsimp only
        split
        · simp
        · intro c hc
          simp only [List.cons_append, List.mem_cons, List.mem_append] at hc
          rcases hc with rfl | hc | hc
          · rcases he with rfl | rfl <;> decide
          · split at hc
            · obtain rfl := List.mem_singleton.1 hc
              decide
            · obtain rfl := List.mem_singleton.1 hc
              decide
            · cases hc
          · exact hdigits _ c hc
      · simp
    · simp
  intro c hc
  unfold number at hc
  rcases List.mem_append.1 hc with hc | hc
  · rcases List.mem_append.1 hc with hc | hc
    · exact hdigits _ c hc
    · exact hfraction _ c hc
  · exact hexponent _ c hc

/-- An operator has no marks. -/
theorem not_mem_marks_operator {cs src : List Char} {kind : TokenKind}
    (h : operator? cs = some (.token kind src)) : ∀ c ∈ src, c ∉ marks := by
  unfold operator? at h
  split at h
  case h_20 => cases h
  all_goals
    obtain ⟨rfl, rfl⟩ := Shape.token.inj (Option.some.inj h)
    simp [marks]

/-- A token that is no quoted string has no marks. -/
theorem not_mem_marks_of_next? {cs src : List Char} {kind : TokenKind}
    (h : next? cs = some (.token kind src)) : ∀ c ∈ src, c ∉ marks := by
  -- The cases are those of `next?`: its first character decides the kind of the token.
  have cons {c : Char} {ds : List Char} (hc : c ∉ marks) (hds : ∀ d ∈ ds, d ∉ marks) :
      ∀ d ∈ c :: ds, d ∉ marks := by
    intro d hd
    rcases List.mem_cons.1 hd with rfl | hd
    · exact hc
    · exact hds d hd
  cases cs with
  | nil => cases h
  | cons c cs =>
    simp only [next?] at h
    split at h
    · rename_i hblank
      obtain ⟨rfl, rfl⟩ := Shape.token.inj (Option.some.inj h)
      exact cons (not_mem_marks (by decide) hblank) (not_mem_marks_takeWhile (by decide) _)
    split at h
    · rename_i hsigil
      obtain ⟨rfl, rfl⟩ := Shape.token.inj (Option.some.inj h)
      subst hsigil
      refine cons (by decide) fun d hd => ?_
      rcases List.mem_append.1 hd with hd | hd
      · exact not_mem_marks_takeWhile (by decide) _ d hd
      · exact not_mem_marks_takeWhile (by decide) _ d hd
    split at h
    · rename_i hat
      subst hat
      split at h
      · cases h
      · obtain ⟨rfl, rfl⟩ := Shape.token.inj (Option.some.inj h)
        exact cons (by decide) (not_mem_marks_takeWhile (by decide) _)
    split at h
    · rename_i hname
      obtain ⟨rfl, rfl⟩ := Shape.token.inj (Option.some.inj h)
      exact cons (not_mem_marks (by decide) hname) (not_mem_marks_takeWhile (by decide) _)
    split at h
    · obtain ⟨rfl, rfl⟩ := Shape.token.inj (Option.some.inj h)
      exact not_mem_marks_number _
    split at h
    · obtain ⟨⟨body, rest⟩, _, he⟩ := Option.map_eq_some_iff.1 h
      cases he
    · exact not_mem_marks_operator h

/-! ## Quoted strings -/

/-- The equation of `quotedBody?` for a character that does not end the string. -/
theorem quotedBody?_cons {q c : Char} (hc : c ≠ '\\') (hq : c ≠ q) (cs : List Char) :
    quotedBody? q (c :: cs) = (quotedBody? q cs).map fun (body, rest) => (c :: body, rest) := by
  rw [quotedBody?, if_neg hq]
  · exact fun h _ => hc h
  · exact fun _ _ h _ => hc h

/-- The quote ends the string. -/
theorem quotedBody?_quote {q : Char} (hq : isQuote q = true) (cs : List Char) :
    quotedBody? q (q :: cs) = some ([], cs) := by
  have hslash : q ≠ '\\' := by
    rintro rfl
    exact absurd hq (by decide)
  rw [quotedBody?, if_pos rfl]
  · exact fun h _ => hslash h
  · exact fun _ _ h _ => hslash h

/-- What a quoted string holds does not depend on what follows it. -/
theorem quotedBody?_of_append {q : Char} {cs body rest : List Char}
    (h : quotedBody? q cs = some (body, rest)) (rest' : List Char) :
    quotedBody? q (body ++ q :: rest') = some (body, rest') := by
  fun_induction quotedBody? q cs generalizing body rest with
  | case1 => cases h
  | case2 => cases h
  | case3 c cs ih =>
    obtain ⟨⟨b, r⟩, hb, he⟩ := Option.map_eq_some_iff.1 h
    obtain ⟨rfl, rfl⟩ := Prod.mk.inj he
    rw [List.cons_append, List.cons_append, quotedBody?, ih hb]
    rfl
  | case4 cs h1 h2 =>
    obtain ⟨rfl, rfl⟩ := Prod.mk.inj (Option.some.inj h)
    have hc : q ≠ '\\' := ne_backslash h1 h2
    rw [List.nil_append, quotedBody?, if_pos rfl]
    · exact fun h _ => hc h
    · exact fun _ _ h _ => hc h
  | case5 c cs h1 h2 hne ih =>
    obtain ⟨⟨b, r⟩, hb, he⟩ := Option.map_eq_some_iff.1 h
    obtain ⟨rfl, rfl⟩ := Prod.mk.inj he
    have hc : c ≠ '\\' := ne_backslash h1 h2
    rw [List.cons_append, quotedBody?_cons hc hne, ih hb]
    rfl

/-- One who looks for the end of a string passes over what another string holds, if the quote is not
in it: both take backslashes with the characters after them. -/
theorem passes_quotedBody {q q' : Char} {cs body rest : List Char}
    (h : quotedBody? q' cs = some (body, rest)) (hq : q ∉ body) : Passes (quotedBody? q) body := by
  fun_induction quotedBody? q' cs generalizing body rest with
  | case1 => cases h
  | case2 => cases h
  | case3 c cs ih =>
    obtain ⟨⟨b, r⟩, hb, he⟩ := Option.map_eq_some_iff.1 h
    obtain ⟨rfl, rfl⟩ := Prod.mk.inj he
    have hpair : Passes (quotedBody? q) ['\\', c] := fun rest => by
      rw [List.cons_append, List.singleton_append, quotedBody?]
      rfl
    exact hpair.append (ih hb fun hmem => hq (List.mem_cons_of_mem _ (List.mem_cons_of_mem _ hmem)))
  | case4 c cs =>
    obtain ⟨rfl, _⟩ := Prod.mk.inj (Option.some.inj h)
    exact .nil
  | case5 c cs h1 h2 hne ih =>
    obtain ⟨⟨b, r⟩, hb, he⟩ := Option.map_eq_some_iff.1 h
    obtain ⟨rfl, rfl⟩ := Prod.mk.inj he
    have hc : c ≠ '\\' := ne_backslash h1 h2
    have hcq : c ≠ q := by
      rintro rfl
      exact hq List.mem_cons_self
    have hone : Passes (quotedBody? q) [c] := quotedBody?_cons hc hcq
    exact hone.append (ih hb fun hmem => hq (List.mem_cons_of_mem _ hmem))

end Lexeme

open Lexeme

/-! ## Passing over an expression -/

/-- A reader passes over a source that can be scanned if it passes over characters that are no marks
and over the quoted strings in it. -/
theorem Passes.of_scan {read : List Char → Option (List Char × List Char)} {offset : Nat}
    {cs : List Char} {ts : List Token} (h : Token.scan offset cs = .ok ts)
    (hplain : ∀ c ∈ cs, c ∉ marks → Passes read [c])
    (hquoted : ∀ q body, (∀ c ∈ q :: body, c ∈ cs) → isQuote q = true →
      (∀ rest, quotedBody? q (body ++ q :: rest) = some (body, rest)) →
      Passes read (q :: body ++ [q])) : Passes read cs := by
  fun_induction Token.scan offset cs generalizing ts with
  | case1 offset cs hnil =>
    rw [List.isEmpty_iff.1 hnil]
    exact .nil
  | case2 => cases h
  | case3 offset cs hne shape hnext ih =>
    obtain ⟨here, _, h⟩ := bind_eq_ok_iff.1 h
    obtain ⟨later, hlater, _⟩ := bind_eq_ok_iff.1 h
    -- The source is the lexeme and the rest, and what is in the rest is in the source.
    have hsplit : ∃ rest, cs = shape.src ++ rest ∧ Passes read shape.src := by
      rcases next?_cases hnext with
        ⟨kind, src, rfl, ⟨rest, rfl⟩, _⟩ | ⟨q, body, rest, rfl, hq, hbody, rfl⟩
      · exact ⟨rest, rfl, .of_forall fun c hc => hplain c (List.mem_append_left _ hc)
          (not_mem_marks_of_next? hnext c hc)⟩
      · refine ⟨rest, by simp [Shape.src], hquoted q body (fun c hc => ?_) hq
          (quotedBody?_of_append hbody)⟩
        rcases List.mem_cons.1 hc with rfl | hc
        · exact List.mem_cons_self
        · exact List.mem_cons_of_mem _ (List.mem_append_left _ hc)
    obtain ⟨rest, rfl, hpasses⟩ := hsplit
    rw [List.drop_left] at hlater ih
    exact hpasses.append (ih hlater (fun c hc => hplain c (List.mem_append_right _ hc))
      fun q body hmem => hquoted q body fun c hc => List.mem_append_right _ (hmem c hc))

namespace Template

/-- One who looks for the end of an interpolation passes over an expression. -/
theorem passes_interpolation {offset : Nat} {cs : List Char} {ts : List Token}
    (h : Token.scan offset cs = .ok ts) (depth : Nat) : Passes (interpolation? depth) cs := by
  refine .of_scan h (fun c _ hc rest => ?_) fun q body _ hq hbody rest => ?_
  · have hplain : isQuote c = false ∧ c ≠ '{' ∧ c ≠ '}' := by
      simp only [marks, List.mem_cons, List.not_mem_nil, or_false, not_or] at hc
      simp [isQuote, hc]
    rw [List.singleton_append, interpolation?, if_neg (by simp [hplain])]
    · rfl
    · exact fun _ h _ => hplain.2.1 h
    · exact fun _ h _ => hplain.2.2 h
  · have hplain : q ≠ '{' ∧ q ≠ '}' := by
      constructor <;> rintro rfl <;> exact absurd hq (by decide)
    have happend : q :: body ++ [q] ++ rest = q :: (body ++ q :: rest) := by simp
    rw [happend, interpolation?, if_pos hq]
    · split
      · rename_i hnone
        rw [hbody] at hnone
        cases hnone
      · rename_i hsome
        rw [hbody] at hsome
        obtain ⟨rfl, rfl⟩ := Prod.mk.inj (Option.some.inj hsome)
        simp
    · exact fun _ h _ => hplain.1 h
    · exact fun _ h _ => hplain.2 h

/-- One who looks for the end of a string passes over an expression that its quote is not in. -/
theorem passes_quoted {offset : Nat} {cs : List Char} {ts : List Token}
    (h : Token.scan offset cs = .ok ts) {q : Char} (hq : q ∉ cs) :
    Passes (quotedBody? q) cs := by
  have hne {c : Char} (hc : c ∈ cs) : c ≠ q := by
    rintro rfl
    exact hq hc
  refine .of_scan h (fun c hmem hc => ?_) fun q' body hmem hq' hbody => ?_
  · refine quotedBody?_cons ?_ (hne hmem)
    rintro rfl
    exact hc (by decide)
  · have hquote : Passes (quotedBody? q) [q'] := by
      refine quotedBody?_cons ?_ (hne (hmem q' List.mem_cons_self))
      rintro rfl
      exact absurd hq' (by decide)
    refine (hquote.append (passes_quotedBody (hbody []) fun hq => ?_)).append hquote
    exact hne (hmem q (List.mem_cons_of_mem _ hq)) rfl

/-! ## Constant text around an interpolation -/

/-- Whether a text is constant in a template: it has no sigils, braces and backslashes. -/
def Constant (cs : List Char) : Prop := ∀ c ∈ cs, c ∉ ['$', '{', '}', '\\']

/-- The characters of a constant text with their offsets. -/
def characters (offset : Nat) : List Char → List (Nat × Piece)
  | [] => []
  | c :: cs => (offset, .char c) :: characters (offset + bytes [c]) cs

/-- The parts of a constant text: the text, if it is not empty. -/
def constants (offset : Nat) : List Char → List (Nat × Part)
  | [] => []
  | c :: cs => [(offset, .text (c :: cs))]

/-- The trees of a constant text. -/
def leaves : List Char → List Expr
  | [] => []
  | c :: cs => [.literal (.text (String.ofList (c :: cs)))]

/-- A source in the braces of an interpolation. -/
def interpolated (src : String) : String := "\x7b\x7b" ++ src ++ "\x7d\x7d"

/-- A text in quotes. -/
def inQuotes (q : Char) (src : String) : String := String.ofList (q :: src.toList ++ [q])

/-- A constant text in front of a template is read character by character. -/
theorem pieces_append {cs : List Char} (h : Constant cs) (offset : Nat) (rest : List Char) :
    pieces offset (cs ++ rest) =
      do return characters offset cs ++ (← pieces (offset + bytes cs) rest) := by
  induction cs generalizing offset with
  | nil =>
    show pieces offset rest = do return [] ++ (← pieces offset rest)
    cases pieces offset rest <;> rfl
  | cons c cs ih =>
    have hc := h c List.mem_cons_self
    simp only [List.mem_cons, List.not_mem_nil, or_false, not_or] at hc
    have hlength : offset + bytes (c :: cs) = offset + bytes [c] + bytes cs :=
      (Nat.add_assoc ..).symm
    rw [List.cons_append, pieces, ih fun d hd => h d (List.mem_cons_of_mem c hd), hlength]
    · cases pieces (offset + bytes [c] + bytes cs) rest <;> rfl
    · exact fun hslash _ => hc.2.2.2 hslash
    · exact fun _ _ hslash _ => hc.2.2.2 hslash
    · exact fun _ hbrace _ => hc.2.1 hbrace
    · exact hc.1

/-- Characters are joined to one constant run, unless the parts after them begin with one. -/
theorem foldr_cons_characters {parts : List (Nat × Part)}
    (h : ∀ p ∈ parts.head?, ∀ cs, p.2 ≠ .text cs) (offset : Nat) (cs : List Char) :
    (characters offset cs).foldr Part.cons parts = constants offset cs ++ parts := by
  induction cs generalizing offset with
  | nil => rfl
  | cons c cs ih =>
    rw [characters, List.foldr_cons, ih]
    cases cs with
    | cons d cs => rfl
    | nil =>
      match parts with
      | [] => rfl
      | (o, .text ds) :: parts => exact absurd rfl (h (o, .text ds) rfl ds)
      | (_, .reference _) :: _ | (_, .interpolation _) :: _ => rfl

/-- Constant texts around an interpolation are parts of their own, and its source is what stands
between the braces. -/
theorem parts_around {o : Nat} {cs before after : List Char} {ts : List Token}
    (h : Token.scan o cs = .ok ts) (hbefore : Constant before) (hafter : Constant after)
    (offset : Nat) :
    parts offset (before ++ '{' :: '{' :: (cs ++ '}' :: '}' :: after)) = .ok
      (constants offset before ++ (offset + bytes before + 2, .interpolation cs) ::
        constants (offset + bytes before + bytes cs + 4) after) := by
  have hend : interpolation? 0 (cs ++ '}' :: '}' :: after) = some (cs, after) := by
    have hclosed : interpolation? 0 ('}' :: '}' :: after) = some ([], after) := by
      rw [interpolation?]
    simpa using (passes_interpolation h 0).eq_some hclosed
  have hrest (offset : Nat) : pieces offset after = .ok (characters offset after) := by
    have happend := pieces_append hafter offset []
    rw [List.append_nil, pieces] at happend
    rw [happend]
    exact congrArg Except.ok (List.append_nil _)
  unfold parts
  rw [pieces_append hbefore, pieces_interpolation hend, hrest]
  refine congrArg Except.ok ?_
  have hend (offset : Nat) :
      (characters offset after).foldr Part.cons [] = constants offset after := by
    rw [foldr_cons_characters (fun _ hp => by cases hp), List.append_nil]
  rw [List.foldr_append, List.foldr_cons, hend]
  refine foldr_cons_characters ?_ offset before
  intro p hp
  obtain rfl := Option.some.inj hp
  exact fun _ h => by cases h

/-- The parts of a constant text have its trees. -/
theorem tree_constants (offset : Nat) (cs : List Char) :
    List.Forall₂ (fun p e => p.2.tree = .ok e) (constants offset cs) (leaves cs) := by
  cases cs with
  | nil => exact .nil
  | cons c cs => exact .cons rfl .nil

/-- A template with constant texts around an interpolation is parsed as the concatenation of the
texts and what the source of the interpolation is parsed as. -/
theorem ofTemplate_around {src before after : String} {e : Expr} (h : Expr.ofSource src = .ok e)
    (hbefore : Constant before.toList) (hafter : Constant after.toList) :
    Expr.ofTemplate (before ++ interpolated src ++ after) =
      .ok (concatenation (leaves before.toList ++ .unary .group e :: leaves after.toList)) := by
  obtain ⟨ts, hscan, _⟩ := bind_eq_ok_iff.1 h
  have hparts := parts_around hscan hbefore hafter 0
  have htree : Part.tree (.interpolation src.toList) = .ok (.unary .group e) := by
    rw [Part.tree, String.ofList_toList, h]
    rfl
  refine ofTemplate_eq_ok (by simpa [interpolated] using hparts) ?_
  rw [padded]
  · exact List.rel_append (tree_constants _ _) (.cons htree (tree_constants _ _))
  · intro o ref hlone
    cases hcs : before.toList with
    | nil => simp [hcs, constants] at hlone
    | cons c cs => simp [hcs, constants] at hlone

/-- One who looks for the end of a string passes over constant texts around an interpolation that
its quote is not in. -/
theorem quotedBody?_around {q : Char} (hq : isQuote q = true) {src before after : String}
    {e : Expr} (h : Expr.ofSource src = .ok e) (hbefore : Constant before.toList)
    (hafter : Constant after.toList)
    (hfree : q ∉ before.toList ∧ q ∉ src.toList ∧ q ∉ after.toList) :
    quotedBody? q ((before ++ interpolated src ++ after).toList ++ [q]) =
      some ((before ++ interpolated src ++ after).toList, []) := by
  obtain ⟨ts, hscan, _⟩ := bind_eq_ok_iff.1 h
  -- The text falls into five pieces, and the search passes over each by itself.
  have hconstant {cs : List Char} (hcs : Constant cs) (hq : q ∉ cs) :
      Passes (quotedBody? q) cs := by
    refine .of_forall fun c hc => quotedBody?_cons ?_ ?_
    · rintro rfl
      exact hcs _ hc (by decide)
    · rintro rfl
      exact hq hc
  have hbraces {c : Char} (hc : c = '{' ∨ c = '}') : Passes (quotedBody? q) [c, c] := by
    have hplain : c ≠ '\\' ∧ c ≠ q := by
      constructor
      · rintro rfl
        exact absurd hc (by decide)
      · rintro rfl
        rcases hc with rfl | rfl <;> exact absurd hq (by decide)
    have hone : Passes (quotedBody? q) [c] := quotedBody?_cons hplain.1 hplain.2
    exact hone.append hone
  have hpasses : Passes (quotedBody? q) (before ++ interpolated src ++ after).toList := by
    have := (((hconstant hbefore hfree.1).append (hbraces (.inl rfl))).append
      (passes_quoted hscan hfree.2.1)).append
        ((hbraces (.inr rfl)).append (hconstant hafter hfree.2.2))
    simpa [interpolated] using this
  simpa using hpasses.eq_some (quotedBody?_quote hq [])

/-- A text in quotes is read like a template that is the text. -/
theorem ofSource_quoted {q : Char} (hq : isQuote q = true) {src : String}
    (hbody : quotedBody? q (src.toList ++ [q]) = some (src.toList, [])) {e : Expr}
    (h : Expr.ofTemplate src = .ok e) :
    Expr.ofSource (inQuotes q src) = .ok e := by
  obtain ⟨ts, hts, hparse⟩ := bind_eq_ok_iff.1 h
  obtain ⟨us, hus, hsame⟩ := Token.templateTokens_at hts 1
  have hnext : next? (q :: src.toList ++ [q]) = some (.quoted q src.toList) := by
    simp only [isQuote, Bool.or_eq_true, beq_iff_eq] at hq
    rcases hq with (rfl | rfl) | rfl <;>
      simp [next?, hbody, isQuote, isNameStart, isDigit, Text.isBlank]
  have hscan : Token.scan 0 (q :: src.toList ++ [q]) = .ok us := by
    rw [Token.scan, if_neg (by simp)]
    split
    · rename_i hnone
      rw [hnext] at hnone
      cases hnone
    · rename_i shape hshape
      obtain rfl := Option.some.inj (hnext.symm.trans hshape)
      have hdrop : (q :: src.toList ++ [q]).drop (Shape.quoted q src.toList).src.length = [] :=
        List.drop_length
      rw [hdrop, Token.scan, if_pos List.isEmpty_nil]
      refine bind_eq_ok_iff.2 ⟨us, hus, ?_⟩
      exact congrArg Except.ok (List.append_nil us)
  unfold Expr.ofSource inQuotes
  rw [String.toList_ofList, hscan]
  exact Expr.parse_of_lexemes (fun t ht => (mem_templateTokens hts ht).1) hparse hsame

/-! ## Expressions in templates -/

/-- An expression in braces is parsed as a group. -/
theorem ofTemplate_interpolated {src : String} {e : Expr} (h : Expr.ofSource src = .ok e) :
    Expr.ofTemplate (interpolated src) = .ok (.unary .group e) := by
  have hempty : Constant "".toList := fun c hc => by cases hc
  have hnone : "" ++ interpolated src ++ "" = interpolated src := by simp
  rw [← hnone]
  exact ofTemplate_around h hempty hempty

/-- Every expression can stand in a template, in quotes or not: the braces make a group of it, and
constant texts around the braces are parts of their own. -/
theorem ofTemplate_embed (src : String) (e : Expr) (h : Expr.ofSource src = .ok e) :
    Expr.ofTemplate (interpolated src) = .ok (.unary .group e) ∧
    (∀ q, isQuote q = true → q ∉ src.toList →
      Expr.ofSource (inQuotes q (interpolated src)) = .ok (.unary .group e)) ∧
    ∀ before after : String, Constant before.toList → Constant after.toList →
      (∀ offset, parts offset (before ++ interpolated src ++ after).toList = .ok
        (constants offset before.toList ++
          (offset + bytes before.toList + 2, .interpolation src.toList) ::
            constants (offset + bytes before.toList + bytes src.toList + 4) after.toList)) ∧
      Expr.ofTemplate (before ++ interpolated src ++ after) =
        .ok (concatenation (leaves before.toList ++ .unary .group e :: leaves after.toList)) ∧
      ∀ q, isQuote q = true → q ∉ before.toList ∧ q ∉ src.toList ∧ q ∉ after.toList →
        Expr.ofSource (inQuotes q (before ++ interpolated src ++ after)) =
          .ok (concatenation (leaves before.toList ++ .unary .group e :: leaves after.toList)) := by
  have hempty : Constant "".toList := fun c hc => by cases hc
  have hnone : "" ++ interpolated src ++ "" = interpolated src := by simp
  refine ⟨ofTemplate_interpolated h, fun q hq hfree => ?_,
    fun before after hbefore hafter => ⟨fun offset => ?_, ?_, ?_⟩⟩
  · rw [← hnone]
    exact ofSource_quoted hq (quotedBody?_around hq h hempty hempty ⟨by simp, hfree, by simp⟩)
      (ofTemplate_around h hempty hempty)
  · obtain ⟨ts, hscan, _⟩ := bind_eq_ok_iff.1 h
    simpa [interpolated] using parts_around hscan hbefore hafter offset
  · exact ofTemplate_around h hbefore hafter
  · exact fun q hq hfree => ofSource_quoted hq (quotedBody?_around hq h hbefore hafter hfree)
      (ofTemplate_around h hbefore hafter)

/-- Braces in a quoted text do not end the interpolation that the text stands in. -/
theorem ofTemplate_embed_braces :
    Expr.ofSource "n+'\x7d\x7d'" =
      .ok (.binary .add (.reference ⟨0, "n"⟩) (.literal (.text "\x7d\x7d"))) ∧
    Expr.ofTemplate (interpolated "n+'\x7d\x7d'") =
      .ok (.unary .group (.binary .add (.reference ⟨0, "n"⟩) (.literal (.text "\x7d\x7d")))) ∧
    Expr.ofSource (inQuotes '"' ("<" ++ interpolated "n+'\x7d\x7d'" ++ "")) =
      .ok (.unary .group (.binary .concat (.literal (.text "<"))
        (.unary .group (.binary .add (.reference ⟨0, "n"⟩) (.literal (.text "\x7d\x7d")))))) := by
  have h : Expr.ofSource "n+'\x7d\x7d'" =
      .ok (.binary .add (.reference ⟨0, "n"⟩) (.literal (.text "\x7d\x7d"))) := by
    with_unfolding_all rfl
  obtain ⟨hplain, _, haround⟩ := ofTemplate_embed _ _ h
  have hbefore : Constant "<".toList := by
    intro c hc
    obtain rfl := List.mem_singleton.1 hc
    decide
  obtain ⟨_, _, hquoted⟩ := haround "<" "" hbefore fun c hc => by cases hc
  exact ⟨h, hplain, hquoted '"' (by decide) (by decide)⟩

end Template

end LiveScope
