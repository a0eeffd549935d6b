import LiveScope.Proofs.Expr.Grammar
import LiveScope.Proofs.Outcome
import Mathlib.Algebra.Order.BigOperators.Group.List
import Mathlib.Algebra.Order.Ring.Nat

/-!
# How deep interpolations are nested in source

Inside a source only a quoted string can hold an interpolation, and inside the string its quote
stands behind a backslash wherever it stands at all. An interpolation of the string can therefore
not open a string by the same quote again: each level of nesting uses up one of the three quotes
(`Token.openQuotes_lt`). This is why the limit on nested interpolations is never met.

`Token.mem_scan` says beside this that the tokens read from a source have texts of their classes.
-/

namespace LiveScope

namespace Template

/-- The piece that a part is made of, unless it is a constant. -/
def Part.piece? : Part → Option Piece
  | text _ => none
  | reference src => some (.reference src)
  | interpolation src => some (.interpolation src)

/-- A part that is no constant is a piece, at the same place. -/
theorem mem_pieces_of_mem_parts {ps : List (Nat × Piece)} {offset : Nat} {part : Part}
    {piece : Piece} (h : (offset, part) ∈ ps.foldr Part.cons [])
    (hpiece : part.piece? = some piece) : (offset, piece) ∈ ps := by
  induction ps with
  | nil => cases h
  | cons p ps ih =>
    have later (hmem : (offset, part) ∈ ps.foldr Part.cons []) : (offset, piece) ∈ p :: ps :=
      List.mem_cons_of_mem _ (ih hmem)
    rw [List.foldr_cons] at h
    unfold Part.cons at h
    split at h
    · rename_i hparts
      rcases List.mem_cons.1 h with heq | h
      · obtain ⟨rfl, rfl⟩ := Prod.mk.inj heq
        cases hpiece
      · exact later (hparts ▸ List.mem_cons_of_mem _ h)
    all_goals
      rcases List.mem_cons.1 h with heq | h
      · obtain ⟨rfl, rfl⟩ := Prod.mk.inj heq
        cases hpiece
        try exact List.mem_cons_self
      · exact later h

/-- A part that is no constant is a piece, also if a text was put before a lone one. -/
theorem mem_pieces_of_mem_padded {ps : List (Nat × Piece)} {offset : Nat} {part : Part}
    {piece : Piece} (h : (offset, part) ∈ padded (ps.foldr Part.cons []))
    (hpiece : part.piece? = some piece) : (offset, piece) ∈ ps := by
  unfold padded at h
  split at h
  · rename_i o src heq
    have hlone : (offset, part) ∈ ps.foldr Part.cons [] := by
      rw [heq]
      rcases List.mem_cons.1 h with he | he
      · obtain ⟨_, rfl⟩ := Prod.mk.inj he
        cases hpiece
      · exact he
    exact mem_pieces_of_mem_parts hlone hpiece
  · exact mem_pieces_of_mem_parts h hpiece

end Template

namespace Lexeme

/-- A character that is read by itself is no backslash: a backslash is read together with what it
protects. -/
theorem ne_backslash {c : Char} {cs : List Char} (hlast : c = '\\' → cs = [] → False)
    (hpair : ∀ d ds, c = '\\' → cs = d :: ds → False) : c ≠ '\\' := by
  rintro rfl
  cases cs with
  | nil => exact hlast rfl rfl
  | cons d ds => exact hpair d ds rfl rfl

/-- Whether a character only stands behind backslashes, each of which protects one character. -/
def Guarded (q : Char) : List Char → Prop
  | [] => True
  | ['\\'] => True
  | '\\' :: _ :: cs => Guarded q cs
  | c :: cs => c ≠ q ∧ Guarded q cs

/-- One more character in front that is no backslash. -/
theorem guarded_cons {q c : Char} (hc : c ≠ '\\') (cs : List Char) :
    Guarded q (c :: cs) ↔ c ≠ q ∧ Guarded q cs := by
  rw [Guarded]
  · exact fun h _ => hc h
  · exact fun _ _ h _ => hc h

/-- What a text starts with is guarded if the text is. -/
theorem guarded_left {q : Char} {xs ys : List Char} (h : Guarded q (xs ++ ys)) : Guarded q xs := by
  fun_induction Guarded q xs with
  | case1 => trivial
  | case2 => trivial
  | case3 _ cs ih => exact ih h
  | case4 c cs h1 h2 ih =>
    rw [List.cons_append, guarded_cons (ne_backslash h1 h2)] at h
    exact ⟨h.1, ih h.2⟩

/-- What a text goes on with is guarded if the text is and what it starts with has no backslash. -/
theorem guarded_right {q : Char} (xs : List Char) {ys : List Char} (hxs : '\\' ∉ xs)
    (h : Guarded q (xs ++ ys)) : Guarded q ys := by
  induction xs with
  | nil => exact h
  | cons c xs ih =>
    have hc : c ≠ '\\' := fun he => hxs (he ▸ List.mem_cons_self)
    rw [List.cons_append, guarded_cons hc] at h
    exact ih (fun hmem => hxs (List.mem_cons_of_mem _ hmem)) h.2

/-- Closing braces bring the pairing of backslashes back into step. -/
theorem guarded_after_braces {q : Char} {src rest : List Char}
    (h : Guarded q (src ++ '}' :: '}' :: rest)) : Guarded q rest := by
  fun_induction Guarded q src with
  | case1 => exact guarded_right ['}', '}'] (by decide) h
  | case2 =>
    -- The last backslash takes the first brace.
    exact guarded_right ['}'] (by decide) h
  | case3 _ cs ih => exact ih h
  | case4 c cs h1 h2 ih =>
    rw [List.cons_append, guarded_cons (ne_backslash h1 h2)] at h
    exact ih h.2

/-- The quote of a string is guarded in its body. -/
theorem guarded_quotedBody {q : Char} {cs body rest : List Char}
    (h : quotedBody? q cs = some (body, rest)) : Guarded q body := by
  fun_induction quotedBody? q cs generalizing body rest with
  | case1 => cases h
  | case2 => cases h
  | case3 c cs ih =>
    obtain ⟨⟨b, r⟩, hb, he⟩ := Option.map_eq_some_iff.1 h
    obtain ⟨rfl, rfl⟩ := Prod.mk.inj he
    have hbody : Guarded q b := ih hb
    exact hbody
  | case4 c cs =>
    obtain ⟨rfl, _⟩ := Prod.mk.inj (Option.some.inj h)
    trivial
  | case5 c cs h1 h2 hne ih =>
    obtain ⟨⟨b, r⟩, hb, he⟩ := Option.map_eq_some_iff.1 h
    obtain ⟨rfl, rfl⟩ := Prod.mk.inj he
    have hc : c ≠ '\\' := ne_backslash h1 h2
    rw [guarded_cons hc]
    exact ⟨hne, ih hb⟩

/-- What follows a string is guarded if the text is. -/
theorem guarded_after_quotedBody {q q' : Char} {cs body rest : List Char} (hq : q ≠ '\\')
    (h : quotedBody? q cs = some (body, rest)) (hcs : Guarded q' cs) : Guarded q' rest := by
  fun_induction quotedBody? q cs generalizing body rest with
  | case1 => cases h
  | case2 => cases h
  | case3 c cs ih =>
    obtain ⟨⟨b, r⟩, hb, he⟩ := Option.map_eq_some_iff.1 h
    obtain ⟨rfl, rfl⟩ := Prod.mk.inj he
    exact ih hb hcs
  | case4 c cs =>
    obtain ⟨_, rfl⟩ := Prod.mk.inj (Option.some.inj h)
    exact ((guarded_cons hq _).1 hcs).2
  | case5 c cs h1 h2 hne ih =>
    obtain ⟨⟨b, r⟩, hb, he⟩ := Option.map_eq_some_iff.1 h
    obtain ⟨rfl, rfl⟩ := Prod.mk.inj he
    have hc : c ≠ '\\' := ne_backslash h1 h2
    exact ih hb ((guarded_cons hc _).1 hcs).2

/-- What is taken from the start of a text has no backslash if none meets the condition. -/
theorem no_backslash_takeWhile {p : Char → Bool} (hp : p '\\' = false) (cs : List Char) :
    '\\' ∉ cs.takeWhile p := by
  intro hmem
  have := List.all_takeWhile (p := p) (l := cs)
  rw [List.all_eq_true] at this
  rw [this _ hmem] at hp
  cases hp

/-- A reference has no backslash. -/
theorem no_backslash_of_reference? {cs src rest : List Char}
    (h : Template.reference? cs = some (src, rest)) : '\\' ∉ src := by
  simp only [Template.reference?] at h
  split at h
  · cases h
  · rename_i hname
    obtain ⟨rfl, rfl⟩ := Prod.mk.inj (Option.some.inj h)
    simp only [List.cons_append, List.mem_cons, List.mem_append, not_or]
    exact ⟨by decide, no_backslash_takeWhile (by decide) _, no_backslash_takeWhile (by decide) _⟩

/-- The interpolations of a template are guarded if the template is. -/
theorem guarded_of_mem_pieces {q : Char} {offset : Nat} {cs : List Char}
    {ps : List (Nat × Template.Piece)} (h : Template.pieces offset cs = .ok ps)
    (hcs : Guarded q cs) : ∀ p ∈ ps, ∀ src, p.2 = .interpolation src → Guarded q src := by
  -- What is left of the template after a piece is guarded as the whole is.
  fun_induction Template.pieces offset cs generalizing ps with
  | case1 =>
    obtain rfl := Except.ok.inj h
    intro p hp
    cases hp
  | case2 => cases h
  | case3 offset c cs ih =>
    obtain ⟨ps', hps', rfl⟩ := bind_pure_eq_ok_iff.1 h
    intro p hp src hsrc
    rcases List.mem_cons.1 hp with rfl | hp
    · cases hsrc
    · exact ih hps' hcs p hp src hsrc
  | case4 offset cs hnone => cases h
  | case5 offset cs src rest hsome this ih =>
    obtain ⟨ps', hps', rfl⟩ := bind_pure_eq_ok_iff.1 h
    have heq := Template.eq_of_interpolation? hsome
    -- The source of the interpolation stands between its braces, which protect nothing.
    have hcs' : Guarded q (src ++ '}' :: '}' :: rest) :=
      heq ▸ guarded_right ['{', '{'] (by decide) hcs
    intro p hp src' hsrc
    rcases List.mem_cons.1 hp with rfl | hp
    · obtain rfl := Template.Piece.interpolation.inj hsrc
      exact guarded_left hcs'
    · exact ih hps' (guarded_after_braces hcs') p hp src' hsrc
  | case6 offset cs hnone ih =>
    obtain ⟨ps', hps', rfl⟩ := bind_pure_eq_ok_iff.1 h
    intro p hp src hsrc
    rcases List.mem_cons.1 hp with rfl | hp
    · cases hsrc
    · exact ih hps' (guarded_right ['$'] (by decide) hcs) p hp src hsrc
  | case7 offset cs src rest hsome this ih =>
    obtain ⟨ps', hps', rfl⟩ := bind_pure_eq_ok_iff.1 h
    intro p hp src' hsrc
    rcases List.mem_cons.1 hp with rfl | hp
    · cases hsrc
    · refine ih hps' (guarded_right _ (no_backslash_of_reference? hsome) ?_) p hp src' hsrc
      rw [← Template.eq_of_reference? hsome]
      exact hcs
  | case8 offset c cs h1 h2 h3 h4 ih =>
    obtain ⟨ps', hps', rfl⟩ := bind_pure_eq_ok_iff.1 h
    intro p hp src hsrc
    rcases List.mem_cons.1 hp with rfl | hp
    · cases hsrc
    · refine ih hps' ?_ p hp src hsrc
      have hc : c ≠ '\\' := ne_backslash h1 h2
      exact ((guarded_cons hc cs).1 hcs).2

/-- The fraction of a number is a start of the text and has no backslash. -/
theorem start_fraction (cs : List Char) : fraction cs <+: cs ∧ '\\' ∉ fraction cs := by
  unfold fraction
  split
  · rename_i cs
    split
    · exact ⟨List.nil_prefix, by simp⟩
    · rename_i ds hne
      refine ⟨(List.prefix_cons_inj '.').2 (List.takeWhile_prefix _), ?_⟩
      rw [List.mem_cons, not_or]
      exact ⟨by decide, no_backslash_takeWhile (by decide) _⟩
  · exact ⟨List.nil_prefix, by simp⟩

/-- The exponent of a number is a start of the text and has no backslash. -/
theorem start_exponent (cs : List Char) : exponent cs <+: cs ∧ '\\' ∉ exponent cs := by
  unfold exponent
  split
  · rename_i e cs
    split
    · rename_i he
      have he' : '\\' ≠ e := by
        rintro rfl
        revert he
        decide
      -- The sign is a start of what follows the letter, and has no backslash.
      have hsign : ∀ sign : List Char, sign <+: cs → '\\' ∉ sign → ∀ ds,
          (cs.drop sign.length).takeWhile isDigit = ds →
          e :: sign ++ ds <+: e :: cs ∧ '\\' ∉ e :: sign ++ ds := by
        rintro sign ⟨rest, rfl⟩ hb ds rfl
        rw [List.drop_left]
        refine ⟨?_, ?_⟩
        · rw [List.cons_append, List.prefix_cons_inj, List.prefix_append_right_inj]
          exact List.takeWhile_prefix _
        · simp only [List.cons_append, List.mem_cons, List.mem_append, not_or]
          exact ⟨he', hb, no_backslash_takeWhile (by decide) _⟩
      dsimp only
      split
      · exact ⟨List.nil_prefix, by simp⟩
      · refine hsign _ ?_ ?_ _ rfl
        · split
          · exact ⟨_, rfl⟩
          · exact ⟨_, rfl⟩
          · exact List.nil_prefix
        · split <;> decide
    · exact ⟨List.nil_prefix, by simp⟩
  · exact ⟨List.nil_prefix, by simp⟩

/-- A number is a start of the text and has no backslash. -/
theorem start_number (cs : List Char) : number cs <+: cs ∧ '\\' ∉ number cs := by
  -- Each part is a start of what the parts before it leave.
  have step : ∀ (xs : List Char) (f : List Char → List Char), xs <+: cs → '\\' ∉ xs →
      (∀ ds, f ds <+: ds ∧ '\\' ∉ f ds) →
      xs ++ f (cs.drop xs.length) <+: cs ∧ '\\' ∉ xs ++ f (cs.drop xs.length) := by
    rintro xs f ⟨rest, rfl⟩ hxs hf
    rw [List.drop_left]
    refine ⟨(List.prefix_append_right_inj xs).2 (hf rest).1, ?_⟩
    rw [List.mem_append, not_or]
    exact ⟨hxs, (hf rest).2⟩
  have hwhole := step _ fraction (List.takeWhile_prefix isDigit)
    (no_backslash_takeWhile (by decide) cs) start_fraction
  exact step _ exponent hwhole.1 hwhole.2 start_exponent

/-- The token of an operator or parenthesis is a start of the text, has no backslash and has a text
of its class. -/
theorem operator?_token {cs : List Char} {shape : Shape} (h : operator? cs = some shape) :
    ∃ kind src, shape = .token kind src ∧ src <+: cs ∧ '\\' ∉ src ∧
      kind ≠ .interpolation ∧ ∀ offset, Token.WellSpelled ⟨kind, String.ofList src, offset⟩ := by
  have written (kind : TokenKind) (src rest : List Char) (hb : '\\' ∉ src)
      (hkind : kind ≠ .interpolation)
      (hwell : Token.WellSpelled ⟨kind, String.ofList src, 0⟩) :
      ∃ kind' src', Shape.token kind src = .token kind' src' ∧ src' <+: src ++ rest ∧
        '\\' ∉ src' ∧ kind' ≠ .interpolation ∧
        ∀ offset, Token.WellSpelled ⟨kind', String.ofList src', offset⟩ :=
    ⟨kind, src, rfl, List.prefix_append src rest, hb, hkind, fun _ => hwell⟩
  unfold operator? at h
  split at h
  case h_20 => cases h
  all_goals
    obtain rfl := Option.some.inj h
    exact written _ _ _ (by decide) (by decide) (by decide)

/-- The lexeme at the start of a text is a token without a backslash and with a text of its class,
or a quoted string. -/
theorem next?_cases {cs : List Char} {shape : Shape} (h : next? cs = some shape) :
    (∃ kind src, shape = .token kind src ∧ src <+: cs ∧ '\\' ∉ src ∧ kind ≠ .interpolation ∧
      ∀ offset, Token.WellSpelled ⟨kind, String.ofList src, offset⟩) ∨
    ∃ q body rest, shape = .quoted q body ∧ isQuote q = true ∧
      quotedBody? q (body ++ q :: rest) = some (body, rest) ∧ cs = q :: (body ++ q :: rest) := by
  cases cs with
  | nil => cases h
  | cons c cs =>
    simp only [next?] at h
    have hcons : ∀ ds : List Char, '\\' ≠ c → '\\' ∉ ds → '\\' ∉ c :: ds := fun ds hc hds => by
      rw [List.mem_cons, not_or]
      exact ⟨hc, hds⟩
    have hne : ∀ {p : Char → Bool}, p c = true → p '\\' = false → '\\' ≠ c := by
      rintro p hp hb rfl
      rw [hp] at hb
      cases hb
    split at h
    · -- A run of blanks.
      rename_i hblank
      obtain rfl := Option.some.inj h
      exact .inl ⟨_, _, rfl, (List.prefix_cons_inj c).2 (List.takeWhile_prefix _),
        hcons _ (hne hblank (by decide)) (no_backslash_takeWhile (by decide) _), by decide,
        fun _ => trivial⟩
    split at h
    · -- Sigils with a name.
      rename_i hsigil
      subst hsigil
      obtain rfl := Option.some.inj h
      refine .inl ⟨_, _, rfl, ?_, ?_, by decide, fun _ => trivial⟩
      · rw [List.cons_append, List.prefix_cons_inj]
        conv => rhs; rw [← List.takeWhile_append_dropWhile (p := (· == '$')) (l := cs)]
        rw [List.prefix_append_right_inj]
        exact List.takeWhile_prefix _
      · rw [List.cons_append]
        refine hcons _ (by decide) ?_
        rw [List.mem_append, not_or]
        exact ⟨no_backslash_takeWhile (by decide) _, no_backslash_takeWhile (by decide) _⟩
    split at h
    · -- A property.
      rename_i hat
      subst hat
      split at h
      · cases h
      · obtain rfl := Option.some.inj h
        exact .inl ⟨_, _, rfl, (List.prefix_cons_inj _).2 (List.takeWhile_prefix _),
          hcons _ (by decide) (no_backslash_takeWhile (by decide) _), by decide, fun _ => trivial⟩
    split at h
    · -- A word, which is a constant or a name.
      rename_i hname
      obtain rfl := Option.some.inj h
      refine .inl ⟨_, _, rfl, (List.prefix_cons_inj c).2 (List.takeWhile_prefix _),
        hcons _ (hne hname (by decide)) (no_backslash_takeWhile (by decide) _), ?_, fun _ => ?_⟩
      · split <;> decide
      · unfold Token.WellSpelled
        dsimp only
        split <;> rename_i hk <;> first | trivial | (split at hk <;> cases hk)
    split at h
    · -- A number.
      obtain rfl := Option.some.inj h
      exact .inl ⟨_, _, rfl, (start_number _).1, (start_number _).2, by decide, fun _ => trivial⟩
    split at h
    · -- A quoted string, the only lexeme that may hold a backslash.
      rename_i hquote
      obtain ⟨⟨body, rest⟩, hbody, rfl⟩ := Option.map_eq_some_iff.1 h
      have heq := eq_of_quotedBody? hbody
      exact .inr ⟨c, body, rest, rfl, hquote, heq ▸ hbody, by rw [heq]⟩
    · exact .inl (operator?_token h)

/-- The tokens of a template have texts of their classes, and its interpolations are those among its
pieces. -/
theorem mem_templateTokens {offset : Nat} {cs : List Char} {ts : List Token}
    (h : Template.tokens offset cs = .ok ts) {t : Token} (ht : t ∈ ts) :
    t.WellSpelled ∧ (t.kind = .interpolation → ∃ ps, Template.pieces offset cs = .ok ps ∧
      ∃ p ∈ ps, p.2 = .interpolation t.src.toList) := by
  obtain ⟨parts, hparts, h⟩ := bind_eq_ok_iff.1 h
  obtain ⟨ps, hps, rfl⟩ := bind_pure_eq_ok_iff.1 hparts
  -- A token is made of a part, or put in to join two of them.
  have ofPart (h : t ∈ (Template.padded (ps.foldr Template.Part.cons [])).map Template.Part.token) :
      t.WellSpelled ∧ (t.kind = .interpolation → ∃ ps, Template.pieces offset cs = .ok ps ∧
        ∃ p ∈ ps, p.2 = .interpolation t.src.toList) := by
    obtain ⟨⟨o, part⟩, hpart, rfl⟩ := List.mem_map.1 h
    cases part with
    | text | reference => exact ⟨trivial, fun hk => by cases hk⟩
    | interpolation src =>
      refine ⟨trivial, fun _ => ⟨ps, hps, ?_⟩⟩
      show ∃ p ∈ ps, p.2 = .interpolation (String.ofList src).toList
      rw [String.toList_ofList]
      exact ⟨_, Template.mem_pieces_of_mem_padded hpart rfl, rfl⟩
  have ofClass (hk : t.kind ≠ .interpolation) (hwell : t.WellSpelled) :
      t.WellSpelled ∧ (t.kind = .interpolation → ∃ ps, Template.pieces offset cs = .ok ps ∧
        ∃ p ∈ ps, p.2 = .interpolation t.src.toList) :=
    ⟨hwell, fun hk' => absurd hk' hk⟩
  split at h
  · obtain rfl := Except.ok.inj h
    obtain rfl := List.mem_singleton.1 ht
    exact ofClass (by simp) trivial
  · rename_i token heq
    obtain rfl := Except.ok.inj h
    exact ofPart (heq ▸ ht)
  · rename_i first rest _ heq
    obtain rfl := Except.ok.inj h
    rw [heq] at ofPart
    simp only [List.cons_append, List.mem_cons, List.mem_append, List.mem_flatMap,
      List.not_mem_nil, or_false] at ht
    rcases ht with rfl | rfl | ⟨token, htoken, rfl | rfl⟩ | rfl
    · exact ofClass (by simp) rfl
    · exact ofPart List.mem_cons_self
    · exact ofClass (by simp) rfl
    · exact ofPart (List.mem_cons_of_mem _ htoken)
    · exact ofClass (by simp) rfl

open Classical in
/-- The number of quotes that can open a string somewhere in a text. -/
noncomputable def openQuotes (cs : List Char) : Nat :=
  (['"', '\'', '`'].map fun q => if Guarded q cs then 0 else 1).sum

/-- There are three quotes. -/
theorem openQuotes_le (cs : List Char) : openQuotes cs ≤ 3 := by
  unfold openQuotes
  simp only [List.map_cons, List.map_nil, List.sum_cons, List.sum_nil]
  split <;> split <;> split <;> omega

/-- A text in which one more quote is guarded has fewer open ones. -/
theorem openQuotes_lt_of_guarded {q : Char} {cs ds : List Char} (hq : isQuote q = true)
    (hcs : ¬ Guarded q cs) (hds : Guarded q ds) (h : ∀ q', Guarded q' cs → Guarded q' ds) :
    openQuotes ds < openQuotes cs := by
  refine List.sum_lt_sum _ _ (fun q' _ => ?_) ⟨q, by simpa [isQuote, or_assoc] using hq, ?_⟩
  · split
    · exact Nat.zero_le _
    · rename_i hg
      rw [if_neg fun hg' => hg (h q' hg')]
  · rw [if_pos hds, if_neg hcs]
    exact Nat.one_pos

end Lexeme

namespace Token

open Lexeme

/-- The tokens of a source have texts of their classes, and its interpolations stand in strings
whose quote they do not use. -/
theorem mem_scan {offset : Nat} {cs : List Char} {ts : List Token}
    (h : scan offset cs = .ok ts) {t : Token} (ht : t ∈ ts) :
    t.WellSpelled ∧ (t.kind = .interpolation → ∃ q, isQuote q = true ∧ ¬ Guarded q cs ∧
      Guarded q t.src.toList ∧ ∀ q', Guarded q' cs → Guarded q' t.src.toList) := by
  fun_induction scan offset cs generalizing ts with
  | case1 =>
    obtain rfl := Except.ok.inj h
    cases ht
  | case2 => cases h
  | case3 offset cs hne shape hnext ih =>
    obtain ⟨here, hhere, h⟩ := bind_eq_ok_iff.1 h
    obtain ⟨later, hlater, rfl⟩ := bind_pure_eq_ok_iff.1 h
    -- What is guarded in the whole source is guarded in what follows its first lexeme.
    have ofLater (hrest : ∀ q, Guarded q cs → Guarded q (cs.drop shape.src.length))
        (ht : t ∈ later) :
        t.WellSpelled ∧ (t.kind = .interpolation → ∃ q, isQuote q = true ∧ ¬ Guarded q cs ∧
          Guarded q t.src.toList ∧ ∀ q', Guarded q' cs → Guarded q' t.src.toList) := by
      obtain ⟨hwell, hint⟩ := ih hlater ht
      refine ⟨hwell, fun hk => ?_⟩
      obtain ⟨q, hq, hcs, hsrc, hall⟩ := hint hk
      exact ⟨q, hq, fun hg => hcs (hrest q hg), hsrc, fun q' hg => hall q' (hrest q' hg)⟩
    rcases next?_cases hnext with
      ⟨kind, src, rfl, ⟨rest, rfl⟩, hb, hkind, hwell⟩ | ⟨q, body, rest, rfl, hq, hbody, rfl⟩
    · rcases List.mem_append.1 ht with ht | ht
      · obtain rfl := Except.ok.inj hhere
        obtain rfl := List.mem_singleton.1 ht
        exact ⟨hwell offset, fun hk => absurd hk hkind⟩
      · refine ofLater (fun q hg => ?_) ht
        show Guarded q ((src ++ rest).drop src.length)
        rw [List.drop_left]
        exact guarded_right _ hb hg
    · have hqb : q ≠ '\\' := by
        rintro rfl
        exact absurd hq (by decide)
      rcases List.mem_append.1 ht with ht | ht
      · obtain ⟨hwell, hint⟩ := mem_templateTokens hhere ht
        refine ⟨hwell, fun hk => ?_⟩
        obtain ⟨ps, hps, p, hp, hsrc⟩ := hint hk
        refine ⟨q, hq, fun hg => ((guarded_cons hqb _).1 hg).1 rfl, ?_, fun q' hg => ?_⟩
        · exact guarded_of_mem_pieces hps (guarded_quotedBody hbody) p hp _ hsrc
        · have hbody' := guarded_left ((guarded_cons hqb _).1 hg).2
          exact guarded_of_mem_pieces hps hbody' p hp _ hsrc
      · refine ofLater (fun q' hg => ?_) ht
        have hdrop : (q :: (body ++ q :: rest)).drop (Shape.quoted q body).src.length = rest := by
          simp [Shape.src]
        rw [hdrop]
        exact guarded_after_quotedBody hqb hbody ((guarded_cons hqb _).1 hg).2

/-- An interpolation of a source has fewer quotes to open strings by than the source. -/
theorem openQuotes_lt {offset : Nat} {cs : List Char} {ts : List Token}
    (h : scan offset cs = .ok ts) {t : Token} (ht : t ∈ ts) (hk : t.kind = .interpolation) :
    openQuotes t.src.toList < openQuotes cs := by
  obtain ⟨q, hq, hcs, hsrc, hall⟩ := (mem_scan h ht).2 hk
  exact openQuotes_lt_of_guarded hq hcs hsrc hall

end Token

end LiveScope
