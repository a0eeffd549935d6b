import LiveScope.Proofs.Expr.Classes

/-!
# Where tokens stand in a source

Offsets count bytes of UTF-8. `StandsIn` says that the bytes of a source from an offset on are those
of a text, and that the offset is between two characters. A source that is read is covered from its
start to its end by tokens that stand where they say and by quoted strings (`Lexed`); a token from
inside a string stands where it says too, unless it is one of those that a string is made into: its
constant runs, and what joins its parts. If a source is not read, its fault points between two
characters of it (`Fault.IsMalformed`). `Token.scan_ends` says both of an expression and
`Template.tokens_ends` of a template.
-/

namespace LiveScope

open Lexeme

/-! ## Places in a source -/

/-- Whether an offset is between two characters of a source, or at one of its ends. -/
def IsPlace (source : String) (offset : Nat) : Prop := (⟨offset⟩ : String.Pos.Raw).IsValid source

/-- Whether a text stands at an offset of a source: the offset is between two characters, and the
bytes from there on are those of the text. -/
def StandsIn (source : String) (offset : Nat) (text : String) : Prop :=
  IsPlace source offset ∧
    source.toByteArray.extract offset (offset + text.utf8ByteSize) = text.toByteArray

/-- Whether a fault is found while a source is taken apart into tokens. -/
def SourceFault.IsLexical : SourceFault → Prop
  | unexpectedInput _ | malformedEscape | unterminatedInterpolation => True
  | _ => False

/-- Whether a fault is one in a source, with its offset at a place and its cause of a kind. -/
def Fault.IsMalformed (place : Nat → Prop) (kind : SourceFault → Prop) (fault : Fault) : Prop :=
  ∃ offset cause, fault = .malformed offset cause ∧ place offset ∧ kind cause

namespace Lexeme

@[simp]
theorem bytes_nil : bytes [] = 0 := rfl

@[simp]
theorem bytes_cons (c : Char) (cs : List Char) : bytes (c :: cs) = c.utf8Size + bytes cs := rfl

@[simp]
theorem bytes_append (cs ds : List Char) : bytes (cs ++ ds) = bytes cs + bytes ds := by
  induction cs with
  | nil => simp
  | cons c cs ih => rw [List.cons_append, bytes_cons, bytes_cons, ih, Nat.add_assoc]

/-- The bytes of a text are counted character by character. -/
theorem utf8ByteSize_eq (s : String) : s.utf8ByteSize = bytes s.toList := by
  rw [← String.ofList_toList (s := s), String.toList_ofList]
  induction s.toList with
  | nil => rfl
  | cons c cs ih =>
    have hcons : String.ofList (c :: cs) = String.ofList [c] ++ String.ofList cs := by
      rw [← String.ofList_append, List.singleton_append]
    rw [hcons, String.utf8ByteSize_append, ih, bytes_cons]
    congr 1
    rw [← String.size_toByteArray, String.toByteArray_ofList, List.utf8Encode_singleton,
      List.size_toByteArray, String.length_utf8EncodeChar]

end Lexeme

/-- The place after the start of a source. -/
theorem isPlace_of_append {source : String} {before after : List Char}
    (h : source.toList = before ++ after) : IsPlace source (bytes before) := by
  refine String.Pos.Raw.isValid_iff_exists_append.2
    ⟨String.ofList before, String.ofList after, ?_, ?_⟩
  · rw [← String.ofList_append, ← h, String.ofList_toList]
  · refine String.Pos.Raw.ext ?_
    rw [String.byteIdx_rawEndPos, utf8ByteSize_eq, String.toList_ofList]

/-- What is cut from a sequence of bytes after its first part is cut from the second. -/
theorem extract_after (a b : ByteArray) (n : Nat) :
    (a ++ b).extract a.size (a.size + n) = b.extract 0 n :=
  ByteArray.extract_append_size_add (i := 0)

/-- A text stands at an offset if the source is that text with something before and after it, and
the offset counts what is before. -/
theorem standsIn_iff {source : String} {offset : Nat} {text : String} :
    StandsIn source offset text ↔
      ∃ before after, source.toList = before ++ text.toList ++ after ∧ offset = bytes before := by
  constructor
  · rintro ⟨hplace, hbytes⟩
    obtain ⟨before, rest, rfl, hoffset⟩ := String.Pos.Raw.isValid_iff_exists_append.1 hplace
    obtain rfl : offset = before.toByteArray.size := by
      rw [String.size_toByteArray]
      exact congrArg String.Pos.Raw.byteIdx hoffset
    rw [String.toByteArray_append, extract_after] at hbytes
    -- What is left of the rest after the text is text again.
    have hend : (⟨text.utf8ByteSize⟩ : String.Pos.Raw).IsValid rest := by
      refine String.Pos.Raw.isValid_iff_isValidUTF8_extract_zero.2 ⟨?_, ?_⟩
      · have hsize := congrArg ByteArray.size hbytes
        rw [ByteArray.size_extract, String.size_toByteArray, String.size_toByteArray] at hsize
        rw [String.Pos.Raw.le_iff, String.byteIdx_rawEndPos]
        dsimp only
        omega
      · dsimp only
        rw [hbytes]
        exact text.isValidUTF8
    obtain ⟨text', after, rfl, hlength⟩ := String.Pos.Raw.isValid_iff_exists_append.1 hend
    have htext : text' = text := by
      have hsize : text.utf8ByteSize = text'.utf8ByteSize := congrArg String.Pos.Raw.byteIdx hlength
      rw [hsize, String.toByteArray_append, ← String.size_toByteArray,
        ByteArray.extract_append_size_left, ByteArray.extract_zero_size] at hbytes
      exact String.toByteArray_inj.1 hbytes
    subst htext
    exact ⟨before.toList, after.toList, by simp, utf8ByteSize_eq before⟩
  · rintro ⟨before, after, h, rfl⟩
    refine ⟨isPlace_of_append (h.trans (List.append_assoc _ _ _)), ?_⟩
    have hsource : source = String.ofList before ++ (text ++ String.ofList after) := by
      rw [← String.toList_inj, h]
      simp
    have hbefore : bytes before = (String.ofList before).toByteArray.size := by
      rw [String.size_toByteArray, utf8ByteSize_eq, String.toList_ofList]
    rw [hsource, hbefore, String.toByteArray_append, extract_after, String.toByteArray_append,
      ← String.size_toByteArray, ByteArray.extract_append_size_left, ByteArray.extract_zero_size]

/-- A part of a source stands after what is before it. -/
theorem standsIn_of_append {source : String} {offset : Nat} {before src after : List Char}
    (h : source.toList = before ++ src ++ after) (hoffset : offset = bytes before) :
    StandsIn source offset (String.ofList src) :=
  standsIn_iff.2 ⟨before, after, by rwa [String.toList_ofList], hoffset⟩

/-! ## Offsets that do not decrease -/

/-- Whether offsets lie between two bounds and none is before the one in front of it. -/
def InOrder : (low high : Nat) → List Nat → Prop
  | low, high, [] => low ≤ high
  | low, high, o :: os => low ≤ o ∧ InOrder o high os

namespace InOrder

variable {low mid high : Nat} {os os' : List Nat}

/-- A lower bound can be lowered. -/
theorem of_le (hle : mid ≤ low) (h : InOrder low high os) : InOrder mid high os := by
  cases os with
  | nil => exact Nat.le_trans hle h
  | cons o os => exact ⟨Nat.le_trans hle h.1, h.2⟩

/-- Offsets in order one after the other. -/
theorem append (h : InOrder low mid os) (h' : InOrder mid high os') :
    InOrder low high (os ++ os') := by
  induction os generalizing low with
  | nil => exact h'.of_le h
  | cons o os ih => exact ⟨h.1, ih h.2⟩

/-- Some of the offsets are in order if all are. -/
theorem sublist (h : InOrder low high os) (hsub : os'.Sublist os) : InOrder low high os' := by
  induction hsub generalizing low with
  | slnil => exact h
  | cons o _ ih => exact (ih h.2).of_le h.1
  | cons_cons o _ ih => exact ⟨h.1, ih h.2⟩

end InOrder

/-! ## Templates -/

namespace Template

/-- Whether a piece stands where it says, unless it is a character of a constant. -/
def Piece.StandsAt (source : String) (offset : Nat) : Piece → Prop
  | char _ => True
  | reference src | interpolation src => StandsIn source offset (String.ofList src)

/-- Pieces in order between two offsets, each where it says. -/
structure Placed (source : String) (low high : Nat) (ps : List (Nat × Piece)) : Prop where
  /-- They are in order. -/
  inOrder : InOrder low high (ps.map Prod.fst)
  /-- They stand where they say. -/
  stands : ∀ p ∈ ps, IsPlace source p.1 ∧ p.2.StandsAt source p.1

/-- One more piece in front. -/
theorem Placed.cons {source : String} {low mid high high' : Nat} {p : Nat × Piece}
    {ps : List (Nat × Piece)} (h : Placed source mid high' ps) (hplace : IsPlace source p.1)
    (hp : p.2.StandsAt source p.1) (hlow : low ≤ p.1) (hmid : p.1 ≤ mid) (hhigh : high' = high) :
    Placed source low high (p :: ps) := by
  subst hhigh
  refine ⟨⟨hlow, h.inOrder.of_le hmid⟩, fun p' hp' => ?_⟩
  rcases List.mem_cons.1 hp' with rfl | hp'
  · exact ⟨hplace, hp⟩
  · exact h.stands p' hp'

/-- The pieces of a template stand where they say, or its fault points into the source. -/
theorem pieces_ends {source : String} {offset : Nat} {before cs after : List Char}
    (hsource : source.toList = before ++ cs ++ after) (hoffset : offset = bytes before) :
    Ends (Fault.IsMalformed (IsPlace source) SourceFault.IsLexical)
      (Placed source offset (offset + bytes cs)) (pieces offset cs) := by
  have place {offset : Nat} {before cs : List Char} (h : source.toList = before ++ cs ++ after)
      (hoffset : offset = bytes before) : IsPlace source offset := (standsIn_of_append h hoffset).1
  -- Each case takes some characters off the front, and `before` grows by them.
  fun_induction pieces offset cs generalizing before with
  | case1 => exact ⟨Nat.le_refl _, fun _ hp => absurd hp List.not_mem_nil⟩
  | case2 => exact ⟨_, _, rfl, place hsource hoffset, trivial⟩
  | case3 offset c cs ih =>
    have hnext : offset + bytes ['\\', c] = bytes (before ++ ['\\', c]) := by
      rw [bytes_append, hoffset]
    have hrest : source.toList = (before ++ ['\\', c]) ++ cs ++ after := by simp [hsource]
    refine (ih hrest hnext).bind fun ps hps => ?_
    exact hps.cons (place hsource hoffset) trivial (Nat.le_refl _) (Nat.le_add_right _ _)
      (by simp [Nat.add_assoc])
  | case4 => exact ⟨_, _, rfl, place hsource hoffset, trivial⟩
  | case5 offset cs src rest hsome _ ih =>
    obtain rfl := eq_of_interpolation? hsome
    have hbraces : bytes ['{', '{'] = 2 ∧ bytes ['}', '}'] = 2 := ⟨rfl, rfl⟩
    have hbody : offset + 2 = bytes (before ++ ['{', '{']) := by
      rw [bytes_append, hoffset, hbraces.1]
    have hsrc : source.toList = (before ++ ['{', '{']) ++ src ++ (['}', '}'] ++ rest ++ after) := by
      simp [hsource]
    have hnext : offset + bytes src + 4 = bytes (before ++ ['{', '{'] ++ src ++ ['}', '}']) := by
      rw [bytes_append, bytes_append, ← hbody, hbraces.2]
      omega
    have hrest : source.toList = (before ++ ['{', '{'] ++ src ++ ['}', '}']) ++ rest ++ after := by
      simp [hsource]
    refine (ih hrest hnext).bind fun ps hps => ?_
    have hstands := standsIn_of_append hsrc hbody
    refine hps.cons hstands.1 hstands (Nat.le_add_right _ _) (by omega) ?_
    have hwhole : '{' :: '{' :: (src ++ '}' :: '}' :: rest) =
        ['{', '{'] ++ src ++ ['}', '}'] ++ rest := by simp
    rw [hwhole, bytes_append, bytes_append, bytes_append, hbraces.1, hbraces.2]
    omega
  | case6 offset cs hnone ih =>
    have hnext : offset + 1 = bytes (before ++ ['$']) := by
      rw [bytes_append, hoffset]
      rfl
    have hrest : source.toList = (before ++ ['$']) ++ cs ++ after := by simp [hsource]
    refine (ih hrest hnext).bind fun ps hps => ?_
    exact hps.cons (place hsource hoffset) trivial (Nat.le_refl _) (Nat.le_add_right _ _)
      (Nat.add_assoc _ _ _)
  | case7 offset cs src rest hsome _ ih =>
    rw [eq_of_reference? hsome] at hsource ⊢
    have hnext : offset + bytes src = bytes (before ++ src) := by rw [bytes_append, hoffset]
    have hrest : source.toList = (before ++ src) ++ rest ++ after := by simp [hsource]
    refine (ih hrest hnext).bind fun ps hps => ?_
    have hstands := standsIn_of_append (hrest.trans (List.append_assoc _ _ _)) hoffset
    exact hps.cons hstands.1 hstands (Nat.le_refl _) (Nat.le_add_right _ _)
      (by rw [bytes_append, Nat.add_assoc])
  | case8 offset c cs _ _ _ _ ih =>
    have hnext : offset + bytes [c] = bytes (before ++ [c]) := by rw [bytes_append, hoffset]
    have hrest : source.toList = (before ++ [c]) ++ cs ++ after := by simp [hsource]
    refine (ih hrest hnext).bind fun ps hps => ?_
    exact hps.cons (place hsource hoffset) trivial (Nat.le_refl _) (Nat.le_add_right _ _)
      (by simp [Nat.add_assoc])

/-- A part is where its first piece is. -/
theorem offsets_of_cons (p : Nat × Piece) (parts : List (Nat × Part)) :
    ((Part.cons p parts).map Prod.fst).Sublist (p.1 :: parts.map Prod.fst) := by
  unfold Part.cons
  split
  · exact (List.sublist_cons_self _ _).cons_cons _
  all_goals exact List.Sublist.refl _

/-- Parts are in the order of the pieces. -/
theorem offsets_of_parts (ps : List (Nat × Piece)) :
    ((ps.foldr Part.cons []).map Prod.fst).Sublist (ps.map Prod.fst) := by
  induction ps with
  | nil => exact List.Sublist.slnil
  | cons p ps ih => exact (offsets_of_cons p _).trans (ih.cons_cons _)

/-- Parts in order are so with a text before a lone reference. -/
theorem inOrder_padded {low high : Nat} {parts : List (Nat × Part)}
    (h : InOrder low high (parts.map Prod.fst)) :
    InOrder low high ((padded parts).map Prod.fst) := by
  unfold padded
  split
  · exact ⟨h.1, Nat.le_refl _, h.2⟩
  · exact h

/-- The text before a lone reference is where the reference is. -/
theorem mem_offsets_of_padded {parts : List (Nat × Part)} {o : Nat}
    (h : o ∈ (padded parts).map Prod.fst) : o ∈ parts.map Prod.fst := by
  unfold padded at h
  split at h
  · simpa using h
  · exact h

/-- Joined tokens are in order if those that are joined are. -/
theorem inOrder_joined {start stop : Nat} {ts : List Token}
    (h : InOrder start stop (ts.map Token.offset)) :
    InOrder start stop ((joined start stop ts).map Token.offset) := by
  -- An operator is where the token after it is.
  have rest {low : Nat} {ts : List Token} (h : InOrder low stop (ts.map Token.offset)) :
      InOrder low stop ((ts.flatMap fun t => [⟨.concat, "..", t.offset⟩, t]).map Token.offset) := by
    induction ts generalizing low with
    | nil => exact h
    | cons t ts ih => exact ⟨h.1, Nat.le_refl _, ih h.2⟩
  match ts with
  | [] => exact ⟨Nat.le_refl _, h⟩
  | [_] => exact h
  | first :: second :: later =>
    have hclose : InOrder stop stop [stop] := ⟨Nat.le_refl _, Nat.le_refl _⟩
    refine ⟨Nat.le_refl _, ?_⟩
    show InOrder start stop (List.map Token.offset ((first :: _) ++ [_]))
    rw [List.map_append]
    exact InOrder.append ⟨h.1, rest h.2⟩ hclose

/-- Whether a token is one of those that a string is made into: a constant run of it, or a reference
or interpolation that stands in it. -/
def IsStrand (source : String) (t : Token) : Prop :=
  (t.kind = .literal ∧ ∃ run, t.src = quote run) ∨
    ((t.kind = .reference ∨ t.kind = .interpolation) ∧ StandsIn source t.offset t.src)

/-- The tokens that a string between two offsets is made into. -/
structure Woven (source : String) (start stop : Nat) (ts : List Token) : Prop where
  /-- They are its strands, joined. -/
  strands : ∃ parts, ts = joined start stop parts ∧ ∀ t ∈ parts, IsStrand source t
  /-- They are in order. -/
  inOrder : InOrder start stop (ts.map Token.offset)
  /-- They stand between two characters, at the ends of the string or inside. -/
  places : ∀ t ∈ ts, IsPlace source t.offset

/-- A template that is read is made into tokens that stand where they say, and the fault of another
points into the source. -/
theorem tokens_ends {source : String} {offset : Nat} {before cs after : List Char}
    (hsource : source.toList = before ++ cs ++ after) (hoffset : offset = bytes before) :
    Ends (Fault.IsMalformed (IsPlace source) SourceFault.IsLexical)
      (Woven source offset (offset + bytes cs)) (tokens offset cs) := by
  rw [tokens_eq, parts]
  have hstart : IsPlace source offset := (standsIn_of_append hsource hoffset).1
  have hstop : IsPlace source (offset + bytes cs) := by
    have hend : source.toList = (before ++ cs) ++ [] ++ after := by rw [hsource, List.append_nil]
    exact (standsIn_of_append hend (by rw [bytes_append, hoffset])).1
  rw [bind_assoc]
  refine (pieces_ends hsource hoffset).bind fun ps hps => ?_
  have hsub := offsets_of_parts ps
  have hparts := inOrder_padded (hps.inOrder.sublist hsub)
  have hfst (parts : List (Nat × Part)) :
      (parts.map Part.token).map Token.offset = parts.map Prod.fst := by
    rw [List.map_map]
    refine List.map_congr_left fun p _ => ?_
    obtain ⟨o, part⟩ := p
    cases part <;> rfl
  have hplaces : ∀ o ∈ (padded (ps.foldr Part.cons [])).map Prod.fst, IsPlace source o := by
    intro o ho
    obtain ⟨p, hp, rfl⟩ := List.mem_map.1 (hsub.subset (mem_offsets_of_padded ho))
    exact (hps.stands p hp).1
  refine ⟨⟨_, rfl, fun t ht => ?_⟩, inOrder_joined (by rwa [hfst]), fun t ht => ?_⟩
  · obtain ⟨⟨o, part⟩, hpart, rfl⟩ := List.mem_map.1 ht
    cases part with
    | text run => exact .inl ⟨rfl, run, rfl⟩
    | reference src => exact .inr ⟨.inl rfl, (hps.stands _ (mem_pieces_of_mem_padded hpart rfl)).2⟩
    | interpolation src =>
      exact .inr ⟨.inr rfl, (hps.stands _ (mem_pieces_of_mem_padded hpart rfl)).2⟩
  · -- A token that was put in stands where the template starts or ends, or where the next part is.
    have hmem {t : Token} (ht : t ∈ (padded (ps.foldr Part.cons [])).map Part.token) :
        IsPlace source t.offset := by
      refine hplaces _ ?_
      rw [← hfst]
      exact List.mem_map_of_mem ht
    rcases mem_joined_cases ht with ht | rfl | rfl | rfl | ⟨part, hpart, rfl⟩
    · exact hmem ht
    · exact hstart
    · exact hstart
    · exact hstop
    · exact (hmem hpart : IsPlace source part.offset)

end Template

/-! ## Expressions -/

/-- The tokens of a source from an offset on up to another: what is written there is covered without
a gap by their texts, each of at least one byte and standing where its token says, and by quoted
strings, each with the tokens of the template in it. -/
inductive Lexed (source : String) (stop : Nat) : Nat → List Token → Prop
  | stop (place : IsPlace source stop) : Lexed source stop stop []
  | token {t : Token} {ts : List Token} (stands : StandsIn source t.offset t.src)
      (nonempty : t.src ≠ "") (own : t.kind ≠ .interpolation)
      (later : Lexed source stop (t.offset + t.src.utf8ByteSize) ts) :
      Lexed source stop t.offset (t :: ts)
  | quoted {offset : Nat} {quote : Char} {body : List Char} {ts us : List Token}
      (isQuote : isQuote quote = true)
      (stands : StandsIn source offset (String.ofList (quote :: body ++ [quote])))
      (read : Template.tokens (offset + 1) body = .ok ts)
      (woven : Template.Woven source (offset + 1) (offset + 1 + bytes body) ts)
      (later : Lexed source stop (offset + 1 + bytes body + 1) us) :
      Lexed source stop offset (ts ++ us)

namespace Lexed

variable {source : String} {stop offset : Nat} {ts : List Token}

/-- Offsets do not decrease. -/
theorem inOrder (h : Lexed source stop offset ts) : InOrder offset stop (ts.map Token.offset) := by
  induction h with
  | stop => exact Nat.le_refl _
  | token _ _ _ _ ih => exact ⟨Nat.le_refl _, ih.of_le (Nat.le_add_right _ _)⟩
  | quoted _ _ _ woven _ ih =>
    rw [List.map_append]
    exact (woven.inOrder.of_le (Nat.le_succ _)).append (ih.of_le (Nat.le_succ _))

/-- Offsets are between two characters. -/
theorem places (h : Lexed source stop offset ts) {t : Token} (ht : t ∈ ts) :
    IsPlace source t.offset := by
  induction h with
  | stop => cases ht
  | token stands _ _ _ ih =>
    rcases List.mem_cons.1 ht with rfl | ht
    · exact stands.1
    · exact ih ht
  | quoted _ _ _ woven _ ih =>
    rcases List.mem_append.1 ht with ht | ht
    · exact woven.places t ht
    · exact ih ht

end Lexed

/-- Whether a token can be one that a string is made into and that does not stand in it: a constant
in quotes, a parenthesis or a `..`. -/
def Token.IsSynthetic (t : Token) : Prop :=
  (t.kind = .literal ∧ ∃ run, t.src = Template.quote run) ∨
    t.kind ∈ [.openParen, .closeParen, .concat]

/-- A token that a string is made into stands in it or is synthetic. -/
theorem Template.Woven.stands {source : String} {start stop : Nat} {ts : List Token}
    (h : Template.Woven source start stop ts) {t : Token} (ht : t ∈ ts) :
    t.IsSynthetic ∨ StandsIn source t.offset t.src := by
  obtain ⟨parts, rfl, hparts⟩ := h.strands
  rcases mem_joined_cases ht with ht | rfl | rfl | rfl | ⟨_, _, rfl⟩
  · exact (hparts t ht).imp .inl And.right
  · exact .inl (.inl ⟨rfl, [], rfl⟩)
  all_goals exact .inl (.inr (by simp))

/-- A token that is not synthetic stands where it says, also inside a quoted string. -/
theorem Lexed.stands {source : String} {stop offset : Nat} {ts : List Token}
    (h : Lexed source stop offset ts) {t : Token} (ht : t ∈ ts) :
    t.IsSynthetic ∨ StandsIn source t.offset t.src := by
  induction h with
  | stop => cases ht
  | token stands _ _ _ ih =>
    rcases List.mem_cons.1 ht with rfl | ht
    · exact .inr stands
    · exact ih ht
  | quoted _ _ _ woven _ ih =>
    rcases List.mem_append.1 ht with ht | ht
    · exact woven.stands ht
    · exact ih ht

/-- The source of an interpolation is not synthetic. -/
theorem Token.not_isSynthetic {t : Token} (hk : t.kind = .interpolation) : ¬ t.IsSynthetic := by
  rintro (⟨hlit, _⟩ | hmem)
  · rw [hlit] at hk
    cases hk
  · rw [hk] at hmem
    exact absurd hmem (by decide)

/-- A quote is one byte. -/
theorem Lexeme.utf8Size_quote {q : Char} (h : isQuote q = true) : q.utf8Size = 1 := by
  unfold isQuote at h
  simp only [Bool.or_eq_true, beq_iff_eq] at h
  rcases h with (rfl | rfl) | rfl <;> rfl

namespace Token

/-- A source that is read is covered by tokens that stand where they say and by quoted strings, and
the fault of another points into it. -/
theorem scan_ends {source : String} {offset : Nat} {before cs after : List Char}
    (hsource : source.toList = before ++ cs ++ after) (hoffset : offset = bytes before) :
    Ends (Fault.IsMalformed (IsPlace source) SourceFault.IsLexical)
      (Lexed source (offset + bytes cs) offset) (scan offset cs) := by
  fun_induction scan offset cs generalizing before with
  | case1 offset cs hempty =>
    obtain rfl := List.isEmpty_iff.1 hempty
    exact .stop (standsIn_of_append hsource hoffset).1
  | case2 => exact ⟨_, _, rfl, (standsIn_of_append hsource hoffset).1, trivial⟩
  | case3 offset cs hne shape hnext ih =>
    have hlexeme := length_src_pos hnext
    rcases next?_cases hnext with
      ⟨kind, src, rfl, ⟨rest, rfl⟩, _, hkind, _⟩ | ⟨q, body, rest, rfl, hq, _, rfl⟩
    · -- A token, which stands before what is read after it.
      have hdrop : (src ++ rest).drop (Shape.token kind src).src.length = rest := List.drop_left
      have hrest : source.toList = (before ++ src) ++ rest ++ after := by simp [hsource]
      have hbytes : (String.ofList src).utf8ByteSize = bytes src := by
        rw [utf8ByteSize_eq, String.toList_ofList]
      rw [hdrop] at ih ⊢
      refine (ih hrest (by rw [bytes_append, hoffset]; rfl)).bind fun ts hts => ?_
      refine Lexed.token (t := ⟨kind, String.ofList src, offset⟩) ?_ ?_ hkind ?_
      · exact standsIn_of_append (hrest.trans (List.append_assoc _ _ _)) hoffset
      · intro (h : String.ofList src = "")
        obtain rfl : src = [] := by rw [← String.toList_ofList (l := src), h, String.toList_empty]
        exact absurd hlexeme (Nat.lt_irrefl 0)
      · rw [hbytes]
        rw [bytes_append, ← Nat.add_assoc]
        exact hts
    · -- A quoted string, whose template stands between its two quotes of one byte each.
      have hquote : bytes [q] = 1 := utf8Size_quote hq
      have hdrop : (q :: (body ++ q :: rest)).drop (Shape.quoted q body).src.length = rest := by
        simp [Shape.src]
      have hlength : bytes (Shape.quoted q body).src = 1 + bytes body + 1 := by
        rw [Shape.src, List.cons_append, ← List.singleton_append, bytes_append, bytes_append,
          hquote]
        omega
      have hbody : source.toList = (before ++ [q]) ++ body ++ (q :: rest ++ after) := by
        simp [hsource]
      have hwhole : source.toList = before ++ (q :: body ++ [q]) ++ (rest ++ after) := by
        simp [hsource]
      have hrest : source.toList = (before ++ (q :: body ++ [q])) ++ rest ++ after := by
        simp [hsource]
      rw [hdrop, hlength] at ih
      rw [hdrop, hlength]
      have hopen : offset + 1 = bytes (before ++ [q]) := by rw [bytes_append, hoffset, hquote]
      have hin := Template.tokens_ends hbody hopen
      rw [ofShape]
      cases hread : Template.tokens (offset + 1) body with
      | error fault => exact hin.of_error hread
      | ok ts =>
        have hwoven := hin.of_ok hread
        refine (ih hrest ?_).bind fun us hus => ?_
        · rw [bytes_append, hoffset]
          exact congrArg _ hlength.symm
        · refine .quoted hq (standsIn_of_append hwhole hoffset) hread hwoven ?_
          have hstop : offset + bytes (q :: (body ++ q :: rest)) =
              offset + (1 + bytes body + 1) + bytes rest := by
            rw [← List.singleton_append, bytes_append, bytes_append,
              ← List.singleton_append (l := rest), bytes_append, hquote]
            omega
          have hnext : offset + 1 + bytes body + 1 = offset + (1 + bytes body + 1) := by omega
          rw [hstop, hnext]
          exact hus

end Token

end LiveScope
