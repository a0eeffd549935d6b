import LiveScope.Proofs.Expr.Balance
import LiveScope.Proofs.Expr.Bytes

/-!
# Sources are read without loss

Whatever a source is, either its tokens cover it or its fault points into it, and so does the fault
of an interpolation in it, however deep it is nested: the source of an interpolation stands in the
outermost source, so that it is read as a part of that (`Parser.sound_source`).
`Token.scan_lossless` says this together with where the marks of a source are found in its bytes.
-/

namespace LiveScope

open Lexeme

/-- Two starts of a text with as many bytes are the same. -/
theorem Lexeme.append_inj_bytes {xs ys xs' ys' : List Char} (h : xs ++ ys = xs' ++ ys')
    (hbytes : bytes xs = bytes xs') : xs = xs' ∧ ys = ys' := by
  induction xs generalizing xs' with
  | nil =>
    match xs' with
    | [] => exact ⟨rfl, h⟩
    | c :: cs =>
      rw [bytes_nil, bytes_cons] at hbytes
      have := c.utf8Size_pos
      omega
  | cons c cs ih =>
    match xs' with
    | [] =>
      rw [bytes_nil, bytes_cons] at hbytes
      have := c.utf8Size_pos
      omega
    | c' :: cs' =>
      obtain ⟨rfl, htail⟩ := List.cons.inj h
      rw [bytes_cons, bytes_cons] at hbytes
      obtain ⟨rfl, rfl⟩ := ih htail (Nat.add_left_cancel hbytes)
      exact ⟨rfl, rfl⟩

/-- Without quoted strings, the texts of the tokens make up what is left of a source. -/
theorem Lexed.flatMap_src {source : String} {offset stop : Nat} {ts : List Token}
    (h : Lexed source stop offset ts) (hstop : stop = source.utf8ByteSize)
    (hquotes : ∀ c ∈ source.toList, isQuote c = false) {before rest : List Char}
    (hsource : source.toList = before ++ rest) (hoffset : offset = bytes before) :
    ts.flatMap (·.src.toList) = rest := by
  induction h generalizing before rest with
  | stop =>
    have hall : before ++ rest = source.toList ++ [] := by rw [hsource, List.append_nil]
    rw [hstop, utf8ByteSize_eq] at hoffset
    exact (append_inj_bytes hall hoffset.symm).2.symm
  | @token t ts stands _ _ _ ih =>
    obtain ⟨before', after, hsplit, hoffset'⟩ := standsIn_iff.1 stands
    rw [List.append_assoc] at hsplit
    obtain ⟨rfl, rfl⟩ := append_inj_bytes (hsource.symm.trans hsplit) (hoffset.symm.trans hoffset')
    rw [List.flatMap_cons, ih (hsplit.trans (List.append_assoc _ _ _).symm)]
    rw [bytes_append, hoffset, utf8ByteSize_eq]
  | @quoted _ quote _ _ _ hq stands =>
    obtain ⟨_, _, hsplit, _⟩ := standsIn_iff.1 stands
    have hnone := hquotes quote (by rw [hsplit, String.toList_ofList]; simp)
    rw [hq] at hnone
    cases hnone

/-- The tokens of a part of a source: those that are interpolations stand in it. -/
structure PartOf (source : String) (offset : Nat) (ts : List Token) : Prop where
  /-- The part starts at a place. -/
  start : IsPlace source offset
  /-- The tokens are at places. -/
  placed : ∀ t ∈ ts, IsPlace source t.offset
  /-- Interpolations stand where they say. -/
  stands : ∀ t ∈ ts, t.kind = .interpolation → StandsIn source t.offset t.src

/-- The tokens that cover a part of a source. -/
theorem Lexed.partOf {source : String} {offset stop : Nat} {ts : List Token}
    (h : Lexed source stop offset ts) (hplace : IsPlace source offset) :
    PartOf source offset ts where
  start := hplace
  placed _ ht := h.places ht
  stands _ ht hk := (h.stands ht).resolve_left (Token.not_isSynthetic hk)

/-- The tokens that a string in a source is made into. -/
theorem Template.Woven.partOf {source : String} {start stop : Nat} {ts : List Token}
    (h : Template.Woven source start stop ts) (hplace : IsPlace source start) :
    PartOf source start ts where
  start := hplace
  placed := h.places
  stands _ ht hk := (h.stands ht).resolve_left (Token.not_isSynthetic hk)

/-- The faults of the parts of a source are at places of it. -/
theorem Parser.sound_source (source : String) :
    Sound (IsPlace source) (fun _ => True) (PartOf source) where
  syntactic _ _ := trivial
  start h := h.start
  placed h := h.placed
  literal h t ht _ :=
    t.ofLiteral_ends.mono (fun _ hf => ⟨_, _, hf, h.placed t ht, trivial⟩) fun _ => id
  nested h t ht hk := by
    have hstands := h.stands t ht hk
    obtain ⟨before, after, hsource, hoffset⟩ := standsIn_iff.1 hstands
    refine (Token.scan_ends hsource hoffset).mono (fun fault hf => ?_)
      fun us hus => hus.partOf hstands.1
    obtain ⟨o, c, rfl, ho, _⟩ := hf
    exact ⟨o, c, rfl, ho, trivial⟩

/-- A source is read without loss. As an expression it is covered from its start to its end by
tokens and quoted strings, as a template it is woven into tokens, and every token that is not
synthetic stands where it says; in both cases offsets do not decrease. The faults of either, and
those of its tree with all interpolations in it, point between two characters of the source or to
one of its ends. The ends of strings, interpolations and runs that are found in its bytes are those
of characters. -/
theorem Token.scan_lossless (source : String) :
    Ends (Fault.IsMalformed (IsPlace source) SourceFault.IsLexical)
        (fun ts => Lexed source source.utf8ByteSize 0 ts ∧
          InOrder 0 source.utf8ByteSize (ts.map Token.offset) ∧
          (∀ t ∈ ts, t.IsSynthetic ∨ StandsIn source t.offset t.src) ∧
          ((∀ c ∈ source.toList, isQuote c = false) →
            ts.flatMap (·.src.toList) = source.toList))
        (Token.scan 0 source.toList) ∧
      Ends (Fault.IsMalformed (IsPlace source) SourceFault.IsLexical)
        (fun ts => Template.Woven source 0 source.utf8ByteSize ts ∧
          InOrder 0 source.utf8ByteSize (ts.map Token.offset) ∧
          ∀ t ∈ ts, t.IsSynthetic ∨ StandsIn source t.offset t.src)
        (Template.tokens 0 source.toList) ∧
      Ends (Fault.IsMalformed (IsPlace source) fun _ => True) (fun _ => True)
        (Expr.ofSource source) ∧
      Ends (Fault.IsMalformed (IsPlace source) fun _ => True) (fun _ => True)
        (Expr.ofTemplate source) ∧
      ∀ before cs, source.toList = before ++ cs →
        source.toByteArray = (utf8 before ++ utf8 cs).toByteArray ∧
        (∀ q, isQuote q = true →
          quotedBytes? (byte q) (utf8 cs) = (quotedBody? q cs).map fun r => bytes r.1 + 1) ∧
        (∀ depth, closingBytes? depth (utf8 cs) =
          (Template.interpolation? depth cs).map fun r => bytes r.1) ∧
        (utf8 cs).takeWhile (· == byte '$') = utf8 (cs.takeWhile (· == '$')) ∧
        (utf8 cs).takeWhile isNameByte = utf8 (cs.takeWhile isNameChar) := by
  have hsource : source.toList = [] ++ source.toList ++ [] := by simp
  have hend : 0 + bytes source.toList = source.utf8ByteSize := by
    rw [Nat.zero_add, utf8ByteSize_eq]
  have hplace : IsPlace source 0 := (standsIn_of_append hsource rfl).1
  have hscan := Token.scan_ends hsource rfl
  have htokens := Template.tokens_ends hsource rfl
  rw [bytes_nil, hend] at hscan htokens
  have weaken (fault : Fault)
      (hf : fault.IsMalformed (IsPlace source) SourceFault.IsLexical) :
      fault.IsMalformed (IsPlace source) fun _ => True := by
    obtain ⟨o, c, rfl, ho, _⟩ := hf
    exact ⟨o, c, rfl, ho, trivial⟩
  -- The faults of a tree are those of its tokens, which are parts of the source.
  have parsed {ts : List Token} (h : PartOf source 0 ts) :
      Ends (Fault.IsMalformed (IsPlace source) fun _ => True) (fun _ => True) (Expr.parse ts) :=
    (Parser.run_ends (Parser.sound_source source) h).mono (fun _ => id) fun _ _ => trivial
  refine ⟨?_, ?_, ?_, ?_, ?_⟩
  · exact hscan.mono (fun _ => id) fun ts hts => ⟨hts, hts.inOrder, fun _ => hts.stands,
      fun hquotes => hts.flatMap_src rfl hquotes (List.nil_append _).symm rfl⟩
  · exact htokens.mono (fun _ => id) fun ts hts => ⟨hts, hts.inOrder, fun _ => hts.stands⟩
  · exact (hscan.mono weaken fun _ => id).bind fun ts hts => parsed (hts.partOf hplace)
  · exact (htokens.mono weaken fun _ => id).bind fun ts hts => parsed (hts.partOf hplace)
  · rintro before cs hsplit
    refine ⟨?_, fun q hq => quotedBytes?_utf8 hq cs, fun depth => closingBytes?_utf8 depth cs,
      takeWhile_sigil cs, takeWhile_name cs⟩
    rw [toByteArray_eq, hsplit, utf8_append]

/-- In `"\é$a"` the bytes of the string end where it does, although the backslash protects a
character of two bytes, and its reference stands behind both. -/
theorem Token.scan_lossless_accent :
    let cs : List Char := ['\\', 'é', '$', 'a', '"']
    let source := String.ofList ('"' :: cs)
    source.toList = ['"'] ++ cs ∧ isQuote '"' = true ∧
      quotedBytes? (byte '"') (utf8 cs) = some 6 ∧
      ∃ ts, Token.scan 0 source.toList = .ok ts ∧ (⟨.reference, "$a", 4⟩ : Token) ∈ ts ∧
        StandsIn source 4 "$a" := by
  intro cs source
  have hsource : source.toList = ['"'] ++ cs := String.toList_ofList
  obtain ⟨hscan, _, _, _, hbytes⟩ := Token.scan_lossless source
  refine ⟨hsource, rfl, (hbytes _ _ hsource).2.1 '"' rfl, ?_⟩
  have hread : Token.scan 0 source.toList = .ok
      [⟨.openParen, "(", 1⟩, ⟨.literal, "\"é\"", 1⟩, ⟨.concat, "..", 4⟩, ⟨.reference, "$a", 4⟩,
        ⟨.closeParen, ")", 6⟩] := by
    rw [hsource]
    decide +kernel
  refine ⟨_, hread, by simp, ?_⟩
  refine ((hscan.of_ok hread).2.2.1 ⟨.reference, "$a", 4⟩ (by simp)).resolve_left ?_
  rintro (⟨h, _⟩ | h)
  · cases h
  · exact absurd h (by decide)

end LiveScope
