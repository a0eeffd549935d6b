import LiveScope.Proofs.Expr.Spans

/-!
# Scanning bytes

The ends of quoted strings, of interpolations and of runs can be found in the bytes of a source
without decoding them: a byte of a character that has several is none of the marks. This holds also
of a backslash that protects such a character, although it makes the scan skip one byte only, since
the bytes left are no marks. `Lexeme.quotedBytes?_utf8` and `Lexeme.closingBytes?_utf8` say that
what is found is the end of what `quotedBody?` and `interpolation?` read, and
`Lexeme.takeWhile_utf8` that a run of bytes is a run of characters. So nothing is ever cut inside a
character.
-/

namespace LiveScope

namespace Lexeme

/-! ## Bytes -/

/-- The bytes of a text. -/
def utf8 (cs : List Char) : List UInt8 := cs.flatMap String.utf8EncodeChar

/-- The byte of a character that has one. -/
def byte (c : Char) : UInt8 := UInt8.ofNat c.toNat

/-- Whether a byte is one of a character that has several. -/
def IsHigh (b : UInt8) : Prop := 0x80 ≤ b.toNat

@[simp]
theorem utf8_nil : utf8 [] = [] := rfl

@[simp]
theorem utf8_cons (c : Char) (cs : List Char) :
    utf8 (c :: cs) = String.utf8EncodeChar c ++ utf8 cs := rfl

@[simp]
theorem utf8_append (cs ds : List Char) : utf8 (cs ++ ds) = utf8 cs ++ utf8 ds :=
  List.flatMap_append

/-- The bytes of a text are counted character by character. -/
@[simp]
theorem length_utf8 (cs : List Char) : (utf8 cs).length = bytes cs := by
  induction cs with
  | nil => rfl
  | cons c cs ih =>
    rw [utf8_cons, List.length_append, String.length_utf8EncodeChar, ih, bytes_cons]

/-- The bytes of a text are those of the string. -/
theorem toByteArray_eq (s : String) : s.toByteArray = (utf8 s.toList).toByteArray := by
  have h := String.toByteArray_ofList (l := s.toList)
  rwa [String.ofList_toList] at h

/-- A character is one byte, or several that are no marks. -/
theorem encode_cases (c : Char) :
    (c.toNat < 0x80 ∧ String.utf8EncodeChar c = [byte c]) ∨
      (0x80 ≤ c.toNat ∧ ∃ b bs, String.utf8EncodeChar c = b :: bs ∧ ∀ x ∈ b :: bs, IsHigh x) := by
  have high {n : Nat} (h : 0x80 ≤ n % 256) : IsHigh (UInt8.ofNat n) := by
    unfold IsHigh
    rwa [UInt8.toNat_ofNat']
  have hval : c.val.toNat = c.toNat := rfl
  unfold String.utf8EncodeChar
  dsimp only
  rw [hval]
  split
  · exact .inl ⟨by omega, rfl⟩
  refine .inr ⟨by omega, ?_⟩
  split
  · refine ⟨_, _, rfl, ?_⟩
    simp only [List.forall_mem_cons]
    exact ⟨high (by omega), high (by omega), fun _ h => absurd h List.not_mem_nil⟩
  split
  · refine ⟨_, _, rfl, ?_⟩
    simp only [List.forall_mem_cons]
    exact ⟨high (by omega), high (by omega), high (by omega), fun _ h => absurd h List.not_mem_nil⟩
  · refine ⟨_, _, rfl, ?_⟩
    simp only [List.forall_mem_cons]
    exact ⟨high (by omega), high (by omega), high (by omega), high (by omega),
      fun _ h => absurd h List.not_mem_nil⟩

/-- A mark is its byte. -/
theorem byte_inj {c d : Char} (hc : c.toNat < 0x80) (hd : d.toNat < 0x80) (h : byte c = byte d) :
    c = d := by
  have hn := congrArg UInt8.toNat h
  rw [byte, byte, UInt8.toNat_ofNat', UInt8.toNat_ofNat', Nat.mod_eq_of_lt (by omega),
    Nat.mod_eq_of_lt (by omega)] at hn
  exact Char.toNat_inj.1 hn

/-- Marks are the same if their bytes are. -/
theorem byte_beq_byte {c d : Char} (hc : c.toNat < 0x80) (hd : d.toNat < 0x80) :
    (byte c == byte d) = (c == d) := by
  rw [Bool.eq_iff_iff, beq_iff_eq, beq_iff_eq]
  exact ⟨byte_inj hc hd, congrArg byte⟩

/-- The byte of a mark is low. -/
theorem not_isHigh_byte {c : Char} (hc : c.toNat < 0x80) : ¬ IsHigh (byte c) := by
  unfold IsHigh byte
  rw [UInt8.toNat_ofNat', Nat.mod_eq_of_lt (by omega)]
  omega

/-! ## Quoted strings -/

/-- The number of bytes of a quoted string after its opening quote, the closing quote included. A
backslash protects one byte. -/
def quotedBytes? (quote : UInt8) : List UInt8 → Option Nat
  | [] => none
  | b :: bs =>
    if b = byte '\\' then
      match bs with
      | [] => none
      | _ :: bs => (quotedBytes? quote bs).map (· + 2)
    else if b = quote then some 1
    else (quotedBytes? quote bs).map (· + 1)

/-- A byte that is neither a backslash nor the quote is passed over. -/
theorem quotedBytes?_cons {quote b : UInt8} (hescape : b ≠ byte '\\') (hquote : b ≠ quote)
    (bs : List UInt8) :
    quotedBytes? quote (b :: bs) = (quotedBytes? quote bs).map (· + 1) := by
  conv => lhs; unfold quotedBytes?
  rw [if_neg hescape, if_neg hquote]

/-- A high byte is no mark. -/
theorem IsHigh.ne_byte {b : UInt8} (h : IsHigh b) {c : Char} (hc : c.toNat < 0x80) :
    b ≠ byte c := by
  rintro rfl
  exact not_isHigh_byte hc h

/-- High bytes are passed over. -/
theorem quotedBytes?_high {q : Char} (hq : q.toNat < 0x80) {bs : List UInt8}
    (hbs : ∀ b ∈ bs, IsHigh b) (rest : List UInt8) :
    quotedBytes? (byte q) (bs ++ rest) = (quotedBytes? (byte q) rest).map (· + bs.length) := by
  induction bs with
  | nil => simp
  | cons b bs ih =>
    have hhigh := hbs b List.mem_cons_self
    rw [List.cons_append, quotedBytes?_cons (hhigh.ne_byte (by decide)) (hhigh.ne_byte hq),
      ih fun b hb => hbs b (List.mem_cons_of_mem _ hb), Option.map_map, List.length_cons]
    rfl

/-- A quote is a mark, and no backslash. -/
theorem mark_of_isQuote {q : Char} (h : isQuote q = true) : q.toNat < 0x80 ∧ q ≠ '\\' := by
  unfold isQuote at h
  simp only [Bool.or_eq_true, beq_iff_eq] at h
  rcases h with (rfl | rfl) | rfl <;> decide

/-- A quoted string ends where its bytes do. -/
theorem quotedBytes?_utf8 {q : Char} (h : isQuote q = true) (cs : List Char) :
    quotedBytes? (byte q) (utf8 cs) = (quotedBody? q cs).map fun r => bytes r.1 + 1 := by
  obtain ⟨hq, hne⟩ := mark_of_isQuote h
  have hescape : String.utf8EncodeChar '\\' = [byte '\\'] := rfl
  fun_induction quotedBody? q cs with
  | case1 => rfl
  | case2 => rfl
  | case3 c cs ih =>
    -- One byte is skipped, and the others of the character are passed over.
    have hskip {b : UInt8} {bs : List UInt8} (hc : String.utf8EncodeChar c = b :: bs)
        (hbs : ∀ x ∈ bs, IsHigh x) :
        quotedBytes? (byte q) (utf8 ('\\' :: c :: cs)) =
          (quotedBytes? (byte q) (utf8 cs)).map (· + bytes ['\\', c]) := by
      have hlength : bytes ['\\', c] = bs.length + 2 := by
        rw [← length_utf8]
        simp [hescape, hc]
      rw [utf8_cons, utf8_cons, hescape, hc, hlength, List.singleton_append, List.cons_append]
      conv => lhs; unfold quotedBytes?
      rw [if_pos rfl]
      dsimp only
      rw [quotedBytes?_high hq hbs, Option.map_map]
      rfl
    have hall : quotedBytes? (byte q) (utf8 ('\\' :: c :: cs)) =
        (quotedBytes? (byte q) (utf8 cs)).map (· + bytes ['\\', c]) := by
      rcases encode_cases c with ⟨_, hc⟩ | ⟨_, b, bs, hc, hbs⟩
      · exact hskip hc fun x hx => absurd hx List.not_mem_nil
      · exact hskip hc fun x hx => hbs x (List.mem_cons_of_mem _ hx)
    rw [hall, ih, Option.map_map, Option.map_map]
    congr 1
    funext r
    show bytes r.1 + 1 + bytes ['\\', c] = bytes (['\\', c] ++ r.1) + 1
    rw [bytes_append]
    omega
  | case4 cs h1 h2 =>
    have hquote : String.utf8EncodeChar q = [byte q] := by
      rcases encode_cases q with ⟨_, hc⟩ | ⟨hhigh, _⟩
      · exact hc
      · omega
    rw [utf8_cons, hquote, List.singleton_append]
    conv => lhs; unfold quotedBytes?
    rw [if_neg fun he => hne (byte_inj hq (by decide) he), if_pos rfl]
    rfl
  | case5 c cs h1 h2 hcq ih =>
    have hpass : quotedBytes? (byte q) (utf8 (c :: cs)) =
        (quotedBytes? (byte q) (utf8 cs)).map (· + bytes [c]) := by
      have hlength : bytes [c] = (String.utf8EncodeChar c).length := by
        rw [String.length_utf8EncodeChar]
        rfl
      rw [utf8_cons, hlength]
      rcases encode_cases c with ⟨hlow, hc⟩ | ⟨_, b, bs, hc, hbs⟩
      · have hbackslash : c ≠ '\\' := ne_backslash h1 h2
        rw [hc, List.singleton_append,
          quotedBytes?_cons (fun he => hbackslash (byte_inj hlow (by decide) he))
            (fun he => hcq (byte_inj hlow hq he))]
        rfl
      · rw [hc]
        exact quotedBytes?_high hq hbs _
    rw [hpass, ih, Option.map_map, Option.map_map]
    congr 1
    funext r
    show bytes r.1 + 1 + bytes [c] = bytes ([c] ++ r.1) + 1
    rw [bytes_append]
    omega

/-! ## Interpolations -/

/-- Whether a byte opens a quoted string. -/
def isQuoteByte (b : UInt8) : Bool := b == byte '"' || b == byte '\'' || b == byte '`'

/-- The number of bytes before the braces that close an interpolation, with `depth` pairs open. -/
def closingBytes? (depth : Nat) (bs : List UInt8) : Option Nat :=
  match bs with
  | [] => none
  | b :: bs =>
    if isQuoteByte b then
      match quotedBytes? b bs with
      | none => none
      | some n => (closingBytes? depth (bs.drop n)).map (· + (n + 1))
    else if b = byte '{' ∧ bs.head? = some (byte '{') then
      (closingBytes? (depth + 1) (bs.drop 1)).map (· + 2)
    else if b = byte '}' ∧ bs.head? = some (byte '}') then
      match depth with
      | 0 => some 0
      | depth + 1 => (closingBytes? depth (bs.drop 1)).map (· + 2)
    else (closingBytes? depth bs).map (· + 1)
termination_by bs.length
decreasing_by
  all_goals
    simp only [List.length_cons, List.length_drop]
    omega

/-- The byte of a mark is a quote if the mark is. -/
theorem isQuoteByte_byte {c : Char} (hc : c.toNat < 0x80) : isQuoteByte (byte c) = isQuote c := by
  unfold isQuoteByte isQuote
  rw [byte_beq_byte hc (by decide), byte_beq_byte hc (by decide), byte_beq_byte hc (by decide)]

/-- A high byte is no quote. -/
theorem IsHigh.isQuoteByte {b : UInt8} (h : IsHigh b) : isQuoteByte b = false := by
  unfold Lexeme.isQuoteByte
  simp [h.ne_byte (show '"'.toNat < 0x80 by decide), h.ne_byte (show '\''.toNat < 0x80 by decide),
    h.ne_byte (show '`'.toNat < 0x80 by decide)]

/-- The first byte of a text is that of a mark if its first character is. -/
theorem head?_utf8 {c : Char} (hc : c.toNat < 0x80) (cs : List Char) :
    (utf8 cs).head? = some (byte c) ↔ cs.head? = some c := by
  cases cs with
  | nil => simp
  | cons d ds =>
    rw [utf8_cons]
    rcases encode_cases d with ⟨hd, he⟩ | ⟨hd, b, bs, he, hbs⟩
    · rw [he]
      simp only [List.singleton_append, List.head?_cons, Option.some.injEq]
      exact ⟨byte_inj hd hc, congrArg byte⟩
    · rw [he]
      simp only [List.cons_append, List.head?_cons, Option.some.injEq]
      refine ⟨fun h => absurd h ((hbs b List.mem_cons_self).ne_byte hc), ?_⟩
      rintro rfl
      omega

/-- A byte that is no mark of an interpolation is passed over. -/
theorem closingBytes?_cons {b : UInt8} {bs : List UInt8} (hquote : isQuoteByte b = false)
    (hopen : ¬ (b = byte '{' ∧ bs.head? = some (byte '{')))
    (hclose : ¬ (b = byte '}' ∧ bs.head? = some (byte '}'))) (depth : Nat) :
    closingBytes? depth (b :: bs) = (closingBytes? depth bs).map (· + 1) := by
  conv => lhs; unfold closingBytes?
  rw [hquote, if_neg Bool.false_ne_true, if_neg hopen, if_neg hclose]

/-- High bytes are passed over. -/
theorem closingBytes?_high {bs : List UInt8} (hbs : ∀ b ∈ bs, IsHigh b) (depth : Nat)
    (rest : List UInt8) :
    closingBytes? depth (bs ++ rest) = (closingBytes? depth rest).map (· + bs.length) := by
  induction bs with
  | nil => simp
  | cons b bs ih =>
    have hhigh := hbs b List.mem_cons_self
    rw [List.cons_append, closingBytes?_cons hhigh.isQuoteByte
      (fun h => hhigh.ne_byte (by decide) h.1) (fun h => hhigh.ne_byte (by decide) h.1),
      ih fun b hb => hbs b (List.mem_cons_of_mem _ hb), Option.map_map, List.length_cons]
    rfl

/-- Braces that open one more pair. -/
theorem closingBytes?_open (depth : Nat) (bs : List UInt8) :
    closingBytes? depth (byte '{' :: byte '{' :: bs) =
      (closingBytes? (depth + 1) bs).map (· + 2) := by
  conv => lhs; unfold closingBytes?
  rfl

/-- Braces that close what is read, or a pair in it. -/
theorem closingBytes?_close (depth : Nat) (bs : List UInt8) :
    closingBytes? depth (byte '}' :: byte '}' :: bs) =
      match depth with
      | 0 => some 0
      | depth + 1 => (closingBytes? depth bs).map (· + 2) := by
  conv => lhs; unfold closingBytes?
  rfl

/-- A quoted string is passed over. -/
theorem closingBytes?_quote {q : Char} (hq : isQuote q = true) (depth : Nat) (cs : List Char) :
    closingBytes? depth (utf8 (q :: cs)) =
      match quotedBody? q cs with
      | none => none
      | some (body, rest) =>
        (closingBytes? depth (utf8 rest)).map (· + bytes (q :: body ++ [q])) := by
  have hlow := (mark_of_isQuote hq).1
  have hquote : String.utf8EncodeChar q = [byte q] := by
    rcases encode_cases q with ⟨_, hc⟩ | ⟨hhigh, _⟩
    · exact hc
    · omega
  rw [utf8_cons, hquote, List.singleton_append]
  conv => lhs; unfold closingBytes?
  rw [isQuoteByte_byte hlow, if_pos hq, quotedBytes?_utf8 hq]
  cases hbody : quotedBody? q cs with
  | none => rfl
  | some r =>
    obtain ⟨body, rest⟩ := r
    obtain rfl := eq_of_quotedBody? hbody
    have hdrop : (utf8 (body ++ q :: rest)).drop (bytes body + 1) = utf8 rest := by
      have hlength : bytes body + 1 = (utf8 (body ++ [q])).length := by
        rw [length_utf8, bytes_append]
        exact congrArg _ (utf8Size_quote hq).symm
      rw [List.append_cons, utf8_append, hlength, List.drop_left]
    have hsize : bytes (q :: body ++ [q]) = bytes body + 1 + 1 := by
      rw [bytes_append, bytes_cons, bytes_cons, bytes_nil, utf8Size_quote hq]
      omega
    rw [Option.map_some]
    dsimp only
    rw [hdrop, hsize]

/-- An interpolation ends where its bytes do. -/
theorem closingBytes?_utf8 (depth : Nat) (cs : List Char) :
    closingBytes? depth (utf8 cs) = (Template.interpolation? depth cs).map fun r => bytes r.1 := by
  -- What is found after some characters is moved by their bytes.
  have moved {cs : List Char} {depth : Nat} (xs : List Char)
      (h : closingBytes? depth (utf8 cs) =
        (Template.interpolation? depth cs).map fun r => bytes r.1) :
      (closingBytes? depth (utf8 cs)).map (· + bytes xs) =
        ((Template.interpolation? depth cs).map fun r => (xs ++ r.1, r.2)).map
          fun r => bytes r.1 := by
    rw [h, Option.map_map, Option.map_map]
    congr 1
    funext ⟨src, rest⟩
    show bytes src + bytes xs = bytes (xs ++ src)
    rw [bytes_append, Nat.add_comm]
  fun_induction Template.interpolation? depth cs with
  | case1 =>
    unfold closingBytes?
    rfl
  | case2 depth cs ih => exact (closingBytes?_open depth (utf8 cs)).trans (moved ['{', '{'] ih)
  | case3 cs => exact closingBytes?_close 0 (utf8 cs)
  | case4 cs depth ih =>
    exact (closingBytes?_close (depth + 1) (utf8 cs)).trans (moved ['}', '}'] ih)
  | case5 depth c cs h1 h2 hq hnone =>
    rw [closingBytes?_quote hq, hnone]
    rfl
  | case6 depth c cs h1 h2 hq body rest hb _ ih =>
    rw [closingBytes?_quote hq, hb]
    have h := moved (c :: body ++ [c]) ih
    simp only [List.append_assoc, List.cons_append] at h ⊢
    exact h
  | case7 depth c cs hopen hclose hq ih =>
    refine Eq.trans ?_ (moved [c] ih)
    have hlength : bytes [c] = (String.utf8EncodeChar c).length := by
      rw [String.length_utf8EncodeChar]
      rfl
    rw [utf8_cons, hlength]
    rcases encode_cases c with ⟨hlow, hc⟩ | ⟨_, b, bs, hc, hbs⟩
    · rw [hc]
      refine closingBytes?_cons ?_ ?_ ?_ depth
      · rw [isQuoteByte_byte hlow]
        simpa using hq
      · rintro ⟨hb, hhead⟩
        obtain rfl := byte_inj hlow (by decide) hb
        obtain ⟨ds, rfl⟩ := List.head?_eq_some_iff.1 ((head?_utf8 (by decide) cs).1 hhead)
        exact hopen ds rfl rfl
      · rintro ⟨hb, hhead⟩
        obtain rfl := byte_inj hlow (by decide) hb
        obtain ⟨ds, rfl⟩ := List.head?_eq_some_iff.1 ((head?_utf8 (by decide) cs).1 hhead)
        exact hclose ds rfl rfl
    · rw [hc]
      exact closingBytes?_high hbs depth _

/-! ## Runs -/

/-- A run of bytes that are marks is a run of characters. -/
theorem takeWhile_utf8 {p : UInt8 → Bool} {q : Char → Bool} (hhigh : ∀ b, IsHigh b → p b = false)
    (hlow : ∀ c, c.toNat < 0x80 → p (byte c) = q c) (hq : ∀ c, 0x80 ≤ c.toNat → q c = false)
    (cs : List Char) : (utf8 cs).takeWhile p = utf8 (cs.takeWhile q) := by
  induction cs with
  | nil => rfl
  | cons c cs ih =>
    rw [utf8_cons]
    rcases encode_cases c with ⟨hc, he⟩ | ⟨hc, b, bs, he, hbs⟩
    · rw [he, List.singleton_append, List.takeWhile_cons, List.takeWhile_cons, hlow c hc, ih]
      split
      · rw [utf8_cons, he]
        rfl
      · rfl
    · have hp := hhigh b (hbs b List.mem_cons_self)
      rw [he, List.cons_append, List.takeWhile_cons, List.takeWhile_cons, hp, hq c hc]
      rfl

/-- Whether a byte can go on with a name. -/
def isNameByte (b : UInt8) : Bool :=
  (byte 'a' ≤ b && b ≤ byte 'z') || (byte 'A' ≤ b && b ≤ byte 'Z') || b == byte '_' ||
    (byte '0' ≤ b && b ≤ byte '9')

/-- Marks are in the order of their bytes. -/
theorem byte_le_byte {c d : Char} (hc : c.toNat < 0x80) (hd : d.toNat < 0x80) :
    byte c ≤ byte d ↔ c ≤ d := by
  rw [UInt8.le_iff_toNat_le, byte, byte, UInt8.toNat_ofNat', UInt8.toNat_ofNat',
    Nat.mod_eq_of_lt (by omega), Nat.mod_eq_of_lt (by omega)]
  exact UInt32.le_iff_toNat_le.symm

/-- A run of bytes of names is a run of characters of names. -/
theorem takeWhile_name (cs : List Char) :
    (utf8 cs).takeWhile isNameByte = utf8 (cs.takeWhile isNameChar) := by
  refine takeWhile_utf8 (fun b hb => ?_) (fun c hc => ?_) (fun c hc => ?_) cs
  · have hle {d : Char} (hd : d.toNat < 0x80) : ¬ b ≤ byte d := by
      rw [UInt8.le_iff_toNat_le, byte, UInt8.toNat_ofNat', Nat.mod_eq_of_lt (by omega)]
      have : 0x80 ≤ b.toNat := hb
      omega
    simp [isNameByte, hle (show 'z'.toNat < 0x80 by decide), hle (show 'Z'.toNat < 0x80 by decide),
      hle (show '9'.toNat < 0x80 by decide), hb.ne_byte (show '_'.toNat < 0x80 by decide)]
  · simp only [isNameByte, isNameChar, isNameStart, isDigit,
      byte_le_byte hc (show 'z'.toNat < 0x80 by decide),
      byte_le_byte hc (show 'Z'.toNat < 0x80 by decide),
      byte_le_byte hc (show '9'.toNat < 0x80 by decide),
      byte_le_byte (show 'a'.toNat < 0x80 by decide) hc,
      byte_le_byte (show 'A'.toNat < 0x80 by decide) hc,
      byte_le_byte (show '0'.toNat < 0x80 by decide) hc,
      byte_beq_byte hc (show '_'.toNat < 0x80 by decide)]
  · have hle {d : Char} (hd : d.toNat < 0x80) : ¬ c ≤ d := by
      intro h
      have : c.toNat ≤ d.toNat := UInt32.le_iff_toNat_le.1 h
      omega
    have hne : c ≠ '_' := by
      rintro rfl
      exact absurd hc (by decide)
    simp [isNameChar, isNameStart, isDigit, hle (show 'z'.toNat < 0x80 by decide),
      hle (show 'Z'.toNat < 0x80 by decide), hle (show '9'.toNat < 0x80 by decide), hne]

/-- A run of bytes of sigils is a run of sigils. -/
theorem takeWhile_sigil (cs : List Char) :
    (utf8 cs).takeWhile (· == byte '$') = utf8 (cs.takeWhile (· == '$')) := by
  refine takeWhile_utf8 (fun b hb => ?_) (fun c hc => ?_) (fun c hc => ?_) cs
  · simpa using hb.ne_byte (show '$'.toNat < 0x80 by decide)
  · exact byte_beq_byte hc (by decide)
  · rw [beq_eq_false_iff_ne]
    rintro rfl
    exact absurd hc (by decide)

end Lexeme

end LiveScope
