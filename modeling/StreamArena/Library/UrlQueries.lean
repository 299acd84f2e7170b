import StreamArena.Library.FormUrlencoded
import StreamArena.Library.Urls

/-! Queries of web addresses: a parsed URL has the query of its text up to percent-encoding,
so what a query decodes to is made of fewer question marks and percent signs than the text. -/
namespace Urls
open AsciiText Aead FormUrlencoded

/-- A decoder that reads text as text, and an ASCII character from its own byte only. -/
structure LossyDecoder where
  decode : Bytes → Text
  decode_utf8Bytes : ∀ text, decode (utf8Bytes text) = text
  count_decode : ∀ bytes c, c.toNat < 128 → (decode bytes).count c ≤ bytes.count (UInt8.ofNat c.toNat)

def percentEncodeByte (b : UInt8) : Text := ['%', hexDigit (b.toNat / 16), hexDigit (b.toNat % 16)]

/-- A text with all but the kept characters percent-encoded. -/
def encodeQuery (kept : Char → Bool) (raw : Text) : Text :=
  raw.flatMap fun c => if kept c then [c] else (utf8Bytes [c]).flatMap percentEncodeByte

/-- The characters that no query encodes. -/
def isQueryChar (c : Char) : Bool :=
  isPrintable c && c != ' ' && c != '"' && c != '#' && c != '<' && c != '>' && c != '\''

def isPlainPathChar (c : Char) : Bool := c.isAlphanum || c == '/' || c == '-'

theorem not_isWhitespace_of_isPlainPathChar {c : Char} (h : isPlainPathChar c = true) :
    isWhitespace c = false := by
  simp only [isPlainPathChar, Bool.or_eq_true, beq_iff_eq] at h
  obtain (halnum | rfl) | rfl := h
  · simp only [Char.isAlphanum, Char.isAlpha, Char.isUpper, Char.isLower, Char.isDigit, Bool.or_eq_true,
      Bool.and_eq_true, decide_eq_true_eq, ge_iff_le, UInt32.le_iff_toNat_le] at halnum
    have hval : c.val.toNat = c.toNat := rfl
    simp only [hval] at halnum
    have hletters : 'A'.val.toNat = 65 ∧ 'Z'.val.toNat = 90 ∧ 'a'.val.toNat = 97 ∧ 'z'.val.toNat = 122 ∧
      '0'.val.toNat = 48 ∧ '9'.val.toNat = 57 := by decide
    refine not_isWhitespace_of_isPrintable ?_ fun hspace => ?_
    · simp only [isPrintable, Bool.and_eq_true, decide_eq_true_eq]
      omega
    · rw [hspace] at halnum
      exact absurd halnum (by decide)
  · decide
  · decide

/-- What the URL standard promises of paths and queries: a path without a scheme is no URL by
itself, a plain path is kept, and a query is what follows a question mark, percent-encoded. -/
structure Queries (urls : Library) where
  port : urls.Url → Option Nat
  query : urls.Url → Option Text
  parse_relative : ∀ text, text.head? = some '/' ∨ text.head? = some '.' → urls.parse text = none
  path_plain : ∀ path rest url, path.head? = some '/' → path.all isPlainPathChar = true →
    (rest = [] ∨ rest.head? = some '?') →
    urls.parse ("http://localhost".toList ++ (path ++ rest)) = some url → urls.path url = path
  query_parse : ∀ text url encoded, urls.parse text = some url → query url = some encoded →
    ∃ kept raw, (∀ c, isQueryChar c = true → kept c = true) ∧
      ('?' :: raw).Sublist text ∧ encoded = encodeQuery kept raw

/-- The characters that begin a query or an escape. -/
def marks (text : Text) : Nat := text.count '?' + text.count '%'

def byteMarks (bytes : Bytes) : Nat := bytes.count 63 + bytes.count 37

@[simp] theorem marks_append (s t : Text) : marks (s ++ t) = marks s + marks t := by
  simp only [marks, List.count_append]
  omega

@[simp] theorem byteMarks_append (s t : Bytes) : byteMarks (s ++ t) = byteMarks s + byteMarks t := by
  simp only [byteMarks, List.count_append]
  omega

theorem marks_sublist {s t : Text} (h : s.Sublist t) : marks s ≤ marks t :=
  Nat.add_le_add (h.count_le _) (h.count_le _)

theorem LossyDecoder.marks_decode (decoder : LossyDecoder) (bytes : Bytes) :
    marks (decoder.decode bytes) ≤ byteMarks bytes :=
  Nat.add_le_add (decoder.count_decode bytes '?' (by decide)) (decoder.count_decode bytes '%' (by decide))

theorem utf8Bytes_singleton (c : Char) : utf8Bytes [c] = String.utf8EncodeChar c := by
  simp [utf8Bytes, List.utf8Encode]

/-- The bytes of a character beyond ASCII are no ASCII bytes. -/
theorem high_bytes {c : Char} (h : 128 ≤ c.toNat) : ∀ b ∈ utf8Bytes [c], 128 ≤ b.toNat := by
  intro b hb
  rw [utf8Bytes_singleton, String.utf8EncodeChar] at hb
  have hlow : ¬ c.val.toNat ≤ 0x7f := by
    have hval : c.val.toNat = c.toNat := rfl
    omega
  simp only [if_neg hlow] at hb
  split_ifs at hb
  all_goals
    simp only [List.mem_cons, List.not_mem_nil, or_false] at hb
    rcases hb with rfl | rfl | rfl | rfl <;> simp only [UInt8.toNat_ofNat'] <;> omega

theorem byteMarks_char (c : Char) : byteMarks (utf8Bytes [c]) ≤ marks [c] := by
  by_cases h : c.toNat < 128
  · have hascii : ∀ n < 128, byteMarks (utf8Bytes [Char.ofNat n]) ≤ marks [Char.ofNat n] := by decide
    have hc := hascii c.toNat h
    rwa [Char.ofNat_toNat] at hc
  · have hzero (b : UInt8) (hb : b.toNat < 128) : (utf8Bytes [c]).count b = 0 := by
      refine List.count_eq_zero.mpr fun hmem => ?_
      have hhigh := high_bytes (by omega) b hmem
      omega
    rw [byteMarks, hzero 63 (by decide), hzero 37 (by decide)]
    exact Nat.zero_le _

theorem byteMarks_decoded (c : Char) : byteMarks (if c = '+' then [32] else utf8Bytes [c]) ≤ marks [c] := by
  split_ifs with h
  · subst h
    decide
  · exact byteMarks_char c

/-- The byte that the two digits after a percent sign stand for. -/
def hexPair : Text → Option UInt8
  | h :: l :: _ => (hexValue h).bind fun a => (hexValue l).map fun b => UInt8.ofNat (a * 16 + b)
  | _ => none

theorem percentDecode_escape {rest : Text} {b : UInt8} (h : hexPair rest = some b) :
    percentDecode ('%' :: rest) = b :: percentDecode (rest.drop 2) := by
  match rest, h with
  | x :: y :: rest, h =>
    obtain ⟨a, ha, hmap⟩ := Option.bind_eq_some_iff.mp h
    obtain ⟨d, hd, rfl⟩ := Option.map_eq_some_iff.mp hmap
    simp only [percentDecode, ↓reduceIte, ha, hd, List.drop_succ_cons, List.drop_zero]

theorem percentDecode_percent {rest : Text} (h : hexPair rest = none) :
    percentDecode ('%' :: rest) = 37 :: percentDecode rest := by
  have hbyte : utf8Bytes ['%'] = [37] := by decide
  match rest, h with
  | [], _ => exact hbyte
  | [_], _ => simp [percentDecode, hbyte]
  | x :: y :: rest, h =>
    simp only [percentDecode, ↓reduceIte]
    split
    next a b ha hb => simp [hexPair, ha, hb] at h
    next => simp [hbyte]

theorem byteMarks_cons (b : UInt8) (bytes : Bytes) :
    byteMarks (b :: bytes) = byteMarks [b] + byteMarks bytes := byteMarks_append [b] bytes

theorem marks_cons (c : Char) (text : Text) : marks (c :: text) = marks [c] + marks text :=
  marks_append [c] text

theorem byteMarks_singleton (b : UInt8) : byteMarks [b] ≤ 1 := by
  by_cases h63 : b = 63
  · subst h63; decide
  · by_cases h37 : b = 37
    · subst h37; decide
    · simp [byteMarks, h63, h37]

/-- Decoding makes a mark only out of a mark. -/
theorem byteMarks_percentDecode (text : Text) : byteMarks (percentDecode text) ≤ marks text := by
  induction hn : text.length using Nat.strong_induction_on generalizing text with
  | _ n ih =>
    cases text with
    | nil => exact Nat.zero_le _
    | cons c rest =>
      have hrest := ih rest.length (by rw [← hn]; exact Nat.lt_succ_self _) rest rfl
      by_cases hc : c = '%'
      · subst hc
        have hmark : marks ['%'] = 1 := by decide
        cases hpair : hexPair rest with
        | none =>
          have hbyte := byteMarks_singleton 37
          rw [percentDecode_percent hpair, byteMarks_cons, marks_cons]
          omega
        | some b =>
          have hdrop := marks_sublist (List.drop_sublist 2 rest)
          have hlater := ih (rest.drop 2).length (by rw [← hn, List.length_drop, List.length_cons]; omega)
            (rest.drop 2) rfl
          have hbyte := byteMarks_singleton b
          rw [percentDecode_escape hpair, byteMarks_cons, marks_cons]
          omega
      · rw [percentDecode_cons hc, byteMarks_append, marks_cons]
        exact Nat.add_le_add (byteMarks_decoded c) hrest

theorem percentDecode_encodeBytes (bytes : Bytes) (rest : Text) :
    percentDecode (bytes.flatMap percentEncodeByte ++ rest) = bytes ++ percentDecode rest := by
  induction bytes with
  | nil => rfl
  | cons b bytes ih =>
    have hb : b.toNat < 256 := b.toNat_lt
    have hpair (more : Text) : hexPair (hexDigit (b.toNat / 16) :: hexDigit (b.toNat % 16) :: more) = some b := by
      simp only [hexPair, hexValue_hexDigit (b.toNat / 16) (by omega), hexValue_hexDigit (b.toNat % 16) (by omega),
        Option.bind_some, Option.map_some]
      rw [show b.toNat / 16 * 16 + b.toNat % 16 = b.toNat by omega, UInt8.ofNat_toNat]
    rw [List.flatMap_cons, List.append_assoc, percentEncodeByte, List.cons_append, List.cons_append,
      List.cons_append, List.nil_append, percentDecode_escape (hpair _), List.drop_succ_cons,
      List.drop_succ_cons, List.drop_zero, ih, List.cons_append]

section encode
variable {kept : Char → Bool} (hkept : ∀ c, isQueryChar c = true → kept c = true)

theorem encodeQuery_cons (c : Char) (raw : Text) :
    encodeQuery kept (c :: raw) =
      (if kept c then [c] else (utf8Bytes [c]).flatMap percentEncodeByte) ++ encodeQuery kept raw :=
  List.flatMap_cons

theorem isQueryChar_of_hexValue {c : Char} (h : (hexValue c).isSome = true) : isQueryChar c = true := by
  have hrange : c.toNat < 128 := by
    by_contra hge
    have hnot : ∀ d : Char, d.toNat < 128 → ¬ c ≤ d := fun d hd hle => by
      have hval : c.toNat ≤ d.toNat := hle
      omega
    simp [hexValue, hnot] at h
  have hall : ∀ n < 128, (hexValue (Char.ofNat n)).isSome = true → isQueryChar (Char.ofNat n) = true := by
    decide
  have hc := hall c.toNat hrange
  rw [Char.ofNat_toNat] at hc
  exact hc h

theorem hexValue_percent : hexValue '%' = none := by decide

include hkept

/-- A character that is encoded begins no digit. -/
theorem head_encodeQuery (raw : Text) :
    ((encodeQuery kept raw).head?.bind hexValue) = raw.head?.bind hexValue := by
  cases raw with
  | nil => rfl
  | cons c raw =>
    rw [encodeQuery_cons]
    by_cases hc : kept c = true
    · rw [if_pos hc, List.singleton_append, List.head?_cons, List.head?_cons]
    · have hnone : hexValue c = none := by
        cases hx : hexValue c with
        | none => rfl
        | some a => exact absurd (hkept c (isQueryChar_of_hexValue (by rw [hx]; rfl))) hc
      have hne : utf8Bytes [c] ≠ [] := fun hnil => by
        have hempty : [c] = [] := utf8Bytes_injective hnil
        cases hempty
      obtain ⟨b, bytes, hbytes⟩ := List.exists_cons_of_ne_nil hne
      rw [if_neg hc, hbytes, List.flatMap_cons, percentEncodeByte, List.cons_append, List.cons_append,
        List.head?_cons, List.head?_cons, Option.bind_some, Option.bind_some, hnone]
      exact hexValue_percent

theorem encodeQuery_digit {c : Char} (h : (hexValue c).isSome = true) (raw : Text) :
    encodeQuery kept (c :: raw) = c :: encodeQuery kept raw := by
  rw [encodeQuery_cons, if_pos (hkept c (isQueryChar_of_hexValue h)), List.singleton_append]

theorem hexPair_encodeQuery (raw : Text) : hexPair (encodeQuery kept raw) = hexPair raw := by
  have hpair (text : Text) : hexPair text = (text.head?.bind hexValue).bind fun a =>
      (text.tail.head?.bind hexValue).map fun b => UInt8.ofNat (a * 16 + b) := by
    match text with
    | [] => rfl
    | [c] => cases hx : hexValue c <;> simp [hexPair, hx]
    | c :: d :: rest => simp [hexPair]
  rw [hpair, hpair, head_encodeQuery hkept]
  cases raw with
  | nil => rfl
  | cons c raw =>
    cases hx : hexValue c with
    | none => simp [hx]
    | some a =>
      rw [encodeQuery_digit hkept (by rw [hx]; rfl), List.tail_cons, List.tail_cons, head_encodeQuery hkept]

theorem drop_encodeQuery {raw : Text} {b : UInt8} (h : hexPair raw = some b) :
    (encodeQuery kept raw).drop 2 = encodeQuery kept (raw.drop 2) := by
  match raw, h with
  | x :: y :: raw, h =>
    obtain ⟨a, ha, hmap⟩ := Option.bind_eq_some_iff.mp h
    obtain ⟨d, hd, -⟩ := Option.map_eq_some_iff.mp hmap
    rw [encodeQuery_digit hkept (by rw [ha]; rfl), encodeQuery_digit hkept (by rw [hd]; rfl)]
    rfl

/-- A query decodes to what the text that it was parsed from does. -/
theorem percentDecode_encodeQuery (raw : Text) :
    percentDecode (encodeQuery kept raw) = percentDecode raw := by
  induction hn : raw.length using Nat.strong_induction_on generalizing raw with
  | _ n ih =>
    cases raw with
    | nil => rfl
    | cons c rest =>
      have hrest := ih rest.length (by rw [← hn]; exact Nat.lt_succ_self _) rest rfl
      by_cases hpercent : c = '%'
      · subst hpercent
        rw [encodeQuery_cons, if_pos (hkept '%' (by decide)), List.singleton_append]
        cases hpair : hexPair rest with
        | none =>
          rw [percentDecode_percent (by rw [hexPair_encodeQuery hkept, hpair]), percentDecode_percent hpair, hrest]
        | some b =>
          have hlater := ih (rest.drop 2).length (by rw [← hn, List.length_drop, List.length_cons]; omega)
            (rest.drop 2) rfl
          rw [percentDecode_escape (by rw [hexPair_encodeQuery hkept, hpair]), percentDecode_escape hpair,
            drop_encodeQuery hkept hpair, hlater]
      · rw [encodeQuery_cons, percentDecode_cons hpercent]
        by_cases hc : kept c = true
        · rw [if_pos hc, List.singleton_append, percentDecode_cons hpercent, hrest]
        · have hplus : c ≠ '+' := by
            rintro rfl
            exact hc (hkept '+' (by decide))
          rw [if_neg hc, if_neg hplus, percentDecode_encodeBytes, hrest]

end encode

theorem hexPair_append {a : Text} {b : UInt8} (h : hexPair a = some b) (more : Text) :
    hexPair (a ++ more) = some b ∧ (a ++ more).drop 2 = a.drop 2 ++ more := by
  match a, h with
  | x :: y :: a, h => exact ⟨h, rfl⟩

theorem hexPair_append_none {a : Text} {c : Char} (hc : hexValue c = none) (h : hexPair a = none) (more : Text) :
    hexPair (a ++ c :: more) = none := by
  match a, h with
  | [], _ => cases more <;> simp [hexPair, hc]
  | [x], _ => simp [hexPair, hc]
  | x :: y :: a, h => exact h

/-- A separator is decoded by itself. -/
theorem percentDecode_append {c : Char} (hc : hexValue c = none) (a more : Text) :
    percentDecode (a ++ c :: more) = percentDecode a ++ percentDecode (c :: more) := by
  induction hn : a.length using Nat.strong_induction_on generalizing a with
  | _ n ih =>
    cases a with
    | nil => rfl
    | cons x rest =>
      have hrest := ih rest.length (by rw [← hn]; exact Nat.lt_succ_self _) rest rfl
      by_cases hpercent : x = '%'
      · subst hpercent
        cases hpair : hexPair rest with
        | none =>
          rw [List.cons_append, percentDecode_percent (hexPair_append_none hc hpair more),
            percentDecode_percent hpair, hrest, List.cons_append]
        | some b =>
          obtain ⟨hpair', hdrop⟩ := hexPair_append hpair (c :: more)
          have hlater := ih (rest.drop 2).length (by rw [← hn, List.length_drop, List.length_cons]; omega)
            (rest.drop 2) rfl
          rw [List.cons_append, percentDecode_escape hpair', percentDecode_escape hpair, hdrop, hlater,
            List.cons_append]
      · rw [List.cons_append, percentDecode_cons hpercent, percentDecode_cons hpercent, hrest,
          List.append_assoc]

theorem byteMarks_piece {pieces : List Text} {piece : Text} (hmem : piece ∈ pieces) :
    byteMarks (percentDecode piece) ≤ byteMarks (percentDecode (Separated.join '&' pieces)) := by
  have hamp : hexValue '&' = none := by decide
  induction pieces with
  | nil => cases hmem
  | cons first pieces ih =>
    cases pieces with
    | nil =>
      rw [List.mem_singleton.mp hmem, Separated.join_singleton]
    | cons second pieces =>
      rw [Separated.join_cons first (List.cons_ne_nil _ _), percentDecode_append hamp, byteMarks_append,
        percentDecode_cons (by decide), byteMarks_append]
      obtain rfl | hmem := List.mem_cons.mp hmem
      · omega
      · have hlater := ih hmem
        omega

/-- What a value of a query decodes to has fewer marks than the text that was parsed. -/
theorem Queries.marks_value {urls : Library} (web : Queries urls) (decoder : LossyDecoder)
    {text encoded name value : Text} {url : urls.Url} (hparse : urls.parse text = some url)
    (hquery : web.query url = some encoded) (hmem : (name, value) ∈ parse decoder.decode encoded) :
    marks value < marks text := by
  obtain ⟨kept, raw, hkept, hsublist, rfl⟩ := web.query_parse text url encoded hparse hquery
  obtain ⟨piece, hpiece, hpair⟩ := List.mem_map.mp hmem
  have hin := (List.mem_filter.mp hpiece).1
  have hjoin : Separated.join '&' ((encodeQuery kept raw).splitOn '&') = encodeQuery kept raw :=
    List.intercalate_splitOn _
  have hpiecele := byteMarks_piece hin
  rw [hjoin, percentDecode_encodeQuery hkept] at hpiecele
  have hvalue : marks value ≤ byteMarks (percentDecode piece) := by
    have hvalueeq : value = (parsePair decoder.decode piece).2 := by rw [hpair]
    rw [hvalueeq, parsePair]
    refine (decoder.marks_decode _).trans ?_
    cases hsplit : splitOnce ['='] piece with
    | none => exact Nat.zero_le _
    | some parts =>
      have hparts := splitOnce_eq_some hsplit
      have heq : hexValue '=' = none := by decide
      dsimp only [Option.getD_some]
      rw [hparts, List.append_assoc, List.singleton_append, percentDecode_append heq, byteMarks_append,
        percentDecode_cons (by decide), byteMarks_append]
      omega
  have hraw := byteMarks_percentDecode raw
  have htext := marks_sublist hsublist
  rw [marks_cons] at htext
  have hmark : marks ['?'] = 1 := by decide
  omega

theorem utf8Bytes_ascii {c : Char} (h : c.toNat < 128) : utf8Bytes [c] = [UInt8.ofNat c.toNat] := by
  have hall : ∀ n < 128, utf8Bytes [Char.ofNat n] = [UInt8.ofNat n] := by decide
  have hc := hall c.toNat h
  rwa [Char.ofNat_toNat] at hc

theorem count_utf8Bytes {c : Char} (h : c.toNat < 128) (text : Text) :
    text.count c ≤ (utf8Bytes text).count (UInt8.ofNat c.toNat) := by
  induction text with
  | nil => exact Nat.zero_le _
  | cons d text ih =>
    rw [← List.singleton_append, utf8Bytes_append, List.count_append, List.count_append]
    refine Nat.add_le_add ?_ ih
    by_cases hd : d = c
    · subst hd
      rw [utf8Bytes_ascii h, List.count_singleton_self, List.count_singleton_self]
    · rw [List.count_eq_zero.mpr fun hmem => hd (List.mem_singleton.mp hmem).symm]
      exact Nat.zero_le _

theorem eq_utf8Bytes_of_fromUtf8 {bytes : Bytes} {text : Text} (h : fromUtf8 bytes = some text) :
    bytes = utf8Bytes text := by
  obtain ⟨chars, hchars, -⟩ := Option.map_eq_some_iff.mp h
  have hsome : (ByteArray.mk bytes.toArray).utf8Decode?.isSome = true := by rw [hchars]; rfl
  obtain ⟨text', htext'⟩ := ByteArray.isSome_utf8Decode?_iff.mp hsome
  have hbytes : bytes = utf8Bytes text' := by
    have hdata := congrArg (fun array => array.data.toList) htext'
    rw [utf8Bytes, String.toByteArray_ofList]
    exact hdata
  rw [hbytes, fromUtf8_utf8Bytes] at h
  rw [hbytes, Option.some.inj h]

/-- A decoder of text, to which all else is empty. -/
def textDecoder : LossyDecoder where
  decode bytes := (fromUtf8 bytes).getD []
  decode_utf8Bytes := getD_fromUtf8_utf8Bytes
  count_decode bytes c hc := by
    cases h : fromUtf8 bytes with
    | none => exact Nat.zero_le _
    | some text =>
      rw [eq_utf8Bytes_of_fromUtf8 h]
      exact count_utf8Bytes hc text

/-- A plain address with a query that no parser changes. -/
def isAddress (text : Text) : Bool :=
  text.all isPrintable && trim text == text &&
    match splitPlain text with
    | some (scheme, host, target) =>
      (scheme == "https".toList || scheme == "http".toList) && !host.isEmpty &&
        host.all isHostChar &&
        (!isDottedQuad (toAsciiLowercase (trimEndDots host)) ||
          isIpv4Addr (toAsciiLowercase (trimEndDots host))) &&
        target.head? == some '/' && (target.takeWhile (· != '?')).all isPathChar &&
        (target.dropWhile (· != '?')).all isQueryChar
    | none => false

abbrev Address := {text : Text // isAddress text = true}

def parseAddress (text : Text) : Option Address := if h : isAddress text = true then some ⟨text, h⟩ else none

def addressPart (part : Text × Text × Text → Text) (url : Address) : Text :=
  ((splitPlain url.1).map part).getD []

theorem isAddress_parts {text scheme host target : Text} (h : isAddress text = true)
    (hsplit : splitPlain text = some (scheme, host, target)) :
    (scheme = "https".toList ∨ scheme = "http".toList) ∧ host.all isHostChar = true ∧
      (isDottedQuad (toAsciiLowercase (trimEndDots host)) = true →
        isIpv4Addr (toAsciiLowercase (trimEndDots host)) = true) := by
  simp only [isAddress, hsplit, Bool.and_eq_true, Bool.or_eq_true, beq_iff_eq, Bool.not_eq_true'] at h
  obtain ⟨-, ⟨⟨⟨⟨⟨hscheme, -⟩, hhost⟩, hquad⟩, -⟩, -⟩, -⟩ := h
  refine ⟨hscheme, hhost, fun hdotted => ?_⟩
  cases hquad with
  | inl hnot => rw [hdotted] at hnot; cases hnot
  | inr haddr => exact haddr

theorem isAddress_split {text : Text} (h : isAddress text = true) : ∃ parts, splitPlain text = some parts := by
  cases hsplit : splitPlain text with
  | none => simp [isAddress, hsplit] at h
  | some parts => exact ⟨parts, rfl⟩

/-- The standard on such addresses. -/
def addresses : Library where
  Url := Address
  parse := parseAddress
  asStr url := url.1
  scheme := addressPart fun parts => parts.1
  hostStr url := (splitPlain url.1).map fun parts => parts.2.1
  path := addressPart fun parts => parts.2.2.takeWhile (· != '?')
  join base reference :=
    let origin := addressPart (fun parts => parts.1 ++ "://".toList ++ parts.2.1) base
    let directory := (addressPart (fun parts => parts.2.2.takeWhile (· != '?')) base).rdropWhile (· != '/')
    (parseAddress reference).or
      (if reference.head? == some '/' then parseAddress (origin ++ reference)
      else parseAddress (origin ++ directory ++ reference))
  parse_asStr url := dif_pos url.2
  asStr_ne_nil url hnil := by
    have h := url.2
    rw [hnil] at h
    exact absurd h (by decide)
  asStr_printable url := by
    have h := url.2
    simp only [isAddress, Bool.and_eq_true] at h
    exact List.all_eq_true.mp h.1.1
  asStr_trimmed url := by
    have h := url.2
    simp only [isAddress, Bool.and_eq_true, beq_iff_eq] at h
    exact h.1.2
  hostStr_printable url host hhost c hc := by
    obtain ⟨parts, hsplit, rfl⟩ := Option.map_eq_some_iff.mp hhost
    exact isHostChar_printable (List.all_eq_true.mp (isAddress_parts url.2 hsplit).2.1 c hc)
  hostStr_dottedQuad url host _ hhost hquad := by
    obtain ⟨parts, hsplit, rfl⟩ := Option.map_eq_some_iff.mp hhost
    exact (isAddress_parts url.2 hsplit).2.2 hquad

theorem splitPlain_localhost {path more : Text} (hhead : path.head? = some '/') :
    splitPlain ("http://localhost".toList ++ (path ++ more)) =
      some ("http".toList, "localhost".toList, path ++ more) := by
  obtain ⟨rest, rfl⟩ : ∃ rest, path = '/' :: rest := by
    cases path with
    | nil => cases hhead
    | cons c rest =>
      cases hhead
      exact ⟨rest, rfl⟩
  simp [splitPlain, splitOnce]

/-- Its queries, and the ports that the schemes stand for. -/
def addressQueries : Queries addresses where
  port url := some (if addresses.scheme url = "https".toList then 443 else 80)
  query url :=
    match addressPart (fun parts => parts.2.2.dropWhile (· != '?')) url with
    | [] => none
    | _ :: encoded => some encoded
  parse_relative text hhead := by
    refine dif_neg fun haddress => ?_
    obtain ⟨⟨scheme, host, target⟩, hsplit⟩ := isAddress_split haddress
    obtain ⟨⟨before, rest⟩, honce, he⟩ := Option.map_eq_some_iff.mp hsplit
    cases he
    have htext := splitOnce_eq_some honce
    have hscheme : before = "https".toList ∨ before = "http".toList := (isAddress_parts haddress hsplit).1
    have hletter : text.head? = some 'h' := by
      cases hscheme with
      | inl hscheme => rw [htext, hscheme]; rfl
      | inr hscheme => rw [htext, hscheme]; rfl
    rw [hletter] at hhead
    exact absurd hhead (by decide)
  path_plain path rest url hhead hplain hrest hparse := by
    obtain ⟨haddress, he⟩ := Option.dite_none_right_eq_some.mp hparse
    cases he
    have hstop : ∀ c ∈ path, (c != '?') = true := fun c hc => by
      have hc' := List.all_eq_true.mp hplain c hc
      rw [bne_iff_ne]
      rintro rfl
      exact absurd hc' (by decide)
    have htake : (path ++ rest).takeWhile (· != '?') = path := by
      rw [List.takeWhile_append_of_pos hstop]
      rcases hrest with rfl | hrest
      · rw [List.takeWhile_nil, List.append_nil]
      · cases rest with
        | nil => rw [List.takeWhile_nil, List.append_nil]
        | cons c rest =>
          cases hrest
          rw [List.takeWhile_cons_of_neg (by decide), List.append_nil]
    have hpath : addresses.path ⟨"http://localhost".toList ++ (path ++ rest), haddress⟩ =
        (((splitPlain ("http://localhost".toList ++ (path ++ rest))).map fun parts =>
          parts.2.2.takeWhile (· != '?')).getD []) := rfl
    rw [hpath, splitPlain_localhost hhead]
    exact htake
  query_parse text url encoded hparse hquery := by
    obtain ⟨haddress, he⟩ := Option.dite_none_right_eq_some.mp hparse
    cases he
    obtain ⟨⟨scheme, host, target⟩, hsplit⟩ := isAddress_split haddress
    obtain ⟨⟨before, rest⟩, honce, hparts⟩ := Option.map_eq_some_iff.mp hsplit
    have htarget : target = rest.dropWhile (· != '/') := congrArg (fun parts => parts.2.2) hparts.symm
    have htext := splitOnce_eq_some honce
    have hquestion : addressPart (fun parts => parts.2.2.dropWhile (· != '?')) ⟨text, haddress⟩ =
        target.dropWhile (· != '?') := by
      simp only [addressPart, hsplit, Option.map_some, Option.getD_some]
    rw [hquestion] at hquery
    split at hquery
    next => cases hquery
    next c more hmore =>
      cases hquery
      have hc : c = '?' := by
        have hhead := List.head?_dropWhile_not (· != '?') target
        rw [hmore] at hhead
        simpa using hhead
      subst hc
      refine ⟨fun _ => true, encoded, fun _ _ => rfl, ?_, ?_⟩
      · rw [← hmore, htarget, htext]
        exact ((List.dropWhile_sublist _).trans (List.dropWhile_sublist _)).trans
          (List.sublist_append_right _ _)
      · simp [encodeQuery]

end Urls
