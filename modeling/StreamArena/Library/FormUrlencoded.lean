import StreamArena.Library.Aead
import StreamArena.Library.Decimal
import StreamArena.Library.Separated

/-! Form-urlencoded queries: serializing pairs of texts, parsing a query, and that the
one reads the other back, whatever the decoder makes of bytes that are no text. -/
namespace FormUrlencoded
open AsciiText Aead Separated

/-- The bytes that stand for themselves. -/
def isUnreserved (b : UInt8) : Bool :=
  let c := Char.ofNat b.toNat
  b < 128 && (c.isAlphanum || c == '*' || c == '-' || c == '.' || c == '_')

def hexDigit (n : Nat) : Char := if n < 10 then Char.ofNat (n + 48) else Char.ofNat (n + 55)

def hexValue (c : Char) : Option Nat :=
  if '0' ≤ c ∧ c ≤ '9' then some (c.toNat - 48)
  else if 'A' ≤ c ∧ c ≤ 'F' then some (c.toNat - 55)
  else if 'a' ≤ c ∧ c ≤ 'f' then some (c.toNat - 87)
  else none

def encodeByte (b : UInt8) : Text :=
  if isUnreserved b then [Char.ofNat b.toNat]
  else if b = 32 then ['+']
  else ['%', hexDigit (b.toNat / 16), hexDigit (b.toNat % 16)]

def byteSerialize (bytes : Bytes) : Text := bytes.flatMap encodeByte

/-- The bytes of a name or a value: plus signs are spaces, percent signs take two digits. -/
def percentDecode : Text → Bytes
  | [] => []
  | [c] => if c = '+' then [32] else utf8Bytes [c]
  | [c, d] => (if c = '+' then [32] else utf8Bytes [c]) ++ percentDecode [d]
  | c :: h :: l :: rest =>
    match if c = '%' then hexValue h else none, hexValue l with
    | some a, some b => UInt8.ofNat (a * 16 + b) :: percentDecode rest
    | _, _ => (if c = '+' then [32] else utf8Bytes [c]) ++ percentDecode (h :: l :: rest)

def encode (value : Text) : Text := byteSerialize (utf8Bytes value)

def serialize (pairs : List (Text × Text)) : Text :=
  join '&' (pairs.map fun pair => encode pair.1 ++ '=' :: encode pair.2)

attribute [local simp] percentDecode byteSerialize

theorem serialize_singleton (pair : Text × Text) :
    serialize [pair] = encode pair.1 ++ '=' :: encode pair.2 := join_singleton _

theorem serialize_cons_cons (pair next : Text × Text) (pairs : List (Text × Text)) :
    serialize (pair :: next :: pairs) =
      encode pair.1 ++ '=' :: (encode pair.2 ++ '&' :: serialize (next :: pairs)) := by
  rw [serialize, List.map_cons, join_cons _ (by simp), List.append_assoc, List.cons_append]
  rfl

section parse
variable (utf8Lossy : Bytes → Text)

def parsePair (piece : Text) : Text × Text :=
  let parts := (splitOnce ['='] piece).getD (piece, [])
  (utf8Lossy (percentDecode parts.1), utf8Lossy (percentDecode parts.2))

def parse (query : Text) : List (Text × Text) :=
  ((query.splitOn '&').filter fun piece => !piece.isEmpty).map (parsePair utf8Lossy)

end parse

theorem percentDecode_cons {c : Char} (hpercent : c ≠ '%') (rest : Text) :
    percentDecode (c :: rest) = (if c = '+' then [32] else utf8Bytes [c]) ++ percentDecode rest := by
  cases rest with
  | nil => simp [percentDecode]
  | cons h rest =>
    cases rest with
    | nil => simp only [percentDecode]
    | cons l rest => simp only [percentDecode, hpercent, ↓reduceIte]

theorem unreserved_facts : ∀ n < 256, isUnreserved (UInt8.ofNat n) = true →
    Char.ofNat n ≠ '%' ∧ Char.ofNat n ≠ '+' ∧ Char.ofNat n ≠ '&' ∧ Char.ofNat n ≠ '=' ∧
      utf8Bytes [Char.ofNat n] = [UInt8.ofNat n] := by
  decide +kernel

theorem hexValue_hexDigit : ∀ n < 16, hexValue (hexDigit n) = some n := by decide

theorem hexDigit_ne : ∀ n < 16, hexDigit n ≠ '&' ∧ hexDigit n ≠ '=' := by decide

theorem unreserved {b : UInt8} (h : isUnreserved b = true) :
    Char.ofNat b.toNat ≠ '%' ∧ Char.ofNat b.toNat ≠ '+' ∧ Char.ofNat b.toNat ≠ '&' ∧
      Char.ofNat b.toNat ≠ '=' ∧ utf8Bytes [Char.ofNat b.toNat] = [b] := by
  have hfacts := unreserved_facts b.toNat b.toNat_lt
  rw [UInt8.ofNat_toNat] at hfacts
  exact hfacts h

/-- One encoded byte is read back, whatever follows it. -/
theorem percentDecode_encodeByte (b : UInt8) (rest : Text) :
    percentDecode (encodeByte b ++ rest) = b :: percentDecode rest := by
  rw [encodeByte]
  split
  · next h =>
    obtain ⟨hpercent, hplus, -, -, hbytes⟩ := unreserved h
    rw [List.singleton_append, percentDecode_cons hpercent, if_neg hplus, hbytes,
      List.singleton_append]
  · split
    · next hspace =>
      rw [List.singleton_append, percentDecode_cons (by decide), if_pos rfl, hspace,
        List.singleton_append]
    · have hb : b.toNat < 256 := b.toNat_lt
      simp only [List.cons_append, List.nil_append, percentDecode, ↓reduceIte,
        hexValue_hexDigit (b.toNat / 16) (by omega), hexValue_hexDigit (b.toNat % 16) (by omega)]
      rw [show b.toNat / 16 * 16 + b.toNat % 16 = b.toNat by omega, UInt8.ofNat_toNat]

theorem percentDecode_byteSerialize (bytes : Bytes) : percentDecode (byteSerialize bytes) = bytes := by
  induction bytes with
  | nil => rfl
  | cons b bytes ih =>
    rw [byteSerialize, List.flatMap_cons, percentDecode_encodeByte]
    exact congrArg (List.cons b) ih

@[simp] theorem percentDecode_encode (value : Text) : percentDecode (encode value) = utf8Bytes value :=
  percentDecode_byteSerialize _

/-- A text of characters that stand for themselves is its own encoding. -/
theorem encode_of_unreserved {value : Text}
    (h : ∀ c ∈ value, c.toNat < 128 ∧ isUnreserved (UInt8.ofNat c.toNat) = true) :
    encode value = value := by
  induction value with
  | nil => rfl
  | cons c value ih =>
    obtain ⟨hlt, hc⟩ := h c List.mem_cons_self
    have hbyte : (UInt8.ofNat c.toNat).toNat = c.toNat := by
      rw [UInt8.toNat_ofNat']
      omega
    obtain ⟨-, -, -, -, hbytes⟩ := unreserved hc
    rw [hbyte, Char.ofNat_toNat] at hbytes
    have htail := ih fun d hd => h d (List.mem_cons_of_mem c hd)
    rw [encode, ← List.singleton_append, utf8Bytes_append, hbytes, byteSerialize,
      List.flatMap_append, List.flatMap_singleton, encodeByte, if_pos hc, hbyte, Char.ofNat_toNat]
    exact congrArg (List.cons c) htail

/-- No separator of a query stands in an encoded text. -/
theorem separator_free {c : Char} (hc : c = '&' ∨ c = '=') (value : Text) : c ∉ encode value := by
  intro hmem
  obtain ⟨b, -, hb⟩ := List.mem_flatMap.mp hmem
  have hlt : b.toNat < 256 := b.toNat_lt
  rw [encodeByte] at hb
  split at hb
  · next h =>
    obtain ⟨-, -, hamp, heq, -⟩ := unreserved h
    rw [List.mem_singleton] at hb
    cases hc with
    | inl hc => exact hamp (hb ▸ hc)
    | inr hc => exact heq (hb ▸ hc)
  · split at hb
    · rw [List.mem_singleton] at hb
      cases hc with
      | inl hc => rw [hb] at hc; exact absurd hc (by decide)
      | inr hc => rw [hb] at hc; exact absurd hc (by decide)
    · obtain ⟨hhi, hhi'⟩ := hexDigit_ne (b.toNat / 16) (by omega)
      obtain ⟨hlo, hlo'⟩ := hexDigit_ne (b.toNat % 16) (by omega)
      simp only [List.mem_cons, List.not_mem_nil, or_false] at hb
      rcases hb with rfl | rfl | rfl
      · exact absurd hc (by decide)
      · exact hc.elim hhi hhi'
      · exact hc.elim hlo hlo'

/-- An encoded text has no blanks. -/
theorem not_isWhitespace_of_mem_encode {c : Char} {value : Text} (h : c ∈ encode value) :
    isWhitespace c = false := by
  obtain ⟨b, -, hb⟩ := List.mem_flatMap.mp h
  have hlt : b.toNat < 256 := b.toNat_lt
  have hhex : ∀ n < 16, isWhitespace (hexDigit n) = false := by decide
  rw [encodeByte] at hb
  split at hb
  · next hunreserved =>
    have hall : ∀ n < 256, isUnreserved (UInt8.ofNat n) = true → isWhitespace (Char.ofNat n) = false := by
      decide +kernel
    rw [List.mem_singleton.mp hb]
    exact hall b.toNat hlt (by rwa [UInt8.ofNat_toNat])
  · split at hb
    · rw [List.mem_singleton.mp hb]
      decide
    · simp only [List.mem_cons, List.not_mem_nil, or_false] at hb
      obtain rfl | rfl | rfl := hb
      · decide
      · exact hhex _ (by omega)
      · exact hhex _ (by omega)

theorem encode_decimalText (n : Int) : encode (Decimal.decimalText n) = Decimal.decimalText n := by
  refine encode_of_unreserved fun c hc => ?_
  cases mem_decimal hc with
  | inr hminus => rw [hminus]; decide
  | inl hdigit =>
    have hrange : 48 ≤ c.toNat ∧ c.toNat ≤ 57 := by
      simpa [Char.isDigit, UInt32.le_iff_toNat_le] using hdigit
    have hdigits : ∀ n < 58, 48 ≤ n → isUnreserved (UInt8.ofNat n) = true := by decide
    exact ⟨by omega, hdigits c.toNat (by omega) hrange.1⟩

variable {utf8Lossy : Bytes → Text}

theorem parsePair_piece (hlossy : ∀ text, utf8Lossy (utf8Bytes text) = text) (pair : Text × Text) :
    parsePair utf8Lossy (encode pair.1 ++ '=' :: encode pair.2) = pair := by
  rw [parsePair, splitOnce_append (separator_free (Or.inr rfl) pair.1)]
  simp only [Option.getD_some, percentDecode_encode, hlossy]

/-- A decoder that reads text as text reads every serialized list of pairs back. -/
theorem parse_serialize (hlossy : ∀ text, utf8Lossy (utf8Bytes text) = text)
    (pairs : List (Text × Text)) : parse utf8Lossy (serialize pairs) = pairs := by
  cases pairs with
  | nil => rfl
  | cons pair pairs =>
    have hpieces : (serialize (pair :: pairs)).splitOn '&' =
        (pair :: pairs).map fun pair => encode pair.1 ++ '=' :: encode pair.2 := by
      refine List.splitOn_intercalate '&' ?_ (List.cons_ne_nil _ _)
      intro piece hpiece
      obtain ⟨p, -, rfl⟩ := List.mem_map.mp hpiece
      rw [List.mem_append, List.mem_cons, not_or, not_or]
      exact ⟨separator_free (Or.inl rfl) p.1, by decide, separator_free (Or.inl rfl) p.2⟩
    have hfull : ((pair :: pairs).map fun pair => encode pair.1 ++ '=' :: encode pair.2).filter
        (fun piece => !piece.isEmpty) =
          (pair :: pairs).map fun pair => encode pair.1 ++ '=' :: encode pair.2 := by
      refine List.filter_eq_self.mpr fun piece hpiece => ?_
      obtain ⟨p, -, rfl⟩ := List.mem_map.mp hpiece
      simp
    rw [parse, hpieces, hfull, List.map_map]
    exact (List.map_congr_left fun p _ => parsePair_piece hlossy p).trans (List.map_id _)

end FormUrlencoded
