import StreamArena.Library.Aead

/-! Unpadded base64url: what a codec of bytes to text has to promise, and the
codec itself, strict about the unused bits of a last group. -/
namespace Base64Url
open AsciiText Aead

def isAlphabet (c : Char) : Bool := c.isAlphanum || c == '-' || c == '_'

structure Codec where
  encode : Bytes → Text
  decode : Text → Option Bytes
  decode_encode : ∀ bytes, decode (encode bytes) = some bytes
  encode_nil : encode [] = []
  encode_alphabet : ∀ bytes, ∀ c ∈ encode bytes, isAlphabet c = true

theorem Codec.encode_ne_nil (codec : Codec) {bytes : Bytes} (h : bytes ≠ []) :
    codec.encode bytes ≠ [] := by
  intro he
  have hd := codec.decode_encode bytes
  rw [he, ← codec.encode_nil, codec.decode_encode] at hd
  exact h (Option.some.inj hd).symm

def digit (n : Nat) : Char :=
  if n < 26 then Char.ofNat (n + 65)
  else if n < 52 then Char.ofNat (n + 71)
  else if n < 62 then Char.ofNat (n - 4)
  else if n = 62 then '-' else '_'

def value (c : Char) : Option Nat := (List.range 64).find? fun n => digit n == c

def encode : Bytes → Text
  | [] => []
  | [a] => [digit (a.toNat / 4), digit (a.toNat % 4 * 16)]
  | [a, b] =>
    [digit (a.toNat / 4), digit (a.toNat % 4 * 16 + b.toNat / 16), digit (b.toNat % 16 * 4)]
  | a :: b :: c :: rest =>
    digit (a.toNat / 4) :: digit (a.toNat % 4 * 16 + b.toNat / 16) ::
      digit (b.toNat % 16 * 4 + c.toNat / 64) :: digit (c.toNat % 64) :: encode rest

def decode : Text → Option Bytes
  | [] => some []
  | [_] => none
  | [w, x] => do
    let w ← value w
    let x ← value x
    if x % 16 = 0 then some [UInt8.ofNat (w * 4 + x / 16)] else none
  | [w, x, y] => do
    let w ← value w
    let x ← value x
    let y ← value y
    if y % 4 = 0 then
      some [UInt8.ofNat (w * 4 + x / 16), UInt8.ofNat (x % 16 * 16 + y / 4)]
    else none
  | w :: x :: y :: z :: rest => do
    let w ← value w
    let x ← value x
    let y ← value y
    let z ← value z
    let bytes ← decode rest
    some (UInt8.ofNat (w * 4 + x / 16) :: UInt8.ofNat (x % 16 * 16 + y / 4) ::
      UInt8.ofNat (y % 4 * 64 + z) :: bytes)

section
attribute [local simp] encode decode

theorem value_digit {n : Nat} (h : n < 64) : value (digit n) = some n := by
  revert n
  decide

theorem isAlphabet_digit (n : Nat) : isAlphabet (digit n) = true := by
  by_cases h : n < 64
  · revert n
    decide
  · rw [digit, if_neg (by omega), if_neg (by omega), if_neg (by omega), if_neg (by omega)]
    rfl

theorem decode_encode (bytes : Bytes) : decode (encode bytes) = some bytes := by
  have hlt (a : UInt8) : a.toNat < 256 := a.toNat_lt
  have hbyte {a : UInt8} {n : Nat} (h : n = a.toNat) : UInt8.ofNat n = a := by
    rw [h, UInt8.ofNat_toNat]
  induction bytes using encode.induct with
  | case1 => rfl
  | case2 a =>
    have ha := hlt a
    simp only [encode, decode, value_digit (n := a.toNat / 4) (by omega),
      value_digit (n := a.toNat % 4 * 16) (by omega), Option.bind_eq_bind, Option.bind_some]
    rw [if_pos (by omega), hbyte (a := a) (by omega)]
  | case3 a b =>
    have ha := hlt a
    have hb := hlt b
    simp only [encode, decode, value_digit (n := a.toNat / 4) (by omega),
      value_digit (n := a.toNat % 4 * 16 + b.toNat / 16) (by omega),
      value_digit (n := b.toNat % 16 * 4) (by omega), Option.bind_eq_bind, Option.bind_some]
    rw [if_pos (by omega), hbyte (a := a) (by omega), hbyte (a := b) (by omega)]
  | case4 a b c rest ih =>
    have ha := hlt a
    have hb := hlt b
    have hc := hlt c
    simp only [encode, decode, value_digit (n := a.toNat / 4) (by omega),
      value_digit (n := a.toNat % 4 * 16 + b.toNat / 16) (by omega),
      value_digit (n := b.toNat % 16 * 4 + c.toNat / 64) (by omega),
      value_digit (n := c.toNat % 64) (by omega), ih, Option.bind_eq_bind, Option.bind_some]
    rw [hbyte (a := a) (by omega), hbyte (a := b) (by omega), hbyte (a := c) (by omega)]

theorem encode_alphabet (bytes : Bytes) : ∀ c ∈ encode bytes, isAlphabet c = true := by
  induction bytes using encode.induct with
  | case1 => simp [encode]
  | case2 a => simp [encode, isAlphabet_digit]
  | case3 a b => simp [encode, isAlphabet_digit]
  | case4 a b c rest ih => simpa [encode, isAlphabet_digit] using ih

/-- The code points of an encoding are visible ASCII. -/
theorem toNat_of_isAlphabet {c : Char} (h : isAlphabet c = true) : 0x21 ≤ c.toNat ∧ c.toNat ≤ 0x7E := by
  simp only [isAlphabet, Char.isAlphanum, Char.isAlpha, Char.isUpper, Char.isLower, Char.isDigit,
    ge_iff_le, Bool.or_eq_true, Bool.and_eq_true, decide_eq_true_eq, UInt32.le_iff_toNat_le,
    beq_iff_eq] at h
  rcases h with (((h | h) | h) | rfl) | rfl
  · exact ⟨le_trans (by decide) h.1, le_trans h.2 (by decide)⟩
  · exact ⟨le_trans (by decide) h.1, le_trans h.2 (by decide)⟩
  · exact ⟨le_trans (by decide) h.1, le_trans h.2 (by decide)⟩
  · decide
  · decide

theorem trim_encode (bytes : Bytes) : trim (encode bytes) = encode bytes := by
  refine trim_eq_self fun c hc => ?_
  have hrange := toNat_of_isAlphabet (encode_alphabet bytes c hc)
  simp only [isWhitespace, Bool.or_eq_false_iff, Bool.and_eq_false_iff, decide_eq_false_iff_not,
    beq_eq_false_iff_ne]
  omega

end

def urlSafeNoPad : Codec where
  encode := encode
  decode := decode
  decode_encode := decode_encode
  encode_nil := rfl
  encode_alphabet := encode_alphabet

/-- The groups of six bits of a byte string. -/
def sextets : Bytes → List Nat
  | [] => []
  | [a] => [a.toNat / 4, a.toNat % 4 * 16]
  | [a, b] => [a.toNat / 4, a.toNat % 4 * 16 + b.toNat / 16, b.toNat % 16 * 4]
  | a :: b :: c :: rest =>
    (a.toNat / 4) :: (a.toNat % 4 * 16 + b.toNat / 16) :: (b.toNat % 16 * 4 + c.toNat / 64) ::
      (c.toNat % 64) :: sextets rest

/-- The bytes of groups of six bits, the unused bits of the last group dropped. -/
def ungroup : List Nat → Bytes
  | w :: x :: y :: z :: rest =>
    UInt8.ofNat (w * 4 + x / 16) :: UInt8.ofNat (x % 16 * 16 + y / 4) ::
      UInt8.ofNat (y % 4 * 64 + z) :: ungroup rest
  | [w, x, y] => [UInt8.ofNat (w * 4 + x / 16), UInt8.ofNat (x % 16 * 16 + y / 4)]
  | [w, x] => [UInt8.ofNat (w * 4 + x / 16)]
  | _ => []

def toStandard (c : Char) : Char := if c = '-' then '+' else if c = '_' then '/' else c

def standardValue (c : Char) : Option Nat :=
  if c = '+' then some 62 else if c = '/' then some 63 else if c.isAlphanum then value c else none

def isAsciiWhitespace (c : Char) : Bool :=
  c == ' ' || c == '\t' || c == '\n' || c == '\x0c' || c == '\r'

/-- Whole groups lose one or two padding signs. -/
def removePadding (data : Text) : Text :=
  if data.length % 4 = 0 then
    if data.getLast? = some '=' then
      if data.dropLast.getLast? = some '=' then data.dropLast.dropLast else data.dropLast
    else data
  else data

/-- The forgiving decoder of web platforms. -/
def atob (data : Text) : Option Bytes :=
  let data := removePadding (data.filter fun c => !isAsciiWhitespace c)
  if data.length % 4 = 1 then none else (data.mapM standardValue).map ungroup

def pad (text : Text) : Text := text ++ List.replicate ((4 - text.length % 4) % 4) '='

section
attribute [local simp] sextets ungroup

theorem encode_eq_map_sextets (bytes : Bytes) : encode bytes = (sextets bytes).map digit := by
  induction bytes using sextets.induct with
  | case1 => rfl
  | case2 a => rfl
  | case3 a b => rfl
  | case4 a b c rest ih => simp only [encode, sextets, List.map_cons, ih]

theorem sextets_lt (bytes : Bytes) : ∀ n ∈ sextets bytes, n < 64 := by
  have hlt (a : UInt8) : a.toNat < 256 := a.toNat_lt
  induction bytes using sextets.induct with
  | case1 => simp [sextets]
  | case2 a =>
    have ha := hlt a
    simp only [sextets, List.mem_cons, List.not_mem_nil, or_false]
    omega
  | case3 a b =>
    have ha := hlt a
    have hb := hlt b
    simp only [sextets, List.mem_cons, List.not_mem_nil, or_false]
    omega
  | case4 a b c rest ih =>
    have ha := hlt a
    have hb := hlt b
    have hc := hlt c
    intro n hn
    simp only [sextets, List.mem_cons] at hn
    rcases hn with rfl | rfl | rfl | rfl | hn
    · omega
    · omega
    · omega
    · omega
    · exact ih n hn

theorem ungroup_sextets (bytes : Bytes) : ungroup (sextets bytes) = bytes := by
  have hlt (a : UInt8) : a.toNat < 256 := a.toNat_lt
  have hbyte {a : UInt8} {n : Nat} (h : n = a.toNat) : UInt8.ofNat n = a := by
    rw [h, UInt8.ofNat_toNat]
  induction bytes using sextets.induct with
  | case1 => rfl
  | case2 a =>
    have ha := hlt a
    rw [sextets, ungroup, hbyte (a := a) (by omega)]
  | case3 a b =>
    have ha := hlt a
    have hb := hlt b
    rw [sextets, ungroup, hbyte (a := a) (by omega), hbyte (a := b) (by omega)]
  | case4 a b c rest ih =>
    have ha := hlt a
    have hb := hlt b
    have hc := hlt c
    rw [sextets, ungroup, hbyte (a := a) (by omega), hbyte (a := b) (by omega),
      hbyte (a := c) (by omega), ih]

theorem length_sextets (bytes : Bytes) : (sextets bytes).length % 4 ≠ 1 := by
  induction bytes using sextets.induct with
  | case1 => decide
  | case2 a => simp [sextets]
  | case3 a b => simp [sextets]
  | case4 a b c rest ih =>
    simp only [sextets, List.length_cons]
    omega

end

theorem standardValue_digit : ∀ n < 64, standardValue (toStandard (digit n)) = some n := by
  decide

theorem toStandard_digit_ne : ∀ n < 64,
    toStandard (digit n) ≠ '=' ∧ isAsciiWhitespace (toStandard (digit n)) = false := by
  decide

theorem removePadding_pad {text : Text} (h : '=' ∉ text) (hlen : text.length % 4 ≠ 1) :
    removePadding (pad text) = text := by
  have hlast : text.getLast? ≠ some '=' := fun hl => h (List.mem_of_getLast? hl)
  rw [removePadding, pad]
  have hmod : text.length % 4 = 0 ∨ text.length % 4 = 2 ∨ text.length % 4 = 3 := by omega
  rcases hmod with hmod | hmod | hmod
  · simp [hmod, hlast]
  · have htwo : text ++ ['=', '='] = (text ++ ['=']) ++ ['='] := by simp
    simp only [hmod, Nat.reduceSub, Nat.reduceMod, List.replicate, List.length_append,
      List.length_cons, List.length_nil]
    rw [if_pos (by omega), htwo, List.getLast?_concat, if_pos rfl, List.dropLast_concat,
      List.getLast?_concat, if_pos rfl, List.dropLast_concat]
  · simp only [hmod, Nat.reduceSub, Nat.reduceMod, List.replicate, List.length_append,
      List.length_cons, List.length_nil]
    rw [if_pos (by omega), List.getLast?_concat, if_pos rfl, List.dropLast_concat, if_neg hlast]

theorem mapM_standardValue {ns : List Nat} (h : ∀ n ∈ ns, n < 64) :
    ((ns.map digit).map toStandard).mapM standardValue = some ns := by
  induction ns with
  | nil => rfl
  | cons n ns ih =>
    rw [List.map_cons, List.map_cons, List.mapM_cons, standardValue_digit n (h n List.mem_cons_self),
      ih fun m hm => h m (List.mem_cons_of_mem n hm)]
    rfl

/-- The forgiving decoder reads the padded standard form of an encoding back. -/
theorem atob_encode (bytes : Bytes) : atob (pad ((encode bytes).map toStandard)) = some bytes := by
  have hlt := sextets_lt bytes
  have hlen : ((encode bytes).map toStandard).length % 4 ≠ 1 := by
    rw [encode_eq_map_sextets, List.length_map, List.length_map]
    exact length_sextets bytes
  have hpad : '=' ∉ (encode bytes).map toStandard := by
    rw [encode_eq_map_sextets]
    intro hmem
    simp only [List.map_map, List.mem_map, Function.comp_apply] at hmem
    obtain ⟨n, hn, he⟩ := hmem
    exact (toStandard_digit_ne n (hlt n hn)).1 he
  have hwhite : (pad ((encode bytes).map toStandard)).filter (fun c => !isAsciiWhitespace c) =
      pad ((encode bytes).map toStandard) := by
    refine List.filter_eq_self.mpr fun c hc => ?_
    rw [pad, List.mem_append] at hc
    cases hc with
    | inl hc =>
      rw [encode_eq_map_sextets] at hc
      simp only [List.map_map, List.mem_map, Function.comp_apply] at hc
      obtain ⟨n, hn, rfl⟩ := hc
      rw [(toStandard_digit_ne n (hlt n hn)).2]
      rfl
    | inr hc =>
      rw [List.eq_of_mem_replicate hc]
      rfl
  simp only [atob, hwhite, removePadding_pad hpad hlen, hlen, ↓reduceIte]
  rw [encode_eq_map_sextets, mapM_standardValue hlt, Option.map_some, ungroup_sextets]

end Base64Url
