import StreamArena.Library.Aead

/-! Message authentication codes: what it is for a tag to be honest, that it verifies
for signed messages only, and HMAC-SHA256 as the code programs use. -/
namespace Mac
open AsciiText Aead

/-- The tag of a message under a key. -/
abbrev Code := Bytes → Bytes → Bytes

/-- The tag verifies for no message that was not signed under the key. -/
def Honest (mac : Code) (signed : Bytes → Bytes → Prop) (tag : Bytes) : Prop :=
  ∀ key message, mac key message = tag → signed key message

def roundConstants : List UInt32 :=
  [0x428a2f98, 0x71374491, 0xb5c0fbcf, 0xe9b5dba5, 0x3956c25b, 0x59f111f1, 0x923f82a4, 0xab1c5ed5,
   0xd807aa98, 0x12835b01, 0x243185be, 0x550c7dc3, 0x72be5d74, 0x80deb1fe, 0x9bdc06a7, 0xc19bf174,
   0xe49b69c1, 0xefbe4786, 0x0fc19dc6, 0x240ca1cc, 0x2de92c6f, 0x4a7484aa, 0x5cb0a9dc, 0x76f988da,
   0x983e5152, 0xa831c66d, 0xb00327c8, 0xbf597fc7, 0xc6e00bf3, 0xd5a79147, 0x06ca6351, 0x14292967,
   0x27b70a85, 0x2e1b2138, 0x4d2c6dfc, 0x53380d13, 0x650a7354, 0x766a0abb, 0x81c2c92e, 0x92722c85,
   0xa2bfe8a1, 0xa81a664b, 0xc24b8b70, 0xc76c51a3, 0xd192e819, 0xd6990624, 0xf40e3585, 0x106aa070,
   0x19a4c116, 0x1e376c08, 0x2748774c, 0x34b0bcb5, 0x391c0cb3, 0x4ed8aa4a, 0x5b9cca4f, 0x682e6ff3,
   0x748f82ee, 0x78a5636f, 0x84c87814, 0x8cc70208, 0x90befffa, 0xa4506ceb, 0xbef9a3f7, 0xc67178f2]

def initialHash : List UInt32 :=
  [0x6a09e667, 0xbb67ae85, 0x3c6ef372, 0xa54ff53a, 0x510e527f, 0x9b05688c, 0x1f83d9ab, 0x5be0cd19]

def rotr (x : UInt32) (n : UInt32) : UInt32 := (x >>> n) ||| (x <<< (32 - n))

/-- A number in big-endian bytes. -/
def bigEndian (width n : Nat) : Bytes :=
  (List.range width).map fun i => UInt8.ofNat (n / 256 ^ (width - 1 - i))

def sha256Pad (message : Bytes) : Bytes :=
  message ++ 0x80 :: List.replicate ((119 - message.length % 64) % 64) 0 ++
    bigEndian 8 (8 * message.length)

def word (bytes : Bytes) : UInt32 :=
  bytes.foldl (fun n b => n * 256 + UInt32.ofNat b.toNat) 0

def chunks (size : Nat) : Nat → Bytes → List Bytes
  | 0, _ => []
  | n + 1, bytes => bytes.take size :: chunks size n (bytes.drop size)

/-- The schedule of a block, its last word first. -/
def schedule : Nat → List UInt32 → List UInt32
  | 0, words => words
  | n + 1, words =>
    let a := words.getD 14 0
    let b := words.getD 1 0
    let s0 := rotr a 7 ^^^ rotr a 18 ^^^ (a >>> 3)
    let s1 := rotr b 17 ^^^ rotr b 19 ^^^ (b >>> 10)
    schedule n ((words.getD 15 0 + s0 + words.getD 6 0 + s1) :: words)

def round (state : List UInt32) (kw : UInt32 × UInt32) : List UInt32 :=
  match state with
  | [a, b, c, d, e, f, g, h] =>
    let s1 := rotr e 6 ^^^ rotr e 11 ^^^ rotr e 25
    let ch := (e &&& f) ^^^ ((e ^^^ 0xffffffff) &&& g)
    let t1 := h + s1 + ch + kw.1 + kw.2
    let s0 := rotr a 2 ^^^ rotr a 13 ^^^ rotr a 22
    let maj := (a &&& b) ^^^ (a &&& c) ^^^ (b &&& c)
    [t1 + s0 + maj, a, b, c, d + t1, e, f, g]
  | other => other

def compress (state : List UInt32) (block : Bytes) : List UInt32 :=
  let words := schedule 48 ((chunks 4 16 block).map word).reverse
  List.zipWith (· + ·) state ((roundConstants.zip words.reverse).foldl round state)

def sha256 (message : Bytes) : Bytes :=
  let padded := sha256Pad message
  ((chunks 64 (padded.length / 64) padded).foldl compress initialHash).flatMap
    fun w => bigEndian 4 w.toNat

def hmacSha256 : Code := fun key message =>
  let key := if 64 < key.length then sha256 key else key
  let block := key ++ List.replicate (64 - key.length) 0
  sha256 (block.map (· ^^^ 0x5c) ++ sha256 (block.map (· ^^^ 0x36) ++ message))

theorem length_bigEndian (width n : Nat) : (bigEndian width n).length = width := by
  rw [bigEndian, List.length_map, List.length_range]

theorem length_round (state : List UInt32) (kw : UInt32 × UInt32) :
    (round state kw).length = state.length := by
  unfold round
  split <;> rfl

theorem length_foldl_round (kws : List (UInt32 × UInt32)) (state : List UInt32) :
    (kws.foldl round state).length = state.length := by
  induction kws generalizing state with
  | nil => rfl
  | cons kw kws ih => rw [List.foldl_cons, ih, length_round]

theorem length_compress (state : List UInt32) (block : Bytes) :
    (compress state block).length = state.length := by
  rw [compress, List.length_zipWith, length_foldl_round, min_self]

theorem length_foldl_compress (blocks : List Bytes) (state : List UInt32) :
    (blocks.foldl compress state).length = state.length := by
  induction blocks generalizing state with
  | nil => rfl
  | cons block blocks ih => rw [List.foldl_cons, ih, length_compress]

/-- Every digest has 32 bytes. -/
theorem length_sha256 (message : Bytes) : (sha256 message).length = 32 := by
  have hword (w : UInt32) : (bigEndian 4 w.toNat).length = 4 := length_bigEndian 4 w.toNat
  simp only [sha256, List.length_flatMap, hword, List.map_const', List.sum_replicate,
    length_foldl_compress]
  rfl

theorem length_hmacSha256 (key message : Bytes) : (hmacSha256 key message).length = 32 :=
  length_sha256 _

theorem hmacSha256_ne_nil (key message : Bytes) : hmacSha256 key message ≠ [] := by
  intro h
  have hlen := length_hmacSha256 key message
  rw [h] at hlen
  cases hlen

example : sha256 (utf8Bytes "abc".toList) =
    bigEndian 32 0xba7816bf8f01cfea414140de5dae2223b00361a396177a9cb410ff61f20015ad := by
  decide +kernel

end Mac
