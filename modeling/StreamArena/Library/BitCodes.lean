import Mathlib
import StreamArena.Library.Chunks

/-! Numbers as bits, the highest first: in a fixed width, as bytes, and in the codes of Golomb's exponential kind. -/
namespace BitCodes
open Chunks

def binary : Nat → Nat → List Bool
  | 0, _ => []
  | width + 1, n => n.testBit width :: binary width n

def ofBits : List Bool → Nat
  | [] => 0
  | bit :: bits => bit.toNat * 2 ^ bits.length + ofBits bits

def byteBits (byte : UInt8) : List Bool := binary 8 byte.toNat

def pack (bits : List Bool) : List UInt8 := (chunks 8 bits).map fun chunk => .ofNat (ofBits chunk)

/-- A number, one more than itself in binary behind as many zeros as it has digits less one. -/
def unsigned (n : Nat) : List Bool := List.replicate (n + 1).log2 false ++ binary ((n + 1).log2 + 1) (n + 1)

def signed (v : Int) : List Bool := unsigned (if 0 < v then 2 * v.toNat - 1 else 2 * (-v).toNat)

@[simp] theorem length_binary (width n : Nat) : (binary width n).length = width := by
  induction width with
  | zero => rfl
  | succ width ih => rw [binary, List.length_cons, ih]

@[simp] theorem length_byteBits (byte : UInt8) : (byteBits byte).length = 8 := length_binary 8 _

theorem binary_mod (width n : Nat) : binary width (n % 2 ^ width) = binary width n := by
  have hbits (more : Nat) (hmore : width ≤ more) : binary width (n % 2 ^ more) = binary width n := by
    induction width with
    | zero => rfl
    | succ width ih =>
      have hbit : (n % 2 ^ more).testBit width = n.testBit width := by
        rw [Nat.testBit_mod_two_pow]
        simp [Nat.lt_of_succ_le hmore]
      rw [binary, binary, hbit, ih (by omega)]
  exact hbits width le_rfl

theorem ofBits_lt (bits : List Bool) : ofBits bits < 2 ^ bits.length := by
  induction bits with
  | nil => simp [ofBits]
  | cons bit bits ih =>
    have hbit := bit.toNat_le
    have hle : bit.toNat * 2 ^ bits.length ≤ 1 * 2 ^ bits.length := Nat.mul_le_mul_right _ hbit
    rw [ofBits, List.length_cons, Nat.pow_succ]
    omega

theorem binary_ofBits (bits : List Bool) : binary bits.length (ofBits bits) = bits := by
  induction bits with
  | nil => rfl
  | cons bit bits ih =>
    have hlt := ofBits_lt bits
    have hhigh : (ofBits (bit :: bits)).testBit bits.length = bit := by
      rw [Nat.testBit_eq_decide_div_mod_eq, ofBits, Nat.add_comm, Nat.add_mul_div_right _ _ (Nat.two_pow_pos _),
        Nat.div_eq_of_lt hlt]
      cases bit <;> rfl
    have hlow : ofBits (bit :: bits) % 2 ^ bits.length = ofBits bits := by
      rw [ofBits, Nat.add_comm, Nat.add_mul_mod_self_right, Nat.mod_eq_of_lt hlt]
    rw [List.length_cons, binary, hhigh, ← binary_mod, hlow, ih]

theorem ofBits_binary {width n : Nat} (h : n < 2 ^ width) : ofBits (binary width n) = n := by
  induction width generalizing n with
  | zero =>
    rw [Nat.lt_one_iff.mp h]
    rfl
  | succ width ih =>
    have hbit : (n.testBit width).toNat = n / 2 ^ width := by
      have hlt : n / 2 ^ width < 2 := Nat.div_lt_of_lt_mul (by rwa [← Nat.pow_succ])
      rw [Nat.testBit_eq_decide_div_mod_eq, Nat.mod_eq_of_lt hlt]
      interval_cases n / 2 ^ width <;> rfl
    rw [binary, ofBits, length_binary, hbit, ← binary_mod, ih (Nat.mod_lt _ (Nat.two_pow_pos _)), Nat.mul_comm]
    exact Nat.div_add_mod n (2 ^ width)

theorem byteBits_ofBits {bits : List Bool} (h : bits.length = 8) : byteBits (.ofNat (ofBits bits)) = bits := by
  have hlt := ofBits_lt bits
  rw [h] at hlt
  rw [byteBits, UInt8.toNat_ofNat_of_lt' hlt, ← h, binary_ofBits]

/-- The bits of packed bits are these, when they fill the bytes. -/
theorem flatMap_pack {bits : List Bool} (h : 8 ∣ bits.length) : (pack bits).flatMap byteBits = bits := by
  rw [pack, List.flatMap_map]
  calc (chunks 8 bits).flatMap (fun chunk => byteBits (.ofNat (ofBits chunk)))
    _ = (chunks 8 bits).flatMap id := List.flatMap_congr fun chunk hchunk => byteBits_ofBits (length_of_mem_chunks hchunk)
    _ = bits := by rw [List.flatMap_id, flatten_chunks (by decide) h]

theorem length_flatMap_byteBits (bytes : List UInt8) : (bytes.flatMap byteBits).length = 8 * bytes.length := by
  induction bytes with
  | nil => rfl
  | cons byte bytes ih =>
    rw [List.flatMap_cons, List.length_append, length_byteBits, ih, List.length_cons]
    omega

theorem getElem?_binary {width n i : Nat} (h : i < width) : (binary width n)[i]? = some (n.testBit (width - 1 - i)) := by
  induction width generalizing i with
  | zero => omega
  | succ width ih =>
    cases i with
    | zero => rfl
    | succ i =>
      have hplace : width + 1 - 1 - (i + 1) = width - 1 - i := by omega
      rw [binary, List.getElem?_cons_succ, ih (by omega), hplace]

/-- A bit of some bytes is a bit of one of them. -/
theorem getElem?_flatMap_byteBits (bytes : List UInt8) (i : Nat) :
    (bytes.flatMap byteBits)[i]? = bytes[i / 8]?.map fun byte => byte.toNat.testBit (7 - i % 8) := by
  induction bytes generalizing i with
  | nil => simp
  | cons byte bytes ih =>
    rw [List.flatMap_cons]
    rcases Nat.lt_or_ge i 8 with hlt | hge
    · rw [List.getElem?_append_left (by rwa [length_byteBits]), byteBits, getElem?_binary hlt, Nat.div_eq_of_lt hlt,
        Nat.mod_eq_of_lt hlt]
      rfl
    · obtain ⟨more, rfl⟩ := Nat.exists_eq_add_of_le hge
      have hdiv : (8 + more) / 8 = more / 8 + 1 := by omega
      have hmod : (8 + more) % 8 = more % 8 := by omega
      rw [List.getElem?_append_right (by rwa [length_byteBits]), length_byteBits, Nat.add_sub_cancel_left, ih, hdiv, hmod,
        List.getElem?_cons_succ]

/-- The leading one of a code is its middle. -/
theorem unsigned_eq (n : Nat) : unsigned n =
    List.replicate (n + 1).log2 false ++ true :: binary (n + 1).log2 (n + 1 - 2 ^ (n + 1).log2) := by
  have hle : 2 ^ (n + 1).log2 ≤ n + 1 := Nat.log2_self_le (Nat.succ_ne_zero n)
  have hlt : n + 1 < 2 ^ (n + 1).log2 * 2 := by
    rw [← Nat.pow_succ]
    exact Nat.lt_log2_self
  have hbit : (n + 1).testBit (n + 1).log2 = true := by
    have hone : (n + 1) / 2 ^ (n + 1).log2 = 1 := by
      apply Nat.div_eq_of_lt_le <;> omega
    rw [Nat.testBit_eq_decide_div_mod_eq, hone]
    rfl
  have hrest : (n + 1) % 2 ^ (n + 1).log2 = n + 1 - 2 ^ (n + 1).log2 := by
    rw [Nat.mod_eq_sub_mod hle, Nat.mod_eq_of_lt (by omega)]
  rw [unsigned, binary, hbit, ← binary_mod, hrest]

theorem log2_lt {n width : Nat} (h : n + 1 < 2 ^ width) : (n + 1).log2 < width :=
  (Nat.log2_lt (Nat.succ_ne_zero n)).mpr h

end BitCodes
