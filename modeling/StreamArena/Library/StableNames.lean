import StreamArena.Library.Decimal

/-! File names made of a short hash and a number: the 32-bit FNV-1a hash of a text, its
hexadecimal digits, and decimal numbers filled up with zeros. -/
namespace StableNames
open AsciiText

def utf8Bytes (text : Text) : List UInt8 := text.flatMap String.utf8EncodeChar

def fnv1a (bytes : List UInt8) : UInt32 :=
  bytes.foldl (fun hash byte => (hash ^^^ byte.toUInt32) * 16777619) 2166136261

/-- The last digits of a number in base 16. -/
def hexDigits : Nat → Nat → Text
  | 0, _ => []
  | width + 1, n => hexDigits width (n / 16) ++ [Nat.digitChar (n % 16)]

def hex8 (n : UInt32) : Text := hexDigits 8 n.toNat

/-- The digits of a number, at least so many. -/
def zeroPadded (width n : Nat) : Text := List.leftpad width '0' (Nat.toDigits 10 n)

theorem digitChar_injective : ∀ n < 16, ∀ m < 16, Nat.digitChar n = Nat.digitChar m → n = m := by
  decide

theorem digitChar_isAlphanum : ∀ n < 16, (Nat.digitChar n).isAlphanum = true := by decide

theorem length_hexDigits (width n : Nat) : (hexDigits width n).length = width := by
  induction width generalizing n with
  | zero => rfl
  | succ width ih => simp [hexDigits, ih]

theorem hexDigits_injective {width n m : Nat} (hn : n < 16 ^ width) (hm : m < 16 ^ width)
    (h : hexDigits width n = hexDigits width m) : n = m := by
  induction width generalizing n m with
  | zero => simp only [pow_zero] at hn hm; omega
  | succ width ih =>
    rw [pow_succ] at hn hm
    obtain ⟨hrest, hlast⟩ := List.append_inj' h rfl
    have hdiv := ih (Nat.div_lt_of_lt_mul (by omega)) (Nat.div_lt_of_lt_mul (by omega)) hrest
    have hmod := digitChar_injective _ (Nat.mod_lt n (by omega)) _ (Nat.mod_lt m (by omega))
      (List.cons_eq_cons.mp hlast).1
    omega

theorem isAlphanum_of_mem_hexDigits {width n : Nat} {c : Char} (h : c ∈ hexDigits width n) :
    c.isAlphanum = true := by
  induction width generalizing n with
  | zero => cases h
  | succ width ih =>
    rcases List.mem_append.mp h with hrest | hlast
    · exact ih hrest
    · rw [List.mem_singleton.mp hlast]
      exact digitChar_isAlphanum _ (Nat.mod_lt n (by omega))

@[simp] theorem length_hex8 (n : UInt32) : (hex8 n).length = 8 := length_hexDigits 8 _

theorem hex8_injective {n m : UInt32} (h : hex8 n = hex8 m) : n = m :=
  UInt32.toNat_inj.mp (hexDigits_injective n.toNat_lt m.toNat_lt h)

theorem zeroPadded_injective {width n m : Nat} (h : zeroPadded width n = zeroPadded width m) : n = m := by
  have hvalue (k : Nat) : Nat.ofDigitChars 10 (zeroPadded width k) 0 = k := by
    rw [zeroPadded, List.leftpad, Nat.ofDigitChars_append, Nat.ofDigitChars_replicate_zero,
      Nat.mul_zero, Nat.ofDigitChars_ten_toDigits]
  rw [← hvalue n, h, hvalue]

end StableNames
