import StreamArena.Library.AsciiText

/-! Decimal texts of integers, parsing them, and the 64-bit range. -/
namespace Decimal
open AsciiText

def decimalText (n : Int) : Text := (toString n).toList

def i64Max : Int := 9223372036854775807
def i64Min : Int := -9223372036854775808

def parseDigits (text : Text) : Option Nat :=
  if text ≠ [] ∧ text.all Char.isDigit = true then some (Nat.ofDigitChars 10 text 0) else none

/-- Digits after at most one sign. -/
def parseInt (text : Text) : Option Int :=
  match text with
  | '-' :: digits => (parseDigits digits).map fun n => -(n : Int)
  | '+' :: digits => (parseDigits digits).map Int.ofNat
  | digits => (parseDigits digits).map Int.ofNat

def parseI64 (text : Text) : Option Int :=
  (parseInt text).filter fun n => decide (i64Min ≤ n ∧ n ≤ i64Max)

def parseU32 (text : Text) : Option Nat :=
  (match text with
  | '+' :: digits => parseDigits digits
  | digits => parseDigits digits).filter fun n => decide (n < 2 ^ 32)

/-- Digits after at most a plus sign. -/
def parseUnsigned (text : Text) : Option Nat :=
  match text with
  | '+' :: digits => parseDigits digits
  | digits => parseDigits digits

def parseU64 (text : Text) : Option UInt64 :=
  ((parseUnsigned text).filter fun n => decide (n < 2 ^ 64)).map UInt64.ofNat

/-- The sum of a 64-bit register, which goes round at its ends. -/
def wrapI64 (n : Int) : Int := n.bmod (2 ^ 64)

def saturate (n : Int) : Int := max i64Min (min i64Max n)

/-- Digits without a leading zero. -/
def isCanonical (text : Text) : Bool :=
  !text.isEmpty && text.all Char.isDigit && !(1 < text.length && text.head? == some '0')

theorem wrapI64_eq_self {n : Int} (h : i64Min ≤ n ∧ n ≤ i64Max) : wrapI64 n = n := by
  simp only [i64Min, i64Max] at h
  rw [wrapI64, Int.bmod_def]
  omega

theorem decimalText_natCast (n : Nat) : decimalText n = Nat.toDigits 10 n := by
  rw [decimalText, Int.toString_eq_repr, Int.repr_eq_if, if_pos (Int.natCast_nonneg n),
    Int.toNat_natCast, Nat.toList_repr]

theorem toDigits_all_isDigit (n : Nat) : (Nat.toDigits 10 n).all Char.isDigit = true :=
  List.all_eq_true.mpr fun _ hc => Nat.isDigit_of_mem_toDigits (by omega) (by omega) hc

theorem parseDigits_toDigits (n : Nat) : parseDigits (Nat.toDigits 10 n) = some n := by
  rw [parseDigits, if_pos ⟨Nat.toDigits_ne_nil, toDigits_all_isDigit n⟩,
    Nat.ofDigitChars_ten_toDigits]

/-- A text that starts with a digit is read without its sign. -/
theorem parseInt_of_digits {text : Text} (h : text.all Char.isDigit = true) :
    parseInt text = (parseDigits text).map Int.ofNat := by
  cases text with
  | nil => rfl
  | cons c text =>
    have hc : c.isDigit = true := List.all_eq_true.mp h c List.mem_cons_self
    rw [parseInt.eq_3]
    · rintro digits heq
      rw [(List.cons_eq_cons.mp heq).1] at hc
      exact absurd hc (by decide)
    · rintro digits heq
      rw [(List.cons_eq_cons.mp heq).1] at hc
      exact absurd hc (by decide)

theorem parseUnsigned_of_digits {text : Text} (h : text.all Char.isDigit = true) :
    parseUnsigned text = parseDigits text := by
  cases text with
  | nil => rfl
  | cons c text =>
    have hc : c.isDigit = true := List.all_eq_true.mp h c List.mem_cons_self
    rw [parseUnsigned.eq_2]
    intro digits heq
    rw [(List.cons_eq_cons.mp heq).1] at hc
    exact absurd hc (by decide)

/-- The digits of a number too large for its register are refused. -/
theorem parseU64_of_digits {text : Text} (hne : text ≠ []) (h : text.all Char.isDigit = true) :
    parseU64 text = if Nat.ofDigitChars 10 text 0 < 2 ^ 64 then some (.ofNat (Nat.ofDigitChars 10 text 0)) else none := by
  rw [parseU64, parseUnsigned_of_digits h, parseDigits, if_pos ⟨hne, h⟩, Option.filter_some]
  split <;> simp_all

theorem not_isWhitespace_of_isDigit {c : Char} (h : c.isDigit = true) : isWhitespace c = false := by
  have hrange : 48 ≤ c.toNat ∧ c.toNat ≤ 57 := by
    simpa [Char.isDigit, UInt32.le_iff_toNat_le] using h
  simp only [isWhitespace, Bool.or_eq_false_iff, Bool.and_eq_false_iff, decide_eq_false_iff_not,
    beq_eq_false_iff_ne]
  omega

theorem not_isWhitespace_of_mem_decimalText {n : Int} {c : Char} (h : c ∈ decimalText n) :
    isWhitespace c = false := by
  cases mem_decimal h with
  | inr hminus => rw [hminus]; decide
  | inl hdigit => exact not_isWhitespace_of_isDigit hdigit

theorem decimalText_ne_nil (n : Int) : decimalText n ≠ [] := by
  rw [decimalText, Int.toString_eq_repr, Int.repr_eq_if]
  split
  · rw [Nat.toList_repr]
    exact Nat.toDigits_ne_nil
  · simp

theorem parseInt_of_parseDigits {text : Text} {n : Nat} (h : parseDigits text = some n) :
    parseInt text = some (n : Int) := by
  have hdigits : text.all Char.isDigit = true := by
    unfold parseDigits at h
    split at h
    · next htext => exact htext.2
    · cases h
  rw [parseInt_of_digits hdigits, h]
  rfl

/-- A number too large for its register is no number. -/
theorem parseI64_of_parseDigits {text : Text} {n : Nat} (h : parseDigits text = some n) :
    parseI64 text = if (n : Int) ≤ i64Max then some (n : Int) else none := by
  have hmin : i64Min ≤ (n : Int) := by simp only [i64Min]; omega
  rw [parseI64, parseInt_of_parseDigits h, Option.filter_some]
  simp only [hmin, true_and, decide_eq_true_eq]

theorem parseI64_decimalText {n : Int} (h : 0 ≤ n) (hmax : n ≤ i64Max) :
    parseI64 (decimalText n) = some n := by
  obtain ⟨m, rfl⟩ := Int.eq_ofNat_of_zero_le h
  have hmin : i64Min ≤ (m : Int) := by simp only [i64Min]; omega
  rw [parseI64, decimalText_natCast, parseInt_of_digits (toDigits_all_isDigit m),
    parseDigits_toDigits]
  exact Option.filter_some_pos (decide_eq_true ⟨hmin, hmax⟩)

theorem head_toDigits_ne_zero {n : Nat} (h : 0 < n) : (Nat.toDigits 10 n).head? ≠ some '0' := by
  have hdigit : ∀ m < 10, 0 < m → Nat.digitChar m ≠ '0' := by decide
  induction n using Nat.strong_induction_on with
  | _ n ih =>
    rw [Nat.toDigits_eq_if (by omega)]
    split
    · next hlt =>
      rw [List.head?_cons, Ne, Option.some.injEq]
      exact hdigit n hlt h
    · have hdiv := ih (n / 10) (by omega) (by omega)
      rwa [List.head?_append_of_ne_nil _ Nat.toDigits_ne_nil]

theorem isCanonical_decimalText {n : Int} (h : 0 ≤ n) : isCanonical (decimalText n) = true := by
  obtain ⟨m, rfl⟩ := Int.eq_ofNat_of_zero_le h
  have hne : (Nat.toDigits 10 m).isEmpty = false := by simp
  rw [decimalText_natCast, isCanonical, hne, toDigits_all_isDigit]
  by_cases hm : 0 < m
  · simp [head_toDigits_ne_zero hm]
  · rw [show m = 0 by omega]
    decide

end Decimal
