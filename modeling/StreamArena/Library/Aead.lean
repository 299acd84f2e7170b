import StreamArena.Library.AsciiText

/-! Authenticated encryption with associated data as an ideal: decryption under the
key, nonce and associated data of an encryption inverts it, and nothing else
decrypts. Byte strings, and text as its UTF-8 bytes. -/
namespace Aead
open AsciiText

abbrev Bytes := List UInt8

def utf8Bytes (text : Text) : Bytes := (String.ofList text).toByteArray.data.toList

def fromUtf8 (bytes : Bytes) : Option Text :=
  (ByteArray.mk bytes.toArray).utf8Decode?.map Array.toList

@[simp] theorem fromUtf8_utf8Bytes (text : Text) : fromUtf8 (utf8Bytes text) = some text := by
  have hbytes : ByteArray.mk (utf8Bytes text).toArray = text.utf8Encode := by
    rw [utf8Bytes, Array.toArray_toList, String.toByteArray_ofList]
  rw [fromUtf8, hbytes, List.utf8Decode?_utf8Encode]
  rfl

theorem getD_fromUtf8_utf8Bytes (text : Text) : (fromUtf8 (utf8Bytes text)).getD [] = text := by
  rw [fromUtf8_utf8Bytes, Option.getD_some]

theorem utf8Bytes_injective {s t : Text} (h : utf8Bytes s = utf8Bytes t) : s = t := by
  have hs := fromUtf8_utf8Bytes s
  rw [h, fromUtf8_utf8Bytes] at hs
  exact (Option.some.inj hs).symm

@[simp] theorem utf8Bytes_nil : utf8Bytes [] = [] := rfl

@[simp] theorem utf8Bytes_append (s t : Text) : utf8Bytes (s ++ t) = utf8Bytes s ++ utf8Bytes t := by
  simp only [utf8Bytes, String.toByteArray_ofList, List.utf8Encode_append, ByteArray.data_append,
    Array.toList_append]

/-- Keys `κ`, nonces `ν`; `tag` bytes at least in every ciphertext. -/
structure Ideal (κ ν : Type) (tag : Nat) where
  encrypt : κ → ν → Bytes → Bytes → Bytes
  decrypt : κ → ν → Bytes → Bytes → Option Bytes
  decrypt_iff : ∀ {k n aad c m}, decrypt k n aad c = some m ↔ encrypt k n aad m = c
  separates : ∀ {k k' n n' aad aad' m m'},
    encrypt k n aad m = encrypt k' n' aad' m' → k = k' ∧ n = n' ∧ aad = aad'
  tag_le : ∀ k n aad m, tag ≤ (encrypt k n aad m).length

variable {κ ν : Type} {tag : Nat} (aead : Ideal κ ν tag)

@[simp] theorem Ideal.decrypt_encrypt (k : κ) (n : ν) (aad m : Bytes) :
    aead.decrypt k n aad (aead.encrypt k n aad m) = some m :=
  aead.decrypt_iff.mpr rfl

/-- An ideal whose ciphertexts name what they were made under: any prefix-free header of
key, nonce and associated data gives one. -/
def Ideal.ofHeader (header : κ → ν → Bytes → Bytes)
    (hseparates : ∀ {k k' n n' aad aad' m m'},
      header k n aad ++ m = header k' n' aad' ++ m' → k = k' ∧ n = n' ∧ aad = aad')
    (htag : ∀ k n aad, tag ≤ (header k n aad).length) : Ideal κ ν tag where
  encrypt k n aad m := header k n aad ++ m
  decrypt k n aad c := if header k n aad <+: c then some (c.drop (header k n aad).length) else none
  decrypt_iff {k n aad c m} := by
    constructor
    · intro h
      rw [Option.ite_none_right_eq_some, Option.some.injEq] at h
      obtain ⟨hpre, rfl⟩ := h
      exact List.prefix_iff_eq_append.mp hpre
    · rintro rfl
      rw [if_pos (List.prefix_append _ _), List.drop_left]
  separates := hseparates
  tag_le k n aad m := by
    rw [List.length_append]
    exact (htag k n aad).trans (Nat.le_add_right _ _)

/-- Bytes that end themselves. -/
def frame (bytes : Bytes) : Bytes := bytes.flatMap (fun b => [1, b]) ++ [0]

theorem frame_separates {a a' m m' : Bytes} (h : frame a ++ m = frame a' ++ m') : a = a' ∧ m = m' := by
  induction a generalizing a' with
  | nil =>
    cases a' with
    | nil => exact ⟨rfl, by simpa [frame] using h⟩
    | cons b' a' => simp [frame] at h
  | cons b a ih =>
    cases a' with
    | nil => simp [frame] at h
    | cons b' a' =>
      simp only [frame, List.flatMap_cons, List.cons_append, List.nil_append, List.cons.injEq,
        true_and] at h
      obtain ⟨rfl, h⟩ := h
      obtain ⟨rfl, rfl⟩ := ih h
      exact ⟨rfl, rfl⟩

end Aead
