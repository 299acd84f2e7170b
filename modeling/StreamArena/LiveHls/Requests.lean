import StreamArena.Library.Base64Url
import StreamArena.Library.Urls

/-! A live stream request as its handler reads it from the query. -/
namespace StreamArena.LiveHls
open AsciiText Urls

/-- The digest a private grant carries of its session. -/
structure PrivateSessionBinding where
  text : Text
  length_eq : text.length = 43
  alphabet : text.all Base64Url.isAlphabet = true
  deriving DecidableEq

structure LiveHlsRequest (urls : Urls.Library) where
  sourceUrl : urls.Url
  referer : Option Text
  trustedExternalEmbed : Bool
  signatureExpiresAt : Option Int
  directSegments : Bool
  privateSessionBinding : Option PrivateSessionBinding
  deriving DecidableEq

theorem PrivateSessionBinding.text_ne_nil (binding : PrivateSessionBinding) : binding.text ≠ [] := by
  intro h
  have hlen := binding.length_eq
  simp [h] at hlen

theorem PrivateSessionBinding.not_mem_text (binding : PrivateSessionBinding) {c : Char}
    (hc : Base64Url.isAlphabet c = false) : c ∉ binding.text := by
  intro hmem
  have halphabet := List.all_eq_true.mp binding.alphabet c hmem
  rw [hc] at halphabet
  cases halphabet

theorem PrivateSessionBinding.text_injective {a b : PrivateSessionBinding} (h : a.text = b.text) :
    a = b := by
  cases a
  cases b
  simpa using h

/-- The text an optional binding is written as. -/
def bindingText (binding : Option PrivateSessionBinding) : Text :=
  binding.elim [] PrivateSessionBinding.text

theorem bindingText_injective {a b : Option PrivateSessionBinding}
    (h : bindingText a = bindingText b) : a = b := by
  cases a with
  | none =>
    cases b with
    | none => rfl
    | some b => exact absurd h.symm b.text_ne_nil
  | some a =>
    cases b with
    | none => exact absurd h a.text_ne_nil
    | some b => rw [PrivateSessionBinding.text_injective h]

end StreamArena.LiveHls
