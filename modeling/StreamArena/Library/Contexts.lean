import StreamArena.Library.Mac
import StreamArena.Library.Separated

/-! One key for several purposes: every message begins with the context it is signed in and a zero byte, so no
message of one purpose is one of another. -/
namespace Contexts
open AsciiText Aead

def framed (context payload : Bytes) : Bytes := context ++ 0 :: payload

theorem framed_injective {context context' payload payload' : Bytes} (h : 0 ∉ context) (h' : 0 ∉ context')
    (heq : framed context payload = framed context' payload') : context = context' ∧ payload = payload' :=
  Separated.first_injective h h' heq

/-- What a key signs in one context, and anything at all in the others. -/
def Signed (context : Bytes) (own : Bytes → Bytes → Prop) (key message : Bytes) : Prop :=
  (∃ payload, own key payload ∧ message = framed context payload) ∨
    ∃ other payload, 0 ∉ other ∧ other ≠ context ∧ message = framed other payload

theorem own_of_signed {context key payload : Bytes} {own : Bytes → Bytes → Prop} (hcontext : 0 ∉ context)
    (h : Signed context own key (framed context payload)) : own key payload := by
  rcases h with ⟨payload', hown, heq⟩ | ⟨other, payload', hother, hne, heq⟩
  · rw [(framed_injective hcontext hcontext heq).2]
    exact hown
  · exact absurd (framed_injective hcontext hother heq).1.symm hne

/-- A tag of an ideal code: it verifies for one message, which was signed. -/
structure Ideal (mac : Mac.Code) (signed : Bytes → Bytes → Prop) (tag : Bytes) : Prop where
  honest : Mac.Honest mac signed tag
  single : ∀ key message key' message', mac key message = tag → mac key' message' = tag → message = message'

/-- A code that signs one message as another code does, and nothing else so. -/
def sole (mac : Mac.Code) (signedKey signed : Bytes) : Mac.Code := fun key message =>
  if key = signedKey ∧ message = signed then mac signedKey signed else [0]

theorem sole_self (mac : Mac.Code) (key message : Bytes) : sole mac key message key message = mac key message :=
  if_pos ⟨rfl, rfl⟩

theorem sole_ne_nil {mac : Mac.Code} {signedKey signed : Bytes} (h : mac signedKey signed ≠ []) (key message : Bytes) :
    sole mac signedKey signed key message ≠ [] := by
  rw [sole]
  split
  · exact h
  · exact List.cons_ne_nil _ _

theorem eq_of_sole {mac : Mac.Code} {signedKey signed key message : Bytes} (hlen : (mac signedKey signed).length ≠ 1)
    (h : sole mac signedKey signed key message = mac signedKey signed) : key = signedKey ∧ message = signed := by
  by_contra hother
  rw [sole, if_neg hother] at h
  rw [← h] at hlen
  exact hlen rfl

theorem ideal_sole {mac : Mac.Code} {signed : Bytes → Bytes → Prop} {key message : Bytes}
    (hlen : (mac key message).length ≠ 1) (h : signed key message) : Ideal (sole mac key message) signed (mac key message) where
  honest _ _ htag := by
    obtain ⟨hkey, hmessage⟩ := eq_of_sole hlen htag
    rw [hkey, hmessage]
    exact h
  single _ _ _ _ htag htag' := (eq_of_sole hlen htag).2.trans (eq_of_sole hlen htag').2.symm

end Contexts
