import Mathlib
import StreamArena.Library.Outcome

/-! Readers over a source that holds a list of symbols still to come: what one that is given a code reads from it,
and what holds of a reader whatever it is given. -/

universe u

abbrev Reader (σ α : Type u) := StateT σ Outcome α

namespace Reader
variable {σ α β γ : Type u} {remaining : σ → List γ}

/-- A code is read as a value, and nothing behind it is touched. -/
def Decodes (remaining : σ → List γ) (x : Reader σ α) (code : List γ) (a : α) : Prop :=
  ∀ s rest, remaining s = code ++ rest → ∃ s', x s = .value (a, s') ∧ remaining s' = rest

/-- A reader is never stopped by the machine, and every value it gives is of a kind. -/
def Ensures (x : Reader σ α) (P : α → Prop) : Prop :=
  ∀ s, (x s).Safe ∧ ∀ a s', x s = .value (a, s') → P a

theorem bind_run (x : Reader σ α) (f : α → Reader σ β) (s : σ) : (x >>= f) s = (x s).bind fun p => f p.1 p.2 := rfl

theorem decodes_pure (a : α) : Decodes remaining (pure a) [] a :=
  fun s _ hs => ⟨s, rfl, hs⟩

theorem decodes_lift {x : Outcome α} {a : α} (h : x = .value a) : Decodes remaining (liftM x) [] a := by
  intro s rest hs
  subst h
  exact ⟨s, rfl, hs⟩

theorem decodes_bind {x : Reader σ α} {f : α → Reader σ β} {code code' : List γ} {a : α} {b : β} (hx : Decodes remaining x code a)
    (hf : Decodes remaining (f a) code' b) : Decodes remaining (x >>= f) (code ++ code') b := by
  intro s rest hs
  rw [List.append_assoc] at hs
  obtain ⟨s', hfirst, hs'⟩ := hx s (code' ++ rest) hs
  obtain ⟨s'', hsecond, hs''⟩ := hf s' rest hs'
  refine ⟨s'', ?_, hs''⟩
  rw [bind_run, hfirst, Outcome.value_bind]
  exact hsecond

/-- A first step that reads nothing, and a last one. -/
theorem decodes_bind_nil {x : Reader σ α} {f : α → Reader σ β} {code : List γ} {a : α} {b : β} (hx : Decodes remaining x [] a)
    (hf : Decodes remaining (f a) code b) : Decodes remaining (x >>= f) code b :=
  decodes_bind hx hf

theorem decodes_bind_last {x : Reader σ α} {f : α → Reader σ β} {code : List γ} {a : α} {b : β} (hx : Decodes remaining x code a)
    (hf : Decodes remaining (f a) [] b) : Decodes remaining (x >>= f) code b := by
  have hboth := decodes_bind hx hf
  rwa [List.append_nil] at hboth

theorem ensures_lift {x : Outcome α} {P : α → Prop} (hsafe : x.Safe) (h : ∀ a, x = .value a → P a) :
    Ensures (liftM x : Reader σ α) P := by
  intro s
  cases x with
  | value a =>
    refine ⟨Outcome.safe_value _, fun b s' hb => ?_⟩
    cases hb
    exact h a rfl
  | nothing =>
    refine ⟨Outcome.safe_nothing, fun b s' hb => ?_⟩
    cases hb
  | panic => exact absurd rfl hsafe

theorem ensures_pure {a : α} {P : α → Prop} (h : P a) : Ensures (pure a : Reader σ α) P := by
  intro s
  refine ⟨Outcome.safe_value _, fun b s' hb => ?_⟩
  cases hb
  exact h

theorem ensures_bind {x : Reader σ α} {f : α → Reader σ β} {P : α → Prop} {Q : β → Prop} (hx : Ensures x P)
    (hf : ∀ a, P a → Ensures (f a) Q) : Ensures (x >>= f) Q := by
  intro s
  obtain ⟨hsafe, hvalue⟩ := hx s
  rw [bind_run]
  cases hxs : x s with
  | nothing => simp
  | panic => exact absurd hxs hsafe
  | value p =>
    obtain ⟨a, s'⟩ := p
    exact hf a (hvalue a s' hxs) s'

theorem ensures_weaken {x : Reader σ α} {P Q : α → Prop} (hx : Ensures x P) (h : ∀ a, P a → Q a) : Ensures x Q :=
  fun s => ⟨(hx s).1, fun a s' ha => h a ((hx s).2 a s' ha)⟩

end Reader
