import StreamArena.Library.Runs
import Mathlib.Logic.Function.Basic

/-! Clients that share a store. A call runs as a sequence of atomic steps and keeps
what it has read; a run interleaves the steps of any number of calls in any order. -/
namespace Calls
open Runs
variable {σ γ ρ ι : Type*}

/-- How a request becomes a call, and what one step of a call does: it reads and
writes the store and goes on as another call or ends. -/
structure Protocol (σ γ ρ ι : Type*) where
  start : ρ → γ
  next : σ → γ → ι → σ × Option γ

/-- The store with the calls in flight, one a client. -/
structure World (σ γ : Type*) where
  store : σ
  calls : Nat → Option γ

/-- No call in flight. -/
def World.idle (s : σ) : World σ γ := ⟨s, fun _ => none⟩

/-- A client begins a call, or takes the next step of its own with some input. -/
inductive Event (ρ ι : Type*) where
  | begin (client : Nat) (request : ρ)
  | advance (client : Nat) (input : ι)

/-- A client with a call in flight begins no other, and one without has no step to take. -/
def Protocol.step (p : Protocol σ γ ρ ι) (w : World σ γ) : Event ρ ι → World σ γ
  | .begin client request =>
    match w.calls client with
    | none => ⟨w.store, Function.update w.calls client (some (p.start request))⟩
    | some _ => w
  | .advance client input =>
    match w.calls client with
    | none => w
    | some call =>
      let after := p.next w.store call input
      ⟨after.1, Function.update w.calls client after.2⟩

variable {p : Protocol σ γ ρ ι} {w : World σ γ} {I P : σ → Prop} {K : σ → γ → Prop}
  {C : σ → γ → ι → Prop} {client : Nat} {input : ι}

theorem step_advance_idle (h : w.calls client = none) : p.step w (.advance client input) = w := by
  rw [Protocol.step, h]

theorem step_advance {call : γ} (h : w.calls client = some call) :
    p.step w (.advance client input) =
      ⟨(p.next w.store call input).1,
        Function.update w.calls client (p.next w.store call input).2⟩ := by
  rw [Protocol.step, h]

theorem step_begin_store (request : ρ) : (p.step w (.begin client request)).store = w.store := by
  rw [Protocol.step]
  cases w.calls client <;> rfl

/-- A call found after a client's call was replaced is the new one or was there before. -/
theorem calls_update {after : Option γ} {i : Nat} {call : γ}
    (h : Function.update w.calls client after i = some call) :
    (i = client ∧ after = some call) ∨ (i ≠ client ∧ w.calls i = some call) := by
  by_cases hi : i = client
  · rw [hi, Function.update_self] at h
    exact .inl ⟨hi, h⟩
  · rw [Function.update_of_ne hi] at h
    exact .inr ⟨hi, h⟩

/-- The store is sound, so is what every call in flight has read, and what any two of
them have read goes together. -/
structure World.Sound (I : σ → Prop) (K : σ → γ → Prop) (R : γ → γ → Prop) (w : World σ γ) : Prop where
  store : I w.store
  call : ∀ client call, w.calls client = some call → K w.store call
  apart : ∀ i j call other, i ≠ j → w.calls i = some call → w.calls j = some other → R call other

theorem World.sound_idle {R : γ → γ → Prop} {s : σ} (hs : I s) : (World.idle s).Sound I K R where
  store := hs
  call := fun _ _ h => absurd h.symm (Option.some_ne_none _)
  apart := fun _ _ _ _ _ h => absurd h.symm (Option.some_ne_none _)

/-- What every step must do for the store and the calls to stay sound: its own call,
those of the others it interferes with, and how it stands to them. -/
structure Protocol.KeepsApart (p : Protocol σ γ ρ ι) (I : σ → Prop) (K : σ → γ → Prop)
    (R : γ → γ → Prop) : Prop where
  symm : ∀ call other, R call other → R other call
  start : ∀ s request, I s → K s (p.start request)
  startApart : ∀ request other, R (p.start request) other
  store : ∀ s call input, I s → K s call → I (p.next s call input).1
  own : ∀ s call input call', I s → K s call → (p.next s call input).2 = some call' →
    K (p.next s call input).1 call'
  ownApart : ∀ s call input call' other, I s → K s call → K s other → R call other →
    (p.next s call input).2 = some call' → R call' other
  frame : ∀ s call input other, I s → K s call → K s other → R call other →
    K (p.next s call input).1 other

/-- The same where the calls need not stand in any relation. -/
structure Protocol.Keeps (p : Protocol σ γ ρ ι) (I : σ → Prop) (K : σ → γ → Prop) : Prop where
  start : ∀ s request, I s → K s (p.start request)
  store : ∀ s call input, I s → K s call → I (p.next s call input).1
  own : ∀ s call input call', I s → K s call → (p.next s call input).2 = some call' →
    K (p.next s call input).1 call'
  frame : ∀ s call input other, I s → K s call → K s other → K (p.next s call input).1 other

theorem Protocol.Keeps.apart (hp : p.Keeps I K) : p.KeepsApart I K fun _ _ => True where
  symm := fun _ _ h => h
  start := hp.start
  startApart := fun _ _ => trivial
  store := hp.store
  own := hp.own
  ownApart := fun _ _ _ _ _ _ _ _ _ _ => trivial
  frame := fun s call input other hs hcall hother _ => hp.frame s call input other hs hcall hother

variable {R : γ → γ → Prop}

/-- A client's new call fits in where its old one stood. -/
theorem World.Sound.update {s : σ} {after : Option γ} (hs : I s) (hsymm : ∀ c d, R c d → R d c)
    (hother : ∀ i call, i ≠ client → w.calls i = some call → K s call)
    (hafter : ∀ call, after = some call → K s call ∧
      ∀ i other, i ≠ client → w.calls i = some other → R call other)
    (hw : w.Sound I K R) : (World.mk s (Function.update w.calls client after)).Sound I K R where
  store := hs
  call := fun i call hi => by
    rcases calls_update hi with ⟨-, hnew⟩ | ⟨hne, hold⟩
    · exact (hafter call hnew).1
    · exact hother i call hne hold
  apart := fun i j call other hij hi hj => by
    rcases calls_update hi with ⟨rfl, hnew⟩ | ⟨hne, hold⟩ <;>
      rcases calls_update hj with ⟨rfl, hnew'⟩ | ⟨hne', hold'⟩
    · exact absurd rfl hij
    · exact (hafter call hnew).2 j other hne' hold'
    · exact hsymm _ _ ((hafter other hnew').2 i call hne hold)
    · exact hw.apart i j call other hij hold hold'

theorem Protocol.KeepsApart.step (hp : p.KeepsApart I K R) (hw : w.Sound I K R) (e : Event ρ ι) :
    (p.step w e).Sound I K R := by
  cases e with
  | begin client request =>
    cases hcall : w.calls client with
    | some call => simpa only [Protocol.step, hcall] using hw
    | none =>
      simp only [Protocol.step, hcall]
      refine .update hw.store hp.symm (fun i call _ hi => hw.call i call hi) (fun call hstart => ?_) hw
      rw [← Option.some.inj hstart]
      exact ⟨hp.start _ request hw.store, fun i other _ _ => hp.startApart request other⟩
  | advance client input =>
    cases hcall : w.calls client with
    | none => rwa [step_advance_idle hcall]
    | some call =>
      rw [step_advance hcall]
      have hown := hw.call client call hcall
      have hapart (i : Nat) (other : γ) (hne : i ≠ client) (hi : w.calls i = some other) :
          R call other := hw.apart client i call other hne.symm hcall hi
      refine .update (hp.store _ call input hw.store hown) hp.symm (fun i other hne hi => ?_)
        (fun call' hnext => ⟨?_, fun i other hne hi => ?_⟩) hw
      · exact hp.frame _ call input other hw.store hown (hw.call i other hi) (hapart i other hne hi)
      · exact hp.own _ call input call' hw.store hown hnext
      · exact hp.ownApart _ call input call' other hw.store hown (hw.call i other hi)
          (hapart i other hne hi) hnext

/-- Whether a step that is taken meets a condition on the store and the call. -/
def Allowed (C : σ → γ → ι → Prop) (w : World σ γ) : Event ρ ι → Prop
  | .begin _ _ => True
  | .advance client input => ∀ call, w.calls client = some call → C w.store call input

/-- What the allowed steps of any call preserve, every interleaving of them keeps. -/
theorem throughout_of_allowed
    (hstep : ∀ s call input, C s call input → P s → P (p.next s call input).1)
    (hstart : P w.store) {events : List (Event ρ ι)} (heach : Each p.step (Allowed C) w events) :
    Throughout p.step (fun w => P w.store) w events := by
  refine throughout_of_each (P := fun w => P w.store) (fun w e hallowed hP => ?_) hstart heach
  cases e with
  | begin client request => simpa only [step_begin_store] using hP
  | advance client input =>
    cases hcall : w.calls client with
    | none => rwa [step_advance_idle hcall]
    | some call =>
      rw [step_advance hcall]
      exact hstep w.store call input (hallowed call hcall) hP

/-- Where a condition decides what each step of a sound call does to the store, it
decides every interleaving. -/
theorem Protocol.KeepsApart.throughout_iff (hp : p.KeepsApart I K R)
    (hstep : ∀ s call input, I s → K s call → P s → (P (p.next s call input).1 ↔ C s call input))
    (hw : w.Sound I K R) (hstart : P w.store) {events : List (Event ρ ι)} :
    Throughout p.step (fun w => P w.store) w events ↔ Each p.step (Allowed C) w events := by
  have hrun : Throughout p.step (fun w => P w.store) w events ↔ _ := throughout_iff_each
    (I := fun w => w.Sound I K R) (P := fun w => P w.store) (C := Allowed C)
    (fun w e hw => hp.step hw e) (fun w e hw hP => ?_) hw
  · rw [hrun]
    exact and_iff_right hstart
  · cases e with
    | begin client request => simpa only [Allowed, step_begin_store, iff_true] using hP
    | advance client input =>
      cases hcall : w.calls client with
      | none =>
        simp only [step_advance_idle hcall, Allowed, hcall, reduceCtorEq, false_implies,
          implies_true, iff_true]
        exact hP
      | some call =>
        simp only [step_advance hcall, Allowed, hcall, Option.some.injEq, forall_eq']
        exact hstep w.store call input hw.store (hw.call client call hcall) hP

end Calls
