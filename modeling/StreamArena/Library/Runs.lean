import Mathlib.Data.List.Basic

/-! Runs of a deterministic step function: a property of every state passed, a
condition on every event in the state it meets, and the rules that lead from one
step to the whole run. -/
namespace Runs
variable {σ ε : Type*}

/-- The property holds at the start and after every event. -/
def Throughout (step : σ → ε → σ) (P : σ → Prop) (s : σ) : List ε → Prop
  | [] => P s
  | e :: events => P s ∧ Throughout step P (step s e) events

/-- Every event meets the condition in the state it arrives in. -/
def Each (step : σ → ε → σ) (C : σ → ε → Prop) (s : σ) : List ε → Prop
  | [] => True
  | e :: events => C s e ∧ Each step C (step s e) events

variable {step : σ → ε → σ} {P I : σ → Prop} {C : σ → ε → Prop} {s : σ} {events : List ε}

theorem Throughout.imp {Q : σ → Prop} (himp : ∀ s, P s → Q s) (h : Throughout step P s events) :
    Throughout step Q s events := by
  induction events generalizing s with
  | nil => exact himp s h
  | cons e events ih => exact ⟨himp s h.1, ih h.2⟩

theorem Throughout.last (h : Throughout step P s events) : P (events.foldl step s) := by
  induction events generalizing s with
  | nil => exact h
  | cons e events ih => exact ih h.2

/-- What a conditional step preserves, a run of such steps keeps throughout. -/
theorem throughout_of_each (hstep : ∀ s e, C s e → P s → P (step s e)) (hs : P s)
    (heach : Each step C s events) : Throughout step P s events := by
  induction events generalizing s with
  | nil => exact hs
  | cons e events ih => exact ⟨hs, ih (hstep s e heach.1 hs) heach.2⟩

/-- What every step preserves, every run keeps throughout. -/
theorem throughout_of_step (hstep : ∀ s e, P s → P (step s e)) (hs : P s) : Throughout step P s events := by
  induction events generalizing s with
  | nil => exact hs
  | cons e events ih => exact ⟨hs, ih (hstep s e hs)⟩

/-- So does the last state of a run of conditional steps. -/
theorem foldl_of_each (hstep : ∀ s e, C s e → P s → P (step s e)) (hs : P s)
    (heach : Each step C s events) : P (events.foldl step s) := by
  induction events generalizing s with
  | nil => exact hs
  | cons e events ih => exact ih (hstep s e heach.1 hs) heach.2

/-- What a conditional step preserves and vouches for holds of every event of such a run. -/
theorem each_imp {D : σ → ε → Prop} (hstep : ∀ s e, C s e → P s → P (step s e)) (himp : ∀ s e, C s e → P s → D s e)
    (hs : P s) (heach : Each step C s events) : Each step D s events := by
  induction events generalizing s with
  | nil => trivial
  | cons e events ih => exact ⟨himp s e heach.1 hs, ih (hstep s e heach.1 hs) heach.2⟩

/-- What a conditional step preserves vouches for every event of such a run. -/
theorem each_of_each {D : σ → ε → Prop} (hstep : ∀ s e, C s e → P s → P (step s e))
    (himp : ∀ s e, P s → D s e) (hs : P s) (heach : Each step C s events) : Each step D s events :=
  each_imp hstep (fun s e _ h => himp s e h) hs heach

theorem each_append {more : List ε} :
    Each step C s (events ++ more) ↔ Each step C s events ∧ Each step C (events.foldl step s) more := by
  induction events generalizing s with
  | nil => simp [Each]
  | cons e events ih => simp only [List.cons_append, Each, List.foldl_cons, ih, and_assoc]

/-- A condition that every event meets after those before it. -/
theorem each_of_split (h : ∀ before e after, events = before ++ e :: after → C (before.foldl step s) e) :
    Each step C s events := by
  induction events generalizing s with
  | nil => trivial
  | cons e events ih =>
    refine ⟨h [] e events rfl, ih fun before e' after heq => ?_⟩
    rw [heq] at h
    exact h (e :: before) e' after rfl

/-- Where the condition decides a step under an invariant, it decides the run. -/
theorem throughout_iff_each (hinv : ∀ s e, I s → I (step s e))
    (hstep : ∀ s e, I s → P s → (P (step s e) ↔ C s e)) (hs : I s) :
    Throughout step P s events ↔ P s ∧ Each step C s events := by
  induction events generalizing s with
  | nil => simp [Throughout, Each]
  | cons e events ih =>
    simp only [Throughout, Each, ih (hinv s e hs)]
    constructor
    · rintro ⟨hp, hnext, heach⟩
      exact ⟨hp, (hstep s e hs hp).mp hnext, heach⟩
    · rintro ⟨hp, hc, heach⟩
      exact ⟨hp, (hstep s e hs hp).mpr hc, heach⟩

end Runs
