import Mathlib

/-! Budgets over a sliding window: a request is accepted while fewer than so many accepted ones of
its key lie in the window that ends at it. -/
namespace SlidingWindow
variable {κ : Type*} [DecidableEq κ]

structure Budget where
  hits : Nat
  window : Int

structure Request (κ : Type*) where
  key : κ
  time : Int
  deriving DecidableEq

structure Decision (κ : Type*) where
  key : κ
  time : Int
  accepted : Bool
  deriving DecidableEq

/-- The times later than a cutoff. -/
def after (cutoff : Int) (times : List Int) : List Int := times.filter fun t => decide (cutoff < t)

theorem after_after {c d : Int} (h : c ≤ d) (times : List Int) : after d (after c times) = after d times := by
  rw [after, after, List.filter_filter]
  refine List.filter_congr fun t _ => ?_
  by_cases hd : d < t
  · have hc : c < t := by omega
    simp [hd, hc]
  · simp [hd]

theorem after_append (c : Int) (times more : List Int) : after c (times ++ more) = after c times ++ after c more :=
  List.filter_append ..

/-- The decisions on requests, from the times accepted before them. -/
def decisions (b : Budget) (taken : κ → List Int) : List (Request κ) → List (Decision κ)
  | [] => []
  | r :: requests =>
    if b.hits ≤ (after (r.time - b.window) (taken r.key)).length then
      ⟨r.key, r.time, false⟩ :: decisions b taken requests
    else
      ⟨r.key, r.time, true⟩ ::
        decisions b (Function.update taken r.key (taken r.key ++ [r.time])) requests

def acceptedTimes (key : κ) (log : List (Decision κ)) : List Int :=
  (log.filter fun d => decide (d.key = key) && d.accepted).map Decision.time

theorem acceptedTimes_cons_rejected (key k : κ) (t : Int) (log : List (Decision κ)) :
    acceptedTimes key (⟨k, t, false⟩ :: log) = acceptedTimes key log := by
  simp [acceptedTimes]

/-- What is taken and what is accepted later, whichever of the two an accepted request is counted to. -/
theorem taken_append_accepted (taken : κ → List Int) (key k : κ) (t : Int) (log : List (Decision κ)) :
    taken key ++ acceptedTimes key (⟨k, t, true⟩ :: log) =
      Function.update taken k (taken k ++ [t]) key ++ acceptedTimes key log := by
  by_cases h : k = key
  · subst h
    simp [acceptedTimes]
  · rw [Function.update_of_ne (Ne.symm h)]
    simp [acceptedTimes, h]

/-- A set of times no two of which are a window apart. -/
def Narrow (b : Budget) (p : Int → Bool) : Prop := ∀ t u, p t = true → p u = true → t - b.window < u

theorem narrow_ico (b : Budget) (start : Int) :
    Narrow b fun t => decide (start ≤ t) && decide (t < start + b.window) := fun t u ht hu => by
  simp only [Bool.and_eq_true, decide_eq_true_eq] at ht hu
  omega

theorem narrow_ioc (b : Budget) (start : Int) :
    Narrow b fun t => decide (start < t) && decide (t ≤ start + b.window) := fun t u ht hu => by
  simp only [Bool.and_eq_true, decide_eq_true_eq] at ht hu
  omega

variable {b : Budget} {p : Int → Bool}

/-- A request that is accepted leaves room in every narrow set it lies in. -/
theorem length_filter_append_le (hp : Narrow b p) {times : List Int} {now : Int}
    (hroom : (after (now - b.window) times).length < b.hits) (hle : (times.filter p).length ≤ b.hits) :
    ((times ++ [now]).filter p).length ≤ b.hits := by
  rw [List.filter_append, List.length_append]
  cases hnow : p now with
  | false => simpa [hnow] using hle
  | true =>
    have hsub : (times.filter p).length ≤ (after (now - b.window) times).length := by
      rw [after]
      refine (List.monotone_filter_right times fun t ht => ?_).length_le
      exact decide_eq_true (hp now t hnow ht)
    have hone : ([now].filter p).length = 1 := by simp [hnow]
    omega

/-- No narrow set has more accepted requests of a key than the budget. -/
theorem length_filter_accepted_le (hp : Narrow b p) (requests : List (Request κ)) (taken : κ → List Int) (key : κ)
    (hle : ((taken key).filter p).length ≤ b.hits) :
    ((taken key ++ acceptedTimes key (decisions b taken requests)).filter p).length ≤ b.hits := by
  induction requests generalizing taken with
  | nil => simpa [decisions, acceptedTimes] using hle
  | cons r requests ih =>
    rw [decisions]
    split
    next =>
      rw [acceptedTimes_cons_rejected]
      exact ih taken hle
    next hroom =>
      rw [taken_append_accepted]
      apply ih
      by_cases h : key = r.key
      · subst h
        rw [Function.update_self]
        exact length_filter_append_le hp (by omega) hle
      · rwa [Function.update_of_ne h]

/-- A request that is rejected has the budget's number of accepted ones in the window before it. -/
theorem full_of_rejected (requests : List (Request κ)) (taken : κ → List Int)
    (hsorted : requests.Pairwise fun r s => r.time ≤ s.time)
    (htaken : ∀ key, ∀ t ∈ taken key, ∀ r ∈ requests, t ≤ r.time) {d : Decision κ}
    (hd : d ∈ decisions b taken requests) (hrejected : d.accepted = false) :
    b.hits ≤ ((taken d.key ++ acceptedTimes d.key (decisions b taken requests)).filter fun t =>
      decide (d.time - b.window < t) && decide (t ≤ d.time)).length := by
  induction requests generalizing taken with
  | nil => cases hd
  | cons r requests ih =>
    rw [List.pairwise_cons] at hsorted
    have hlater (key : κ) (t : Int) (ht : t ∈ taken key) (s : Request κ) (hs : s ∈ requests) : t ≤ s.time :=
      htaken key t ht s (List.mem_cons_of_mem r hs)
    rw [decisions] at hd ⊢
    split at hd
    next hfull =>
      rw [if_pos hfull, acceptedTimes_cons_rejected]
      obtain rfl | hd := List.mem_cons.mp hd
      · have hpast : (taken r.key).filter (fun t => decide (r.time - b.window < t) && decide (t ≤ r.time)) =
            after (r.time - b.window) (taken r.key) := by
          refine List.filter_congr fun t ht => ?_
          have hle := htaken r.key t ht r List.mem_cons_self
          simp [hle]
        rw [List.filter_append, List.length_append, hpast]
        omega
      · exact ih taken hsorted.2 hlater hd
    next hroom =>
      rw [if_neg hroom, taken_append_accepted]
      obtain rfl | hd := List.mem_cons.mp hd
      · cases hrejected
      · refine ih _ hsorted.2 (fun key t ht s hs => ?_) hd
        by_cases h : key = r.key
        · subst h
          rw [Function.update_self] at ht
          obtain ht | ht := List.mem_append.mp ht
          · exact hlater r.key t ht s hs
          · rw [List.mem_singleton.mp ht]
            exact hsorted.1 s hs
        · rw [Function.update_of_ne h] at ht
          exact hlater key t ht s hs

end SlidingWindow
