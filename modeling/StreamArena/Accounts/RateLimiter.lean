import Mathlib
import StreamArena.Library.AsciiText
import StreamArena.Library.KeyedTable
import StreamArena.Library.SlidingWindow

/-! The in-memory rate limiter of the login and signup routes (src/src/rate_limit.rs). -/
namespace StreamArena.Accounts
open AsciiText KeyedTable SlidingWindow

structure RateLimiter where
  windowMs : Int
  maxHits : Nat
  hits : Table Text (List Int)
  window_pos : 0 < windowMs
  hits_pos : 0 < maxHits

inductive RateCall where
  | checkAndRecord (key : Text) (now : Int)
  | prune (now : Int)
  deriving DecidableEq

def RateCall.time : RateCall → Int
  | .checkAndRecord _ now => now
  | .prune now => now

/-- The request that a call makes. -/
def RateCall.request : RateCall → Option (Request Text)
  | .checkAndRecord key now => some ⟨key, now⟩
  | .prune _ => none

namespace RateLimiter

def new (maxHits : Nat) (windowMs : Int) : RateLimiter where
  windowMs := max windowMs 1
  maxHits := max maxHits 1
  hits := .empty
  window_pos := by omega
  hits_pos := by omega

def budget (l : RateLimiter) : Budget := ⟨l.maxHits, l.windowMs⟩

/-- The timestamps kept for a key. -/
def entry (l : RateLimiter) (key : Text) : List Int := (l.hits.get key).getD []

def setEntry (l : RateLimiter) (key : Text) (timestamps : List Int) : RateLimiter :=
  { l with hits := l.hits.upsert key timestamps fun _ => timestamps }

def checkAndRecord (l : RateLimiter) (key : Text) (now : Int) : Bool × RateLimiter :=
  let cutoff := now - l.windowMs
  let entry := (l.entry key).filter fun timestamp => decide (timestamp > cutoff)
  if entry.length ≥ l.maxHits then (false, l.setEntry key entry)
  else (true, l.setEntry key (entry ++ [now]))

def prune (l : RateLimiter) (now : Int) : RateLimiter :=
  let cutoff := now - l.windowMs
  { l with
    hits := (l.hits.updateWhere (fun _ _ => true) fun timestamps =>
      timestamps.filter fun timestamp => decide (timestamp > cutoff)).deleteWhere
        fun _ timestamps => timestamps.isEmpty }

/-- The answers to a sequence of calls. -/
def answers (l : RateLimiter) : List RateCall → List (Decision Text)
  | [] => []
  | .checkAndRecord key now :: calls =>
    ⟨key, now, (l.checkAndRecord key now).1⟩ :: (l.checkAndRecord key now).2.answers calls
  | .prune now :: calls => (l.prune now).answers calls

/-- The accepted calls of a key whose times lie in a set. -/
def acceptedIn (log : List (Decision Text)) (key : Text) (p : Int → Bool) : Nat :=
  ((acceptedTimes key log).filter p).length

variable {l : RateLimiter} {key : Text} {now : Int}

@[simp] theorem budget_setEntry (timestamps : List Int) : (l.setEntry key timestamps).budget = l.budget := rfl

@[simp] theorem budget_prune : (l.prune now).budget = l.budget := rfl

@[simp] theorem entry_new (maxHits : Nat) (windowMs : Int) : (new maxHits windowMs).entry key = [] := rfl

theorem entry_setEntry (timestamps : List Int) (k : Text) :
    (l.setEntry key timestamps).entry k = Function.update l.entry key timestamps k := by
  rw [entry, setEntry, get_upsert, Function.update_apply]
  split
  · cases l.hits.get key <;> rfl
  · rfl

theorem entry_prune (k : Text) : (l.prune now).entry k = after (now - l.windowMs) (l.entry k) := by
  rw [entry, entry, prune]
  dsimp only
  rw [get_deleteWhere, get_updateWhere]
  cases l.hits.get k with
  | none => rfl
  | some timestamps =>
    change (Option.filter _ (some (after (now - l.windowMs) timestamps))).getD [] = after (now - l.windowMs) timestamps
    cases h : after (now - l.windowMs) timestamps with
    | nil => rfl
    | cons t rest => rfl

/-- From a time on, the timestamps kept decide as all the accepted ones would. -/
def Keeps (l : RateLimiter) (taken : Text → List Int) (from_ : Int) : Prop :=
  ∀ key cutoff, from_ - l.windowMs ≤ cutoff → after cutoff (l.entry key) = after cutoff (taken key)

theorem keeps_new (maxHits : Nat) (windowMs from_ : Int) : (new maxHits windowMs).Keeps (fun _ => []) from_ :=
  fun _ _ _ => rfl

theorem Keeps.prune {taken : Text → List Int} {from_ : Int} (h : l.Keeps taken from_) (hle : from_ ≤ now) :
    (l.prune now).Keeps taken now := fun key cutoff hcutoff => by
  have hcutoff : now - l.windowMs ≤ cutoff := hcutoff
  rw [entry_prune, after_after hcutoff]
  exact h key cutoff (by omega)

/-- Storing what is left of an entry, with or without the new timestamp. -/
theorem Keeps.setEntry {taken : Text → List Int} {from_ : Int} (h : l.Keeps taken from_) (hle : from_ ≤ now)
    (key : Text) (more : List Int) :
    (l.setEntry key (after (now - l.windowMs) (l.entry key) ++ more)).Keeps
      (Function.update taken key (taken key ++ more)) now := fun k cutoff hcutoff => by
  have hcutoff : now - l.windowMs ≤ cutoff := hcutoff
  rw [entry_setEntry, Function.update_apply, Function.update_apply]
  split
  next =>
    rw [after_append, after_append, after_after hcutoff, h key cutoff (by omega)]
  next => exact h k cutoff (by omega)

/-- The limiter decides as the budget says on all that it has accepted. -/
theorem answers_eq_decisions (calls : List RateCall) (l : RateLimiter) (taken : Text → List Int) (from_ : Int)
    (hkeeps : l.Keeps taken from_) (hfrom : ∀ call ∈ calls, from_ ≤ call.time)
    (hsorted : calls.Pairwise fun a b => a.time ≤ b.time) :
    l.answers calls = decisions l.budget taken (calls.filterMap RateCall.request) := by
  induction calls generalizing l taken from_ with
  | nil => rfl
  | cons call calls ih =>
    rw [List.pairwise_cons] at hsorted
    have hle := hfrom call List.mem_cons_self
    cases call with
    | prune now =>
      rw [answers, List.filterMap_cons_none rfl]
      exact ih (l.prune now) taken now (hkeeps.prune hle) hsorted.1 hsorted.2
    | checkAndRecord key now =>
      have hentry := hkeeps key (now - l.windowMs) (by simp only [RateCall.time] at hle; omega)
      have hcheck : l.checkAndRecord key now =
          if l.maxHits ≤ (after (now - l.windowMs) (taken key)).length then
            (false, l.setEntry key (after (now - l.windowMs) (l.entry key) ++ []))
          else (true, l.setEntry key (after (now - l.windowMs) (l.entry key) ++ [now])) := by
        rw [← hentry, List.append_nil]
        rfl
      have hrequest : RateCall.request (.checkAndRecord key now) = some ⟨key, now⟩ := rfl
      rw [answers, List.filterMap_cons_some hrequest, decisions, hcheck]
      change _ = if l.maxHits ≤ (after (now - l.windowMs) (taken key)).length then _ else _
      split
      next =>
        have hnext := hkeeps.setEntry hle key []
        rw [List.append_nil (taken key), Function.update_eq_self] at hnext
        exact congrArg _ (ih _ taken now hnext hsorted.1 hsorted.2)
      next => exact congrArg _ (ih _ _ now (hkeeps.setEntry hle key [now]) hsorted.1 hsorted.2)

theorem answers_new (maxHits : Nat) (windowMs : Int) (calls : List RateCall)
    (hsorted : calls.Pairwise fun a b => a.time ≤ b.time) :
    (new maxHits windowMs).answers calls =
      decisions (new maxHits windowMs).budget (fun _ => []) (calls.filterMap RateCall.request) := by
  cases calls with
  | nil => rfl
  | cons call calls =>
    refine answers_eq_decisions _ _ _ call.time (keeps_new maxHits windowMs call.time) (fun other hother => ?_) hsorted
    obtain rfl | hother := List.mem_cons.mp hother
    · exact le_refl _
    · exact (List.pairwise_cons.mp hsorted).1 other hother

theorem pairwise_requests {calls : List RateCall} (hsorted : calls.Pairwise fun a b => a.time ≤ b.time) :
    (calls.filterMap RateCall.request).Pairwise fun r s => r.time ≤ s.time := by
  refine List.Pairwise.filterMap _ (fun a b hle r hr s hs => ?_) hsorted
  cases a with
  | prune _ => cases hr
  | checkAndRecord _ _ =>
    cases b with
    | prune _ => cases hs
    | checkAndRecord _ _ =>
      rw [← Option.some.inj hr, ← Option.some.inj hs]
      exact hle

/-- No half-open window has more accepted calls of a key than the limit, a call is rejected only
when the window that ends at it is full, and prunes do not change an answer. -/
theorem sliding_window (maxHits : Nat) (windowMs : Int) (calls : List RateCall)
    (hsorted : calls.Pairwise fun a b => a.time ≤ b.time) :
    let l := new maxHits windowMs
    let log := l.answers calls
    (∀ key start,
      acceptedIn log key (fun t => decide (start ≤ t) && decide (t < start + l.windowMs)) ≤ l.maxHits ∧
        acceptedIn log key (fun t => decide (start < t) && decide (t ≤ start + l.windowMs)) ≤ l.maxHits) ∧
      (∀ answer ∈ log, answer.accepted = false →
        acceptedIn log answer.key (fun t => decide (answer.time - l.windowMs < t) && decide (t ≤ answer.time)) =
          l.maxHits) ∧
      ∀ other : List RateCall, other.Pairwise (fun a b => a.time ≤ b.time) →
        other.filterMap RateCall.request = calls.filterMap RateCall.request → l.answers other = log := by
  intro l log
  have hlog : log = decisions l.budget (fun _ => []) (calls.filterMap RateCall.request) :=
    answers_new maxHits windowMs calls hsorted
  have hbound (key : Text) {p : Int → Bool} (hp : Narrow l.budget p) : acceptedIn log key p ≤ l.maxHits := by
    rw [acceptedIn, hlog]
    exact length_filter_accepted_le hp _ (fun _ => []) key (Nat.zero_le _)
  refine ⟨fun key start => ⟨hbound key (narrow_ico l.budget start), hbound key (narrow_ioc l.budget start)⟩, ?_, ?_⟩
  · intro answer hanswer hrejected
    refine Nat.le_antisymm (hbound _ ?_) ?_
    · have hnarrow := narrow_ioc l.budget (answer.time - l.windowMs)
      rwa [show answer.time - l.windowMs + l.budget.window = answer.time from Int.sub_add_cancel ..] at hnarrow
    · rw [acceptedIn]
      rw [hlog] at hanswer ⊢
      exact full_of_rejected _ (fun _ => []) (pairwise_requests hsorted) (fun _ _ ht => by cases ht) hanswer hrejected
  · intro other hother hsame
    rw [hlog, ← hsame]
    exact answers_new maxHits windowMs other hother

/-- Two calls in a window of ten with a prune after them; the third finds it full. -/
def threeCalls : List RateCall :=
  [.checkAndRecord ['a'] 0, .checkAndRecord ['a'] 5, .prune 6, .checkAndRecord ['a'] 9]

theorem sliding_window_full :
    acceptedIn ((new 2 10).answers threeCalls) ['a'] (fun t => decide (9 - 10 < t) && decide (t ≤ 9)) = 2 :=
  (sliding_window 2 10 threeCalls (by decide)).2.1 ⟨['a'], 9, false⟩ (by decide +kernel) rfl

end RateLimiter
end StreamArena.Accounts
