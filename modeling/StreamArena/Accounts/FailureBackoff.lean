import Mathlib
import StreamArena.Library.AsciiText
import StreamArena.Library.KeyedTable

/-! The cooldown of an identity after failed sign-ins (src/src/rate_limit.rs). -/
namespace StreamArena.Accounts
open AsciiText KeyedTable

structure FailureEntry where
  failures : Nat
  retryAtMs : Int
  lastFailureMs : Int

structure FailureBackoff where
  baseDelayMs : Int
  maxDelayMs : Int
  retentionMs : Int
  failures : Table Text FailureEntry
  base_pos : 0 < baseDelayMs
  base_le_max : baseDelayMs ≤ maxDelayMs
  retention_pos : 0 < retentionMs

inductive FailureCall where
  | recordFailure (key : Text) (now : Int)
  | recordSuccess (key : Text)
  | prune (now : Int)

/-- The reading of the clock; a success takes none. -/
def FailureCall.time : FailureCall → Option Int
  | .recordFailure _ now => some now
  | .recordSuccess _ => none
  | .prune now => some now

/-- The failures of a key since it last succeeded, the newest first. -/
def FailureCall.addTo (key : Text) (times : List Int) : FailureCall → List Int
  | .recordFailure failed now => if key = failed then now :: times else times
  | .recordSuccess succeeded => if key = succeeded then [] else times
  | .prune _ => times

def failedSince (calls : List FailureCall) (key : Text) : List Int := calls.foldl (FailureCall.addTo key) []

/-- How many of the failures, from the newest back, came each near enough to the one before. -/
def streak (near : Int → Bool) : List Int → Nat
  | [] => 0
  | [_] => 1
  | last :: before :: rest => if near (last - before) then streak near (before :: rest) + 1 else 1

namespace FailureBackoff

theorem max_one_pos (n : Int) : 0 < max n 1 := by omega

def new (baseDelayMs maxDelayMs retentionMs : Int) : FailureBackoff where
  baseDelayMs := max baseDelayMs 1
  maxDelayMs := max maxDelayMs (max baseDelayMs 1)
  retentionMs := max retentionMs 1
  failures := .empty
  base_pos := max_one_pos baseDelayMs
  base_le_max := le_max_right maxDelayMs (max baseDelayMs 1)
  retention_pos := max_one_pos retentionMs

def retryAfterMs (b : FailureBackoff) (key : Text) (now : Int) : Int :=
  ((b.failures.get key).map fun entry => max (entry.retryAtMs - now) 0).getD 0

/-- The delay after so many failures. A product that saturates is over the cap as well; the clock is far from its last
value. -/
def delay (b : FailureBackoff) (failures : Nat) : Int := min (b.baseDelayMs * 2 ^ (failures - 1)) b.maxDelayMs

/-- The failures counted with the one at hand. -/
def count (b : FailureBackoff) (previous : Option FailureEntry) (now : Int) : Nat :=
  min (((previous.filter fun entry => decide (now - entry.lastFailureMs ≤ b.retentionMs)).map
    fun entry => entry.failures + 1).getD 1) 31

def recordFailure (b : FailureBackoff) (key : Text) (now : Int) : Int × FailureBackoff :=
  let failures := b.count (b.failures.get key) now
  let delay := b.delay failures
  let entry : FailureEntry := ⟨failures, now + delay, now⟩
  (delay, { b with failures := b.failures.upsert key entry fun _ => entry })

def recordSuccess (b : FailureBackoff) (key : Text) : FailureBackoff :=
  { b with failures := b.failures.deleteWhere fun other _ => decide (other = key) }

def prune (b : FailureBackoff) (now : Int) : FailureBackoff :=
  let cutoff := now - b.retentionMs
  { b with failures := b.failures.deleteWhere fun _ entry => !decide (entry.lastFailureMs > cutoff) }

def step (b : FailureBackoff) : FailureCall → FailureBackoff
  | .recordFailure key now => (b.recordFailure key now).2
  | .recordSuccess key => b.recordSuccess key
  | .prune now => b.prune now

variable {b : FailureBackoff} {key : Text} {now : Int}

@[simp] theorem retentionMs_step (call : FailureCall) : (b.step call).retentionMs = b.retentionMs := by
  cases call with
  | recordFailure _ _ => rfl
  | recordSuccess _ => rfl
  | prune _ => rfl

@[simp] theorem delay_step (call : FailureCall) (failures : Nat) : (b.step call).delay failures = b.delay failures := by
  cases call with
  | recordFailure _ _ => rfl
  | recordSuccess _ => rfl
  | prune _ => rfl

theorem get_recordFailure (other : Text) : (b.recordFailure key now).2.failures.get other =
    if other = key then
      some ⟨b.count (b.failures.get key) now, now + b.delay (b.count (b.failures.get key) now), now⟩
    else b.failures.get other := by
  rw [recordFailure]
  dsimp only
  rw [get_upsert]
  split
  · cases b.failures.get key with
    | none => rfl
    | some _ => rfl
  · rfl

theorem get_recordSuccess (other : Text) :
    (b.recordSuccess key).failures.get other = if other = key then none else b.failures.get other := by
  rw [recordSuccess, get_deleteWhere]
  split
  · next heq => cases b.failures.get other <;> simp [heq]
  · next hne => cases b.failures.get other <;> simp [hne]

theorem get_prune (other : Text) : (b.prune now).failures.get other =
    (b.failures.get other).filter fun entry => decide (now - b.retentionMs < entry.lastFailureMs) := by
  rw [prune]
  dsimp only
  rw [get_deleteWhere]
  simp only [Bool.not_not, gt_iff_lt]

/-- The first delay is the base, and each further one twice the one before, up to the cap. -/
theorem delay_one (b : FailureBackoff) : b.delay 1 = b.baseDelayMs := by
  rw [delay, Nat.sub_self, pow_zero, mul_one]
  exact min_eq_left b.base_le_max

theorem delay_succ (b : FailureBackoff) {failures : Nat} (hpos : 0 < failures) :
    b.delay (failures + 1) = min (2 * b.delay failures) b.maxDelayMs := by
  have hmax : b.maxDelayMs ≤ 2 * b.maxDelayMs := by
    have := b.base_pos
    have := b.base_le_max
    omega
  have hpow : (2 : Int) ^ (failures + 1 - 1) = 2 * 2 ^ (failures - 1) := by
    rw [← pow_succ', Nat.add_sub_cancel, Nat.sub_add_cancel hpos]
  rw [delay, delay, hpow]
  calc min (b.baseDelayMs * (2 * 2 ^ (failures - 1))) b.maxDelayMs
      = min (2 * (b.baseDelayMs * 2 ^ (failures - 1))) b.maxDelayMs := by rw [mul_left_comm]
    _ = min (2 * min (b.baseDelayMs * 2 ^ (failures - 1)) b.maxDelayMs) b.maxDelayMs := by omega

theorem delay_le_max (b : FailureBackoff) (failures : Nat) : b.delay failures ≤ b.maxDelayMs := min_le_right _ _

theorem streak_pos (near : Int → Bool) (last : Int) (rest : List Int) : 0 < streak near (last :: rest) := by
  cases rest with
  | nil => exact Nat.one_pos
  | cons before rest =>
    rw [streak]
    split
    · exact Nat.succ_pos _
    · exact Nat.one_pos

theorem streak_cons_le (near : Int → Bool) (last : Int) (times : List Int) :
    streak near (last :: times) ≤ streak near times + 1 := by
  cases times with
  | nil => exact Nat.le_refl 1
  | cons before rest =>
    rw [streak]
    split
    · exact Nat.le_refl _
    · exact Nat.le_add_left 1 _

/-- An entry counts the failures that came near to each other. At a distance of the whole retention a prune decides. -/
structure Counts (b : FailureBackoff) (times : List Int) (entry : FailureEntry) : Prop where
  last : times.head? = some entry.lastFailureMs
  retry : entry.retryAtMs = entry.lastFailureMs + b.delay entry.failures
  atLeast : min (streak (fun gap => decide (gap < b.retentionMs)) times) 31 ≤ entry.failures
  atMost : entry.failures ≤ min (streak (fun gap => decide (gap ≤ b.retentionMs)) times) 31

/-- The entry of a key, or none once no time to come is within the retention of its last failure. -/
def Follows (b : FailureBackoff) (times : List Int) (coming : List Int) : Option FailureEntry → Prop
  | some entry => b.Counts times entry
  | none => ∀ last ∈ times.head?, ∀ time ∈ coming, last + b.retentionMs ≤ time

theorem Follows.coming {times coming less : List Int} {entry : Option FailureEntry}
    (h : b.Follows times coming entry) (hless : ∀ time ∈ less, time ∈ coming) : b.Follows times less entry := by
  cases entry with
  | none => exact fun last hlast time htime => h last hlast time (hless time htime)
  | some entry => exact h

/-- No call changes the delays or the retention. -/
theorem Follows.kept {times coming : List Int} {entry : Option FailureEntry} (call : FailureCall)
    (h : b.Follows times coming entry) : (b.step call).Follows times coming entry := by
  cases entry with
  | none =>
    intro last hlast time htime
    rw [retentionMs_step]
    exact h last hlast time htime
  | some entry =>
    refine ⟨h.last, ?_, ?_, ?_⟩
    · rw [delay_step]
      exact h.retry
    · rw [retentionMs_step]
      exact h.atLeast
    · rw [retentionMs_step]
      exact h.atMost

theorem streak_far (near : Int → Bool) (last : Int) {times : List Int}
    (hfar : ∀ before ∈ times.head?, near (last - before) = false) : streak near (last :: times) = 1 := by
  cases times with
  | nil => rfl
  | cons before rest =>
    rw [streak, hfar before rfl]
    rfl

theorem streak_near (near : Int → Bool) (last : Int) {before : Int} {times : List Int} (hhead : times.head? = some before)
    (hnear : near (last - before) = true) : streak near (last :: times) = streak near times + 1 := by
  cases times with
  | nil => cases hhead
  | cons _ rest =>
    obtain rfl := Option.some.inj hhead
    rw [streak, if_pos hnear]

/-- A failure is counted with those before it. -/
theorem Follows.counts {times coming : List Int} {previous : Option FailureEntry}
    (h : b.Follows times (now :: coming) previous) :
    b.Counts (now :: times) ⟨b.count previous now, now + b.delay (b.count previous now), now⟩ := by
  have hpos := streak_pos (fun gap => decide (gap ≤ b.retentionMs)) now times
  cases previous with
  | none =>
    have hone : b.count none now = 1 := rfl
    refine ⟨rfl, rfl, ?_, ?_⟩
    · have hfar := streak_far (fun gap => decide (gap < b.retentionMs)) now fun before hbefore => by
        have := h before hbefore now List.mem_cons_self
        rw [decide_eq_false_iff_not]
        omega
      dsimp only
      omega
    · dsimp only
      omega
  | some entry =>
    by_cases hnear : now - entry.lastFailureMs ≤ b.retentionMs
    · have hcount : b.count (some entry) now = min (entry.failures + 1) 31 := by
        rw [count, Option.filter_some, if_pos (decide_eq_true hnear)]
        rfl
      have hle := streak_cons_le (fun gap => decide (gap < b.retentionMs)) now times
      have heq := streak_near (fun gap => decide (gap ≤ b.retentionMs)) now h.last (decide_eq_true hnear)
      have hatLeast := h.atLeast
      have hatMost := h.atMost
      refine ⟨rfl, rfl, ?_, ?_⟩
      · dsimp only
        omega
      · dsimp only
        omega
    · have hone : b.count (some entry) now = 1 := by
        rw [count, Option.filter_some, if_neg (by rwa [decide_eq_true_iff])]
        rfl
      refine ⟨rfl, rfl, ?_, ?_⟩
      · have hfar := streak_far (fun gap => decide (gap < b.retentionMs)) now fun before hbefore => by
          obtain rfl := Option.some.inj (h.last.symm.trans hbefore)
          rw [decide_eq_false_iff_not]
          omega
        dsimp only
        omega
      · dsimp only
        omega

/-- One call: the times of its key change with its entry, and a prune drops what is past the retention. -/
theorem Follows.step {times : List Int} {coming : List Int} (call : FailureCall)
    (hcoming : ∀ time ∈ call.time, ∀ later ∈ coming, time ≤ later)
    (h : b.Follows times (call.time.toList ++ coming) (b.failures.get key)) :
    (b.step call).Follows (call.addTo key times) coming ((b.step call).failures.get key) := by
  have hkept : b.Follows times coming (b.failures.get key) := h.coming fun time htime => List.mem_append_right _ htime
  refine Follows.kept call ?_
  cases call with
  | recordFailure failed now =>
    rw [FailureBackoff.step, get_recordFailure, FailureCall.addTo]
    split
    · next heq =>
      subst heq
      exact h.counts
    · exact hkept
  | recordSuccess succeeded =>
    rw [FailureBackoff.step, get_recordSuccess, FailureCall.addTo]
    split
    · intro last hlast
      cases hlast
    · exact hkept
  | prune now =>
    rw [FailureBackoff.step, get_prune, FailureCall.addTo]
    cases hentry : b.failures.get key with
    | none =>
      rw [hentry] at hkept
      exact hkept
    | some entry =>
      rw [hentry] at hkept
      rw [Option.filter_some]
      split
      · exact hkept
      · next hpast =>
        rw [decide_eq_true_iff] at hpast
        intro last hlast later hlater
        obtain rfl := Option.some.inj (hkept.last.symm.trans hlast)
        have := hcoming now rfl later hlater
        change entry.lastFailureMs + b.retentionMs ≤ later
        omega

/-- The calls one after the other, with what is still to come. -/
theorem Follows.run {times : List Int} {now : Int} (calls : List FailureCall)
    (hsorted : (calls.filterMap FailureCall.time ++ [now]).Pairwise (· ≤ ·))
    (h : b.Follows times (calls.filterMap FailureCall.time ++ [now]) (b.failures.get key)) :
    (calls.foldl FailureBackoff.step b).Follows (calls.foldl (FailureCall.addTo key) times) [now]
      ((calls.foldl FailureBackoff.step b).failures.get key) := by
  induction calls generalizing b times with
  | nil => exact h
  | cons call calls ih =>
    have hsplit : (call :: calls).filterMap FailureCall.time ++ [now] =
        call.time.toList ++ (calls.filterMap FailureCall.time ++ [now]) := by
      cases htime : call.time with
      | none => rw [List.filterMap_cons_none htime]; rfl
      | some time => rw [List.filterMap_cons_some htime]; rfl
    rw [hsplit] at hsorted h
    obtain ⟨-, hrest, hbefore⟩ := List.pairwise_append.mp hsorted
    refine ih hrest (h.step call fun time htime later hlater => ?_)
    exact hbefore time (Option.mem_toList.mpr htime) later hlater

/-- When the next attempt is let in, told by the failures since the last success. -/
structure CoolsDown (b : FailureBackoff) (times : Text → List Int) (now : Int) : Prop where
  fresh : ∀ key, times key = [] → b.retryAfterMs key now = 0
  cooling : ∀ key, ∀ last ∈ (times key).head?, now < last + b.retentionMs → ∃ failures,
    min (streak (fun gap => decide (gap < b.retentionMs)) (times key)) 31 ≤ failures ∧
      failures ≤ min (streak (fun gap => decide (gap ≤ b.retentionMs)) (times key)) 31 ∧
        b.retryAfterMs key now = max (last + b.delay failures - now) 0
  past : b.maxDelayMs ≤ b.retentionMs → ∀ key, ∀ last ∈ (times key).head?, last + b.retentionMs ≤ now →
    b.retryAfterMs key now = 0

theorem coolsDown_of_follows {times : Text → List Int}
    (h : ∀ key, b.Follows (times key) [now] (b.failures.get key)) : b.CoolsDown times now := by
  have hretry (key : Text) {entry : FailureEntry} (hentry : b.failures.get key = some entry)
      (hcounts : b.Counts (times key) entry) :
      b.retryAfterMs key now = max (entry.lastFailureMs + b.delay entry.failures - now) 0 := by
    rw [retryAfterMs, hentry, ← hcounts.retry]
    rfl
  have hgone (key : Text) (hentry : b.failures.get key = none) : b.retryAfterMs key now = 0 := by
    rw [retryAfterMs, hentry]
    rfl
  refine ⟨fun key hnil => ?_, fun key last hlast hnear => ?_, fun hmax key last hlast hfar => ?_⟩
  · have hkey := h key
    cases hentry : b.failures.get key with
    | none => exact hgone key hentry
    | some entry =>
      rw [hentry] at hkey
      have hlast := hkey.last
      rw [hnil] at hlast
      cases hlast
  · have hkey := h key
    cases hentry : b.failures.get key with
    | none =>
      rw [hentry] at hkey
      have := hkey last hlast now (List.mem_singleton.mpr rfl)
      omega
    | some entry =>
      rw [hentry] at hkey
      obtain rfl := Option.some.inj (hkey.last.symm.trans hlast)
      exact ⟨entry.failures, hkey.atLeast, hkey.atMost, hretry key hentry hkey⟩
  · have hkey := h key
    cases hentry : b.failures.get key with
    | none => exact hgone key hentry
    | some entry =>
      rw [hentry] at hkey
      obtain rfl := Option.some.inj (hkey.last.symm.trans hlast)
      have hdelay := b.delay_le_max entry.failures
      rw [hretry key hentry hkey]
      omega

/-- Whatever other keys do and however often is pruned, within the retention of a key's last failure its next attempt waits
for the delay of the failures counted, which is twice as long with each one that came near to the one before. -/
theorem cooldown_run (baseDelayMs maxDelayMs retentionMs : Int) (calls : List FailureCall) (now : Int)
    (hsorted : (calls.filterMap FailureCall.time ++ [now]).Pairwise (· ≤ ·)) :
    (calls.foldl step (new baseDelayMs maxDelayMs retentionMs)).CoolsDown (failedSince calls) now := by
  refine coolsDown_of_follows fun key => Follows.run calls hsorted fun last hlast => ?_
  cases hlast

/-- Three failures of one key and a prune, with the delays that the login route is built with. -/
def threeFailures : List FailureCall :=
  [.recordFailure ['a'] 10000, .recordFailure ['a'] 10250, .prune 10300, .recordFailure ['a'] 10750]

theorem cooldown_run_three :
    ((threeFailures.foldl step (new 250 30000 1800000)).CoolsDown (failedSince threeFailures) 10800) :=
  cooldown_run 250 30000 1800000 threeFailures 10800 (by decide)

end FailureBackoff
end StreamArena.Accounts
