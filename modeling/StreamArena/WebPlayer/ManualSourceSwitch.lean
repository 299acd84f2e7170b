import Mathlib.Algebra.Order.Floor.Ring
import Mathlib.Data.Rat.Floor
import StreamArena.Library.Runs
import StreamArena.LiveHls.Worker

/-! The controller of a manual change of the playback source in the web player
(src/src-ui/player/manual-source-switch.js). -/
namespace StreamArena.WebPlayer.ManualSourceSwitch
open AsciiText Runs LiveHls.Worker

structure Progress where
  readyState : Rat
  bufferedEnd : Rat
  currentTime : Rat
  deriving DecidableEq

/-- What a look at the media gives: numbers, where they are finite, or an error. -/
abbrev Captured := Option (Option Rat × Option Rat × Option Rat)

def normalizeProgress (value : Captured) : Progress :=
  match value with
  | none => ⟨0, 0, 0⟩
  | some (readyState, bufferedEnd, currentTime) => ⟨readyState.getD 0, bufferedEnd.getD 0, currentTime.getD 0⟩

inductive Phase where
  | resolving | armed | playbackRequested | completed | failed | finished | cleared | superseded
  deriving DecidableEq

structure Request (β γ : Type*) where
  targetSourceHash : Text
  targetPlaybackSource : Text
  targetAbsolutePlaybackSource : Text
  baseline : β
  phase : Phase
  resolveActive : Bool
  armed : Bool
  failureStarted : Bool
  progressBaseline : Option Progress
  noProgressTicks : Nat
  noProgressLimit : Nat
  sawLoadProgress : Bool
  commitData : Option γ
  watchdogTimeout : Option Nat

/-- The calls of the controller's callbacks. -/
inductive Call (β γ : Type*) where
  | captureProgress (request : Nat)
  | getActivePlaybackSource (request : Nat)
  | commit (request : Nat) (commitData : Option γ)
  | markFailed (request : Nat) (sourceHash reason : Text)
  | rollback (request : Nat) (baseline : β) (reason : Text)

structure Config where
  normalizeSourceHash : Text → Text
  progressIntervalMs : Rat
  noProgressLimit : Nat
  progressEpsilon : Rat

/-- The controller: its requests by their generation, the watchdog timers that have not fired, each with
its request, the requests whose rollback has not ended, and the calls so far. -/
structure State (β γ : Type*) where
  nextGeneration : Nat
  currentRequest : Option Nat
  disposed : Bool
  requests : Nat → Request β γ
  timers : List (Nat × Nat)
  nextTimer : Nat
  rollingBack : List Nat
  calls : List (Call β γ)

namespace State
variable {β γ : Type*}

def modify (s : State β γ) (r : Nat) (f : Request β γ → Request β γ) : State β γ :=
  { s with requests := Function.update s.requests r (f (s.requests r)) }

def call (s : State β γ) (c : Call β γ) : State β γ := { s with calls := s.calls ++ [c] }

def cancelWatchdog (s : State β γ) (r : Nat) : State β γ :=
  match (s.requests r).watchdogTimeout with
  | none => s
  | some timeout =>
    { s with timers := s.timers.filter fun timer => timer.1 ≠ timeout }.modify r fun request => { request with watchdogTimeout := none }

def isCurrent (s : State β γ) (r : Nat) : Bool := !s.disposed && s.currentRequest == some r

/-- Where the watchdog of a request may run. -/
def watched (s : State β γ) (r : Nat) : Bool := s.isCurrent r && (s.requests r).armed && !(s.requests r).failureStarted

def resetProgressBaseline (s : State β γ) (r : Nat) (captured : Captured) : State β γ :=
  (s.call (.captureProgress r)).modify r fun request =>
    { request with progressBaseline := some (normalizeProgress captured), noProgressTicks := 0, sawLoadProgress := false }

def advanced (cfg : Config) (request : Request β γ) (captured : Captured) : Bool :=
  let previous := request.progressBaseline.getD (normalizeProgress none)
  let next := normalizeProgress captured
  request.sawLoadProgress || decide (previous.readyState < next.readyState) ||
    decide (previous.bufferedEnd + cfg.progressEpsilon < next.bufferedEnd) ||
    decide (previous.currentTime + cfg.progressEpsilon < next.currentTime)

/-- High-water marks of the progress. -/
def observed (cfg : Config) (request : Request β γ) (captured : Captured) : Request β γ :=
  let previous := request.progressBaseline.getD (normalizeProgress none)
  let next := normalizeProgress captured
  { request with
    sawLoadProgress := false
    progressBaseline := some ⟨max previous.readyState next.readyState, max previous.bufferedEnd next.bufferedEnd,
      max previous.currentTime next.currentTime⟩
    noProgressTicks := if advanced cfg request captured then 0 else request.noProgressTicks }

def scheduleWatchdog (s : State β γ) (r : Nat) : State β γ :=
  let s := s.cancelWatchdog r
  if s.watched r then
    { s with timers := (s.nextTimer, r) :: s.timers, nextTimer := s.nextTimer + 1 }.modify r fun request =>
      { request with watchdogTimeout := some s.nextTimer }
  else s

/-- A disposed controller throws instead. -/
def begin (cfg : Config) (s : State β γ) (targetSourceHash : Text) (baseline : β) (startupTimeoutMs : Option Rat) : State β γ :=
  if s.disposed then s
  else
    let inheritedBaseline := match s.currentRequest with
      | some r => (s.requests r).baseline
      | none => baseline
    let s := match s.currentRequest with
      | some r => (s.cancelWatchdog r).modify r fun request =>
        { request with resolveActive := false, armed := false, phase := .superseded }
      | none => s
    let limit := match startupTimeoutMs.filter (0 < ·) with
      | some timeout => max 1 ⌈timeout / cfg.progressIntervalMs⌉.toNat
      | none => cfg.noProgressLimit
    { s with nextGeneration := s.nextGeneration + 1, currentRequest := some (s.nextGeneration + 1) }.modify (s.nextGeneration + 1) fun _ =>
      { targetSourceHash := cfg.normalizeSourceHash targetSourceHash
        targetPlaybackSource := []
        targetAbsolutePlaybackSource := []
        baseline := inheritedBaseline
        phase := .resolving
        resolveActive := true
        armed := false
        failureStarted := false
        progressBaseline := none
        noProgressTicks := 0
        noProgressLimit := limit
        sawLoadProgress := false
        commitData := none
        watchdogTimeout := none }

/-- A request that is current and has not failed. -/
def pending (s : State β γ) (r : Nat) : Bool := s.isCurrent r && !(s.requests r).failureStarted

def expectedSource (request : Request β γ) : Text :=
  jsTrim (if request.targetAbsolutePlaybackSource.isEmpty then request.targetPlaybackSource else request.targetAbsolutePlaybackSource)

def arm (s : State β γ) (r : Nat) (captured : Captured) : State β γ :=
  if !s.pending r then s
  else
    ((s.modify r fun request =>
      { request with
        armed := true
        phase := if request.targetAbsolutePlaybackSource.isEmpty && request.targetPlaybackSource.isEmpty then .armed
          else .playbackRequested }).resetProgressBaseline r captured).scheduleWatchdog r

def recordPlaybackRequested (cfg : Config) (s : State β γ) (r : Nat) (sourceHash playbackSource absolutePlaybackSource : Text)
    (captured : Captured) : State β γ :=
  if !s.pending r then s
  else
    let rawSourceHash := jsTrim sourceHash
    let normalizedSourceHash := cfg.normalizeSourceHash rawSourceHash
    let target := (s.requests r).targetSourceHash
    if !rawSourceHash.isEmpty && normalizedSourceHash.isEmpty then s
    else if !target.isEmpty && normalizedSourceHash != target then s
    else if (jsTrim playbackSource).isEmpty && (jsTrim absolutePlaybackSource).isEmpty then s
    else
      let s := (s.modify r fun request =>
        { request with
          targetSourceHash := if target.isEmpty && !normalizedSourceHash.isEmpty then normalizedSourceHash else target
          targetPlaybackSource := jsTrim playbackSource
          targetAbsolutePlaybackSource := jsTrim absolutePlaybackSource
          phase := .playbackRequested }).resetProgressBaseline r captured
      if (s.requests r).armed then s.scheduleWatchdog r else s

def noteProgress (s : State β γ) (r : Nat) : State β γ :=
  if !s.watched r then s else s.modify r fun request => { request with sawLoadProgress := true }

def setCommitData (s : State β γ) (r : Nat) (commitData : Option γ) : State β γ :=
  if !s.pending r then s else s.modify r fun request => { request with commitData }

/-- The active source is an argument, or what the callback gives, if that does not throw. -/
def activeSource (activePlaybackSource : Text) (active : Option Text) : Text :=
  if (jsTrim activePlaybackSource).isEmpty then (active.map jsTrim).getD [] else jsTrim activePlaybackSource

def completeIfActive (s : State β γ) (r : Nat) (activePlaybackSource : Text) (active : Option Text) : State β γ :=
  if !s.watched r then s
  else
    let expected := expectedSource (s.requests r)
    if expected.isEmpty then s
    else
      let s := if (jsTrim activePlaybackSource).isEmpty then s.call (.getActivePlaybackSource r) else s
      let source := activeSource activePlaybackSource active
      if source.isEmpty || source != expected then s
      else
        let s := (s.cancelWatchdog r).modify r fun request =>
          { request with resolveActive := false, armed := false, phase := .completed }
        { s with currentRequest := none }.call (.commit r (s.requests r).commitData)

/-- Whether the rollback throws at once; otherwise it ends later. -/
def fail (s : State β γ) (r : Nat) (reason : Text) (throws : Bool) : State β γ :=
  if !s.pending r then s
  else
    let s := (s.modify r fun request =>
      { request with failureStarted := true, resolveActive := false, armed := false, phase := .failed }).cancelWatchdog r
    let request := s.requests r
    let s := if request.targetSourceHash.isEmpty then s else s.call (.markFailed r request.targetSourceHash (jsTrim reason))
    let s := s.call (.rollback r request.baseline (jsTrim reason))
    if throws then { s with currentRequest := none } else { s with rollingBack := r :: s.rollingBack }

def timedOut : Text := "Source startup timed out.".toList

/-- What a watchdog timer does. -/
def watch (cfg : Config) (s : State β γ) (r : Nat) (captured : Captured) (throws : Bool) : State β γ :=
  let s := s.modify r fun request => { request with watchdogTimeout := none }
  if !s.watched r then s
  else
    let moved := advanced cfg (s.requests r) captured
    let s := (s.call (.captureProgress r)).modify r fun request => observed cfg request captured
    if moved then s.scheduleWatchdog r
    else
      let s := s.modify r fun request => { request with noProgressTicks := request.noProgressTicks + 1 }
      if (s.requests r).noProgressLimit ≤ (s.requests r).noProgressTicks then s.fail r timedOut throws
      else s.scheduleWatchdog r

def finish (s : State β γ) (r : Nat) : State β γ :=
  if !s.pending r then s
  else
    let s := s.modify r fun request => { request with resolveActive := false }
    if (s.requests r).armed then s
    else { s with currentRequest := none }.modify r fun request => { request with phase := .finished }

def clear (s : State β γ) : State β γ :=
  match s.currentRequest with
  | none => s
  | some r =>
    { s.cancelWatchdog r with currentRequest := none }.modify r fun request =>
      { request with resolveActive := false, armed := false, phase := .cleared }

def dispose (s : State β γ) : State β γ := { s.clear with disposed := true }

end State

/-- What happens to the controller: its calls, on any request, a watchdog timer that fires, and a rollback that ends. -/
inductive Event (β γ : Type*) where
  | begin (targetSourceHash : Text) (baseline : β) (startupTimeoutMs : Option Rat)
  | arm (request : Nat) (captured : Captured)
  | recordPlaybackRequested (request : Nat) (sourceHash playbackSource absolutePlaybackSource : Text) (captured : Captured)
  | noteProgress (request : Option Nat)
  | setCommitData (request : Nat) (commitData : Option γ)
  | completeIfActive (request : Option Nat) (activePlaybackSource : Text) (active : Option Text)
  | fail (request : Nat) (reason : Text) (throws : Bool)
  | finish (request : Nat)
  | clear
  | dispose
  | timer (timeout : Nat) (captured : Captured) (throws : Bool)
  | rolledBack (request : Nat)

section run
variable {β γ : Type*}

def State.initial (requests : Nat → Request β γ) : State β γ := ⟨0, none, false, requests, [], 0, [], []⟩

/-- The current request where none is named; a request that there is not stands for none. -/
def State.named (s : State β γ) (request : Option Nat) : Nat := (request.or s.currentRequest).getD 0

def step (cfg : Config) (s : State β γ) : Event β γ → State β γ
  | .begin targetSourceHash baseline startupTimeoutMs => s.begin cfg targetSourceHash baseline startupTimeoutMs
  | .arm r captured => s.arm r captured
  | .recordPlaybackRequested r sourceHash playbackSource absolutePlaybackSource captured =>
    s.recordPlaybackRequested cfg r sourceHash playbackSource absolutePlaybackSource captured
  | .noteProgress request => s.noteProgress (s.named request)
  | .setCommitData r commitData => s.setCommitData r commitData
  | .completeIfActive request activePlaybackSource active => s.completeIfActive (s.named request) activePlaybackSource active
  | .fail r reason throws => s.fail r reason throws
  | .finish r => s.finish r
  | .clear => s.clear
  | .dispose => s.dispose
  | .timer timeout captured throws =>
    match s.timers.find? fun timer => timer.1 == timeout with
    | none => s
    | some (_, r) => { s with timers := s.timers.filter fun timer => timer.1 ≠ timeout }.watch cfg r captured throws
  | .rolledBack r =>
    if r ∈ s.rollingBack then
      { s with rollingBack := s.rollingBack.erase r
               currentRequest := if s.currentRequest = some r then none else s.currentRequest }
    else s

/-! What one call does. -/

namespace State
variable {cfg : Config} {s s' s'' : State β γ} {r : Nat} {f : Request β γ → Request β γ} {c : Call β γ} {captured : Captured}

@[simp] theorem modify_currentRequest : (s.modify r f).currentRequest = s.currentRequest := rfl
@[simp] theorem modify_disposed : (s.modify r f).disposed = s.disposed := rfl
@[simp] theorem modify_nextGeneration : (s.modify r f).nextGeneration = s.nextGeneration := rfl
@[simp] theorem modify_timers : (s.modify r f).timers = s.timers := rfl
@[simp] theorem modify_rollingBack : (s.modify r f).rollingBack = s.rollingBack := rfl
@[simp] theorem modify_calls : (s.modify r f).calls = s.calls := rfl
@[simp] theorem modify_requests_self : (s.modify r f).requests r = f (s.requests r) := Function.update_self ..

@[simp] theorem modify_requests_of_ne {q : Nat} (h : q ≠ r) : (s.modify r f).requests q = s.requests q :=
  Function.update_of_ne h ..

@[simp] theorem call_currentRequest : (s.call c).currentRequest = s.currentRequest := rfl
@[simp] theorem call_disposed : (s.call c).disposed = s.disposed := rfl
@[simp] theorem call_nextGeneration : (s.call c).nextGeneration = s.nextGeneration := rfl
@[simp] theorem call_timers : (s.call c).timers = s.timers := rfl
@[simp] theorem call_rollingBack : (s.call c).rollingBack = s.rollingBack := rfl
@[simp] theorem call_requests : (s.call c).requests = s.requests := rfl
@[simp] theorem call_calls : (s.call c).calls = s.calls ++ [c] := rfl

theorem watched_congr (hdisposed : s'.disposed = s.disposed) (hcurrent : s'.currentRequest = s.currentRequest)
    (harmed : (s'.requests r).armed = (s.requests r).armed)
    (hfailed : (s'.requests r).failureStarted = (s.requests r).failureStarted) : s'.watched r = s.watched r := by
  rw [watched, watched, isCurrent, isCurrent, hdisposed, hcurrent, harmed, hfailed]

theorem pending_congr (hdisposed : s'.disposed = s.disposed) (hcurrent : s'.currentRequest = s.currentRequest)
    (hfailed : (s'.requests r).failureStarted = (s.requests r).failureStarted) : s'.pending r = s.pending r := by
  rw [pending, pending, isCurrent, isCurrent, hdisposed, hcurrent, hfailed]

theorem unfailed_of_pending (h : s.pending r = true) : (s.requests r).failureStarted = false := by
  rw [pending, Bool.and_eq_true] at h
  simpa using h.2

theorem current_of_pending (h : s.pending r = true) : s.currentRequest = some r := by
  rw [pending, isCurrent, Bool.and_eq_true, Bool.and_eq_true] at h
  simpa using h.1.2

theorem pending_of_watched (h : s.watched r = true) : s.pending r = true := by
  rw [watched, Bool.and_eq_true, Bool.and_eq_true] at h
  rw [pending, h.1.1, h.2]
  rfl

theorem armed_of_watched (h : s.watched r = true) : (s.requests r).armed = true := by
  rw [watched, Bool.and_eq_true, Bool.and_eq_true] at h
  exact h.1.2

/-- But for the watchdog of one request, nothing but the timers changes. -/
structure Rewatched (s s' : State β γ) (r : Nat) : Prop where
  currentRequest : s'.currentRequest = s.currentRequest
  disposed : s'.disposed = s.disposed
  nextGeneration : s'.nextGeneration = s.nextGeneration
  rollingBack : s'.rollingBack = s.rollingBack
  calls : s'.calls = s.calls
  others : ∀ q, q ≠ r → s'.requests q = s.requests q
  request : ∃ watchdogTimeout, s'.requests r = { s.requests r with watchdogTimeout }

theorem rewatched_cancelWatchdog (s : State β γ) (r : Nat) : Rewatched s (s.cancelWatchdog r) r := by
  unfold cancelWatchdog
  split
  · exact ⟨rfl, rfl, rfl, rfl, rfl, fun _ _ => rfl, _, rfl⟩
  · exact ⟨rfl, rfl, rfl, rfl, rfl, fun _ hq => modify_requests_of_ne hq, _, modify_requests_self⟩

theorem rewatched_scheduleWatchdog (s : State β γ) (r : Nat) : Rewatched s (s.scheduleWatchdog r) r := by
  have hcancel := rewatched_cancelWatchdog s r
  unfold scheduleWatchdog
  dsimp only
  generalize s.cancelWatchdog r = s₁ at hcancel ⊢
  split
  · obtain ⟨timeout, hrequest⟩ := hcancel.request
    refine ⟨hcancel.currentRequest, hcancel.disposed, hcancel.nextGeneration, hcancel.rollingBack, hcancel.calls, ?_, some s₁.nextTimer, ?_⟩
    · exact fun q hq => (modify_requests_of_ne hq).trans (hcancel.others q hq)
    · rw [modify_requests_self, hrequest]
  · exact hcancel

/-- A call on one request leaves the others alone, and the baseline of its own. -/
structure Frame (s s' : State β γ) (r : Nat) : Prop where
  disposed : s'.disposed = s.disposed
  nextGeneration : s'.nextGeneration = s.nextGeneration
  others : ∀ q, q ≠ r → s'.requests q = s.requests q
  baseline : (s'.requests r).baseline = (s.requests r).baseline

theorem Frame.trans (h : Frame s s' r) (h' : Frame s' s'' r) : Frame s s'' r where
  disposed := h'.disposed.trans h.disposed
  nextGeneration := h'.nextGeneration.trans h.nextGeneration
  others q hq := (h'.others q hq).trans (h.others q hq)
  baseline := h'.baseline.trans h.baseline

theorem frame_modify (hf : (f (s.requests r)).baseline = (s.requests r).baseline) : Frame s (s.modify r f) r where
  disposed := rfl
  nextGeneration := rfl
  others _ hq := modify_requests_of_ne hq
  baseline := by rw [modify_requests_self, hf]

theorem frame_left (s : State β γ) (r : Nat) (currentRequest : Option Nat) (rollingBack : List Nat) :
    Frame s { s with currentRequest, rollingBack } r :=
  ⟨rfl, rfl, fun _ _ => rfl, rfl⟩

theorem Rewatched.frame (h : Rewatched s s' r) : Frame s s' r where
  disposed := h.disposed
  nextGeneration := h.nextGeneration
  others := h.others
  baseline := by
    obtain ⟨timeout, hrequest⟩ := h.request
    rw [hrequest]

/-- The request that a call settles. -/
def settles : Call β γ → Option Nat
  | .commit r _ | .rollback r _ _ => some r
  | .captureProgress _ | .getActivePlaybackSource _ | .markFailed _ _ _ => none

/-- A call that settles nothing, and leaves the current request and whether its own has failed. -/
structure Keeps (s s' : State β γ) (r : Nat) : Prop extends Frame s s' r where
  currentRequest : s'.currentRequest = s.currentRequest
  failureStarted : (s'.requests r).failureStarted = (s.requests r).failureStarted
  rollingBack : s'.rollingBack = s.rollingBack
  calls : ∃ new, s'.calls = s.calls ++ new ∧ ∀ c ∈ new, settles c = none

theorem Keeps.trans (h : Keeps s s' r) (h' : Keeps s' s'' r) : Keeps s s'' r := by
  obtain ⟨new, hnew, hunsettled⟩ := h.calls
  obtain ⟨more, hmore, hunsettled'⟩ := h'.calls
  refine ⟨h.toFrame.trans h'.toFrame, h'.currentRequest.trans h.currentRequest, h'.failureStarted.trans h.failureStarted,
    h'.rollingBack.trans h.rollingBack, new ++ more, ?_, ?_⟩
  · rw [hmore, hnew, List.append_assoc]
  · simp only [List.mem_append]
    rintro c (hc | hc)
    · exact hunsettled c hc
    · exact hunsettled' c hc

theorem keeps_refl (s : State β γ) (r : Nat) : Keeps s s r :=
  ⟨⟨rfl, rfl, fun _ _ => rfl, rfl⟩, rfl, rfl, rfl, [], (List.append_nil _).symm, by simp⟩

theorem keeps_modify (hbaseline : (f (s.requests r)).baseline = (s.requests r).baseline)
    (hfailed : (f (s.requests r)).failureStarted = (s.requests r).failureStarted) : Keeps s (s.modify r f) r :=
  ⟨frame_modify hbaseline, rfl, by rw [modify_requests_self, hfailed], rfl, [], (List.append_nil _).symm, by simp⟩

theorem keeps_call (hc : settles c = none) : Keeps s (s.call c) r :=
  ⟨⟨rfl, rfl, fun _ _ => rfl, rfl⟩, rfl, rfl, rfl, [c], rfl, by simpa using hc⟩

theorem Rewatched.keeps (h : Rewatched s s' r) : Keeps s s' r := by
  obtain ⟨timeout, hrequest⟩ := h.request
  refine ⟨h.frame, h.currentRequest, ?_, h.rollingBack, [], ?_, by simp⟩
  · rw [hrequest]
  · rw [h.calls, List.append_nil]

theorem keeps_resetProgressBaseline (s : State β γ) (r : Nat) (captured : Captured) : Keeps s (s.resetProgressBaseline r captured) r :=
  (keeps_call rfl).trans (keeps_modify rfl rfl)

theorem Keeps.pending_eq (h : Keeps s s' r) : s'.pending r = s.pending r :=
  pending_congr h.disposed h.currentRequest h.failureStarted

/-- A call that fails its request. -/
structure Fails (s s' : State β γ) (r : Nat) : Prop extends Frame s s' r where
  currentRequest : s'.currentRequest = s.currentRequest ∨ s'.currentRequest = none
  failed : (s'.requests r).failureStarted = true
  rollingBack : ∀ q ∈ s'.rollingBack, q = r ∨ q ∈ s.rollingBack
  calls : ∃ new reason, s'.calls = s.calls ++ new ++ [.rollback r (s.requests r).baseline reason] ∧ ∀ c ∈ new, settles c = none

theorem Keeps.fails (h : Keeps s s' r) (h' : Fails s' s'' r) : Fails s s'' r := by
  obtain ⟨new, hnew, hunsettled⟩ := h.calls
  obtain ⟨more, reason, hmore, hunsettled'⟩ := h'.calls
  refine ⟨h.toFrame.trans h'.toFrame, h.currentRequest ▸ h'.currentRequest, h'.failed, h.rollingBack ▸ h'.rollingBack,
    new ++ more, reason, ?_, ?_⟩
  · rw [hmore, hnew, h.baseline]
    simp only [List.append_assoc]
  · simp only [List.mem_append]
    rintro c (hc | hc)
    · exact hunsettled c hc
    · exact hunsettled' c hc

/-- What a call on a request can do, with the active source that it is given. -/
inductive Moves (s : State β γ) (r : Nat) (source : Text) (s' : State β γ) : Prop where
  | idle (same : s' = s)
  | keeps (pending : s.pending r = true) (keeps : Keeps s s' r)
  | commits (watched : s.watched r = true) (active : source ≠ [] ∧ expectedSource (s.requests r) = source)
      (frame : Frame s s' r) (current : s'.currentRequest = none) (rollingBack : s'.rollingBack = s.rollingBack)
      (new : List (Call β γ)) (unsettled : ∀ c ∈ new, settles c = none)
      (calls : s'.calls = s.calls ++ new ++ [.commit r (s.requests r).commitData])
  | fails (pending : s.pending r = true) (fails : Fails s s' r)
  | ends (pending : s.pending r = true) (frame : Frame s s' r) (current : s'.currentRequest = none)
      (rollingBack : s'.rollingBack = s.rollingBack) (calls : s'.calls = s.calls)

variable {source : Text}

theorem moves_arm : Moves s r source (s.arm r captured) := by
  unfold arm
  by_cases h : s.pending r = true
  · rw [h]
    exact .keeps h (((keeps_modify rfl rfl).trans (keeps_resetProgressBaseline ..)).trans (rewatched_scheduleWatchdog ..).keeps)
  · rw [if_pos (by simpa using h)]
    exact .idle rfl

theorem moves_recordPlaybackRequested {sourceHash playbackSource absolutePlaybackSource : Text} :
    Moves s r source (s.recordPlaybackRequested cfg r sourceHash playbackSource absolutePlaybackSource captured) := by
  unfold recordPlaybackRequested
  by_cases h : s.pending r = true
  · rw [h]
    dsimp only
    split
    · exact .idle rfl
    · split
      · exact .idle rfl
      · split
        · exact .idle rfl
        · split
          · exact .idle rfl
          · generalize hmodified : s.modify r _ = s₁
            have hkeeps : Keeps s (s₁.resetProgressBaseline r captured) r := by
              rw [← hmodified]
              exact (keeps_modify rfl rfl).trans (keeps_resetProgressBaseline ..)
            split
            · exact .keeps h (hkeeps.trans (rewatched_scheduleWatchdog _ r).keeps)
            · exact .keeps h hkeeps
  · rw [if_pos (by simpa using h)]
    exact .idle rfl

theorem moves_noteProgress : Moves s r source (s.noteProgress r) := by
  unfold noteProgress
  by_cases h : s.watched r = true
  · rw [if_neg (by simp [h])]
    exact .keeps (pending_of_watched h) (keeps_modify rfl rfl)
  · rw [if_pos (by simpa using h)]
    exact .idle rfl

theorem moves_setCommitData {commitData : Option γ} : Moves s r source (s.setCommitData r commitData) := by
  unfold setCommitData
  by_cases h : s.pending r = true
  · rw [if_neg (by simp [h])]
    exact .keeps h (keeps_modify rfl rfl)
  · rw [if_pos (by simpa using h)]
    exact .idle rfl

theorem moves_finish : Moves s r source (s.finish r) := by
  unfold finish
  by_cases h : s.pending r = true
  · rw [if_neg (by simp [h])]
    dsimp only
    split
    · exact .keeps h (keeps_modify rfl rfl)
    · exact .ends h (((frame_modify rfl).trans (frame_left _ r none _)).trans (frame_modify rfl)) rfl rfl rfl
  · rw [if_pos (by simpa using h)]
    exact .idle rfl

theorem moves_completeIfActive {activePlaybackSource : Text} {active : Option Text} :
    Moves s r (activeSource activePlaybackSource active) (s.completeIfActive r activePlaybackSource active) := by
  unfold completeIfActive
  by_cases h : s.watched r = true
  · rw [if_neg (by simp [h])]
    dsimp only
    split
    · exact .idle rfl
    · generalize hasked : (if (jsTrim activePlaybackSource).isEmpty then s.call (.getActivePlaybackSource r) else s) = s₁
      have hkeeps : Keeps s s₁ r := by
        rw [← hasked]
        split
        · exact keeps_call rfl
        · exact keeps_refl s r
      have hrequest : s₁.requests r = s.requests r := by
        rw [← hasked]
        split <;> rfl
      split
      · exact .keeps (pending_of_watched h) hkeeps
      · rename_i hactive
        simp only [Bool.or_eq_true, List.isEmpty_iff, bne_iff_ne, ne_eq, not_or, Decidable.not_not] at hactive
        obtain ⟨new, hnew, hunsettled⟩ := hkeeps.calls
        have hcancel := rewatched_cancelWatchdog s₁ r
        obtain ⟨timeout, hcancelled⟩ := hcancel.request
        generalize hcompleted : (s₁.cancelWatchdog r).modify r _ = s₂
        have hframe : Frame s s₂ r := by
          rw [← hcompleted]
          exact (hkeeps.toFrame.trans hcancel.frame).trans (frame_modify rfl)
        have hdata : (s₂.requests r).commitData = (s.requests r).commitData := by
          rw [← hcompleted, modify_requests_self, hcancelled, hrequest]
        have hcalls : s₂.calls = s.calls ++ new := by
          rw [← hcompleted, modify_calls, hcancel.calls, hnew]
        have hrolling : s₂.rollingBack = s.rollingBack := by
          rw [← hcompleted, modify_rollingBack, hcancel.rollingBack, hkeeps.rollingBack]
        refine .commits h ⟨hactive.1, hactive.2.symm⟩ (hframe.trans ⟨rfl, rfl, fun _ _ => rfl, rfl⟩) rfl hrolling new hunsettled ?_
        rw [call_calls, hdata, hcalls]
  · rw [if_pos (by simpa using h)]
    exact .idle rfl

theorem fails_fail {reason : Text} {throws : Bool} (h : s.pending r = true) : Fails s (s.fail r reason throws) r := by
  unfold fail
  rw [if_neg (by simp [h])]
  dsimp only
  generalize hmodified : s.modify r _ = s₁
  have hcancel := rewatched_cancelWatchdog s₁ r
  have hframe : Frame s (s₁.cancelWatchdog r) r := by
    rw [← hmodified]
    exact (frame_modify rfl).trans (rewatched_cancelWatchdog ..).frame
  have hfailed : ((s₁.cancelWatchdog r).requests r).failureStarted = true := by
    obtain ⟨timeout, hrequest⟩ := hcancel.request
    rw [hrequest, ← hmodified, modify_requests_self]
  have hcurrent : (s₁.cancelWatchdog r).currentRequest = s.currentRequest := by
    rw [hcancel.currentRequest, ← hmodified]
    rfl
  have hcalls : (s₁.cancelWatchdog r).calls = s.calls := by
    rw [hcancel.calls, ← hmodified]
    rfl
  have hrolling : (s₁.cancelWatchdog r).rollingBack = s.rollingBack := by
    rw [hcancel.rollingBack, ← hmodified]
    rfl
  generalize s₁.cancelWatchdog r = s₂ at *
  generalize hmarked : (if (s₂.requests r).targetSourceHash.isEmpty then s₂
    else s₂.call (.markFailed r (s₂.requests r).targetSourceHash (jsTrim reason))) = s₃
  have hkeeps : Keeps s₂ s₃ r := by
    rw [← hmarked]
    split
    · exact keeps_refl s₂ r
    · exact keeps_call rfl
  obtain ⟨new, hnew, hunsettled⟩ := hkeeps.calls
  have hmade : (s₃.call (.rollback r (s₂.requests r).baseline (jsTrim reason))).calls =
      s.calls ++ new ++ [.rollback r (s.requests r).baseline (jsTrim reason)] := by
    rw [call_calls, hnew, hcalls, hframe.baseline]
  replace hframe := hframe.trans hkeeps.toFrame
  have hfailed' := hkeeps.failureStarted.trans hfailed
  have hrolling' := hkeeps.rollingBack.trans hrolling
  split
  · refine ⟨hframe.trans ⟨rfl, rfl, fun _ _ => rfl, rfl⟩, .inr rfl, hfailed', ?_, new, _, hmade, hunsettled⟩
    simp [hrolling']
    tauto
  · refine ⟨hframe.trans ⟨rfl, rfl, fun _ _ => rfl, rfl⟩, .inl ?_, hfailed', ?_, new, _, hmade, hunsettled⟩
    · exact hkeeps.currentRequest.trans hcurrent
    · simp [hrolling']

theorem moves_fail {reason : Text} {throws : Bool} : Moves s r source (s.fail r reason throws) := by
  by_cases h : s.pending r = true
  · exact .fails h (fails_fail h)
  · refine .idle ?_
    rw [fail, if_pos (by simpa using h)]

theorem keeps_or_fails_watch {throws : Bool} (h : s.pending r = true) :
    Keeps s (s.watch cfg r captured throws) r ∨ Fails s (s.watch cfg r captured throws) r := by
  unfold watch
  dsimp only
  generalize hfired : s.modify r _ = s₁
  have hkeeps : Keeps s s₁ r := by
    rw [← hfired]
    exact keeps_modify rfl rfl
  split
  · exact .inl hkeeps
  · generalize hmoved : (s₁.call (.captureProgress r)).modify r _ = s₂
    have hseen : Keeps s s₂ r := by
      rw [← hmoved]
      exact (hkeeps.trans (keeps_call rfl)).trans (keeps_modify rfl rfl)
    split
    · exact .inl (hseen.trans (rewatched_scheduleWatchdog ..).keeps)
    · generalize hticked : s₂.modify r _ = s₃
      have hquiet : Keeps s s₃ r := by
        rw [← hticked]
        exact hseen.trans (keeps_modify rfl rfl)
      split
      · exact .inr (hquiet.fails (fails_fail (hquiet.pending_eq.trans h)))
      · exact .inl (hquiet.trans (rewatched_scheduleWatchdog ..).keeps)

/-! The timers: a live one is the watchdog of a request that is watched. -/

def Timed (s : State β γ) : Prop :=
  ∀ timer ∈ s.timers, s.watched timer.2 = true ∧ (s.requests timer.2).watchdogTimeout = some timer.1

def Owned (s : State β γ) (r : Nat) : Prop :=
  ∀ timer ∈ s.timers, timer.2 = r ∧ (s.requests r).watchdogTimeout = some timer.1

theorem timed_of_empty (h : s.timers = []) : Timed s := by
  simp [Timed, h]

theorem owned_of_empty (h : s.timers = []) : Owned s r := by
  simp [Owned, h]

theorem Timed.owned (h : Timed s) (hcurrent : s.currentRequest = some r) : Owned s r := by
  intro timer htimer
  obtain ⟨hwatched, htimeout⟩ := h timer htimer
  have howner := current_of_pending (pending_of_watched hwatched)
  rw [hcurrent, Option.some.injEq] at howner
  rw [howner]
  exact ⟨rfl, htimeout⟩

theorem Owned.timers_eq_nil (h : Owned s r) (hnone : (s.requests r).watchdogTimeout = none) : s.timers = [] := by
  rw [List.eq_nil_iff_forall_not_mem]
  intro timer htimer
  simpa [hnone] using (h timer htimer).2

theorem Timed.timers_eq_nil (h : Timed s) (hnever : ∀ r, s.watched r = false) : s.timers = [] := by
  rw [List.eq_nil_iff_forall_not_mem]
  intro timer htimer
  simpa [hnever] using (h timer htimer).1

theorem Timed.timers_eq_nil_of_current (h : Timed s) (hcurrent : s.currentRequest = some r) (hwatched : s.watched r = false) :
    s.timers = [] := by
  refine h.timers_eq_nil fun q => ?_
  by_contra hq
  rw [Bool.not_eq_false] at hq
  have howner := current_of_pending (pending_of_watched hq)
  rw [hcurrent, Option.some.injEq] at howner
  rw [← howner, hwatched] at hq
  contradiction

theorem Timed.timers_eq_nil_of_none (h : Timed s) (hcurrent : s.currentRequest = none) : s.timers = [] := by
  refine h.timers_eq_nil fun q => ?_
  by_contra hq
  rw [Bool.not_eq_false] at hq
  simpa [hcurrent] using current_of_pending (pending_of_watched hq)

theorem Owned.modify (h : Owned s r) (hf : (f (s.requests r)).watchdogTimeout = (s.requests r).watchdogTimeout) :
    Owned (s.modify r f) r := by
  intro timer htimer
  rw [modify_requests_self, hf]
  exact h timer htimer

theorem Owned.resetProgressBaseline (h : Owned s r) (captured : Captured) : Owned (s.resetProgressBaseline r captured) r :=
  Owned.modify (s := s.call (.captureProgress r)) h rfl

theorem Timed.modify (h : Timed s) (harmed : (f (s.requests r)).armed = (s.requests r).armed)
    (hfailed : (f (s.requests r)).failureStarted = (s.requests r).failureStarted)
    (htimeout : (f (s.requests r)).watchdogTimeout = (s.requests r).watchdogTimeout) : Timed (s.modify r f) := by
  intro timer htimer
  obtain ⟨hwatched, hits⟩ := h timer htimer
  by_cases howner : timer.2 = r
  · rw [howner] at hwatched hits ⊢
    have hsame : (s.modify r f).watched r = s.watched r :=
      watched_congr rfl rfl (by rw [modify_requests_self, harmed]) (by rw [modify_requests_self, hfailed])
    rw [hsame, modify_requests_self, htimeout]
    exact ⟨hwatched, hits⟩
  · have hsame : (s.modify r f).watched timer.2 = s.watched timer.2 :=
      watched_congr rfl rfl (by rw [modify_requests_of_ne howner]) (by rw [modify_requests_of_ne howner])
    rw [hsame, modify_requests_of_ne howner]
    exact ⟨hwatched, hits⟩

theorem timers_cancelWatchdog (h : Owned s r) : (s.cancelWatchdog r).timers = [] := by
  unfold cancelWatchdog
  split
  · rename_i hnone
    exact h.timers_eq_nil hnone
  · rename_i timeout htimeout
    refine List.filter_eq_nil_iff.mpr fun timer htimer => ?_
    have hits := (h timer htimer).2
    rw [htimeout, Option.some.injEq] at hits
    simp [hits]

theorem timed_scheduleWatchdog (h : Owned s r) : Timed (s.scheduleWatchdog r) := by
  have hempty := timers_cancelWatchdog h
  unfold scheduleWatchdog
  dsimp only
  generalize s.cancelWatchdog r = s₁ at hempty ⊢
  split
  · rename_i hwatched
    intro timer htimer
    rw [modify_timers, hempty, List.mem_singleton] at htimer
    rw [htimer, modify_requests_self]
    refine ⟨?_, rfl⟩
    rw [← hwatched]
    refine watched_congr rfl rfl ?_ ?_
    · rw [modify_requests_self]
    · rw [modify_requests_self]
  · exact timed_of_empty hempty

theorem Timed.arm (h : Timed s) : Timed (s.arm r captured) := by
  unfold State.arm
  by_cases hpending : s.pending r = true
  · rw [if_neg (by simp [hpending])]
    have howned := h.owned (current_of_pending hpending)
    exact timed_scheduleWatchdog ((howned.modify rfl).resetProgressBaseline captured)
  · rw [if_pos (by simpa using hpending)]
    exact h

theorem Timed.recordPlaybackRequested {sourceHash playbackSource absolutePlaybackSource : Text} (h : Timed s) :
    Timed (s.recordPlaybackRequested cfg r sourceHash playbackSource absolutePlaybackSource captured) := by
  unfold State.recordPlaybackRequested
  by_cases hpending : s.pending r = true
  · rw [if_neg (by simp [hpending])]
    have hcurrent := current_of_pending hpending
    have howned := h.owned hcurrent
    dsimp only
    split
    · exact h
    · split
      · exact h
      · split
        · exact h
        · generalize hmodified : s.modify r _ = s₁
          have hrequested : Owned (s₁.resetProgressBaseline r captured) r := by
            rw [← hmodified]
            exact (howned.modify rfl).resetProgressBaseline captured
          split
          · exact timed_scheduleWatchdog hrequested
          · rename_i hunarmed
            have harmed : (s.requests r).armed = false := by
              rw [resetProgressBaseline, modify_requests_self, call_requests, ← hmodified, modify_requests_self] at hunarmed
              simpa using hunarmed
            have hempty : s.timers = [] := h.timers_eq_nil_of_current hcurrent (by simp [watched, harmed])
            refine timed_of_empty ?_
            rw [resetProgressBaseline, modify_timers, call_timers, ← hmodified]
            exact hempty
  · rw [if_pos (by simpa using hpending)]
    exact h

theorem Timed.noteProgress (h : Timed s) : Timed (s.noteProgress r) := by
  unfold State.noteProgress
  split
  · exact h
  · exact h.modify rfl rfl rfl

theorem Timed.setCommitData {commitData : Option γ} (h : Timed s) : Timed (s.setCommitData r commitData) := by
  unfold State.setCommitData
  split
  · exact h
  · exact h.modify rfl rfl rfl

theorem Timed.completeIfActive {activePlaybackSource : Text} {active : Option Text} (h : Timed s) :
    Timed (s.completeIfActive r activePlaybackSource active) := by
  unfold State.completeIfActive
  by_cases hwatched : s.watched r = true
  · rw [if_neg (by simp [hwatched])]
    have howned := h.owned (current_of_pending (pending_of_watched hwatched))
    dsimp only
    split
    · exact h
    · generalize hasked : (if (jsTrim activePlaybackSource).isEmpty then s.call (.getActivePlaybackSource r) else s) = s₁
      have hsame : Timed s₁ ∧ Owned s₁ r := by
        rw [← hasked]
        split <;> exact ⟨h, howned⟩
      split
      · exact hsame.1
      · exact timed_of_empty (timers_cancelWatchdog hsame.2)
  · rw [if_pos (by simpa using hwatched)]
    exact h

theorem Timed.fail {reason : Text} {throws : Bool} (h : Timed s) : Timed (s.fail r reason throws) := by
  unfold State.fail
  by_cases hpending : s.pending r = true
  · rw [if_neg (by simp [hpending])]
    have howned := h.owned (current_of_pending hpending)
    dsimp only
    generalize hfailed : (s.modify r _).cancelWatchdog r = s₁
    have hempty : s₁.timers = [] := by
      rw [← hfailed]
      exact timers_cancelWatchdog (howned.modify rfl)
    refine timed_of_empty ?_
    split <;> split <;> exact hempty
  · rw [if_pos (by simpa using hpending)]
    exact h

theorem timed_watch {throws : Bool} (h : s.timers = []) : Timed (s.watch cfg r captured throws) := by
  unfold watch
  dsimp only
  split
  · exact timed_of_empty h
  · split
    · exact timed_scheduleWatchdog (owned_of_empty h)
    · split
      · refine Timed.fail (timed_of_empty ?_)
        exact h
      · exact timed_scheduleWatchdog (owned_of_empty h)

theorem Timed.finish (h : Timed s) : Timed (s.finish r) := by
  unfold State.finish
  by_cases hpending : s.pending r = true
  · rw [if_neg (by simp [hpending])]
    dsimp only
    split
    · exact h.modify rfl rfl rfl
    · rename_i hunarmed
      refine timed_of_empty (h.timers_eq_nil_of_current (current_of_pending hpending) ?_)
      rw [modify_requests_self, Bool.not_eq_true] at hunarmed
      have harmed : (s.requests r).armed = false := hunarmed
      simp [watched, harmed]
  · rw [if_pos (by simpa using hpending)]
    exact h

theorem Timed.timers_clear (h : Timed s) : s.clear.timers = [] := by
  unfold clear
  split
  · rename_i hcurrent
    exact h.timers_eq_nil_of_none hcurrent
  · rename_i r hcurrent
    exact timers_cancelWatchdog (h.owned hcurrent)

theorem Timed.begin {targetSourceHash : Text} {baseline : β} {startupTimeoutMs : Option Rat} (h : Timed s) :
    Timed (s.begin cfg targetSourceHash baseline startupTimeoutMs) := by
  unfold State.begin
  split
  · exact h
  · dsimp only
    refine timed_of_empty ?_
    rw [modify_timers]
    dsimp only
    split
    · rename_i r hcurrent
      exact timers_cancelWatchdog (h.owned hcurrent)
    · rename_i hcurrent
      exact h.timers_eq_nil_of_none hcurrent

/-- A timer that fires was the only one. -/
theorem Timed.fired {timeout : Nat} (h : Timed s) (hfired : (timeout, r) ∈ s.timers) :
    s.pending r = true ∧ s.timers.filter (fun timer => timer.1 ≠ timeout) = [] := by
  obtain ⟨hwatched, hits⟩ := h _ hfired
  have hpending := pending_of_watched hwatched
  refine ⟨hpending, List.filter_eq_nil_iff.mpr fun timer htimer => ?_⟩
  have hits' := (h.owned (current_of_pending hpending) timer htimer).2
  rw [hits, Option.some.injEq] at hits'
  simp [← hits']

/-! How often a request is settled. -/

def outcomes (s : State β γ) (r : Nat) : Nat := s.calls.countP fun c => settles c == some r

theorem outcomes_of_unsettled {new : List (Call β γ)} (hcalls : s'.calls = s.calls ++ new) (hunsettled : ∀ c ∈ new, settles c = none)
    (q : Nat) : s'.outcomes q = s.outcomes q := by
  have hnone : new.countP (fun c => settles c == some q) = 0 := by
    rw [List.countP_eq_zero]
    intro c hc
    simp [hunsettled c hc]
  rw [outcomes, hcalls, List.countP_append, hnone, Nat.add_zero, outcomes]

theorem outcomes_of_settled {new : List (Call β γ)} (hcalls : s'.calls = s.calls ++ new ++ [c]) (hunsettled : ∀ c ∈ new, settles c = none)
    (hsettles : settles c = some r) (q : Nat) : s'.outcomes q = s.outcomes q + if q = r then 1 else 0 := by
  have hnone : new.countP (fun c => settles c == some q) = 0 := by
    rw [List.countP_eq_zero]
    intro c hc
    simp [hunsettled c hc]
  rw [outcomes, hcalls, List.countP_append, List.countP_append, hnone, Nat.add_zero, outcomes, List.countP_singleton, hsettles]
  by_cases hq : q = r
  · simp [hq]
  · simp [hq, Ne.symm hq]

theorem Moves.currentRequest (h : Moves s r source s') : s'.currentRequest = s.currentRequest ∨ s'.currentRequest = none := by
  cases h with
  | idle same => exact .inl (same ▸ rfl)
  | keeps _ keeps => exact .inl keeps.currentRequest
  | commits _ _ _ current => exact .inr current
  | fails _ fails => exact fails.currentRequest
  | ends _ _ current => exact .inr current

theorem Moves.frame (h : Moves s r source s') : Frame s s' r := by
  cases h with
  | idle same => exact same ▸ ⟨rfl, rfl, fun _ _ => rfl, rfl⟩
  | keeps _ keeps => exact keeps.toFrame
  | commits _ _ frame => exact frame
  | fails _ fails => exact fails.toFrame
  | ends _ frame => exact frame

/-- A request that is not pending is not moved. -/
theorem Moves.eq_of_unpending (h : Moves s r source s') (hpending : s.pending r = false) : s' = s := by
  cases h with
  | idle same => exact same
  | keeps pending => simp [hpending] at pending
  | commits watched => simp [pending_of_watched watched] at hpending
  | fails pending => simp [hpending] at pending
  | ends pending => simp [hpending] at pending

theorem Moves.pending_of_pending {q : Nat} (h : Moves s r source s') (hq : s'.pending q = true) : s.pending q = true := by
  by_cases hpending : s.pending r = true
  · have hcurrent := current_of_pending hq
    obtain heq | heq := h.currentRequest
    · rw [heq, current_of_pending hpending, Option.some.injEq] at hcurrent
      rwa [← hcurrent]
    · simp [heq] at hcurrent
  · rwa [h.eq_of_unpending (by simpa using hpending)] at hq

theorem Moves.failed_of_failed {q : Nat} (h : Moves s r source s') (hq : (s.requests q).failureStarted = true) :
    (s'.requests q).failureStarted = true := by
  by_cases hpending : s.pending r = true
  · have hne : q ≠ r := by
      rintro rfl
      rw [unfailed_of_pending hpending] at hq
      contradiction
    rw [h.frame.others q hne, hq]
  · rwa [h.eq_of_unpending (by simpa using hpending)]

theorem Moves.rollingBack {q : Nat} (h : Moves s r source s') (hq : q ∈ s'.rollingBack) :
    q ∈ s.rollingBack ∨ q = r ∧ s.pending r = true ∧ (s'.requests r).failureStarted = true := by
  cases h with
  | idle same => exact .inl (same ▸ hq)
  | keeps _ keeps => exact .inl (keeps.rollingBack ▸ hq)
  | commits _ _ _ _ rolling => exact .inl (rolling ▸ hq)
  | fails pending fails => exact (fails.rollingBack q hq).symm.imp_right fun h => ⟨h, pending, fails.failed⟩
  | ends _ _ _ rolling => exact .inl (rolling ▸ hq)

theorem Moves.outcomes (h : Moves s r source s') : (∀ q, s'.outcomes q = s.outcomes q) ∨
    s.pending r = true ∧ s'.pending r = false ∧ ∀ q, s'.outcomes q = s.outcomes q + if q = r then 1 else 0 := by
  cases h with
  | idle same => exact .inl fun q => by rw [same]
  | keeps _ keeps =>
    obtain ⟨new, hnew, hunsettled⟩ := keeps.calls
    exact .inl (outcomes_of_unsettled hnew hunsettled)
  | commits watched _ _ current _ new unsettled calls =>
    refine .inr ⟨pending_of_watched watched, ?_, outcomes_of_settled calls unsettled rfl⟩
    simp [pending, isCurrent, current]
  | fails pending fails =>
    obtain ⟨new, reason, hnew, hunsettled⟩ := fails.calls
    refine .inr ⟨pending, ?_, outcomes_of_settled hnew hunsettled rfl⟩
    simp [State.pending, fails.failed]
  | ends _ _ _ _ calls =>
    refine .inl fun q => ?_
    rw [State.outcomes, calls, State.outcomes]

/-- What holds of the controller in every run. -/
structure Sound (s : State β γ) : Prop where
  timed : s.Timed
  current : ∀ r, s.currentRequest = some r → r ≤ s.nextGeneration
  rollingBack : ∀ r ∈ s.rollingBack, r ≤ s.nextGeneration ∧ (s.requests r).failureStarted = true
  unsettled : ∀ r, s.nextGeneration < r ∨ s.pending r = true → s.outcomes r = 0
  settledOnce : ∀ r, s.outcomes r ≤ 1

theorem Moves.sound (hmoves : Moves s r source s') (h : Sound s) (htimed : Timed s') : Sound s' := by
  have hgeneration := hmoves.frame.nextGeneration
  refine ⟨htimed, fun q hq => ?_, fun q hq => ?_, fun q hq => ?_, fun q => ?_⟩
  · rw [hgeneration]
    obtain heq | heq := hmoves.currentRequest
    · exact h.current q (heq ▸ hq)
    · simp [heq] at hq
  · rw [hgeneration]
    obtain hold | ⟨rfl, hpending, hfailed⟩ := hmoves.rollingBack hq
    · exact ⟨(h.rollingBack q hold).1, hmoves.failed_of_failed (h.rollingBack q hold).2⟩
    · exact ⟨h.current q (current_of_pending hpending), hfailed⟩
  · have hbefore := h.unsettled q (hgeneration ▸ hq.imp_right hmoves.pending_of_pending)
    obtain hsame | ⟨hpending, hended, hmore⟩ := hmoves.outcomes
    · rw [hsame, hbefore]
    · have hne : q ≠ r := by
        rintro rfl
        have hbound := h.current q (current_of_pending hpending)
        rw [hended, hgeneration] at hq
        simp at hq
        omega
      rw [hmore, hbefore, if_neg hne]
  · obtain hsame | ⟨hpending, -, hmore⟩ := hmoves.outcomes
    · rw [hsame]
      exact h.settledOnce q
    · have hbefore := h.unsettled r (.inr hpending)
      have honce := h.settledOnce q
      rw [hmore]
      split
      · rename_i heq
        rw [heq, hbefore]
      · exact honce

end State

/-! What one event does. -/

def Event.request (s : State β γ) : Event β γ → Option Nat
  | .begin .. | .clear | .dispose => none
  | .arm r _ | .recordPlaybackRequested r .. | .setCommitData r _ | .fail r .. | .finish r | .rolledBack r => some r
  | .noteProgress request | .completeIfActive request .. => some (s.named request)
  | .timer timeout .. => (s.timers.find? fun timer => timer.1 == timeout).map Prod.snd

/-- The active source that an event finds. -/
def Event.activeSource : Event β γ → Text
  | .completeIfActive _ activePlaybackSource active => State.activeSource activePlaybackSource active
  | _ => []

namespace State
variable {cfg : Config} {s s' : State β γ} {e : Event β γ}

/-- What ends or forgets requests, and settles none. -/
structure Quiet (s s' : State β γ) : Prop where
  currentRequest : s'.currentRequest = s.currentRequest ∨ s'.currentRequest = none
  disposed : s.disposed = true → s'.disposed = true
  nextGeneration : s'.nextGeneration = s.nextGeneration
  rollingBack : ∀ q ∈ s'.rollingBack, q ∈ s.rollingBack
  calls : s'.calls = s.calls
  requests : ∀ q, (s'.requests q).baseline = (s.requests q).baseline ∧ (s'.requests q).failureStarted = (s.requests q).failureStarted

/-- What a `begin` leads to. -/
structure Begins (s s' : State β γ) (baseline : β) : Prop where
  undisposed : s.disposed = false
  currentRequest : s'.currentRequest = some (s.nextGeneration + 1)
  nextGeneration : s'.nextGeneration = s.nextGeneration + 1
  rollingBack : s'.rollingBack = s.rollingBack
  calls : s'.calls = s.calls
  requests : ∀ q, q ≠ s.nextGeneration + 1 → (s'.requests q).failureStarted = (s.requests q).failureStarted
  inherits : (s'.requests (s.nextGeneration + 1)).baseline = match s.currentRequest with
    | some r => (s.requests r).baseline
    | none => baseline

/-- The end of the rollback of a request that is still current. -/
def EndsRollback (s : State β γ) (e : Event β γ) (r : Nat) : Prop :=
  e = .rolledBack r ∧ s.currentRequest = some r ∧ (s.requests r).failureStarted = true

inductive Steps (s : State β γ) (e : Event β γ) (s' : State β γ) : Prop where
  | moves (r : Nat) (request : e.request s = some r) (moves : Moves s r e.activeSource s')
  | quiet (quiet : Quiet s s') (current : ∀ r, e.request s = some r → s'.currentRequest = s.currentRequest ∨ EndsRollback s e r)
  | begins (targetSourceHash : Text) (baseline : β) (startupTimeoutMs : Option Rat)
      (event : e = .begin targetSourceHash baseline startupTimeoutMs) (begins : Begins s s' baseline)

theorem quiet_refl (s : State β γ) : Quiet s s :=
  ⟨.inl rfl, fun h => h, rfl, fun _ h => h, rfl, fun _ => ⟨rfl, rfl⟩⟩

theorem Keeps.quiet {r : Nat} (h : Keeps s s' r) (hcalls : s'.calls = s.calls) : Quiet s s' := by
  refine ⟨.inl h.currentRequest, fun hs => h.disposed.trans hs, h.nextGeneration, fun q hq => h.rollingBack ▸ hq, hcalls, fun q => ?_⟩
  by_cases hq : q = r
  · rw [hq]
    exact ⟨h.baseline, h.failureStarted⟩
  · rw [h.others q hq]
    exact ⟨rfl, rfl⟩

/-- How `begin` and `clear` leave the current request. -/
theorem quiet_left {r : Nat} {phase : Phase} : Quiet s ((s.cancelWatchdog r).modify r fun request =>
    { request with resolveActive := false, armed := false, phase }) := by
  have hcancel := rewatched_cancelWatchdog s r
  refine (hcancel.keeps.trans (keeps_modify rfl rfl)).quiet ?_
  rw [modify_calls, hcancel.calls]

theorem begins_begin {targetSourceHash : Text} {baseline : β} {startupTimeoutMs : Option Rat} (h : s.disposed = false) :
    Begins s (s.begin cfg targetSourceHash baseline startupTimeoutMs) baseline := by
  unfold begin
  rw [if_neg (by simp [h])]
  dsimp only
  generalize hleft : (match s.currentRequest with
    | some r => (s.cancelWatchdog r).modify r fun request => { request with resolveActive := false, armed := false, phase := .superseded }
    | none => s) = s₁
  have hquiet : Quiet s s₁ ∧ s₁.rollingBack = s.rollingBack := by
    rw [← hleft]
    split
    · exact ⟨quiet_left, (rewatched_cancelWatchdog ..).rollingBack⟩
    · exact ⟨quiet_refl s, rfl⟩
  rw [hquiet.1.nextGeneration]
  refine ⟨h, rfl, rfl, hquiet.2, hquiet.1.calls, fun q hq => ?_, ?_⟩
  · rw [modify_requests_of_ne hq]
    exact (hquiet.1.requests q).2
  · rw [modify_requests_self]

theorem quiet_clear (s : State β γ) : Quiet s s.clear ∧ s.clear.currentRequest = none := by
  unfold clear
  split
  · rename_i hcurrent
    exact ⟨quiet_refl s, hcurrent⟩
  · rename_i r hcurrent
    have hleft := @quiet_left _ _ s r .cleared
    exact ⟨⟨.inr rfl, hleft.disposed, hleft.nextGeneration, hleft.rollingBack, hleft.calls, hleft.requests⟩, rfl⟩

theorem steps_timer {timeout : Nat} {captured : Captured} {throws : Bool} (h : Sound s) :
    Steps s (.timer timeout captured throws) (step cfg s (.timer timeout captured throws)) ∧
      Timed (step cfg s (.timer timeout captured throws)) := by
  dsimp only [step]
  cases hfind : s.timers.find? fun timer => timer.1 == timeout with
  | none => exact ⟨.quiet (quiet_refl s) fun _ _ => .inl rfl, h.timed⟩
  | some timer =>
    obtain ⟨found, r⟩ := timer
    have hfound : found = timeout := by simpa using List.find?_some hfind
    obtain ⟨hpending, hempty⟩ := h.timed.fired (hfound ▸ List.mem_of_find?_eq_some hfind)
    have hremoved : Keeps s { s with timers := s.timers.filter fun timer => timer.1 ≠ timeout } r :=
      ⟨⟨rfl, rfl, fun _ _ => rfl, rfl⟩, rfl, rfl, rfl, [], (List.append_nil _).symm, by simp⟩
    have hrequest : Event.request s (.timer timeout captured throws) = some r := by
      rw [Event.request, hfind, Option.map_some]
    refine ⟨.moves r hrequest ?_, timed_watch hempty⟩
    obtain hkeeps | hfails := @keeps_or_fails_watch _ _ cfg _ r captured throws (hremoved.pending_eq.trans hpending)
    · exact .keeps hpending (hremoved.trans hkeeps)
    · exact .fails hpending (hremoved.fails hfails)

theorem steps_rolledBack {r : Nat} (h : Sound s) :
    Steps s (.rolledBack r) (step cfg s (.rolledBack r)) ∧ Timed (step cfg s (.rolledBack r)) := by
  dsimp only [step]
  split
  · rename_i hrolling
    have herase : ∀ q ∈ s.rollingBack.erase r, q ∈ s.rollingBack := fun q => List.mem_of_mem_erase
    by_cases hcurrent : s.currentRequest = some r
    · have hfailed := (h.rollingBack r hrolling).2
      have hempty : s.timers = [] := h.timed.timers_eq_nil_of_current hcurrent (by simp [watched, hfailed])
      refine ⟨.quiet ⟨.inr (if_pos hcurrent), fun h => h, rfl, herase, rfl, fun _ => ⟨rfl, rfl⟩⟩ ?_, timed_of_empty hempty⟩
      intro q hq
      rw [Event.request, Option.some.injEq] at hq
      exact .inr ⟨hq ▸ rfl, hq ▸ hcurrent, hq ▸ hfailed⟩
    · rw [if_neg hcurrent]
      exact ⟨.quiet ⟨.inl rfl, fun h => h, rfl, herase, rfl, fun _ => ⟨rfl, rfl⟩⟩ fun _ _ => .inl rfl, h.timed⟩
  · exact ⟨.quiet (quiet_refl s) fun _ _ => .inl rfl, h.timed⟩

/-- What one event does. -/
theorem steps_step (h : Sound s) (e : Event β γ) : Steps s e (step cfg s e) ∧ Timed (step cfg s e) := by
  cases e with
  | begin targetSourceHash baseline startupTimeoutMs =>
    refine ⟨?_, h.timed.begin⟩
    cases hdisposed : s.disposed with
    | false => exact .begins targetSourceHash baseline startupTimeoutMs rfl (begins_begin hdisposed)
    | true =>
      have hsame : step cfg s (.begin targetSourceHash baseline startupTimeoutMs) = s := by
        rw [step, State.begin, if_pos hdisposed]
      rw [hsame]
      exact .quiet (quiet_refl s) fun _ _ => .inl rfl
  | arm r captured => exact ⟨.moves r rfl moves_arm, h.timed.arm⟩
  | recordPlaybackRequested r => exact ⟨.moves r rfl moves_recordPlaybackRequested, h.timed.recordPlaybackRequested⟩
  | noteProgress request => exact ⟨.moves _ rfl moves_noteProgress, h.timed.noteProgress⟩
  | setCommitData r => exact ⟨.moves r rfl moves_setCommitData, h.timed.setCommitData⟩
  | completeIfActive request => exact ⟨.moves _ rfl moves_completeIfActive, h.timed.completeIfActive⟩
  | fail r => exact ⟨.moves r rfl moves_fail, h.timed.fail⟩
  | finish r => exact ⟨.moves r rfl moves_finish, h.timed.finish⟩
  | clear => exact ⟨.quiet (quiet_clear s).1 (by simp [Event.request]), timed_of_empty h.timed.timers_clear⟩
  | dispose =>
    obtain ⟨hquiet, hnone⟩ := quiet_clear s
    refine ⟨.quiet ⟨.inr hnone, fun _ => rfl, hquiet.nextGeneration, hquiet.rollingBack, hquiet.calls, hquiet.requests⟩ ?_, ?_⟩
    · simp [Event.request]
    · exact timed_of_empty h.timed.timers_clear
  | timer => exact steps_timer h
  | rolledBack => exact steps_rolledBack h

theorem Quiet.current_of_current {q : Nat} (hquiet : Quiet s s') (hq : s'.currentRequest = some q) : s.currentRequest = some q := by
  obtain heq | heq := hquiet.currentRequest
  · rw [← heq, hq]
  · simp [heq] at hq

theorem Quiet.pending_of_pending {q : Nat} (hquiet : Quiet s s') (hpending : s'.pending q = true) : s.pending q = true := by
  have hnow := hquiet.current_of_current (current_of_pending hpending)
  have hunfailed := unfailed_of_pending hpending
  rw [(hquiet.requests q).2] at hunfailed
  have hundisposed : s.disposed = false := by
    by_contra hdisposed
    simp [pending, isCurrent, hquiet.disposed (by simpa using hdisposed)] at hpending
  simp [pending, isCurrent, hundisposed, hnow, hunfailed]

theorem Quiet.sound (hquiet : Quiet s s') (h : Sound s) (htimed : Timed s') : Sound s' := by
  have houtcomes : ∀ q, s'.outcomes q = s.outcomes q := fun q => by rw [outcomes, hquiet.calls, outcomes]
  refine ⟨htimed, fun q hq => ?_, fun q hq => ?_, fun q hq => ?_, fun q => houtcomes q ▸ h.settledOnce q⟩
  · rw [hquiet.nextGeneration]
    exact h.current q (hquiet.current_of_current hq)
  · rw [hquiet.nextGeneration, (hquiet.requests q).2]
    exact h.rollingBack q (hquiet.rollingBack q hq)
  · rw [houtcomes]
    exact h.unsettled q (hquiet.nextGeneration ▸ hq.imp_right hquiet.pending_of_pending)

theorem Begins.sound {baseline : β} (hbegins : Begins s s' baseline) (h : Sound s) (htimed : Timed s') : Sound s' := by
  have houtcomes : ∀ q, s'.outcomes q = s.outcomes q := fun q => by rw [outcomes, hbegins.calls, outcomes]
  refine ⟨htimed, fun q hq => ?_, fun q hq => ?_, fun q hq => ?_, fun q => houtcomes q ▸ h.settledOnce q⟩
  · rw [hbegins.currentRequest, Option.some.injEq] at hq
    rw [hbegins.nextGeneration, hq]
  · obtain ⟨hbound, hfailed⟩ := h.rollingBack q (hbegins.rollingBack ▸ hq)
    rw [hbegins.nextGeneration, hbegins.requests q (by omega)]
    exact ⟨by omega, hfailed⟩
  · rw [houtcomes]
    refine h.unsettled q (.inl ?_)
    obtain hfresh | hpending := hq
    · rw [hbegins.nextGeneration] at hfresh
      omega
    · have hnow := current_of_pending hpending
      rw [hbegins.currentRequest, Option.some.injEq] at hnow
      omega

theorem Sound.step (h : Sound s) (e : Event β γ) : Sound (step cfg s e) := by
  obtain ⟨hsteps, htimed⟩ := @steps_step _ _ cfg s h e
  cases hsteps with
  | moves _ _ moves => exact moves.sound h htimed
  | quiet quiet => exact quiet.sound h htimed
  | begins _ _ _ _ begins => exact begins.sound h htimed

theorem sound_initial (requests : Nat → Request β γ) : Sound (initial requests) := by
  refine ⟨timed_of_empty rfl, ?_, ?_, fun _ _ => rfl, fun _ => Nat.zero_le 1⟩
  · simp [initial]
  · simp [initial]

end State

/-! Every run. -/

/-- At most one request is current, none is settled twice, and a live timer is the watchdog of the current request,
which is armed and has not failed. -/
structure Kept (s : State β γ) : Prop where
  oneCurrent : ∀ r q, s.isCurrent r = true → s.isCurrent q = true → r = q
  settledOnce : ∀ r, s.outcomes r ≤ 1
  timers : ∀ timer ∈ s.timers, s.watched timer.2 = true

/-- The calls that an event makes. -/
def made (cfg : Config) (s : State β γ) (e : Event β γ) : List (Call β γ) := (step cfg s e).calls.drop s.calls.length

/-- An event of a request that is not pending makes no call, leaves no timer of it, and leaves the current request
but for the end of the rollback of that very one. -/
structure Inert (cfg : Config) (s : State β γ) (e : Event β γ) (r : Nat) : Prop where
  calls : made cfg s e = []
  timers : ∀ timer ∈ (step cfg s e).timers, timer.2 ≠ r
  currentRequest : (step cfg s e).currentRequest = s.currentRequest ∨ State.EndsRollback s e r

structure Proper (cfg : Config) (s : State β γ) (e : Event β γ) : Prop where
  commits : ∀ r commitData, .commit r commitData ∈ made cfg s e → s.watched r = true ∧ commitData = (s.requests r).commitData ∧
    e.activeSource ≠ [] ∧ State.expectedSource (s.requests r) = e.activeSource
  inert : ∀ r, e.request s = some r → s.pending r = false → Inert cfg s e r

/-- The baseline is the one of the first `begin` since when there always was a current request. -/
def FirstOfChain (cfg : Config) (requests : Nat → Request β γ) (events : List (Event β γ)) (baseline : β) : Prop :=
  ∃ before targetSourceHash startupTimeoutMs between,
    events = before ++ .begin targetSourceHash baseline startupTimeoutMs :: between ∧
    (before.foldl (step cfg) (State.initial requests)).currentRequest = none ∧
    ∀ passed, passed <+: between →
      ((before ++ .begin targetSourceHash baseline startupTimeoutMs :: passed).foldl (step cfg) (State.initial requests)).currentRequest ≠ none

/-- A rollback is of the current request, and restores what the first of its chain began with. -/
def Restores (cfg : Config) (requests : Nat → Request β γ) (events : List (Event β γ)) : Prop :=
  ∀ before e after r baseline reason, events = before ++ e :: after →
    .rollback r baseline reason ∈ made cfg (before.foldl (step cfg) (State.initial requests)) e →
    (before.foldl (step cfg) (State.initial requests)).currentRequest = some r ∧ FirstOfChain cfg requests before baseline

section
variable {cfg : Config} {s : State β γ} {e : Event β γ} {r : Nat} {requests : Nat → Request β γ} {events : List (Event β γ)} {baseline : β}
open State

theorem kept_of_sound (h : Sound s) : Kept s where
  oneCurrent r q hr hq := by
    rw [isCurrent, Bool.and_eq_true, beq_iff_eq] at hr hq
    simpa [hr.2] using hq.2
  settledOnce := h.settledOnce
  timers timer htimer := (h.timed timer htimer).1

theorem made_of_calls {new : List (Call β γ)} (h : (step cfg s e).calls = s.calls ++ new) : made cfg s e = new := by
  rw [made, h, List.drop_left]

theorem made_eq_nil (h : (step cfg s e).calls = s.calls) : made cfg s e = [] :=
  made_of_calls (h.trans (List.append_nil _).symm)

theorem inert_of_sound (h : Sound s) (hrequest : e.request s = some r) (hpending : s.pending r = false) : Inert cfg s e r := by
  obtain ⟨hsteps, htimed⟩ := @steps_step _ _ cfg s h e
  cases hsteps with
  | moves q request moves =>
    rw [hrequest, Option.some.injEq] at request
    have hsame := moves.eq_of_unpending (request ▸ hpending)
    refine ⟨made_eq_nil (by rw [hsame]), fun timer htimer => ?_, .inl (by rw [hsame])⟩
    rintro rfl
    have hwatched := (htimed timer htimer).1
    rw [hsame] at hwatched
    simp [pending_of_watched hwatched] at hpending
  | quiet quiet current =>
    refine ⟨made_eq_nil quiet.calls, fun timer htimer => ?_, current r hrequest⟩
    rintro rfl
    simp [quiet.pending_of_pending (pending_of_watched (htimed timer htimer).1)] at hpending
  | begins _ _ _ event => simp [event, Event.request] at hrequest

/-- A call that settles a request is the commit of a watched request or the rollback of a pending one. -/
theorem settled_made {c : Call β γ} (h : Sound s) (hmade : c ∈ made cfg s e) (hsettles : settles c ≠ none) :
    ∃ r, (c = .commit r (s.requests r).commitData ∧ s.watched r = true ∧ e.activeSource ≠ [] ∧
        expectedSource (s.requests r) = e.activeSource) ∨
      (∃ reason, c = .rollback r (s.requests r).baseline reason) ∧ s.pending r = true := by
  obtain ⟨hsteps, -⟩ := @steps_step _ _ cfg s h e
  cases hsteps with
  | moves r request moves =>
    refine ⟨r, ?_⟩
    cases moves with
    | idle same => simp [made_eq_nil (congrArg calls same)] at hmade
    | keeps _ keeps =>
      obtain ⟨new, hnew, hunsettled⟩ := keeps.calls
      rw [made_of_calls hnew] at hmade
      exact absurd (hunsettled c hmade) hsettles
    | commits watched active _ _ _ new unsettled calls =>
      rw [List.append_assoc] at calls
      rw [made_of_calls calls, List.mem_append, List.mem_singleton] at hmade
      obtain hmade | hmade := hmade
      · exact absurd (unsettled c hmade) hsettles
      · exact .inl ⟨hmade, watched, active⟩
    | fails pending fails =>
      obtain ⟨new, reason, hnew, hunsettled⟩ := fails.calls
      rw [List.append_assoc] at hnew
      rw [made_of_calls hnew, List.mem_append, List.mem_singleton] at hmade
      obtain hmade | hmade := hmade
      · exact absurd (hunsettled c hmade) hsettles
      · exact .inr ⟨⟨reason, hmade⟩, pending⟩
    | ends _ _ _ _ calls => simp [made_eq_nil calls] at hmade
  | quiet quiet => simp [made_eq_nil quiet.calls] at hmade
  | begins _ _ _ _ begins => simp [made_eq_nil begins.calls] at hmade

theorem proper_of_sound (h : Sound s) : Proper cfg s e := by
  refine ⟨fun r commitData hmade => ?_, fun r => inert_of_sound h⟩
  obtain ⟨q, ⟨hcommit, hwatched, hactive⟩ | ⟨⟨reason, hrollback⟩, -⟩⟩ := settled_made h hmade (by simp [settles])
  · rw [Call.commit.injEq] at hcommit
    rw [hcommit.1, hcommit.2]
    exact ⟨hwatched, rfl, hactive⟩
  · contradiction

/-! The baseline of the current request, by induction on the events from their end. -/

theorem FirstOfChain.snoc (h : FirstOfChain cfg requests events baseline)
    (hcurrent : ((events ++ [e]).foldl (step cfg) (initial requests)).currentRequest ≠ none) :
    FirstOfChain cfg requests (events ++ [e]) baseline := by
  obtain ⟨before, target, timeout, between, rfl, hnone, hthroughout⟩ := h
  refine ⟨before, target, timeout, between ++ [e], by simp, hnone, fun passed hpassed => ?_⟩
  obtain heq | hwithin := List.prefix_concat_iff.mp hpassed
  · rw [heq]
    simpa using hcurrent
  · exact hthroughout passed hwithin

theorem sound_run (events : List (Event β γ)) : Sound (events.foldl (step cfg) (initial requests)) := by
  induction events using List.reverseRecOn with
  | nil => exact sound_initial requests
  | append_singleton events e ih =>
    rw [List.foldl_concat]
    exact ih.step e

theorem firstOfChain_of_current (h : (events.foldl (step cfg) (initial requests)).currentRequest = some r) :
    FirstOfChain cfg requests events ((events.foldl (step cfg) (initial requests)).requests r).baseline := by
  induction events using List.reverseRecOn generalizing r with
  | nil => simp [initial] at h
  | append_singleton events e ih =>
    have hsome : ((events ++ [e]).foldl (step cfg) (initial requests)).currentRequest ≠ none := by
      rw [h]
      simp
    have hsound : Sound (events.foldl (step cfg) (initial requests)) := sound_run events
    obtain ⟨hsteps, -⟩ := @steps_step _ _ cfg _ hsound e
    rw [List.foldl_concat] at h ⊢
    cases hsteps with
    | moves q request moves =>
      obtain heq | heq := moves.currentRequest
      · rw [heq] at h
        have hbaseline : ((step cfg (events.foldl (step cfg) (initial requests)) e).requests r).baseline =
            ((events.foldl (step cfg) (initial requests)).requests r).baseline := by
          by_cases hr : r = q
          · rw [hr, moves.frame.baseline]
          · rw [moves.frame.others r hr]
        rw [hbaseline]
        exact (ih h).snoc hsome
      · simp [heq] at h
    | quiet quiet =>
      rw [(quiet.requests r).1]
      exact (ih (quiet.current_of_current h)).snoc hsome
    | begins target baseline timeout event begins =>
      rw [begins.currentRequest, Option.some.injEq] at h
      rw [← h, begins.inherits]
      cases hbefore : (events.foldl (step cfg) (initial requests)).currentRequest with
      | some q => exact (ih hbefore).snoc hsome
      | none =>
        refine ⟨events, target, timeout, [], by rw [event], hbefore, fun passed hpassed => ?_⟩
        rw [List.prefix_nil] at hpassed
        rw [hpassed, ← event]
        exact hsome

theorem restores_run : Restores cfg requests events := by
  intro before e after r baseline reason heq hmade
  obtain ⟨q, ⟨hcommit, -⟩ | ⟨⟨reason', hrollback⟩, hpending⟩⟩ := settled_made (sound_run before) hmade (by simp [settles])
  · contradiction
  · rw [Call.rollback.injEq] at hrollback
    rw [hrollback.1, hrollback.2.1]
    have hcurrent := current_of_pending hpending
    exact ⟨hcurrent, firstOfChain_of_current hcurrent⟩

end

/-- The controller over every run. -/
theorem switch_safe (cfg : Config) (requests : Nat → Request β γ) (events : List (Event β γ)) :
    Throughout (step cfg) Kept (State.initial requests) events ∧ Each (step cfg) (Proper cfg) (State.initial requests) events ∧
      Restores cfg requests events := by
  refine ⟨?_, each_of_split fun before e after heq => proper_of_sound (sound_run before), restores_run⟩
  exact (throughout_of_step (fun s e h => h.step e) (State.sound_initial requests)).imp fun s => kept_of_sound

/-- The rollback of a failed request ends, and with it goes the current request. -/
theorem rollback_ends_current :
    let s := [Event.begin [] true none, .fail 1 [] false].foldl (step ⟨fun hash => hash, 3000, 4, 1 / 100⟩)
      (State.initial (γ := Bool) fun _ => ⟨[], [], [], false, .cleared, false, false, false, none, 0, 4, false, none, none⟩)
    (s.requests 1).phase = .failed ∧ s.isCurrent 1 = true ∧
      (step ⟨fun hash => hash, 3000, 4, 1 / 100⟩ s (.rolledBack 1)).currentRequest = none := by
  decide

end run

end StreamArena.WebPlayer.ManualSourceSwitch
