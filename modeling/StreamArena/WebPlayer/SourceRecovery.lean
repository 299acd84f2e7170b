import Mathlib.Algebra.Order.Ring.Rat
import Mathlib.Data.List.Nodup
import StreamArena.Library.AsciiText
import StreamArena.Library.Runs

/-! Automatic recovery from a failed source (src/src-ui/player/source-recovery.js): the
budget of an attempt, and the runs that look for a replacement within it. -/
namespace StreamArena.WebPlayer.SourceRecovery
open AsciiText Runs

structure Limits where
  maxSources : Nat
  budgetMs : Int
  settleSeconds : Rat

def automaticRecovery : Limits := ⟨3, 60000, 30⟩

def maxAvoidedSourceHashes : Nat := 16

/-- What `createSourceRecoveryBudget` keeps of an attempt; sets list their members by age. -/
structure Attempt where
  spentMs : Int
  workFrom : Option Int
  tried : List Text
  sources : Nat
  failed : Bool
  progressFrom : Option Rat
  deriving DecidableEq

/-- `Set.prototype.add`. -/
def addTo (set : List Text) (hash : Text) : List Text := if hash ∈ set then set else set ++ [hash]

theorem mem_addTo {set : List Text} {hash other : Text} : other ∈ addTo set hash ↔ other = hash ∨ other ∈ set := by
  unfold addTo
  split
  · next h => exact ⟨Or.inr, fun hor => hor.elim (fun heq => heq ▸ h) id⟩
  · simp [or_comm]

inductive FailureKind where
  | source
  | transient
  | connectivity
  deriving DecidableEq

/-- How an awaited resolve ends: with a result, which may be stale and names a source, or with an error. -/
inductive Outcome where
  | resolved (stale : Bool) (sourceHash : Text)
  | rejected (kind : FailureKind)

/-- Where the run is: none is on, it is at the head of its loop, or it awaits a resolve. -/
inductive Phase where
  | idle
  | looping
  | resolving (sourceHash : Text)
  deriving DecidableEq

/-- A resolve of the attempt: its pinned source, none for the server's choice, whether that was
a failure of this page then, the work time spent, and whether its slot was given back. -/
structure Resolve where
  sourceHash : Text
  knownFailed : Bool
  spentMs : Int
  released : Bool
  deriving DecidableEq

/-- The budget, the page's failures, the run, and what the attempt and its run have done. -/
structure State where
  attempt : Option Attempt
  knownFailedSourceHashes : List Text
  phase : Phase
  resolves : List Resolve
  turns : Nat

/-- A picker answers a source outside the set it is given, the empty one for the server's
choice, or none. -/
structure Picker where
  pick : List Text → Option Text
  avoids : ∀ avoided hash, pick avoided = some hash → hash ≠ [] → hash ∉ avoided

inductive Event where
  | begin (now : Int) (failedSourceHash : Text)
  | startRun
  | turn (isCurrent : Bool) (now : Int) (picker : Picker)
  | settle (isCurrent : Bool) (now : Int) (outcome : Outcome)
  | noteProgress (seconds : Rat)
  | learnFailed (sourceHash : Text)
  | fail
  | reset

namespace Attempt

def fresh : Attempt := ⟨0, none, [], 0, false, none⟩

def spent (attempt : Attempt) (now : Int) : Int :=
  attempt.spentMs + (attempt.workFrom.map fun workFrom => now - workFrom).getD 0

def remainingMs (limits : Limits) (attempt : Attempt) (now : Int) : Int := max 0 (limits.budgetMs - attempt.spent now)

def isExhausted (limits : Limits) (attempt : Attempt) (now : Int) : Bool :=
  attempt.failed || decide (limits.maxSources ≤ attempt.sources) || decide (attempt.remainingMs limits now ≤ 0)

def begin (attempt : Attempt) (now : Int) (failedSourceHash : Text) : Attempt :=
  { attempt with
    workFrom := some (attempt.workFrom.getD now)
    tried := if failedSourceHash = [] then attempt.tried else addTo attempt.tried failedSourceHash
    progressFrom := none }

def claimSource (attempt : Attempt) : Attempt := { attempt with sources := attempt.sources + 1, progressFrom := none }

def releaseSource (attempt : Attempt) : Attempt := { attempt with sources := attempt.sources - 1 }

def noteApplied (attempt : Attempt) (now : Int) : Attempt :=
  match attempt.workFrom with
  | none => attempt
  | some workFrom => { attempt with spentMs := attempt.spentMs + (now - workFrom), workFrom := none }

/-- Sustained playback ends the attempt. -/
def noteProgress (limits : Limits) (attempt : Attempt) (seconds : Rat) : Option Attempt :=
  if attempt.failed then some attempt
  else
    let progressFrom := attempt.progressFrom.getD seconds
    if seconds - progressFrom < limits.settleSeconds then some { attempt with progressFrom := some progressFrom } else none

end Attempt

/-- Every hash to avoid, before the list is cut. -/
def everyAvoided (attempt : Attempt) (known : List Text) : List Text := (attempt.tried.reverse ++ known.reverse).eraseDups

def avoidedSourceHashes (attempt : Attempt) (known : List Text) : List Text :=
  (everyAvoided attempt known).take maxAvoidedSourceHashes

namespace State

def markTried (s : State) (sourceHash : Text) (failed : Bool) : State :=
  match s.attempt with
  | none => s
  | some attempt =>
    if sourceHash = [] then s
    else
      { s with
        attempt := some { attempt with tried := addTo attempt.tried sourceHash }
        knownFailedSourceHashes :=
          if failed then addTo s.knownFailedSourceHashes sourceHash else s.knownFailedSourceHashes }

/-- The slot of the last resolve is given back. -/
def releaseLast (s : State) : State :=
  { s with
    attempt := s.attempt.map Attempt.releaseSource
    resolves := s.resolves.dropLast ++ (s.resolves.getLast?.map fun resolve => { resolve with released := true }).toList }

def leave (s : State) : State := { s with phase := .idle }

end State

section steps
variable (limits : Limits)

/-- The head of the loop of `runBoundedSourceRecovery`, up to the resolve it awaits. -/
def turn (s : State) (isCurrent : Bool) (now : Int) (picker : Picker) : State :=
  match s.attempt with
  | none => s.leave
  | some attempt =>
    if !isCurrent || attempt.isExhausted limits now then s.leave
    else
      match picker.pick (avoidedSourceHashes attempt s.knownFailedSourceHashes) with
      | none => s.leave
      | some sourceHash =>
        { s with
          attempt := some attempt.claimSource
          phase := .resolving sourceHash
          resolves := s.resolves ++ [⟨sourceHash, decide (sourceHash ∈ s.knownFailedSourceHashes), attempt.spent now, false⟩] }

/-- What follows an awaited resolve. -/
def settle (s : State) (sourceHash : Text) (isCurrent : Bool) (now : Int) (outcome : Outcome) : State :=
  if !isCurrent then s.leave
  else
    match outcome with
    | .resolved true _ => s.leave
    | .resolved false resultHash =>
      let s := s.markTried (if resultHash = [] then sourceHash else resultHash) false
      { s with attempt := s.attempt.map fun attempt => Attempt.noteApplied attempt now, phase := .idle }
    | .rejected .connectivity => ((s.markTried sourceHash false).releaseLast).leave
    | .rejected kind =>
      let s := s.markTried sourceHash (kind == .source)
      if sourceHash = [] then s.leave else { s with phase := .looping }

def step (s : State) : Event → State
  | .begin now failedSourceHash =>
    match s.attempt with
    | none => { s with attempt := some (Attempt.fresh.begin now failedSourceHash), resolves := [] }
    | some attempt => { s with attempt := some (attempt.begin now failedSourceHash) }
  | .startRun => if s.phase = .idle then { s with phase := .looping, turns := 0 } else s
  | .turn isCurrent now picker =>
    if s.phase = .looping then turn limits { s with turns := s.turns + 1 } isCurrent now picker else s
  | .settle isCurrent now outcome =>
    match s.phase with
    | .resolving sourceHash => settle { s with turns := s.turns + 1 } sourceHash isCurrent now outcome
    | _ => s
  | .noteProgress seconds =>
    { s with attempt := s.attempt.bind fun attempt => attempt.noteProgress limits seconds }
  | .learnFailed sourceHash => { s with knownFailedSourceHashes := addTo s.knownFailedSourceHashes sourceHash }
  | .fail => { s with attempt := s.attempt.map fun attempt => { attempt with failed := true } }
  | .reset => { s with attempt := none }

end steps

/-- An event while the attempt is on. -/
def InAttempt (s : State) (_ : Event) : Prop := ∃ attempt, s.attempt = some attempt ∧ attempt.failed = false

def State.kept (s : State) : Nat := s.resolves.countP fun resolve => !resolve.released

def pinned (resolves : List Resolve) : List Text := (resolves.map Resolve.sourceHash).filter (· ≠ [])

/-- What the contract promises of an attempt. -/
structure Bounded (limits : Limits) (s : State) : Prop where
  slots : s.kept ≤ limits.maxSources
  once : (pinned s.resolves).Nodup
  unfailed : ∀ resolve ∈ s.resolves, resolve.sourceHash ≠ [] → resolve.knownFailed = false
  inBudget : ∀ resolve ∈ s.resolves, resolve.spentMs < limits.budgetMs
  ends : s.turns ≤ 2 * limits.maxSources + 1

/-- No pick falls on a hash that the cut drops from the avoided ones, and a pinned resolve is
remembered: it is not overtaken, and its result names no other source. -/
def Remembers (s : State) : Event → Prop
  | .turn _ _ picker => ∀ attempt, s.attempt = some attempt → ∀ sourceHash,
      picker.pick (avoidedSourceHashes attempt s.knownFailedSourceHashes) = some sourceHash → sourceHash ≠ [] →
        sourceHash ∉ (everyAvoided attempt s.knownFailedSourceHashes).drop maxAvoidedSourceHashes
  | .settle isCurrent _ outcome => ∀ sourceHash, s.phase = .resolving sourceHash → sourceHash ≠ [] →
      isCurrent = true ∧ ∀ stale resultHash, outcome = .resolved stale resultHash →
        stale = false ∧ (resultHash = [] ∨ resultHash = sourceHash)
  | _ => True

/-- How the attempt stands to what it has done. -/
structure Linked (s : State) (attempt : Attempt) : Prop where
  sources : attempt.sources = s.kept
  tried : ∀ sourceHash ∈ pinned s.resolves, sourceHash ∈ attempt.tried ∨ s.phase = .resolving sourceHash
  looping : s.phase = .looping → ∃ k ≤ s.kept, s.turns = 2 * k
  resolving : ∀ sourceHash, s.phase = .resolving sourceHash → (∃ k < s.kept, s.turns = 2 * k + 1) ∧
    ∃ before resolve, s.resolves = before ++ [resolve] ∧ resolve.sourceHash = sourceHash ∧ resolve.released = false

structure Inv (limits : Limits) (s : State) : Prop where
  bounded : Bounded limits s
  linked : ∀ attempt, s.attempt = some attempt → Linked s attempt

variable {limits : Limits} {s : State} {attempt : Attempt}

theorem pinned_concat {resolves : List Resolve} {resolve : Resolve} : pinned (resolves ++ [resolve]) =
    pinned resolves ++ if resolve.sourceHash = [] then [] else [resolve.sourceHash] := by
  unfold pinned
  split <;> simp_all

/-- A change of the attempt, the page's failures or a run that is over leaves the rest. -/
theorem Linked.forget {next : State} {attempt' : Attempt} (h : Linked s attempt) (hresolves : next.resolves = s.resolves)
    (hsources : attempt'.sources = attempt.sources) (htried : ∀ hash ∈ attempt.tried, hash ∈ attempt'.tried)
    (hphase : next.phase = s.phase) (hturns : next.turns = s.turns) : Linked next attempt' := by
  have hkept : next.kept = s.kept := by rw [State.kept, State.kept, hresolves]
  refine ⟨by rw [hsources, hkept, h.sources], fun hash hmem => ?_, fun hloop => ?_, fun hash hres => ?_⟩
  · rw [hresolves] at hmem
    rw [hphase]
    exact (h.tried hash hmem).imp_left (htried hash)
  · rw [hphase] at hloop
    rw [hkept, hturns]
    exact h.looping hloop
  · rw [hphase] at hres
    rw [hkept, hturns, hresolves]
    exact h.resolving hash hres

/-- A run that is over has remembered what it pinned. -/
theorem Linked.idle {next : State} {attempt' : Attempt} (hsources : attempt'.sources = next.kept) (hphase : next.phase = .idle)
    (htried : ∀ hash ∈ pinned next.resolves, hash ∈ attempt'.tried) : Linked next attempt' := by
  refine ⟨hsources, fun hash hmem => .inl (htried hash hmem), fun hloop => ?_, fun hash hres => ?_⟩
  · rw [hphase] at hloop
    cases hloop
  · rw [hphase] at hres
    cases hres

theorem Bounded.same {next : State} (h : Bounded limits s) (hresolves : next.resolves = s.resolves)
    (hturns : next.turns ≤ 2 * limits.maxSources + 1) : Bounded limits next := by
  have hkept : next.kept = s.kept := by rw [State.kept, State.kept, hresolves]
  exact ⟨hkept ▸ h.slots, hresolves ▸ h.once, hresolves ▸ h.unfailed, hresolves ▸ h.inBudget, hturns⟩

theorem spent_lt_of_not_exhausted {now : Int} (h : attempt.isExhausted limits now = false) :
    attempt.sources < limits.maxSources ∧ attempt.spent now < limits.budgetMs := by
  simp only [Attempt.isExhausted, Bool.or_eq_false_iff, decide_eq_false_iff_not] at h
  obtain ⟨⟨-, hsources⟩, hremaining⟩ := h
  refine ⟨by omega, ?_⟩
  by_contra hspent
  exact hremaining (max_le (le_refl 0) (by omega))

theorem notMem_of_everyAvoided {known : List Text} {sourceHash : Text}
    (hcut : sourceHash ∉ avoidedSourceHashes attempt known)
    (hdropped : sourceHash ∉ (everyAvoided attempt known).drop maxAvoidedSourceHashes) :
    sourceHash ∉ attempt.tried ∧ sourceHash ∉ known := by
  have hall : sourceHash ∉ everyAvoided attempt known := by
    rw [← List.take_append_drop maxAvoidedSourceHashes (everyAvoided attempt known), List.mem_append]
    exact fun hor => hor.elim hcut hdropped
  simpa [everyAvoided, List.mem_eraseDups] using hall

theorem inv_turn (hs : Inv limits s) (hattempt : s.attempt = some attempt) (hlooping : s.phase = .looping) {isCurrent : Bool}
    {now : Int} {picker : Picker} (hremembers : Remembers s (.turn isCurrent now picker)) :
    Inv limits (turn limits { s with turns := s.turns + 1 } isCurrent now picker) := by
  have hlinked := hs.linked attempt hattempt
  obtain ⟨k, hk, hturns⟩ := hlinked.looping hlooping
  have hslots := hs.bounded.slots
  have htried : ∀ hash ∈ pinned s.resolves, hash ∈ attempt.tried := by
    intro hash hmem
    have hor := hlinked.tried hash hmem
    rw [hlooping] at hor
    exact hor.resolve_right (fun h => by cases h)
  have hleave : Inv limits (State.leave { s with attempt := some attempt, turns := s.turns + 1 }) := by
    refine ⟨hs.bounded.same rfl (by dsimp only [State.leave]; rw [hturns]; omega), fun attempt' hattempt' => ?_⟩
    rw [← Option.some.inj hattempt']
    exact Linked.idle hlinked.sources rfl htried
  unfold turn
  dsimp only
  rw [hattempt]
  dsimp only
  split
  · exact hleave
  · next hgoes =>
    split
    · exact hleave
    · next sourceHash hpick =>
      rw [Bool.or_eq_true, not_or, Bool.not_eq_true, Bool.not_eq_true] at hgoes
      obtain ⟨hsources, hspent⟩ := spent_lt_of_not_exhausted hgoes.2
      have hnew (hne : sourceHash ≠ []) : sourceHash ∉ attempt.tried ∧ sourceHash ∉ s.knownFailedSourceHashes :=
        notMem_of_everyAvoided (picker.avoids _ sourceHash hpick hne) (hremembers attempt hattempt sourceHash hpick hne)
      rw [hlinked.sources] at hsources
      have hlast := @pinned_concat s.resolves ⟨sourceHash, decide (sourceHash ∈ s.knownFailedSourceHashes), attempt.spent now, false⟩
      dsimp only at hlast
      refine ⟨⟨?_, ?_, fun resolve hmem hne => ?_, fun resolve hmem => ?_, ?_⟩, fun attempt' hattempt' => ?_⟩
      · simpa [State.kept] using hsources
      · dsimp only
        rw [hlast]
        split
        · simpa using hs.bounded.once
        · next hne =>
          rw [List.nodup_append]
          refine ⟨hs.bounded.once, List.nodup_singleton _, ?_⟩
          rintro hash hold hash' hin rfl
          rw [List.mem_singleton.mp hin] at hold
          exact (hnew hne).1 (htried sourceHash hold)
      · rcases List.mem_append.mp hmem with hold | hlast
        · exact hs.bounded.unfailed resolve hold hne
        · rw [List.mem_singleton.mp hlast] at hne ⊢
          exact decide_eq_false (hnew hne).2
      · rcases List.mem_append.mp hmem with hold | hlast
        · exact hs.bounded.inBudget resolve hold
        · rw [List.mem_singleton.mp hlast]
          exact hspent
      · dsimp only
        omega
      · rw [← Option.some.inj hattempt']
        refine ⟨?_, ?_, ?_, ?_⟩
        · simp [Attempt.claimSource, hlinked.sources, State.kept]
        · intro hash hmem
          dsimp only at hmem
          rw [hlast, List.mem_append] at hmem
          rcases hmem with hold | hin
          · exact .inl (htried hash hold)
          · split at hin
            · cases hin
            · rw [List.mem_singleton.mp hin]
              exact .inr rfl
        · intro hloop
          cases hloop
        · intro hash hphase
          rw [← Phase.resolving.inj hphase]
          refine ⟨⟨k, ?_, ?_⟩, s.resolves, _, rfl, rfl, rfl⟩
          · simp [State.kept] at hk ⊢
            omega
          · dsimp only
            omega

def Attempt.mark (attempt : Attempt) (sourceHash : Text) : Attempt :=
  { attempt with tried := if sourceHash = [] then attempt.tried else addTo attempt.tried sourceHash }

theorem markTried_eq (hattempt : s.attempt = some attempt) (sourceHash : Text) (failed : Bool) : ∃ known,
    s.markTried sourceHash failed = { s with attempt := some (attempt.mark sourceHash), knownFailedSourceHashes := known } := by
  unfold State.markTried Attempt.mark
  rw [hattempt]
  dsimp only
  split
  · exact ⟨s.knownFailedSourceHashes, by rw [← hattempt]⟩
  · exact ⟨_, rfl⟩

theorem tried_mark (sourceHash : Text) : (∀ hash ∈ attempt.tried, hash ∈ (attempt.mark sourceHash).tried) ∧
    (sourceHash ≠ [] → sourceHash ∈ (attempt.mark sourceHash).tried) := by
  unfold Attempt.mark
  dsimp only
  split
  · next hempty => exact ⟨fun _ h => h, fun hne => absurd hempty hne⟩
  · exact ⟨fun hash hmem => mem_addTo.mpr (.inr hmem), fun _ => mem_addTo.mpr (.inl rfl)⟩

/-- A run that ends behind a resolve it remembers. -/
theorem Linked.settled {sourceHash : Text} {next : State} {attempt' : Attempt} (h : Linked s attempt)
    (hphase : s.phase = .resolving sourceHash) (hnext : next.phase = .idle) (hpinned : pinned next.resolves = pinned s.resolves)
    (hsources : attempt'.sources = next.kept) (htried : ∀ hash ∈ attempt.tried, hash ∈ attempt'.tried)
    (hmarked : sourceHash ≠ [] → sourceHash ∈ attempt'.tried) : Linked next attempt' := by
  refine Linked.idle hsources hnext fun hash hmem => ?_
  rw [hpinned] at hmem
  have hne : hash ≠ [] := by simpa using (List.mem_filter.mp hmem).2
  rcases h.tried hash hmem with hold | hresolving
  · exact htried hash hold
  · rw [hphase, Phase.resolving.injEq] at hresolving
    rw [← hresolving] at hne ⊢
    exact hmarked hne

/-- The slot that is given back is the awaited resolve's. -/
theorem releaseLast_eq {t : State} {before : List Resolve} {resolve : Resolve} (h : t.resolves = before ++ [resolve]) :
    t.releaseLast = { t with attempt := t.attempt.map Attempt.releaseSource,
                             resolves := before ++ [{ resolve with released := true }] } := by
  simp [State.releaseLast, h]

theorem inv_settle (hs : Inv limits s) (hattempt : s.attempt = some attempt) {sourceHash : Text}
    (hphase : s.phase = .resolving sourceHash) {isCurrent : Bool} {now : Int} {outcome : Outcome}
    (hremembers : Remembers s (.settle isCurrent now outcome)) :
    Inv limits (settle { s with turns := s.turns + 1 } sourceHash isCurrent now outcome) := by
  have hlinked := hs.linked attempt hattempt
  obtain ⟨⟨k, hk, hturns⟩, before, resolve, hresolves, hhash, hreleased⟩ := hlinked.resolving sourceHash hphase
  have hslots := hs.bounded.slots
  have hmost : s.turns + 1 ≤ 2 * limits.maxSources + 1 := by omega
  have hkeeps := hremembers sourceHash hphase
  -- an end that forgets the source leaves a server's choice only
  have hleave (hempty : sourceHash = []) : Inv limits (State.leave { s with turns := s.turns + 1 }) := by
    refine ⟨hs.bounded.same rfl hmost, fun attempt' hattempt' => ?_⟩
    have hsame : attempt = attempt' := Option.some.inj (hattempt.symm.trans hattempt')
    rw [← hsame]
    exact hlinked.settled hphase rfl rfl hlinked.sources (fun _ h => h) fun hne => absurd hempty hne
  have hmark (hash : Text) (failed : Bool) := @markTried_eq { s with turns := s.turns + 1 } attempt hattempt hash failed
  have htried := @tried_mark attempt
  unfold settle
  split
  · next hstale =>
    refine hleave (by_contra fun hne => ?_)
    rw [(hkeeps hne).1] at hstale
    cases hstale
  · split
    · refine hleave (by_contra fun hne => ?_)
      have hfresh := ((hkeeps hne).2 true _ rfl).1
      cases hfresh
    · next resultHash =>
      obtain ⟨known, hmarked⟩ := hmark (if resultHash = [] then sourceHash else resultHash) false
      dsimp only
      rw [hmarked]
      refine ⟨hs.bounded.same rfl hmost, fun attempt' hattempt' => ?_⟩
      rw [← Option.some.inj hattempt']
      have happlied (a : Attempt) : (a.noteApplied now).tried = a.tried ∧ (a.noteApplied now).sources = a.sources := by
        unfold Attempt.noteApplied
        split <;> exact ⟨rfl, rfl⟩
      refine hlinked.settled hphase rfl rfl ((happlied _).2.trans hlinked.sources) ?_ fun hne => ?_
      · rw [(happlied _).1]
        exact (htried _).1
      · have hsame : (if resultHash = [] then sourceHash else resultHash) = sourceHash := by
          rcases ((hkeeps hne).2 false _ rfl).2 with hempty | hnamed
          · rw [if_pos hempty]
          · rw [hnamed, if_neg hne]
        rw [(happlied _).1, hsame]
        exact (htried _).2 hne
    · obtain ⟨known, hmarked⟩ := hmark sourceHash false
      have hreleased' := @releaseLast_eq 
        { s with attempt := some (attempt.mark sourceHash), knownFailedSourceHashes := known, turns := s.turns + 1 } before resolve hresolves
      rw [hmarked, hreleased']
      have hkept : s.kept = before.countP (fun resolve => !resolve.released) + 1 := by
        rw [State.kept, hresolves]
        simp [hreleased]
      have hpinned : pinned (before ++ [{ resolve with released := true }]) = pinned s.resolves := by
        rw [hresolves, pinned_concat, pinned_concat]
      have hmem (r : Resolve) (h : r ∈ before ++ [{ resolve with released := true }]) :
          ∃ r' ∈ s.resolves, r'.sourceHash = r.sourceHash ∧ r'.knownFailed = r.knownFailed ∧ r'.spentMs = r.spentMs := by
        rw [hresolves]
        rcases List.mem_append.mp h with hold | hlast
        · exact ⟨r, List.mem_append_left _ hold, rfl, rfl, rfl⟩
        · rw [List.mem_singleton.mp hlast]
          exact ⟨resolve, List.mem_append_right _ (List.mem_singleton_self _), rfl, rfl, rfl⟩
      refine ⟨⟨?_, ?_, fun r hr hne => ?_, fun r hr => ?_, hmost⟩, fun attempt' hattempt' => ?_⟩
      · simp only [State.leave, State.kept, List.countP_append, List.countP_singleton]
        simp
        omega
      · exact hpinned ▸ hs.bounded.once
      · obtain ⟨r', hr', hsame, hfailed, -⟩ := hmem r hr
        rw [← hfailed]
        exact hs.bounded.unfailed r' hr' (hsame ▸ hne)
      · obtain ⟨r', hr', -, -, hspent⟩ := hmem r hr
        rw [← hspent]
        exact hs.bounded.inBudget r' hr'
      · rw [← Option.some.inj hattempt']
        refine hlinked.settled hphase rfl hpinned ?_ (htried sourceHash).1 (htried sourceHash).2
        have hsources := hlinked.sources
        simp only [State.leave, State.kept, List.countP_append, List.countP_singleton, Attempt.releaseSource, Attempt.mark]
        simp
        omega
    · next kind hkind =>
      obtain ⟨known, hmarked⟩ := hmark sourceHash (kind == .source)
      dsimp only
      rw [hmarked]
      split
      · next hempty =>
        refine ⟨hs.bounded.same rfl hmost, fun attempt' hattempt' => ?_⟩
        rw [← Option.some.inj hattempt']
        exact hlinked.settled hphase rfl rfl hlinked.sources (htried sourceHash).1 (htried sourceHash).2
      · next hne =>
        refine ⟨hs.bounded.same rfl hmost, fun attempt' hattempt' => ?_⟩
        rw [← Option.some.inj hattempt']
        refine ⟨hlinked.sources, fun hash hmem => .inl ?_, fun _ => ⟨k + 1, hk, ?_⟩, fun _ h => by cases h⟩
        · rcases hlinked.tried hash hmem with hold | hresolving
          · exact (htried sourceHash).1 hash hold
          · rw [hphase, Phase.resolving.injEq] at hresolving
            rw [← hresolving]
            exact (htried sourceHash).2 hne
        · dsimp only
          omega

theorem inv_step (hs : Inv limits s) {event : Event} (hin : InAttempt s event) (hremembers : Remembers s event) :
    Inv limits (step limits s event) := by
  obtain ⟨attempt, hattempt, hfailed⟩ := hin
  have hlinked := hs.linked attempt hattempt
  cases event with
  | begin now failedSourceHash =>
    simp only [step, hattempt]
    refine ⟨hs.bounded.same rfl hs.bounded.ends, fun attempt' hattempt' => ?_⟩
    rw [← Option.some.inj hattempt']
    exact hlinked.forget rfl rfl (@tried_mark attempt failedSourceHash).1 rfl rfl
  | startRun =>
    simp only [step]
    split
    · next hidle =>
      refine ⟨hs.bounded.same rfl (Nat.zero_le _), fun attempt' hattempt' => ?_⟩
      have hsame : attempt = attempt' := Option.some.inj (hattempt.symm.trans hattempt')
      rw [← hsame]
      refine ⟨hlinked.sources, fun hash hmem => .inl ?_, fun _ => ⟨0, Nat.zero_le _, rfl⟩, fun _ h => by cases h⟩
      have hor := hlinked.tried hash hmem
      rw [hidle] at hor
      exact hor.resolve_right fun h => by cases h
    · exact hs
  | turn isCurrent now picker =>
    simp only [step]
    split
    · next hlooping => exact inv_turn hs hattempt hlooping hremembers
    · exact hs
  | settle isCurrent now outcome =>
    simp only [step]
    split
    · next sourceHash hphase => exact inv_settle hs hattempt hphase hremembers
    · exact hs
  | noteProgress seconds =>
    refine ⟨hs.bounded.same rfl hs.bounded.ends, fun attempt' hattempt' => ?_⟩
    simp only [step, hattempt, Option.bind_some, Attempt.noteProgress, hfailed] at hattempt'
    rw [if_neg Bool.false_ne_true] at hattempt'
    split at hattempt'
    · rw [← Option.some.inj hattempt']
      exact hlinked.forget rfl rfl (fun _ h => h) rfl rfl
    · cases hattempt'
  | learnFailed sourceHash =>
    refine ⟨hs.bounded.same rfl hs.bounded.ends, fun attempt' hattempt' => ?_⟩
    have hsame : attempt = attempt' := Option.some.inj (hattempt.symm.trans hattempt')
    rw [← hsame]
    exact hlinked.forget rfl rfl (fun _ h => h) rfl rfl
  | fail =>
    refine ⟨hs.bounded.same rfl hs.bounded.ends, fun attempt' hattempt' => ?_⟩
    simp only [step, hattempt, Option.map_some] at hattempt'
    rw [← Option.some.inj hattempt']
    exact hlinked.forget rfl rfl (fun _ h => h) rfl rfl
  | reset =>
    refine ⟨hs.bounded.same rfl hs.bounded.ends, fun attempt' hattempt' => ?_⟩
    cases hattempt'

/-- The state in which an attempt begins. -/
def begun (now : Int) (failedSourceHash : Text) (known : List Text) : State :=
  ⟨some (Attempt.fresh.begin now failedSourceHash), known, .idle, [], 0⟩

theorem inv_begun (limits : Limits) (now : Int) (failedSourceHash : Text) (known : List Text) :
    Inv limits (begun now failedSourceHash known) where
  bounded := ⟨Nat.zero_le _, List.nodup_nil, fun _ h => absurd h List.not_mem_nil, fun _ h => absurd h List.not_mem_nil,
    Nat.zero_le _⟩
  linked attempt hattempt := by
    rw [← Option.some.inj hattempt]
    exact Linked.idle rfl rfl fun _ h => absurd h List.not_mem_nil

/-- An attempt whose picks and resolves are all remembered keeps its contract until it is settled. -/
theorem recovery_bounded (limits : Limits) (now : Int) (failedSourceHash : Text) (known : List Text) (events : List Event)
    (heach : Each (step limits) (fun s event => InAttempt s event ∧ Remembers s event)
      (begun now failedSourceHash known) events) :
    Throughout (step limits) (Bounded limits) (begun now failedSourceHash known) events := by
  have hstep : ∀ s event, InAttempt s event ∧ Remembers s event → Inv limits s → Inv limits (step limits s event) :=
    fun s event hevent hs => inv_step hs hevent.1 hevent.2
  exact (throughout_of_each hstep (inv_begun limits now failedSourceHash known) heach).imp fun s hs => hs.bounded

/-- Picks one source as long as it is not avoided. -/
def pickOne (sourceHash : Text) : Picker where
  pick avoided := if sourceHash ∈ avoided then none else some sourceHash
  avoids avoided hash hpick _ := by
    split at hpick
    · cases hpick
    · next havoided => exact Option.some.inj hpick ▸ havoided

theorem recovery_bounded_timeout :
    Throughout (step automaticRecovery) (Bounded automaticRecovery) (begun 0 ['a'] [['z']])
      [.startRun, .turn true 0 (pickOne ['b']), .settle true 5000 (.rejected .transient)] := by
  refine recovery_bounded automaticRecovery 0 ['a'] [['z']] _ ⟨⟨⟨_, rfl, rfl⟩, trivial⟩, ⟨⟨_, rfl, rfl⟩, ?_⟩,
    ⟨⟨_, rfl, rfl⟩, fun sourceHash _ _ => ⟨rfl, fun _ _ h => by cases h⟩⟩, trivial⟩
  intro attempt hattempt sourceHash _ _
  rw [← Option.some.inj hattempt]
  exact List.not_mem_nil

/-- Seventeen sources that failed on this page, the first of them long ago. -/
def longFailed : List Text := "abcdefghijklmnopq".toList.map fun c => [c]

/-- The oldest failure is cut from the avoided sources, and is pinned again. -/
theorem cut_failure_pinned :
    ¬∀ limits now failedSourceHash known events, Each (step limits) InAttempt (begun now failedSourceHash known) events →
      Throughout (step limits) (Bounded limits) (begun now failedSourceHash known) events := by
  intro h
  have hrun := h automaticRecovery 0 ['z'] longFailed [.startRun, .turn true 0 (pickOne ['a'])]
    ⟨⟨_, rfl, rfl⟩, ⟨_, rfl, rfl⟩, trivial⟩
  have hresolves : ([.startRun, .turn true 0 (pickOne ['a'])].foldl (step automaticRecovery) (begun 0 ['z'] longFailed)).resolves =
      [⟨['a'], true, 0, false⟩] := by decide +kernel
  have hunfailed := hrun.last.unfailed ⟨['a'], true, 0, false⟩ (by rw [hresolves]; exact List.mem_singleton_self _)
    (List.cons_ne_nil _ _)
  cases hunfailed

end StreamArena.WebPlayer.SourceRecovery
