import Mathlib
import StreamArena.Library.Runs
import StreamArena.Mobile.Player

/-! The saved position of an opened title: the place where playback is to go on, through the read of the saved position,
the sources that are started and the recovery steps between them. -/
namespace StreamArena.Mobile
open Runs
namespace PlayerState

/-- The player with the place that the viewer is at. -/
structure Viewing where
  player : PlayerState
  /-- The saved position has arrived. -/
  read : Bool
  /-- A source has been started. -/
  applied : Bool
  /-- The saved position did not fit the first source that was started. -/
  short : Bool
  /-- The saved position until a source is started; then what is being sought, or was confirmed last. -/
  place : ℚ

def Viewing.opened (saved : ℚ) (p : PlayerState) (request : PlayRequest) (sourceHash : Option AsciiText.Text)
    (offline : Option OfflineRecord) (now : Nat) : Viewing :=
  { player := p.opened request sourceHash offline now, read := false, applied := false, short := false, place := saved }

/-- It has been decided where the source is to play from. -/
def startsSource (p q : PlayerState) : Bool := !p.resumeApplied && q.resumeApplied

def readsSaved (p : PlayerState) : PlayerEvent → Bool
  | .resumeLoaded _ => p.resumeLoading
  | _ => false

/-- The position that a started source confirms. -/
def confirms (p : PlayerState) : PlayerEvent → Option ℚ
  | .setProgress position _ source _ _ =>
    if p.resumeApplied && p.hears source && p.seekConfirmed position then some position else none
  | _ => none

def loadedDuration (p : PlayerState) (duration : ℚ) : ℚ := if duration > 0 then duration else p.duration

def Viewing.follow (saved : ℚ) (v : Viewing) (e : PlayerEvent) : Viewing :=
  let q := v.player.step saved e
  if v.player.startsSource q then
    { player := q
      read := v.read || v.player.readsSaved e
      applied := true
      short := v.short || (!v.applied && !fits saved q.duration)
      place := if q.pendingSeekSeconds.isSome then v.place else q.position }
  else
    { v with
      player := q
      read := v.read || v.player.readsSaved e
      place := (v.player.confirms e).getD v.place }

/-- A source that an event starts is started at the place, unless that does not fit or is behind, and with the saved
position read no source is loaded without being started; no report lies further than the landing window behind the saved
position, unless that does not fit. -/
structure KeepsPlace (saved : ℚ) (v : Viewing) (e : PlayerEvent) : Prop where
  starts : v.player.startsSource (v.player.step saved e) = true → (v.player.step saved e).resumeSeconds = v.place ∧
    ((v.player.step saved e).pendingSeekSeconds = some v.place ∨ v.place + 5 < (v.player.step saved e).position ∨
      fits v.place (v.player.step saved e).duration = false)
  loads : (v.follow saved e).read = true → (v.player.step saved e).loaded = true →
    (v.player.step saved e).resumeApplied = true
  reports : ∀ report, (v.player.step saved e).sent = report :: v.player.sent →
    saved - seekLandingWindowSeconds ≤ report.position ∨ v.short = true ∨
      (v.player.step saved e).loaded = true ∧ fits saved (v.player.step saved e).duration = false

/-- No source loads after a recovery step before the saved position is read, nothing is reported before a source is
started, and a source that was started plays on from its place; but for positions in the window, and titles that the
saved position does not fit. -/
def Undisturbed (saved : ℚ) (v : Viewing) : PlayerEvent → Prop
  | .onLoad duration source _ =>
    v.player.hears source = true → v.player.resumeFor = v.player.request → v.player.resumeApplied = false →
      v.read = true ∧ (v.applied = true → v.short = true ∨ saved - seekLandingWindowSeconds ≤ v.player.position ∨
        fits v.place (v.player.loadedDuration duration) = true)
  | .setProgress position duration source now _ =>
    v.player.hears source = true → v.player.seekConfirmed position = true →
      v.short = true ∨ saved - seekLandingWindowSeconds ≤ position ∨
        if v.player.resumeApplied = true then
          v.player.pendingSeekSeconds = some saved ∨ v.player.position ≤ position
        else
          v.player.reportDue position now = false ∨
            v.player.loaded = true ∧ fits saved (v.player.loadedDuration duration) = false
  | .onEnd fraction source _ =>
    v.player.hears source = true → v.player.isRealEnd fraction = true →
      v.short = true ∨ saved - seekLandingWindowSeconds ≤ v.player.position ∨ v.player.resumeApplied = true ∨
        v.player.lastFlushMs = none ∨ v.player.loaded = true ∧ fits saved v.player.duration = false
  | _ => True

instance (saved : ℚ) (v : Viewing) (e : PlayerEvent) : Decidable (Undisturbed saved v e) :=
  match e with
  | .onLoad .. => inferInstanceAs (Decidable (_ → _ → _ → _ ∧ (_ → _)))
  | .setProgress .. => inferInstanceAs (Decidable (_ → _ → _ ∨ _ ∨ ite _ _ _))
  | .onEnd .. => inferInstanceAs (Decidable (_ → _ → _ ∨ _))
  | .resolved .. | .resolveFailed .. | .sourcesListed .. | .sourcesFailed | .resumeLoaded .. | .onBuffer .. | .onError .. |
    .mediaUnavailable | .onStall => isTrue trivial

/-- The place is kept in the fields of the player: before a source is started as what it is to be sought to, then as the
position shown. -/
structure Placed (saved : ℚ) (v : Viewing) : Prop where
  before : v.applied = false →
    v.player.resumeApplied = false ∧ v.player.pendingSeekSeconds = none ∧ v.place = saved
  once : v.read = true → v.player.resumeLoading = false
  waiting : v.read = true → v.player.resumeApplied = false → v.player.resumeFor = v.player.request ∧
    v.player.resumeSeconds = v.place ∧ v.player.pendingSeekSeconds = none
  started : v.player.resumeApplied = true →
    v.place = v.player.position ∧ ∀ target, v.player.pendingSeekSeconds = some target → target = v.player.position
  read : v.applied = true → v.read = true
  loaded : v.read = true → v.player.loaded = true → v.player.resumeApplied = true
  near : v.applied = true → v.short = false → saved - seekLandingWindowSeconds ≤ v.place

section effects

/-- Nothing about the place changes. -/
structure SamePlace (p q : PlayerState) : Prop where
  request : q.request = p.request
  applied : q.resumeApplied = p.resumeApplied
  seconds : q.resumeSeconds = p.resumeSeconds
  owner : q.resumeFor = p.resumeFor
  pending : q.pendingSeekSeconds = p.pendingSeekSeconds
  position : q.position = p.position
  sent : q.sent = p.sent
  loading : p.resumeLoading = false → q.resumeLoading = false
  waits : q.loaded = true → q.resumeApplied = false → q.resumeFor = q.request → p.loaded = true

/-- Another source is to be started at the recovery position. -/
structure Recovered (p q : PlayerState) : Prop where
  request : q.request = p.request
  applied : q.resumeApplied = false
  seconds : q.resumeSeconds = p.recoveryPosition
  owner : q.resumeFor = p.request
  pending : q.pendingSeekSeconds = none
  sent : q.sent = p.sent
  loading : p.resumeLoading = false → q.resumeLoading = false
  loaded : q.loaded = false

def Recovers (p q : PlayerState) : Prop := SamePlace p q ∨ Recovered p q

variable {p q r : PlayerState}

attribute [local simp] step startsSource readsSaved confirms Viewing.follow

theorem SamePlace.refl (p : PlayerState) : SamePlace p p := ⟨rfl, rfl, rfl, rfl, rfl, rfl, rfl, id, fun h _ _ => h⟩

theorem SamePlace.recoveryPosition_eq (h : SamePlace p q) : q.recoveryPosition = p.recoveryPosition := by
  simp only [recoveryPosition, h.pending, h.owner, h.request, h.applied, h.seconds, h.position]

theorem SamePlace.trans (h : SamePlace p q) (hnext : SamePlace q r) : SamePlace p r where
  request := hnext.request.trans h.request
  applied := hnext.applied.trans h.applied
  seconds := hnext.seconds.trans h.seconds
  owner := hnext.owner.trans h.owner
  pending := hnext.pending.trans h.pending
  position := hnext.position.trans h.position
  sent := hnext.sent.trans h.sent
  loading hr := hnext.loading (h.loading hr)
  waits hr happlied howner := by
    have hwas := hnext.applied.symm.trans happlied
    exact h.waits (hnext.waits hr happlied howner) hwas (hnext.owner.symm.trans (howner.trans hnext.request))

theorem SamePlace.recovers (h : SamePlace p q) (hnext : Recovers q r) : Recovers p r := by
  obtain hsame | hrecovered := hnext
  · exact .inl (h.trans hsame)
  · right
    exact ⟨hrecovered.request.trans h.request, hrecovered.applied, hrecovered.seconds.trans h.recoveryPosition_eq,
      hrecovered.owner.trans h.request, hrecovered.pending, hrecovered.sent.trans h.sent,
      fun hr => hrecovered.loading (h.loading hr), hrecovered.loaded⟩

theorem recovers_of_tryTransportFallback (h : p.tryTransportFallback = some q) : Recovers p q := by
  unfold tryTransportFallback at h
  split at h
  · cases h
  · right
    rw [← Option.some.inj h]
    exact ⟨rfl, rfl, rfl, rfl, rfl, rfl, id, rfl⟩

theorem samePlace_fail (message : AsciiText.Text) : SamePlace p (p.fail message) := ⟨rfl, rfl, rfl, rfl, rfl, rfl, rfl, id, fun h _ _ => h⟩

theorem recovers_advanceWith (tried : List AsciiText.Text) (message : AsciiText.Text) (list : List SourceSummary) :
    Recovers p (p.advanceWith tried message list) := by
  unfold advanceWith
  split
  · right
    exact ⟨rfl, rfl, rfl, rfl, rfl, rfl, id, rfl⟩
  · left
    exact samePlace_fail _

theorem samePlace_abort : SamePlace p p.abort.stopReporting := ⟨rfl, rfl, rfl, rfl, rfl, rfl, rfl, fun _ => rfl, fun h _ _ => h⟩

theorem recovers_advanceToNextServer (message : AsciiText.Text) : Recovers p (p.advanceToNextServer message) := by
  unfold advanceToNextServer
  split
  · exact .inl (samePlace_fail _)
  · split
    · exact samePlace_abort.recovers (recovers_advanceWith _ _ _)
    · left
      exact ⟨rfl, rfl, rfl, rfl, rfl, rfl, rfl, fun _ => rfl, fun h _ _ => h⟩

theorem recovers_reresolve : Recovers p p.reresolve := .inr ⟨rfl, rfl, rfl, rfl, rfl, rfl, fun _ => rfl, rfl⟩

theorem samePlace_clearStallTimer : SamePlace p p.clearStallTimer := ⟨rfl, rfl, rfl, rfl, rfl, rfl, rfl, id, fun h _ _ => h⟩

theorem recovers_recoverDelivery (message : AsciiText.Text) : Recovers p (p.recoverDelivery message) := by
  unfold recoverDelivery
  split
  · next hfallback => exact recovers_of_tryTransportFallback hfallback
  · split
    · exact recovers_reresolve
    · exact recovers_advanceToNextServer message

theorem recovers_recover (message : AsciiText.Text) (unavailable : Bool) : Recovers p (p.recover message unavailable) := by
  unfold recover
  split
  · have hdropped : SamePlace p p.clearStallTimer.dropSource := ⟨rfl, rfl, rfl, rfl, rfl, rfl, rfl, id, fun h _ _ => h⟩
    exact hdropped.recovers (recovers_advanceToNextServer message)
  · exact samePlace_clearStallTimer.recovers (recovers_recoverDelivery message)

theorem recovers_onError (message : AsciiText.Text) (source : VideoSource) (unavailable : Bool) :
    Recovers p (p.onError message source unavailable) := by
  unfold onError
  split
  · exact recovers_recover message unavailable
  · exact .inl (.refl p)

theorem recovers_mediaUnavailable : Recovers p p.mediaUnavailable := by
  unfold mediaUnavailable
  split
  · exact .inl (.refl p)
  · exact recovers_onError _ _ _

theorem recovers_recoverStall : Recovers p p.recoverStall := by
  unfold recoverStall
  split
  · next hfallback => exact recovers_of_tryTransportFallback hfallback
  · exact recovers_advanceToNextServer _

theorem recovers_onStall : Recovers p p.onStall := by
  unfold onStall
  split
  · exact .inl (.refl p)
  · split
    · exact .inl (.refl p)
    · split
      · left
        exact ⟨rfl, rfl, rfl, rfl, rfl, rfl, rfl, id, fun h _ _ => h⟩
      · exact samePlace_clearStallTimer.recovers recovers_recoverStall

theorem samePlace_resolveDone (extra : ResolveExtra) (routed : Routed) (now : Nat) :
    SamePlace p (p.resolveDone extra routed now) := ⟨rfl, rfl, rfl, rfl, rfl, rfl, rfl, id, fun h _ _ => h⟩

theorem recovers_sourcesListed (tried : List AsciiText.Text) (message : AsciiText.Text) (list : List SourceSummary) :
    Recovers p (p.sourcesListed tried message list) := by
  have hlisted : SamePlace p { p with awaiting := none, sources := some list } := ⟨rfl, rfl, rfl, rfl, rfl, rfl, rfl, id, fun h _ _ => h⟩
  exact hlisted.recovers (recovers_advanceWith _ _ _)

theorem recovers_sourcesFailed (tried : List AsciiText.Text) (message : AsciiText.Text) :
    Recovers p (p.sourcesFailed tried message) := by
  have hdone : SamePlace p { p with awaiting := none } := ⟨rfl, rfl, rfl, rfl, rfl, rfl, rfl, id, fun h _ _ => h⟩
  exact hdone.recovers (recovers_advanceWith _ _ _)

theorem samePlace_onBuffer (buffering : Bool) (source : VideoSource) : SamePlace p (p.onBuffer buffering source) := by
  unfold onBuffer
  split
  · exact ⟨rfl, rfl, rfl, rfl, rfl, rfl, rfl, id, fun h _ _ => h⟩
  · exact .refl p

end effects

section progress
variable {p q r : PlayerState} {position duration : ℚ} {now : Nat}

/-- What the notes of a tick keep besides the place. -/
structure Noted (p q : PlayerState) : Prop extends SamePlace p q where
  loaded : q.loaded = p.loaded
  duration : q.duration = p.duration
  lastFlushMs : q.lastFlushMs = p.lastFlushMs

theorem Noted.refl (p : PlayerState) : Noted p p := ⟨.refl p, rfl, rfl, rfl⟩

theorem Noted.trans (h : Noted p q) (hnext : Noted q r) : Noted p r where
  toSamePlace := h.toSamePlace.trans hnext.toSamePlace
  loaded := hnext.loaded.trans h.loaded
  duration := hnext.duration.trans h.duration
  lastFlushMs := hnext.lastFlushMs.trans h.lastFlushMs

theorem noted_sampleSeek {sample : Option ℚ} : Noted p (p.sampleSeek sample) :=
  ⟨⟨rfl, rfl, rfl, rfl, rfl, rfl, rfl, id, fun h _ _ => h⟩, rfl, rfl, rfl⟩

theorem noted_noteAdvance : Noted p (p.noteAdvance position) := by
  unfold noteAdvance
  split
  · split
    · exact ⟨⟨rfl, rfl, rfl, rfl, rfl, rfl, rfl, id, fun h _ _ => h⟩, rfl, rfl, rfl⟩
    · exact ⟨⟨rfl, rfl, rfl, rfl, rfl, rfl, rfl, id, fun h _ _ => h⟩, rfl, rfl, rfl⟩
  · exact ⟨⟨rfl, rfl, rfl, rfl, rfl, rfl, rfl, id, fun h _ _ => h⟩, rfl, rfl, rfl⟩

theorem noted_clearBudget : Noted p p.clearBudget := by
  unfold clearBudget
  split
  · exact ⟨⟨rfl, rfl, rfl, rfl, rfl, rfl, rfl, id, fun h _ _ => h⟩, rfl, rfl, rfl⟩
  · exact .refl p

theorem noted_noteHealth : Noted p (p.noteHealth position) := by
  have hset : Noted p { p with
      healthyPlaybackSeconds := p.healthyAfter position, healthProgressPosition := some position } :=
    ⟨⟨rfl, rfl, rfl, rfl, rfl, rfl, rfl, id, fun h _ _ => h⟩, rfl, rfl, rfl⟩
  exact hset.trans noted_clearBudget

/-- A confirmed position is taken over, and reported where that is due. -/
structure Progressed (p q : PlayerState) (reached duration : ℚ) (now : Nat) : Prop where
  request : q.request = p.request
  applied : q.resumeApplied = p.resumeApplied
  seconds : q.resumeSeconds = p.resumeSeconds
  owner : q.resumeFor = p.resumeFor
  pending : q.pendingSeekSeconds = none
  position : q.position = reached
  loaded : q.loaded = p.loaded
  duration : q.duration = p.loadedDuration duration
  sent : ∀ report, q.sent = report :: p.sent → report.position = reached ∧ p.reportDue reached now = true
  loading : p.resumeLoading = false → q.resumeLoading = false

theorem progressed_of_noted (h : Noted p q) :
    Progressed p ((q.landAt position duration).reportProgress position (q.landAt position duration).duration now) position
      duration now := by
  have hdue : (q.landAt position duration).reportDue position now = p.reportDue position now := by
    rw [reportDue, reportDue, landAt, h.lastFlushMs]
  have hduration : (q.landAt position duration).duration = p.loadedDuration duration := by
    rw [landAt, loadedDuration, h.duration]
  unfold reportProgress
  split
  · next hsends =>
    refine ⟨h.request, h.applied, h.seconds, h.owner, rfl, rfl, h.loaded, hduration, ?_, h.loading⟩
    intro report hreport
    have hsent := (List.cons.inj hreport).1
    rw [← hsent]
    exact ⟨rfl, hdue ▸ hsends⟩
  · refine ⟨h.request, h.applied, h.seconds, h.owner, rfl, rfl, h.loaded, hduration, ?_, h.loading⟩
    intro report hreport
    exact absurd (h.sent.symm.trans hreport) List.ne_cons_self

theorem progressed_progress : Progressed p (p.progress position duration now) position duration now :=
  progressed_of_noted ((noted_sampleSeek.trans noted_noteAdvance).trans noted_noteHealth)

/-- While a seek is on its way only the position shown is set, to the target. -/
theorem samePlace_seekProgress {target : ℚ} (hpending : p.pendingSeekSeconds = some target) (hposition : target = p.position) :
    SamePlace p (p.seekProgress position duration) := by
  have hset : SamePlace p { p.sampleSeek (some position) with
      lastProgressSample := none
      healthProgressPosition := none
      position := p.pendingSeekSeconds.getD position
      duration := if duration > 0 then duration else p.duration } := by
    refine ⟨rfl, rfl, rfl, rfl, rfl, ?_, rfl, id, fun h _ _ => h⟩
    rw [hpending]
    exact hposition
  exact hset.trans noted_clearBudget.toSamePlace

end progress

section start
variable {p q : PlayerState}

/-- It is decided where a source plays from: where it is already past the target, at the target, or where it is because
the target does not fit. -/
structure StartsAt (p q : PlayerState) : Prop where
  applied : q.resumeApplied = true
  seconds : q.resumeSeconds = p.resumeSeconds
  duration : q.duration = p.duration
  sent : q.sent = p.sent
  loading : q.resumeLoading = p.resumeLoading
  decided : p.resumeSeconds + 5 < p.position ∧ q.position = p.position ∧ q.pendingSeekSeconds = p.pendingSeekSeconds ∨
    q.position = p.resumeSeconds ∧ q.pendingSeekSeconds = some p.resumeSeconds ∨
    fits p.resumeSeconds p.duration = false ∧ q.position = p.position ∧ q.pendingSeekSeconds = none

theorem maybeApplyResume_cases (p : PlayerState) (now : Nat) :
    p.maybeApplyResume now = p ∧ (p.resumeApplied = true ∨ p.loaded = false ∨ p.resumeFor ≠ p.request) ∨
      p.resumeApplied = false ∧ p.resumeFor = p.request ∧ StartsAt p (p.maybeApplyResume now) := by
  by_cases hskip : p.resumeApplied = true ∨ p.loaded = false ∨ p.resumeFor ≠ p.request
  · left
    exact ⟨if_pos hskip, hskip⟩
  · right
    have happlied : p.resumeApplied = false := by
      rw [← Bool.not_eq_true]
      exact fun h => hskip (.inl h)
    have howner : p.resumeFor = p.request := by
      by_contra h
      exact hskip (.inr (.inr h))
    refine ⟨happlied, howner, ?_⟩
    unfold maybeApplyResume
    rw [if_neg hskip]
    by_cases hpast : p.position > p.resumeSeconds + 5
    · rw [if_pos hpast]
      exact ⟨rfl, rfl, rfl, rfl, rfl, .inl ⟨hpast, rfl, rfl⟩⟩
    · rw [if_neg hpast]
      cases hfits : fits p.resumeSeconds p.duration with
      | true => exact ⟨rfl, rfl, rfl, rfl, rfl, .inr (.inl ⟨rfl, rfl⟩)⟩
      | false => exact ⟨rfl, rfl, rfl, rfl, rfl, .inr (.inr ⟨hfits, rfl, rfl⟩)⟩

end start

section placed
variable {saved : ℚ} {v : Viewing} {p q : PlayerState} {e : PlayerEvent}

theorem Placed.recoveryPosition_eq (h : Placed saved v) (hread : v.read = true) : v.player.recoveryPosition = v.place := by
  unfold recoveryPosition
  cases happlied : v.player.resumeApplied with
  | true =>
    obtain ⟨hplace, hpending⟩ := h.started happlied
    cases htarget : v.player.pendingSeekSeconds with
    | some target => exact (hpending target htarget).trans hplace.symm
    | none => simp [hplace]
  | false =>
    obtain ⟨howner, hseconds, hpending⟩ := h.waiting hread happlied
    simp [hpending, howner, hseconds]

theorem Placed.applied_of_started (h : Placed saved v) (happlied : v.player.resumeApplied = true) : v.applied = true := by
  by_contra hnot
  rw [Bool.not_eq_true] at hnot
  cases happlied.symm.trans (h.before hnot).1

/-- Only a source that was started is sought. -/
theorem Placed.sought (h : Placed saved v) {target : ℚ} (htarget : v.player.pendingSeekSeconds = some target) :
    v.player.resumeApplied = true ∧ target = v.player.position := by
  cases happlied : v.player.resumeApplied with
  | true => exact ⟨rfl, (h.started happlied).2 target htarget⟩
  | false =>
    have hnone : v.player.pendingSeekSeconds = none := by
      cases hviewing : v.applied with
      | true => exact (h.waiting (h.read hviewing) happlied).2.2
      | false => exact (h.before hviewing).2.1
    cases htarget.symm.trans hnone

theorem Placed.recovers (h : Placed saved v) (hq : Recovers v.player q) : Placed saved { v with player := q } := by
  obtain hsame | hrecovered := hq
  · refine ⟨?_, ?_, ?_, ?_, h.read, ?_, h.near⟩
    · intro hviewing
      obtain ⟨happlied, hpending, hplace⟩ := h.before hviewing
      exact ⟨hsame.applied.trans happlied, hsame.pending.trans hpending, hplace⟩
    · intro hread
      exact hsame.loading (h.once hread)
    · intro hread happlied
      obtain ⟨howner, hseconds, hpending⟩ := h.waiting hread (hsame.applied.symm.trans happlied)
      exact ⟨(hsame.owner.trans howner).trans hsame.request.symm, hsame.seconds.trans hseconds, hsame.pending.trans hpending⟩
    · intro happlied
      obtain ⟨hplace, hpending⟩ := h.started (hsame.applied.symm.trans happlied)
      refine ⟨hplace.trans hsame.position.symm, fun target htarget => ?_⟩
      exact (hpending target (hsame.pending.symm.trans htarget)).trans hsame.position.symm
    · intro hread hloaded
      by_contra hnot
      rw [Bool.not_eq_true] at hnot
      have hwas := hsame.applied.symm.trans hnot
      have howner := (hsame.owner.trans (h.waiting hread hwas).1).trans hsame.request.symm
      cases hwas.symm.trans (h.loaded hread (hsame.waits hloaded hnot howner))
  · refine ⟨?_, ?_, ?_, ?_, h.read, ?_, h.near⟩
    · intro hviewing
      exact ⟨hrecovered.applied, hrecovered.pending, (h.before hviewing).2.2⟩
    · intro hread
      exact hrecovered.loading (h.once hread)
    · intro hread _
      exact ⟨hrecovered.owner.trans hrecovered.request.symm, hrecovered.seconds.trans (h.recoveryPosition_eq hread),
        hrecovered.pending⟩
    · intro happlied
      cases happlied.symm.trans hrecovered.applied
    · intro _ hloaded
      cases hloaded.symm.trans hrecovered.loaded

/-- A source that is brought to the place leaves it there, unless it does not fit. -/
theorem Placed.start (h : Placed saved v) (hq : StartsAt p q) (hseconds : p.resumeSeconds = v.place)
    (hpending : p.pendingSeekSeconds = none) (hloading : p.resumeLoading = false)
    (hroom : v.applied = true → v.short = true ∨ saved - seekLandingWindowSeconds ≤ p.position ∨
      fits v.place p.duration = true) :
    Placed saved
      { player := q
        read := true
        applied := true
        short := v.short || (!v.applied && !fits saved q.duration)
        place := if q.pendingSeekSeconds.isSome then v.place else q.position } := by
  refine ⟨?_, ?_, ?_, ?_, fun _ => rfl, fun _ _ => hq.applied, ?_⟩
  · intro hviewing
    cases hviewing
  · intro _
    exact hq.loading.trans hloading
  · intro _ happlied
    cases happlied.symm.trans hq.applied
  · intro _
    obtain ⟨-, -, hnone⟩ | ⟨hposition, hsome⟩ | ⟨-, -, hnone⟩ := hq.decided
    · simp [hnone, hpending]
    · simp [hsome, hposition, hseconds]
    · simp [hnone]
  · intro _ hshort
    obtain ⟨hbefore, hfirst⟩ := Bool.or_eq_false_iff.mp hshort
    have hplace : saved - seekLandingWindowSeconds ≤ v.place := by
      cases hviewing : v.applied with
      | true => exact h.near hviewing hbefore
      | false =>
        rw [(h.before hviewing).2.2, seekLandingWindowSeconds]
        linarith
    obtain ⟨hpast, hposition, hnone⟩ | ⟨-, hsome⟩ | ⟨hunfit, hposition, hnone⟩ := hq.decided
    · simp only [hnone, hpending, hposition, Option.isSome_none, Bool.false_eq_true, ↓reduceIte]
      linarith
    · simpa [hsome] using hplace
    · simp only [hnone, hposition, Option.isSome_none, Bool.false_eq_true, ↓reduceIte]
      rw [hseconds] at hunfit
      cases hviewing : v.applied with
      | true =>
        obtain hshort | hnear | hfit := hroom hviewing
        · cases hshort.symm.trans hbefore
        · exact hnear
        · cases hfit.symm.trans hunfit
      | false =>
        rw [(h.before hviewing).2.2] at hunfit
        simp [hviewing, hq.duration, hunfit] at hfirst

/-- A confirmed position is the place from then on, where the source was started. -/
theorem Placed.progressed (h : Placed saved v) {reached duration : ℚ} {now : Nat}
    (hq : Progressed v.player q reached duration now)
    (hnear : v.player.resumeApplied = true → v.short = false → saved - seekLandingWindowSeconds ≤ reached) :
    Placed saved { v with player := q, place := if v.player.resumeApplied = true then reached else v.place } := by
  refine ⟨?_, ?_, ?_, ?_, h.read, ?_, ?_⟩
  · intro hviewing
    obtain ⟨happlied, -, hplace⟩ := h.before hviewing
    refine ⟨hq.applied.trans happlied, hq.pending, ?_⟩
    simpa [happlied] using hplace
  · intro hread
    exact hq.loading (h.once hread)
  · intro hread happlied
    have hwas := hq.applied.symm.trans happlied
    obtain ⟨howner, hseconds, -⟩ := h.waiting hread hwas
    refine ⟨(hq.owner.trans howner).trans hq.request.symm, ?_, hq.pending⟩
    simpa [hwas] using hq.seconds.trans hseconds
  · intro happlied
    have hwas := hq.applied.symm.trans happlied
    refine ⟨?_, fun target htarget => ?_⟩
    · simpa [hwas] using hq.position.symm
    · cases htarget.symm.trans hq.pending
  · intro hread hloaded
    exact hq.applied.trans (h.loaded hread (hq.loaded.symm.trans hloaded))
  · intro hviewing hshort
    cases happlied : v.player.resumeApplied with
    | true => simpa using hnear happlied hshort
    | false => simpa using h.near hviewing hshort

/-- Under the condition a confirmed position lies no further behind than the window. -/
theorem near_of_confirmed (h : Placed saved v) {reached : ℚ} (hconfirmed : v.player.seekConfirmed reached = true)
    (happlied : v.player.resumeApplied = true) (hshort : v.short = false)
    (hplays : v.player.pendingSeekSeconds = some saved ∨ v.player.position ≤ reached) :
    saved - seekLandingWindowSeconds ≤ reached := by
  obtain hsought | hforward := hplays
  · simp only [seekConfirmed, hsought, Bool.or_eq_true, decide_eq_true_eq] at hconfirmed
    obtain hclose | hlanded := hconfirmed
    · have habs := abs_le.mp hclose
      rw [seekLandingWindowSeconds]
      linarith
    · cases hsample : v.player.pendingSeekSample with
      | none => simp [hsample] at hlanded
      | some sample =>
        simp only [hsample, decide_eq_true_eq] at hlanded
        have habs := abs_le.mp hlanded.1
        linarith
  · have hplace := h.near (h.applied_of_started happlied) hshort
    rw [(h.started happlied).1] at hplace
    exact hplace.trans hforward

end placed

section follow
variable {saved : ℚ} {v : Viewing} {e : PlayerEvent}

theorem follow_of_not_starts (hstarts : v.player.startsSource (v.player.step saved e) = false) :
    v.follow saved e = { v with
      player := v.player.step saved e
      read := v.read || v.player.readsSaved e
      place := (v.player.confirms e).getD v.place } := by
  rw [Viewing.follow, hstarts]
  rfl

theorem follow_of_starts (hstarts : v.player.startsSource (v.player.step saved e) = true) :
    v.follow saved e =
      { player := v.player.step saved e
        read := v.read || v.player.readsSaved e
        applied := true
        short := v.short || (!v.applied && !fits saved (v.player.step saved e).duration)
        place := if (v.player.step saved e).pendingSeekSeconds.isSome then v.place else (v.player.step saved e).position } := by
  rw [Viewing.follow, hstarts]
  rfl

theorem not_startsSource_of_recovers {p q : PlayerState} (h : Recovers p q) : p.startsSource q = false := by
  obtain hsame | hrecovered := h
  · rw [startsSource, hsame.applied, Bool.not_and_self]
  · rw [startsSource, hrecovered.applied, Bool.and_false]

theorem Recovers.sent {p q : PlayerState} (h : Recovers p q) : q.sent = p.sent := by
  obtain hsame | hrecovered := h
  · exact hsame.sent
  · exact hrecovered.sent

/-- The place is kept, and the step keeps it. -/
def Follows (saved : ℚ) (v : Viewing) (e : PlayerEvent) : Prop := Placed saved (v.follow saved e) ∧ KeepsPlace saved v e

theorem follow_player : (v.follow saved e).player = v.player.step saved e := by
  cases hstarts : v.player.startsSource (v.player.step saved e) with
  | true => rw [follow_of_starts hstarts]
  | false => rw [follow_of_not_starts hstarts]

theorem follows_of_placed (hplaced : Placed saved (v.follow saved e))
    (hstarts : v.player.startsSource (v.player.step saved e) = true → (v.player.step saved e).resumeSeconds = v.place ∧
      ((v.player.step saved e).pendingSeekSeconds = some v.place ∨ v.place + 5 < (v.player.step saved e).position ∨
        fits v.place (v.player.step saved e).duration = false))
    (hreports : ∀ report, (v.player.step saved e).sent = report :: v.player.sent →
      saved - seekLandingWindowSeconds ≤ report.position ∨ v.short = true ∨
        (v.player.step saved e).loaded = true ∧ fits saved (v.player.step saved e).duration = false) :
    Follows saved v e := by
  refine ⟨hplaced, hstarts, fun hread hloaded => ?_, hreports⟩
  have hstarted := hplaced.loaded hread
  rw [follow_player] at hstarted
  exact hstarted hloaded

/-- Recovery steps leave the place as it is. -/
theorem follows_of_recovers (h : Placed saved v) (hq : Recovers v.player (v.player.step saved e))
    (hreads : v.player.readsSaved e = false) (hconfirms : v.player.confirms e = none) : Follows saved v e := by
  have hstarts := not_startsSource_of_recovers hq
  refine follows_of_placed ?_ (fun hstarted => ?_) fun report hreport => ?_
  · rw [follow_of_not_starts hstarts, hreads, hconfirms, Bool.or_false]
    exact h.recovers hq
  · cases hstarted.symm.trans hstarts
  · exact absurd (hq.sent.symm.trans hreport) List.ne_cons_self

theorem recovers_resolved (p : PlayerState) (routed : Routed) (now : Nat) :
    Recovers p (p.step saved (.resolved routed now)) := by
  simp only [step]
  split
  · exact .inl (samePlace_resolveDone _ _ _)
  · exact .inl (.refl p)

theorem recovers_resolveFailed (p : PlayerState) (message : AsciiText.Text) :
    Recovers p (p.step saved (.resolveFailed message)) := by
  simp only [step]
  split
  · left
    exact ⟨rfl, rfl, rfl, rfl, rfl, rfl, rfl, id, fun h _ _ => h⟩
  · exact .inl (.refl p)

theorem recovers_step_sourcesListed (p : PlayerState) (list : List SourceSummary) :
    Recovers p (p.step saved (.sourcesListed list)) := by
  simp only [step]
  split
  · exact recovers_sourcesListed _ _ _
  · exact .inl (.refl p)

theorem recovers_step_sourcesFailed (p : PlayerState) : Recovers p (p.step saved .sourcesFailed) := by
  simp only [step]
  split
  · exact recovers_sourcesFailed _ _
  · exact .inl (.refl p)

theorem recovers_step_onStall (p : PlayerState) : Recovers p (p.step saved .onStall) := by
  simp only [step]
  split
  · have hfired : SamePlace p { p with stallDue := false } := ⟨rfl, rfl, rfl, rfl, rfl, rfl, rfl, id, fun h _ _ => h⟩
    exact hfired.recovers recovers_onStall
  · exact .inl (.refl p)

/-- A started source is brought to the place, with what the player has loaded by then. -/
theorem follows_of_starts (h : Placed saved v) {p : PlayerState} (hq : StartsAt p (v.player.step saved e))
    (happlied : v.player.resumeApplied = false) (hseconds : p.resumeSeconds = v.place) (hpending : p.pendingSeekSeconds = none)
    (hloading : p.resumeLoading = false) (hsent : p.sent = v.player.sent)
    (hread : (v.read || v.player.readsSaved e) = true)
    (hroom : v.applied = true → v.short = true ∨ saved - seekLandingWindowSeconds ≤ p.position ∨
      fits v.place p.duration = true) : Follows saved v e := by
  have hstarts : v.player.startsSource (v.player.step saved e) = true := by
    rw [startsSource, happlied, hq.applied]
    rfl
  refine follows_of_placed ?_ (fun _ => ⟨hq.seconds.trans hseconds, ?_⟩) fun report hreport => ?_
  · rw [follow_of_starts hstarts, hread]
    exact h.start hq hseconds hpending hloading hroom
  · rw [← hseconds, hq.duration]
    obtain ⟨hpast, hposition, -⟩ | ⟨-, hsome⟩ | ⟨hunfit, -, -⟩ := hq.decided
    · exact .inr (.inl (by rw [hposition]; exact hpast))
    · exact .inl hsome
    · exact .inr (.inr hunfit)
  · exact absurd (hsent.symm.trans (hq.sent.symm.trans hreport)) List.ne_cons_self

theorem follows_onLoad (h : Placed saved v) {duration : ℚ} {source : VideoSource} {now : Nat}
    (hcond : Undisturbed saved v (.onLoad duration source now)) : Follows saved v (.onLoad duration source now) := by
  cases hheard : v.player.hears source with
  | false =>
    have hsame : v.player.step saved (.onLoad duration source now) = v.player := by
      simp only [step, onLoad, hheard, Bool.false_eq_true, ↓reduceIte]
    refine follows_of_recovers h ?_ rfl rfl
    rw [hsame]
    exact .inl (.refl _)
  | true =>
    let p : PlayerState := { v.player with
      duration := v.player.loadedDuration duration
      loaded := true
      status := if v.player.paused then .paused else .playing
      buffering := false }
    have hstep : v.player.step saved (.onLoad duration source now) = p.maybeApplyResume now := by
      simp only [step, onLoad, hheard, ↓reduceIte]
      rfl
    obtain ⟨hsame, hskip⟩ | ⟨happlied, howner, hstarts⟩ := p.maybeApplyResume_cases now
    · refine follows_of_recovers h ?_ rfl rfl
      rw [hstep, hsame]
      refine .inl ⟨rfl, rfl, rfl, rfl, rfl, rfl, rfl, id, fun _ happlied howner => ?_⟩
      obtain hstarted | hloaded | hother := hskip
      · cases happlied.symm.trans hstarted
      · cases hloaded
      · exact absurd howner hother
    · obtain ⟨hread, hroom⟩ := hcond hheard howner happlied
      obtain ⟨-, hseconds, hpending⟩ := h.waiting hread happlied
      rw [← hstep] at hstarts
      exact follows_of_starts h hstarts happlied hseconds hpending (h.once hread) rfl (by rw [hread]; rfl) hroom

theorem follows_resumeLoaded (h : Placed saved v) (now : Nat) : Follows saved v (.resumeLoaded now) := by
  cases hloading : v.player.resumeLoading with
  | false =>
    have hsame : v.player.step saved (.resumeLoaded now) = v.player := by
      simp only [step, hloading, Bool.false_eq_true, ↓reduceIte]
    refine follows_of_recovers h ?_ hloading rfl
    rw [hsame]
    exact .inl (.refl _)
  | true =>
    have hunread : v.read = false := by
      by_contra hread
      rw [Bool.not_eq_false] at hread
      cases hloading.symm.trans (h.once hread)
    have hviewing : v.applied = false := by
      by_contra happlied
      rw [Bool.not_eq_false] at happlied
      cases hunread.symm.trans (h.read happlied)
    obtain ⟨happlied, hpending, hplace⟩ := h.before hviewing
    let p : PlayerState := { v.player with resumeLoading := false, resumeSeconds := saved, resumeFor := v.player.request }
    have hreads : v.player.readsSaved (.resumeLoaded now) = true := hloading
    have hstep : v.player.step saved (.resumeLoaded now) = p.maybeApplyResume now := by
      simp only [step, hloading, ↓reduceIte]
      rfl
    obtain ⟨hsame, hskip⟩ | ⟨-, -, hstarts⟩ := p.maybeApplyResume_cases now
    · -- The value waits for the load of the source.
      have hstarts : v.player.startsSource (v.player.step saved (.resumeLoaded now)) = false := by
        rw [hstep, hsame]
        exact Bool.not_and_self _
      refine follows_of_placed ?_ (fun hstarted => ?_) fun report hreport => ?_
      · rw [follow_of_not_starts hstarts, hreads, hstep, hsame]
        refine ⟨fun _ => ⟨happlied, hpending, hplace⟩, fun _ => rfl, fun _ _ => ⟨rfl, hplace.symm, hpending⟩, ?_,
          fun _ => Bool.or_true _, ?_, ?_⟩
        · intro hstarted
          cases happlied.symm.trans hstarted
        · intro _ hloaded
          obtain hstarted | hunloaded | hother := hskip
          · exact hstarted
          · cases hloaded.symm.trans hunloaded
          · exact absurd rfl hother
        · intro hviewed
          cases hviewing.symm.trans hviewed
      · cases hstarted.symm.trans hstarts
      · rw [hstep, hsame] at hreport
        exact absurd hreport List.ne_cons_self
    · rw [← hstep] at hstarts
      refine follows_of_starts h hstarts happlied hplace.symm hpending rfl rfl (by rw [hreads]; simp) fun hviewed => ?_
      cases hviewing.symm.trans hviewed

theorem follows_setProgress (h : Placed saved v) {position duration : ℚ} {source : VideoSource} {now : Nat} {unavailable : Bool}
    (hcond : Undisturbed saved v (.setProgress position duration source now unavailable)) :
    Follows saved v (.setProgress position duration source now unavailable) := by
  cases hheard : v.player.hears source with
  | false =>
    have hsame : v.player.step saved (.setProgress position duration source now unavailable) = v.player := by
      simp only [step, setProgress, hheard, Bool.false_eq_true, ↓reduceIte]
    have hconfirms : v.player.confirms (.setProgress position duration source now unavailable) = none := by
      simp [confirms, hheard]
    refine follows_of_recovers h ?_ rfl hconfirms
    rw [hsame]
    exact .inl (.refl _)
  | true =>
    cases hconfirmed : v.player.seekConfirmed position with
    | false =>
      have hconfirms : v.player.confirms (.setProgress position duration source now unavailable) = none := by
        simp [confirms, hconfirmed]
      refine follows_of_recovers h ?_ rfl hconfirms
      simp only [step, setProgress, hheard, hconfirmed, ↓reduceIte, Bool.false_eq_true]
      split
      · exact (noted_sampleSeek.toSamePlace).recovers (recovers_onError _ _ _)
      · cases hpending : v.player.pendingSeekSeconds with
        | none => simp [seekConfirmed, hpending] at hconfirmed
        | some target => exact .inl (samePlace_seekProgress hpending (h.sought hpending).2)
    | true =>
      have hstep : v.player.step saved (.setProgress position duration source now unavailable) =
          v.player.progress position duration now := by
        simp only [step, setProgress, hheard, hconfirmed, ↓reduceIte]
      have hq : Progressed v.player (v.player.step saved (.setProgress position duration source now unavailable)) position
          duration now := hstep ▸ progressed_progress
      have hcond := hcond hheard hconfirmed
      have hstarts : v.player.startsSource (v.player.step saved (.setProgress position duration source now unavailable)) =
          false := by
        rw [startsSource, hq.applied, Bool.not_and_self]
      have hplaced : (v.player.confirms (.setProgress position duration source now unavailable)).getD v.place =
          if v.player.resumeApplied = true then position else v.place := by
        cases happlied : v.player.resumeApplied <;> simp [confirms, happlied, hheard, hconfirmed]
      have hnear (happlied : v.player.resumeApplied = true) (hshort : v.short = false) :
          saved - seekLandingWindowSeconds ≤ position := by
        obtain hshort' | hnear | hplays := hcond
        · cases hshort.symm.trans hshort'
        · exact hnear
        · rw [if_pos happlied] at hplays
          exact near_of_confirmed h hconfirmed happlied hshort hplays
      refine follows_of_placed ?_ (fun hstarted => ?_) fun report hreport => ?_
      · rw [follow_of_not_starts hstarts, hplaced]
        have hread : (v.read || v.player.readsSaved (.setProgress position duration source now unavailable)) = v.read :=
          Bool.or_false _
        rw [hread]
        exact h.progressed hq hnear
      · cases hstarted.symm.trans hstarts
      · obtain ⟨hposition, hdue⟩ := hq.sent report hreport
        rw [hposition, hq.loaded, hq.duration]
        cases hshort : v.short with
        | true => exact .inr (.inl rfl)
        | false =>
          cases happlied : v.player.resumeApplied with
          | true => exact .inl (hnear happlied hshort)
          | false =>
            obtain hshort' | hlands | hwaits := hcond
            · cases hshort.symm.trans hshort'
            · exact .inl hlands
            · simp only [happlied, Bool.false_eq_true, ↓reduceIte] at hwaits
              obtain hnone | hunfit := hwaits
              · cases hdue.symm.trans hnone
              · exact .inr (.inr hunfit)

/-- A real end is reported at the position shown, which a started source has at the place. -/
theorem follows_onEnd (h : Placed saved v) {fraction : Option ℚ} {source : VideoSource} {unavailable : Bool}
    (hcond : Undisturbed saved v (.onEnd fraction source unavailable)) :
    Follows saved v (.onEnd fraction source unavailable) := by
  cases hheard : v.player.hears source with
  | false =>
    have hsame : v.player.step saved (.onEnd fraction source unavailable) = v.player := by
      simp only [step, onEnd, hheard, Bool.false_eq_true, ↓reduceIte]
    refine follows_of_recovers h ?_ rfl rfl
    rw [hsame]
    exact .inl (.refl _)
  | true =>
    cases hreal : v.player.isRealEnd fraction with
    | false =>
      refine follows_of_recovers h ?_ rfl rfl
      simp only [step, onEnd, hheard, hreal, Bool.false_eq_true, ↓reduceIte]
      exact recovers_recover _ _
    | true =>
      have hstep : v.player.step saved (.onEnd fraction source unavailable) =
          { v.player.reportEnd with status := .ended, paused := true, buffering := false } := by
        simp only [step, onEnd, hheard, hreal, ↓reduceIte]
      have hstarts : v.player.startsSource (v.player.step saved (.onEnd fraction source unavailable)) = false := by
        rw [hstep]
        exact Bool.not_and_self _
      have hcond := hcond hheard hreal
      refine follows_of_placed ?_ (fun hstarted => ?_) fun report hreport => ?_
      · have hended : SamePlace v.player { v.player with
            lastFlushMs := none, status := .ended, paused := true, buffering := false } :=
          ⟨rfl, rfl, rfl, rfl, rfl, rfl, rfl, id, fun h _ _ => h⟩
        have hplaced := h.recovers (.inl hended)
        have hread : (v.read || v.player.readsSaved (.onEnd fraction source unavailable)) = v.read := Bool.or_false _
        rw [follow_of_not_starts hstarts, hread, hstep]
        exact ⟨hplaced.before, hplaced.once, hplaced.waiting, hplaced.started, hplaced.read, hplaced.loaded, hplaced.near⟩
      · cases hstarted.symm.trans hstarts
      · rw [hstep] at hreport ⊢
        simp only [reportEnd] at hreport
        split at hreport
        · next hreporting =>
          have hposition : report.position = v.player.position := by
            rw [← (List.cons.inj hreport).1]
          rw [hposition]
          obtain hshort | hnear | happlied | hnone | hunfit := hcond
          · exact .inr (.inl hshort)
          · exact .inl hnear
          · cases hshort : v.short with
            | true => exact .inr (.inl rfl)
            | false =>
              left
              rw [← (h.started happlied).1]
              exact h.near (h.applied_of_started happlied) hshort
          · rw [hnone] at hreporting
            cases hreporting
          · exact .inr (.inr hunfit)
        · exact absurd hreport List.ne_cons_self

theorem follows_step (h : Placed saved v) (hcond : Undisturbed saved v e) : Follows saved v e := by
  cases e with
  | resolved routed now => exact follows_of_recovers h (recovers_resolved _ _ _) rfl rfl
  | resolveFailed message => exact follows_of_recovers h (recovers_resolveFailed _ _) rfl rfl
  | sourcesListed list => exact follows_of_recovers h (recovers_step_sourcesListed _ _) rfl rfl
  | sourcesFailed => exact follows_of_recovers h (recovers_step_sourcesFailed _) rfl rfl
  | resumeLoaded now => exact follows_resumeLoaded h now
  | onLoad duration source now => exact follows_onLoad h hcond
  | setProgress position duration source now unavailable => exact follows_setProgress h hcond
  | onBuffer buffering source => exact follows_of_recovers h (.inl (samePlace_onBuffer _ _)) rfl rfl
  | onEnd fraction source unavailable => exact follows_onEnd h hcond
  | onError message source unavailable => exact follows_of_recovers h (recovers_onError _ _ _) rfl rfl
  | mediaUnavailable => exact follows_of_recovers h recovers_mediaUnavailable rfl rfl
  | onStall => exact follows_of_recovers h (recovers_step_onStall _) rfl rfl

theorem placed_opened (saved : ℚ) (p : PlayerState) (request : PlayRequest) (sourceHash : Option AsciiText.Text)
    (offline : Option OfflineRecord) (now : Nat) : Placed saved (.opened saved p request sourceHash offline now) := by
  have hopened : (p.opened request sourceHash offline now).resumeApplied = false ∧
      (p.opened request sourceHash offline now).pendingSeekSeconds = none := by
    cases offline with
    | none => exact ⟨rfl, rfl⟩
    | some record => exact ⟨rfl, rfl⟩
  refine ⟨fun _ => ⟨hopened.1, hopened.2, rfl⟩, fun hread => ?_, fun hread => ?_, fun happlied => ?_, fun hviewing => ?_,
    fun hread => ?_, fun hviewing => ?_⟩
  · cases hread
  · cases hread
  · cases happlied.symm.trans hopened.1
  · cases hviewing
  · cases hread
  · cases hviewing

end follow

/-- In a run that nothing disturbs, every source is started at the place and no report lies further behind than the
landing window. -/
theorem saved_position_kept (saved : ℚ) (p : PlayerState) (request : PlayRequest) (sourceHash : Option AsciiText.Text)
    (offline : Option OfflineRecord) (now : Nat) (events : List PlayerEvent)
    (heach : Each (Viewing.follow saved) (Undisturbed saved) (.opened saved p request sourceHash offline now) events) :
    Each (Viewing.follow saved) (KeepsPlace saved) (.opened saved p request sourceHash offline now) events :=
  each_imp (P := Placed saved) (fun _ _ hcond hplaced => (follows_step hplaced hcond).1)
    (fun _ _ hcond hplaced => (follows_step hplaced hcond).2) (placed_opened saved p request sourceHash offline now) heach

/-- The saved position arrives, the first source plays from there and fails, and the next route goes on. -/
theorem saved_position_kept_fallback :
    Each (Viewing.follow 1800) (KeepsPlace 1800)
      (.opened 1800 initial ⟨"42".toList, "movie".toList, none, none, none, none⟩ none none 0)
      [.resolved ⟨⟨"a".toList, none⟩, ⟨"direct".toList, false, 0⟩, [⟨"relay".toList, true, 0⟩]⟩ 0, .resumeLoaded 100,
        .onLoad 7200 ⟨"direct".toList, false, 1⟩ 200, .setProgress 1801 7200 ⟨"direct".toList, false, 1⟩ 300 false,
        .onError [] ⟨"direct".toList, false, 1⟩ false, .onLoad 7200 ⟨"relay".toList, true, 2⟩ 400,
        .setProgress 1802 7200 ⟨"relay".toList, true, 2⟩ 20000 false] := by
  refine saved_position_kept 1800 initial ⟨"42".toList, "movie".toList, none, none, none, none⟩ none none 0 _ ?_
  refine ⟨trivial, trivial, ?_, ?_, trivial, ?_, ?_, trivial⟩
  · decide +kernel
  · decide +kernel
  · decide +kernel
  · decide +kernel

/-- A source that fails before the saved position has arrived gives the read up: the fresh resolve of the same source
plays from the start. -/
theorem saved_position_lost :
    ¬ ∀ (saved : ℚ) (p : PlayerState) (request : PlayRequest) (sourceHash : Option AsciiText.Text)
      (offline : Option OfflineRecord) (now : Nat) (events : List PlayerEvent),
      Each (Viewing.follow saved) (KeepsPlace saved) (.opened saved p request sourceHash offline now) events := by
  intro h
  let routed : Routed := ⟨⟨"a".toList, none⟩, ⟨"direct".toList, false, 0⟩, []⟩
  have hrun := h 1800 initial ⟨"42".toList, "movie".toList, none, none, none, none⟩ none none 0
    [.resolved routed 0, .onError [] ⟨"direct".toList, false, 1⟩ false, .resolved routed 100,
      .onLoad 7200 ⟨"direct".toList, false, 2⟩ 200]
  have hstarted := (hrun.2.2.2.1.starts (by decide +kernel)).1
  exact absurd hstarted (by decide +kernel)

end PlayerState
end StreamArena.Mobile
