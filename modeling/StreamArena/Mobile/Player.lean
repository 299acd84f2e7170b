import Mathlib
import StreamArena.Library.AsciiText

/-! The player store of the mobile app (mobile/src/video/state.ts) for a title that the viewer has opened: the resolves,
the sources that play or fail, the walk through the other servers, the saved position and the reports of the position
(mobile/src/video/report.ts). -/
namespace StreamArena.Mobile
open AsciiText

structure PlayRequest where
  tmdbId : Text
  mediaType : Text
  title : Option Text
  year : Option Text
  seasonNumber : Option Nat
  episodeNumber : Option Nat
  deriving DecidableEq

structure VideoSource where
  uri : Text
  isHls : Bool
  playbackId : Nat
  deriving DecidableEq

structure SourceSummary where
  sourceHash : Text
  isTorrent : Bool
  automaticFallbackEligible : Option Bool
  deriving DecidableEq

structure ResolvedSource where
  sourceHash : Text
  selectedAudioStreamIndex : Option Int
  deriving DecidableEq

/-- What a ready download gives the player. -/
structure OfflineRecord where
  videoPath : Text
  audioStreamIndex : Option Int
  resolved : ResolvedSource

inductive PlayerStatus where
  | idle | resolving | loading | playing | paused | ended | error
  deriving DecidableEq

structure ResolveExtra where
  refresh : Bool
  audioStreamIndex : Option Int
  sourceHash : Option Text
  deriving DecidableEq

/-- What `resolveAndRoute` and `buildFallbackCandidates` give. -/
structure Routed where
  resolved : ResolvedSource
  source : VideoSource
  candidates : List VideoSource

/-- A position that is sent, in whole seconds, to the server. -/
structure Report where
  position : ℚ
  finished : Bool
  deriving DecidableEq

/-- What the current controller's continuation awaits. One that was aborted does nothing more. -/
inductive Awaiting where
  | resolve (extra : ResolveExtra)
  | sources (tried : List Text) (message : Text)

/-- The hashes that the walk has asked for, and how many resolves the recovery has started. -/
structure RecoveryHistory where
  requested : List Text
  resolves : Nat

structure PlayerState where
  status : PlayerStatus
  request : Option PlayRequest
  resolved : Option ResolvedSource
  source : Option VideoSource
  fallbackSources : List VideoSource
  paused : Bool
  position : ℚ
  duration : ℚ
  buffering : Bool
  error : Option Text
  errorCount : Nat
  reresolved : Bool
  resumeSeconds : ℚ
  resumeApplied : Bool
  pendingSeekSeconds : Option ℚ
  resumeFor : Option PlayRequest
  loaded : Bool
  selectedAudioStreamIndex : Option Int
  selectedSourceHash : Option Text
  sources : Option (List SourceSummary)
  triedHashes : List Text
  playbackSequence : Nat
  healthyPlaybackSeconds : ℚ
  healthProgressPosition : Option ℚ
  pendingSeekSample : Option ℚ
  pendingSeekStartedAt : Nat
  stallTimer : Bool
  stallDue : Bool
  sawBufferingSinceArm : Bool
  stallExtensions : Nat
  lastProgressSample : Option ℚ
  awaiting : Option Awaiting
  resumeLoading : Bool
  /-- When the position was sent last, unless nothing is to be reported. -/
  lastFlushMs : Option Nat
  sent : List Report
  history : RecoveryHistory

/-- What can happen while the viewer does nothing. A source speaks for itself: what an earlier one
says is ignored. `unavailable` is what the strip proxy knows of the source's media. -/
inductive PlayerEvent where
  | resolved (routed : Routed) (now : Nat)
  | resolveFailed (message : Text)
  | sourcesListed (list : List SourceSummary)
  | sourcesFailed
  | resumeLoaded (now : Nat)
  | onLoad (duration : ℚ) (source : VideoSource) (now : Nat)
  | setProgress (position duration : ℚ) (source : VideoSource) (now : Nat) (unavailable : Bool)
  | onBuffer (buffering : Bool) (source : VideoSource)
  | onEnd (fraction : Option ℚ) (source : VideoSource) (unavailable : Bool)
  | onError (message : Text) (source : VideoSource) (unavailable : Bool)
  | mediaUnavailable
  | onStall

namespace PlayerState

def seekConfirmationTimeoutMs : Nat := 10000
def seekLandingWindowSeconds : ℚ := 30
def healthyPlaybackLimit : ℚ := 30
def maxStallExtensions : Nat := 2
def reportIntervalMs : Nat := 10000
def minReportSeconds : ℚ := 5
def finishedRatio : ℚ := 93 / 100

def isFinished (position duration : ℚ) : Bool := decide (0 < duration) && decide (finishedRatio ≤ position / duration)

def beginReporting (p : PlayerState) (now : Nat) : PlayerState := { p with lastFlushMs := some now }

def stopReporting (p : PlayerState) : PlayerState := { p with lastFlushMs := none }

/-- Whether a tick of the progress is to be sent. -/
def reportDue (p : PlayerState) (position : ℚ) (now : Nat) : Bool :=
  decide (minReportSeconds ≤ position) && p.lastFlushMs.any fun last => decide (reportIntervalMs ≤ now - last)

def reportProgress (p : PlayerState) (position duration : ℚ) (now : Nat) : PlayerState :=
  if p.reportDue position now then
    { p with lastFlushMs := some now, sent := ⟨position, isFinished position duration⟩ :: p.sent }
  else p

/-- The report of the end, after which there are none. -/
def reportEnd (p : PlayerState) : PlayerState :=
  { p with lastFlushMs := none, sent := if p.lastFlushMs.isSome then ⟨p.position, true⟩ :: p.sent else p.sent }

def beginSeekConfirmation (p : PlayerState) (now : Nat) : PlayerState :=
  { p with pendingSeekSample := none, pendingSeekStartedAt := now }

def activateSource (p : PlayerState) (source : VideoSource) : PlayerState :=
  { p with
    healthyPlaybackSeconds := 0
    healthProgressPosition := none
    playbackSequence := p.playbackSequence + 1
    source := some { source with playbackId := p.playbackSequence + 1 } }

def clearStallTimer (p : PlayerState) : PlayerState := { p with stallTimer := false, stallDue := false }

def armStallTimer (p : PlayerState) : PlayerState :=
  { p with
    stallTimer := true
    stallDue := true
    lastProgressSample := none
    sawBufferingSinceArm := false
    stallExtensions := 0 }

def extendStallTimer (p : PlayerState) : PlayerState := { p with stallTimer := true, stallDue := true }

def recoveryPosition (p : PlayerState) : ℚ :=
  match p.pendingSeekSeconds with
  | some seconds => seconds
  | none => if p.resumeFor = p.request ∧ p.resumeApplied = false then p.resumeSeconds else p.position

/-- A new controller: the one before it is aborted, and with it what it was waiting for. The read of
the saved position belongs to the first one. -/
def abort (p : PlayerState) : PlayerState := { p with awaiting := none, resumeLoading := false }

def fail (p : PlayerState) (message : Text) : PlayerState :=
  { p with status := .error, error := some message, buffering := false }

/-- The part of `runResolve` before its await. -/
def runResolve (p : PlayerState) (extra : ResolveExtra) : PlayerState := { p with awaiting := some (.resolve extra) }

/-- The part of `runResolve` after its await. -/
def resolveDone (p : PlayerState) (extra : ResolveExtra) (routed : Routed) (now : Nat) : PlayerState :=
  let p := ({ p with awaiting := none }.beginReporting now).activateSource routed.source
  { p with
    status := .loading
    resolved := some routed.resolved
    fallbackSources := routed.candidates
    buffering := true
    selectedAudioStreamIndex := extra.audioStreamIndex <|> routed.resolved.selectedAudioStreamIndex
    selectedSourceHash :=
      if routed.resolved.sourceHash.isEmpty then extra.sourceHash else some routed.resolved.sourceHash }.armStallTimer

def resolveFailed (p : PlayerState) (message : Text) : PlayerState :=
  { p with awaiting := none }.fail
    (if message.isEmpty then "Couldn't find a source for this title.".toList else message)

/-- The next delivery route of the same source, if one is left. -/
def tryTransportFallback (p : PlayerState) : Option PlayerState :=
  match p.fallbackSources with
  | [] => none
  | source :: remaining =>
    some { p.activateSource source with
      fallbackSources := remaining
      status := .loading
      buffering := true
      error := none
      loaded := false
      resumeApplied := false
      pendingSeekSeconds := none
      resumeSeconds := p.recoveryPosition
      resumeFor := p.request }.armStallTimer

/-- Whether a source is to be sought to a saved position: past a small floor and short of the end, where that is known. -/
def fits (target duration : ℚ) : Bool := decide (5 < target) && (decide (duration ≤ 0) || decide (target < duration - 10))

def maybeApplyResume (p : PlayerState) (now : Nat) : PlayerState :=
  if p.resumeApplied ∨ p.loaded = false ∨ p.resumeFor ≠ p.request then p
  else
    let target := p.resumeSeconds
    if p.position > target + 5 then { p with resumeApplied := true }
    else if fits target p.duration then
      { p.beginSeekConfirmation now with
        lastProgressSample := none
        healthProgressPosition := none
        position := target
        resumeApplied := true
        pendingSeekSeconds := some target }
    else { p with resumeApplied := true, pendingSeekSeconds := none }

/-- `set.add`. -/
def addTried (tried : List Text) (hash : Text) : List Text :=
  if tried.contains hash then tried else tried ++ [hash]

/-- The servers that the walk passes over: those tried before and the one selected now. -/
def tried (p : PlayerState) : List Text :=
  match p.selectedSourceHash with
  | none => p.triedHashes
  | some hash => if hash.isEmpty then p.triedHashes else addTried p.triedHashes hash

def isEligible (tried : List Text) (src : SourceSummary) : Bool :=
  !src.isTorrent && src.automaticFallbackEligible != some false && !src.sourceHash.isEmpty &&
    !tried.contains src.sourceHash

/-- The part of `advanceToNextServer` after the server list is known. -/
def advanceWith (p : PlayerState) (tried : List Text) (message : Text) (list : List SourceSummary) : PlayerState :=
  let position := p.recoveryPosition
  match list.find? (isEligible tried) with
  | some next =>
    { p with
      triedHashes := tried
      status := .resolving
      buffering := true
      error := none
      errorCount := 0
      reresolved := false
      resolved := none
      source := none
      fallbackSources := []
      loaded := false
      resumeApplied := false
      pendingSeekSeconds := none
      resumeSeconds := position
      resumeFor := p.request
      history := ⟨next.sourceHash :: p.history.requested, p.history.resolves + 1⟩ }.runResolve
        ⟨false, none, some next.sourceHash⟩
  | none =>
    p.fail (if message.isEmpty then "No working server found for this title.".toList else message)

def advanceToNextServer (p : PlayerState) (message : Text) : PlayerState :=
  if p.request = none then p.fail (if message.isEmpty then "Playback error".toList else message)
  else
    match p.sources with
    | some list => p.abort.stopReporting.advanceWith p.tried message list
    | none => { p.abort.stopReporting with awaiting := some (.sources p.tried message) }

def sourcesListed (p : PlayerState) (tried : List Text) (message : Text) (list : List SourceSummary) : PlayerState :=
  { p with awaiting := none, sources := some list }.advanceWith tried message list

def sourcesFailed (p : PlayerState) (tried : List Text) (message : Text) : PlayerState :=
  { p with awaiting := none }.advanceWith tried message []

/-- One fresh re-resolve. -/
def reresolve (p : PlayerState) : PlayerState :=
  { p.abort with
    reresolved := true
    errorCount := 0
    status := .resolving
    buffering := true
    error := none
    source := none
    fallbackSources := []
    loaded := false
    resumeApplied := false
    pendingSeekSeconds := none
    resumeSeconds := p.recoveryPosition
    resumeFor := p.request
    history := ⟨p.history.requested, p.history.resolves + 1⟩ }.runResolve
      ⟨true, p.selectedAudioStreamIndex, p.selectedSourceHash⟩

/-- The next delivery route, else one fresh resolve, else the next server. -/
def recoverDelivery (p : PlayerState) (message : Text) : PlayerState :=
  match p.tryTransportFallback with
  | some next => next
  | none =>
    if p.request.isSome && p.resolved.isSome && !p.reresolved then p.reresolve
    else p.advanceToNextServer message

/-- The media is missing, whatever the route. -/
def dropSource (p : PlayerState) : PlayerState :=
  { p with source := none, fallbackSources := [], status := .resolving, buffering := true }

/-- `onError`, once it is known to be about the current source. -/
def recover (p : PlayerState) (message : Text) (unavailable : Bool) : PlayerState :=
  if unavailable then p.clearStallTimer.dropSource.advanceToNextServer message
  else p.clearStallTimer.recoverDelivery message

/-- Whether what the player says about a source is heard. -/
def hears (p : PlayerState) (source : VideoSource) : Bool :=
  decide (p.source = some source) && decide (p.status ≠ .idle) && p.request.isSome

def onError (p : PlayerState) (message : Text) (source : VideoSource) (unavailable : Bool) : PlayerState :=
  if p.hears source then p.recover message unavailable else p

/-- The strip proxy's handler. -/
def mediaUnavailable (p : PlayerState) : PlayerState :=
  match p.source with
  | none => p
  | some source => p.onError "This source's media is unavailable. Trying another source...".toList source true

def onLoad (p : PlayerState) (duration : ℚ) (source : VideoSource) (now : Nat) : PlayerState :=
  if p.hears source then
    { p with
      duration := if duration > 0 then duration else p.duration
      loaded := true
      status := if p.paused then .paused else .playing
      buffering := false }.maybeApplyResume now
  else p

def resumeLoaded (p : PlayerState) (seconds : ℚ) (now : Nat) : PlayerState :=
  { p with resumeLoading := false, resumeSeconds := seconds, resumeFor := p.request }.maybeApplyResume now

/-- Whether the position shows that the last seek has landed. -/
def seekConfirmed (p : PlayerState) (position : ℚ) : Bool :=
  match p.pendingSeekSeconds with
  | none => true
  | some target =>
    decide (|position - target| ≤ 2) ||
      match p.pendingSeekSample with
      | none => false
      | some sample => decide (|position - target| ≤ seekLandingWindowSeconds ∧
          |sample - target| ≤ seekLandingWindowSeconds ∧ 0 < position - sample ∧ position - sample ≤ 5)

/-- How far the position has moved past an earlier one. -/
def advanced (earlier : Option ℚ) (position : ℚ) : ℚ := (earlier.map (position - ·)).getD 0

/-- Whether the source plays on by itself. -/
def advances (p : PlayerState) (position : ℚ) : Bool :=
  decide (3 / 10 < advanced p.lastProgressSample position) && decide (advanced p.lastProgressSample position ≤ 5)

/-- Real advancement disarms the stall watchdog. -/
def noteAdvance (p : PlayerState) (position : ℚ) : PlayerState :=
  if p.paused = false ∧ p.advances position then
    if p.status = .loading ∨ p.status = .playing then
      { p.clearStallTimer with buffering := false, status := .playing, lastProgressSample := some position }
    else { p.clearStallTimer with lastProgressSample := some position }
  else { p with lastProgressSample := some position }

def healthyAfter (p : PlayerState) (position : ℚ) : ℚ :=
  let delta := advanced p.healthProgressPosition position
  if p.loaded ∧ p.paused = false ∧ 0 < delta ∧ delta ≤ 5 then p.healthyPlaybackSeconds + delta else p.healthyPlaybackSeconds

/-- Sustained playback clears the error budget. -/
def clearBudget (p : PlayerState) : PlayerState :=
  if healthyPlaybackLimit < p.healthyPlaybackSeconds ∧ (0 < p.errorCount ∨ p.reresolved) then
    { p with errorCount := 0, reresolved := false }
  else p

def noteHealth (p : PlayerState) (position : ℚ) : PlayerState :=
  { p with
    healthyPlaybackSeconds := p.healthyAfter position
    healthProgressPosition := some position }.clearBudget

def seekTimedOut (p : PlayerState) (now : Nat) : Bool :=
  !p.paused && decide (seekConfirmationTimeoutMs ≤ now - p.pendingSeekStartedAt)

def sampleSeek (p : PlayerState) (sample : Option ℚ) : PlayerState := { p with pendingSeekSample := sample }

def landAt (p : PlayerState) (position duration : ℚ) : PlayerState :=
  { p with
    position := position
    pendingSeekSeconds := none
    duration := if duration > 0 then duration else p.duration }

/-- A position that is where the source plays. -/
def progress (p : PlayerState) (position duration : ℚ) (now : Nat) : PlayerState :=
  let next := (((p.sampleSeek none).noteAdvance position).noteHealth position).landAt position duration
  next.reportProgress position next.duration now

/-- A position while a seek is on its way. -/
def seekProgress (p : PlayerState) (position duration : ℚ) : PlayerState :=
  { p.sampleSeek (some position) with
    lastProgressSample := none
    healthProgressPosition := none
    position := p.pendingSeekSeconds.getD position
    duration := if duration > 0 then duration else p.duration }.clearBudget

def setProgress (p : PlayerState) (position duration : ℚ) (source : VideoSource) (now : Nat) (unavailable : Bool) :
    PlayerState :=
  if p.hears source then
    if p.seekConfirmed position then p.progress position duration now
    else if p.seekTimedOut now then
      (p.sampleSeek (some position)).onError "Playback did not reach the requested position.".toList source unavailable
    else p.seekProgress position duration
  else p

def onBuffer (p : PlayerState) (buffering : Bool) (source : VideoSource) : PlayerState :=
  if p.source = some source then
    { p with
      buffering
      sawBufferingSinceArm := p.sawBufferingSinceArm || (buffering && p.stallTimer) }
  else p

/-- Whether the end of a source is the end of the title. -/
def isRealEnd (p : PlayerState) (fraction : Option ℚ) : Bool :=
  (fraction.any fun frac => decide (85 / 100 ≤ frac)) ||
    if p.duration > 0 then decide (p.duration * (85 / 100) ≤ p.position) else decide (60 < p.position)

def onEnd (p : PlayerState) (fraction : Option ℚ) (source : VideoSource) (unavailable : Bool) : PlayerState :=
  if p.hears source then
    if p.isRealEnd fraction then { p.reportEnd with status := .ended, paused := true, buffering := false }
    else p.recover "This source ended before it played.".toList unavailable
  else p

/-- The next delivery route, else the next server. -/
def recoverStall (p : PlayerState) : PlayerState :=
  match p.tryTransportFallback with
  | some next => next
  | none => p.advanceToNextServer "This title's servers aren't responding right now.".toList

/-- The stall timer has fired. -/
def onStall (p : PlayerState) : PlayerState :=
  if p.request = none ∨ p.paused then p
  else if p.status = .idle ∨ p.status = .ended ∨ p.status = .error then p
  else if p.sawBufferingSinceArm ∧ p.stallExtensions < maxStallExtensions then
    { p with stallExtensions := p.stallExtensions + 1 }.extendStallTimer
  else p.clearStallTimer.recoverStall

/-- The player before it has been opened. -/
def initial : PlayerState where
  status := .idle
  request := none
  resolved := none
  source := none
  fallbackSources := []
  paused := false
  position := 0
  duration := 0
  buffering := false
  error := none
  errorCount := 0
  reresolved := false
  resumeSeconds := 0
  resumeApplied := false
  pendingSeekSeconds := none
  resumeFor := none
  loaded := false
  selectedAudioStreamIndex := none
  selectedSourceHash := none
  sources := none
  triedHashes := []
  playbackSequence := 0
  healthyPlaybackSeconds := 0
  healthProgressPosition := none
  pendingSeekSample := none
  pendingSeekStartedAt := 0
  stallTimer := false
  stallDue := false
  sawBufferingSinceArm := false
  stallExtensions := 0
  lastProgressSample := none
  awaiting := none
  resumeLoading := false
  lastFlushMs := none
  sent := []
  history := ⟨[], 0⟩

/-- The viewer opens a title, whatever the player has done before. -/
def opened (p : PlayerState) (request : PlayRequest) (sourceHash : Option Text) (offline : Option OfflineRecord)
    (now : Nat) : PlayerState :=
  let p := { p with
    status := .resolving
    request := some request
    resolved := none
    source := none
    fallbackSources := []
    error := none
    errorCount := 0
    reresolved := false
    position := 0
    duration := 0
    paused := false
    buffering := true
    resumeSeconds := 0
    resumeApplied := false
    pendingSeekSeconds := none
    resumeFor := none
    loaded := false
    selectedAudioStreamIndex := none
    selectedSourceHash := none
    sources := none
    triedHashes := []
    awaiting := none
    resumeLoading := true
    lastFlushMs := none
    sent := []
    history := ⟨[], 0⟩ }.clearStallTimer
  match offline with
  | some record =>
    { (p.beginReporting now).activateSource ⟨record.videoPath, false, 0⟩ with
      status := .loading
      resolved := some record.resolved
      buffering := true
      selectedAudioStreamIndex := record.audioStreamIndex
      selectedSourceHash := some record.resolved.sourceHash }
  | none => p.runResolve ⟨false, none, sourceHash⟩

/-- `saved` is the position that the server has. -/
def step (saved : ℚ) (p : PlayerState) : PlayerEvent → PlayerState
  | .resolved routed now =>
    match p.awaiting with
    | some (.resolve extra) => p.resolveDone extra routed now
    | _ => p
  | .resolveFailed message =>
    match p.awaiting with
    | some (.resolve _) => p.resolveFailed message
    | _ => p
  | .sourcesListed list =>
    match p.awaiting with
    | some (.sources tried message) => p.sourcesListed tried message list
    | _ => p
  | .sourcesFailed =>
    match p.awaiting with
    | some (.sources tried message) => p.sourcesFailed tried message
    | _ => p
  | .resumeLoaded now => if p.resumeLoading then p.resumeLoaded saved now else p
  | .onLoad duration source now => p.onLoad duration source now
  | .setProgress position duration source now unavailable => p.setProgress position duration source now unavailable
  | .onBuffer buffering source => p.onBuffer buffering source
  | .onEnd fraction source unavailable => p.onEnd fraction source unavailable
  | .onError message source unavailable => p.onError message source unavailable
  | .mediaUnavailable => p.mediaUnavailable
  | .onStall => if p.stallDue then { p with stallDue := false }.onStall else p

end PlayerState
end StreamArena.Mobile
