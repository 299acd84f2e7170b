import StreamArena.Library.JsonValue
import StreamArena.Library.KeyedTable

/-! The `playback_sessions` table of the cache database (src/persistence.rs): its
rows, and every statement that writes them. A call that reads first carries what
it read into its write. -/
namespace StreamArena.Playback
open AsciiText KeyedTable JsonValue

inductive HealthState where
  | healthy
  | degraded
  | invalid
  | unknown
  deriving DecidableEq

/-- Unicode lower case, as the standard library of the source has it. -/
abbrev Lowercase := Text → Text

section normalize
variable (toLowercase : Lowercase)

def normalizeSessionHealthState (value : Text) : HealthState :=
  let value := toLowercase (trim value)
  if value = "healthy".toList then .healthy
  else if value = "degraded".toList then .degraded
  else if value = "invalid".toList then .invalid
  else .unknown

def normalizePreferredAudioLang (value : Text) : Text :=
  let value := toLowercase (trim value)
  if ["en".toList, "fr".toList, "es".toList, "de".toList, "it".toList, "pt".toList].contains value then
    value
  else "auto".toList

def normalizePreferredStreamQuality (value : Text) : Text :=
  let value := toLowercase (trim value)
  if ["4k".toList, "uhd".toList, "2160".toList, "2160p".toList].contains value then "2160p".toList
  else if ["1080".toList, "1080p".toList].contains value then "1080p".toList
  else if ["720".toList, "720p".toList].contains value then "720p".toList
  else "auto".toList

/-- Segments with colons between them. -/
def colonSeparated (parts : List Text) : Text := [':'].intercalate parts

def buildPlaybackSessionKey (tmdbId audioLang quality : Text) : Text :=
  colonSeparated [trim tmdbId, normalizePreferredAudioLang toLowercase audioLang,
    normalizePreferredStreamQuality toLowercase quality]

def buildRelatedPlaybackSessionKeyWithAudio (sessionKey tmdbId audioLang quality : Text) : Text :=
  match sessionKey.splitOn ':' with
  | [kind, show_, season, episode, _, _] =>
    if kind = "tv".toList ∧ show_ = trim tmdbId then
      colonSeparated ["tv".toList, show_, season, episode,
        normalizePreferredAudioLang toLowercase audioLang,
        normalizePreferredStreamQuality toLowercase quality]
    else buildPlaybackSessionKey toLowercase tmdbId audioLang quality
  | _ => buildPlaybackSessionKey toLowercase tmdbId audioLang quality

end normalize

def playbackSessionValidateIntervalMs : Int := 90 * 1000
def playbackSessionValidationLeaseMs : Int := 10 * 1000
def playbackSessionPersistMaxEntries : Nat := 2500
def playbackSessionCredentialScopeMetadataKey : Text := "_realDebridCredentialScope".toList

/-- A row; the two JSON columns are kept as the values they encode. -/
structure PlaybackSessionRow where
  tmdbId : Text
  audioLang : Text
  sourceHash : Text
  selectedFile : Text
  filename : Text
  playableUrl : Text
  fallbackUrls : List Text
  metadata : Value
  lastPositionSeconds : ℚ
  healthState : HealthState
  healthFailCount : Int
  lastError : Text
  lastVerifiedAt : Int
  nextValidationAt : Int
  updatedAt : Int
  lastAccessedAt : Int

abbrev SessionTable := Table (Int × Text) PlaybackSessionRow

/-- A session as `get_playback_session_inner` returns it. -/
structure PlaybackSession where
  userId : Int
  sessionKey : Text
  tmdbId : Text
  audioLang : Text
  preferredQuality : Text
  sourceHash : Text
  selectedFile : Text
  filename : Text
  playableUrl : Text
  fallbackUrls : List Text
  metadata : Value
  lastPositionSeconds : ℚ
  healthState : HealthState
  healthFailCount : Int
  lastError : Text
  lastVerifiedAt : Int
  nextValidationAt : Int

/-- The key of a session's row. -/
def PlaybackSession.key (session : PlaybackSession) : Int × Text :=
  (session.userId, session.sessionKey)

structure PersistPlaybackSessionInput where
  userId : Int
  sessionKey : Text
  tmdbId : Text
  audioLang : Text
  preferredQuality : Text
  sourceHash : Text
  selectedFile : Text
  filename : Text
  playableUrl : Text
  fallbackUrls : List Text
  metadata : Value

def credentialScope (metadata : Value) : Text :=
  ((metadata.get playbackSessionCredentialScopeMetadataKey).bind Value.asStr).getD []

variable (toLowercase : Lowercase)

def parseMovieResolveKeyQuality (cacheKey : Text) : Text :=
  normalizePreferredStreamQuality toLowercase ((cacheKey.splitOn ':').getLastD [])

def getPlaybackSessionInner (t : SessionTable) (userId : Int) (sessionKey : Text) :
    Option PlaybackSession :=
  (t.get (userId, sessionKey)).map fun row =>
    { userId
      sessionKey
      tmdbId := row.tmdbId
      audioLang := normalizePreferredAudioLang toLowercase row.audioLang
      preferredQuality := parseMovieResolveKeyQuality toLowercase sessionKey
      sourceHash := toLowercase (trim row.sourceHash)
      selectedFile := row.selectedFile
      filename := row.filename
      playableUrl := row.playableUrl
      fallbackUrls := (row.fallbackUrls.map trim).filter fun value => !value.isEmpty
      metadata := row.metadata
      lastPositionSeconds := max row.lastPositionSeconds 0
      healthState := row.healthState
      healthFailCount := max row.healthFailCount 0
      lastError := row.lastError
      lastVerifiedAt := max row.lastVerifiedAt 0
      nextValidationAt := row.nextValidationAt }

/-- What a validation claim answers; a token is always negative. -/
inductive PlaybackSessionValidationClaim where
  | claimed (token : { value : Int // value < 0 })
  | fresh
  | leased
  | unavailable

def truncatedError (text : Text) : Text := text.take 500

/-- The fail count a progress report writes over the one it read. -/
def nextFailCount (existing : PlaybackSession) : HealthState → Int
  | .invalid => existing.healthFailCount + 1
  | .healthy => 0
  | _ => existing.healthFailCount

def progressRow (now : Int) (existing : PlaybackSession) (positionSeconds : ℚ)
    (healthState lastError : Text) (row : PlaybackSessionRow) : PlaybackSessionRow :=
  let nextHealth := normalizeSessionHealthState toLowercase healthState
  let nextError := if nextHealth = .healthy then []
    else truncatedError (if (trim lastError).isEmpty then existing.lastError else lastError)
  { row with
    lastPositionSeconds := max positionSeconds 0
    healthState := nextHealth
    healthFailCount := nextFailCount existing nextHealth
    lastError := nextError
    updatedAt := now
    lastAccessedAt := now }

/-- The `UPDATE` of a progress report; `existing` is what the call read before. -/
def updatePlaybackSessionProgress (t : SessionTable) (now : Int) (existing : PlaybackSession)
    (positionSeconds : ℚ) (healthState lastError : Text) : SessionTable :=
  t.updateWhere (fun key _ => decide (key = existing.key))
    (progressRow toLowercase now existing positionSeconds healthState lastError)

def markInvalid (now : Int) (reason : Text) (row : PlaybackSessionRow) : PlaybackSessionRow :=
  { row with
    healthState := .invalid
    healthFailCount := row.healthFailCount + 1
    lastError := truncatedError reason
    updatedAt := now
    lastAccessedAt := now }

/-- The rows a report on a source hash marks. -/
def reportsSource (userId : Int) (sourceHash : Text) (key : Int × Text) (row : PlaybackSessionRow) :
    Bool :=
  let normalizedSourceHash := toLowercase (trim sourceHash)
  !normalizedSourceHash.isEmpty && decide (key.1 = userId) &&
    decide (row.sourceHash = normalizedSourceHash) && decide (row.healthState ≠ .invalid)

def invalidatePlaybackSessionsBySourceHash (t : SessionTable) (now userId : Int)
    (sourceHash reason : Text) : SessionTable :=
  t.updateWhere (reportsSource toLowercase userId sourceHash) (markInvalid now reason)

def playbackSessionValidationIdentityMatches (session : PlaybackSession) (row : PlaybackSessionRow) :
    Bool :=
  decide (session.playableUrl = row.playableUrl) &&
    decide (session.sourceHash = toLowercase (trim row.sourceHash)) &&
    decide (session.selectedFile = row.selectedFile) &&
    decide (credentialScope session.metadata = credentialScope row.metadata)

def claimToken (now : Int) : { value : Int // value < 0 } :=
  ⟨-max (now + playbackSessionValidationLeaseMs) 1, by omega⟩

def leaseRow (now : Int) (row : PlaybackSessionRow) : PlaybackSessionRow :=
  { row with nextValidationAt := claimToken now, lastAccessedAt := now }

/-- One immediate transaction; the clock is read inside it. -/
def tryClaimPlaybackSessionValidation (t : SessionTable) (now : Int) (session : PlaybackSession) :
    SessionTable × PlaybackSessionValidationClaim :=
  match t.get session.key with
  | none => (t, .unavailable)
  | some row =>
    if row.healthState = .invalid ∨
        playbackSessionValidationIdentityMatches toLowercase session row = false then
      (t, .unavailable)
    else if row.nextValidationAt = 0 ∨ row.nextValidationAt > now then (t, .fresh)
    else if row.nextValidationAt < 0 ∧ -row.nextValidationAt > now then (t, .leased)
    else
      (t.updateWhere (fun key _ => decide (key = session.key)) (leaseRow now),
        .claimed (claimToken now))

/-- SQLite's `LOWER(TRIM(…))`: ASCII letters and spaces only. -/
def sqlLowerTrim (s : Text) : Text :=
  toAsciiLowercase ((s.dropWhile fun c => c == ' ').rdropWhile fun c => c == ' ')

/-- Whether `COALESCE(json_extract(…), '')` equals a text; arrays and objects are
compared as `render` writes them. -/
def credentialScopeIs (render : Value → Text) (metadata : Value) (scope : Text) : Bool :=
  match metadata.get playbackSessionCredentialScopeMetadataKey with
  | none | some .null => scope.isEmpty
  | some (.string value) => value == scope
  | some (.array entries) => render (.array entries) == scope
  | some (.object fields) => render (.object fields) == scope
  | some _ => false

def refreshRow (now : Int) (row : PlaybackSessionRow) : PlaybackSessionRow :=
  { row with
    lastVerifiedAt := now
    nextValidationAt := now + playbackSessionValidateIntervalMs
    updatedAt := now
    lastAccessedAt := now }

section holder
variable (render : Value → Text) (t : SessionTable) (now : Int) (session : PlaybackSession)
  (claimToken : Int)

/-- The `WHERE` clause of both writes of a claim's holder. -/
def holdsClaim (key : Int × Text) (row : PlaybackSessionRow) : Bool :=
  decide (key = session.key) && decide (row.playableUrl = session.playableUrl) &&
    decide (sqlLowerTrim row.sourceHash = session.sourceHash) &&
    decide (row.selectedFile = session.selectedFile) &&
    credentialScopeIs render row.metadata (credentialScope session.metadata) &&
    decide (row.healthState ≠ .invalid) && decide (row.nextValidationAt = claimToken)

def refreshPlaybackSessionValidationIfCurrent : SessionTable :=
  t.updateWhere (holdsClaim render session claimToken) (refreshRow now)

def invalidatePlaybackSessionValidationIfCurrent (reason : Text) : SessionTable :=
  t.updateWhere (holdsClaim render session claimToken) (markInvalid now reason)

end holder

def normalizePlaybackSessionFallbackUrls (values : List Text) : List Text :=
  values.foldl (fun unique value =>
    let trimmed := trim value
    if trimmed.isEmpty || unique.contains trimmed then unique else unique ++ [trimmed]) []

namespace PersistPlaybackSessionInput
variable (input : PersistPlaybackSessionInput)

/-- Whether the call goes on to the database. -/
def isComplete : Bool :=
  decide (0 < input.userId) && !(trim input.sessionKey).isEmpty && !(trim input.tmdbId).isEmpty &&
    !(trim input.playableUrl).isEmpty

def key : Int × Text := (input.userId, trim input.sessionKey)

/-- The auto-language session a session in a language replaces. -/
def autoSessionKey : Option Text :=
  if normalizePreferredAudioLang toLowercase input.audioLang = "auto".toList then none
  else
    let autoKey := buildRelatedPlaybackSessionKeyWithAudio toLowercase (trim input.sessionKey)
      input.tmdbId "auto".toList
      (normalizePreferredStreamQuality toLowercase input.preferredQuality)
    if autoKey.isEmpty || decide (autoKey = trim input.sessionKey) then none else some autoKey

def replacedKey : Option (Int × Text) :=
  (input.autoSessionKey toLowercase).map fun autoKey => (input.userId, autoKey)

def row (now : Int) (persistedPosition : ℚ) : PlaybackSessionRow where
  tmdbId := trim input.tmdbId
  audioLang := normalizePreferredAudioLang toLowercase input.audioLang
  sourceHash := toLowercase (trim input.sourceHash)
  selectedFile := trim input.selectedFile
  filename := trim input.filename
  playableUrl := trim input.playableUrl
  fallbackUrls := normalizePlaybackSessionFallbackUrls input.fallbackUrls
  metadata := input.metadata
  lastPositionSeconds := persistedPosition
  healthState := .healthy
  healthFailCount := 0
  lastError := []
  lastVerifiedAt := now
  nextValidationAt := now + playbackSessionValidateIntervalMs
  updatedAt := now
  lastAccessedAt := now

end PersistPlaybackSessionInput

/-- The position a new row starts from, as the two reads before the transaction gave it. -/
def persistedPosition (existing autoSession : Option PlaybackSession) : ℚ :=
  max ((existing.map PlaybackSession.lastPositionSeconds).getD
    ((autoSession.map PlaybackSession.lastPositionSeconds).getD 0)) 0

/-- The transaction of `persist_playback_session`. -/
def commitPlaybackSession (t : SessionTable) (now : Int) (input : PersistPlaybackSessionInput)
    (position : ℚ) : SessionTable :=
  let excluded := input.row toLowercase now position
  let inserted := t.upsert input.key excluded fun row =>
    { excluded with lastPositionSeconds := row.lastPositionSeconds }
  match input.replacedKey toLowercase with
  | none => inserted
  | some autoKey => inserted.deleteWhere fun key _ => decide (key = autoKey)

/-- How many rows `trim_table` counts past the limit. -/
def playbackSessionOverflow (t : SessionTable) : Nat :=
  t.rows.length - playbackSessionPersistMaxEntries

/-- The `DELETE` of `trim_table`: the least recently updated rows go. -/
def trimPlaybackSessions (t : SessionTable) (overflow : Nat) : SessionTable :=
  let oldest := (t.rows.mergeSort fun a b => decide (a.2.updatedAt ≤ b.2.updatedAt)).take overflow
  t.deleteWhere fun key _ => decide (key ∈ oldest.map Prod.fst)

/-- The writes of all calls on the table, each with what its call read before. -/
inductive SessionWrite where
  | updateProgress (existing : PlaybackSession) (positionSeconds : ℚ) (healthState lastError : Text)
  | invalidateBySourceHash (userId : Int) (sourceHash reason : Text)
  | claim (session : PlaybackSession)
  | refresh (session : PlaybackSession) (token : { value : Int // value < 0 })
  | invalidate (session : PlaybackSession) (token : { value : Int // value < 0 }) (reason : Text)
  | persist (input : PersistPlaybackSessionInput) (position : ℚ)
  | trimTable (overflow : Nat)

def SessionWrite.apply (render : Value → Text) (t : SessionTable) (now : Int) :
    SessionWrite → SessionTable
  | .updateProgress existing positionSeconds healthState lastError =>
    updatePlaybackSessionProgress toLowercase t now existing positionSeconds healthState lastError
  | .invalidateBySourceHash userId sourceHash reason =>
    invalidatePlaybackSessionsBySourceHash toLowercase t now userId sourceHash reason
  | .claim session => (tryClaimPlaybackSessionValidation toLowercase t now session).1
  | .refresh session token =>
    refreshPlaybackSessionValidationIfCurrent render t now session token.1
  | .invalidate session token reason =>
    invalidatePlaybackSessionValidationIfCurrent render t now session token.1 reason
  | .persist input position => commitPlaybackSession toLowercase t now input position
  | .trimTable overflow => trimPlaybackSessions t overflow

variable {toLowercase} {t : SessionTable} {input : PersistPlaybackSessionInput}

theorem replacedKey_ne : input.replacedKey toLowercase ≠ some input.key := by
  intro h
  obtain ⟨autoKey, hauto, hkey⟩ := Option.map_eq_some_iff.mp h
  obtain ⟨-, hkey⟩ := Prod.mk.inj hkey
  rw [PersistPlaybackSessionInput.autoSessionKey, Option.ite_none_left_eq_some] at hauto
  dsimp only at hauto
  rw [Option.ite_none_left_eq_some, Option.some.injEq] at hauto
  obtain ⟨-, hne, rfl⟩ := hauto
  rw [hkey, decide_eq_true rfl, Bool.or_true] at hne
  exact hne rfl

/-- The transaction writes the session's row, removes the replaced one and nothing else. -/
theorem get_commitPlaybackSession (toLowercase : Lowercase) (t : SessionTable)
    (input : PersistPlaybackSessionInput) (now : Int) (position : ℚ) (key : Int × Text) :
    (commitPlaybackSession toLowercase t now input position).get key =
      if key = input.key then
        some { input.row toLowercase now position with
          lastPositionSeconds :=
            ((t.get key).map PlaybackSessionRow.lastPositionSeconds).getD position }
      else if input.replacedKey toLowercase = some key then none else t.get key := by
  have hinserted (k : Int × Text) := get_upsert t input.key k (input.row toLowercase now position)
    fun row => { input.row toLowercase now position with
      lastPositionSeconds := row.lastPositionSeconds }
  unfold commitPlaybackSession
  by_cases hkey : key = input.key
  · subst hkey
    rw [if_pos rfl]
    have hrow := hinserted input.key
    rw [if_pos rfl] at hrow
    cases hreplaced : input.replacedKey toLowercase with
    | none =>
      refine hrow.trans ?_
      cases t.get input.key <;> rfl
    | some autoKey =>
      have hne : input.key ≠ autoKey := fun he => replacedKey_ne (he ▸ hreplaced)
      refine (get_deleteWhere_of_not fun _ _ => by simp [hne]).trans (hrow.trans ?_)
      cases t.get input.key <;> rfl
  · rw [if_neg hkey]
    have hrow := hinserted key
    rw [if_neg hkey] at hrow
    cases hreplaced : input.replacedKey toLowercase with
    | none => simpa using hrow
    | some autoKey =>
      dsimp only
      rw [get_deleteWhere, hrow]
      by_cases hauto : autoKey = key
      · rw [if_pos (congrArg some hauto)]
        cases t.get key <;> simp [hauto]
      · rw [if_neg fun h => hauto (Option.some.inj h), filter_keep fun _ _ => by simp [Ne.symm hauto]]

/-- A film whose address was resolved. -/
def resolvedFilm : PersistPlaybackSessionInput where
  userId := 7
  sessionKey := "603:auto:1080p".toList
  tmdbId := "603".toList
  audioLang := "auto".toList
  preferredQuality := "1080p".toList
  sourceHash := "c0ffee".toList
  selectedFile := "1".toList
  filename := "film.mkv".toList
  playableUrl := "https://cdn.example/film.mkv".toList
  fallbackUrls := []
  metadata := .object []

end StreamArena.Playback
