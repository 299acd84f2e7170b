import StreamArena.Library.Decimal
import StreamArena.Library.Runs
import StreamArena.Playback.SessionNames
import StreamArena.Streaming.TranscodeInput

/-! Reuse of playback sessions (src/resolver.rs): the sessions that a resolve finds under its
keys or under its tmdb id, and the names that tell it which of them are of its title. -/
namespace StreamArena.Playback
open AsciiText KeyedTable JsonValue Runs Decimal
open Streaming (TranscodeInput.Libraries)

inductive ResolverProvider where
  | realDebrid | localTorrent | fastest
  deriving DecidableEq

def ResolverProvider.asStr : ResolverProvider → Text
  | realDebrid => "real-debrid".toList
  | localTorrent => "local-torrent".toList
  | fastest => "fastest".toList

inductive MediaType where
  | movie | tv
  deriving DecidableEq

def MediaType.asStr : MediaType → Text
  | movie => "movie".toList
  | tv => "tv".toList

/-- What a resolve is for: a film, or an episode of a series. -/
structure Title where
  mediaType : MediaType
  tmdbId : Text
  seasonNumber : Nat
  episodeNumber : Nat
  deriving DecidableEq

/-- Ids are numeric; episodes are counted from one and films have none. -/
structure ResolveMetadata extends Title where
  imdbId : Text
  displayTitle : Text
  displayYear : Text
  runtimeSeconds : Int
  episodeTitle : Text
  numeric : tmdbId ≠ [] ∧ ∀ c ∈ tmdbId, c.isDigit = true
  ordinals : mediaType = .tv ∧ 1 ≤ seasonNumber ∧ 1 ≤ episodeNumber ∨
    mediaType = .movie ∧ seasonNumber = 0 ∧ episodeNumber = 0

structure ResolvePreferences where
  audioLang : Text
  quality : Text

structure SourceFilters where
  minSeeders : Int
  allowedFormats : List Text
  sourceLanguage : Text
  sourceAudioProfile : Text

structure ResolveFilters where
  sourceHash : Text
  preferredContainer : Text
  sourceFilters : SourceFilters

/-- A resolve, with the session key that its client asks for and the scope of its credential. -/
structure ResolveRequest where
  userId : Int
  metadata : ResolveMetadata
  preferences : ResolvePreferences
  filters : ResolveFilters
  resolverProvider : ResolverProvider
  sessionKey : Text
  realDebrid : Option Text

def ResolveRequest.title (request : ResolveRequest) : Title := request.metadata.toTitle

structure ResolvedSource where
  playableUrl : Text
  fallbackUrls : List Text
  filename : Text
  sourceHash : Text
  selectedFile : Text
  selectedFilePath : Text
  realDebridCached : Bool

/-- The addresses and the filename that the response is prepared with, once tracks are known. -/
structure PreparedSource where
  playableUrl : Text
  fallbackUrls : List Text
  filename : Text

/-- The libraries, and the setting that turns sessions on. -/
structure Platform where
  libs : Streaming.TranscodeInput.Libraries
  isWord : Char → Bool
  render : Value → Text
  playbackSessionsEnabled : Bool

def Platform.unicode (p : Platform) : Unicode := ⟨p.libs.toLowercase, p.isWord⟩

def sourceLanguageFilterDefault : Text := "en".toList
def sourceAudioProfileDefault : Text := "single".toList

/-! Keys. -/

section keys
variable (p : Platform)

def buildTvPlaybackSessionKey (tmdbId : Text) (seasonNumber episodeNumber : Nat) (audioLang quality : Text) : Text :=
  colonSeparated ["tv".toList, trim tmdbId, 's' :: decimalText (max seasonNumber 1),
    'e' :: decimalText (max episodeNumber 1), normalizePreferredAudioLang p.libs.toLowercase audioLang,
    normalizePreferredStreamQuality p.libs.toLowercase quality]

def buildPlaybackSessionKeyForMetadata (metadata : ResolveMetadata) (audioLang quality : Text)
    (resolverProvider : ResolverProvider) : Text :=
  let key :=
    if metadata.mediaType = .tv then
      buildTvPlaybackSessionKey p metadata.tmdbId metadata.seasonNumber metadata.episodeNumber audioLang quality
    else buildPlaybackSessionKey p.libs.toLowercase metadata.tmdbId audioLang quality
  if resolverProvider = .realDebrid then key else colonSeparated [resolverProvider.asStr, key]

def realDebridPlaybackSessionPrefix (userId : Int) : Text :=
  "real-debrid:user:".toList ++ decimalText (max userId 0) ++ [':']

def buildUserScopedPlaybackSessionKeyForMetadata (metadata : ResolveMetadata) (audioLang quality : Text)
    (resolverProvider : ResolverProvider) (userId : Int) : Text :=
  let base := buildPlaybackSessionKeyForMetadata p metadata audioLang quality resolverProvider
  if resolverProvider = .realDebrid then realDebridPlaybackSessionPrefix userId ++ base else base

def playbackSessionKeyAllowedForUser (sessionKey : Text) (resolverProvider : ResolverProvider) (userId : Int) : Bool :=
  resolverProvider ≠ .realDebrid || startsWith sessionKey (realDebridPlaybackSessionPrefix userId)

def requestedPlaybackSessionKeyAllowed (sessionKey : Text) (resolverProvider : ResolverProvider) (userId : Int) : Bool :=
  !(trim sessionKey).isEmpty && playbackSessionKeyAllowedForUser sessionKey resolverProvider userId

end keys

/-! Filters. -/

section filters
variable (p : Platform)

def extractPlayableSourceInput (sourceUrl : Text) : Text :=
  (Streaming.TranscodeInput.parsePlaybackProxyInput p.libs sourceUrl).getD (trim sourceUrl)

def looksLikeHttpUrl (value : Text) : Bool :=
  startsWith value "http://".toList || startsWith value "https://".toList

def stringifyJson : Option Value → Text
  | some (.string text) => trim text
  | some (.int number) => decimalText number
  | some (.bool value) => if value then "true".toList else "false".toList
  | _ => []

def isHexDigit (c : Char) : Bool := c.isDigit || ('a' ≤ c && c ≤ 'f') || ('A' ≤ c && c ≤ 'F')

def normalizeSourceHash (value : Text) : Text :=
  let normalized := p.libs.toLowercase (trim value)
  if byteLength normalized = 40 ∧ normalized.all isHexDigit then normalized else []

def normalizeResolverProvider (value : Text) : ResolverProvider :=
  let value := p.libs.toLowercase (trim value)
  if ["real-debrid".toList, "real_debrid".toList, "realdebrid".toList, "debrid".toList, "rd".toList].contains value
  then .realDebrid
  else if ["local-torrent".toList, "local_torrent".toList, "local".toList, "torrent".toList].contains value
  then .localTorrent
  else .fastest

def playbackSessionResolverProvider (session : PlaybackSession) : ResolverProvider :=
  normalizeResolverProvider p
    (((session.metadata.get "resolverProvider".toList).bind Value.asStr).getD "real-debrid".toList)

def playbackSessionSelectedFilePath (session : PlaybackSession) : Text :=
  stringifyJson (session.metadata.get "subtitleTargetFilePath".toList)

def playbackSessionMatchName (session : PlaybackSession) : Text :=
  let selectedFilePath := playbackSessionSelectedFilePath session
  if selectedFilePath.isEmpty then session.filename else selectedFilePath

def playbackSessionMatchesSourceHash (session : PlaybackSession) (filters : ResolveFilters) : Bool :=
  let requestedHash := normalizeSourceHash p filters.sourceHash
  requestedHash.isEmpty || normalizeSourceHash p session.sourceHash == requestedHash

def normalizePreferredContainer (value : Text) : Text :=
  let value := p.libs.toLowercase (trim value)
  if value = "mp4".toList ∨ value = "mkv".toList then value else "auto".toList

def playbackSessionLooksLikeContainer (session : PlaybackSession) (container : Text) : Bool :=
  [extractPlayableSourceInput p session.playableUrl, session.playableUrl, session.filename,
    playbackSessionSelectedFilePath session].any fun value =>
      contains (p.libs.toLowercase value) ('.' :: container)

def playbackSessionMatchesPreferredContainer (session : PlaybackSession) (filters : ResolveFilters) : Bool :=
  let container := normalizePreferredContainer p filters.preferredContainer
  container = "auto".toList || playbackSessionLooksLikeContainer p session container

def streamQualityTarget (value : Text) : Nat :=
  if value = "2160p".toList then 2160
  else if value = "1080p".toList then 1080
  else if value = "720p".toList then 720
  else 0

def playbackSessionMatchesPreferredQuality (session : PlaybackSession) (preferences : ResolvePreferences)
    (filters : ResolveFilters) : Bool :=
  let preferredQuality := normalizePreferredStreamQuality p.libs.toLowercase preferences.quality
  let targetHeight := streamQualityTarget preferredQuality
  let sessionText := [' '].intercalate ([extractPlayableSourceInput p session.playableUrl, session.playableUrl,
    session.filename, session.selectedFile, playbackSessionSelectedFilePath session].filter fun value =>
      !(trim value).isEmpty)
  let sessionHeight := parseVerticalResolutionFromText p.unicode sessionText
  !(normalizeSourceHash p filters.sourceHash).isEmpty || preferredQuality = "auto".toList ||
    normalizePreferredStreamQuality p.libs.toLowercase session.preferredQuality = preferredQuality ||
    targetHeight = 0 || sessionHeight = 0 || sessionHeight = targetHeight

def playbackSessionMatchesRealDebridScope (session : PlaybackSession) (resolverProvider : ResolverProvider)
    (realDebrid : Option Text) : Bool :=
  resolverProvider ≠ .realDebrid ||
    realDebrid.any fun cacheScope =>
      (session.metadata.get playbackSessionCredentialScopeMetadataKey).bind Value.asStr = some cacheScope

def playbackSessionIsLocalTorrent (session : PlaybackSession) : Bool :=
  playbackSessionResolverProvider p session = .localTorrent ||
    contains session.playableUrl "/api/local-torrent/stream".toList ||
    contains session.playableUrl "/api/local-cache/stream".toList

def shouldSkipUnpinnedTorrentSessionReuse (session : PlaybackSession) (filters : ResolveFilters) : Bool :=
  filters.sourceHash.isEmpty && playbackSessionIsLocalTorrent p session

def shouldSkipPlaybackSessionReuse (filters : ResolveFilters) : Bool :=
  decide (0 < filters.sourceFilters.minSeeders) || !filters.sourceFilters.allowedFormats.isEmpty ||
    filters.sourceFilters.sourceLanguage ≠ sourceLanguageFilterDefault ||
    filters.sourceFilters.sourceAudioProfile ≠ sourceAudioProfileDefault

/-- What both ways of reuse ask of a session before they look at its name. -/
def passesFilters (request : ResolveRequest) (session : PlaybackSession) : Bool :=
  session.tmdbId = request.metadata.tmdbId && !(trim session.playableUrl).isEmpty &&
    playbackSessionMatchesSourceHash p session request.filters &&
    playbackSessionMatchesPreferredContainer p session request.filters &&
    playbackSessionMatchesPreferredQuality p session request.preferences request.filters &&
    playbackSessionResolverProvider p session = request.resolverProvider &&
    playbackSessionMatchesRealDebridScope session request.resolverProvider request.realDebrid &&
    !shouldSkipUnpinnedTorrentSessionReuse p session request.filters

def isValidMatch (request : ResolveRequest) (session : PlaybackSession) : Bool :=
  let metadata := request.metadata
  if metadata.mediaType = .tv then
    doesFilenameLikelyMatchTvEpisode p.unicode (playbackSessionMatchName session) metadata.displayTitle
      metadata.displayYear metadata.seasonNumber metadata.episodeNumber
  else
    doesFilenameLikelyMatchMovie p.unicode (playbackSessionMatchName session) metadata.displayTitle
      metadata.displayYear

end filters

/-! What a resolve persists. -/

def normalizeWhitespace (value : Text) : Text :=
  Separated.join ' ' ((value.splitOnP isWhitespace).filter fun piece => !piece.isEmpty)

def buildResolvedMetadataPayload (request : ResolveRequest) (resolved : ResolvedSource) (filename : Text) : Value :=
  let metadata := request.metadata
  let subtitleTargetFilePath := trim resolved.selectedFilePath
  let subtitleTargetFilename := normalizeWhitespace filename
  let subtitleTargetName :=
    if subtitleTargetFilePath.isEmpty then subtitleTargetFilename else subtitleTargetFilePath
  let scope : List (Text × Value) :=
    match request.resolverProvider, request.realDebrid with
    | .realDebrid, some cacheScope => [(playbackSessionCredentialScopeMetadataKey, .string cacheScope)]
    | _, _ => []
  .object (scope ++ [
    ("displayTitle".toList, .string metadata.displayTitle),
    ("displayYear".toList, .string metadata.displayYear),
    ("episodeNumber".toList, .int metadata.episodeNumber),
    ("episodeTitle".toList, .string metadata.episodeTitle),
    ("imdbId".toList, .string metadata.imdbId),
    ("mediaType".toList, .string metadata.mediaType.asStr),
    ("realDebridCached".toList, .bool resolved.realDebridCached),
    ("resolverProvider".toList, .string request.resolverProvider.asStr),
    ("runtimeSeconds".toList, .int metadata.runtimeSeconds),
    ("seasonNumber".toList, .int metadata.seasonNumber),
    ("subtitleTargetFilePath".toList, .string subtitleTargetFilePath),
    ("subtitleTargetFilename".toList, .string subtitleTargetFilename),
    ("subtitleTargetName".toList, .string subtitleTargetName),
    ("tmdbId".toList, .string metadata.tmdbId)])

def ResolveRequest.ownKey (p : Platform) (request : ResolveRequest) : Text :=
  buildUserScopedPlaybackSessionKeyForMetadata p request.metadata request.preferences.audioLang
    request.preferences.quality request.resolverProvider request.userId

def persistInput (p : Platform) (request : ResolveRequest) (resolved : ResolvedSource) (prepared : PreparedSource) :
    PersistPlaybackSessionInput :=
  let filename := if prepared.filename.isEmpty then resolved.filename else prepared.filename
  { userId := request.userId
    sessionKey := request.ownKey p
    tmdbId := request.metadata.tmdbId
    audioLang := request.preferences.audioLang
    preferredQuality := request.preferences.quality
    sourceHash := resolved.sourceHash
    selectedFile := resolved.selectedFile
    filename
    playableUrl := prepared.playableUrl
    fallbackUrls := prepared.fallbackUrls
    metadata := buildResolvedMetadataPayload request resolved filename }

/-- The source that a session stands for. -/
def sessionSource (session : PlaybackSession) : ResolvedSource where
  playableUrl := session.playableUrl
  fallbackUrls := session.fallbackUrls
  filename := session.filename
  sourceHash := session.sourceHash
  selectedFile := session.selectedFile
  selectedFilePath := playbackSessionSelectedFilePath session
  realDebridCached :=
    match session.metadata.get "realDebridCached".toList with
    | some (.bool value) => value
    | _ => false

/-! The sessions that a resolve looks at. -/

section lookup
variable (p : Platform)

def lookupKeys (request : ResolveRequest) : List Text :=
  let requested := trim request.sessionKey
  if requestedPlaybackSessionKeyAllowed requested request.resolverProvider request.userId then
    [requested, request.ownKey p]
  else [request.ownKey p]

def findSession (t : SessionTable) (request : ResolveRequest) : Option PlaybackSession :=
  (lookupKeys p request).findSome? (getPlaybackSessionInner p.libs.toLowercase t request.userId)

/-- The sessions of a tmdb id that may still play, the last updated first. -/
def latestHealthyPlaybackSessions (t : SessionTable) (userId : Int) (tmdbId : Text) : List PlaybackSession :=
  let rows := t.select fun key row =>
    decide (key.1 = userId) && decide (row.tmdbId = tmdbId) && decide (row.healthState ≠ .invalid) &&
      !row.playableUrl.isEmpty
  let latest := (rows.mergeSort fun a b => decide (b.2.updatedAt ≤ a.2.updatedAt)).take 20
  latest.filterMap fun entry => getPlaybackSessionInner p.libs.toLowercase t userId entry.1.2

/-- Whether the address of a session has to be checked before it is used. -/
def needsRevalidation (session : PlaybackSession) (now : Int) : Bool :=
  (decide (session.nextValidationAt < 0) ||
    decide (0 < session.nextValidationAt ∧ session.nextValidationAt ≤ now)) &&
    looksLikeHttpUrl (extractPlayableSourceInput p session.playableUrl)

end lookup

def mismatchReason : Text := "Playback session filename mismatched the requested title.".toList
def validationFailedReason : Text := "Playback session validation failed for the stored stream URL.".toList

end StreamArena.Playback
