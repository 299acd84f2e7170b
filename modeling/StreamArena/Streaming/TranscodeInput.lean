import StreamArena.Library.Base64Url
import StreamArena.Library.Mac
import StreamArena.Library.UrlQueries
import StreamArena.Streaming.CachePaths

/-! Playback inputs (src/media.rs): what an input is resolved to before it goes to ffmpeg. -/
namespace StreamArena.Streaming.TranscodeInput
open AsciiText Aead FormUrlencoded Urls

inductive Component where
  | rootDir | curDir | parentDir
  | normal (segment : Text)
  deriving DecidableEq

/-- A path without empty segments and dots, but for a dot that it starts with. -/
def components (path : Text) : List Component :=
  let segments := path.splitOn '/'
  let start : List Component :=
    if path.head? = some '/' then [.rootDir] else if segments.head? = some ['.'] then [.curDir] else []
  start ++ (segments.filter fun segment => segment ≠ [] && segment ≠ ['.']).map fun segment =>
    if segment = ['.', '.'] then .parentDir else .normal segment

def fileName (path : Text) : Option Text :=
  match (components path).getLast? with
  | some (.normal segment) => some segment
  | _ => none

def pathStartsWith (path base : Text) : Bool := (components base).isPrefixOf (components path)

/-- What this server is configured with; its directories are absolute or below the one it
was started in. -/
structure Config where
  rootDir : Text
  assetsDir : Text
  localTorrentCacheDir : Text
  host : Text
  port : Nat
  liveHlsProxySecret : Text
  localTorrentCacheDir_path : localTorrentCacheDir.head? = some '/' ∨ localTorrentCacheDir.head? = some '.'

/-- An entry of a directory, with its name if that is text, and whether it is a plain file. -/
structure DirEntry where
  name : Option Text
  isFile : Bool

structure FileSystem where
  canonicalize : Text → Option Text
  readDir : Text → Option (List DirEntry)

/-- URLs, a decoder, HMAC-SHA256, and the case folding of Unicode, which is that of ASCII there. -/
structure Libraries where
  urls : Library
  web : Queries urls
  decoder : LossyDecoder
  mac : Mac.Code
  toLowercase : Text → Text
  toLowercase_ascii : ∀ text, (∀ c ∈ text, c.toNat < 128) → toLowercase text = toAsciiLowercase text

def localTorrentStreamPath : Text := "/api/local-torrent/stream".toList
def localCacheStreamPath : Text := "/api/local-cache/stream".toList
def internalStreamAccessContext : Text := "streamarena-local-torrent-internal-v1".toList
def internalStreamAccessParam : Text := "internalAccess".toList

def missingInput : Text := "Missing playback input.".toList
def invalidPath : Text := "Invalid local playback path.".toList
def unsupportedUrl : Text := "Unsupported remote playback URL.".toList

section resolve
variable (libs : Libraries) (config : Config) (fs : FileSystem)

/-! The streams of this server. -/

def isLocalTorrentStreamInput (value : Text) : Bool :=
  trim value == localTorrentStreamPath || startsWith (trim value) (localTorrentStreamPath ++ ['?'])

def isLocalCacheStreamInput (value : Text) : Bool :=
  trim value == localCacheStreamPath || startsWith (trim value) (localCacheStreamPath ++ ['?'])

def isLocalStreamInput (value : Text) : Bool :=
  isLocalTorrentStreamInput value || isLocalCacheStreamInput value

def isLocalTorrentStreamUrl (url : libs.urls.Url) : Bool := libs.urls.path url == localTorrentStreamPath

def isLocalCacheStreamUrl (url : libs.urls.Url) : Bool := libs.urls.path url == localCacheStreamPath

def isLocalStreamUrl (url : libs.urls.Url) : Bool :=
  isLocalTorrentStreamUrl libs url || isLocalCacheStreamUrl libs url

def isLocalAppPlaybackUrl (url : libs.urls.Url) : Bool :=
  let hostname := libs.toLowercase (trim ((libs.urls.hostStr url).getD []))
  let matchesHost := hostname == libs.toLowercase config.host || hostname == "127.0.0.1".toList ||
    hostname == "localhost".toList || hostname == "::1".toList || hostname == "[::1]".toList
  let matchesPort := (libs.web.port url).getD 0 == config.port
  !hostname.isEmpty && matchesHost && matchesPort

def internalStreamAccessToken (secret protectedTarget : Text) : Text :=
  Base64Url.encode (libs.mac (utf8Bytes secret)
    (utf8Bytes internalStreamAccessContext ++ 0 :: utf8Bytes protectedTarget))

def withInternalStreamAccess (pathAndQuery secret : Text) : Text :=
  let protectedTarget := trim pathAndQuery
  let separator := if '?' ∈ protectedTarget then '&' else '?'
  protectedTarget ++ separator :: (internalStreamAccessParam ++
    '=' :: internalStreamAccessToken libs secret protectedTarget)

/-- Where this server is reached from itself. -/
def backendOrigin : Text :=
  let host := trim config.host
  let host := if host = [] ∨ host = "0.0.0.0".toList ∨ host = "::".toList ∨ host = "[::]".toList then
    "127.0.0.1".toList else host
  "http://".toList ++ (host ++ ':' :: Decimal.decimalText config.port)

def localBackendUrl (pathAndQuery : Text) : Text :=
  backendOrigin config ++ withInternalStreamAccess libs pathAndQuery config.liveHlsProxySecret

/-! The files of the torrent cache. -/

def isAsciiHexdigit (c : Char) : Bool :=
  c.isDigit || ('a' ≤ c && c ≤ 'f') || ('A' ≤ c && c ≤ 'F')

def normalizeLocalCacheHash (value : Text) : Text :=
  let normalized := libs.toLowercase (trim value)
  if byteLength normalized = 40 ∧ normalized.all isAsciiHexdigit = true then normalized else []

def trimMatches (c : Char) (s : Text) : Text := (s.dropWhile (· == c)).rdropWhile (· == c)

def normalizeLocalCacheFileId (value : Text) : Text :=
  let normalized := ((trim value).take 80).map fun c =>
    if c.isAlphanum || c == '-' || c == '_' || c == '.' then c else '_'
  trimMatches '_' (trimMatches '.' normalized)

/-- The first plain file that is not hidden, unless a name that is no text comes before it. -/
def firstFile : List DirEntry → Option Text
  | [] => none
  | entry :: entries =>
    match entry.name with
    | none => none
    | some name =>
      if startsWith name ['.'] then firstFile entries
      else if entry.isFile then some name
      else firstFile entries

/-- The file on disk of a source and a file id. -/
def localCacheFile (sourceHash fileId : Text) : Option Text :=
  let sourceHash := normalizeLocalCacheHash libs sourceHash
  let fileId := normalizeLocalCacheFileId fileId
  if sourceHash = [] ∨ fileId = [] then none
  else
    let folder := joinPath (joinPath (joinPath config.localTorrentCacheDir sourceHash) "direct".toList) fileId
    ((fs.readDir folder).bind firstFile).map (joinPath folder)

def localCacheStreamFilePath (value : Text) : Option Text :=
  let split :=
    match libs.urls.parse value with
    | some url => some (libs.urls.path url, (libs.web.query url).getD [])
    | none => splitOnce ['?'] (trim value)
  split.bind fun (path, query) =>
    if path ≠ localCacheStreamPath then none
    else
      let params := (parse libs.decoder.decode query).reverse
      (params.lookup "sourceHash".toList).bind fun sourceHash =>
        (params.lookup "fileId".toList).bind fun fileId => localCacheFile libs config fs sourceHash fileId

/-! Paths and hosts that are allowed. -/

def isAllowedRemoteTranscodeUrl (url : libs.urls.Url) : Bool :=
  let hostname := libs.toLowercase (trim ((libs.urls.hostStr url).getD []))
  libs.urls.scheme url == "https".toList && !hostname.isEmpty &&
    (hostname == "download.real-debrid.com".toList || endsWith hostname ".real-debrid.com".toList)

/-- Whether a canonical path is another one or below it. -/
def isAtOrBelow (candidate root : Text) : Bool :=
  components candidate == components root || pathStartsWith candidate root

def isPathInsideRootDir (rootDir value : Text) : Bool :=
  match fs.canonicalize rootDir, fs.canonicalize value with
  | some rootDir, some candidate => isAtOrBelow candidate rootDir
  | _, _ => false

def allowedRoots : List Text := [joinPath config.assetsDir "videos".toList, config.localTorrentCacheDir]

def isAllowedLocalMediaFile (path : Text) : Bool :=
  match fs.canonicalize path with
  | none => false
  | some candidate =>
    (allowedRoots config).any fun root => ((fs.canonicalize root).map (isAtOrBelow candidate)).getD false

def normalizeStep (normalized : List Text) : Component → List Text
  | .normal segment => normalized ++ [segment]
  | .parentDir => normalized.dropLast
  | .curDir | .rootDir => normalized

def toLocalPath (rootDir pathname : Text) : Text :=
  let requested := if pathname = ['/'] then "/index.html".toList else pathname
  let requested := if requested.length > 1 ∧ requested.getLast? = some '/' then requested.dropLast else requested
  let requested := if '.' ∈ (fileName requested).getD [] then requested else requested ++ ".html".toList
  joinPath rootDir (Separated.join '/' ((components requested).foldl normalizeStep []))

def resolveLocalMediaPath (pathname : Text) : Option Text :=
  let localPath := toLocalPath config.rootDir pathname
  if isAllowedLocalMediaFile config fs localPath then some localPath else none

/-! Inputs. -/

def isProxyPath (path : Text) : Bool :=
  path == "/api/remux".toList || path == "/api/hls/master.m3u8".toList

def parsePlaybackProxyInput (value : Text) : Option Text :=
  let raw := trim value
  if raw = [] then none
  else
    ((libs.urls.parse raw).or (libs.urls.parse ("http://localhost".toList ++ raw))).bind fun url =>
      if isProxyPath (libs.urls.path url) then
        let input := ((parse libs.decoder.decode ((libs.web.query url).getD [])).lookup "input".toList).getD []
        if trim input = [] then none else some input
      else none

theorem marks_trim_le (s : Text) : marks (trim s) ≤ marks s :=
  marks_sublist ((List.rdropWhile_prefix _ _).sublist.trans (List.dropWhile_sublist _))

theorem marks_input {value : Text} {url : libs.urls.Url}
    (h : (libs.urls.parse (trim value)).or (libs.urls.parse ("http://localhost".toList ++ trim value)) = some url)
    {encoded input : Text} (hquery : libs.web.query url = some encoded)
    (hlookup : (parse libs.decoder.decode encoded).lookup "input".toList = some input) :
    marks input < marks value := by
  obtain ⟨before, after, hpairs, -⟩ := List.lookup_eq_some_iff.mp hlookup
  have hmem : ("input".toList, input) ∈ parse libs.decoder.decode encoded := by
    rw [hpairs]
    simp
  have htrim := marks_trim_le value
  obtain h | ⟨-, h⟩ := Option.or_eq_some_iff.mp h
  · exact (libs.web.marks_value libs.decoder h hquery hmem).trans_le htrim
  · have hvalue := libs.web.marks_value libs.decoder h hquery hmem
    have hlocalhost : marks "http://localhost".toList = 0 := by decide
    rw [marks_append, hlocalhost, Nat.zero_add] at hvalue
    exact hvalue.trans_le htrim

/-- An input that a proxy address wraps is made of fewer marks than the address. -/
theorem marks_parsePlaybackProxyInput {value input : Text}
    (h : parsePlaybackProxyInput libs value = some input) : marks input < marks value := by
  rw [parsePlaybackProxyInput] at h
  dsimp only at h
  split_ifs at h with hraw
  obtain ⟨url, hurl, hinput⟩ := Option.bind_eq_some_iff.mp h
  split_ifs at hinput with hpath hempty
  cases hquery : libs.web.query url with
  | none =>
    rw [hquery] at hempty
    exact absurd rfl hempty
  | some encoded =>
    rw [hquery, Option.getD_some] at hempty hinput
    cases hlookup : (parse libs.decoder.decode encoded).lookup "input".toList with
    | none =>
      rw [hlookup] at hempty
      exact absurd rfl hempty
    | some value' =>
      rw [hlookup, Option.getD_some] at hinput
      cases hinput
      exact marks_input libs hurl hquery hlookup

/-- A web address: a stream or a file of this server, or a download of Real-Debrid. -/
def resolveUrl (url : libs.urls.Url) : Except Text Text :=
  if isLocalAppPlaybackUrl libs config url then
    match if isLocalCacheStreamUrl libs url then
        localCacheStreamFilePath libs config fs (libs.urls.asStr url) else none with
    | some localPath => .ok localPath
    | none =>
      if isLocalStreamUrl libs url then .ok (libs.urls.asStr url)
      else
        match resolveLocalMediaPath config fs (libs.urls.path url) with
        | some localPath => .ok localPath
        | none => .error invalidPath
  else if isAllowedRemoteTranscodeUrl libs url then .ok (libs.urls.asStr url)
  else .error unsupportedUrl

def resolvePath (input : Text) : Except Text Text :=
  if startsWith input ['/'] ∧ isPathInsideRootDir fs config.rootDir input = true then
    if isAllowedLocalMediaFile config fs input then .ok input else .error invalidPath
  else
    let normalizedPath := if startsWith input ['/'] then input else '/' :: input
    match resolveLocalMediaPath config fs normalizedPath with
    | some filePath => .ok filePath
    | none => .error invalidPath

/-- An input that no proxy address wraps. -/
def resolveUnwrapped (input : Text) : Except Text Text :=
  match if isLocalCacheStreamInput input then localCacheStreamFilePath libs config fs input else none with
  | some localPath => .ok localPath
  | none =>
    if isLocalStreamInput input then .ok (localBackendUrl libs config input)
    else
      match (libs.urls.parse input).filter fun url =>
          libs.urls.scheme url == "http".toList || libs.urls.scheme url == "https".toList with
      | some url => resolveUrl libs config fs url
      | none => resolvePath config fs input

def resolveTranscodeInput (rawInput : Text) : Except Text Text :=
  let input := trim rawInput
  if input = [] then .error missingInput
  else
    match h : parsePlaybackProxyInput libs input with
    | some playbackInput =>
      have : marks playbackInput < marks rawInput :=
        (marks_parsePlaybackProxyInput libs h).trans_le (marks_trim_le rawInput)
      resolveTranscodeInput playbackInput
    | none => resolveUnwrapped libs config fs input
termination_by marks rawInput

end resolve

/-! What ffmpeg may be handed. -/

variable {libs : Libraries} {config : Config} {fs : FileSystem}

/-- The canonical path is that of the videos or of the torrent cache, or below it. -/
def InAllowedRoot (config : Config) (fs : FileSystem) (path : Text) : Prop :=
  ∃ root ∈ allowedRoots config, ∃ candidate allowed,
    fs.canonicalize path = some candidate ∧ fs.canonicalize root = some allowed ∧
      components allowed <+: components candidate

/-- The host and the port of this server. -/
def IsThisServer (libs : Libraries) (config : Config) (url : libs.urls.Url) : Prop :=
  (∃ host, libs.urls.hostStr url = some host ∧
    (libs.toLowercase host = libs.toLowercase config.host ∨ toAsciiLowercase host = "127.0.0.1".toList ∨
      toAsciiLowercase host = "localhost".toList ∨ toAsciiLowercase host = "::1".toList ∨
        toAsciiLowercase host = "[::1]".toList)) ∧
    (libs.web.port url).getD 0 = config.port

inductive Confined (libs : Libraries) (config : Config) (fs : FileSystem) : Text → Prop
  | file (path : Text) (hroot : InAllowedRoot config fs path) : Confined libs config fs path
  | download (url : libs.urls.Url) (host : Text) (hscheme : libs.urls.scheme url = "https".toList)
      (hhost : libs.urls.hostStr url = some host)
      (hdomain : ".real-debrid.com".toList <:+ toAsciiLowercase host) :
      Confined libs config fs (libs.urls.asStr url)
  | stream (url : libs.urls.Url) (hserver : IsThisServer libs config url)
      (hpath : libs.urls.path url = localTorrentStreamPath ∨ libs.urls.path url = localCacheStreamPath) :
      Confined libs config fs (libs.urls.asStr url)
  | backend (path query : Text) (hpath : path = localTorrentStreamPath ∨ path = localCacheStreamPath) :
      Confined libs config fs (backendOrigin config ++ (path ++ '?' :: query))

/-- The files that the cache names for streams are in it, and not behind links that leave it. -/
def CacheFilesInside (libs : Libraries) (config : Config) (fs : FileSystem) : Prop :=
  ∀ sourceHash fileId path, localCacheFile libs config fs sourceHash fileId = some path →
    InAllowedRoot config fs path

theorem isAtOrBelow_iff {candidate root : Text} :
    isAtOrBelow candidate root = true ↔ components root <+: components candidate := by
  rw [isAtOrBelow, pathStartsWith, Bool.or_eq_true, beq_iff_eq, List.isPrefixOf_iff_prefix]
  constructor
  · intro h
    cases h with
    | inl he => exact he ▸ List.prefix_rfl
    | inr hstart => exact hstart
  · exact Or.inr

theorem inAllowedRoot_iff {path : Text} :
    isAllowedLocalMediaFile config fs path = true ↔ InAllowedRoot config fs path := by
  rw [isAllowedLocalMediaFile, InAllowedRoot]
  cases hpath : fs.canonicalize path with
  | none => simp
  | some candidate =>
    simp only [List.any_eq_true]
    constructor
    · rintro ⟨root, hroot, hbelow⟩
      cases hallowed : fs.canonicalize root with
      | none => rw [hallowed] at hbelow; cases hbelow
      | some allowed =>
        rw [hallowed] at hbelow
        exact ⟨root, hroot, candidate, allowed, rfl, hallowed, isAtOrBelow_iff.mp hbelow⟩
    · rintro ⟨root, hroot, candidate', allowed, hsome, hallowed, hbelow⟩
      cases hsome
      refine ⟨root, hroot, ?_⟩
      rw [hallowed]
      exact isAtOrBelow_iff.mpr hbelow

theorem confined_of_resolveLocalMediaPath {pathname path : Text}
    (h : resolveLocalMediaPath config fs pathname = some path) : Confined libs config fs path := by
  rw [resolveLocalMediaPath] at h
  split_ifs at h with hallowed
  cases h
  exact .file _ (inAllowedRoot_iff.mp hallowed)

theorem confined_of_localCacheStreamFilePath (hinside : CacheFilesInside libs config fs) {value path : Text}
    (h : localCacheStreamFilePath libs config fs value = some path) : Confined libs config fs path := by
  obtain ⟨⟨path', query⟩, -, hpath⟩ := Option.bind_eq_some_iff.mp h
  dsimp only at hpath
  split_ifs at hpath
  obtain ⟨sourceHash, -, hfileId⟩ := Option.bind_eq_some_iff.mp hpath
  obtain ⟨fileId, -, hfile⟩ := Option.bind_eq_some_iff.mp hfileId
  exact .file _ (hinside sourceHash fileId path hfile)

/-- The host of a web address is ASCII without blanks. -/
theorem trim_hostStr {url : libs.urls.Url} {host : Text} (h : libs.urls.hostStr url = some host) :
    trim host = host ∧ libs.toLowercase host = toAsciiLowercase host := by
  have hchars := libs.urls.hostStr_printable url host h
  refine ⟨trim_eq_self fun c hc => ?_, libs.toLowercase_ascii host fun c hc => ?_⟩
  · obtain ⟨hprintable, hspace⟩ := hchars c hc
    exact not_isWhitespace_of_isPrintable hprintable hspace
  · obtain ⟨hprintable, -⟩ := hchars c hc
    simp only [isPrintable, Bool.and_eq_true, decide_eq_true_eq] at hprintable
    omega

theorem isThisServer_of_isLocalAppPlaybackUrl {url : libs.urls.Url}
    (h : isLocalAppPlaybackUrl libs config url = true) : IsThisServer libs config url := by
  simp only [isLocalAppPlaybackUrl, Bool.and_eq_true, Bool.or_eq_true, beq_iff_eq, Bool.not_eq_true',
    List.isEmpty_eq_false_iff] at h
  obtain ⟨⟨hne, hhost⟩, hport⟩ := h
  cases hstr : libs.urls.hostStr url with
  | none =>
    have hempty : libs.toLowercase [] = [] := libs.toLowercase_ascii [] fun c hc => (by cases hc)
    rw [hstr] at hne
    exact absurd hempty hne
  | some host =>
    obtain ⟨htrim, hlower⟩ := trim_hostStr hstr
    rw [hstr, Option.getD_some, htrim] at hhost
    refine ⟨⟨host, hstr, ?_⟩, hport⟩
    rw [← hlower]
    simpa only [or_assoc] using hhost

theorem download_of_isAllowedRemoteTranscodeUrl {url : libs.urls.Url}
    (h : isAllowedRemoteTranscodeUrl libs url = true) : Confined libs config fs (libs.urls.asStr url) := by
  simp only [isAllowedRemoteTranscodeUrl, Bool.and_eq_true, Bool.or_eq_true, beq_iff_eq, Bool.not_eq_true',
    List.isEmpty_eq_false_iff] at h
  obtain ⟨⟨hscheme, hne⟩, hhost⟩ := h
  cases hstr : libs.urls.hostStr url with
  | none =>
    have hempty : libs.toLowercase [] = [] := libs.toLowercase_ascii [] fun c hc => (by cases hc)
    rw [hstr] at hne
    exact absurd hempty hne
  | some host =>
    obtain ⟨htrim, hlower⟩ := trim_hostStr hstr
    rw [hstr, Option.getD_some, htrim, hlower] at hhost
    refine .download url host hscheme hstr ?_
    cases hhost with
    | inl he => rw [he]; decide
    | inr hend => exact List.isSuffixOf_iff_suffix.mp hend

/-- A stream input has its path, and a query when its access has been added. -/
theorem withInternalStreamAccess_eq {input secret : Text} (h : isLocalStreamInput input = true) :
    ∃ path query, (path = localTorrentStreamPath ∨ path = localCacheStreamPath) ∧
      withInternalStreamAccess libs input secret = path ++ '?' :: query := by
  have hpath : ∃ path, (path = localTorrentStreamPath ∨ path = localCacheStreamPath) ∧ '?' ∉ path ∧
      (trim input = path ∨ ∃ query, trim input = path ++ '?' :: query) := by
    simp only [isLocalStreamInput, isLocalTorrentStreamInput, isLocalCacheStreamInput, Bool.or_eq_true,
      beq_iff_eq, startsWith_iff] at h
    obtain (h | ⟨query, h⟩) | h | ⟨query, h⟩ := h
    · exact ⟨_, .inl rfl, by decide, .inl h⟩
    · exact ⟨_, .inl rfl, by decide, .inr ⟨query, by rw [← h, List.append_assoc]; rfl⟩⟩
    · exact ⟨_, .inr rfl, by decide, .inl h⟩
    · exact ⟨_, .inr rfl, by decide, .inr ⟨query, by rw [← h, List.append_assoc]; rfl⟩⟩
  obtain ⟨path, hstream, hfree, htrim⟩ := hpath
  rw [withInternalStreamAccess]
  cases htrim with
  | inl htrim =>
    rw [htrim, if_neg hfree]
    exact ⟨path, _, hstream, rfl⟩
  | inr htrim =>
    obtain ⟨query, htrim⟩ := htrim
    rw [htrim, if_pos (by simp), List.append_assoc]
    exact ⟨path, _, hstream, rfl⟩

theorem confined_of_resolveUrl (hinside : CacheFilesInside libs config fs) {url : libs.urls.Url} {out : Text}
    (h : resolveUrl libs config fs url = .ok out) : Confined libs config fs out := by
  rw [resolveUrl] at h
  split at h
  next hserver =>
    split at h
    next path hpath =>
      cases h
      split_ifs at hpath
      exact confined_of_localCacheStreamFilePath hinside hpath
    next =>
      split at h
      next hstream =>
        cases h
        simp only [isLocalStreamUrl, isLocalTorrentStreamUrl, isLocalCacheStreamUrl, Bool.or_eq_true,
          beq_iff_eq] at hstream
        exact .stream url (isThisServer_of_isLocalAppPlaybackUrl hserver) hstream
      next =>
        split at h
        next path hpath => cases h; exact confined_of_resolveLocalMediaPath hpath
        next => cases h
  next =>
    split at h
    next hdownload => cases h; exact download_of_isAllowedRemoteTranscodeUrl hdownload
    next => cases h

theorem confined_of_resolvePath {input out : Text} (h : resolvePath config fs input = .ok out) :
    Confined libs config fs out := by
  rw [resolvePath] at h
  split at h
  next =>
    split at h
    next hallowed => cases h; exact .file _ (inAllowedRoot_iff.mp hallowed)
    next => cases h
  next =>
    dsimp only at h
    split at h
    next path hpath => cases h; exact confined_of_resolveLocalMediaPath hpath
    next => cases h

theorem confined_of_resolveUnwrapped (hinside : CacheFilesInside libs config fs) {input out : Text}
    (h : resolveUnwrapped libs config fs input = .ok out) : Confined libs config fs out := by
  rw [resolveUnwrapped] at h
  split at h
  next path hpath =>
    cases h
    split_ifs at hpath
    exact confined_of_localCacheStreamFilePath hinside hpath
  next =>
    split at h
    next hstream =>
      cases h
      obtain ⟨path, query, hpath, hout⟩ := withInternalStreamAccess_eq hstream
      rw [localBackendUrl, hout]
      exact .backend path query hpath
    next =>
      split at h
      next url hurl => exact confined_of_resolveUrl hinside h
      next => exact confined_of_resolvePath h

theorem confined_of_resolveTranscodeInput (hinside : CacheFilesInside libs config fs) {input out : Text}
    (h : resolveTranscodeInput libs config fs input = .ok out) : Confined libs config fs out := by
  induction hn : marks input using Nat.strong_induction_on generalizing input with
  | _ n ih =>
    rw [resolveTranscodeInput] at h
    dsimp only at h
    split at h
    next => cases h
    next =>
      split at h
      next playbackInput hproxy =>
        have hfewer := (marks_parsePlaybackProxyInput libs hproxy).trans_le (marks_trim_le input)
        exact ih _ (hn ▸ hfewer) h rfl
      next => exact confined_of_resolveUnwrapped hinside h

/-! A stream that names a file of the cache is resolved to that file. -/

def cacheStreamInput (sourceHash fileId : Text) : Text :=
  localCacheStreamPath ++ '?' :: serialize [("sourceHash".toList, sourceHash), ("fileId".toList, fileId)]

theorem resolveTranscodeInput_cacheStreamInput {sourceHash fileId path : Text}
    (h : localCacheFile libs config fs sourceHash fileId = some path) :
    resolveTranscodeInput libs config fs (cacheStreamInput sourceHash fileId) = .ok path := by
  have htrim : trim (cacheStreamInput sourceHash fileId) = cacheStreamInput sourceHash fileId := by
    refine trim_eq_self fun c hc => ?_
    rw [cacheStreamInput, serialize_cons_cons, serialize_singleton] at hc
    simp only [List.mem_append, List.mem_cons] at hc
    obtain hpath | rfl | hname | rfl | hvalue | rfl | hname | rfl | hvalue := hc
    · have hplain : localCacheStreamPath.all isPlainPathChar = true := by decide
      exact not_isWhitespace_of_isPlainPathChar (List.all_eq_true.mp hplain c hpath)
    · decide
    · exact not_isWhitespace_of_mem_encode hname
    · decide
    · exact not_isWhitespace_of_mem_encode hvalue
    · decide
    · exact not_isWhitespace_of_mem_encode hname
    · decide
    · exact not_isWhitespace_of_mem_encode hvalue
  have hne : cacheStreamInput sourceHash fileId ≠ [] := by
    rw [cacheStreamInput]
    exact List.append_ne_nil_of_right_ne_nil _ (List.cons_ne_nil _ _)
  have hrelative : libs.urls.parse (cacheStreamInput sourceHash fileId) = none :=
    libs.web.parse_relative _ (.inl rfl)
  have hproxy : parsePlaybackProxyInput libs (cacheStreamInput sourceHash fileId) = none := by
    rw [parsePlaybackProxyInput, htrim, if_neg hne, hrelative, Option.none_or]
    cases hparse : libs.urls.parse ("http://localhost".toList ++ cacheStreamInput sourceHash fileId) with
    | none => rfl
    | some url =>
      have hpath : libs.urls.path url = localCacheStreamPath :=
        libs.web.path_plain _ _ url rfl (by decide) (.inr rfl) hparse
      rw [Option.bind_some, hpath, if_neg (by decide)]
  have hstream : isLocalCacheStreamInput (cacheStreamInput sourceHash fileId) = true := by
    rw [isLocalCacheStreamInput, htrim, Bool.or_eq_true, startsWith_iff]
    refine .inr ⟨serialize [("sourceHash".toList, sourceHash), ("fileId".toList, fileId)], ?_⟩
    rw [cacheStreamInput, List.append_assoc]
    rfl
  have hfile : localCacheStreamFilePath libs config fs (cacheStreamInput sourceHash fileId) = some path := by
    have hsplit : splitOnce ['?'] (cacheStreamInput sourceHash fileId) = some (localCacheStreamPath,
        serialize [("sourceHash".toList, sourceHash), ("fileId".toList, fileId)]) :=
      splitOnce_append (by decide) _
    rw [localCacheStreamFilePath, hrelative]
    dsimp only
    rw [htrim, hsplit, Option.bind_some]
    dsimp only
    rw [if_neg (by simp), parse_serialize libs.decoder.decode_utf8Bytes]
    exact h
  rw [resolveTranscodeInput]
  dsimp only
  split
  next hnil => rw [htrim] at hnil; exact absurd hnil hne
  next =>
    split
    next playbackInput hsome => rw [htrim, hproxy] at hsome; cases hsome
    next => rw [htrim, resolveUnwrapped, if_pos hstream, hfile]

theorem head_joinPath {dir : Text} (h : dir ≠ []) (name : Text) :
    joinPath dir name ≠ [] ∧ (joinPath dir name).head? = dir.head? := by
  obtain ⟨c, rest, rfl⟩ := List.exists_cons_of_ne_nil h
  rw [joinPath]
  split
  next => exact ⟨List.cons_ne_nil _ _, rfl⟩
  next => exact ⟨List.cons_ne_nil _ _, rfl⟩

/-- A file on disk is no web address. -/
theorem inAllowedRoot_of_confined {sourceHash fileId path : Text}
    (hfile : localCacheFile libs config fs sourceHash fileId = some path)
    (h : Confined libs config fs path) : InAllowedRoot config fs path := by
  have hhead : path.head? = some '/' ∨ path.head? = some '.' := by
    rw [localCacheFile] at hfile
    split_ifs at hfile
    obtain ⟨name, -, rfl⟩ := Option.map_eq_some_iff.mp hfile
    have hcache : config.localTorrentCacheDir ≠ [] := fun hnil => by
      have hpath := config.localTorrentCacheDir_path
      rw [hnil] at hpath
      exact absurd hpath (by decide)
    obtain ⟨hne, hhash⟩ := head_joinPath hcache (normalizeLocalCacheHash libs sourceHash)
    obtain ⟨hne', hdirect⟩ := head_joinPath hne "direct".toList
    obtain ⟨hne'', hid⟩ := head_joinPath hne' (normalizeLocalCacheFileId fileId)
    rw [(head_joinPath hne'' name).2, hid, hdirect, hhash]
    exact config.localTorrentCacheDir_path
  cases h with
  | file _ hroot => exact hroot
  | download url _ _ _ _ =>
    have hparse := libs.urls.parse_asStr url
    rw [libs.web.parse_relative _ hhead] at hparse
    cases hparse
  | stream url _ _ =>
    have hparse := libs.urls.parse_asStr url
    rw [libs.web.parse_relative _ hhead] at hparse
    cases hparse
  | backend path query _ =>
    have hletter : (backendOrigin config ++ (path ++ '?' :: query)).head? = some 'h' := rfl
    rw [hletter] at hhead
    exact absurd hhead (by decide)

/-- Whatever the input, what goes to ffmpeg is a file in the videos or the torrent cache, a
download of Real-Debrid or a stream of this server, just when no file that the cache names for
a stream is a link out of them. -/
theorem inputs_confined_iff (libs : Libraries) (config : Config) (fs : FileSystem) :
    (∀ input out, resolveTranscodeInput libs config fs input = .ok out → Confined libs config fs out) ↔
      CacheFilesInside libs config fs := by
  constructor
  · intro h sourceHash fileId path hfile
    exact inAllowedRoot_of_confined hfile (h _ _ (resolveTranscodeInput_cacheStreamInput hfile))
  · intro hinside input out h
    exact confined_of_resolveTranscodeInput hinside h

/-- The standard libraries on plain addresses and on text. -/
def plainLibraries : Libraries where
  urls := addresses
  web := addressQueries
  decoder := textDecoder
  mac := Mac.hmacSha256
  toLowercase := toAsciiLowercase
  toLowercase_ascii _ _ := rfl

def localConfig : Config where
  rootDir := "/srv".toList
  assetsDir := "/srv/assets".toList
  localTorrentCacheDir := "/srv/cache/local-torrents".toList
  host := "127.0.0.1".toList
  port := 5173
  liveHlsProxySecret := "secret".toList
  localTorrentCacheDir_path := .inl rfl

/-- A cache in which the folder of one source is a link to another disk. -/
def linkedFolder : FileSystem :=
  let folder := "/srv/cache/local-torrents/".toList ++ List.replicate 40 'a' ++ "/direct/1".toList
  { canonicalize := fun path =>
      if path = folder ++ "/film.mkv".toList then some "/mnt/films/direct/1/film.mkv".toList
      else if path = "/srv/cache/local-torrents".toList ∨ path = "/srv/assets/videos".toList then some path
      else none
    readDir := fun path => if path = folder then some [⟨some "film.mkv".toList, true⟩] else none }

/-- A file behind that link is handed out. -/
theorem linked_file_resolved :
    ¬ ∀ (libs : Libraries) (config : Config) (fs : FileSystem) (input out : Text),
      resolveTranscodeInput libs config fs input = .ok out → Confined libs config fs out := by
  intro h
  have hfile : localCacheFile plainLibraries localConfig linkedFolder (List.replicate 40 'a') ['1'] =
      some ("/srv/cache/local-torrents/".toList ++ List.replicate 40 'a' ++ "/direct/1/film.mkv".toList) := by
    decide +kernel
  have hroot := inAllowedRoot_of_confined hfile
    (h _ _ _ _ _ (resolveTranscodeInput_cacheStreamInput hfile))
  exact absurd (inAllowedRoot_iff.mpr hroot) (by decide +kernel)

end StreamArena.Streaming.TranscodeInput
