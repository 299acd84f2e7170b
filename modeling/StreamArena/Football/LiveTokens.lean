import StreamArena.Library.Base64Url
import StreamArena.Library.Decimal
import StreamArena.Library.FormUrlencoded

/-! Requests to a live provider whose token runs out (src/football/falcon.rs): which they
are, when their token expires, and the same request with the provider's current token. -/
namespace StreamArena.Football.LiveTokens
open AsciiText Aead Decimal

/-- A URL library whose values can be edited. Setting the path of one web address as that of
another keeps it, and a query gives back the pairs that were appended to it. -/
structure UrlLibrary where
  Url : Type
  parse : Text → Option Url
  scheme : Url → Text
  username : Url → Text
  password : Url → Option Text
  hostStr : Url → Option Text
  port : Url → Option Nat
  path : Url → Text
  query : Url → Option Text
  fragment : Url → Option Text
  queryPairs : Url → List (Text × Text)
  setPath : Url → Text → Url
  removeFragment : Url → Url
  clearQuery : Url → Url
  appendPair : Url → Text × Text → Url
  path_setPath : ∀ url source, scheme url = "https".toList → scheme source = "https".toList →
    path (setPath url (path source)) = path source
  hostStr_setPath : ∀ url text, hostStr (setPath url text) = hostStr url
  hostStr_removeFragment : ∀ url, hostStr (removeFragment url) = hostStr url
  path_removeFragment : ∀ url, path (removeFragment url) = path url
  fragment_removeFragment : ∀ url, fragment (removeFragment url) = none
  hostStr_clearQuery : ∀ url, hostStr (clearQuery url) = hostStr url
  path_clearQuery : ∀ url, path (clearQuery url) = path url
  fragment_clearQuery : ∀ url, fragment (clearQuery url) = fragment url
  queryPairs_clearQuery : ∀ url, queryPairs (clearQuery url) = []
  hostStr_appendPair : ∀ url pair, hostStr (appendPair url pair) = hostStr url
  path_appendPair : ∀ url pair, path (appendPair url pair) = path url
  fragment_appendPair : ∀ url pair, fragment (appendPair url pair) = fragment url
  queryPairs_appendPair : ∀ url pair, queryPairs (appendPair url pair) = queryPairs url ++ [pair]

def tokenName : Text := "token".toList

def isSafeNtvsChannelCode (value : Text) : Bool :=
  !value.isEmpty && decide (byteLength value ≤ 96) && value.all fun c => c.isAlphanum || c == '-' || c == '_'

/-- The standard alphabet, with all its padding and no bits left over. -/
def decodeStandard (text : Text) : Option Bytes :=
  (Base64Url.atob text).filter fun bytes => Base64Url.pad ((Base64Url.encode bytes).map Base64Url.toStandard) == text

section requests
variable (urls : UrlLibrary)

def host (url : urls.Url) : Text := toAsciiLowercase ((urls.hostStr url).getD [])

def isSupportedNtvsWideiptvPlayerUrl (url : urls.Url) : Bool :=
  let channel := (stripPrefix (urls.path url) "/player/".toList).getD []
  urls.scheme url == "https".toList &&
    (host urls url == "wideiptv.top".toList || host urls url == "www.wideiptv.top".toList) &&
    (urls.username url).isEmpty && (urls.password url).isNone && (urls.port url).isNone && (urls.query url).isNone &&
    isSafeNtvsChannelCode channel

def isSupportedNtvsHlsUrl (url : urls.Url) : Bool :=
  (urls.scheme url == "https".toList || urls.scheme url == "http".toList) &&
    (host urls url == "strmd.st".toList || endsWith (host urls url) ".strmd.st".toList ||
      endsWith (host urls url) ".lovetier.bz".toList || host urls url == "bluetier.top".toList ||
      endsWith (host urls url) ".bluetier.top".toList) &&
    endsWith (toAsciiLowercase (urls.path url)) ".m3u8".toList

/-- The first piece of a path between its slashes. -/
def firstSegment (path : Text) : Option Text := (stripPrefix path ['/']).map (List.takeWhile (· ≠ '/'))

def ntvsWideiptvHlsRequestChannel (sourceUrl : urls.Url) (referer : Text) : Option Text := do
  let refererUrl ← urls.parse referer
  if !isSupportedNtvsWideiptvPlayerUrl urls refererUrl || urls.scheme sourceUrl != "https".toList ||
      !isSupportedNtvsHlsUrl urls sourceUrl then none
  else
    let host := toAsciiLowercase (← urls.hostStr sourceUrl)
    if host != "bluetier.top".toList && !endsWith host ".bluetier.top".toList then none
    else
      let refererChannel ← stripPrefix (urls.path refererUrl) "/player/".toList
      let sourceChannel ← firstSegment (urls.path sourceUrl)
      if sourceChannel != refererChannel ||
          !(urls.queryPairs sourceUrl).any (fun pair => pair.1 == tokenName && !pair.2.isEmpty) then none
      else some refererChannel

/-- The value of the first token parameter. -/
def firstToken (url : urls.Url) : Option Text :=
  (urls.queryPairs url).findSome? fun pair => if pair.1 == tokenName then some pair.2 else none

def expiresAt (token : Text) : Option Int := do
  let payload ← decodeStandard (token.takeWhile (· ≠ '.'))
  let payload ← fromUtf8 payload
  parseI64 (payload.rtakeWhile (· ≠ '|'))

def ntvsWideiptvHlsTokenExpiresWithin (sourceUrl : urls.Url) (referer : Text) (nowSeconds refreshWindowSeconds : Int) : Bool :=
  match ntvsWideiptvHlsRequestChannel urls sourceUrl referer with
  | none => false
  | some _ =>
    match (firstToken urls sourceUrl).bind expiresAt with
    | none => false
    | some expiry => decide (expiry ≤ saturate (nowSeconds + max refreshWindowSeconds 0))

def refreshNtvsWideiptvHlsRequestUrl (sourceUrl refreshedMasterUrl : urls.Url) (referer : Text) : Option urls.Url := do
  let _ ← ntvsWideiptvHlsRequestChannel urls sourceUrl referer
  let _ ← ntvsWideiptvHlsRequestChannel urls refreshedMasterUrl referer
  let refreshedToken ← firstToken urls refreshedMasterUrl
  let originalQuery := (urls.queryPairs sourceUrl).filter fun pair => pair.1 != tokenName
  let refreshedUrl := urls.removeFragment (urls.setPath refreshedMasterUrl (urls.path sourceUrl))
  let refreshedUrl := urls.appendPair (originalQuery.foldl urls.appendPair (urls.clearQuery refreshedUrl)) (tokenName, refreshedToken)
  let _ ← ntvsWideiptvHlsRequestChannel urls refreshedUrl referer
  some refreshedUrl

end requests

section edits
variable {urls : UrlLibrary}

theorem queryPairs_foldl (pairs : List (Text × Text)) (url : urls.Url) :
    urls.queryPairs (pairs.foldl urls.appendPair url) = urls.queryPairs url ++ pairs := by
  induction pairs generalizing url with
  | nil => simp
  | cons pair pairs ih => simp [ih, urls.queryPairs_appendPair]

/-- What appended pairs leave as it was. -/
theorem foldl_appendPair {α : Type} {read : urls.Url → α} (hread : ∀ url pair, read (urls.appendPair url pair) = read url)
    (pairs : List (Text × Text)) (url : urls.Url) : read (pairs.foldl urls.appendPair url) = read url := by
  induction pairs generalizing url with
  | nil => rfl
  | cons pair pairs ih => rw [List.foldl_cons, ih, hread]

/-- A URL with the path of a source and its query, but for the token. -/
theorem refreshed_parts {master source : urls.Url} (hmaster : urls.scheme master = "https".toList)
    (hsource : urls.scheme source = "https".toList) (pairs : List (Text × Text)) (token : Text) :
    let url := urls.appendPair (pairs.foldl urls.appendPair
      (urls.clearQuery (urls.removeFragment (urls.setPath master (urls.path source))))) (tokenName, token)
    urls.hostStr url = urls.hostStr master ∧ urls.path url = urls.path source ∧ urls.fragment url = none ∧
      urls.queryPairs url = pairs ++ [(tokenName, token)] := by
  intro url
  refine ⟨?_, ?_, ?_, ?_⟩
  · rw [urls.hostStr_appendPair, foldl_appendPair urls.hostStr_appendPair, urls.hostStr_clearQuery,
      urls.hostStr_removeFragment, urls.hostStr_setPath]
  · rw [urls.path_appendPair, foldl_appendPair urls.path_appendPair, urls.path_clearQuery, urls.path_removeFragment,
      urls.path_setPath master source hmaster hsource]
  · rw [urls.fragment_appendPair, foldl_appendPair urls.fragment_appendPair, urls.fragment_clearQuery,
      urls.fragment_removeFragment]
  · rw [urls.queryPairs_appendPair, queryPairs_foldl, urls.queryPairs_clearQuery, List.nil_append]

theorem findSome_token_append {pairs : List (Text × Text)} (hpairs : ∀ pair ∈ pairs, pair.1 ≠ tokenName) (token : Text) :
    ((pairs ++ [(tokenName, token)]).findSome? fun pair => if pair.1 == tokenName then some pair.2 else none) = some token := by
  induction pairs with
  | nil => simp
  | cons pair pairs ih =>
    have hne := hpairs pair List.mem_cons_self
    have hrest := ih fun other hmem => hpairs other (List.mem_cons_of_mem _ hmem)
    simpa [hne] using hrest

end edits

section channel
variable {urls : UrlLibrary} {source url : urls.Url} {referer channel channel' : Text}

/-- A request is for the channel its referer names. -/
theorem channel_of_request (h : ntvsWideiptvHlsRequestChannel urls source referer = some channel) :
    urls.scheme source = "https".toList ∧
      ∃ refererUrl, urls.parse referer = some refererUrl ∧ stripPrefix (urls.path refererUrl) "/player/".toList = some channel := by
  simp only [ntvsWideiptvHlsRequestChannel, Option.bind_eq_bind, Option.bind_eq_some_iff] at h
  obtain ⟨refererUrl, hreferer, h⟩ := h
  split at h
  · cases h
  · next hguard =>
    simp only [Bool.or_eq_true, not_or, bne_iff_ne, ne_eq, not_not] at hguard
    obtain ⟨hostStr, -, h⟩ := Option.bind_eq_some_iff.mp h
    split at h
    · cases h
    · obtain ⟨refererChannel, hchannel, h⟩ := Option.bind_eq_some_iff.mp h
      obtain ⟨sourceChannel, -, h⟩ := Option.bind_eq_some_iff.mp h
      split at h
      · cases h
      · rw [Option.some.injEq] at h
        exact ⟨hguard.1.2, refererUrl, hreferer, h ▸ hchannel⟩

theorem channel_unique (h : ntvsWideiptvHlsRequestChannel urls source referer = some channel)
    (h' : ntvsWideiptvHlsRequestChannel urls url referer = some channel') : channel = channel' := by
  obtain ⟨-, refererUrl, hreferer, hchannel⟩ := channel_of_request h
  obtain ⟨-, refererUrl', hreferer', hchannel'⟩ := channel_of_request h'
  rw [hreferer, Option.some.injEq] at hreferer'
  rw [← hreferer', hchannel, Option.some.injEq] at hchannel'
  exact hchannel'

/-- What a refresh that goes through has met, and what it makes. -/
theorem refresh_eq_some {master refreshed : urls.Url} (h : refreshNtvsWideiptvHlsRequestUrl urls source master referer = some refreshed) :
    ∃ channel token, ntvsWideiptvHlsRequestChannel urls source referer = some channel ∧
      ntvsWideiptvHlsRequestChannel urls master referer = some channel ∧
      ntvsWideiptvHlsRequestChannel urls refreshed referer = some channel ∧ firstToken urls master = some token ∧
      refreshed = urls.appendPair (((urls.queryPairs source).filter fun pair => pair.1 != tokenName).foldl urls.appendPair
        (urls.clearQuery (urls.removeFragment (urls.setPath master (urls.path source))))) (tokenName, token) := by
  simp only [refreshNtvsWideiptvHlsRequestUrl, Option.bind_eq_bind, Option.bind_eq_some_iff] at h
  obtain ⟨channel, hsource, channel', hmaster, token, htoken, channel'', hrefreshed, heq⟩ := h
  rw [Option.some.injEq] at heq
  rw [heq] at hrefreshed
  rw [channel_unique hmaster hsource] at hmaster
  rw [channel_unique hrefreshed hsource] at hrefreshed
  exact ⟨channel, token, hsource, hmaster, hrefreshed, htoken, heq.symm⟩

end channel

section rotation
variable {urls : UrlLibrary} {source master refreshed : urls.Url} {referer : Text}

/-- A refreshed request is the source's with the master's host and its token: it is again a
request for the channel, refreshing it is refreshing the source, and it lasts as long as the
master does. -/
theorem refresh_rotates (h : refreshNtvsWideiptvHlsRequestUrl urls source master referer = some refreshed) :
    urls.hostStr refreshed = urls.hostStr master ∧ urls.path refreshed = urls.path source ∧
      urls.fragment refreshed = none ∧
      (urls.queryPairs refreshed).filter (fun pair => pair.1 != tokenName) =
        (urls.queryPairs source).filter (fun pair => pair.1 != tokenName) ∧
      (∃ token, firstToken urls master = some token ∧
        (urls.queryPairs refreshed).filter (fun pair => pair.1 == tokenName) = [(tokenName, token)]) ∧
      ntvsWideiptvHlsRequestChannel urls refreshed referer = ntvsWideiptvHlsRequestChannel urls source referer ∧
      (∀ later, refreshNtvsWideiptvHlsRequestUrl urls refreshed later referer =
        refreshNtvsWideiptvHlsRequestUrl urls source later referer) ∧
      ∀ nowSeconds refreshWindowSeconds,
        ntvsWideiptvHlsTokenExpiresWithin urls master referer nowSeconds refreshWindowSeconds = false →
          ntvsWideiptvHlsTokenExpiresWithin urls refreshed referer nowSeconds refreshWindowSeconds = false := by
  obtain ⟨channel, token, hsource, hmaster, hrefreshed, htoken, heq⟩ := refresh_eq_some h
  obtain ⟨hhost, hpath, hfragment, hpairs⟩ := refreshed_parts (channel_of_request hmaster).1 (channel_of_request hsource).1
    ((urls.queryPairs source).filter fun pair => pair.1 != tokenName) token
  rw [← heq] at hhost hpath hfragment hpairs
  have hother : ∀ pair ∈ (urls.queryPairs source).filter (fun pair => pair.1 != tokenName), pair.1 ≠ tokenName :=
    fun pair hmem => bne_iff_ne.mp (List.mem_filter.mp hmem).2
  have hkept : (urls.queryPairs refreshed).filter (fun pair => pair.1 != tokenName) =
      (urls.queryPairs source).filter (fun pair => pair.1 != tokenName) := by
    rw [hpairs, List.filter_append, List.filter_filter]
    simp
  have htokens : (urls.queryPairs refreshed).filter (fun pair => pair.1 == tokenName) = [(tokenName, token)] := by
    have hnone : ((urls.queryPairs source).filter fun pair => pair.1 != tokenName).filter (fun pair => pair.1 == tokenName) = [] :=
      List.filter_eq_nil_iff.mpr fun pair hmem => by simpa using hother pair hmem
    rw [hpairs, List.filter_append, hnone]
    simp
  refine ⟨hhost, hpath, hfragment, hkept, ⟨token, htoken, htokens⟩, hrefreshed.trans hsource.symm, fun later => ?_, fun now window hfresh => ?_⟩
  · rw [refreshNtvsWideiptvHlsRequestUrl, refreshNtvsWideiptvHlsRequestUrl, hrefreshed, hsource, hkept, hpath]
  · have hfirst : firstToken urls refreshed = firstToken urls master := by
      rw [htoken, firstToken, hpairs, findSome_token_append hother]
    rw [ntvsWideiptvHlsTokenExpiresWithin, hmaster] at hfresh
    rw [ntvsWideiptvHlsTokenExpiresWithin, hrefreshed, hfirst]
    exact hfresh

end rotation

/-! Addresses as their parts, read from a plain referer. -/

structure Address where
  scheme : Text
  host : Text
  path : Text
  pairs : List (Text × Text)
  fragment : Option Text
  deriving DecidableEq

/-- A web address without a query; its path may not be empty. -/
def Address.parse (text : Text) : Option Address := do
  let rest ← stripPrefix text "https://".toList
  let (host, path) ← splitOnce ['/'] rest
  some ⟨"https".toList, host, '/' :: path, [], none⟩

def addresses : UrlLibrary where
  Url := Address
  parse := Address.parse
  scheme := Address.scheme
  username _ := []
  password _ := none
  hostStr url := some url.host
  port _ := none
  path := Address.path
  query url := if url.pairs.isEmpty then none else some (FormUrlencoded.serialize url.pairs)
  fragment := Address.fragment
  queryPairs := Address.pairs
  setPath url path := { url with path }
  removeFragment url := { url with fragment := none }
  clearQuery url := { url with pairs := [] }
  appendPair url pair := { url with pairs := url.pairs ++ [pair] }
  path_setPath _ _ _ _ := rfl
  hostStr_setPath _ _ := rfl
  hostStr_removeFragment _ := rfl
  path_removeFragment _ := rfl
  fragment_removeFragment _ := rfl
  hostStr_clearQuery _ := rfl
  path_clearQuery _ := rfl
  fragment_clearQuery _ := rfl
  queryPairs_clearQuery _ := rfl
  hostStr_appendPair _ _ := rfl
  path_appendPair _ _ := rfl
  fragment_appendPair _ _ := rfl
  queryPairs_appendPair _ _ := rfl

instance : DecidableEq addresses.Url := inferInstanceAs (DecidableEq Address)

def novaReferer : Text := "https://wideiptv.top/player/NOVASPORTS1".toList

/-- A rendition, with a token on either side of the part it asks for. -/
def novaRendition : addresses.Url where
  scheme := "https".toList
  host := "ds164.bluetier.top".toList
  path := "/NOVASPORTS1/mono.m3u8".toList
  pairs := [(tokenName, "old".toList), ("part".toList, ['3']), (tokenName, [])]
  fragment := some "live".toList

def novaMaster : addresses.Url where
  scheme := "https".toList
  host := "ds200.bluetier.top".toList
  path := "/NOVASPORTS1/index.m3u8".toList
  pairs := [(tokenName, "new".toList)]
  fragment := none

def novaRefreshed : addresses.Url where
  scheme := "https".toList
  host := "ds200.bluetier.top".toList
  path := "/NOVASPORTS1/mono.m3u8".toList
  pairs := [("part".toList, ['3']), (tokenName, "new".toList)]
  fragment := none

theorem refresh_novaRendition :
    refreshNtvsWideiptvHlsRequestUrl addresses novaRendition novaMaster novaReferer = some novaRefreshed := by
  decide

theorem novaRefreshed_rotates :
    refreshNtvsWideiptvHlsRequestUrl addresses novaRefreshed novaMaster novaReferer =
      refreshNtvsWideiptvHlsRequestUrl addresses novaRendition novaMaster novaReferer :=
  (refresh_rotates refresh_novaRendition).2.2.2.2.2.2.1 novaMaster

end StreamArena.Football.LiveTokens
