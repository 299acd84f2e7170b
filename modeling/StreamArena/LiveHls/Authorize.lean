import StreamArena.Library.KeyedTable
import StreamArena.LiveHls.Signing
import StreamArena.Routes.Fields

/-! How the origin admits a live stream request (src/live.rs): the query's pairs, the
bounded expiry, the signature over the normalized target and referer. -/
namespace StreamArena.LiveHls
open AsciiText Aead Decimal FormUrlencoded Routes

/-- A request's path and query. -/
structure Uri where
  path : Text
  query : Option Text

/-- The path and query of a relative URL without a fragment. -/
def Uri.ofText (text : Text) : Uri :=
  match splitOnce ['?'] text with
  | some (path, query) => ⟨path, some query⟩
  | none => ⟨text, none⟩

abbrev Params := Text → Option Text

def liveHlsAllowedHosts : List Text :=
  ["liveproduseast.akamaized.net", "liveproduseast.global.ssl.fastly.net",
    "liveprodusphoenixeast.global.ssl.fastly.net", "liveprodusphoenixeast.akamaized.net",
    "liveprodeuwest.global.ssl.fastly.net", "liveprodeuwest.akamaized.net",
    "vs-hls-push-ww-live.akamaized.net", "jmp2.uk", "stitcher-ipv4.pluto.tv",
    "mcdn-01.plutotv.net", "www.bloomberg.com", "28585519.net", "antennaplus.gr",
    "broadpeak-aas.com", "cdn.skycdp.com", "msvdn.net", "siliconweb.com", "strmd.st",
    "lovetier.bz", "strmd.top", "bluetier.top", "zohanayaan.com", "easy.speedsterwave.app",
    "easy.nightspeedster.app", "hello.mousedoor.com", "yoru.midwesteagle.com",
    "www.cloudflare-terms-of-service-abuse.com", "storm.vodvidl.site", "typhoontigertribe.net",
    "ttvnw.net", "cdnlivetv.tv", "cdn-live.tv"].map String.toList

def isPublicHlsProxyHostname (host : Text) : Bool :=
  let host := toAsciiLowercase (Urls.trimEndDots (trim host))
  if host.isEmpty || host.contains ':' || host == "localhost".toList ||
      endsWith host ".localhost".toList || endsWith host ".local".toList ||
      endsWith host ".internal".toList || Urls.isIpv4Addr host then false
  else
    host.contains '.' && !startsWith host ['.'] && !endsWith host ['.'] &&
      !contains host "..".toList &&
      host.all fun c => c.isLower || c.isDigit || c == '.' || c == '-'

def parseLiveHlsSignatureExpiry (value : Text) (nowSeconds : Int) : Option Int :=
  if !isCanonical value then none
  else
    (parseI64 value).filter fun expiresAt =>
      let earliest := saturate (nowSeconds - liveHlsSignatureClockSkewSeconds)
      let latest := saturate (nowSeconds +
        (liveHlsSignatureMaxTtlSeconds + liveHlsSignatureClockSkewSeconds))
      decide (earliest ≤ expiresAt ∧ expiresAt ≤ latest)

def liveHlsLegacySignatureIsTemporarilyAllowed (legacyAcceptUntil : Option Int) (nowSeconds : Int) :
    Bool :=
  legacyAcceptUntil.any fun deadline =>
    decide (saturate (nowSeconds - liveHlsSignatureClockSkewSeconds) ≤ deadline ∧
      deadline ≤ saturate (nowSeconds +
        (liveHlsSignatureMaxTtlSeconds + liveHlsSignatureClockSkewSeconds)))

/-- The cookie of a session, from the request's cookie header. -/
def extractSessionToken (cookieHeader : Option Text) : Option Text :=
  (cookieHeader.getD []).splitOn ';' |>.findSome? fun part =>
    ((stripPrefix (trim part) "session=".toList).map trim).filter fun token => !token.isEmpty

def hostMatchesAllowedLiveHlsHost (host allowed : Text) : Bool :=
  host == allowed || endsWith host ('.' :: allowed)

section verify
variable (libs : Libraries)

/-- The last value of each name. -/
def queryPairs (query : Text) : Params := fun name => (parse libs.utf8Lossy query).reverse.lookup name

def toAbsolutePlaybackUrl (value : Text) (requestUrl : libs.urls.Url) : Text :=
  let raw := trim value
  if raw.isEmpty then []
  else (((libs.urls.parse raw).or (libs.urls.join requestUrl raw)).map libs.urls.asStr).getD []

def isAllowedLiveHlsUrl (url : libs.urls.Url) : Bool :=
  if libs.urls.scheme url != "https".toList && libs.urls.scheme url != "http".toList then false
  else
    match (libs.urls.hostStr url).map toAsciiLowercase with
    | none => false
    | some host => liveHlsAllowedHosts.any (hostMatchesAllowedLiveHlsHost host)

def isPublicExternalEmbedHlsProxyUrl (url : libs.urls.Url) : Bool :=
  if libs.urls.scheme url != "https".toList then false
  else
    match (libs.urls.hostStr url).map toAsciiLowercase with
    | none => false
    | some host => isPublicHlsProxyHostname host

def verifyLiveHlsProxyUrlSignatureWithContext (context input : Text) (referer : Option Text)
    (expiresAt : Option Int) (privateSessionBinding : Option Text) (signature secret : Text) : Bool :=
  match Base64Url.decode (trim signature) with
  | none => false
  | some signatureBytes =>
    libs.mac (utf8Bytes secret)
      (signedMessage context input referer expiresAt privateSessionBinding) == signatureBytes

def verifyLiveHlsProxyUrlSignatureV1 (input : Text) (referer : Option Text)
    (signature secret : Text) : Bool :=
  verifyLiveHlsProxyUrlSignatureWithContext libs liveHlsSignatureContextV1 input referer none none
    signature secret

def verifyLiveHlsProxyUrlSignature (input : Text) (referer : Option Text) (expiresAt : Int)
    (signature secret : Text) : Bool :=
  verifyLiveHlsProxyUrlSignatureWithContext libs liveHlsSignatureContextV2 input referer
    (some expiresAt) none signature secret

def verifyPrivateLiveHlsProxyUrlSignature (input : Text) (referer : Option Text) (expiresAt : Int)
    (privateSessionBinding signature secret : Text) : Bool :=
  verifyLiveHlsProxyUrlSignatureWithContext libs liveHlsSignatureContextPrivateV1 input referer
    (some expiresAt) (some privateSessionBinding) signature secret

/-- A well-formed digest of a session. -/
def toPrivateSessionBinding (text : Text) : Option PrivateSessionBinding :=
  if h : text.length = 43 ∧ text.all Base64Url.isAlphabet = true then some ⟨text, h.1, h.2⟩ else none

/-- The signature check once the binding of the request is known to be well formed. -/
def authorizeWithBinding (input : Text) (referer : Option Text) (params : Params)
    (binding : Option PrivateSessionBinding) (secret : Text) (nowSeconds : Int)
    (legacyAcceptUntil : Option Int) : Option (Option Int) :=
  match params liveHlsSignatureExpiryParam with
  | some expiry =>
    (parseLiveHlsSignatureExpiry expiry nowSeconds).bind fun expiresAt =>
      ((params liveHlsSignatureV2Param).or (params liveHlsSignatureParam)).bind fun signature =>
        let valid := match binding with
          | some binding => verifyPrivateLiveHlsProxyUrlSignature libs input referer expiresAt
              binding.text signature secret
          | none => verifyLiveHlsProxyUrlSignature libs input referer expiresAt signature secret
        if valid then some (some expiresAt) else none
  | none =>
    if binding.isSome then none
    else if !liveHlsLegacySignatureIsTemporarilyAllowed legacyAcceptUntil nowSeconds then none
    else
      (params liveHlsSignatureParam).bind fun signature =>
        if verifyLiveHlsProxyUrlSignatureV1 libs input referer signature secret then some none
        else none

/-- `some (some expiry)` for a grant bound to its expiry, `some none` for one of the old
kind during the rollout, `none` for an invalid signature. -/
def authorizeLiveHlsProxySignature (input : Text) (referer : Option Text) (params : Params)
    (secret : Text) (nowSeconds : Int) (legacyAcceptUntil : Option Int) : Option (Option Int) :=
  match (params liveHlsPrivateSessionParam).map toPrivateSessionBinding with
  | some none => none
  | binding =>
    authorizeWithBinding libs input referer params binding.join secret nowSeconds legacyAcceptUntil

def trustedExternalEmbedHlsExpiry (sourceUrl : libs.urls.Url) (referer : Option Text)
    (params : Params) (secret : Text) (nowSeconds : Int) (legacyAcceptUntil : Option Int) :
    Option (Option Int) :=
  if params liveHlsExternalEmbedParam ≠ some ['1'] then none
  else if (trim secret).isEmpty || !isPublicExternalEmbedHlsProxyUrl libs sourceUrl then none
  else
    authorizeLiveHlsProxySignature libs (libs.urls.asStr sourceUrl) referer params secret nowSeconds
      legacyAcceptUntil

def isSignedLiveHlsRequest (secret : Text) (uri : Uri) (nowSeconds : Int)
    (legacyAcceptUntil : Option Int) : Bool :=
  if uri.path ≠ "/api/live/hls.m3u8".toList ∧ uri.path ≠ "/api/live/hls-resource".toList then false
  else if (trim secret).isEmpty then false
  else
    let params := queryPairs libs (uri.query.getD [])
    if params liveHlsExternalEmbedParam ≠ some ['1'] then false
    else if (params liveHlsPrivateSessionParam).isSome then false
    else
      match params "input".toList with
      | none => false
      | some input =>
        let referer := (params "referer".toList).bind (normalizeHlsReferer libs)
        (authorizeLiveHlsProxySignature libs input referer params secret nowSeconds
          legacyAcceptUntil).isSome

def verifyPrivateLiveHlsSessionBinding (secret : Text) (cookieHeader : Option Text)
    (binding : Text) : Bool :=
  if (toPrivateSessionBinding binding).isNone then false
  else
    match extractSessionToken cookieHeader, Base64Url.decode binding with
    | some sessionToken, some bindingBytes =>
      if bindingBytes.length ≠ 32 ∨ Base64Url.encode bindingBytes ≠ binding then false
      else
        libs.mac (utf8Bytes secret)
          (utf8Bytes liveHlsPrivateSessionContext ++ 0 :: utf8Bytes sessionToken) == bindingBytes
    | _, _ => false

def buildPrivateLiveHlsSessionBinding (secret sessionToken : Text) : Option Text :=
  if (trim secret).isEmpty || (trim sessionToken).isEmpty then none
  else
    some (Base64Url.encode (libs.mac (utf8Bytes secret)
      (utf8Bytes liveHlsPrivateSessionContext ++ 0 :: utf8Bytes sessionToken)))

/-- The request a handler works on; `requestUrl` is the address it was received under. -/
def liveHlsRequestInput (secret : Text) (cookieHeader : Option Text) (requestUrl : libs.urls.Url)
    (uri : Uri) (nowSeconds : Int) (legacyAcceptUntil : Option Int) :
    Except ApiError (LiveHlsRequest libs.urls) :=
  let params := queryPairs libs (uri.query.getD [])
  let input := toAbsolutePlaybackUrl libs ((params "input".toList).getD []) requestUrl
  if (trim input).isEmpty then .error (.badRequest "Missing input query parameter.".toList)
  else
    match libs.urls.parse input with
    | none => .error (.badRequest "Invalid live HLS URL.".toList)
    | some sourceUrl =>
      let referer := (params "referer".toList).bind (normalizeHlsReferer libs)
      let authorization := trustedExternalEmbedHlsExpiry libs sourceUrl referer params secret
        nowSeconds legacyAcceptUntil
      let trusted := authorization.isSome
      match params liveHlsPrivateSessionParam with
      | some binding =>
        match toPrivateSessionBinding binding with
        | some checked =>
          if trusted && verifyPrivateLiveHlsSessionBinding libs secret cookieHeader binding then
            if !isAllowedLiveHlsUrl libs sourceUrl && !trusted then
              .error (.badRequest "Unsupported live HLS URL.".toList)
            else
              .ok ⟨sourceUrl, referer, trusted, authorization.join, false, some checked⟩
          else .error ⟨403, "Invalid private live HLS session binding.".toList⟩
        | none => .error ⟨403, "Invalid private live HLS session binding.".toList⟩
      | none =>
        if !isAllowedLiveHlsUrl libs sourceUrl && !trusted then
          .error (.badRequest "Unsupported live HLS URL.".toList)
        else
          .ok ⟨sourceUrl, referer, trusted, authorization.join,
            trusted && params "directSeg".toList == some ['1'], none⟩

end verify

end StreamArena.LiveHls
