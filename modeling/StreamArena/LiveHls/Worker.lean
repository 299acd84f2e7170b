import StreamArena.LiveHls.Signing

/-! How the segment worker admits a request (workers/live-hls-proxy): a second reading of
the same query, with its own decoder, its own numbers and its own host policy. -/
namespace StreamArena.LiveHls.Worker
open AsciiText Aead Decimal FormUrlencoded

def signatureContextV1 : Text := "streamarena-live-hls-v1".toList
def signatureContextV2 : Text := "streamarena-live-hls-v2".toList
def signatureMaxTtlSeconds : Int := 6 * 60 * 60
def signatureClockSkewSeconds : Int := 60
def maxSafeInteger : Nat := 9007199254740991

structure Env where
  liveHlsProxySecret : Text
  liveHlsLegacySignatureAcceptUntil : Option Text

/-- The worker's own address in a request, with the query of the request. -/
structure RequestUrl where
  hostname : Text
  query : Text

structure Denial where
  status : Nat
  message : Text
  deriving DecidableEq

structure SignedTarget (urls : Urls.Library) where
  target : urls.Url
  referer : Text
  expiresAt : Option Int
  deriving DecidableEq

/-- White space as the language trims it: the byte order mark, not the next line sign. -/
def isJsWhitespace (c : Char) : Bool :=
  (isWhitespace c && c.toNat != 0x85) || c.toNat == 0xFEFF

def jsTrim (s : Text) : Text := (s.dropWhile isJsWhitespace).rdropWhile isJsWhitespace

/-- Length in UTF-16 code units. -/
def utf16Length (s : Text) : Nat := (s.map fun c => if c.toNat < 0x10000 then 1 else 2).sum

def base64UrlDecodeToBytes (value : Text) : Option Bytes :=
  let normalized := (jsTrim value).map Base64Url.toStandard
  Base64Url.atob (normalized ++ List.replicate ((4 - utf16Length normalized % 4) % 4) '=')

def signatureMessage (context input referer : Text) (expires : Option Int) : Bytes :=
  utf8Bytes context ++ [0] ++ utf8Bytes input ++ [0] ++ utf8Bytes referer ++
    match expires with
    | none => []
    | some expires => [0] ++ utf8Bytes (decimalText expires)

/-- The value of decimal digits when a number holds it exactly. -/
def safeInteger (value : Text) : Option Int :=
  if !isCanonical value then none
  else
    (parseDigits value).bind fun n => if n ≤ maxSafeInteger then some (n : Int) else none

def withinWindow (seconds nowSeconds : Int) : Bool :=
  decide (nowSeconds - signatureClockSkewSeconds ≤ seconds ∧
    seconds ≤ nowSeconds + signatureMaxTtlSeconds + signatureClockSkewSeconds)

def parseSignatureExpiry (value : Text) (nowSeconds : Int) : Option Int :=
  (safeInteger value).filter fun expires => withinWindow expires nowSeconds

def legacySignatureIsTemporarilyAllowed (value : Option Text) (nowSeconds : Int) : Bool :=
  (value.bind safeInteger).any fun deadline => withinWindow deadline nowSeconds

def isPublicHlsProxyHostname (host : Text) : Bool :=
  let value := toAsciiLowercase (Urls.trimEndDots (jsTrim host))
  if value.isEmpty || value.contains ':' || value == "localhost".toList ||
      endsWith value ".localhost".toList || endsWith value ".local".toList ||
      endsWith value ".internal".toList || Urls.isDottedQuad value then false
  else
    value.contains '.' && !startsWith value ['.'] && !endsWith value ['.'] &&
      !contains value "..".toList &&
      value.all fun c => c.isLower || c.isDigit || c == '.' || c == '-'

section authorize
variable (libs : Libraries)

/-- The first value of a name. -/
def searchParam (query name : Text) : Option Text := (parse libs.utf8Lossy query).lookup name

/-- A value that is not the empty text. -/
def truthy (value : Option Text) : Option Text := value.filter fun text => !text.isEmpty

def verifySignature (secret input referer : Text) (expires : Option Int) (signature context : Text) :
    Bool :=
  match base64UrlDecodeToBytes signature with
  | none => false
  | some provided =>
    libs.mac (utf8Bytes secret) (signatureMessage context input referer expires) == provided

/-- The signature checks of a request: the expiry it is admitted under, if it has one. -/
def authorizeSignature (query input referer secret : Text) (env : Env) (nowSeconds : Int) :
    Except Denial (Option Int) :=
  match searchParam libs query "expires".toList with
  | none =>
    match truthy (searchParam libs query "sig".toList) with
    | none => .error ⟨400, "missing expiry".toList⟩
    | some legacySignature =>
      if !legacySignatureIsTemporarilyAllowed env.liveHlsLegacySignatureAcceptUntil nowSeconds then
        .error ⟨400, "missing expiry".toList⟩
      else if verifySignature libs secret input referer none legacySignature signatureContextV1 then
        .ok none
      else .error ⟨403, "bad signature".toList⟩
  | some expiryValue =>
    match parseSignatureExpiry expiryValue nowSeconds with
    | none => .error ⟨403, "bad expiry".toList⟩
    | some expiresAt =>
      match (truthy (searchParam libs query "sigV2".toList)).or
          (truthy (searchParam libs query "sig".toList)) with
      | none => .error ⟨400, "bad request".toList⟩
      | some signature =>
        if verifySignature libs secret input referer (some expiresAt) signature signatureContextV2 then
          .ok (some expiresAt)
        else .error ⟨403, "bad signature".toList⟩

/-- A target on the worker's own live routes. -/
def isRecursiveTarget (target : libs.urls.Url) (hostname : Text) : Bool :=
  toAsciiLowercase ((libs.urls.hostStr target).getD []) == toAsciiLowercase hostname &&
    startsWith (libs.urls.path target) "/api/live/".toList

def checkTarget (input hostname : Text) : Except Denial libs.urls.Url :=
  match libs.urls.parse input with
  | none => .error ⟨400, "bad input url".toList⟩
  | some target =>
    if libs.urls.scheme target != "https".toList then .error ⟨400, "bad scheme".toList⟩
    else if !isPublicHlsProxyHostname ((libs.urls.hostStr target).getD []) then
      .error ⟨403, "host not allowed".toList⟩
    else if isRecursiveTarget libs target hostname then
      .error ⟨403, "recursive target rejected".toList⟩
    else .ok target

def authorizeSignedRequest (url : RequestUrl) (env : Env) (nowSeconds : Int) :
    Except Denial (SignedTarget libs.urls) :=
  if (searchParam libs url.query "privateSession".toList).isSome then
    .error ⟨403, "private source not supported".toList⟩
  else
    let referer := (searchParam libs url.query "referer".toList).getD []
    match truthy (searchParam libs url.query "input".toList) with
    | none => .error ⟨400, "bad request".toList⟩
    | some input =>
      if searchParam libs url.query "externalEmbed".toList ≠ some ['1'] then
        .error ⟨400, "bad request".toList⟩
      else if env.liveHlsProxySecret.isEmpty then .error ⟨503, "not configured".toList⟩
      else do
        let expiresAt ← authorizeSignature libs url.query input referer env.liveHlsProxySecret env
          nowSeconds
        let target ← checkTarget libs input url.hostname
        return ⟨target, referer, expiresAt⟩

end authorize

variable {libs : Libraries}

/-- Both sides sign the same bytes. -/
theorem signatureMessage_eq (context input : Text) (referer : Option Text) (expires : Option Int) :
    signatureMessage context input (referer.getD []) expires =
      signedMessage context input referer expires none := by
  cases expires <;> simp [signatureMessage, signedMessage]

theorem checkTarget_eq_ok {input hostname : Text} {target : libs.urls.Url}
    (h : checkTarget libs input hostname = .ok target) : libs.urls.parse input = some target := by
  unfold checkTarget at h
  split at h
  · cases h
  · next parsed hparsed =>
    split at h
    · cases h
    · split at h
      · cases h
      · split at h
        · cases h
        · rw [hparsed, Except.ok.inj h]

/-- What an accepted request has passed. -/
theorem authorizeSignedRequest_eq_ok {url : RequestUrl} {env : Env} {nowSeconds : Int}
    {accepted : SignedTarget libs.urls}
    (h : authorizeSignedRequest libs url env nowSeconds = .ok accepted) :
    ∃ input, libs.urls.parse input = some accepted.target ∧
      authorizeSignature libs url.query input accepted.referer env.liveHlsProxySecret env nowSeconds =
        .ok accepted.expiresAt := by
  unfold authorizeSignedRequest at h
  dsimp only at h
  split at h
  · cases h
  · split at h
    · cases h
    · next input _ =>
      split at h
      · cases h
      · split at h
        · cases h
        · cases hsignature : authorizeSignature libs url.query input
            ((searchParam libs url.query "referer".toList).getD []) env.liveHlsProxySecret env
            nowSeconds with
          | error denial => rw [hsignature] at h; cases h
          | ok expiresAt =>
            rw [hsignature] at h
            cases htarget : checkTarget libs input url.hostname with
            | error denial => rw [htarget] at h; cases h
            | ok target =>
              rw [htarget] at h
              have haccepted := Except.ok.inj h
              subst haccepted
              exact ⟨input, checkTarget_eq_ok htarget, hsignature⟩

end StreamArena.LiveHls.Worker
