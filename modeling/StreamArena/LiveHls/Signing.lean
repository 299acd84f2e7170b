import StreamArena.Library.FormUrlencoded
import StreamArena.Library.Decimal
import StreamArena.Library.Mac
import StreamArena.LiveHls.Requests

/-! Minting live stream URLs (src/live.rs): the target and its referer are normalized,
signed and written into a query. -/
namespace StreamArena.LiveHls
open AsciiText Aead Decimal FormUrlencoded

/-- What the origin and the worker build on: URLs, HMAC-SHA256 and a lossy decoder that
reads text as text. -/
structure Libraries where
  urls : Urls.Library
  mac : Mac.Code
  mac_ne_nil : ∀ key message, mac key message ≠ []
  utf8Lossy : Bytes → Text
  utf8Lossy_utf8Bytes : ∀ text, utf8Lossy (utf8Bytes text) = text

def liveHlsExternalEmbedParam : Text := "externalEmbed".toList
def liveHlsSignatureParam : Text := "sig".toList
def liveHlsSignatureV2Param : Text := "sigV2".toList
def liveHlsSignatureExpiryParam : Text := "expires".toList
def liveHlsPrivateSessionParam : Text := "privateSession".toList
def liveHlsSignatureContextV1 : Text := "streamarena-live-hls-v1".toList
def liveHlsSignatureContextV2 : Text := "streamarena-live-hls-v2".toList
def liveHlsSignatureContextPrivateV1 : Text := "streamarena-live-hls-private-v1".toList
def liveHlsPrivateSessionContext : Text := "streamarena-live-hls-session-v1".toList
def liveHlsSignatureMaxTtlSeconds : Int := 6 * 60 * 60
def liveHlsSignatureClockSkewSeconds : Int := 60

structure LiveHlsSigningContext where
  secret : Text
  expiresAt : Int
  privateSessionBinding : Option PrivateSessionBinding

def isAsciiControl (c : Char) : Bool := c.toNat < 0x20 || c.toNat == 0x7F

section signing
variable (libs : Libraries)

def normalizeHlsReferer (value : Text) : Option Text :=
  let trimmed := trim value
  if trimmed.isEmpty || decide (byteLength trimmed > 2048) then none
  else if trimmed.any isAsciiControl then none
  else
    match libs.urls.parse trimmed with
    | none => none
    | some url =>
      if libs.urls.scheme url != "https".toList && libs.urls.scheme url != "http".toList then none
      else (libs.urls.hostStr url).map fun _ => libs.urls.asStr url

def normalizeLiveHlsSignatureInput (input : Text) : Text :=
  ((libs.urls.parse (trim input)).map libs.urls.asStr).getD (trim input)

/-- The bytes a signature covers: its fields with a zero byte between any two. -/
def signedMessage (context input : Text) (referer : Option Text) (expiresAt : Option Int)
    (privateSessionBinding : Option Text) : Bytes :=
  utf8Bytes context ++ 0 :: (utf8Bytes input ++ 0 :: (utf8Bytes (referer.getD []) ++
    ((match expiresAt with
      | some expiresAt => 0 :: utf8Bytes (decimalText expiresAt)
      | none => []) ++
    match privateSessionBinding with
    | some binding => 0 :: utf8Bytes binding
    | none => [])))

def signLiveHlsProxyUrlWithContext (context input : Text) (referer : Option Text)
    (expiresAt : Option Int) (privateSessionBinding : Option Text) (secret : Text) : Text :=
  Base64Url.encode (libs.mac (utf8Bytes secret)
    (signedMessage context input referer expiresAt privateSessionBinding))

def signLiveHlsProxyUrlV1 (input : Text) (referer : Option Text) (secret : Text) : Text :=
  signLiveHlsProxyUrlWithContext libs liveHlsSignatureContextV1 input referer none none secret

def signLiveHlsProxyUrl (input : Text) (referer : Option Text) (expiresAt : Int) (secret : Text) :
    Text :=
  signLiveHlsProxyUrlWithContext libs liveHlsSignatureContextV2 input referer (some expiresAt) none
    secret

def signPrivateLiveHlsProxyUrl (input : Text) (referer : Option Text) (expiresAt : Int)
    (privateSessionBinding secret : Text) : Text :=
  signLiveHlsProxyUrlWithContext libs liveHlsSignatureContextPrivateV1 input referer
    (some expiresAt) (some privateSessionBinding) secret

def liveHlsProxyUrlWithLegacyTransition (path input : Text) (referer : Option Text)
    (signingContext : Option LiveHlsSigningContext) (emitLegacySignature : Bool) : Text :=
  let input := match signingContext with
    | some _ => normalizeLiveHlsSignatureInput libs input
    | none => input
  let normalizedReferer := referer.bind (normalizeHlsReferer libs)
  let url := path ++ "?input=".toList ++ encode input
  let url := match normalizedReferer with
    | some referer => url ++ "&referer=".toList ++ encode referer
    | none => url
  match signingContext.filter fun context => !(trim context.secret).isEmpty with
  | none => url
  | some context =>
    let signatureV2 := match context.privateSessionBinding with
      | some binding => signPrivateLiveHlsProxyUrl libs input normalizedReferer context.expiresAt
          binding.text context.secret
      | none => signLiveHlsProxyUrl libs input normalizedReferer context.expiresAt context.secret
    let url := url ++ ['&'] ++ liveHlsExternalEmbedParam ++ "=1&".toList ++
      liveHlsSignatureExpiryParam ++ ['='] ++ decimalText context.expiresAt ++ ['&'] ++
      liveHlsSignatureParam ++ ['=']
    let url :=
      if emitLegacySignature && context.privateSessionBinding.isNone then
        url ++ encode (signLiveHlsProxyUrlV1 libs input normalizedReferer context.secret) ++ ['&'] ++
          liveHlsSignatureV2Param ++ ['=']
      else url
    let url := url ++ encode signatureV2
    match context.privateSessionBinding with
    | some binding => url ++ ['&'] ++ liveHlsPrivateSessionParam ++ ['='] ++ encode binding.text
    | none => url

/-- The signature a grant carries as its newest. -/
def currentSignature (input : Text) (referer : Option Text) (context : LiveHlsSigningContext) : Text :=
  match context.privateSessionBinding with
  | some binding =>
    signPrivateLiveHlsProxyUrl libs input referer context.expiresAt binding.text context.secret
  | none => signLiveHlsProxyUrl libs input referer context.expiresAt context.secret

/-- The signatures of a minted query, an old one before the newest during the rollout. -/
def signaturePairs (input : Text) (referer : Option Text) (context : LiveHlsSigningContext)
    (emitLegacySignature : Bool) : List (Text × Text) :=
  if emitLegacySignature && context.privateSessionBinding.isNone then
    [(liveHlsSignatureParam, signLiveHlsProxyUrlV1 libs input referer context.secret),
      (liveHlsSignatureV2Param, currentSignature libs input referer context)]
  else [(liveHlsSignatureParam, currentSignature libs input referer context)]

/-- The query of a signed URL. -/
def mintedPairs (input : Text) (referer : Option Text) (context : LiveHlsSigningContext)
    (emitLegacySignature : Bool) : List (Text × Text) :=
  ("input".toList, input) :: ((referer.map (Prod.mk "referer".toList)).toList ++
    ((liveHlsExternalEmbedParam, ['1']) ::
      (liveHlsSignatureExpiryParam, decimalText context.expiresAt) ::
        (signaturePairs libs input referer context emitLegacySignature ++
          (context.privateSessionBinding.map fun binding =>
            (liveHlsPrivateSessionParam, binding.text)).toList)))

end signing

variable {libs : Libraries}

theorem not_isAsciiControl_of_isPrintable {c : Char} (h : Urls.isPrintable c = true) :
    isAsciiControl c = false := by
  simp only [Urls.isPrintable, Bool.and_eq_true, decide_eq_true_eq] at h
  simp only [isAsciiControl, Bool.or_eq_false_iff, decide_eq_false_iff_not, beq_eq_false_iff_ne]
  omega

/-- A normalized target normalizes to itself. -/
theorem normalizeLiveHlsSignatureInput_asStr {input : Text} {url : libs.urls.Url}
    (h : libs.urls.parse (trim input) = some url) :
    normalizeLiveHlsSignatureInput libs input = libs.urls.asStr url := by
  rw [normalizeLiveHlsSignatureInput, h]
  rfl

/-- A normalized referer is the text of a web address with a host. -/
theorem normalizeHlsReferer_eq_some {value referer : Text}
    (h : normalizeHlsReferer libs value = some referer) :
    ∃ url, referer = libs.urls.asStr url ∧
      (libs.urls.scheme url = "https".toList ∨ libs.urls.scheme url = "http".toList) ∧
        libs.urls.hostStr url ≠ none := by
  unfold normalizeHlsReferer at h
  dsimp only at h
  split at h
  · cases h
  · split at h
    · cases h
    · split at h
      · cases h
      · next url _ =>
        split at h
        · cases h
        · next hscheme =>
          obtain ⟨host, hhost, rfl⟩ := Option.map_eq_some_iff.mp h
          refine ⟨url, rfl, ?_, Option.ne_none_iff_exists'.mpr ⟨host, hhost⟩⟩
          simpa [or_iff_not_imp_left] using hscheme

/-- A normalized referer of no more than the limit normalizes to itself. -/
theorem normalizeHlsReferer_self {value referer : Text}
    (h : normalizeHlsReferer libs value = some referer) (hlen : byteLength referer ≤ 2048) :
    normalizeHlsReferer libs referer = some referer := by
  obtain ⟨url, rfl, hscheme, hhost⟩ := normalizeHlsReferer_eq_some h
  obtain ⟨host, hhost⟩ := Option.ne_none_iff_exists'.mp hhost
  have hcontrol : (libs.urls.asStr url).any isAsciiControl = false :=
    List.any_eq_false.mpr fun c hc => by
      simp [not_isAsciiControl_of_isPrintable (libs.urls.asStr_printable url c hc)]
  have hweb : (libs.urls.scheme url != "https".toList && libs.urls.scheme url != "http".toList) =
      false := by
    cases hscheme with
    | inl hs => rw [hs]; rfl
    | inr hs => rw [hs]; rfl
  have hsmall : decide (byteLength (libs.urls.asStr url) > 2048) = false := by
    simpa using hlen
  simp only [normalizeHlsReferer, libs.urls.asStr_trimmed, List.isEmpty_eq_false_iff.mpr (libs.urls.asStr_ne_nil url),
    hsmall, hcontrol, libs.urls.parse_asStr, hweb, hhost, Bool.or_self, Bool.false_eq_true, ↓reduceIte,
    Option.map_some]

/-- A signed URL is its path and the serialized pairs of its grant. -/
theorem liveHlsProxyUrl_eq {path input : Text} {referer : Option Text}
    {context : LiveHlsSigningContext} (hsecret : trim context.secret ≠ [])
    (emitLegacySignature : Bool) :
    liveHlsProxyUrlWithLegacyTransition libs path input referer (some context) emitLegacySignature =
      path ++ '?' :: serialize (mintedPairs libs (normalizeLiveHlsSignatureInput libs input)
        (referer.bind (normalizeHlsReferer libs)) context emitLegacySignature) := by
  have hnames : encode "input".toList = "input".toList ∧ encode "referer".toList = "referer".toList ∧
      encode liveHlsExternalEmbedParam = liveHlsExternalEmbedParam ∧ encode ['1'] = ['1'] ∧
      encode liveHlsSignatureExpiryParam = liveHlsSignatureExpiryParam ∧
      encode liveHlsSignatureParam = liveHlsSignatureParam ∧
      encode liveHlsSignatureV2Param = liveHlsSignatureV2Param ∧
      encode liveHlsPrivateSessionParam = liveHlsPrivateSessionParam := by decide
  have hliterals : "?input=".toList = '?' :: ("input".toList ++ ['=']) ∧
      "&referer=".toList = '&' :: ("referer".toList ++ ['=']) ∧ "=1&".toList = ['=', '1', '&'] := by
    decide
  obtain ⟨hinput, hreferer, hembed, hone, hexpiry, hsig, hsigV2, hprivate⟩ := hnames
  obtain ⟨hfirst, hsecond, hthird⟩ := hliterals
  have hblank : (trim context.secret).isEmpty = false := List.isEmpty_eq_false_iff.mpr hsecret
  have hcontext : (some context).filter (fun context => !(trim context.secret).isEmpty) =
      some context := Option.filter_some_pos (by rw [hblank]; rfl)
  simp only [liveHlsProxyUrlWithLegacyTransition, hcontext, hfirst, hsecond, hthird, mintedPairs,
    signaturePairs]
  cases referer.bind (normalizeHlsReferer libs) <;> cases hb : context.privateSessionBinding <;>
    cases emitLegacySignature <;>
      simp [currentSignature, hb, serialize_cons_cons, serialize_singleton, hinput, hreferer, hembed,
        hone, hexpiry, hsig, hsigV2, hprivate, encode_decimalText, -String.reduceToList]

end StreamArena.LiveHls
