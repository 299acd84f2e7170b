import StreamArena.LiveHls.MintedUrls

/-! What an admitted request proves under an ideal code: its grant was minted, with every
field as it is read. The fields of a signed message are told apart by zero bytes, its kind
by the context before the first. -/
namespace StreamArena.LiveHls
open AsciiText Aead Decimal FormUrlencoded Separated

inductive SignatureVersion where
  | v1
  | v2
  | privateV1
  deriving DecidableEq

def SignatureVersion.context : SignatureVersion → Text
  | v1 => liveHlsSignatureContextV1
  | v2 => liveHlsSignatureContextV2
  | privateV1 => liveHlsSignatureContextPrivateV1

/-- How long and for whom a grant holds: of the old kind, until an expiry, or until an
expiry for one session. -/
inductive GrantTerms where
  | legacy
  | expiring (expiresAt : Int)
  | privateTo (expiresAt : Int) (binding : PrivateSessionBinding)
  deriving DecidableEq

namespace GrantTerms

def version : GrantTerms → SignatureVersion
  | legacy => .v1
  | expiring _ => .v2
  | privateTo _ _ => .privateV1

def expiresAt : GrantTerms → Option Int
  | legacy => none
  | expiring expiresAt => some expiresAt
  | privateTo expiresAt _ => some expiresAt

def binding : GrantTerms → Option PrivateSessionBinding
  | privateTo _ binding => some binding
  | _ => none

/-- The terms a verifier reads off an expiry and a binding. -/
def ofParts : Option Int → Option PrivateSessionBinding → GrantTerms
  | none, _ => legacy
  | some expiresAt, none => expiring expiresAt
  | some expiresAt, some binding => privateTo expiresAt binding

/-- The expiry, or the rollout's deadline for a grant without one, lies in the window. -/
def Current (deadline : Option Int) (nowSeconds : Int) (terms : GrantTerms) : Prop :=
  ∃ seconds, terms.expiresAt.or deadline = some seconds ∧ InForce seconds nowSeconds

end GrantTerms

/-- What a signature of a live stream URL covers; no referer is the empty text. -/
structure GrantFields where
  target : Text
  referer : Text
  terms : GrantTerms
  deriving DecidableEq

def GrantFields.message (grant : GrantFields) : Bytes :=
  signedMessage grant.terms.version.context grant.target (some grant.referer) grant.terms.expiresAt
    (grant.terms.binding.map PrivateSessionBinding.text)

/-- A call of the minter, whose callers pass parsed targets. -/
structure Mint (libs : Libraries) where
  target : libs.urls.Url
  referer : Option Text
  context : LiveHlsSigningContext
  emitLegacySignature : Bool

section history
variable (libs : Libraries)

/-- The grant a mint signs, and the same without its expiry during the rollout. -/
def Mint.grants {libs : Libraries} (mint : Mint libs) : List GrantFields :=
  let grant := fun terms : GrantTerms =>
    GrantFields.mk (libs.urls.asStr mint.target)
      ((mint.referer.bind (normalizeHlsReferer libs)).getD []) terms
  grant (GrantTerms.ofParts (some mint.context.expiresAt) mint.context.privateSessionBinding) ::
    (if mint.emitLegacySignature && mint.context.privateSessionBinding.isNone then [grant .legacy]
    else [])

/-- The other uses of the secret: session digests, links to local streams, lazy tickets. -/
inductive OtherUse where
  | privateSession
  | internalStreamAccess
  | realDebridLazyHls

def OtherUse.context : OtherUse → Text
  | privateSession => liveHlsPrivateSessionContext
  | internalStreamAccess => "streamarena-local-torrent-internal-v1".toList
  | realDebridLazyHls => "streamarena-rd-lazy-hls-v1".toList

structure OtherMessage where
  use : OtherUse
  secret : Text
  payload : Bytes

def OtherMessage.message (other : OtherMessage) : Bytes :=
  utf8Bytes other.use.context ++ 0 :: other.payload

/-- Everything signed so far. -/
structure History where
  mints : List (Mint libs)
  others : List OtherMessage

def History.Granted {libs : Libraries} (history : History libs) (secret : Text) (grant : GrantFields) :
    Prop :=
  ∃ mint ∈ history.mints, mint.context.secret = secret ∧ trim secret ≠ [] ∧ grant ∈ mint.grants

def History.Signed {libs : Libraries} (history : History libs) (key message : Bytes) : Prop :=
  (∃ secret grant, history.Granted secret grant ∧ key = utf8Bytes secret ∧
    message = grant.message) ∨
  ∃ other ∈ history.others, key = utf8Bytes other.secret ∧ message = other.message

/-- A request to the origin's middleware, to its handler or to the worker. -/
inductive Request where
  | middleware (uri : Uri)
  | handler (uri : Uri) (cookieHeader : Option Text) (requestUrl : libs.urls.Url)
  | worker (url : Worker.RequestUrl)

/-- The tags a request presents. -/
def presentedTags : Request libs → List Bytes
  | .middleware uri => originTags uri
  | .handler uri _ _ => originTags uri
  | .worker url =>
    ([liveHlsSignatureV2Param, liveHlsSignatureParam].filterMap
      (Worker.searchParam libs url.query)).filterMap Worker.base64UrlDecodeToBytes
where
  originTags (uri : Uri) : List Bytes :=
    ([liveHlsSignatureV2Param, liveHlsSignatureParam].filterMap
      (queryPairs libs (uri.query.getD []))).filterMap fun signature =>
        Base64Url.decode (trim signature)

/-- The deployment: one secret on both sides, each with its rollout deadline. -/
structure Deployment where
  secret : Text
  legacyAcceptUntil : Option Int
  workerLegacyAcceptUntil : Option Text

/-- The end of the rollout for the side a request goes to. -/
def Request.deadline {libs : Libraries} (deployment : Deployment) : Request libs → Option Int
  | .worker _ => deployment.workerLegacyAcceptUntil.bind Worker.safeInteger
  | _ => deployment.legacyAcceptUntil

/-- A verifier admits the request for a grant. -/
inductive Admitted (deployment : Deployment) (nowSeconds : Int) : Request libs → GrantFields → Prop
  | middleware {uri : Uri} {input : Text} {result : Option Int}
      (signed : isSignedLiveHlsRequest libs deployment.secret uri nowSeconds
        deployment.legacyAcceptUntil = true)
      (hasInput : queryPairs libs (uri.query.getD []) "input".toList = some input)
      (authorized : authorizeLiveHlsProxySignature libs input
        ((queryPairs libs (uri.query.getD []) "referer".toList).bind (normalizeHlsReferer libs))
        (queryPairs libs (uri.query.getD [])) deployment.secret nowSeconds
        deployment.legacyAcceptUntil = some result) :
      Admitted deployment nowSeconds (.middleware uri)
        ⟨input, ((queryPairs libs (uri.query.getD []) "referer".toList).bind
          (normalizeHlsReferer libs)).getD [], .ofParts result none⟩
  | handler {uri : Uri} {cookieHeader : Option Text} {requestUrl : libs.urls.Url}
      {request : LiveHlsRequest libs.urls}
      (accepted : liveHlsRequestInput libs deployment.secret cookieHeader requestUrl uri nowSeconds
        deployment.legacyAcceptUntil = .ok request)
      (trusted : request.trustedExternalEmbed = true) :
      Admitted deployment nowSeconds (.handler uri cookieHeader requestUrl)
        ⟨libs.urls.asStr request.sourceUrl, request.referer.getD [],
          .ofParts request.signatureExpiresAt request.privateSessionBinding⟩
  | worker {url : Worker.RequestUrl} {accepted : Worker.SignedTarget libs.urls}
      (authorized : Worker.authorizeSignedRequest libs url
        ⟨deployment.secret, deployment.workerLegacyAcceptUntil⟩ nowSeconds = .ok accepted) :
      Admitted deployment nowSeconds (.worker url)
        ⟨libs.urls.asStr accepted.target, accepted.referer, .ofParts accepted.expiresAt none⟩

end history

/-- The fields of a message, in the order they are signed. -/
def GrantFields.parts (grant : GrantFields) : List Bytes :=
  utf8Bytes grant.terms.version.context :: utf8Bytes grant.target :: utf8Bytes grant.referer ::
    ((grant.terms.expiresAt.map fun expiresAt => utf8Bytes (decimalText expiresAt)).toList ++
      (grant.terms.binding.map fun binding => utf8Bytes binding.text).toList)

theorem GrantFields.message_eq_join (grant : GrantFields) : grant.message = join 0 grant.parts := by
  cases grant with
  | mk target referer terms =>
    cases terms <;> simp [GrantFields.message, GrantFields.parts, signedMessage, GrantTerms.version,
      GrantTerms.expiresAt, GrantTerms.binding, join]

theorem zero_not_mem_utf8Bytes {text : Text} (h : ∀ c ∈ text, Urls.isPrintable c = true) :
    0 ∉ utf8Bytes text := by
  have hascii : ∀ n < 127, 32 ≤ n → 0 ∉ utf8Bytes [Char.ofNat n] := by decide
  induction text with
  | nil => exact List.not_mem_nil
  | cons c text ih =>
    have hc := h c List.mem_cons_self
    simp only [Urls.isPrintable, Bool.and_eq_true, decide_eq_true_eq] at hc
    rw [← List.singleton_append, utf8Bytes_append, List.mem_append, not_or]
    have hone := hascii c.toNat (by omega) hc.1
    rw [Char.ofNat_toNat] at hone
    exact ⟨hone, ih fun d hd => h d (List.mem_cons_of_mem c hd)⟩

theorem zero_not_mem_context (version : SignatureVersion) : 0 ∉ utf8Bytes version.context := by
  cases version <;> decide

theorem zero_not_mem_otherContext (use : OtherUse) : 0 ∉ utf8Bytes use.context := by
  cases use <;> decide

/-- No other use of the secret signs under a context of live stream URLs. -/
theorem context_ne_otherContext (version : SignatureVersion) (use : OtherUse) :
    version.context ≠ use.context := by
  cases version <;> cases use <;> decide

theorem context_injective {a b : SignatureVersion} (h : a.context = b.context) : a = b := by
  cases a <;> cases b <;> first | rfl | exact absurd h (by decide)

theorem isPrintable_of_mem_decimalText {n : Int} {c : Char} (h : c ∈ decimalText n) :
    Urls.isPrintable c = true := by
  cases mem_decimal h with
  | inr hminus => rw [hminus]; decide
  | inl hdigit =>
    have hrange : 48 ≤ c.toNat ∧ c.toNat ≤ 57 := by
      simpa [Char.isDigit, UInt32.le_iff_toNat_le] using hdigit
    simp only [Urls.isPrintable, Bool.and_eq_true, decide_eq_true_eq]
    omega

theorem isPrintable_of_mem_binding (binding : PrivateSessionBinding) :
    ∀ c ∈ binding.text, Urls.isPrintable c = true := by
  intro c hc
  have hrange := Base64Url.toNat_of_isAlphabet (List.all_eq_true.mp binding.alphabet c hc)
  simp only [Urls.isPrintable, Bool.and_eq_true, decide_eq_true_eq]
  omega

/-- No field of a minted grant holds a zero byte. -/
def GrantFields.Clean (grant : GrantFields) : Prop := ∀ part ∈ grant.parts, 0 ∉ part

theorem GrantFields.clean_of_printable {grant : GrantFields}
    (htarget : ∀ c ∈ grant.target, Urls.isPrintable c = true)
    (hreferer : ∀ c ∈ grant.referer, Urls.isPrintable c = true) : grant.Clean := by
  intro part hpart
  simp only [GrantFields.parts, List.mem_cons, List.mem_append, Option.mem_toList,
    Option.map_eq_some_iff] at hpart
  rcases hpart with rfl | rfl | rfl | ⟨expiresAt, -, rfl⟩ | ⟨binding, -, rfl⟩
  · exact zero_not_mem_context grant.terms.version
  · exact zero_not_mem_utf8Bytes htarget
  · exact zero_not_mem_utf8Bytes hreferer
  · exact zero_not_mem_utf8Bytes fun c hc => isPrintable_of_mem_decimalText hc
  · exact zero_not_mem_utf8Bytes (isPrintable_of_mem_binding binding)

theorem GrantFields.message_eq_cons (grant : GrantFields) :
    ∃ rest, grant.message = utf8Bytes grant.terms.version.context ++ 0 :: rest := by
  rw [message_eq_join, parts, join_cons _ (List.cons_ne_nil _ _)]
  exact ⟨_, rfl⟩

/-- Two texts before the first zero byte of one message are the same. -/
theorem context_eq_of_append_eq {a b : Text} {resta restb : Bytes} (ha : 0 ∉ utf8Bytes a)
    (hb : 0 ∉ utf8Bytes b) (h : utf8Bytes a ++ 0 :: resta = utf8Bytes b ++ 0 :: restb) : a = b := by
  rcases append_cons_eq_iff.mp h with ⟨heq, -⟩ | ⟨w, heq, -⟩ | ⟨w, heq, -⟩
  · exact utf8Bytes_injective heq
  · exact absurd (heq ▸ List.mem_append_right _ List.mem_cons_self) hb
  · exact absurd (heq ▸ List.mem_append_right _ List.mem_cons_self) ha

theorem GrantFields.version_eq_of_message_eq {a b : GrantFields} (h : a.message = b.message) :
    a.terms.version = b.terms.version := by
  obtain ⟨resta, ha⟩ := a.message_eq_cons
  obtain ⟨restb, hb⟩ := b.message_eq_cons
  rw [ha, hb] at h
  exact context_injective (context_eq_of_append_eq (zero_not_mem_context _) (zero_not_mem_context _) h)

/-- The fields a version signs are as many for every grant. -/
theorem GrantFields.length_parts {a b : GrantFields} (h : a.terms.version = b.terms.version) :
    a.parts.length = b.parts.length := by
  have hlength (grant : GrantFields) : grant.parts.length =
      match grant.terms.version with | .v1 => 3 | .v2 => 4 | .privateV1 => 5 := by
    cases grant with
    | mk target referer terms => cases terms <;> rfl
  rw [hlength, hlength, h]

theorem GrantTerms.eq_of_parts {a b : GrantTerms} (hversion : a.version = b.version)
    (h : (a.expiresAt.map fun expiresAt => utf8Bytes (decimalText expiresAt)).toList ++
      (a.binding.map fun binding => utf8Bytes binding.text).toList =
        (b.expiresAt.map fun expiresAt => utf8Bytes (decimalText expiresAt)).toList ++
          (b.binding.map fun binding => utf8Bytes binding.text).toList) : a = b := by
  cases a with
  | legacy =>
    cases b with
    | legacy => rfl
    | expiring _ => cases hversion
    | privateTo _ _ => cases hversion
  | expiring expiresAt =>
    cases b with
    | legacy => cases hversion
    | expiring expiresAt' =>
      have hdecimal := List.cons_eq_cons.mp h
      rw [decimal_injective (utf8Bytes_injective hdecimal.1)]
    | privateTo _ _ => cases hversion
  | privateTo expiresAt binding =>
    cases b with
    | legacy => cases hversion
    | expiring _ => cases hversion
    | privateTo expiresAt' binding' =>
      have hdecimal := List.cons_eq_cons.mp h
      have hbinding := List.cons_eq_cons.mp hdecimal.2
      rw [decimal_injective (utf8Bytes_injective hdecimal.1),
        PrivateSessionBinding.text_injective (utf8Bytes_injective hbinding.1)]

/-- A message gives the fields of a clean grant back, whoever else may have made it. -/
theorem GrantFields.eq_of_message_eq {a b : GrantFields} (hclean : b.Clean)
    (h : a.message = b.message) : a = b := by
  have hversion := version_eq_of_message_eq h
  rw [message_eq_join, message_eq_join] at h
  have hparts := join_injective_of_length (List.cons_ne_nil _ _) hclean (length_parts hversion) h
  simp only [GrantFields.parts, List.cons.injEq] at hparts
  obtain ⟨-, htarget, hreferer, hterms⟩ := hparts
  cases a
  cases b
  rw [GrantFields.mk.injEq]
  exact ⟨utf8Bytes_injective htarget, utf8Bytes_injective hreferer,
    GrantTerms.eq_of_parts hversion hterms⟩

variable {libs : Libraries}

/-- The grants of one mint differ in their terms at most. -/
theorem Mint.grant_eq (mint : Mint libs) {grant : GrantFields} (h : grant ∈ mint.grants) :
    ∃ terms, grant = ⟨libs.urls.asStr mint.target,
      (mint.referer.bind (normalizeHlsReferer libs)).getD [], terms⟩ := by
  rw [Mint.grants, List.mem_cons] at h
  cases h with
  | inl hcurrent => exact ⟨_, hcurrent⟩
  | inr hlegacy =>
    split at hlegacy
    · exact ⟨_, List.mem_singleton.mp hlegacy⟩
    · cases hlegacy

theorem Mint.clean (mint : Mint libs) {grant : GrantFields} (h : grant ∈ mint.grants) :
    grant.Clean := by
  have hreferer : ∀ c ∈ (mint.referer.bind (normalizeHlsReferer libs)).getD [],
      Urls.isPrintable c = true := by
    cases hr : mint.referer.bind (normalizeHlsReferer libs) with
    | none => exact fun c hc => absurd hc List.not_mem_nil
    | some referer =>
      obtain ⟨value, -, hvalue⟩ := Option.bind_eq_some_iff.mp hr
      obtain ⟨url, rfl, -⟩ := normalizeHlsReferer_eq_some hvalue
      exact libs.urls.asStr_printable url
  obtain ⟨terms, rfl⟩ := mint.grant_eq h
  exact GrantFields.clean_of_printable (libs.urls.asStr_printable mint.target) hreferer

/-- The signatures of a minted URL are the tags of its grants. -/
theorem Mint.signs (mint : Mint libs) :
    (signaturePairs libs (libs.urls.asStr mint.target)
      (mint.referer.bind (normalizeHlsReferer libs)) mint.context mint.emitLegacySignature).map
        Prod.snd = mint.grants.reverse.map fun grant =>
          Base64Url.encode (libs.mac (utf8Bytes mint.context.secret) grant.message) := by
  cases hb : mint.context.privateSessionBinding <;> cases he : mint.emitLegacySignature <;>
    simp only [signaturePairs, Mint.grants, hb, he, currentSignature] <;> rfl

/-- A message of a live stream URL that was signed is a minted grant's. -/
theorem History.granted_of_signed {history : History libs} {secret : Text} {grant : GrantFields}
    (h : history.Signed (utf8Bytes secret) grant.message) :
    history.Granted secret grant ∧ grant.Clean := by
  rcases h with ⟨secret', minted, hgranted, hsecret, hmessage⟩ | ⟨other, -, -, hmessage⟩
  · obtain ⟨mint, hmint, hctx, hblank, hmem⟩ := hgranted
    have hclean := mint.clean hmem
    have heq := GrantFields.eq_of_message_eq hclean hmessage
    rw [utf8Bytes_injective hsecret, heq]
    exact ⟨⟨mint, hmint, hctx, hblank, hmem⟩, hclean⟩
  · obtain ⟨rest, hrest⟩ := grant.message_eq_cons
    rw [hrest] at hmessage
    exact absurd (context_eq_of_append_eq (zero_not_mem_context _)
      (zero_not_mem_otherContext other.use) hmessage) (context_ne_otherContext _ _)

theorem inForce_of_saturate {seconds nowSeconds : Int} (hnow : i64Min ≤ nowSeconds ∧ nowSeconds ≤ i64Max)
    (h : saturate (nowSeconds - liveHlsSignatureClockSkewSeconds) ≤ seconds ∧
      seconds ≤ saturate (nowSeconds +
        (liveHlsSignatureMaxTtlSeconds + liveHlsSignatureClockSkewSeconds))) :
    InForce seconds nowSeconds := by
  simp only [saturate, i64Min, i64Max, liveHlsSignatureClockSkewSeconds,
    liveHlsSignatureMaxTtlSeconds] at hnow h
  simp only [InForce, liveHlsSignatureClockSkewSeconds, liveHlsSignatureMaxTtlSeconds]
  omega

theorem parseLiveHlsSignatureExpiry_inForce {value : Text} {nowSeconds expiresAt : Int}
    (hnow : i64Min ≤ nowSeconds ∧ nowSeconds ≤ i64Max)
    (h : parseLiveHlsSignatureExpiry value nowSeconds = some expiresAt) :
    InForce expiresAt nowSeconds := by
  unfold parseLiveHlsSignatureExpiry at h
  split at h
  · cases h
  · exact inForce_of_saturate hnow (of_decide_eq_true (Option.filter_eq_some_iff.mp h).2)

theorem legacyAllowed_inForce {deadline : Option Int} {nowSeconds : Int}
    (hnow : i64Min ≤ nowSeconds ∧ nowSeconds ≤ i64Max)
    (h : liveHlsLegacySignatureIsTemporarilyAllowed deadline nowSeconds = true) :
    ∃ seconds, deadline = some seconds ∧ InForce seconds nowSeconds := by
  cases deadline with
  | none => cases h
  | some seconds => exact ⟨seconds, rfl, inForce_of_saturate hnow (of_decide_eq_true h)⟩

theorem verify_eq_true {context input : Text} {referer : Option Text} {expiresAt : Option Int}
    {binding : Option Text} {signature secret : Text}
    (h : verifyLiveHlsProxyUrlSignatureWithContext libs context input referer expiresAt binding
      signature secret = true) :
    Base64Url.decode (trim signature) = some (libs.mac (utf8Bytes secret)
      (signedMessage context input referer expiresAt binding)) := by
  unfold verifyLiveHlsProxyUrlSignatureWithContext at h
  split at h
  · cases h
  · next bytes hbytes => rw [hbytes, beq_iff_eq.mp h]

section origin
variable {input : Text} {referer : Option Text} {params : Params} {secret : Text} {nowSeconds : Int}
variable {legacyAcceptUntil result : Option Int}

/-- The origin's check passes on a presented tag of the message of what it admits. -/
theorem authorizeWithBinding_eq_some {binding : Option PrivateSessionBinding}
    (hnow : i64Min ≤ nowSeconds ∧ nowSeconds ≤ i64Max)
    (h : authorizeWithBinding libs input referer params binding secret nowSeconds
      legacyAcceptUntil = some result) :
    (∃ signature ∈ [liveHlsSignatureV2Param, liveHlsSignatureParam].filterMap params,
      Base64Url.decode (trim signature) = some (libs.mac (utf8Bytes secret)
        (GrantFields.message ⟨input, referer.getD [], .ofParts result binding⟩))) ∧
      (GrantTerms.ofParts result binding).Current legacyAcceptUntil nowSeconds := by
  have hpresented {signature : Text}
      (hs : (params liveHlsSignatureV2Param).or (params liveHlsSignatureParam) = some signature) :
      signature ∈ [liveHlsSignatureV2Param, liveHlsSignatureParam].filterMap params := by
    rw [List.mem_filterMap]
    rcases Option.or_eq_some_iff.mp hs with hv2 | ⟨-, hv1⟩
    · exact ⟨_, by simp, hv2⟩
    · exact ⟨_, by simp, hv1⟩
  unfold authorizeWithBinding at h
  split at h
  · next expiry _ =>
    obtain ⟨expiresAt, hexpires, h⟩ := Option.bind_eq_some_iff.mp h
    obtain ⟨signature, hsignature, h⟩ := Option.bind_eq_some_iff.mp h
    have hforce := parseLiveHlsSignatureExpiry_inForce hnow hexpires
    obtain ⟨hvalid, hresult⟩ := Option.ite_none_right_eq_some.mp h
    rw [← Option.some.inj hresult]
    cases binding with
    | none =>
      exact ⟨⟨signature, hpresented hsignature, verify_eq_true hvalid⟩, expiresAt, rfl, hforce⟩
    | some binding =>
      exact ⟨⟨signature, hpresented hsignature, verify_eq_true hvalid⟩, expiresAt, rfl, hforce⟩
  · split at h
    · cases h
    · split at h
      · cases h
      · next hallowed =>
        obtain ⟨signature, hsignature, h⟩ := Option.bind_eq_some_iff.mp h
        obtain ⟨hvalid, hresult⟩ := Option.ite_none_right_eq_some.mp h
        rw [← Option.some.inj hresult]
        have hmem : signature ∈
            [liveHlsSignatureV2Param, liveHlsSignatureParam].filterMap params :=
          List.mem_filterMap.mpr ⟨_, by simp, hsignature⟩
        obtain ⟨seconds, hdeadline, hforce⟩ := legacyAllowed_inForce hnow (by simpa using hallowed)
        exact ⟨⟨signature, hmem, verify_eq_true hvalid⟩, seconds, hdeadline, hforce⟩

theorem authorize_eq_some (hnow : i64Min ≤ nowSeconds ∧ nowSeconds ≤ i64Max)
    (h : authorizeLiveHlsProxySignature libs input referer params secret nowSeconds
      legacyAcceptUntil = some result) {binding : Option PrivateSessionBinding}
    (hbinding : (params liveHlsPrivateSessionParam).bind toPrivateSessionBinding = binding) :
    (∃ signature ∈ [liveHlsSignatureV2Param, liveHlsSignatureParam].filterMap params,
      Base64Url.decode (trim signature) = some (libs.mac (utf8Bytes secret)
        (GrantFields.message ⟨input, referer.getD [], .ofParts result binding⟩))) ∧
      (GrantTerms.ofParts result binding).Current legacyAcceptUntil nowSeconds := by
  unfold authorizeLiveHlsProxySignature at h
  split at h
  · cases h
  · have hjoin : ((params liveHlsPrivateSessionParam).map toPrivateSessionBinding).join =
        (params liveHlsPrivateSessionParam).bind toPrivateSessionBinding := by
      cases params liveHlsPrivateSessionParam <;> rfl
    rw [hjoin, hbinding] at h
    exact authorizeWithBinding_eq_some hnow h

/-- A trusted request's terms come from the signature check on its own query. -/
theorem liveHlsRequestInput_trusted {uri : Uri} {cookieHeader : Option Text}
    {requestUrl : libs.urls.Url} {request : LiveHlsRequest libs.urls}
    (h : liveHlsRequestInput libs secret cookieHeader requestUrl uri nowSeconds legacyAcceptUntil =
      .ok request) (htrusted : request.trustedExternalEmbed = true) :
    (queryPairs libs (uri.query.getD []) liveHlsPrivateSessionParam).bind toPrivateSessionBinding =
      request.privateSessionBinding ∧
    authorizeLiveHlsProxySignature libs (libs.urls.asStr request.sourceUrl) request.referer
      (queryPairs libs (uri.query.getD [])) secret nowSeconds legacyAcceptUntil =
        some request.signatureExpiresAt := by
  have hauth {sourceUrl : libs.urls.Url} {referer : Option Text} {params : Params}
      (ht : (trustedExternalEmbedHlsExpiry libs sourceUrl referer params secret nowSeconds
        legacyAcceptUntil).isSome = true) :
      authorizeLiveHlsProxySignature libs (libs.urls.asStr sourceUrl) referer params secret nowSeconds
        legacyAcceptUntil = some (trustedExternalEmbedHlsExpiry libs sourceUrl referer params secret
          nowSeconds legacyAcceptUntil).join := by
    obtain ⟨result, hresult⟩ := Option.isSome_iff_exists.mp ht
    rw [hresult]
    unfold trustedExternalEmbedHlsExpiry at hresult
    split at hresult
    · cases hresult
    · split at hresult
      · cases hresult
      · rw [hresult]; rfl
  unfold liveHlsRequestInput at h
  dsimp only at h
  split at h
  · cases h
  · split at h
    · cases h
    · split at h
      · next binding hprivate =>
        split at h
        · next checked hchecked =>
          split at h
          · split at h
            · cases h
            · obtain rfl := Except.ok.inj h
              exact ⟨by rw [hprivate]; exact hchecked, hauth htrusted⟩
          · cases h
        · cases h
      · next hprivate =>
        split at h
        · cases h
        · obtain rfl := Except.ok.inj h
          exact ⟨by rw [hprivate]; rfl, hauth htrusted⟩

/-- The middleware's answer is the signature check's on the raw input of a public query. -/
theorem isSigned_eq_true {uri : Uri} :
    isSignedLiveHlsRequest libs secret uri nowSeconds legacyAcceptUntil = true →
      queryPairs libs (uri.query.getD []) liveHlsPrivateSessionParam = none ∧
      ∃ input result, queryPairs libs (uri.query.getD []) "input".toList = some input ∧
        authorizeLiveHlsProxySignature libs input
          ((queryPairs libs (uri.query.getD []) "referer".toList).bind (normalizeHlsReferer libs))
          (queryPairs libs (uri.query.getD [])) secret nowSeconds legacyAcceptUntil =
            some result := by
  intro h
  unfold isSignedLiveHlsRequest at h
  dsimp only at h
  split at h
  · cases h
  · split at h
    · cases h
    · split at h
      · cases h
      · split at h
        · cases h
        · next hprivate =>
          split at h
          · cases h
          · next input hinput =>
            obtain ⟨result, hresult⟩ := Option.isSome_iff_exists.mp h
            exact ⟨by simpa using hprivate, input, result, hinput, hresult⟩

end origin

/-- What the middleware lets through it lets through for some grant. -/
theorem exists_admitted_of_isSigned {uri : Uri} {deployment : Deployment} {nowSeconds : Int}
    (h : isSignedLiveHlsRequest libs deployment.secret uri nowSeconds deployment.legacyAcceptUntil =
      true) : ∃ grant, Admitted libs deployment nowSeconds (.middleware uri) grant := by
  obtain ⟨-, input, result, hinput, hresult⟩ := isSigned_eq_true h
  exact ⟨_, .middleware h hinput hresult⟩

theorem withinWindow_inForce {seconds nowSeconds : Int}
    (h : Worker.withinWindow seconds nowSeconds = true) : InForce seconds nowSeconds := by
  have hbounds := of_decide_eq_true h
  rw [add_assoc] at hbounds
  exact hbounds

theorem verifySignature_eq_true {secret input referer signature context : Text}
    {expires : Option Int}
    (h : Worker.verifySignature libs secret input referer expires signature context = true) :
    Worker.base64UrlDecodeToBytes signature = some (libs.mac (utf8Bytes secret)
      (signedMessage context input (some referer) expires none)) := by
  unfold Worker.verifySignature at h
  split at h
  · cases h
  · next provided hprovided =>
    rw [hprovided, ← beq_iff_eq.mp h, ← Worker.signatureMessage_eq]
    rfl

theorem truthy_eq_some {value : Option Text} {text : Text} (h : Worker.truthy value = some text) :
    value = some text := (Option.filter_eq_some_iff.mp h).1

/-- The worker's check passes on a presented tag of the message of what it admits. -/
theorem authorizeSignature_eq_ok {query input referer secret : Text} {env : Worker.Env}
    {nowSeconds : Int} {expiresAt : Option Int}
    (h : Worker.authorizeSignature libs query input referer secret env nowSeconds = .ok expiresAt) :
    (∃ signature ∈ [liveHlsSignatureV2Param, liveHlsSignatureParam].filterMap
        (Worker.searchParam libs query),
      Worker.base64UrlDecodeToBytes signature = some (libs.mac (utf8Bytes secret)
        (GrantFields.message ⟨input, referer, .ofParts expiresAt none⟩))) ∧
      (GrantTerms.ofParts expiresAt none).Current
        (env.liveHlsLegacySignatureAcceptUntil.bind Worker.safeInteger) nowSeconds := by
  unfold Worker.authorizeSignature at h
  split at h
  · split at h
    · cases h
    · next signature hsignature =>
      split at h
      · cases h
      · next hallowed =>
        split at h
        · next hvalid =>
          obtain rfl := Except.ok.inj h
          have hmem : signature ∈ [liveHlsSignatureV2Param, liveHlsSignatureParam].filterMap
              (Worker.searchParam libs query) :=
            List.mem_filterMap.mpr ⟨liveHlsSignatureParam, by simp, truthy_eq_some hsignature⟩
          refine ⟨⟨signature, hmem, verifySignature_eq_true hvalid⟩, ?_⟩
          have hdeadline : (env.liveHlsLegacySignatureAcceptUntil.bind Worker.safeInteger).any
              (fun deadline => Worker.withinWindow deadline nowSeconds) = true := by
            rwa [Bool.not_eq_true', Bool.not_eq_false] at hallowed
          cases hd : env.liveHlsLegacySignatureAcceptUntil.bind Worker.safeInteger with
          | none => rw [hd] at hdeadline; cases hdeadline
          | some deadline =>
            rw [hd] at hdeadline
            exact ⟨deadline, rfl, withinWindow_inForce hdeadline⟩
        · cases h
  · split at h
    · cases h
    · next seconds hexpiry =>
      split at h
      · cases h
      · next signature hsignature =>
        split at h
        · next hvalid =>
          obtain rfl := Except.ok.inj h
          have hmem : signature ∈ [liveHlsSignatureV2Param, liveHlsSignatureParam].filterMap
              (Worker.searchParam libs query) := by
            rw [List.mem_filterMap]
            rcases Option.or_eq_some_iff.mp hsignature with hv2 | ⟨-, hv1⟩
            · exact ⟨liveHlsSignatureV2Param, by simp, truthy_eq_some hv2⟩
            · exact ⟨liveHlsSignatureParam, by simp, truthy_eq_some hv1⟩
          exact ⟨⟨signature, hmem, verifySignature_eq_true hvalid⟩, seconds, rfl,
            withinWindow_inForce (Option.filter_eq_some_iff.mp hexpiry).2⟩
        · cases h

/-- A verified message under an honest tag was signed, so its grant was minted. -/
theorem granted_of_honest {history : History libs} {secret : Text} {grant : GrantFields} {tag : Bytes}
    (hhonest : Mac.Honest libs.mac history.Signed tag)
    (htag : libs.mac (utf8Bytes secret) grant.message = tag) :
    history.Granted secret grant ∧
      ∀ other : GrantFields, other.message = grant.message → other = grant := by
  obtain ⟨hgranted, hclean⟩ := History.granted_of_signed (hhonest _ _ htag)
  exact ⟨hgranted, fun other hmessage => GrantFields.eq_of_message_eq hclean hmessage⟩

/-- A request admitted with honest tags has a mint behind it with the same target, referer,
expiry and binding, within its window, and no other grant has its message. -/
theorem grants_unforgeable {history : History libs} {deployment : Deployment} {nowSeconds : Int}
    {request : Request libs} {grant : GrantFields}
    (hnow : i64Min ≤ nowSeconds ∧ nowSeconds ≤ i64Max)
    (hhonest : ∀ tag ∈ presentedTags libs request, Mac.Honest libs.mac history.Signed tag)
    (hadmitted : Admitted libs deployment nowSeconds request grant) :
    history.Granted deployment.secret grant ∧
      grant.terms.Current (request.deadline deployment) nowSeconds ∧
        ∀ other : GrantFields, other.message = grant.message → other = grant := by
  cases hadmitted with
  | @middleware uri input result signed hasInput authorized =>
    have hprivate : (queryPairs libs (uri.query.getD []) liveHlsPrivateSessionParam).bind
        toPrivateSessionBinding = none := by
      rw [(isSigned_eq_true signed).1]
      rfl
    obtain ⟨⟨signature, hmem, htag⟩, hcurrent⟩ := authorize_eq_some hnow authorized hprivate
    have hpresented : _ ∈ presentedTags libs (.middleware uri) :=
      List.mem_filterMap.mpr ⟨signature, hmem, htag⟩
    obtain ⟨hgranted, hunique⟩ := granted_of_honest (hhonest _ hpresented) rfl
    exact ⟨hgranted, hcurrent, hunique⟩
  | @handler uri cookieHeader requestUrl request accepted trusted =>
    obtain ⟨hbinding, authorized⟩ := liveHlsRequestInput_trusted accepted trusted
    obtain ⟨⟨signature, hmem, htag⟩, hcurrent⟩ := authorize_eq_some hnow authorized hbinding
    have hpresented : _ ∈ presentedTags libs (.handler uri cookieHeader requestUrl) :=
      List.mem_filterMap.mpr ⟨signature, hmem, htag⟩
    obtain ⟨hgranted, hunique⟩ := granted_of_honest (hhonest _ hpresented) rfl
    exact ⟨hgranted, hcurrent, hunique⟩
  | @worker url accepted authorized =>
    obtain ⟨input, hparse, hsignature⟩ := Worker.authorizeSignedRequest_eq_ok authorized
    obtain ⟨⟨signature, hmem, htag⟩, hcurrent⟩ := authorizeSignature_eq_ok hsignature
    have hpresented : _ ∈ presentedTags libs (.worker url) :=
      List.mem_filterMap.mpr ⟨signature, hmem, htag⟩
    obtain ⟨hgranted, hunique⟩ := granted_of_honest (hhonest _ hpresented) rfl
    -- the worker signs the text it parses, and a minted text is what its parse serializes to
    have hinput : input = libs.urls.asStr accepted.target := by
      obtain ⟨mint, -, -, -, hgrant⟩ := hgranted
      obtain ⟨terms, hfields⟩ := mint.grant_eq hgrant
      have htarget : input = libs.urls.asStr mint.target := congrArg GrantFields.target hfields
      rw [htarget, libs.urls.parse_asStr] at hparse
      rw [htarget, Option.some.inj hparse]
    rw [hinput] at hgranted hunique
    exact ⟨hgranted, hcurrent, hunique⟩

/-- A code that signs one message as it did and no other. -/
def signingOnce (libs : Libraries) (signedKey signed : Bytes) : Libraries where
  urls := libs.urls
  mac key message := if key = signedKey ∧ message = signed then libs.mac key message else [0]
  mac_ne_nil key message := by
    split
    · exact libs.mac_ne_nil key message
    · exact List.cons_ne_nil _ _
  utf8Lossy := libs.utf8Lossy
  utf8Lossy_utf8Bytes := libs.utf8Lossy_utf8Bytes

theorem signingOnce_mac (libs : Libraries) (key message : Bytes) :
    (signingOnce libs key message).mac key message = libs.mac key message := if_pos ⟨rfl, rfl⟩

theorem signingOnce_honest {signedKey message key other : Bytes}
    (hlen : (libs.mac signedKey message).length ≠ 1)
    (h : (signingOnce libs signedKey message).mac key other = libs.mac signedKey message) :
    key = signedKey ∧ other = message := by
  by_contra hother
  have hone : (signingOnce libs signedKey message).mac key other = [0] := if_neg hother
  rw [← h, hone] at hlen
  exact hlen rfl

theorem currentSignature_public {input : Text} {referer : Option Text}
    {context : LiveHlsSigningContext} (h : context.privateSessionBinding = none) :
    currentSignature libs input referer context = Base64Url.encode (libs.mac (utf8Bytes context.secret)
      (GrantFields.message ⟨input, referer.getD [], .expiring context.expiresAt⟩)) := by
  rw [currentSignature, h]
  rfl

/-- The only tag on a public URL is the one of its grant. -/
theorem eq_of_mem_presentedTags {input hostname : Text} {referer : Option Text}
    {context : LiveHlsSigningContext} (hpublic : context.privateSessionBinding = none) {tag : Bytes}
    (h : tag ∈ presentedTags libs (.worker ⟨hostname,
      serialize (mintedPairs libs input referer context false)⟩)) :
    tag = libs.mac (utf8Bytes context.secret)
      (GrantFields.message ⟨input, referer.getD [], .expiring context.expiresAt⟩) := by
  have hsearch (name : Text) : Worker.searchParam libs (serialize (mintedPairs libs input referer
      context false)) name = (mintedPairs libs input referer context false).lookup name := by
    rw [Worker.searchParam, parse_serialize libs.utf8Lossy_utf8Bytes]
  have hv2 : (mintedPairs libs input referer context false).lookup liveHlsSignatureV2Param = none := by
    cases referer <;> rw [mintedPairs, signaturePairs, hpublic] <;> rfl
  have hv1 : (mintedPairs libs input referer context false).lookup liveHlsSignatureParam =
      some (currentSignature libs input referer context) := by
    cases referer <;> rw [mintedPairs, signaturePairs, hpublic] <;> rfl
  simpa only [presentedTags, List.filterMap_cons, List.filterMap_nil, hsearch, hv2, hv1,
    currentSignature_public hpublic, base64UrlDecodeToBytes_encode, List.mem_singleton] using h

/-- The worker admits a public minted URL for its grant. -/
theorem admitted_minted {target hostname : Text} {referer : Option Text}
    {context : LiveHlsSigningContext} {url : libs.urls.Url} {nowSeconds : Int}
    (h : Grantable libs target referer context url) (hpublic : context.privateSessionBinding = none)
    (hsafe : context.expiresAt ≤ Worker.maxSafeInteger) (hforce : InForce context.expiresAt nowSeconds)
    (hrecursive : Worker.isRecursiveTarget libs url hostname = false) :
    Admitted libs ⟨context.secret, none, none⟩ nowSeconds
      (.worker ⟨hostname, serialize (mintedPairs libs (libs.urls.asStr url)
        (referer.bind (normalizeHlsReferer libs)) context false)⟩)
      ⟨libs.urls.asStr url, (referer.bind (normalizeHlsReferer libs)).getD [],
        .expiring context.expiresAt⟩ := by
  have hverifies := h.verifies (Or.inl rfl) false false hforce none
  have haccepted := hverifies.worker hpublic hsafe hostname none hrecursive
  rw [uri_ofText (by decide), vodPairs, if_neg Bool.false_ne_true, List.append_nil,
    Option.getD_some] at haccepted
  exact @Admitted.worker libs ⟨context.secret, none, none⟩ nowSeconds _ _ haccepted

def cdnContext : LiveHlsSigningContext := ⟨"secret".toList, 1800000000, none⟩

def cdnGrant (libs : Libraries) (url : libs.urls.Url) : GrantFields :=
  ⟨libs.urls.asStr url, [], .expiring cdnContext.expiresAt⟩

def cdnLibraries : Libraries :=
  signingOnce plainLibraries (utf8Bytes cdnContext.secret) (cdnGrant plainLibraries cdnUrl).message

theorem grants_unforgeable_cdn :
    let history : History cdnLibraries := ⟨[⟨cdnUrl, none, cdnContext, false⟩], []⟩
    let grant := cdnGrant cdnLibraries cdnUrl
    history.Granted cdnContext.secret grant ∧ grant.terms.Current none 1799990000 ∧
      ∀ other : GrantFields, other.message = grant.message → other = grant := by
  intro history grant
  have hgranted : history.Granted cdnContext.secret grant :=
    ⟨_, List.mem_singleton.mpr rfl, rfl, by decide, List.mem_singleton.mpr rfl⟩
  have hgrant : Grantable cdnLibraries cdnUrl.1 none cdnContext cdnUrl :=
    { secret := by decide
      target := by decide +kernel
      isPublic := by decide +kernel
      referer := fun normalized hn => by cases hn
      expiry := by decide }
  have hadmitted := admitted_minted hgrant rfl (by decide) (show InForce _ 1799990000 by decide)
    (show Worker.isRecursiveTarget cdnLibraries cdnUrl "proxy.example.net".toList = false by
      decide +kernel)
  refine grants_unforgeable (by decide) ?_ hadmitted
  intro tag htag key message hmac
  rw [eq_of_mem_presentedTags rfl htag] at hmac
  have hlen : (plainLibraries.mac (utf8Bytes cdnContext.secret)
      (cdnGrant plainLibraries cdnUrl).message).length ≠ 1 := by
    rw [show plainLibraries.mac = Mac.hmacSha256 from rfl, Mac.length_hmacSha256]
    decide
  exact Or.inl ⟨_, _, hgranted, signingOnce_honest hlen (hmac.trans (signingOnce_mac _ _ _))⟩

/-- A query without its expiry. -/
def withoutExpiry (pairs : List (Text × Text)) : List (Text × Text) :=
  pairs.filter fun pair => pair.1 != liveHlsSignatureExpiryParam

theorem queryPairs_withoutExpiry {pairs : List (Text × Text)} (h : (pairs.map Prod.fst).Nodup)
    (name : Text) :
    queryPairs libs (serialize (withoutExpiry pairs)) name =
      if name == liveHlsSignatureExpiryParam then none else queryPairs libs (serialize pairs) name := by
  have hfilter : ((withoutExpiry pairs).map Prod.fst).Nodup :=
    h.sublist (List.Sublist.map Prod.fst List.filter_sublist)
  simp only [queryPairs, parse_serialize libs.utf8Lossy_utf8Bytes]
  rw [KeyedTable.lookup_reverse hfilter, KeyedTable.lookup_reverse h]
  exact KeyedTable.lookup_filter_ne pairs liveHlsSignatureExpiryParam name

/-- During the rollout a public grant minted with an old signature is admitted without its
expiry, however long that has passed. -/
theorem legacy_signature_outlives_expiry {url : libs.urls.Url} {context : LiveHlsSigningContext}
    {nowSeconds : Int} {legacyAcceptUntil : Option Int} (hsecret : trim context.secret ≠ [])
    (hpublic : context.privateSessionBinding = none)
    (hallowed : liveHlsLegacySignatureIsTemporarilyAllowed legacyAcceptUntil nowSeconds = true) :
    isSignedLiveHlsRequest libs context.secret ⟨"/api/live/hls.m3u8".toList,
      some (serialize (withoutExpiry (mintedPairs libs (libs.urls.asStr url) none context true)))⟩
      nowSeconds legacyAcceptUntil = true := by
  have hpairs : ((mintedPairs libs (libs.urls.asStr url) none context true ++ vodPairs false).map
      Prod.fst).Nodup := mintedPairs_nodup
  have hnodup : ((mintedPairs libs (libs.urls.asStr url) none context true).map Prod.fst).Nodup := by
    rwa [vodPairs, if_neg Bool.false_ne_true, List.append_nil] at hpairs
  have hlookup (name : Text) : queryPairs libs (serialize (withoutExpiry (mintedPairs libs
      (libs.urls.asStr url) none context true))) name =
        if name == liveHlsSignatureExpiryParam then none
        else (mintedPairs libs (libs.urls.asStr url) none context true).lookup name := by
    rw [queryPairs_withoutExpiry hnodup, queryPairs, parse_serialize libs.utf8Lossy_utf8Bytes,
      KeyedTable.lookup_reverse hnodup]
  generalize serialize (withoutExpiry (mintedPairs libs (libs.urls.asStr url) none context true)) =
    query at hlookup
  have hexpiry : queryPairs libs query liveHlsSignatureExpiryParam = none := hlookup _
  have hprivate : queryPairs libs query liveHlsPrivateSessionParam = none := by
    rw [hlookup, mintedPairs, signaturePairs, hpublic]
    rfl
  have hembed : queryPairs libs query liveHlsExternalEmbedParam = some ['1'] := hlookup _
  have hinput : queryPairs libs query "input".toList = some (libs.urls.asStr url) := hlookup _
  have hreferer : queryPairs libs query "referer".toList = none := by
    rw [hlookup, mintedPairs, signaturePairs, hpublic]
    rfl
  have hsignature : queryPairs libs query liveHlsSignatureParam =
      some (signLiveHlsProxyUrlV1 libs (libs.urls.asStr url) none context.secret) := by
    rw [hlookup, mintedPairs, signaturePairs, hpublic]
    rfl
  have hverify : verifyLiveHlsProxyUrlSignatureV1 libs (libs.urls.asStr url) none
      (signLiveHlsProxyUrlV1 libs (libs.urls.asStr url) none context.secret) context.secret = true :=
    verify_sign _ _ _ _ _ _
  have hblank : (trim context.secret).isEmpty = false := List.isEmpty_eq_false_iff.mpr hsecret
  rw [isSignedLiveHlsRequest, if_neg fun h => h.1 rfl, hblank, if_neg Bool.false_ne_true]
  simp only [Option.getD_some, hembed, hprivate, hinput, hreferer, authorizeLiveHlsProxySignature,
    authorizeWithBinding, hexpiry, hallowed, hsignature, hverify, Option.map_none, Option.join_none,
    Option.bind_none, Option.bind_some, Option.isSome_none, Option.isSome_some, Bool.not_true,
    Bool.false_eq_true, ne_eq, not_true_eq_false, ↓reduceIte]

/-- An hour after its expiry a minted URL is admitted once the expiry is taken out. -/
theorem expired_url_admitted :
    let path := "/api/live/hls.m3u8".toList
    let minted := mintedPairs plainLibraries (plainLibraries.urls.asStr cdnUrl) none cdnContext true
    liveHlsProxyUrlWithLegacyTransition plainLibraries path (plainLibraries.urls.asStr cdnUrl) none
        (some cdnContext) true = path ++ '?' :: serialize minted ∧
      ¬InForce cdnContext.expiresAt 1800003600 ∧
      isSignedLiveHlsRequest plainLibraries cdnContext.secret
        ⟨path, some (serialize (withoutExpiry minted))⟩ 1800003600 (some 1800007200) = true := by
  intro path minted
  have hurl : normalizeLiveHlsSignatureInput plainLibraries (plainLibraries.urls.asStr cdnUrl) =
      plainLibraries.urls.asStr cdnUrl := by
    apply normalizeLiveHlsSignatureInput_asStr
    rw [plainLibraries.urls.asStr_trimmed, plainLibraries.urls.parse_asStr]
  refine ⟨?_, by decide, legacy_signature_outlives_expiry (by decide) rfl (by decide)⟩
  rw [liveHlsProxyUrl_eq (by decide), hurl]
  rfl

end StreamArena.LiveHls
