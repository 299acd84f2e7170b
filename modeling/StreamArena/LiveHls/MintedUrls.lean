import StreamArena.LiveHls.Authorize
import StreamArena.LiveHls.Worker

/-! Mint, then verify: the query of a minted URL gives its grant back to the origin and to
the worker, and both admit it within the grant's window. -/
namespace StreamArena.LiveHls
open AsciiText Aead Decimal FormUrlencoded KeyedTable
variable {libs : Libraries}

/-- The pair a rewritten VOD resource carries besides its grant. -/
def vodPairs (vod : Bool) : List (Text × Text) := if vod then [("vod".toList, ['1'])] else []

/-- What the parameters of a request say of a grant. -/
structure CarriesGrant (libs : Libraries) (params : Params) (input : Text) (referer : Option Text)
    (context : LiveHlsSigningContext) : Prop where
  hasInput : params "input".toList = some input
  hasReferer : params "referer".toList = referer
  externalEmbed : params liveHlsExternalEmbedParam = some ['1']
  expires : params liveHlsSignatureExpiryParam = some (decimalText context.expiresAt)
  signature : (params liveHlsSignatureV2Param).or (params liveHlsSignatureParam) =
    some (currentSignature libs input referer context)
  signatureV2 : params liveHlsSignatureV2Param = none ∨
    params liveHlsSignatureV2Param = some (currentSignature libs input referer context)
  privateSession : params liveHlsPrivateSessionParam =
    context.privateSessionBinding.map PrivateSessionBinding.text
  directSeg : params "directSeg".toList = none

/-- The names of a minted query, by what the grant has. -/
def mintedNames (hasReferer isPrivate emitLegacySignature vod : Bool) : List Text :=
  "input".toList :: ((if hasReferer then ["referer".toList] else []) ++
    [liveHlsExternalEmbedParam, liveHlsSignatureExpiryParam, liveHlsSignatureParam] ++
    (if emitLegacySignature && !isPrivate then [liveHlsSignatureV2Param] else []) ++
    (if isPrivate then [liveHlsPrivateSessionParam] else []) ++
    (if vod then ["vod".toList] else []))

theorem mintedNames_nodup : ∀ hasReferer isPrivate emitLegacySignature vod : Bool,
    (mintedNames hasReferer isPrivate emitLegacySignature vod).Nodup := by decide

section grant
variable {input target : Text} {referer : Option Text} {context : LiveHlsSigningContext}
variable {emitLegacySignature vod : Bool} {url : libs.urls.Url}

theorem mintedPairs_names :
    (mintedPairs libs input referer context emitLegacySignature ++ vodPairs vod).map Prod.fst =
      mintedNames referer.isSome context.privateSessionBinding.isSome emitLegacySignature vod := by
  cases referer <;> cases hb : context.privateSessionBinding <;> cases emitLegacySignature <;>
    cases vod <;> simp only [mintedPairs, signaturePairs, vodPairs, hb] <;> rfl

theorem mintedPairs_nodup :
    ((mintedPairs libs input referer context emitLegacySignature ++ vodPairs vod).map
      Prod.fst).Nodup := by
  rw [mintedPairs_names]
  exact mintedNames_nodup _ _ _ _

theorem lookup_of_mem {name value : Text}
    (h : (name, value) ∈ mintedPairs libs input referer context emitLegacySignature) :
    (mintedPairs libs input referer context emitLegacySignature ++ vodPairs vod).lookup name = some value := by
  obtain ⟨before, after, heq⟩ := List.append_of_mem (List.mem_append_left (vodPairs vod) h)
  have hnodup := @mintedPairs_nodup libs input referer context emitLegacySignature vod
  rw [heq, List.map_append, List.map_cons, List.nodup_middle, List.nodup_cons] at hnodup
  refine List.lookup_eq_some_iff.mpr ⟨before, after, heq, fun pair hpair => ?_⟩
  rw [bne_iff_ne]
  intro hname
  exact hnodup.1 (List.mem_append_left _ (List.mem_map.mpr ⟨pair, hpair, hname.symm⟩))

theorem lookup_of_notMem {name : Text} (h : name ∉ mintedNames referer.isSome context.privateSessionBinding.isSome
    emitLegacySignature vod) :
    (mintedPairs libs input referer context emitLegacySignature ++ vodPairs vod).lookup name = none := by
  rw [List.lookup_eq_none_iff]
  intro pair hpair
  rw [bne_iff_ne]
  rintro rfl
  rw [← @mintedPairs_names libs input referer context emitLegacySignature vod] at h
  exact h (List.mem_map_of_mem hpair)

/-- The names that a query has only for what it carries. -/
theorem notMem_mintedNames (isPrivate emitLegacySignature vod : Bool) : ∀ hasReferer : Bool,
    "directSeg".toList ∉ mintedNames hasReferer isPrivate emitLegacySignature vod ∧
      "referer".toList ∉ mintedNames false isPrivate emitLegacySignature vod ∧
      liveHlsPrivateSessionParam ∉ mintedNames hasReferer false emitLegacySignature vod ∧
      liveHlsSignatureV2Param ∉ mintedNames hasReferer true emitLegacySignature vod ∧
      liveHlsSignatureV2Param ∉ mintedNames hasReferer isPrivate false vod := by
  revert isPrivate emitLegacySignature vod
  decide

theorem mem_signaturePairs (h : emitLegacySignature && context.privateSessionBinding.isNone) :
    (liveHlsSignatureV2Param, currentSignature libs input referer context) ∈
      mintedPairs libs input referer context emitLegacySignature := by
  simp [mintedPairs, signaturePairs, h]

theorem mem_signaturePairs_of_not (h : ¬ (emitLegacySignature && context.privateSessionBinding.isNone)) :
    (liveHlsSignatureParam, currentSignature libs input referer context) ∈
      mintedPairs libs input referer context emitLegacySignature := by
  simp [mintedPairs, signaturePairs, h]

theorem carriesGrant_lookup :
    CarriesGrant libs
      (fun name => (mintedPairs libs input referer context emitLegacySignature ++ vodPairs vod).lookup
        name) input referer context := by
  have hnames (hasReferer : Bool) :=
    notMem_mintedNames context.privateSessionBinding.isSome emitLegacySignature vod hasReferer
  -- the newest signature stands under its own name during the rollout, else under the old one
  have hsignature : (emitLegacySignature && context.privateSessionBinding.isNone) = true ∨
      (mintedPairs libs input referer context emitLegacySignature ++ vodPairs vod).lookup liveHlsSignatureV2Param = none := by
    cases hb : context.privateSessionBinding with
    | some binding =>
      refine .inr (lookup_of_notMem ?_)
      rw [hb]
      exact (notMem_mintedNames true emitLegacySignature vod referer.isSome).2.2.2.1
    | none =>
      cases emitLegacySignature with
      | true => exact .inl rfl
      | false => exact .inr (lookup_of_notMem (hnames referer.isSome).2.2.2.2)
  constructor
  · exact lookup_of_mem (by simp [mintedPairs])
  · cases referer with
    | none => exact lookup_of_notMem (hnames false).2.1
    | some referer => exact lookup_of_mem (by simp [mintedPairs])
  · exact lookup_of_mem (by simp [mintedPairs])
  · exact lookup_of_mem (by simp [mintedPairs])
  · rcases hsignature with hlegacy | hnone
    · rw [lookup_of_mem (mem_signaturePairs hlegacy)]
      rfl
    · by_cases hlegacy : (emitLegacySignature && context.privateSessionBinding.isNone) = true
      · rw [lookup_of_mem (mem_signaturePairs hlegacy)]
        rfl
      · rw [hnone, lookup_of_mem (mem_signaturePairs_of_not hlegacy)]
        rfl
  · rcases hsignature with hlegacy | hnone
    · exact .inr (lookup_of_mem (mem_signaturePairs hlegacy))
    · exact .inl hnone
  · cases hb : context.privateSessionBinding with
    | none =>
      refine lookup_of_notMem ?_
      rw [hb]
      exact (notMem_mintedNames false emitLegacySignature vod referer.isSome).2.2.1
    | some binding => exact lookup_of_mem (by simp [mintedPairs, hb])
  · exact lookup_of_notMem (hnames referer.isSome).1

/-- The origin reads the grant back, taking the last value of each name. -/
theorem carriesGrant_queryPairs :
    CarriesGrant libs
      (queryPairs libs (serialize (mintedPairs libs input referer context emitLegacySignature ++
        vodPairs vod))) input referer context := by
  have hlookup : queryPairs libs (serialize (mintedPairs libs input referer context
      emitLegacySignature ++ vodPairs vod)) = fun name =>
        (mintedPairs libs input referer context emitLegacySignature ++ vodPairs vod).lookup name := by
    funext name
    rw [queryPairs, parse_serialize libs.utf8Lossy_utf8Bytes, lookup_reverse mintedPairs_nodup]
  rw [hlookup]
  exact carriesGrant_lookup

/-- The worker reads the grant back, taking the first. -/
theorem carriesGrant_searchParam :
    CarriesGrant libs
      (Worker.searchParam libs (serialize (mintedPairs libs input referer context
        emitLegacySignature ++ vodPairs vod))) input referer context := by
  have hlookup : Worker.searchParam libs (serialize (mintedPairs libs input referer context
      emitLegacySignature ++ vodPairs vod)) = fun name =>
        (mintedPairs libs input referer context emitLegacySignature ++ vodPairs vod).lookup name := by
    funext name
    rw [Worker.searchParam, parse_serialize libs.utf8Lossy_utf8Bytes]
  rw [hlookup]
  exact carriesGrant_lookup

theorem uri_ofText {path query : Text} (h : '?' ∉ path) :
    Uri.ofText (path ++ '?' :: query) = ⟨path, some query⟩ := by
  rw [Uri.ofText, splitOnce_append h]

/-- A grant is in force from the longest lifetime before its expiry to the skew after it. -/
def InForce (expiresAt nowSeconds : Int) : Prop :=
  nowSeconds - liveHlsSignatureClockSkewSeconds ≤ expiresAt ∧
    expiresAt ≤ nowSeconds + (liveHlsSignatureMaxTtlSeconds + liveHlsSignatureClockSkewSeconds)

instance (expiresAt nowSeconds : Int) : Decidable (InForce expiresAt nowSeconds) :=
  inferInstanceAs (Decidable (_ ∧ _))

theorem parseLiveHlsSignatureExpiry_decimalText {expiresAt nowSeconds : Int} (h : 0 ≤ expiresAt)
    (hmax : expiresAt ≤ i64Max) (hforce : InForce expiresAt nowSeconds) :
    parseLiveHlsSignatureExpiry (decimalText expiresAt) nowSeconds = some expiresAt := by
  have hbounds : saturate (nowSeconds - liveHlsSignatureClockSkewSeconds) ≤ expiresAt ∧
      expiresAt ≤ saturate (nowSeconds +
        (liveHlsSignatureMaxTtlSeconds + liveHlsSignatureClockSkewSeconds)) := by
    simp only [InForce, liveHlsSignatureClockSkewSeconds, liveHlsSignatureMaxTtlSeconds] at hforce
    simp only [saturate, i64Min, i64Max, liveHlsSignatureClockSkewSeconds,
      liveHlsSignatureMaxTtlSeconds] at hmax ⊢
    omega
  rw [parseLiveHlsSignatureExpiry, isCanonical_decimalText h, parseI64_decimalText h hmax,
    Bool.not_true, if_neg Bool.false_ne_true, Option.filter_some_pos]
  exact decide_eq_true hbounds

/-- A signature verifies for what it was made for. -/
theorem verify_sign (context input : Text) (referer : Option Text) (expiresAt : Option Int)
    (binding : Option Text) (secret : Text) :
    verifyLiveHlsProxyUrlSignatureWithContext libs context input referer expiresAt binding
      (signLiveHlsProxyUrlWithContext libs context input referer expiresAt binding secret) secret =
        true := by
  simp [verifyLiveHlsProxyUrlSignatureWithContext, signLiveHlsProxyUrlWithContext,
    Base64Url.trim_encode, Base64Url.decode_encode]

theorem toPrivateSessionBinding_text (binding : PrivateSessionBinding) :
    toPrivateSessionBinding binding.text = some binding := by
  rw [toPrivateSessionBinding, dif_pos ⟨binding.length_eq, binding.alphabet⟩]

/-- The origin's signature check on the parameters of a grant in force. -/
theorem authorize_carriesGrant {params : Params} {nowSeconds : Int} {legacyAcceptUntil : Option Int}
    (hparams : CarriesGrant libs params input referer context) (h : 0 ≤ context.expiresAt)
    (hmax : context.expiresAt ≤ i64Max) (hforce : InForce context.expiresAt nowSeconds) :
    authorizeLiveHlsProxySignature libs input referer params context.secret nowSeconds
      legacyAcceptUntil = some (some context.expiresAt) := by
  cases hb : context.privateSessionBinding with
  | none =>
    have hsig : currentSignature libs input referer context =
        signLiveHlsProxyUrl libs input referer context.expiresAt context.secret := by
      rw [currentSignature, hb]
    simp [authorizeLiveHlsProxySignature, authorizeWithBinding, hparams.privateSession, hb,
      hparams.expires,
      parseLiveHlsSignatureExpiry_decimalText h hmax hforce, hparams.signature, hsig,
      verifyLiveHlsProxyUrlSignature, signLiveHlsProxyUrl, verify_sign]
  | some binding =>
    have hsig : currentSignature libs input referer context =
        signPrivateLiveHlsProxyUrl libs input referer context.expiresAt binding.text
          context.secret := by
      rw [currentSignature, hb]
    simp [authorizeLiveHlsProxySignature, authorizeWithBinding, hparams.privateSession, hb,
      hparams.expires,
      toPrivateSessionBinding_text, parseLiveHlsSignatureExpiry_decimalText h hmax hforce,
      hparams.signature, hsig, verifyPrivateLiveHlsProxyUrlSignature, signPrivateLiveHlsProxyUrl,
      verify_sign]

/-- The worker's decoder reads the signatures of the origin. -/
theorem base64UrlDecodeToBytes_encode (bytes : Bytes) :
    Worker.base64UrlDecodeToBytes (Base64Url.encode bytes) = some bytes := by
  have hrange : ∀ c ∈ Base64Url.encode bytes, 0x21 ≤ c.toNat ∧ c.toNat ≤ 0x7E := fun c hc =>
    Base64Url.toNat_of_isAlphabet (Base64Url.encode_alphabet bytes c hc)
  have htrim : Worker.jsTrim (Base64Url.encode bytes) = Base64Url.encode bytes := by
    refine trimWhile_eq_self fun c hc => ?_
    have hc := hrange c hc
    simp only [Worker.isJsWhitespace, isWhitespace, Bool.or_eq_false_iff, Bool.and_eq_false_iff,
      decide_eq_false_iff_not, beq_eq_false_iff_ne]
    omega
  have hlen : Worker.utf16Length ((Base64Url.encode bytes).map Base64Url.toStandard) =
      ((Base64Url.encode bytes).map Base64Url.toStandard).length := by
    have hone : ∀ c ∈ (Base64Url.encode bytes).map Base64Url.toStandard,
        (fun c : Char => if c.toNat < 0x10000 then 1 else 2) c = 1 := by
      intro c hc
      obtain ⟨d, hd, rfl⟩ := List.mem_map.mp hc
      have hd := hrange d hd
      have hsmall : (Base64Url.toStandard d).toNat ≤ 0x7E := by
        unfold Base64Url.toStandard
        split
        · decide
        · split
          · decide
          · exact hd.2
      have hbmp : (Base64Url.toStandard d).toNat < 0x10000 := by omega
      exact if_pos hbmp
    rw [Worker.utf16Length, List.map_congr_left hone, List.map_const', List.sum_replicate,
      smul_eq_mul, Nat.mul_one]
  rw [Worker.base64UrlDecodeToBytes, htrim, hlen]
  exact Base64Url.atob_encode bytes

theorem currentSignature_ne_nil : currentSignature libs input referer context ≠ [] := by
  have hne (message : Bytes) :
      Base64Url.encode (libs.mac (utf8Bytes context.secret) message) ≠ [] :=
    Base64Url.urlSafeNoPad.encode_ne_nil (libs.mac_ne_nil _ _)
  rw [currentSignature]
  split
  · exact hne _
  · exact hne _

theorem parseSignatureExpiry_decimalText {expiresAt nowSeconds : Int} (h : 0 ≤ expiresAt)
    (hsafe : expiresAt ≤ Worker.maxSafeInteger) (hforce : InForce expiresAt nowSeconds) :
    Worker.parseSignatureExpiry (decimalText expiresAt) nowSeconds = some expiresAt := by
  obtain ⟨n, rfl⟩ := Int.eq_ofNat_of_zero_le h
  have hle : n ≤ Worker.maxSafeInteger := Int.ofNat_le.mp hsafe
  have hvalue : Worker.safeInteger (decimalText n) = some (n : Int) := by
    rw [Worker.safeInteger, isCanonical_decimalText h, Bool.not_true,
      if_neg Bool.false_ne_true, decimalText_natCast, parseDigits_toDigits, Option.bind_some, if_pos hle]
  have hwindow : nowSeconds - Worker.signatureClockSkewSeconds ≤ (n : Int) ∧
      (n : Int) ≤ nowSeconds + Worker.signatureMaxTtlSeconds + Worker.signatureClockSkewSeconds := by
    rw [add_assoc]
    exact hforce
  rw [Worker.parseSignatureExpiry, hvalue, Option.filter_some_pos]
  exact decide_eq_true hwindow

/-- The worker's signature check on the query of a public grant in force. -/
theorem authorizeSignature_carriesGrant {query : Text} {env : Worker.Env} {nowSeconds : Int}
    (hparams : CarriesGrant libs (Worker.searchParam libs query) input referer context)
    (hpublic : context.privateSessionBinding = none) (h : 0 ≤ context.expiresAt)
    (hsafe : context.expiresAt ≤ Worker.maxSafeInteger)
    (hforce : InForce context.expiresAt nowSeconds) :
    Worker.authorizeSignature libs query input (referer.getD []) context.secret env nowSeconds =
      .ok (some context.expiresAt) := by
  have htruthy : (Worker.truthy (Worker.searchParam libs query "sigV2".toList)).or
      (Worker.truthy (Worker.searchParam libs query "sig".toList)) =
        some (currentSignature libs input referer context) := by
    have hpass : Worker.truthy (some (currentSignature libs input referer context)) =
        some (currentSignature libs input referer context) :=
      Option.filter_some_pos (by simp [currentSignature_ne_nil])
    have hor := hparams.signature
    cases hparams.signatureV2 with
    | inl hnone =>
      rw [hnone, Option.none_or] at hor
      rw [show Worker.searchParam libs query "sigV2".toList = none from hnone,
        show Worker.searchParam libs query "sig".toList = some _ from hor, hpass]
      rfl
    | inr hsome =>
      rw [show Worker.searchParam libs query "sigV2".toList = some _ from hsome, hpass]
      rfl
  have hexpires : Worker.searchParam libs query "expires".toList =
      some (decimalText context.expiresAt) := hparams.expires
  have hverify : Worker.verifySignature libs context.secret input (referer.getD [])
      (some context.expiresAt) (currentSignature libs input referer context)
      Worker.signatureContextV2 = true := by
    rw [currentSignature, hpublic, Worker.verifySignature]
    simp only [signLiveHlsProxyUrl, signLiveHlsProxyUrlWithContext, base64UrlDecodeToBytes_encode,
      Worker.signatureMessage_eq]
    exact beq_self_eq_true _
  simp only [Worker.authorizeSignature, hexpires, parseSignatureExpiry_decimalText h hsafe hforce,
    htruthy, hverify, ↓reduceIte]

/-- The worker's host policy admits what the origin's does. -/
theorem isPublicHlsProxyHostname_worker
    (hpublic : isPublicExternalEmbedHlsProxyUrl libs url = true) :
    Worker.isPublicHlsProxyHostname ((libs.urls.hostStr url).getD []) = true := by
  unfold isPublicExternalEmbedHlsProxyUrl at hpublic
  split at hpublic
  · cases hpublic
  · next hscheme =>
    have hhttps : libs.urls.scheme url = "https".toList := by simpa using hscheme
    cases hhost : libs.urls.hostStr url with
    | none => rw [hhost] at hpublic; cases hpublic
    | some host =>
      have hvisible := libs.urls.hostStr_printable url host hhost
      have hwhite : ∀ c ∈ host, isWhitespace c = false := fun c hc =>
        Urls.not_isWhitespace_of_isPrintable (hvisible c hc).1 (hvisible c hc).2
      have htrim : trim (toAsciiLowercase host) = toAsciiLowercase host := by
        rw [trim_toAsciiLowercase, trim_eq_self hwhite]
      have hjsTrim : Worker.jsTrim host = host := by
        refine trimWhile_eq_self fun c hc => ?_
        have hprint := (hvisible c hc).1
        simp only [Urls.isPrintable, Bool.and_eq_true, decide_eq_true_eq] at hprint
        have hmark : (c.toNat == 0xFEFF) = false := beq_false_of_ne (by omega)
        rw [Worker.isJsWhitespace, hwhite c hc, hmark]
        rfl
      rw [hhost, Option.map_some] at hpublic
      simp only [isPublicHlsProxyHostname, htrim, Urls.trimEndDots_toAsciiLowercase,
        toAsciiLowercase_idem] at hpublic
      rw [Option.getD_some, Worker.isPublicHlsProxyHostname, hjsTrim]
      -- the two policies differ in how they tell an address from a name
      have hquad : Urls.isIpv4Addr (toAsciiLowercase (Urls.trimEndDots host)) = false →
          Urls.isDottedQuad (toAsciiLowercase (Urls.trimEndDots host)) = false := by
        intro haddr
        rw [← Bool.not_eq_true]
        intro hdotted
        rw [libs.urls.hostStr_dottedQuad url host hhttps hhost hdotted] at haddr
        cases haddr
      split at hpublic
      · cases hpublic
      · next hname =>
        simp only [Bool.or_eq_true, not_or, Bool.not_eq_true] at hname
        simp only [hname, hquad hname.2, Bool.or_self, Bool.false_eq_true, ↓reduceIte]
        exact hpublic

end grant

/-- The grants both verifiers are there to admit: signed, for a public web address, with a
referer that stays within the limit once it is normalized. -/
structure Grantable (libs : Libraries) (target : Text) (referer : Option Text)
    (context : LiveHlsSigningContext) (url : libs.urls.Url) : Prop where
  secret : trim context.secret ≠ []
  target : libs.urls.parse (trim target) = some url
  isPublic : isPublicExternalEmbedHlsProxyUrl libs url = true
  referer : ∀ normalized, referer.bind (normalizeHlsReferer libs) = some normalized →
    byteLength normalized ≤ 2048
  expiry : 0 ≤ context.expiresAt ∧ context.expiresAt ≤ i64Max

/-- Both verifiers admit a URL and recover its target, referer and expiry: the origin's
middleware unless the grant is private, its handler for the session of a private grant, and
the worker for a public grant whose expiry its numbers hold and whose target is not itself. -/
structure Verifies (libs : Libraries) (minted : Text) (url : libs.urls.Url) (referer : Option Text)
    (context : LiveHlsSigningContext) (legacyAcceptUntil : Option Int) (nowSeconds : Int) : Prop where
  signed : isSignedLiveHlsRequest libs context.secret (Uri.ofText minted) nowSeconds
    legacyAcceptUntil = context.privateSessionBinding.isNone
  trusted :
    let params := queryPairs libs ((Uri.ofText minted).query.getD [])
    params "input".toList = some (libs.urls.asStr url) ∧
      (params "referer".toList).bind (normalizeHlsReferer libs) = referer ∧
        trustedExternalEmbedHlsExpiry libs url referer params context.secret nowSeconds
          legacyAcceptUntil = some (some context.expiresAt)
  request : ∀ cookieHeader requestUrl,
    (∀ binding, context.privateSessionBinding = some binding →
      verifyPrivateLiveHlsSessionBinding libs context.secret cookieHeader binding.text = true) →
    liveHlsRequestInput libs context.secret cookieHeader requestUrl (Uri.ofText minted) nowSeconds
      legacyAcceptUntil =
        .ok ⟨url, referer, true, some context.expiresAt, false, context.privateSessionBinding⟩
  worker : context.privateSessionBinding = none → context.expiresAt ≤ Worker.maxSafeInteger →
    ∀ hostname acceptUntil, Worker.isRecursiveTarget libs url hostname = false →
      Worker.authorizeSignedRequest libs ⟨hostname, (Uri.ofText minted).query.getD []⟩
        ⟨context.secret, acceptUntil⟩ nowSeconds =
          .ok ⟨url, referer.getD [], some context.expiresAt⟩

section verifies
variable {target : Text} {referer : Option Text} {context : LiveHlsSigningContext}
variable {url : libs.urls.Url} {params : Params} {nowSeconds : Int} {legacyAcceptUntil : Option Int}

/-- A normalized referer within the limit is recovered from the query. -/
theorem Grantable.referer_self (h : Grantable libs target referer context url) :
    (referer.bind (normalizeHlsReferer libs)).bind (normalizeHlsReferer libs) =
      referer.bind (normalizeHlsReferer libs) := by
  cases hr : referer.bind (normalizeHlsReferer libs) with
  | none => rfl
  | some normalized =>
    obtain ⟨value, -, hvalue⟩ := Option.bind_eq_some_iff.mp hr
    rw [Option.bind_some]
    exact normalizeHlsReferer_self hvalue (h.referer normalized hr)

theorem Grantable.trusted_expiry (h : Grantable libs target referer context url)
    (hparams : CarriesGrant libs params (libs.urls.asStr url)
      (referer.bind (normalizeHlsReferer libs)) context)
    (hforce : InForce context.expiresAt nowSeconds) :
    trustedExternalEmbedHlsExpiry libs url (referer.bind (normalizeHlsReferer libs)) params
      context.secret nowSeconds legacyAcceptUntil = some (some context.expiresAt) := by
  have hblank : (trim context.secret).isEmpty = false := List.isEmpty_eq_false_iff.mpr h.secret
  rw [trustedExternalEmbedHlsExpiry, hparams.externalEmbed, if_neg (not_not_intro rfl), hblank,
    h.isPublic]
  exact authorize_carriesGrant hparams h.expiry.1 h.expiry.2 hforce

theorem toAbsolutePlaybackUrl_asStr (url requestUrl : libs.urls.Url) :
    toAbsolutePlaybackUrl libs (libs.urls.asStr url) requestUrl = libs.urls.asStr url := by
  have hne : (libs.urls.asStr url).isEmpty = false :=
    List.isEmpty_eq_false_iff.mpr (libs.urls.asStr_ne_nil url)
  simp [toAbsolutePlaybackUrl, libs.urls.asStr_trimmed, hne, libs.urls.parse_asStr]

/-- A query that carries a grant, and a tag at most, verifies. -/
theorem Grantable.verifies (h : Grantable libs target referer context url) {path : Text}
    (hpath : path = "/api/live/hls.m3u8".toList ∨ path = "/api/live/hls-resource".toList)
    (emitLegacySignature vod : Bool) (hforce : InForce context.expiresAt nowSeconds)
    (legacyAcceptUntil : Option Int) :
    Verifies libs (path ++ '?' :: serialize (mintedPairs libs (libs.urls.asStr url)
      (referer.bind (normalizeHlsReferer libs)) context emitLegacySignature ++ vodPairs vod)) url
        (referer.bind (normalizeHlsReferer libs)) context legacyAcceptUntil nowSeconds := by
  have hquestion : '?' ∉ path := by
    cases hpath with
    | inl hp => rw [hp]; decide
    | inr hp => rw [hp]; decide
  have hparams : CarriesGrant libs (queryPairs libs (serialize (mintedPairs libs (libs.urls.asStr url)
      (referer.bind (normalizeHlsReferer libs)) context emitLegacySignature ++ vodPairs vod)))
      (libs.urls.asStr url) (referer.bind (normalizeHlsReferer libs)) context :=
    carriesGrant_queryPairs
  have hsearch : CarriesGrant libs (Worker.searchParam libs (serialize (mintedPairs libs
      (libs.urls.asStr url) (referer.bind (normalizeHlsReferer libs)) context emitLegacySignature ++
      vodPairs vod))) (libs.urls.asStr url) (referer.bind (normalizeHlsReferer libs)) context :=
    carriesGrant_searchParam
  generalize serialize (mintedPairs libs (libs.urls.asStr url)
    (referer.bind (normalizeHlsReferer libs)) context emitLegacySignature ++ vodPairs vod) = query
    at hparams hsearch
  have hblank : (trim context.secret).isEmpty = false := List.isEmpty_eq_false_iff.mpr h.secret
  have htrusted : trustedExternalEmbedHlsExpiry libs url (referer.bind (normalizeHlsReferer libs))
      (queryPairs libs query) context.secret nowSeconds legacyAcceptUntil =
        some (some context.expiresAt) := h.trusted_expiry hparams hforce
  have hreferer := h.referer_self
  have htext := libs.urls.asStr_ne_nil url
  have hparse := libs.urls.parse_asStr url
  have huri : Uri.ofText (path ++ '?' :: query) = ⟨path, some query⟩ := uri_ofText hquestion
  constructor
  · rw [huri, isSignedLiveHlsRequest, if_neg (by tauto), hblank, if_neg Bool.false_ne_true]
    simp only [Option.getD_some, hparams.externalEmbed, hparams.hasInput, hparams.hasReferer,
      hparams.privateSession, hreferer,
      authorize_carriesGrant hparams h.expiry.1 h.expiry.2 hforce]
    cases context.privateSessionBinding <;> rfl
  · simp only [huri, Option.getD_some]
    exact ⟨hparams.hasInput, by rw [hparams.hasReferer, hreferer], htrusted⟩
  · intro cookieHeader requestUrl hsession
    have hinput : (trim (libs.urls.asStr url)).isEmpty = false := by
      rw [libs.urls.asStr_trimmed]
      exact List.isEmpty_eq_false_iff.mpr htext
    simp only [huri, liveHlsRequestInput, Option.getD_some, hparams.hasInput, hparams.hasReferer,
      hparams.privateSession, hparams.directSeg, hreferer, toAbsolutePlaybackUrl_asStr, hinput, hparse,
      htrusted, Bool.false_eq_true, ↓reduceIte]
    cases hb : context.privateSessionBinding with
    | none => simp
    | some binding => simp [toPrivateSessionBinding_text, hsession binding hb]
  · intro hpublic hsafe hostname acceptUntil hrecursive
    have hprivate : Worker.searchParam libs query "privateSession".toList = none := by
      have hnone := hsearch.privateSession
      rw [hpublic] at hnone
      exact hnone
    have hinput : Worker.truthy (Worker.searchParam libs query "input".toList) =
        some (libs.urls.asStr url) := by
      rw [hsearch.hasInput]
      exact Option.filter_some_pos (by simp [htext])
    have hembed : Worker.searchParam libs query "externalEmbed".toList = some ['1'] :=
      hsearch.externalEmbed
    have hsecret : context.secret.isEmpty = false := by
      refine List.isEmpty_eq_false_iff.mpr fun hnil => h.secret ?_
      rw [hnil, trim_nil]
    have hsignature : Worker.authorizeSignature libs query (libs.urls.asStr url)
        ((referer.bind (normalizeHlsReferer libs)).getD []) context.secret
        ⟨context.secret, acceptUntil⟩ nowSeconds = .ok (some context.expiresAt) :=
      authorizeSignature_carriesGrant hsearch hpublic h.expiry.1 hsafe hforce
    have hscheme : libs.urls.scheme url = "https".toList := by
      have hpub := h.isPublic
      unfold isPublicExternalEmbedHlsProxyUrl at hpub
      split at hpub
      · cases hpub
      · next hs => simpa using hs
    have htarget : Worker.checkTarget libs (libs.urls.asStr url) hostname = .ok url := by
      simp [Worker.checkTarget, hparse, hscheme, isPublicHlsProxyHostname_worker h.isPublic,
        hrecursive]
    simp only [huri, Worker.authorizeSignedRequest, Option.getD_some, hprivate, hsearch.hasReferer, hinput,
      hembed, hsecret, hsignature, htarget, Option.isSome_none, Bool.false_eq_true, ↓reduceIte]
    rfl

end verifies

/-- The libraries on plain addresses, with no text for bytes that are none. -/
def plainLibraries : Libraries where
  urls := Urls.plain
  mac := Mac.hmacSha256
  mac_ne_nil := Mac.hmacSha256_ne_nil
  utf8Lossy bytes := (fromUtf8 bytes).getD []
  utf8Lossy_utf8Bytes := getD_fromUtf8_utf8Bytes

def cdnUrl : plainLibraries.urls.Url :=
  ⟨"https://cdn.example.com/live/index.m3u8".toList, by decide⟩

def insecureUrl : plainLibraries.urls.Url :=
  ⟨"http://cdn.example.com/live/index.m3u8".toList, by decide⟩

end StreamArena.LiveHls
