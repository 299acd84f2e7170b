import StreamArena.LiveHls.MintedUrls
import StreamArena.LiveHls.WindowTrim
import StreamArena.LiveHls.WorkerPlaylist

/-! The worker between a player and the origin (workers/live-hls-proxy): a playlist goes through both proxies, and what a
player then asks for goes back to the origin that minted it. -/
namespace StreamArena.LiveHls.Worker
open AsciiText FormUrlencoded Separated

/-- Where a request is sent on to. -/
inductive Fetch (urls : Urls.Library) where
  | origin (path search : Text)
  | upstream (target : urls.Url) (referer : Text)
  deriving DecidableEq

section handle
variable (libs : Libraries)

/-- The worker, its own address and whether an origin is configured. -/
structure Deployment where
  hostname : Text
  env : Env
  hasOrigin : Bool

variable (deployment : Deployment)

def searchOf (query : Text) : Text := if query.isEmpty then [] else '?' :: query

def fetchFromOrigin (path search : Text) : Except Denial (Fetch libs.urls) :=
  if deployment.hasOrigin then .ok (.origin path search) else .error ⟨503, "origin not configured".toList⟩

def handlePlaylist (method query : Text) (nowSeconds : Int) : Except Denial (Fetch libs.urls) :=
  if method ≠ "GET".toList then .error ⟨405, "method not allowed".toList⟩
  else do
    let _ ← authorizeSignedRequest libs ⟨deployment.hostname, query⟩ deployment.env nowSeconds
    fetchFromOrigin libs deployment liveHlsPlaylistPath (searchOf query)

/-- The query without the worker's own parameter, written anew. -/
def forwarded (query : Text) : Text :=
  serialize ((parse libs.utf8Lossy query).filter fun pair => pair.1 != "viaOrigin".toList)

def handleResource (method query : Text) (nowSeconds : Int) : Except Denial (Fetch libs.urls) :=
  if method ≠ "GET".toList ∧ method ≠ "HEAD".toList then .error ⟨405, "method not allowed".toList⟩
  else do
    let authorized ← authorizeSignedRequest libs ⟨deployment.hostname, query⟩ deployment.env nowSeconds
    if searchParam libs query "viaOrigin".toList = some ['1'] then
      fetchFromOrigin libs deployment liveHlsResourcePath ('?' :: forwarded libs query)
    else .ok (.upstream authorized.target authorized.referer)

def route (method : Text) (uri : Uri) (nowSeconds : Int) : Except Denial (Fetch libs.urls) :=
  let query := uri.query.getD []
  if uri.path = liveHlsPlaylistPath then handlePlaylist libs deployment method query nowSeconds
  else if uri.path = liveHlsResourcePath then handleResource libs deployment method query nowSeconds
  else .error ⟨404, "not found".toList⟩

end handle

section relay
variable {libs : Libraries} {deployment : Deployment} {nowSeconds : Int}

/-- The worker's own parameter is none of those it admits a request by. -/
theorem authorizeSignedRequest_congr {hostname query query' : Text} {env : Env}
    (h : ∀ name, name ≠ "viaOrigin".toList → searchParam libs query name = searchParam libs query' name) :
    authorizeSignedRequest libs ⟨hostname, query⟩ env nowSeconds =
      authorizeSignedRequest libs ⟨hostname, query'⟩ env nowSeconds := by
  have hprivate := h "privateSession".toList (by decide)
  have hreferer := h "referer".toList (by decide)
  have hinput := h "input".toList (by decide)
  have hembed := h "externalEmbed".toList (by decide)
  have hexpires := h "expires".toList (by decide)
  have hsig := h "sig".toList (by decide)
  have hsigV2 := h "sigV2".toList (by decide)
  simp only [authorizeSignedRequest, authorizeSignature, hprivate, hreferer, hinput, hembed, hexpires, hsig, hsigV2]

variable {pairs : List (Text × Text)}

theorem serialize_viaOrigin (hne : pairs ≠ []) :
    serialize pairs ++ "&viaOrigin=1".toList = serialize (pairs ++ [("viaOrigin".toList, ['1'])]) := by
  have hnames : encode "viaOrigin".toList = "viaOrigin".toList ∧ encode ['1'] = ['1'] := by decide
  rw [serialize, serialize, List.map_append, List.map_singleton,
    join_concat (by rwa [Ne, List.map_eq_nil_iff]), hnames.1, hnames.2]
  rfl

theorem searchParam_viaOrigin (hne : pairs ≠ []) (name : Text) :
    searchParam libs (serialize pairs ++ "&viaOrigin=1".toList) name =
      (searchParam libs (serialize pairs) name).or (if name = "viaOrigin".toList then some ['1'] else none) := by
  rw [searchParam, searchParam, serialize_viaOrigin hne, parse_serialize libs.utf8Lossy_utf8Bytes,
    parse_serialize libs.utf8Lossy_utf8Bytes, List.lookup_append, List.lookup_cons, List.lookup_nil]
  by_cases h : name = "viaOrigin".toList
  · rw [if_pos h, beq_iff_eq.mpr h]
  · rw [if_neg h, beq_false_of_ne h]

/-- What is sent on is the query as it was before the worker's parameter. -/
theorem forwarded_viaOrigin (hne : pairs ≠ []) (hfree : "viaOrigin".toList ∉ pairs.map Prod.fst) :
    forwarded libs (serialize pairs ++ "&viaOrigin=1".toList) = serialize pairs := by
  have hkept : pairs.filter (fun pair => pair.1 != "viaOrigin".toList) = pairs := by
    refine List.filter_eq_self.mpr fun pair hpair => bne_iff_ne.mpr ?_
    rintro heq
    exact hfree (heq ▸ List.mem_map_of_mem hpair)
  rw [forwarded, serialize_viaOrigin hne, parse_serialize libs.utf8Lossy_utf8Bytes, List.filter_append, hkept,
    List.filter_cons_of_neg (by decide), List.filter_nil, List.append_nil]

variable {target : Text} {referer : Option Text} {context : LiveHlsSigningContext} {url : libs.urls.Url}
variable {emitLegacySignature vod : Bool}

theorem minted_ne_nil : mintedPairs libs (libs.urls.asStr url) referer context emitLegacySignature ++ vodPairs vod ≠ [] := by
  rw [mintedPairs, List.cons_append]
  exact List.cons_ne_nil _ _

theorem minted_free : "viaOrigin".toList ∉
    (mintedPairs libs (libs.urls.asStr url) referer context emitLegacySignature ++ vodPairs vod).map Prod.fst := by
  have hnames : ∀ hasReferer isPrivate emitLegacySignature vod : Bool,
      "viaOrigin".toList ∉ mintedNames hasReferer isPrivate emitLegacySignature vod := by decide
  rw [mintedPairs_names]
  exact hnames _ _ _ _

/-- The path and query a grant is minted into. -/
def grantReference (libs : Libraries) (path : Text) (url : libs.urls.Url) (referer : Option Text)
    (context : LiveHlsSigningContext) (emitLegacySignature vod : Bool) : Text :=
  path ++ '?' :: serialize (mintedPairs libs (libs.urls.asStr url) (referer.bind (normalizeHlsReferer libs))
    context emitLegacySignature ++ vodPairs vod)

/-- The characters of a proxied path: no quote, no line end, no white space. -/
def isReferenceChar (c : Char) : Bool := c != '"' && (0x21 ≤ c.toNat && c.toNat ≤ 0x7E)

theorem not_isJsWhitespace_of_isReferenceChar {c : Char} (h : isReferenceChar c = true) : isJsWhitespace c = false := by
  simp only [isReferenceChar, Bool.and_eq_true, decide_eq_true_eq] at h
  simp only [isJsWhitespace, isWhitespace, Bool.or_eq_false_iff, Bool.and_eq_false_iff, decide_eq_false_iff_not,
    beq_eq_false_iff_ne, bne_eq_false_iff_eq]
  omega

theorem isReferenceChar_of_mem_encode {c : Char} {text : Text} (h : c ∈ encode text) : isReferenceChar c = true := by
  obtain ⟨b, -, hb⟩ := List.mem_flatMap.mp h
  have hlt : b.toNat < 256 := b.toNat_lt
  have hhex : ∀ n < 16, isReferenceChar (hexDigit n) = true := by decide
  have halphanum {c : Char} (hc : c.isAlphanum = true) : isReferenceChar c = true := by
    have hrange := Base64Url.toNat_of_isAlphabet (c := c) (by simp [Base64Url.isAlphabet, hc])
    have hquote : c ≠ '"' := by
      rintro rfl
      exact absurd hc (by decide)
    simp [isReferenceChar, hquote, hrange]
  rw [encodeByte] at hb
  split at hb
  · next hunreserved =>
    rw [List.mem_singleton.mp hb]
    simp only [isUnreserved, Bool.and_eq_true, Bool.or_eq_true, beq_iff_eq] at hunreserved
    rcases hunreserved.2 with (((hc | hc) | hc) | hc) | hc
    · exact halphanum hc
    all_goals rw [hc]; rfl
  · split at hb
    · rw [List.mem_singleton.mp hb]
      rfl
    · simp only [List.mem_cons, List.not_mem_nil, or_false] at hb
      rcases hb with rfl | rfl | rfl
      · rfl
      · exact hhex _ (by omega)
      · exact hhex _ (by omega)

theorem isReferenceChar_of_mem_serialize {c : Char} (h : c ∈ serialize pairs) : isReferenceChar c = true := by
  obtain ⟨field, hfield, hc⟩ | rfl := mem_join h
  · obtain ⟨pair, -, rfl⟩ := List.mem_map.mp hfield
    rw [List.mem_append, List.mem_cons] at hc
    rcases hc with hc | rfl | hc
    · exact isReferenceChar_of_mem_encode hc
    · decide
    · exact isReferenceChar_of_mem_encode hc
  · decide

def IsLivePath (path : Text) : Prop := path = liveHlsPlaylistPath ∨ path = liveHlsResourcePath

theorem isReferenceChar_of_mem {path : Text} (hpath : IsLivePath path) {c : Char}
    (h : c ∈ path ++ '?' :: serialize pairs) : isReferenceChar c = true := by
  have hpaths : liveHlsPlaylistPath.all isReferenceChar = true ∧ liveHlsResourcePath.all isReferenceChar = true := ⟨rfl, rfl⟩
  rw [List.mem_append, List.mem_cons] at h
  rcases h with h | rfl | h
  · rcases hpath with rfl | rfl
    · exact List.all_eq_true.mp hpaths.1 c h
    · exact List.all_eq_true.mp hpaths.2 c h
  · decide
  · exact isReferenceChar_of_mem_serialize h

theorem isProxied_of_livePath {path : Text} (hpath : IsLivePath path) (query : Text) : isProxied (path ++ '?' :: query) = true := by
  rcases hpath with rfl | rfl
  · have hnested : isNested (liveHlsPlaylistPath ++ '?' :: query) = true := rfl
    rw [isProxied, hnested, Bool.true_or]
  · have hresource : startsWith (liveHlsResourcePath ++ '?' :: query) resourcePrefix = true := rfl
    rw [isProxied, hresource, Bool.or_true]

/-- A minted path on a line of its own becomes the worker's address. -/
theorem carried_reference {path : Text} (hpath : IsLivePath path) (workerBase : Text) :
    carried workerBase (path ++ '?' :: serialize pairs) = workerUrl workerBase (path ++ '?' :: serialize pairs) := by
  have htag : startsWith (path ++ '?' :: serialize pairs) ['#'] = false := by
    rcases hpath with rfl | rfl <;> rfl
  have htrim : jsTrim (path ++ '?' :: serialize pairs) = path ++ '?' :: serialize pairs :=
    trimWhile_eq_self fun c hc => not_isJsWhitespace_of_isReferenceChar (isReferenceChar_of_mem hpath hc)
  rw [carried, htag, if_neg Bool.false_ne_true, htrim, if_pos (isProxied_of_livePath hpath _)]

/-- The characters before the first attribute stand for themselves. -/
theorem pieces_before {line before rest : Text} (h : splitOnce uriAttribute line = some (before, rest)) :
    pieces 0 line = before.map Piece.text ++ pieces 0 (uriAttribute ++ rest) := by
  induction line generalizing before with
  | nil =>
    rw [splitOnce] at h
    cases h
  | cons c line ih =>
    rw [splitOnce] at h
    split at h
    · next hhead =>
      obtain ⟨more, hmore⟩ := List.isPrefixOf_iff_prefix.mp hhead
      cases h
      rw [← hmore, List.drop_left]
      rfl
    · next hhead =>
      obtain ⟨parts, hparts, heq⟩ := Option.map_eq_some_iff.mp h
      obtain ⟨rfl, rfl⟩ := Prod.mk.inj heq
      have hnone : uriAttributeAt (c :: line) = none := by
        refine Option.eq_none_iff_forall_ne_some.mpr fun pathAndQuery hat => hhead ?_
        obtain ⟨-, rest, htext⟩ := uriAttributeAt_eq_some hat
        exact List.isPrefixOf_iff_prefix.mpr (htext ▸ List.prefix_append _ _)
      rw [pieces, hnone, ih hparts]
      rfl

/-- A minted path in the first URI attribute of a tag becomes the worker's address there. -/
theorem carried_attribute {path line before after : Text} (hpath : IsLivePath path) (workerBase : Text)
    (htag : startsWith line ['#'] = true)
    (h : splitOnce uriAttribute line = some (before, path ++ '?' :: serialize pairs ++ '"' :: after)) :
    carried workerBase line = before ++ uriAttribute ++ workerUrl workerBase (path ++ '?' :: serialize pairs) ++
      '"' :: (pieces 0 after).flatMap (Piece.rewritten workerBase) := by
  have hquote : '"' ∉ path ++ '?' :: serialize pairs := fun hmem => absurd (isReferenceChar_of_mem hpath hmem) (by decide)
  have hat : uriAttributeAt (uriAttribute ++ (path ++ '?' :: serialize pairs ++ '"' :: after)) =
      some (path ++ '?' :: serialize pairs) := by
    rw [uriAttributeAt, stripPrefix_eq_some.mpr rfl, Option.bind_some, splitOnce_append hquote, Option.map_some,
      Option.filter_some_pos (isProxied_of_livePath hpath _)]
  have hfirst : pieces 0 (uriAttribute ++ (path ++ '?' :: serialize pairs ++ '"' :: after)) =
      .attribute (path ++ '?' :: serialize pairs) :: pieces 0 after := by
    have hcons : uriAttribute ++ (path ++ '?' :: serialize pairs ++ '"' :: after) =
        'U' :: (uriAttribute.tail ++ (path ++ '?' :: serialize pairs ++ '"' :: after)) := rfl
    rw [hcons] at hat ⊢
    rw [pieces, hat]
    dsimp only
    rw [pieces_skip]
    have hdrop : (uriAttribute.tail ++ (path ++ '?' :: serialize pairs ++ '"' :: after)).drop
        (uriAttribute.length + (path ++ '?' :: serialize pairs).length) = after := by
      rw [show uriAttribute.tail ++ (path ++ '?' :: serialize pairs ++ '"' :: after) =
        uriAttribute.tail ++ (path ++ '?' :: serialize pairs) ++ ['"'] ++ after by simp]
      exact List.drop_left' (by simp [uriAttribute]; omega)
    rw [hdrop]
  have hbefore (text : Text) : (text.map Piece.text).flatMap (Piece.rewritten workerBase) = text := by
    rw [List.flatMap_map]
    exact List.flatMap_singleton' text
  rw [carried, if_pos htag, pieces_before h, hfirst, List.flatMap_append, hbefore, List.flatMap_cons]
  simp [Piece.rewritten]

/-- What a player asks for at an address of the worker is sent on to an origin that admits it for the same target. -/
structure Relayed (libs : Libraries) (deployment : Deployment) (workerBase answer : Text) (url : libs.urls.Url)
    (referer : Option Text) (context : LiveHlsSigningContext) (nowSeconds : Int) : Prop where
  asked : ∃ asked path search, answer = workerBase ++ asked ∧
    route libs deployment "GET".toList (Uri.ofText asked) nowSeconds = .ok (.origin path search) ∧
      ∀ legacyAcceptUntil, Verifies libs (path ++ search) url referer context legacyAcceptUntil nowSeconds

/-- The worker that serves a grant: it has the secret and an origin, its numbers hold the expiry, and the grant is for any
session. -/
structure Serves (deployment : Deployment) (context : LiveHlsSigningContext) : Prop where
  secret : deployment.env.liveHlsProxySecret = context.secret
  hasOrigin : deployment.hasOrigin = true
  isPublic : context.privateSessionBinding = none
  expiry : context.expiresAt ≤ maxSafeInteger

theorem authorizes (h : Grantable libs target referer context url) (hserves : Serves deployment context)
    (hrecursive : isRecursiveTarget libs url deployment.hostname = false) (hforce : InForce context.expiresAt nowSeconds)
    {path : Text} (hpath : IsLivePath path) (emitLegacySignature vod : Bool) :
    authorizeSignedRequest libs ⟨deployment.hostname, serialize (mintedPairs libs (libs.urls.asStr url)
      (referer.bind (normalizeHlsReferer libs)) context emitLegacySignature ++ vodPairs vod)⟩ deployment.env nowSeconds =
        .ok ⟨url, (referer.bind (normalizeHlsReferer libs)).getD [], some context.expiresAt⟩ := by
  have hquestion : '?' ∉ path := by
    rcases hpath with rfl | rfl <;> decide
  have hverifies := (h.verifies hpath emitLegacySignature vod hforce none).worker hserves.isPublic hserves.expiry
    deployment.hostname deployment.env.liveHlsLegacySignatureAcceptUntil hrecursive
  rw [uri_ofText hquestion, ← hserves.secret] at hverifies
  exact hverifies

theorem workerUrl_nested (workerBase query : Text) :
    workerUrl workerBase (liveHlsPlaylistPath ++ '?' :: query) = workerBase ++ (liveHlsPlaylistPath ++ '?' :: query) := by
  have hother : startsWith (liveHlsPlaylistPath ++ '?' :: query) resourcePrefix = false := rfl
  rw [workerUrl, hother, if_neg Bool.false_ne_true]

theorem workerUrl_resource (workerBase query : Text) :
    workerUrl workerBase (liveHlsResourcePath ++ '?' :: query) =
      workerBase ++ (liveHlsResourcePath ++ '?' :: (query ++ "&viaOrigin=1".toList)) := by
  have hresource : startsWith (liveHlsResourcePath ++ '?' :: query) resourcePrefix = true := rfl
  rw [workerUrl, hresource, if_pos rfl]
  simp

variable {accepted : SignedTarget libs.urls}

theorem route_nested (hne : pairs ≠ []) (horigin : deployment.hasOrigin = true)
    (h : authorizeSignedRequest libs ⟨deployment.hostname, serialize pairs⟩ deployment.env nowSeconds = .ok accepted) :
    route libs deployment "GET".toList (Uri.ofText (liveHlsPlaylistPath ++ '?' :: serialize pairs)) nowSeconds =
      .ok (.origin liveHlsPlaylistPath ('?' :: serialize pairs)) := by
  have hquery : (serialize pairs).isEmpty = false := by
    cases pairs with
    | nil => exact absurd rfl hne
    | cons pair pairs =>
      cases pairs with
      | nil => rw [serialize_singleton, List.isEmpty_eq_false_iff]; simp
      | cons next pairs => rw [serialize_cons_cons, List.isEmpty_eq_false_iff]; simp
  have hhandled : handlePlaylist libs deployment "GET".toList (serialize pairs) nowSeconds =
      .ok (.origin liveHlsPlaylistPath ('?' :: serialize pairs)) := by
    rw [handlePlaylist, if_neg (not_not_intro rfl), h, searchOf, hquery, fetchFromOrigin, horigin]
    rfl
  rw [uri_ofText (by decide)]
  exact hhandled

/-- The worker's parameter leaves the admission as it is and does not go on to the origin. -/
theorem route_resource (hne : pairs ≠ []) (hfree : "viaOrigin".toList ∉ pairs.map Prod.fst) (horigin : deployment.hasOrigin = true)
    (h : authorizeSignedRequest libs ⟨deployment.hostname, serialize pairs⟩ deployment.env nowSeconds = .ok accepted) :
    route libs deployment "GET".toList (Uri.ofText (liveHlsResourcePath ++ '?' :: (serialize pairs ++ "&viaOrigin=1".toList)))
      nowSeconds = .ok (.origin liveHlsResourcePath ('?' :: serialize pairs)) := by
  have hsame : authorizeSignedRequest libs ⟨deployment.hostname, serialize pairs ++ "&viaOrigin=1".toList⟩ deployment.env
      nowSeconds = .ok accepted := by
    rw [← h]
    refine authorizeSignedRequest_congr fun name hname => ?_
    rw [searchParam_viaOrigin hne, if_neg hname, Option.or_none]
  have hvia : searchParam libs (serialize pairs ++ "&viaOrigin=1".toList) "viaOrigin".toList = some ['1'] := by
    have hnone : pairs.lookup "viaOrigin".toList = none :=
      List.lookup_eq_none_iff.mpr fun pair hpair => bne_iff_ne.mpr fun heq => hfree (heq ▸ List.mem_map_of_mem hpair)
    rw [searchParam_viaOrigin hne, searchParam, parse_serialize libs.utf8Lossy_utf8Bytes, hnone, if_pos rfl, Option.none_or]
  have hhandled : handleResource libs deployment "GET".toList (serialize pairs ++ "&viaOrigin=1".toList) nowSeconds =
      .ok (.origin liveHlsResourcePath ('?' :: serialize pairs)) := by
    rw [handleResource, if_neg fun hboth => hboth.1 rfl, hsame, forwarded_viaOrigin hne hfree, fetchFromOrigin, horigin]
    exact if_pos hvia
  have hother : ¬liveHlsResourcePath = liveHlsPlaylistPath := by decide
  rw [uri_ofText (by decide), route, if_neg hother, if_pos rfl]
  exact hhandled

/-- A minted reference that the worker has written into a playlist is relayed to the origin that minted it. -/
theorem relayed (h : Grantable libs target referer context url) (hserves : Serves deployment context)
    (hrecursive : isRecursiveTarget libs url deployment.hostname = false) (hforce : InForce context.expiresAt nowSeconds)
    {path : Text} (hpath : IsLivePath path) (workerBase : Text) (emitLegacySignature vod : Bool) :
    Relayed libs deployment workerBase
      (workerUrl workerBase (grantReference libs path url referer context emitLegacySignature vod)) url
        (referer.bind (normalizeHlsReferer libs)) context nowSeconds := by
  have hauthorized := authorizes h hserves hrecursive hforce hpath emitLegacySignature vod
  have hverifies := fun legacyAcceptUntil => h.verifies hpath emitLegacySignature vod hforce legacyAcceptUntil
  rw [grantReference]
  rcases hpath with rfl | rfl
  · exact ⟨_, _, _, workerUrl_nested workerBase _, route_nested minted_ne_nil hserves.hasOrigin hauthorized, hverifies⟩
  · exact ⟨_, _, _, workerUrl_resource workerBase _, route_resource minted_ne_nil minted_free hserves.hasOrigin hauthorized,
      hverifies⟩

end relay

section origin
open Decimal (i64Max)
variable {libs : Libraries} {deployment : Deployment} {context : LiveHlsSigningContext} {nowSeconds : Int}

/-- A playlist that the origin rewrites under a public grant which the worker serves. -/
structure Proxies (rewrite : Rewrite libs) (deployment : Deployment) (context : LiveHlsSigningContext) (nowSeconds : Int) :
    Prop extends Serves deployment context where
  signs : rewrite.signingContext = some context
  secretText : trim context.secret ≠ []
  referer : ∀ normalized, rewrite.referer.bind (normalizeHlsReferer libs) = some normalized → byteLength normalized ≤ 2048
  expiryRange : 0 ≤ context.expiresAt ∧ context.expiresAt ≤ i64Max
  inForce : InForce context.expiresAt nowSeconds

/-- A line that names a resource both proxies may fetch. -/
structure Names (rewrite : Rewrite libs) (deployment : Deployment) (source : Text) (url : libs.urls.Url) : Prop where
  uri : isUriLine source = true
  text : trim source ≠ []
  join : libs.urls.join rewrite.baseUrl (trim source) = some url
  isPublic : isPublicExternalEmbedHlsProxyUrl libs url = true
  proxied : directHlsUrlIfEligible libs (libs.urls.asStr url) rewrite.directSegments = none
  other : isRecursiveTarget libs url deployment.hostname = false

variable {rewrite : Rewrite libs} {source : Text} {url : libs.urls.Url}

theorem Proxies.grantable (h : Proxies rewrite deployment context nowSeconds) (hnames : Names rewrite deployment source url)
    {sent : Option Text} (hsent : sent = rewrite.referer ∨ sent = none) :
    Grantable libs (libs.urls.asStr url) sent context url where
  secret := h.secretText
  target := by rw [libs.urls.asStr_trimmed, libs.urls.parse_asStr]
  isPublic := hnames.isPublic
  referer := by
    rcases hsent with rfl | rfl
    · exact h.referer
    · intro normalized hnone
      cases hnone
  expiry := h.expiryRange

theorem Proxies.proxyUrl_eq (h : Proxies rewrite deployment context nowSeconds) (path : Text) (url : libs.urls.Url)
    (sent : Option Text) : rewrite.proxyUrl path (libs.urls.asStr url) sent =
      grantReference libs path url sent context rewrite.emitLegacySignature false := by
  have hparse : libs.urls.parse (trim (libs.urls.asStr url)) = some url := by
    rw [libs.urls.asStr_trimmed, libs.urls.parse_asStr]
  rw [Rewrite.proxyUrl, h.signs, liveHlsProxyUrl_eq h.secretText, normalizeLiveHlsSignatureInput_asStr hparse,
    grantReference, vodPairs, if_neg Bool.false_ne_true, List.append_nil]

theorem tagVodResourceUrl_grantReference (url : libs.urls.Url) (sent : Option Text) (emitLegacySignature : Bool) :
    tagVodResourceUrl (grantReference libs liveHlsResourcePath url sent context emitLegacySignature false) =
      grantReference libs liveHlsResourcePath url sent context emitLegacySignature true := by
  have hnames : encode "vod".toList = "vod".toList ∧ encode ['1'] = ['1'] := by decide
  have hresource (query : Text) : startsWith (liveHlsResourcePath ++ '?' :: query) liveHlsResourcePath = true := rfl
  rw [grantReference, tagVodResourceUrl, hresource, if_pos rfl, grantReference, vodPairs, vodPairs, if_neg Bool.false_ne_true,
    if_pos rfl, List.append_nil, serialize, serialize, List.map_append, List.map_singleton,
    join_concat (by rw [mintedPairs]; simp), hnames.1, hnames.2]
  simp

/-- The text that the origin writes for a named resource, on whichever line it stands. -/
inductive Reference (libs : Libraries) (rewrite : Rewrite libs) (context : LiveHlsSigningContext) (url : libs.urls.Url) : Text → Prop
  | mk {path : Text} {sent : Option Text} {vod : Bool} (hpath : IsLivePath path)
      (hsent : sent = rewrite.referer ∨ sent = none) :
      Reference libs rewrite context url (grantReference libs path url sent context rewrite.emitLegacySignature vod)

theorem uri_eq (hnames : Names rewrite deployment source url) (proxyUrlBuilder : Text → Option Text → Text) :
    rewrite.uri proxyUrlBuilder source = proxyUrlBuilder (libs.urls.asStr url) rewrite.referer := by
  rw [Rewrite.uri, resolveHlsUri]
  simp only [List.isEmpty_eq_false_iff.mpr hnames.text, Bool.false_eq_true, ↓reduceIte, hnames.join, Option.map_some,
    Option.getD_some]

theorem sent_cases (url : libs.urls.Url) :
    liveHlsResourceRefererForUrl libs rewrite.baseUrl (libs.urls.asStr url) rewrite.referer = rewrite.referer ∨
      liveHlsResourceRefererForUrl libs rewrite.baseUrl (libs.urls.asStr url) rewrite.referer = none := by
  rw [liveHlsResourceRefererForUrl]
  split
  · exact .inr rfl
  · exact .inl rfl

theorem Proxies.reference_live (h : Proxies rewrite deployment context nowSeconds)
    (hnames : Names rewrite deployment source url) : Reference libs rewrite context url (rewrite.uri rewrite.liveUrl source) := by
  rw [uri_eq hnames, Rewrite.liveUrl, hnames.proxied, Option.getD_none, h.proxyUrl_eq]
  exact .mk (.inr rfl) (sent_cases url)

theorem Proxies.reference_vod (h : Proxies rewrite deployment context nowSeconds)
    (hnames : Names rewrite deployment source url) : Reference libs rewrite context url (rewrite.uri rewrite.vodUrl source) := by
  rw [uri_eq hnames, Rewrite.vodUrl, hnames.proxied, Option.getD_none, h.proxyUrl_eq, tagVodResourceUrl_grantReference]
  exact .mk (.inr rfl) (sent_cases url)

theorem Proxies.reference_master (h : Proxies rewrite deployment context nowSeconds)
    (hnames : Names rewrite deployment source url) :
    Reference libs rewrite context url (rewrite.uri (rewrite.masterUrl liveHlsPlaylistPath) source) := by
  rw [uri_eq hnames, Rewrite.masterUrl, hnames.proxied, Option.getD_none, h.proxyUrl_eq]
  exact .mk (.inl rfl) (.inl rfl)

/-- A reference that the origin wrote is relayed from the line the worker makes of it. -/
theorem Proxies.carried_relayed (h : Proxies rewrite deployment context nowSeconds)
    (hnames : Names rewrite deployment source url) {line : Text} (hline : Reference libs rewrite context url line)
    (workerBase : Text) : ∃ sent, (sent = rewrite.referer ∨ sent = none) ∧
      Relayed libs deployment workerBase (carried workerBase line) url (sent.bind (normalizeHlsReferer libs)) context nowSeconds := by
  obtain @⟨path, sent, vod, hpath, hsent⟩ := hline
  refine ⟨sent, hsent, ?_⟩
  rw [grantReference, carried_reference hpath]
  exact relayed (h.grantable hnames hsent) h.toServes hnames.other h.inForce hpath workerBase rewrite.emitLegacySignature vod

end origin

section lines
open Decimal (wrapI64)
open MediaPlaylist (contents blocks_append_tail mem_of_mem_blocks)
variable {libs : Libraries} {floats : Floats} {deployment : Deployment} {context : LiveHlsSigningContext} {nowSeconds : Int}
variable {rewrite : Rewrite libs}

/-! No line of the origin's output holds a line end. -/

theorem newline_lines {text line : Text} (h : line ∈ AsciiText.lines text) : '\n' ∉ line := by
  rw [AsciiText.lines] at h
  rcases List.mem_append.mp h with h | h
  · obtain ⟨piece, hpiece, rfl⟩ := List.mem_map.mp h
    have hfree := notMem_of_mem_splitOn (List.mem_of_mem_dropLast hpiece)
    split
    · exact fun hmem => hfree (List.mem_of_mem_dropLast hmem)
    · exact hfree
  · exact notMem_of_mem_splitOn (List.mem_of_mem_getLast? (Option.mem_toList.mp (List.mem_filter.mp h).1))

theorem newline_trimEnd {line : Text} (h : '\n' ∉ line) : '\n' ∉ trimEnd line :=
  fun hmem => h ((List.rdropWhile_prefix _ _).subset hmem)

theorem newline_asStr (url : libs.urls.Url) : '\n' ∉ libs.urls.asStr url :=
  fun hmem => absurd (libs.urls.asStr_printable url _ hmem) (by decide)

/-- A way to write a URI that adds no line end. -/
def Plain (proxyUrlBuilder : Text → Option Text → Text) : Prop :=
  ∀ (url : libs.urls.Url) (sent : Option Text), '\n' ∉ proxyUrlBuilder (libs.urls.asStr url) sent

theorem Proxies.newline_proxyUrl (h : Proxies rewrite deployment context nowSeconds) {path : Text} (hpath : IsLivePath path)
    (url : libs.urls.Url) (sent : Option Text) : '\n' ∉ rewrite.proxyUrl path (libs.urls.asStr url) sent := by
  rw [h.proxyUrl_eq, grantReference]
  exact fun hmem => absurd (isReferenceChar_of_mem hpath hmem) (by decide)

theorem newline_direct {directSegments : Bool} {other : Text} (url : libs.urls.Url) (hother : '\n' ∉ other) :
    '\n' ∉ (directHlsUrlIfEligible libs (libs.urls.asStr url) directSegments).getD other := by
  cases hdirect : directHlsUrlIfEligible libs (libs.urls.asStr url) directSegments with
  | none => exact hother
  | some direct =>
    have hsame : direct = libs.urls.asStr url := by
      rw [directHlsUrlIfEligible] at hdirect
      split at hdirect
      · cases hdirect
      · obtain ⟨_, -, hdirect⟩ := Option.bind_eq_some_iff.mp hdirect
        obtain ⟨_, -, hdirect⟩ := Option.bind_eq_some_iff.mp hdirect
        split at hdirect
        · exact (Option.some.inj hdirect).symm
        · cases hdirect
    rw [Option.getD_some, hsame]
    exact newline_asStr url

theorem Proxies.plain_masterUrl (h : Proxies rewrite deployment context nowSeconds) {path : Text} (hpath : IsLivePath path) :
    @Plain libs (rewrite.masterUrl path) :=
  fun url sent => newline_direct url (h.newline_proxyUrl hpath url sent)

theorem Proxies.plain_liveUrl (h : Proxies rewrite deployment context nowSeconds) : @Plain libs rewrite.liveUrl :=
  fun url _ => newline_direct url (h.newline_proxyUrl (.inr rfl) url _)

theorem Proxies.plain_vodUrl (h : Proxies rewrite deployment context nowSeconds) : @Plain libs rewrite.vodUrl := by
  intro url sent
  refine newline_direct url ?_
  have hresource : IsLivePath liveHlsResourcePath := .inr rfl
  have hproxied := h.newline_proxyUrl hresource url
    (liveHlsResourceRefererForUrl libs rewrite.baseUrl (libs.urls.asStr url) sent)
  rw [tagVodResourceUrl]
  split
  · rw [List.mem_append, not_or]
    exact ⟨hproxied, by decide⟩
  · exact hproxied

theorem newline_tag {proxyUrlBuilder : Text → Option Text → Text} (h : @Plain libs proxyUrlBuilder) {line : Text}
    (hline : '\n' ∉ line) : '\n' ∉ rewrite.tag proxyUrlBuilder line := by
  rw [Rewrite.tag, rewriteHlsUriAttribute]
  split
  · exact hline
  · next before rest hsplit =>
    split
    · exact hline
    · next uriValue after hvalue =>
      split
      · exact hline
      · next absolute habsolute =>
        have hurl : ∃ url : libs.urls.Url, absolute = libs.urls.asStr url := by
          rw [resolveHlsUri] at habsolute
          split at habsolute
          · cases habsolute
          · obtain ⟨url, -, heq⟩ := Option.map_eq_some_iff.mp habsolute
            exact ⟨url, heq.symm⟩
        obtain ⟨url, rfl⟩ := hurl
        rw [splitOnce_eq_some hsplit, splitOnce_eq_some hvalue] at hline
        have hattribute : '\n' ∉ uriAttribute := by decide
        have hbuilt := h url rewrite.referer
        simp only [List.mem_append, List.mem_cons, not_or] at hline ⊢
        exact ⟨⟨⟨hline.1.1, hattribute⟩, hbuilt⟩, by decide, hline.2.2⟩

theorem newline_uri {proxyUrlBuilder : Text → Option Text → Text} (h : @Plain libs proxyUrlBuilder) {line : Text}
    (hline : '\n' ∉ line) : '\n' ∉ rewrite.uri proxyUrlBuilder line := by
  rw [Rewrite.uri, resolveHlsUri]
  split
  · exact hline
  · cases libs.urls.join rewrite.baseUrl (trim line) with
    | none => exact hline
    | some url => exact h url rewrite.referer

theorem mem_splitUnquoted {c sep : Char} {quoted : Bool} {text piece : Text} (h : piece ∈ MediaPlaylist.splitUnquoted sep quoted text)
    (hc : c ∈ piece) : c ∈ text := by
  induction text generalizing quoted piece with
  | nil =>
    obtain rfl := List.mem_singleton.mp h
    cases hc
  | cons d text ih =>
    rw [MediaPlaylist.splitUnquoted] at h
    split at h
    · rcases List.mem_cons.mp h with rfl | h
      · cases hc
      · exact List.mem_cons_of_mem d (ih h hc)
    · cases hrest : MediaPlaylist.splitUnquoted sep (quoted != (d == '"')) text with
      | nil =>
        rw [hrest] at h
        cases h
      | cons first rest =>
        rw [hrest, List.modifyHead_cons] at h
        rcases List.mem_cons.mp h with rfl | h
        · rcases List.mem_cons.mp hc with rfl | hc
          · exact List.mem_cons_self
          · exact List.mem_cons_of_mem d (ih (hrest ▸ List.mem_cons_self) hc)
        · exact List.mem_cons_of_mem d (ih (hrest ▸ List.mem_cons_of_mem first h) hc)

theorem newline_strip {line : Text} (hline : '\n' ∉ line) : '\n' ∉ stripVideoOnlyStreamInfCodecs line := by
  have hremove : '\n' ∉ removeStreamInfCodecsAttribute line := by
    rw [removeStreamInfCodecsAttribute]
    split
    · exact hline
    · next tag attributes hsplit =>
      rw [splitOnce_eq_some hsplit] at hline
      simp only [List.mem_append, List.mem_singleton, not_or] at hline
      rw [List.mem_append, List.mem_cons, not_or, not_or]
      refine ⟨hline.1.1, by decide, fun hmem => ?_⟩
      obtain ⟨part, hpart, hc⟩ | hcomma := mem_join hmem
      · have hwhole : part ∈ MediaPlaylist.splitUnquoted ',' false attributes := by
          rcases List.mem_append.mp (List.mem_filter.mp hpart).1 with h | h
          · exact List.mem_of_mem_dropLast h
          · exact List.mem_of_mem_getLast? (Option.mem_toList.mp (List.mem_filter.mp h).1)
        exact hline.2 (mem_splitUnquoted hwhole hc)
      · exact absurd hcomma (by decide)
  rw [stripVideoOnlyStreamInfCodecs]
  split
  · exact hline
  · dsimp only
    split
    · exact hline
    · split
      · exact hline
      · exact hremove

theorem newline_setBoolean {line name : Text} (hname : '\n' ∉ name) (hline : '\n' ∉ line) (enabled : Bool) :
    '\n' ∉ setHlsBooleanAttribute line name enabled := by
  have hvalue : '\n' ∉ (if enabled then "YES".toList else "NO".toList) := by cases enabled <;> decide
  rw [setHlsBooleanAttribute]
  dsimp only
  split
  · simp only [List.mem_append, List.mem_cons, not_or]
    exact ⟨⟨hline, by decide, hname⟩, by decide, hvalue⟩
  · simp only [List.mem_append, not_or]
    exact ⟨⟨fun h => hline (List.mem_of_mem_take h), hvalue⟩,
      fun h => hline (List.mem_of_mem_drop ((List.dropWhile_sublist _).subset h))⟩

theorem newline_prefer {line : Text} (hline : '\n' ∉ line) : '\n' ∉ preferEnglishHlsAudioDefault line := by
  rw [preferEnglishHlsAudioDefault]
  split
  · exact hline
  · exact newline_setBoolean (by decide) (newline_setBoolean (by decide) hline _) _

theorem mem_keep {dropNextUri : Bool} {lines : List Text} {line : Text}
    (h : line ∈ capExternalEmbedMasterTo1080p.keep dropNextUri lines) : line ∈ lines := by
  induction lines generalizing dropNextUri with
  | nil => exact h
  | cons first rest ih =>
    have hcons {dropNextUri : Bool} (h : line ∈ first :: capExternalEmbedMasterTo1080p.keep dropNextUri rest) :
        line ∈ first :: rest := List.mem_cons.mpr ((List.mem_cons.mp h).imp_right ih)
    rw [capExternalEmbedMasterTo1080p.keep] at h
    split at h
    · split at h
      · exact List.mem_cons_of_mem first (ih h)
      · exact hcons h
    · split at h
      · split at h
        · exact List.mem_cons_of_mem first (ih h)
        · exact hcons h
      · split at h
        · exact List.mem_cons_of_mem first (ih h)
        · exact hcons h

theorem mem_masterLines {lines : List Text} {line : Text} (h : line ∈ rewrite.masterLines lines) : line ∈ lines := by
  rw [Rewrite.masterLines] at h
  split at h
  · rw [capExternalEmbedMasterTo1080p] at h
    split at h
    · exact mem_keep h
    · exact h
  · exact h

/-! Line by line, from the upstream playlist to the worker's. -/

/-- The line written for a named resource is its reference. -/
def Answers (rewrite : Rewrite libs) (deployment : Deployment) (context : LiveHlsSigningContext) (source out : Text) : Prop :=
  ∀ url, Names rewrite deployment source url → Reference libs rewrite context url out

theorem isUriLine_false {line : Text} (h : startsWith line ['#'] = true) : ¬isUriLine line = true := by
  rw [isUriLine, h]
  exact Bool.false_ne_true

theorem answers_tag {line out : Text} (h : startsWith line ['#'] = true) : Answers rewrite deployment context line out :=
  fun _ hnames => absurd hnames.uri (isUriLine_false h)

theorem Proxies.answers_live (h : Proxies rewrite deployment context nowSeconds) (line : Text) :
    Answers rewrite deployment context line (rewrite.liveLine line) := by
  intro url hnames
  have huri := hnames.uri
  rw [isUriLine, Bool.not_eq_true'] at huri
  rw [Rewrite.liveLine, huri, if_neg Bool.false_ne_true]
  exact h.reference_live hnames

theorem Proxies.answers_vod (h : Proxies rewrite deployment context nowSeconds) (line : Text) :
    Answers rewrite deployment context (trimEnd line) (rewrite.vodLine line) := by
  intro url hnames
  have huri := hnames.uri
  rw [isUriLine, Bool.not_eq_true'] at huri
  rw [Rewrite.vodLine, if_neg (by simpa using hnames.text), huri, if_neg Bool.false_ne_true]
  exact h.reference_vod hnames

theorem Proxies.answers_master (h : Proxies rewrite deployment context nowSeconds) (line : Text) :
    Answers rewrite deployment context (trimEnd line) (rewrite.masterLine line) := by
  intro url hnames
  have huri := hnames.uri
  rw [isUriLine, Bool.not_eq_true'] at huri
  rw [Rewrite.masterLine, if_neg (by simpa using hnames.text), huri, if_neg Bool.false_ne_true]
  exact h.reference_master hnames

/-- No reference is taken for an audio rendition. -/
theorem prefer_reference {url : libs.urls.Url} {line : Text} (h : Reference libs rewrite context url line) :
    preferEnglishHlsAudioDefault line = line := by
  obtain @⟨path, sent, vod, hpath, -⟩ := h
  have haudio : hlsLineIsAudioMedia (grantReference libs path url sent context rewrite.emitLegacySignature vod) = false := by
    rcases hpath with rfl | rfl <;> rfl
  rw [preferEnglishHlsAudioDefault, haudio]
  rfl

/-- Without segments no line names anything. -/
theorem not_names_of_no_segments {lines : List Text} {source : Text} {url : libs.urls.Url} (h : segmentLines lines = [])
    (hsource : source ∈ lines) : ¬Names rewrite deployment source url := by
  intro hnames
  obtain ⟨tail, hcontents, htail⟩ := blocks_append_tail isUriLine (contents lines)
  rw [← segmentLines, h, List.flatten_nil, List.nil_append] at hcontents
  have hne : trimEnd source ≠ [] := by
    intro hnil
    have hwhite := List.rdropWhile_eq_nil_iff.mp hnil
    refine hnames.text ?_
    rw [trim, List.dropWhile_eq_nil_iff.mpr hwhite]
    rfl
  have hmem : trimEnd source ∈ contents lines :=
    List.mem_filter.mpr ⟨List.mem_map_of_mem hsource, by simpa using hne⟩
  have htag : isUriLine (trimEnd source) = isUriLine source := by
    obtain ⟨c, rest, hcons⟩ := List.exists_cons_of_ne_nil hne
    obtain ⟨more, hmore⟩ := List.rdropWhile_prefix isWhitespace source
    rw [← trimEnd, hcons] at hmore
    rw [hcons, ← hmore, List.cons_append]
    simp [isUriLine, startsWith, List.isPrefixOf]
  rw [hcontents] at hmem
  have hend := htail _ hmem
  rw [htag, hnames.uri] at hend
  cases hend

theorem sourceWindow_live {lines : List Text} (h : (sourceScan floats lines).segmentBlocks.isEmpty = false) :
    (∀ line ∈ (sourceScan floats lines).header, startsWith line ['#'] = true) ∧
      ∀ line, line ∈ (sourceScan floats lines).header ∨ line ∈ (sourceScan floats lines).segmentBlocks.flatten →
        line ∈ contents lines := by
  cases hb : segmentLines lines with
  | nil => exact absurd (sourceScan_blocks_nil hb) (by simpa using h)
  | cons block rest =>
    obtain ⟨hblocks, hheader⟩ := @sourceScan_blocks floats lines block rest hb
    have hmem {b : List Text} {line : Text} (hblock : b ∈ block :: rest) (hline : line ∈ b) : line ∈ contents lines :=
      mem_of_mem_blocks isUriLine (by rw [← segmentLines, hb]; exact hblock) hline
    constructor
    · intro line hline
      rw [hheader] at hline
      exact (Bool.and_eq_true_iff.mp (List.mem_filter.mp hline).2).1
    · rintro line (hline | hline)
      · rw [hheader] at hline
        exact hmem List.mem_cons_self (List.mem_filter.mp (List.mem_filter.mp hline).1).1
      · rw [hblocks] at hline
        obtain ⟨b, hbmem, hline⟩ := List.mem_flatten.mp hline
        rcases List.mem_cons.mp hbmem with rfl | hbmem
        · exact hmem List.mem_cons_self (List.mem_filter.mp (List.mem_filter.mp hline).1).1
        · obtain ⟨source, hsource, rfl⟩ := List.mem_map.mp hbmem
          exact hmem (List.mem_cons_of_mem block hsource) (List.mem_filter.mp hline).1

/-- The lines of the upstream playlist that the origin's output is made from. -/
def upstreamLines (floats : Floats) (rewrite : Rewrite libs) (playlist : Text) : List Text :=
  let lines := AsciiText.lines playlist
  if lines.any fun line => startsWith (trimStart line) "#EXT-X-STREAM-INF".toList then (rewrite.masterLines lines).map trimEnd
  else sourceWindow floats lines

/-- A text with one of the tags that the origin rewrites a playlist by. -/
def IsPlaylist (playlist : Text) : Prop :=
  ((AsciiText.lines playlist).any fun line => startsWith (trimStart line) "#EXT-X-STREAM-INF".toList) = true ∨
    ((AsciiText.lines playlist).any fun line => startsWith (trimStart line) "#EXTINF".toList) = true

/-- An output of the origin, line for line. -/
structure Written (rewrite : Rewrite libs) (deployment : Deployment) (context : LiveHlsSigningContext)
    (sources output : List Text) : Prop where
  answers : List.Forall₂ (Answers rewrite deployment context) sources output
  oneLine : ∀ line ∈ output, '\n' ∉ line

theorem Proxies.written_master (h : Proxies rewrite deployment context nowSeconds) (playlist : Text) :
    ∃ output, rewriteLiveHlsMasterPlaylist rewrite (AsciiText.lines playlist) = join '\n' output ∧
      Written rewrite deployment context ((rewrite.masterLines (AsciiText.lines playlist)).map trimEnd) output := by
  have hfree {line : Text} (hline : line ∈ rewrite.masterLines (AsciiText.lines playlist)) : '\n' ∉ rewrite.masterLine line := by
    have hend := newline_trimEnd (newline_lines (mem_masterLines hline))
    rw [Rewrite.masterLine]
    split
    · exact hend
    · split
      · refine newline_strip (newline_tag (h.plain_masterUrl ?_) hend)
        rw [masterTagPath]
        split
        · exact .inl rfl
        · exact .inr rfl
      · exact newline_uri (h.plain_masterUrl (.inl rfl)) hend
  have hplain : Written rewrite deployment context ((rewrite.masterLines (AsciiText.lines playlist)).map trimEnd)
      ((rewrite.masterLines (AsciiText.lines playlist)).map rewrite.masterLine) := by
    constructor
    · rw [List.forall₂_map_left_iff, List.forall₂_map_right_iff]
      exact List.forall₂_same.mpr fun line _ => h.answers_master line
    · intro line hline
      obtain ⟨raw, hraw, rfl⟩ := List.mem_map.mp hline
      exact hfree hraw
  rw [rewriteLiveHlsMasterPlaylist]
  split
  · rw [preferEnglishHlsAudioDefaults]
    split
    · refine ⟨_, rfl, ?_, ?_⟩
      · rw [List.map_map, List.forall₂_map_left_iff, List.forall₂_map_right_iff]
        refine List.forall₂_same.mpr fun line _ url hnames => ?_
        have hreference := h.answers_master line url hnames
        rw [Function.comp_apply, prefer_reference hreference]
        exact hreference
      · intro line hline
        obtain ⟨raw, hraw, rfl⟩ := List.mem_map.mp hline
        exact newline_prefer (hplain.oneLine raw hraw)
    · exact ⟨_, rfl, hplain⟩
  · exact ⟨_, rfl, hplain⟩

theorem Proxies.newline_liveLine (h : Proxies rewrite deployment context nowSeconds) {line : Text} (hline : '\n' ∉ line) :
    '\n' ∉ rewrite.liveLine line := by
  rw [Rewrite.liveLine]
  split
  · exact newline_tag h.plain_liveUrl hline
  · exact newline_uri h.plain_liveUrl hline

theorem newline_contents {playlist line : Text} (h : line ∈ contents (AsciiText.lines playlist)) : '\n' ∉ line := by
  obtain ⟨raw, hraw, rfl⟩ := List.mem_map.mp (List.mem_filter.mp h).1
  exact newline_trimEnd (newline_lines hraw)

theorem openingLine_mapLines {scan : MediaScan floats} (h : ∀ line ∈ scan.header, startsWith line ['#'] = true) :
    (scan.mapLines rewrite.liveLine).openingLine = scan.openingLine := by
  have hcontains : (scan.mapLines rewrite.liveLine).header.contains "#EXTM3U".toList = scan.header.contains "#EXTM3U".toList := by
    rw [Bool.eq_iff_iff, List.contains_iff_mem, List.contains_iff_mem, MediaScan.mapLines, List.mem_map]
    constructor
    · rintro ⟨line, hline, heq⟩
      rw [Rewrite.liveLine, if_pos (h line hline), tag_eq_opening] at heq
      rwa [← heq]
    · intro hmem
      exact ⟨_, hmem, by rw [Rewrite.liveLine, if_pos (h _ hmem), tag_eq_opening]⟩
  rw [MediaScan.openingLine, MediaScan.openingLine, hcontains]

theorem window_mapLines {scan : MediaScan floats} (h : ∀ line ∈ scan.header, startsWith line ['#'] = true) :
    (scan.mapLines rewrite.liveLine).window =
      (scan.openingLine ++ scan.header.map rewrite.liveLine ++ scan.startTag scan.droppedSegments ++
        [sequenceLine (wrapI64 scan.nextMediaSequence)]) ++
          ((scan.segmentBlocks.drop scan.droppedSegments).flatten).map rewrite.liveLine := by
  have hdropped : (scan.mapLines rewrite.liveLine).droppedSegments = scan.droppedSegments := by
    rw [MediaScan.droppedSegments, MediaScan.droppedSegments, MediaScan.mapLines, List.length_map]
  have hnext : (scan.mapLines rewrite.liveLine).nextMediaSequence = scan.nextMediaSequence := by
    rw [MediaScan.nextMediaSequence, MediaScan.nextMediaSequence, hdropped]
    rfl
  rw [window_eq, openingLine_mapLines h, hdropped, hnext, List.map_flatten, List.map_drop]
  rfl

/-- Lines that the window has of its own, or copies. -/
theorem startTag_tag {scan : MediaScan floats} {dropped : Nat} {line : Text} (hfixed : ∀ value, '\n' ∉ floats.fixed3 value)
    (h : line ∈ scan.startTag dropped) : startsWith line ['#'] = true ∧ '\n' ∉ line := by
  rw [MediaScan.startTag] at h
  split at h
  · obtain rfl := List.mem_singleton.mp h
    refine ⟨rfl, ?_⟩
    simp only [List.mem_append, not_or]
    exact ⟨⟨by decide, hfixed _⟩, by decide⟩
  · cases h

theorem sequenceLine_tag (n : Int) : startsWith (sequenceLine n) ['#'] = true ∧ '\n' ∉ sequenceLine n := by
  refine ⟨rfl, fun hmem => ?_⟩
  rcases List.mem_append.mp hmem with hmem | hmem
  · exact absurd hmem (by decide)
  · rw [← encode_decimalText] at hmem
    exact absurd (isReferenceChar_of_mem_encode hmem) (by decide)

theorem openingLine_tag {scan : MediaScan floats} {line : Text} (h : line ∈ scan.openingLine) :
    startsWith line ['#'] = true ∧ '\n' ∉ line := by
  rw [MediaScan.openingLine] at h
  split at h
  · cases h
  · obtain rfl := List.mem_singleton.mp h
    decide

theorem Proxies.written_window (h : Proxies rewrite deployment context nowSeconds) {playlist : Text}
    (hfixed : ∀ value, '\n' ∉ floats.fixed3 value)
    (hwindow : (sourceScan floats (AsciiText.lines playlist)).segmentBlocks.isEmpty = false) :
    Written rewrite deployment context (sourceScan floats (AsciiText.lines playlist)).window
      ((sourceScan floats (AsciiText.lines playlist)).mapLines rewrite.liveLine).window := by
  obtain ⟨hheader, hcontents⟩ := sourceWindow_live hwindow
  generalize sourceScan floats (AsciiText.lines playlist) = scan at hheader hcontents
  have hown {own : List Text} (htags : ∀ line ∈ own, startsWith line ['#'] = true ∧ '\n' ∉ line) :
      Written rewrite deployment context own own :=
    ⟨List.forall₂_same.mpr fun line hline => answers_tag (htags line hline).1, fun line hline => (htags line hline).2⟩
  have hcopied {copied : List Text} (hmem : ∀ line ∈ copied, line ∈ contents (AsciiText.lines playlist)) :
      Written rewrite deployment context copied (copied.map rewrite.liveLine) := by
    refine ⟨List.forall₂_map_right_iff.mpr (List.forall₂_same.mpr fun line _ => h.answers_live line), fun line hline => ?_⟩
    obtain ⟨source, hsource, rfl⟩ := List.mem_map.mp hline
    exact h.newline_liveLine (newline_contents (hmem source hsource))
  have happend {sources output sources' output' : List Text} (hfirst : Written rewrite deployment context sources output)
      (hsecond : Written rewrite deployment context sources' output') :
      Written rewrite deployment context (sources ++ sources') (output ++ output') :=
    ⟨List.rel_append hfirst.answers hsecond.answers, fun line hline =>
      (List.mem_append.mp hline).elim (hfirst.oneLine line) (hsecond.oneLine line)⟩
  have hblocks : ∀ line ∈ (scan.segmentBlocks.drop scan.droppedSegments).flatten,
      line ∈ contents (AsciiText.lines playlist) := by
    intro line hline
    obtain ⟨block, hblock, hmem⟩ := List.mem_flatten.mp hline
    exact hcontents line (.inr (List.mem_flatten.mpr ⟨block, List.mem_of_mem_drop hblock, hmem⟩))
  rw [window_eq, window_mapLines hheader]
  refine happend (happend (happend (happend (hown fun line => openingLine_tag) (hcopied fun line hline => ?_))
    (hown fun line => startTag_tag hfixed)) (hown fun line hline => ?_)) (hcopied hblocks)
  · exact hcontents line (.inl hline)
  · obtain rfl := List.mem_singleton.mp hline
    exact sequenceLine_tag _

theorem Proxies.written_media (h : Proxies rewrite deployment context nowSeconds)
    (hfixed : ∀ value, '\n' ∉ floats.fixed3 value) (playlist : Text) :
    ∃ output, rewriteLiveHlsMediaPlaylist floats rewrite (AsciiText.lines playlist) = join '\n' output ∧
      Written rewrite deployment context (sourceWindow floats (AsciiText.lines playlist)) output := by
  unfold rewriteLiveHlsMediaPlaylist sourceWindow
  rw [scanMedia_mapLines]
  dsimp only
  split
  · refine ⟨_, rfl, ?_, fun line hline => ?_⟩
    · rw [List.forall₂_map_left_iff, List.forall₂_map_right_iff]
      exact List.forall₂_same.mpr fun line _ => h.answers_vod line
    · obtain ⟨raw, hraw, rfl⟩ := List.mem_map.mp hline
      have hend := newline_trimEnd (newline_lines hraw)
      rw [Rewrite.vodLine]
      split
      · exact hend
      · split
        · exact newline_tag h.plain_vodUrl hend
        · exact newline_uri h.plain_vodUrl hend
  · have hempty : ((sourceScan floats (AsciiText.lines playlist)).mapLines rewrite.liveLine).segmentBlocks.isEmpty =
        (sourceScan floats (AsciiText.lines playlist)).segmentBlocks.isEmpty := by
      rw [MediaScan.mapLines]
      cases (sourceScan floats (AsciiText.lines playlist)).segmentBlocks <;> rfl
    rw [hempty]
    cases hwindow : (sourceScan floats (AsciiText.lines playlist)).segmentBlocks.isEmpty with
    | false => exact ⟨_, rfl, h.written_window hfixed hwindow⟩
    | true =>
      have hnone : segmentLines (AsciiText.lines playlist) = [] := by
        have hlength := @length_sourceScan_blocks floats (AsciiText.lines playlist)
        rw [List.isEmpty_iff.mp hwindow, List.length_nil] at hlength
        exact List.length_eq_zero_iff.mp hlength.symm
      refine ⟨_, rfl, List.forall₂_same.mpr fun line hline url hnames => ?_, fun line hline => newline_lines hline⟩
      exact absurd hnames (not_names_of_no_segments hnone hline)

end lines

def cdnContext : LiveHlsSigningContext := ⟨"secret".toList, 1800000000, none⟩

def cdnRewrite : Rewrite plainLibraries := ⟨cdnUrl, none, some cdnContext, false, false⟩

def cdnDeployment : Deployment := ⟨"edge.example.workers.dev".toList, ⟨"secret".toList, none⟩, true⟩

/-- A playlist that is at its end, with one segment. -/
def endedPlaylist : Text := "#EXTM3U\n#EXTINF:4,\nsegment.ts\n#EXT-X-ENDLIST\n".toList

/-- The segment is named. -/
example : Names cdnRewrite cdnDeployment "segment.ts".toList ⟨"https://cdn.example.com/live/segment.ts".toList, by decide⟩ where
  uri := rfl
  text := by decide
  join := by decide +kernel
  isPublic := by decide +kernel
  proxied := by decide +kernel
  other := by decide +kernel

end StreamArena.LiveHls.Worker
