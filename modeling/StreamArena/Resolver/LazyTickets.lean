import StreamArena.Library.Base64Url
import StreamArena.Library.Contexts
import StreamArena.Library.UrlQueries
import StreamArena.LiveHls.Grants

/-! Tickets for streams that are resolved when they are played (src/resolver/real_debrid.rs): a download of one
user, signed for ten minutes. -/
namespace Decimal
open AsciiText

theorem digitChar_of_isDigit {c : Char} (h : c.isDigit = true) :
    c.toNat - '0'.toNat < 10 ∧ Nat.digitChar (c.toNat - '0'.toNat) = c := by
  have hrange : 48 ≤ c.toNat ∧ c.toNat ≤ 57 := by
    simpa [Char.isDigit, UInt32.le_iff_toNat_le] using h
  have hzero : '0'.toNat = 48 := rfl
  have hall : ∀ n < 10, (Nat.digitChar n).toNat = n + 48 := by decide
  refine ⟨by omega, Char.toNat_inj.mp ?_⟩
  rw [hall _ (by omega)]
  omega

theorem toDigits_ofDigitChars {text : Text} (hne : text ≠ []) (hdigits : text.all Char.isDigit = true)
    (hzero : 1 < text.length → text.head? ≠ some '0') : Nat.toDigits 10 (Nat.ofDigitChars 10 text 0) = text := by
  induction text using List.reverseRecOn with
  | nil => exact absurd rfl hne
  | append_singleton init d ih =>
    have hd : d.isDigit = true := List.all_eq_true.mp hdigits d (by simp)
    obtain ⟨hlt, hchar⟩ := digitChar_of_isDigit hd
    rw [Nat.ofDigitChars_append, Nat.ofDigitChars_cons, Nat.ofDigitChars_nil, Nat.toDigits_eq_if (by decide)]
    by_cases hinit : init = []
    · subst hinit
      rw [Nat.ofDigitChars_nil, Nat.mul_zero, Nat.zero_add, if_pos hlt, hchar, List.nil_append]
    · have hhead : init.head? ≠ some '0' := by
        have h := hzero (by have := List.length_pos_of_ne_nil hinit; simp; omega)
        rwa [List.head?_append_of_ne_nil _ hinit] at h
      have hrest := ih hinit (by simp_all) fun _ => hhead
      have hpos : Nat.ofDigitChars 10 init 0 ≠ 0 := by
        intro hval
        rw [hval] at hrest
        rw [← hrest] at hhead
        exact hhead rfl
      have hdiv : (10 * Nat.ofDigitChars 10 init 0 + (d.toNat - '0'.toNat)) / 10 = Nat.ofDigitChars 10 init 0 := by omega
      have hmod : (10 * Nat.ofDigitChars 10 init 0 + (d.toNat - '0'.toNat)) % 10 = d.toNat - '0'.toNat := by omega
      rw [if_neg (by omega), hdiv, hmod, hrest, hchar]

/-- Digits without a leading zero are the decimal text of the number that they read as. -/
theorem decimalText_of_parse {text : Text} {n : Int} (hne : text ≠ []) (hdigits : text.all Char.isDigit = true)
    (hzero : 1 < text.length → text.head? ≠ some '0') (h : parseI64 text = some n) :
    decimalText n = text ∧ 0 ≤ n ∧ n ≤ i64Max := by
  rw [parseI64_of_parseDigits (if_pos ⟨hne, hdigits⟩)] at h
  split at h
  · next hmax =>
    obtain rfl := Option.some.inj h
    refine ⟨?_, by omega, hmax⟩
    rw [decimalText_natCast, toDigits_ofDigitChars hne hdigits hzero]
  · cases h
end Decimal

namespace StreamArena.Resolver.LazyTickets
open AsciiText Aead Decimal FormUrlencoded Separated

def ticketTtlSeconds : Int := 10 * 60
def ticketMaxFutureSeconds : Int := ticketTtlSeconds + 5
def signatureContext : Text := "streamarena-rd-lazy-hls-v1".toList
def ticketPrefix : Text := "streamarena-rd-hls-v1.".toList
def masterPath : Text := "/api/hls/master.m3u8".toList
def inputName : Text := "input".toList

/-- URLs, a decoder and HMAC-SHA256. -/
structure Libraries where
  urls : Urls.Library
  web : Urls.Queries urls
  decoder : Urls.LossyDecoder
  mac : Mac.Code
  length_mac : ∀ key message, (mac key message).length = 32

/-- Whom a download is resolved for: the user, the digest of the credential, and the delivery. -/
structure RequestContext where
  userId : Int
  credentialBinding : Aead.Bytes
  remoteTraffic : Bool
  length_binding : credentialBinding.length = 32

structure AuthorizedTicket where
  downloadId : Text
  expiresAt : Int
  deriving DecidableEq

def deliveryScope (remoteTraffic : Bool) : Text :=
  if remoteTraffic then "remote-hls-v1".toList else "direct-v1".toList

def validDownloadId (value : Text) : Bool :=
  !value.isEmpty && decide (value.length ≤ 64) && value.all Char.isAlphanum

def ticketPayload (downloadId : Text) (expiresAt : Int) (rd : RequestContext) : Aead.Bytes :=
  utf8Bytes downloadId ++ 0 :: (utf8Bytes (decimalText expiresAt) ++ 0 :: (utf8Bytes (decimalText rd.userId) ++
    0 :: (rd.credentialBinding ++ 0 :: utf8Bytes (deliveryScope rd.remoteTraffic))))

def signedMessage (downloadId : Text) (expiresAt : Int) (rd : RequestContext) : Aead.Bytes :=
  Contexts.framed (utf8Bytes signatureContext) (ticketPayload downloadId expiresAt rd)

section code
variable (libs : Libraries)

def signTicket (downloadId : Text) (expiresAt : Int) (rd : RequestContext) (secret : Text) : Text :=
  Base64Url.encode (libs.mac (utf8Bytes secret) (signedMessage downloadId expiresAt rd))

def verifySignature (downloadId : Text) (expiresAt : Int) (signature : Text) (rd : RequestContext) (secret : Text) : Bool :=
  if secret.isEmpty || decide (signature.length ≠ 43) || !signature.all Base64Url.isAlphabet then false
  else
    match Base64Url.decode signature with
    | none => false
    | some bytes =>
      if bytes.length ≠ 32 ∨ Base64Url.encode bytes ≠ signature then false
      else libs.mac (utf8Bytes secret) (signedMessage downloadId expiresAt rd) == bytes

def parseTicket (input : Text) : Option (Text × Int × Text) := do
  let payload ← stripPrefix input ticketPrefix
  match payload.splitOn '.' with
  | [downloadId, expiry, signature] =>
    if !validDownloadId downloadId || expiry.isEmpty || decide (19 < expiry.length) ||
        decide (1 < expiry.length) && expiry.head? == some '0' || !expiry.all Char.isDigit then none
    else (parseI64 expiry).map fun expiresAt => (downloadId, expiresAt, signature)
  | _ => none

def authorizeTicket (input : Text) (rd : RequestContext) (secret : Text) (nowSeconds : Int) : Option AuthorizedTicket :=
  if !rd.remoteTraffic || (trim secret).isEmpty then none
  else do
    let (downloadId, expiresAt, signature) ← parseTicket input
    if decide (expiresAt ≤ nowSeconds) || decide (saturate (nowSeconds + ticketMaxFutureSeconds) < expiresAt) ||
        !verifySignature libs downloadId expiresAt signature rd secret then none
    else some ⟨downloadId, expiresAt⟩

def ticketText (downloadId : Text) (expiresAt : Int) (signature : Text) : Text :=
  ticketPrefix ++ (downloadId ++ '.' :: (decimalText expiresAt ++ '.' :: signature))

def buildPlaybackSourceAt (downloadId : Text) (streamable : Bool) (rd : RequestContext) (secret : Text)
    (nowSeconds : Int) : Option Text :=
  if !streamable || !rd.remoteTraffic || !validDownloadId downloadId || (trim secret).isEmpty then none
  else
    let expiresAt := saturate (nowSeconds + ticketTtlSeconds)
    let signature := signTicket libs downloadId expiresAt rd secret
    some (masterPath ++ '?' :: serialize [(inputName, ticketText downloadId expiresAt signature)])

def isLazyHlsInput (input : Text) : Bool := startsWith input ticketPrefix

def parseStrictQuery (query : Text) : Option Text :=
  match parse libs.decoder.decode query with
  | [(key, value)] => if key = inputName ∧ isLazyHlsInput value = true then some value else none
  | _ => none

/-- The ticket of a stored URL. -/
def storedInput (value : Text) : Option Text := do
  let url ← (libs.urls.parse value).or (libs.urls.parse ("http://localhost".toList ++ value))
  if libs.urls.path url ≠ masterPath then none
  else
    let query ← libs.web.query url
    parseStrictQuery libs query

/-- Its download, if the ticket was signed for this context, whenever it expired. -/
def storedDownload (value : Text) (rd : RequestContext) (secret : Text) : Option Text := do
  let input ← storedInput libs value
  let (downloadId, expiresAt, signature) ← parseTicket input
  if !rd.remoteTraffic || !verifySignature libs downloadId expiresAt signature rd secret then none
  else some downloadId

def refreshPlaybackSource (value : Text) (rd : RequestContext) (secret : Text) (nowSeconds : Int) : Option Text := do
  let downloadId ← storedDownload libs value rd secret
  buildPlaybackSourceAt libs downloadId true rd secret nowSeconds

structure ResolvedSource where
  playableUrl : Text
  fallbackUrls : List Text

def ResolvedSource.urls (source : ResolvedSource) : List Text := source.playableUrl :: source.fallbackUrls

/-- The clock is read for each URL; `clock 0` is read for the first. -/
def refreshFallbacks (source : ResolvedSource) (rd : Option RequestContext) (secret : Text) (clock : Nat → Int) :
    ResolvedSource :=
  match rd with
  | none => source
  | some rd =>
    { playableUrl := (refreshPlaybackSource libs source.playableUrl rd secret (clock 0)).getD source.playableUrl
      fallbackUrls := source.fallbackUrls.mapIdx fun i value =>
        (refreshPlaybackSource libs value rd secret (clock (i + 1))).getD value }

/-! What was minted -/

/-- A call of the builder. -/
structure Call where
  downloadId : Text
  streamable : Bool
  rd : RequestContext
  secret : Text
  nowSeconds : Int

def Call.url (call : Call) : Option Text :=
  buildPlaybackSourceAt libs call.downloadId call.streamable call.rd call.secret call.nowSeconds

def Call.expiresAt (call : Call) : Int := saturate (call.nowSeconds + ticketTtlSeconds)

def Call.ticket (call : Call) : Text :=
  ticketText call.downloadId call.expiresAt (signTicket libs call.downloadId call.expiresAt call.rd call.secret)

inductive Operation where
  | mint (call : Call)
  | refresh (source : ResolvedSource) (rd : Option RequestContext) (secret : Text) (clock : Nat → Int)

/-- The calls that an operation comes to. -/
def Operation.calls : Operation → List Call
  | mint call => [call]
  | refresh _ none _ _ => []
  | refresh source (some rd) secret clock =>
    source.urls.zipIdx.filterMap fun (value, i) =>
      (storedDownload libs value rd secret).map fun downloadId => ⟨downloadId, true, rd, secret, clock i⟩

/-- What was signed for tickets in a history. -/
def Minted (history : List Operation) (key payload : Aead.Bytes) : Prop :=
  ∃ operation ∈ history, ∃ call ∈ operation.calls libs, (call.url libs).isSome = true ∧
    key = utf8Bytes call.secret ∧ payload = ticketPayload call.downloadId call.expiresAt call.rd

/-- The history signed no more than it did, and its secret signs under other contexts elsewhere. -/
def Honest (history : List Operation) (tag : Aead.Bytes) : Prop :=
  Mac.Honest libs.mac (Contexts.Signed (utf8Bytes signatureContext) (Minted libs history)) tag

/-- The tag of a ticket. -/
def presentedTag (input : Text) : Option Aead.Bytes := do
  let (_, _, signature) ← parseTicket input
  Base64Url.decode signature

/-- The tags that an operation verifies. -/
def Operation.presentedTags : Operation → List Aead.Bytes
  | refresh source (some _) _ _ => source.urls.filterMap fun value => do
    let input ← storedInput libs value
    presentedTag input
  | _ => []

/-- A history, latest first, in which no tag verifies for what was not signed before. -/
inductive HonestRun : List Operation → Prop
  | nil : HonestRun []
  | cons {operation : Operation} {history : List Operation} : HonestRun history →
    (∀ tag ∈ operation.presentedTags libs, Honest libs history tag) → HonestRun (operation :: history)

end code

variable {libs : Libraries} {downloadId signature secret : Text} {expiresAt : Int} {rd : RequestContext}

/-! Signatures and texts -/

theorem length_encode (bytes : Aead.Bytes) : (Base64Url.encode bytes).length = (8 * bytes.length + 5) / 6 := by
  induction bytes using Base64Url.encode.induct with
  | case1 => simp [Base64Url.encode]
  | case2 a => simp [Base64Url.encode]
  | case3 a b => simp [Base64Url.encode]
  | case4 a b c rest ih =>
    simp only [Base64Url.encode, List.length_cons, ih]
    omega

theorem verifySignature_iff :
    verifySignature libs downloadId expiresAt signature rd secret = true ↔
      secret ≠ [] ∧ signature = signTicket libs downloadId expiresAt rd secret := by
  constructor
  · intro h
    rw [verifySignature] at h
    split at h
    · cases h
    · next hshape =>
      split at h
      · cases h
      · next bytes hdecode =>
        split at h
        · cases h
        · next hbytes =>
          have hmac := eq_of_beq h
          refine ⟨?_, ?_⟩
          · rintro rfl
            exact hshape rfl
          · rw [signTicket, hmac]
            exact (not_not.mp (not_or.mp hbytes).2).symm
  · rintro ⟨hne, rfl⟩
    have hlength : (signTicket libs downloadId expiresAt rd secret).length = 43 := by
      rw [signTicket, length_encode, libs.length_mac]
    have halphabet : (signTicket libs downloadId expiresAt rd secret).all Base64Url.isAlphabet = true :=
      List.all_eq_true.mpr (Base64Url.encode_alphabet _)
    rw [verifySignature, if_neg (by simp [hne, hlength, halphabet]), signTicket, Base64Url.decode_encode]
    dsimp only
    rw [if_neg (by simp [libs.length_mac])]
    exact beq_self_eq_true _

theorem alphabet_of_downloadId (h : validDownloadId downloadId = true) : ∀ c ∈ downloadId, c.isAlphanum = true := by
  simp only [validDownloadId, Bool.and_eq_true] at h
  exact List.all_eq_true.mp h.2

theorem zero_notMem_downloadId (h : validDownloadId downloadId = true) : 0 ∉ utf8Bytes downloadId := by
  refine LiveHls.zero_not_mem_utf8Bytes fun c hc => ?_
  have hrange := Base64Url.toNat_of_isAlphabet (c := c) (by simp [Base64Url.isAlphabet, alphabet_of_downloadId h c hc])
  simp only [Urls.isPrintable, Bool.and_eq_true, decide_eq_true_eq]
  omega

theorem zero_notMem_decimalText (n : Int) : 0 ∉ utf8Bytes (decimalText n) :=
  LiveHls.zero_not_mem_utf8Bytes fun _ hc => LiveHls.isPrintable_of_mem_decimalText hc

theorem deliveryScope_injective {a b : Bool} (h : deliveryScope a = deliveryScope b) : a = b := by
  cases a <;> cases b <;> first | rfl | exact absurd h (by decide)

/-- The digest may hold any bytes, but it is always as long. -/
theorem ticketPayload_injective {downloadId' : Text} {expiresAt' : Int} {rd' : RequestContext}
    (hid : validDownloadId downloadId = true) (hid' : validDownloadId downloadId' = true)
    (h : ticketPayload downloadId expiresAt rd = ticketPayload downloadId' expiresAt' rd') :
    downloadId = downloadId' ∧ expiresAt = expiresAt' ∧ rd = rd' := by
  obtain ⟨hdownload, h⟩ := first_injective (zero_notMem_downloadId hid) (zero_notMem_downloadId hid') h
  obtain ⟨hexpiry, h⟩ := first_injective (zero_notMem_decimalText _) (zero_notMem_decimalText _) h
  obtain ⟨huser, h⟩ := first_injective (zero_notMem_decimalText _) (zero_notMem_decimalText _) h
  obtain ⟨hbinding, h⟩ := List.append_inj h (rd.length_binding.trans rd'.length_binding.symm)
  have hscope := deliveryScope_injective (utf8Bytes_injective (List.cons_inj_right 0 |>.mp h))
  refine ⟨utf8Bytes_injective hdownload, decimal_injective (utf8Bytes_injective hexpiry), ?_⟩
  cases rd with
  | mk userId credentialBinding remoteTraffic _ =>
    cases rd' with
    | mk userId' credentialBinding' remoteTraffic' _ =>
      obtain rfl : userId = userId' := decimal_injective (utf8Bytes_injective huser)
      obtain rfl : credentialBinding = credentialBinding' := hbinding
      obtain rfl : remoteTraffic = remoteTraffic' := hscope
      rfl

theorem ticketText_eq_join (downloadId : Text) (expiresAt : Int) (signature : Text) :
    ticketText downloadId expiresAt signature = ticketPrefix ++ join '.' [downloadId, decimalText expiresAt, signature] := by
  rw [join_cons _ (List.cons_ne_nil _ _), join_cons _ (List.cons_ne_nil _ _), join_singleton, ticketText]

theorem dot_notMem_decimalText (n : Int) : '.' ∉ decimalText n := by
  intro h
  cases mem_decimal h with
  | inl hdigit => exact absurd hdigit (by decide)
  | inr hminus => exact absurd hminus (by decide)

theorem dot_notMem_downloadId (h : validDownloadId downloadId = true) : '.' ∉ downloadId := fun hdot =>
  absurd (alphabet_of_downloadId h '.' hdot) (by decide)

theorem dot_notMem_signTicket : '.' ∉ signTicket libs downloadId expiresAt rd secret := fun hdot =>
  absurd (Base64Url.encode_alphabet _ '.' hdot) (by decide)

/-- A ticket reads in one way only. -/
theorem parseTicket_eq_some {input : Text} :
    parseTicket input = some (downloadId, expiresAt, signature) ↔
      validDownloadId downloadId = true ∧ 0 ≤ expiresAt ∧ expiresAt ≤ i64Max ∧ '.' ∉ signature ∧
        input = ticketText downloadId expiresAt signature := by
  constructor
  · intro h
    obtain ⟨payload, hpayload, h⟩ := Option.bind_eq_some_iff.mp h
    rw [stripPrefix_eq_some] at hpayload
    split at h
    · next first expiry last hsplit =>
      split at h
      · cases h
      · next hguard =>
        obtain ⟨seconds, hparse, heq⟩ := Option.map_eq_some_iff.mp h
        cases heq
        have hjoin : join '.' [downloadId, expiry, signature] = payload := by
          rw [← hsplit]
          exact List.intercalate_splitOn '.'
        have hvalid : validDownloadId downloadId = true := by
          by_contra hnot
          exact hguard (by simp [hnot])
        have hne : expiry ≠ [] := by
          rintro rfl
          exact hguard (by simp)
        have hdigits : expiry.all Char.isDigit = true := by
          by_contra hnot
          exact hguard (by simp [hnot])
        have hzero : 1 < expiry.length → expiry.head? ≠ some '0' := fun hlong hhead =>
          hguard (by simp [hlong, hhead])
        obtain ⟨htext, hnonneg, hmax⟩ := decimalText_of_parse hne hdigits hzero hparse
        have hlast : signature ∈ payload.splitOn '.' := by simp [hsplit]
        refine ⟨hvalid, hnonneg, hmax, notMem_of_mem_splitOn hlast, ?_⟩
        rw [ticketText_eq_join, htext, hjoin, hpayload]
    · cases h
  · rintro ⟨hvalid, hnonneg, hmax, hdot, rfl⟩
    have hsplit : (join '.' [downloadId, decimalText expiresAt, signature]).splitOn '.' =
        [downloadId, decimalText expiresAt, signature] := by
      refine List.splitOn_intercalate '.' ?_ (List.cons_ne_nil _ _)
      intro piece hpiece
      simp only [List.mem_cons, List.not_mem_nil, or_false] at hpiece
      rcases hpiece with rfl | rfl | rfl
      · exact dot_notMem_downloadId hvalid
      · exact dot_notMem_decimalText _
      · exact hdot
    have hcanonical := isCanonical_decimalText hnonneg
    simp only [isCanonical, Bool.and_eq_true, Bool.not_eq_true'] at hcanonical
    obtain ⟨⟨hne, hdigits⟩, hfirst⟩ := hcanonical
    have hlength : ¬ 19 < (decimalText expiresAt).length := by
      obtain ⟨n, rfl⟩ := Int.eq_ofNat_of_zero_le hnonneg
      rw [decimalText_natCast, Nat.not_lt]
      refine Nat.toDigits_length 10 n 19 (by decide) ?_
      simp only [i64Max] at hmax
      omega
    rw [ticketText_eq_join, parseTicket, stripPrefix_eq_some.mpr rfl]
    simp only [Option.bind_eq_bind, Option.bind_some, hsplit]
    rw [if_neg, parseI64_decimalText hnonneg hmax]
    · rfl
    · simp only [hvalid, hne, hdigits, hfirst, hlength, decide_false, Bool.not_true, Bool.or_self, Bool.false_eq_true,
        not_false_eq_true]

/-! What is minted is accepted -/

theorem buildPlaybackSourceAt_eq_some {streamable : Bool} {nowSeconds : Int} {url : Text} :
    buildPlaybackSourceAt libs downloadId streamable rd secret nowSeconds = some url ↔
      streamable = true ∧ rd.remoteTraffic = true ∧ validDownloadId downloadId = true ∧ trim secret ≠ [] ∧
        url = masterPath ++ '?' :: serialize [(inputName, ticketText downloadId (saturate (nowSeconds + ticketTtlSeconds))
          (signTicket libs downloadId (saturate (nowSeconds + ticketTtlSeconds)) rd secret))] := by
  rw [buildPlaybackSourceAt]
  split
  · next hguard =>
    constructor
    · intro h
      cases h
    · rintro ⟨hstreamable, hremote, hvalid, hsecret, -⟩
      simp [hstreamable, hremote, hvalid, hsecret] at hguard
  · next hguard =>
    simp only [Bool.or_eq_true, Bool.not_eq_true', List.isEmpty_iff, not_or, Bool.not_eq_false] at hguard
    rw [Option.some.injEq]
    exact ⟨fun h => ⟨hguard.1.1.1, hguard.1.1.2, hguard.1.2, hguard.2, h.symm⟩, fun h => h.2.2.2.2.symm⟩

theorem authorizeTicket_eq_some {input : Text} {nowSeconds : Int} {ticket : AuthorizedTicket} :
    authorizeTicket libs input rd secret nowSeconds = some ticket ↔
      (rd.remoteTraffic = true ∧ trim secret ≠ [] ∧ validDownloadId ticket.downloadId = true) ∧
        (0 ≤ ticket.expiresAt ∧ ticket.expiresAt ≤ i64Max ∧ nowSeconds < ticket.expiresAt ∧
          ticket.expiresAt ≤ saturate (nowSeconds + ticketMaxFutureSeconds)) ∧
        input = ticketText ticket.downloadId ticket.expiresAt (signTicket libs ticket.downloadId ticket.expiresAt rd secret) := by
  rw [authorizeTicket]
  constructor
  · intro h
    split at h
    · cases h
    · next hcontext =>
      obtain ⟨⟨downloadId, expiresAt, signature⟩, hparse, h⟩ := Option.bind_eq_some_iff.mp h
      dsimp only at h
      split at h
      · cases h
      · next hguard =>
        cases h
        simp only [Bool.or_eq_true, Bool.not_eq_true', List.isEmpty_iff, not_or, Bool.not_eq_false] at hcontext
        simp only [Bool.or_eq_true, Bool.not_eq_true', decide_eq_true_eq, not_or, Bool.not_eq_false, Int.not_le,
          Int.not_lt] at hguard
        obtain ⟨hvalid, hnonneg, hmax, -, hinput⟩ := parseTicket_eq_some.mp hparse
        rw [(verifySignature_iff.mp hguard.2).2] at hinput
        exact ⟨⟨hcontext.1, hcontext.2, hvalid⟩, ⟨hnonneg, hmax, hguard.1.1, hguard.1.2⟩, hinput⟩
  · rintro ⟨⟨hremote, hsecret, hvalid⟩, ⟨hnonneg, hmax, hlater, hfuture⟩, rfl⟩
    have hne : secret ≠ [] := by
      rintro rfl
      exact hsecret trim_nil
    have hparse := parseTicket_eq_some.mpr ⟨hvalid, hnonneg, hmax, @dot_notMem_signTicket libs ticket.downloadId secret
      ticket.expiresAt rd, rfl⟩
    have hverify := (@verifySignature_iff libs ticket.downloadId _ secret ticket.expiresAt rd).mpr ⟨hne, rfl⟩
    rw [if_neg (by simp [hremote, hsecret]), hparse]
    dsimp only [Option.bind_eq_bind, Option.bind_some]
    rw [if_neg (by simp [hverify, hlater, hfuture])]

theorem parseStrictQuery_serialize (ticket : Text) :
    parseStrictQuery libs (serialize [(inputName, ticketPrefix ++ ticket)]) = some (ticketPrefix ++ ticket) := by
  rw [parseStrictQuery, parse_serialize libs.decoder.decode_utf8Bytes]
  exact if_pos ⟨rfl, startsWith_iff.mpr (List.prefix_append _ _)⟩

/-- The URL of a mint leads to a ticket that is accepted from five seconds before the mint until it expires. -/
theorem Call.accepted {call : Call} {url : Text} (h : call.url libs = some url) :
    ∃ query, url = masterPath ++ '?' :: query ∧ parseStrictQuery libs query = some (call.ticket libs) ∧
      ∀ nowSeconds, 0 ≤ call.expiresAt → nowSeconds < call.expiresAt →
        call.expiresAt ≤ saturate (nowSeconds + ticketMaxFutureSeconds) →
          authorizeTicket libs (call.ticket libs) call.rd call.secret nowSeconds =
            some ⟨call.downloadId, call.expiresAt⟩ := by
  obtain ⟨-, hremote, hvalid, hsecret, rfl⟩ := buildPlaybackSourceAt_eq_some.mp h
  refine ⟨_, rfl, parseStrictQuery_serialize _, fun nowSeconds hnonneg hlater hfuture => ?_⟩
  have hmax : call.expiresAt ≤ i64Max := by
    rw [Call.expiresAt, saturate]
    exact max_le (by decide) (min_le_left _ _)
  exact authorizeTicket_eq_some.mpr ⟨⟨hremote, hsecret, hvalid⟩, ⟨hnonneg, hmax, hlater, hfuture⟩, rfl⟩

/-! What is accepted was minted -/

section
variable {history : List Operation}

/-- The message under an honest tag was signed for a ticket. -/
theorem minted_of_honest (hvalid : validDownloadId downloadId = true)
    (h : Honest libs history (libs.mac (utf8Bytes secret) (signedMessage downloadId expiresAt rd))) :
    ∃ operation ∈ history, ∃ call ∈ operation.calls libs, (call.url libs).isSome = true ∧
      call.downloadId = downloadId ∧ call.expiresAt = expiresAt ∧ call.rd = rd ∧ call.secret = secret := by
  have hcontext : 0 ∉ utf8Bytes signatureContext := by decide +kernel
  obtain ⟨operation, hoperation, call, hcall, hurl, hkey, hpayload⟩ := Contexts.own_of_signed hcontext (h _ _ rfl)
  obtain ⟨url, hsome⟩ := Option.isSome_iff_exists.mp hurl
  obtain ⟨-, -, hvalid', -, -⟩ := buildPlaybackSourceAt_eq_some.mp hsome
  obtain ⟨hid, hexpiry, hrd⟩ := ticketPayload_injective hvalid hvalid' hpayload
  exact ⟨operation, hoperation, call, hcall, hurl, hid.symm, hexpiry.symm, hrd.symm, (utf8Bytes_injective hkey).symm⟩

theorem presentedTag_ticketText (hvalid : validDownloadId downloadId = true) (hnonneg : 0 ≤ expiresAt) (hmax : expiresAt ≤ i64Max) :
    presentedTag (ticketText downloadId expiresAt (signTicket libs downloadId expiresAt rd secret)) =
      some (libs.mac (utf8Bytes secret) (signedMessage downloadId expiresAt rd)) := by
  rw [presentedTag, parseTicket_eq_some.mpr ⟨hvalid, hnonneg, hmax, dot_notMem_signTicket, rfl⟩]
  exact Base64Url.decode_encode _

theorem storedDownload_eq_some {value : Text} (h : storedDownload libs value rd secret = some downloadId) :
    validDownloadId downloadId = true ∧ ∃ input expiresAt, storedInput libs value = some input ∧
      presentedTag input = some (libs.mac (utf8Bytes secret) (signedMessage downloadId expiresAt rd)) := by
  obtain ⟨input, hinput, h⟩ := Option.bind_eq_some_iff.mp h
  obtain ⟨⟨first, expiresAt, signature⟩, hparse, h⟩ := Option.bind_eq_some_iff.mp h
  dsimp only at h
  split at h
  · cases h
  · next hguard =>
    cases h
    simp only [Bool.or_eq_true, Bool.not_eq_true', not_or, Bool.not_eq_false] at hguard
    obtain ⟨hvalid, hnonneg, hmax, -, htext⟩ := parseTicket_eq_some.mp hparse
    rw [(verifySignature_iff.mp hguard.2).2] at htext
    exact ⟨hvalid, input, expiresAt, hinput, by rw [htext, presentedTag_ticketText hvalid hnonneg hmax]⟩

/-- A refreshed ticket stands in a line of tickets that begins with one that was asked for. -/
theorem HonestRun.direct (h : HonestRun libs history) :
    ∀ operation ∈ history, ∀ call ∈ operation.calls libs, (call.url libs).isSome = true →
      ∃ first, Operation.mint first ∈ history ∧ (first.url libs).isSome = true ∧ first.downloadId = call.downloadId ∧
        first.rd = call.rd ∧ first.secret = call.secret := by
  induction h with
  | nil => simp
  | @cons latest history hrun hhonest ih =>
    have hearlier : ∀ operation ∈ history, ∀ call ∈ operation.calls libs, (call.url libs).isSome = true →
        ∃ first, Operation.mint first ∈ latest :: history ∧ (first.url libs).isSome = true ∧
          first.downloadId = call.downloadId ∧ first.rd = call.rd ∧ first.secret = call.secret := by
      intro operation hoperation call hcall hurl
      obtain ⟨first, hfirst, hrest⟩ := ih operation hoperation call hcall hurl
      exact ⟨first, List.mem_cons_of_mem latest hfirst, hrest⟩
    intro operation hoperation call hcall hurl
    rcases List.mem_cons.mp hoperation with rfl | hoperation
    · cases operation with
      | mint first =>
        obtain rfl := List.mem_singleton.mp hcall
        exact ⟨call, List.mem_cons_self, hurl, rfl, rfl, rfl⟩
      | refresh source context secret clock =>
        cases context with
        | none => cases hcall
        | some rd =>
          obtain ⟨⟨value, i⟩, hvalue, hcall⟩ := List.mem_filterMap.mp hcall
          obtain ⟨downloadId, hstored, rfl⟩ := Option.map_eq_some_iff.mp hcall
          obtain ⟨hvalid, input, expiresAt, hinput, htag⟩ := storedDownload_eq_some hstored
          have hpresented : libs.mac (utf8Bytes secret) (signedMessage downloadId expiresAt rd) ∈
              (Operation.refresh source (some rd) secret clock).presentedTags libs := by
            refine List.mem_filterMap.mpr ⟨value, List.fst_mem_of_mem_zipIdx hvalue, ?_⟩
            rw [hinput]
            exact htag
          obtain ⟨before, hbefore, call, hcall, hurl, hid, -, hrd, hsecret⟩ :=
            minted_of_honest hvalid (hhonest _ hpresented)
          obtain ⟨first, hfirst, hfirstUrl, hfirstId, hfirstRd, hfirstSecret⟩ := hearlier before hbefore call hcall hurl
          exact ⟨first, hfirst, hfirstUrl, hfirstId.trans hid, hfirstRd.trans hrd, hfirstSecret.trans hsecret⟩
    · exact hearlier operation hoperation call hcall hurl

end

/-- What a refresh leaves in a source was there, or is what one of its calls minted. -/
theorem urls_refreshFallbacks {source : ResolvedSource} {clock : Nat → Int} {url : Text}
    (h : url ∈ (refreshFallbacks libs source (some rd) secret clock).urls) :
    url ∈ source.urls ∨ ∃ call ∈ (Operation.refresh source (some rd) secret clock).calls libs, call.url libs = some url := by
  have hone {value : Text} {i : Nat} (hvalue : (value, i) ∈ source.urls.zipIdx) :
      (refreshPlaybackSource libs value rd secret (clock i)).getD value ∈ source.urls ∨
        ∃ call ∈ (Operation.refresh source (some rd) secret clock).calls libs,
          call.url libs = some ((refreshPlaybackSource libs value rd secret (clock i)).getD value) := by
    cases hrefresh : refreshPlaybackSource libs value rd secret (clock i) with
    | none => exact .inl (List.fst_mem_of_mem_zipIdx hvalue)
    | some next =>
      obtain ⟨downloadId, hstored, hbuild⟩ := Option.bind_eq_some_iff.mp hrefresh
      refine .inr ⟨⟨downloadId, true, rd, secret, clock i⟩, List.mem_filterMap.mpr ⟨(value, i), hvalue, ?_⟩, hbuild⟩
      dsimp only
      rw [hstored, Option.map_some]
  rcases List.mem_cons.mp h with rfl | h
  · exact hone (by simp [ResolvedSource.urls])
  · obtain ⟨i, hi, rfl⟩ := List.mem_mapIdx.mp h
    refine hone (List.mem_zipIdx_iff_getElem?.mpr ?_)
    simp [ResolvedSource.urls, hi]

/-- A minted ticket is accepted in its time. Under an ideal code, one that is accepted is the text of a ticket that was
signed for the same download, expiry and context, and goes back to one that was asked for. -/
theorem tickets_bound (libs : Libraries) :
    (∀ (call : Call) (url : Text), call.url libs = some url →
      ∃ query, url = masterPath ++ '?' :: query ∧ parseStrictQuery libs query = some (call.ticket libs) ∧
        ∀ nowSeconds, 0 ≤ call.expiresAt → nowSeconds < call.expiresAt →
          call.expiresAt ≤ saturate (nowSeconds + ticketMaxFutureSeconds) →
            authorizeTicket libs (call.ticket libs) call.rd call.secret nowSeconds =
              some ⟨call.downloadId, call.expiresAt⟩) ∧
    ∀ history, HonestRun libs history → ∀ input rd secret nowSeconds ticket,
      authorizeTicket libs input rd secret nowSeconds = some ticket →
        (∀ tag, presentedTag input = some tag → Honest libs history tag) →
          nowSeconds < ticket.expiresAt ∧ ticket.expiresAt ≤ nowSeconds + ticketMaxFutureSeconds ∧
            (∃ operation ∈ history, ∃ call ∈ operation.calls libs, (call.url libs).isSome = true ∧
              call.downloadId = ticket.downloadId ∧ call.expiresAt = ticket.expiresAt ∧ call.rd = rd ∧
                call.secret = secret ∧ input = call.ticket libs) ∧
            ∃ first, Operation.mint first ∈ history ∧ (first.url libs).isSome = true ∧
              first.downloadId = ticket.downloadId ∧ first.rd = rd ∧ first.secret = secret := by
  refine ⟨fun call url h => Call.accepted h, fun history hrun input rd secret nowSeconds ticket haccepted hhonest => ?_⟩
  obtain ⟨⟨-, -, hvalid⟩, ⟨hnonneg, hmax, hlater, hfuture⟩, rfl⟩ := authorizeTicket_eq_some.mp haccepted
  obtain ⟨operation, hoperation, call, hcall, hurl, hid, hexpiry, hrd, hsecret⟩ :=
    minted_of_honest hvalid (hhonest _ (presentedTag_ticketText hvalid hnonneg hmax))
  obtain ⟨first, hfirst, hfirstUrl, hfirstId, hfirstRd, hfirstSecret⟩ := hrun.direct operation hoperation call hcall hurl
  refine ⟨hlater, ?_, ⟨operation, hoperation, call, hcall, hurl, hid, hexpiry, hrd, hsecret, ?_⟩,
    first, hfirst, hfirstUrl, hfirstId.trans hid, hfirstRd.trans hrd, hfirstSecret.trans hsecret⟩
  · simp only [saturate, i64Min, i64Max] at hfuture
    omega
  · rw [Call.ticket, hid, hexpiry, hrd, hsecret]

end StreamArena.Resolver.LazyTickets
