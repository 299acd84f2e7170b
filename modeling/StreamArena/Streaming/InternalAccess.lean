import StreamArena.Library.Contexts
import StreamArena.Library.LastSplit
import StreamArena.LiveHls.MintedUrls
import StreamArena.Streaming.TranscodeInput

/-! Requests to the streams of this server without a session (src/local_torrent.rs): which are admitted, and what
the handlers read of one that is. -/
namespace StreamArena.Streaming.InternalAccess
open AsciiText Aead FormUrlencoded TranscodeInput

/-- The path and query of a URI, which keeps no fragment. -/
structure PathAndQuery where
  text : Text
  no_fragment : '#' ∉ text

namespace PathAndQuery

def path (uri : PathAndQuery) : Text := (LiveHls.Uri.ofText uri.text).path

def query (uri : PathAndQuery) : Text := (LiveHls.Uri.ofText uri.text).query.getD []

end PathAndQuery

/-- A target that a token is minted for: the callers ask whether it is a stream of this server. -/
structure Target extends PathAndQuery where
  isStream : isLocalStreamInput text = true

def separator : Text := '&' :: (internalStreamAccessParam ++ ['='])

def firstSeparator : Text := '?' :: (internalStreamAccessParam ++ ['='])

/-- The target that a request's token is for, and the token. -/
def splitAccess (pathAndQuery : Text) : Option (Text × Text) :=
  (rsplitOnce separator pathAndQuery).or (rsplitOnce firstSeparator pathAndQuery)

section request
variable (libs : Libraries) (secret : Text)

def isInternalStreamRequest (uri : PathAndQuery) : Bool :=
  if uri.path ≠ localTorrentStreamPath ∧ uri.path ≠ localCacheStreamPath then false
  else
    match splitAccess uri.text with
    | none => false
    | some (protectedTarget, encodedToken) =>
      if encodedToken.isEmpty || encodedToken.contains '&' then false
      else
        match Base64Url.decode encodedToken with
        | none => false
        | some token => libs.mac (utf8Bytes secret)
            (utf8Bytes internalStreamAccessContext ++ 0 :: utf8Bytes protectedTarget) == token

/-- The token a request presents. -/
def presentedToken (uri : PathAndQuery) : Option Bytes :=
  (splitAccess uri.text).bind fun parts => Base64Url.decode parts.2

/-- The parameters of a query other than the token, as the handlers decode them. -/
def otherParams (query : Text) : List (Text × Text) :=
  (parse libs.decoder.decode query).filter fun pair => pair.1 ≠ internalStreamAccessParam

/-- Two requests that the handlers tell apart by nothing but the token. -/
def SameReading (uri uri' : PathAndQuery) : Prop :=
  uri.path = uri'.path ∧ otherParams libs uri.query = otherParams libs uri'.query

/-- What the secret signs: the targets given, and in other contexts anything. -/
def Signed (given : Target → Prop) : Bytes → Bytes → Prop :=
  Contexts.Signed (utf8Bytes internalStreamAccessContext) fun key payload =>
    key = utf8Bytes secret ∧ ∃ target, given target ∧ payload = utf8Bytes (trim target.text)

end request

variable {libs : Libraries} {secret : Text}

theorem Target.cases (target : Target) : ∃ path, (path = localTorrentStreamPath ∨ path = localCacheStreamPath) ∧
    (trim target.text = path ∨ ∃ query, trim target.text = path ++ '?' :: query) := by
  have h := target.isStream
  simp only [isLocalStreamInput, isLocalTorrentStreamInput, isLocalCacheStreamInput, Bool.or_eq_true, beq_iff_eq,
    startsWith_iff] at h
  obtain (h | ⟨query, h⟩) | h | ⟨query, h⟩ := h
  · exact ⟨_, .inl rfl, .inl h⟩
  · exact ⟨_, .inl rfl, .inr ⟨query, by rw [← h, List.append_assoc]; rfl⟩⟩
  · exact ⟨_, .inr rfl, .inl h⟩
  · exact ⟨_, .inr rfl, .inr ⟨query, by rw [← h, List.append_assoc]; rfl⟩⟩

theorem notMem_path {path : Text} (h : path = localTorrentStreamPath ∨ path = localCacheStreamPath) :
    '?' ∉ path ∧ '&' ∉ path := by
  rcases h with rfl | rfl <;> decide

theorem notMem_encode {c : Char} (hc : Base64Url.isAlphabet c = false) (bytes : Bytes) : c ∉ Base64Url.encode bytes := by
  intro hmem
  have halphabet := Base64Url.encode_alphabet bytes c hmem
  rw [hc] at halphabet
  cases halphabet

theorem encode_ne_nil {bytes : Bytes} (h : bytes ≠ []) : Base64Url.encode bytes ≠ [] :=
  Base64Url.urlSafeNoPad.encode_ne_nil h

theorem withInternalStreamAccess_target (target : Target) (path : Text) (hpath : '?' ∉ path) :
    (trim target.text = path → withInternalStreamAccess libs target.text secret =
      path ++ (firstSeparator ++ internalStreamAccessToken libs secret path)) ∧
    ∀ query, trim target.text = path ++ '?' :: query → withInternalStreamAccess libs target.text secret =
      path ++ '?' :: query ++ (separator ++ internalStreamAccessToken libs secret (path ++ '?' :: query)) := by
  constructor
  · intro h
    rw [withInternalStreamAccess, h]
    simp [hpath, firstSeparator]
  · intro query h
    rw [withInternalStreamAccess, h]
    simp [separator]

/-- The URI that a target is sent to. -/
def Target.withAccess (target : Target) (libs : Libraries) (secret : Text) : PathAndQuery where
  text := withInternalStreamAccess libs target.text secret
  no_fragment := by
    have htrim : '#' ∉ trim target.text := fun hmem =>
      target.no_fragment (List.dropWhile_subset _ (List.rdropWhile_prefix _ _ |>.subset hmem))
    have htoken := notMem_encode (show Base64Url.isAlphabet '#' = false by decide)
      (libs.mac (utf8Bytes secret) (utf8Bytes internalStreamAccessContext ++ 0 :: utf8Bytes (trim target.text)))
    have hparam : '#' ∉ internalStreamAccessParam := by decide
    rw [withInternalStreamAccess, internalStreamAccessToken]
    split <;> simp [htrim, htoken, hparam]

theorem Target.withAccess_text (target : Target) (libs : Libraries) (secret : Text) :
    (target.withAccess libs secret).text = withInternalStreamAccess libs target.text secret := rfl

/-! What a query reads as, and what one more parameter makes of it. -/

theorem parse_append (decode : Bytes → Text) (query more : Text) :
    parse decode (query ++ '&' :: more) = parse decode query ++ parse decode more := by
  have hsplit := List.splitOnP_append_cons (p := (· == '&')) query more (beq_self_eq_true '&')
  rw [parse, parse, parse, ← List.map_append, ← List.filter_append]
  exact congrArg (fun pieces => (pieces.filter fun piece => !piece.isEmpty).map (parsePair decode)) hsplit

theorem parse_piece (decode : Bytes → Text) {piece : Text} (hfree : '&' ∉ piece) (hne : piece ≠ []) :
    parse decode piece = [parsePair decode piece] := by
  have hsplit : piece.splitOn '&' = [piece] := by
    apply List.splitOnP_eq_singleton
    intro c hc
    rw [beq_eq_false_iff_ne]
    rintro rfl
    exact hfree hc
  rw [parse, hsplit]
  simp [hne]

/-- Whatever is written behind a query belongs to its last parameter. -/
theorem exists_last (decode : Bytes → Text) (query : Text) : ∃ front last, '&' ∉ last ∧
    ∀ more, parse decode (query ++ more) = front ++ parse decode (last ++ more) := by
  by_cases hmem : '&' ∈ query
  · obtain ⟨last, before, heq, hlast⟩ := List.eq_append_cons_of_mem (List.mem_reverse.mpr hmem)
    have hquery : query = before.reverse ++ '&' :: last.reverse := by
      simpa using congrArg List.reverse heq
    refine ⟨parse decode before.reverse, last.reverse, by simpa using hlast, fun more => ?_⟩
    rw [hquery, List.append_assoc, List.cons_append, parse_append]
  · exact ⟨[], query, hmem, fun more => rfl⟩

def token (value : Text) : Text := internalStreamAccessParam ++ '=' :: value

/-- The question marks in what a piece is decoded to. -/
def questions (decode : Bytes → Text) (piece : Text) : Nat :=
  (parsePair decode piece).1.count '?' + (parsePair decode piece).2.count '?'

variable {decode : Bytes → Text}

theorem questions_decode (hcount : ∀ bytes, (decode bytes).count '?' = bytes.count 63)
    (text more : Text) :
    (decode (percentDecode text)).count '?' < (decode (percentDecode (text ++ '?' :: more))).count '?' := by
  rw [hcount, hcount, Urls.percentDecode_append (by decide), percentDecode_cons (by decide),
    List.count_append, List.count_append]
  have hone : (if '?' = '+' then [32] else utf8Bytes ['?']).count 63 = 1 := by decide
  omega

/-- The name of a parameter without a value runs on to the next equals sign. -/
theorem splitOnce_longer {last : Text} (h : splitOnce ['='] last = none) (value : Text) :
    splitOnce ['='] (last ++ '?' :: token value) =
      some (last ++ '?' :: internalStreamAccessParam, value) := by
  have hfree : '=' ∉ last ++ '?' :: internalStreamAccessParam := by
    intro hmem
    rcases List.mem_append.mp hmem with hlast | hparam
    · obtain ⟨before, rest, heq, hbefore⟩ := List.eq_append_cons_of_mem hlast
      rw [heq, splitOnce_append hbefore] at h
      cases h
    · exact absurd hparam (by decide)
  have hone := splitOnce_append hfree value
  rwa [List.append_assoc, List.cons_append] at hone

/-- A longer last parameter is decoded to more question marks. -/
theorem questions_lt (hcount : ∀ bytes, (decode bytes).count '?' = bytes.count 63)
    (last value : Text) : questions decode last < questions decode (last ++ '?' :: token value) := by
  cases hsplit : splitOnce ['='] last with
  | some parts =>
    obtain ⟨name, rest⟩ := parts
    have hmore := questions_decode hcount rest (token value)
    rw [questions, questions, parsePair, parsePair, splitOnce_append_of_some hsplit, hsplit]
    simpa using hmore
  | none =>
    have hlonger := splitOnce_longer hsplit value
    have hempty : (decode (percentDecode [])).count '?' = 0 := by
      rw [hcount]
      rfl
    have hmore := questions_decode hcount last internalStreamAccessParam
    rw [questions, questions, parsePair, parsePair, hlonger, hsplit]
    simp only [Option.getD_none, Option.getD_some, hempty]
    omega

theorem parsePair_token (hdecode : ∀ text, decode (utf8Bytes text) = text) (value : Text) :
    (parsePair decode (token value)).1 = internalStreamAccessParam := by
  have hfree : '=' ∉ internalStreamAccessParam := by decide
  have hplain : percentDecode internalStreamAccessParam = utf8Bytes internalStreamAccessParam := by decide
  have hsplit : splitOnce ['='] (token value) = some (internalStreamAccessParam, value) := splitOnce_append hfree value
  rw [parsePair, hsplit, Option.getD_some, hplain, hdecode]

theorem name_of_longer (hcount : ∀ bytes, (decode bytes).count '?' = bytes.count 63)
    {last value : Text} (h : (parsePair decode (last ++ '?' :: token value)).1 =
      internalStreamAccessParam) : (parsePair decode last).1 = internalStreamAccessParam := by
  cases hsplit : splitOnce ['='] last with
  | some parts =>
    rw [parsePair, splitOnce_append_of_some hsplit] at h
    rw [parsePair, hsplit]
    exact h
  | none =>
    -- the whole piece up to the token is the name, with its question mark
    rw [parsePair, splitOnce_longer hsplit value, Option.getD_some] at h
    dsimp only at h
    have hmore := questions_decode hcount last internalStreamAccessParam
    rw [h] at hmore
    have hnone : internalStreamAccessParam.count '?' = 0 := by decide
    omega

/-- The name of the last parameter of a query. -/
def lastName (decode : Bytes → Text) (query : Text) : Option Text := ((parse decode query).map Prod.fst).getLast?

theorem parse_token (value : Text) (hfree : '&' ∉ value) : parse decode (token value) = [parsePair decode (token value)] := by
  apply parse_piece
  · have hparam : '&' ∉ internalStreamAccessParam := by decide
    simp [token, hfree, hparam]
  · simp [token]

section params

theorem otherParams_token (value : Text) (hfree : '&' ∉ value) : otherParams libs (token value) = [] := by
  have hname : (parsePair libs.decoder.decode (token value)).1 = internalStreamAccessParam :=
    parsePair_token libs.decoder.decode_utf8Bytes value
  rw [otherParams, parse_token value hfree]
  simp [hname]

theorem otherParams_append (query value : Text) (hfree : '&' ∉ value) :
    otherParams libs (query ++ '&' :: token value) = otherParams libs query := by
  have htoken := @otherParams_token libs value hfree
  rw [otherParams] at htoken
  rw [otherParams, otherParams, parse_append, List.filter_append, htoken, List.append_nil]

theorem lastName_token (value : Text) (hfree : '&' ∉ value) :
    lastName libs.decoder.decode (token value) = some internalStreamAccessParam := by
  rw [lastName, parse_token value hfree, ← parsePair_token libs.decoder.decode_utf8Bytes value]
  rfl

theorem lastName_append (query value : Text) (hfree : '&' ∉ value) :
    lastName libs.decoder.decode (query ++ '&' :: token value) = some internalStreamAccessParam := by
  have htoken := @lastName_token libs value hfree
  rw [lastName] at htoken
  rw [lastName, parse_append, List.map_append, List.getLast?_append, htoken]
  rfl

/-- Behind a second question mark, the token is hidden from the handlers just when what it stands in is a token. -/
theorem otherParams_question (hcount : ∀ bytes, (libs.decoder.decode bytes).count '?' = bytes.count 63)
    (query value : Text) (hfree : '&' ∉ value) :
    otherParams libs query = otherParams libs (query ++ '?' :: token value) ↔
      lastName libs.decoder.decode (query ++ '?' :: token value) = some internalStreamAccessParam := by
  obtain ⟨front, last, hlast, hparse⟩ := exists_last libs.decoder.decode query
  have hparam : '&' ∉ internalStreamAccessParam := by decide
  have hlonger : parse libs.decoder.decode (last ++ '?' :: token value) =
      [parsePair libs.decoder.decode (last ++ '?' :: token value)] :=
    parse_piece libs.decoder.decode (by simp [hlast, hfree, token, hparam]) (by simp)
  have hquery : parse libs.decoder.decode query = front ++ parse libs.decoder.decode last := by
    simpa using hparse []
  have hshort : parse libs.decoder.decode last = [] ∨ parse libs.decoder.decode last = [parsePair libs.decoder.decode last] := by
    rcases eq_or_ne last [] with rfl | hne
    · exact .inl rfl
    · exact .inr (parse_piece libs.decoder.decode hlast hne)
  have hname : lastName libs.decoder.decode (query ++ '?' :: token value) =
      some (parsePair libs.decoder.decode (last ++ '?' :: token value)).1 := by
    rw [lastName, hparse, hlonger]
    simp
  rw [otherParams, otherParams, hquery, hparse, hlonger, List.filter_append, List.filter_append, List.append_cancel_left_eq,
    hname, Option.some.injEq]
  constructor
  · intro hsame
    by_contra hne
    have hkept : [parsePair libs.decoder.decode (last ++ '?' :: token value)].filter
        (fun pair => pair.1 ≠ internalStreamAccessParam) = [parsePair libs.decoder.decode (last ++ '?' :: token value)] := by
      simp [hne]
    rw [hkept] at hsame
    have hmem : parsePair libs.decoder.decode (last ++ '?' :: token value) ∈ parse libs.decoder.decode last :=
      List.mem_of_mem_filter (by rw [hsame]; exact List.mem_singleton_self _)
    rcases hshort with hshort | hshort
    · rw [hshort] at hmem
      cases hmem
    · rw [hshort, List.mem_singleton] at hmem
      have hlt := questions_lt hcount last value
      rw [questions, questions, hmem] at hlt
      omega
  · intro hlongName
    have hshortName := name_of_longer hcount hlongName
    rcases hshort with hshort | hshort <;> simp [hshort, hlongName, hshortName]

end params

theorem splitAccess_eq_some {text before encoded : Text} (h : splitAccess text = some (before, encoded)) :
    text = before ++ '&' :: token encoded ∨ text = before ++ '?' :: token encoded := by
  rcases Option.or_eq_some_iff.mp h with hsplit | ⟨-, hsplit⟩
  · left
    rw [rsplitOnce_eq_some hsplit]
    simp [separator, token]
  · right
    rw [rsplitOnce_eq_some hsplit]
    simp [firstSeparator, token]

/-- What an admitted request presents, and that it verifies. -/
theorem presented_of_request {uri : PathAndQuery} (h : isInternalStreamRequest libs secret uri = true) :
    (uri.path = localTorrentStreamPath ∨ uri.path = localCacheStreamPath) ∧
      ∃ before encoded, (uri.text = before ++ '&' :: token encoded ∨ uri.text = before ++ '?' :: token encoded) ∧
        '&' ∉ encoded ∧ presentedToken uri = some (libs.mac (utf8Bytes secret)
          (Contexts.framed (utf8Bytes internalStreamAccessContext) (utf8Bytes before))) := by
  rw [isInternalStreamRequest] at h
  split at h
  · cases h
  · next hpath =>
    refine ⟨by tauto, ?_⟩
    split at h
    · cases h
    · next before encoded hsplit =>
      split at h
      · cases h
      · next hencoded =>
        split at h
        · cases h
        · next tag htag =>
          have hfree : '&' ∉ encoded := by
            intro hmem
            simp [hmem] at hencoded
          refine ⟨before, encoded, splitAccess_eq_some hsplit, hfree, ?_⟩
          rw [presentedToken, hsplit, Option.bind_some, htag, ← beq_iff_eq.mp h]
          rfl

/-- A path that goes on with an ampersand is no stream of this server. -/
theorem path_ne_of_ampersand {path rest : Text} (hpath : '?' ∉ path)
    (h : (LiveHls.Uri.ofText (path ++ '&' :: rest)).path = localTorrentStreamPath ∨
      (LiveHls.Uri.ofText (path ++ '&' :: rest)).path = localCacheStreamPath) : False := by
  have hfree := (notMem_path h).2
  rw [LiveHls.Uri.ofText] at hfree
  split at hfree
  · next before query hsplit =>
    have heq := splitOnce_eq_some hsplit
    rw [List.append_assoc] at heq
    rcases List.append_eq_append_iff.mp heq with ⟨middle, hbefore, hmiddle⟩ | ⟨middle, hpathEq, hmiddle⟩
    · cases middle with
      | nil => cases hmiddle
      | cons c middle =>
        rw [List.cons_append] at hmiddle
        rw [hbefore, ← (List.cons.inj hmiddle).1] at hfree
        simp at hfree
    · cases middle with
      | nil => cases hmiddle
      | cons c middle =>
        rw [List.cons_append] at hmiddle
        rw [hpathEq, ← (List.cons.inj hmiddle).1] at hpath
        simp at hpath
  · simp at hfree

theorem Target.splitAccess_withAccess (target : Target) : splitAccess (target.withAccess libs secret).text =
    some (trim target.text, internalStreamAccessToken libs secret (trim target.text)) := by
  have hfree := notMem_encode (show Base64Url.isAlphabet '=' = false by decide)
    (libs.mac (utf8Bytes secret) (utf8Bytes internalStreamAccessContext ++ 0 :: utf8Bytes (trim target.text)))
  obtain ⟨path, hpath, htrim⟩ := target.cases
  obtain ⟨hquestion, hampersand⟩ := notMem_path hpath
  have htext := @withInternalStreamAccess_target libs secret target path hquestion
  rcases htrim with htrim | ⟨query, htrim⟩
  · have hnone : rsplitOnce separator (target.withAccess libs secret).text = none := by
      have hampersand' := notMem_encode (show Base64Url.isAlphabet '&' = false by decide)
        (libs.mac (utf8Bytes secret) (utf8Bytes internalStreamAccessContext ++ 0 :: utf8Bytes path))
      have hparam : '&' ∉ firstSeparator := by decide
      refine rsplitOnce_eq_none (c := '&') (by simp [separator]) ?_
      rw [Target.withAccess_text, htext.1 htrim, internalStreamAccessToken]
      simp [hampersand, hampersand', hparam]
    rw [htrim] at hfree ⊢
    rw [splitAccess, hnone, Option.none_or, Target.withAccess_text, htext.1 htrim]
    exact @rsplitOnce_of_notMem '=' ('?' :: internalStreamAccessParam) _ hfree path
  · rw [htrim] at hfree ⊢
    have hfound : rsplitOnce separator (target.withAccess libs secret).text =
        some (path ++ '?' :: query, internalStreamAccessToken libs secret (path ++ '?' :: query)) := by
      rw [Target.withAccess_text, htext.2 query htrim]
      exact @rsplitOnce_of_notMem '=' ('&' :: internalStreamAccessParam) _ hfree (path ++ '?' :: query)
    rw [splitAccess, hfound]
    rfl

theorem Target.presentedToken_withAccess (target : Target) : presentedToken (target.withAccess libs secret) =
    some (libs.mac (utf8Bytes secret)
      (Contexts.framed (utf8Bytes internalStreamAccessContext) (utf8Bytes (trim target.text)))) := by
  rw [presentedToken, target.splitAccess_withAccess, Option.bind_some]
  exact Base64Url.decode_encode _

/-- A request for a target reads as the target does just when its last parameter is the token. -/
theorem Target.sameReading_iff (hcount : ∀ bytes, (libs.decoder.decode bytes).count '?' = bytes.count 63)
    (target : Target) {uri : PathAndQuery} {encoded : Text} (hfree : '&' ∉ encoded)
    (htext : uri.text = trim target.text ++ '&' :: token encoded ∨ uri.text = trim target.text ++ '?' :: token encoded)
    (huri : uri.path = localTorrentStreamPath ∨ uri.path = localCacheStreamPath) :
    SameReading libs (target.withAccess libs secret) uri ↔
      lastName libs.decoder.decode uri.query = some internalStreamAccessParam := by
  obtain ⟨path, hpath, htrim⟩ := target.cases
  have hquestion := (notMem_path hpath).1
  have hmint := @withInternalStreamAccess_target libs secret target path hquestion
  have hampersand (text : Text) : '&' ∉ internalStreamAccessToken libs secret text :=
    notMem_encode (by decide) _
  rw [SameReading]
  rcases htrim with htrim | ⟨query, htrim⟩
  · have hminted : LiveHls.Uri.ofText (target.withAccess libs secret).text =
        ⟨path, some (token (internalStreamAccessToken libs secret path))⟩ := by
      rw [Target.withAccess_text, hmint.1 htrim, ← LiveHls.uri_ofText hquestion]
      simp [firstSeparator, token]
    rw [htrim] at htext
    rcases htext with htext | htext
    · rw [PathAndQuery.path, htext] at huri
      exact (path_ne_of_ampersand hquestion huri).elim
    · have hread : LiveHls.Uri.ofText uri.text = ⟨path, some (token encoded)⟩ := by rw [htext, LiveHls.uri_ofText hquestion]
      simp only [PathAndQuery.path, PathAndQuery.query, hminted, hread, Option.getD_some, lastName_token encoded hfree,
        otherParams_token _ (hampersand path), otherParams_token encoded hfree, and_self]
  · have hminted : LiveHls.Uri.ofText (target.withAccess libs secret).text =
        ⟨path, some (query ++ '&' :: token (internalStreamAccessToken libs secret (path ++ '?' :: query)))⟩ := by
      rw [Target.withAccess_text, hmint.2 query htrim, ← LiveHls.uri_ofText hquestion]
      simp [separator, token]
    rw [htrim, List.append_assoc, List.append_assoc, List.cons_append, List.cons_append] at htext
    rcases htext with htext | htext
    · have hread : LiveHls.Uri.ofText uri.text = ⟨path, some (query ++ '&' :: token encoded)⟩ := by
        rw [htext, LiveHls.uri_ofText hquestion]
      simp only [PathAndQuery.path, PathAndQuery.query, hminted, hread, Option.getD_some, lastName_append query encoded hfree,
        otherParams_append query _ (hampersand _), otherParams_append query encoded hfree, and_self]
    · have hread : LiveHls.Uri.ofText uri.text = ⟨path, some (query ++ '?' :: token encoded)⟩ := by
        rw [htext, LiveHls.uri_ofText hquestion]
      simp only [PathAndQuery.path, PathAndQuery.query, hminted, hread, Option.getD_some, true_and,
        otherParams_append query _ (hampersand _)]
      exact otherParams_question hcount query encoded hfree

/-- Every target's own URI is admitted. -/
theorem Target.request_withAccess (hmac : ∀ key message, libs.mac key message ≠ []) (target : Target) :
    isInternalStreamRequest libs secret (target.withAccess libs secret) = true := by
  have hampersand := notMem_encode (show Base64Url.isAlphabet '&' = false by decide)
    (libs.mac (utf8Bytes secret) (utf8Bytes internalStreamAccessContext ++ 0 :: utf8Bytes (trim target.text)))
  have hne := Base64Url.urlSafeNoPad.encode_ne_nil (hmac (utf8Bytes secret)
    (utf8Bytes internalStreamAccessContext ++ 0 :: utf8Bytes (trim target.text)))
  have hpath : (target.withAccess libs secret).path = localTorrentStreamPath ∨
      (target.withAccess libs secret).path = localCacheStreamPath := by
    obtain ⟨path, query, hpath, htext⟩ := @withInternalStreamAccess_eq libs _ secret target.isStream
    rw [PathAndQuery.path, Target.withAccess_text, htext, LiveHls.uri_ofText (notMem_path hpath).1]
    exact hpath
  have haccess : ¬ ((target.withAccess libs secret).path ≠ localTorrentStreamPath ∧
      (target.withAccess libs secret).path ≠ localCacheStreamPath) := by tauto
  have htoken : internalStreamAccessToken libs secret (trim target.text) ≠ [] := hne
  have hfree : '&' ∉ internalStreamAccessToken libs secret (trim target.text) := hampersand
  rw [isInternalStreamRequest, if_neg haccess, target.splitAccess_withAccess]
  dsimp only
  rw [if_neg (by simpa [hfree] using htoken), internalStreamAccessToken, Base64Url.decode_encode]
  exact beq_self_eq_true _

/-- A target was given whose URI carries the same token, and the handlers read the two alike. -/
def Bound (libs : Libraries) (secret : Text) (given : Target → Prop) (uri : PathAndQuery) : Prop :=
  ∃ target, given target ∧ presentedToken (target.withAccess libs secret) = presentedToken uri ∧
    SameReading libs (target.withAccess libs secret) uri

/-- Under an ideal code, every URI of a target is admitted, and one that is admitted reads as the URI its token was
minted for just when the token is its last parameter. -/
theorem bound_iff (hmac : ∀ key message, libs.mac key message ≠ [])
    (hcount : ∀ bytes, (libs.decoder.decode bytes).count '?' = bytes.count 63) (secret : Text) (given : Target → Prop) :
    (∀ target, given target → isInternalStreamRequest libs secret (target.withAccess libs secret) = true) ∧
      ∀ uri, isInternalStreamRequest libs secret uri = true →
        (∀ tag, presentedToken uri = some tag → Contexts.Ideal libs.mac (Signed secret given) tag) →
        (Bound libs secret given uri ↔ lastName libs.decoder.decode uri.query = some internalStreamAccessParam) := by
  refine ⟨fun target _ => target.request_withAccess hmac, fun uri hrequest hideal => ?_⟩
  obtain ⟨hpath, before, encoded, htext, hfree, htoken⟩ := presented_of_request hrequest
  have hcontext : 0 ∉ utf8Bytes internalStreamAccessContext := by decide +kernel
  have htag := hideal _ htoken
  obtain ⟨-, target, hgiven, htarget⟩ := Contexts.own_of_signed hcontext (htag.honest _ _ rfl)
  have hbefore : before = trim target.text := utf8Bytes_injective htarget
  subst hbefore
  constructor
  · rintro ⟨other, -, hother, hsame⟩
    rw [other.presentedToken_withAccess, htoken, Option.some.injEq] at hother
    have hmessage := htag.single _ _ _ _ hother rfl
    have htrim : trim other.text = trim target.text :=
      utf8Bytes_injective (Contexts.framed_injective hcontext hcontext hmessage).2
    rw [← htrim] at htext
    exact (other.sameReading_iff hcount hfree htext hpath).mp hsame
  · intro hlast
    refine ⟨target, hgiven, ?_, (target.sameReading_iff hcount hfree htext hpath).mpr hlast⟩
    rw [target.presentedToken_withAccess, htoken]

/-! A file of the cache, its URI, and one with a second question mark for the ampersand. -/

/-- A decoder that puts a replacement for every byte of no character. -/
def replacingDecode (bytes : Bytes) : Text :=
  (fromUtf8 bytes).getD (bytes.map fun b => if b < 128 then Char.ofNat b.toNat else '\uFFFD')

theorem count_utf8Bytes_singleton (c : Char) {d : Char} (hd : d.toNat < 128) :
    (utf8Bytes [c]).count (UInt8.ofNat d.toNat) = [c].count d := by
  by_cases hc : c.toNat < 128
  · have hsame : UInt8.ofNat c.toNat = UInt8.ofNat d.toNat ↔ c = d := by
      constructor
      · intro h
        have hnat := congrArg UInt8.toNat h
        rw [UInt8.toNat_ofNat', UInt8.toNat_ofNat', Nat.mod_eq_of_lt (by omega), Nat.mod_eq_of_lt (by omega)] at hnat
        exact Char.toNat_inj.mp hnat
      · rintro rfl
        rfl
    rw [Urls.utf8Bytes_ascii hc, List.count_singleton, List.count_singleton]
    simp only [beq_iff_eq, hsame]
  · have hhigh := Urls.high_bytes (Nat.le_of_not_lt hc)
    rw [List.count_eq_zero.mpr, List.count_eq_zero.mpr]
    · rw [List.mem_singleton]
      rintro rfl
      exact hc hd
    · intro hmem
      have hle := hhigh _ hmem
      rw [UInt8.toNat_ofNat', Nat.mod_eq_of_lt (by omega)] at hle
      omega

theorem count_replacingDecode (bytes : Bytes) {c : Char} (hc : c.toNat < 128) :
    (replacingDecode bytes).count c = bytes.count (UInt8.ofNat c.toNat) := by
  rw [replacingDecode]
  cases h : fromUtf8 bytes with
  | some text =>
    rw [Urls.eq_utf8Bytes_of_fromUtf8 h, Option.getD_some]
    clear h
    induction text with
    | nil => rfl
    | cons d text ih =>
      rw [← List.singleton_append, utf8Bytes_append, List.count_append, List.count_append,
        count_utf8Bytes_singleton d hc, ih]
  | none =>
    rw [Option.getD_none, List.count, List.countP_map, List.count]
    refine List.countP_congr fun b _ => ?_
    have hsmall : (UInt8.ofNat c.toNat).toNat = c.toNat := by
      rw [UInt8.toNat_ofNat', Nat.mod_eq_of_lt (by omega)]
    rw [Function.comp_apply, beq_iff_eq, beq_iff_eq, ← UInt8.toNat_inj, hsmall]
    split
    · next hb =>
      have hvalid : (Char.ofNat b.toNat).toNat = b.toNat := by
        have hall : ∀ n < 128, (Char.ofNat n).toNat = n := by decide
        exact hall b.toNat (UInt8.lt_iff_toNat_lt.mp hb)
      rw [← Char.toNat_inj, hvalid]
    · next hb =>
      have hlarge : 128 ≤ b.toNat := Nat.le_of_not_lt fun hlt => hb (UInt8.lt_iff_toNat_lt.mpr hlt)
      constructor
      · intro heq
        rw [← heq] at hc
        exact absurd hc (by decide)
      · intro heq
        omega

def asciiLibraries (mac : Mac.Code) : Libraries where
  urls := Urls.addresses
  web := Urls.addressQueries
  decoder :=
    { decode := replacingDecode
      decode_utf8Bytes := fun text => by rw [replacingDecode, fromUtf8_utf8Bytes]; rfl
      count_decode := fun bytes _ hc => (count_replacingDecode bytes hc).le }
  mac := mac
  toLowercase := toAsciiLowercase
  toLowercase_ascii := plainLibraries.toLowercase_ascii

def cachedSource : Text := "sourceHash=0123456789abcdef0123456789abcdef01234567".toList

def cachedFile : Target where
  text := localCacheStreamPath ++ '?' :: (cachedSource ++ '&' :: "fileId=1".toList)
  no_fragment := by decide +kernel
  isStream := by decide +kernel

def cachedKey : Bytes := utf8Bytes "secret".toList

def cachedMessage : Bytes :=
  Contexts.framed (utf8Bytes internalStreamAccessContext) (utf8Bytes (trim cachedFile.text))

/-- HMAC-SHA256, as it signs the one file. -/
def cacheLibraries : Libraries := asciiLibraries (Contexts.sole Mac.hmacSha256 cachedKey cachedMessage)

def cachedTag : Bytes := Mac.hmacSha256 cachedKey cachedMessage

theorem cachedTag_ne_nil : cachedTag ≠ [] := Mac.hmacSha256_ne_nil cachedKey cachedMessage

theorem mac_cacheLibraries_eq : cacheLibraries.mac = Contexts.sole Mac.hmacSha256 cachedKey cachedMessage := rfl

theorem mac_cachedFile : cacheLibraries.mac (utf8Bytes "secret".toList)
    (Contexts.framed (utf8Bytes internalStreamAccessContext) (utf8Bytes (trim cachedFile.text))) = cachedTag := by
  rw [mac_cacheLibraries_eq]
  exact Contexts.sole_self Mac.hmacSha256 cachedKey cachedMessage

theorem mac_cacheLibraries (key message : Bytes) : cacheLibraries.mac key message ≠ [] :=
  Contexts.sole_ne_nil (Mac.hmacSha256_ne_nil _ _) key message

theorem ideal_cachedTag :
    Contexts.Ideal cacheLibraries.mac (Signed "secret".toList (· = cachedFile)) cachedTag :=
  Contexts.ideal_sole (by rw [Mac.length_hmacSha256]; decide)
    (.inl ⟨utf8Bytes (trim cachedFile.text), ⟨rfl, cachedFile, rfl, rfl⟩, rfl⟩)

theorem count_cacheLibraries (bytes : Bytes) : (cacheLibraries.decoder.decode bytes).count '?' = bytes.count 63 :=
  count_replacingDecode bytes (by decide)

theorem bound_cachedFile :
    isInternalStreamRequest cacheLibraries "secret".toList (cachedFile.withAccess cacheLibraries "secret".toList) = true ∧
      (Bound cacheLibraries "secret".toList (· = cachedFile) (cachedFile.withAccess cacheLibraries "secret".toList) ↔
        lastName cacheLibraries.decoder.decode (cachedFile.withAccess cacheLibraries "secret".toList).query =
          some internalStreamAccessParam) := by
  have hbound := bound_iff mac_cacheLibraries count_cacheLibraries "secret".toList (· = cachedFile)
  have hrequest := hbound.1 cachedFile rfl
  refine ⟨hrequest, hbound.2 _ hrequest fun tag htag => ?_⟩
  rw [cachedFile.presentedToken_withAccess, mac_cachedFile, Option.some.injEq] at htag
  rw [← htag]
  exact ideal_cachedTag

/-- The cached file's URI with its last ampersand a question mark. -/
def markedUri : PathAndQuery where
  text := trim cachedFile.text ++ '?' :: token (Base64Url.encode cachedTag)
  no_fragment := by
    have htext : '#' ∉ trim cachedFile.text := by decide +kernel
    have htoken := notMem_encode (show Base64Url.isAlphabet '#' = false by decide) cachedTag
    have hparam : '#' ∉ internalStreamAccessParam := by decide
    simp [token, htext, htoken, hparam]

theorem markedUri_text : markedUri.text = trim cachedFile.text ++ '?' :: token (Base64Url.encode cachedTag) := rfl

theorem trim_cachedFile : trim cachedFile.text =
    localCacheStreamPath ++ '?' :: (cachedSource ++ '&' :: "fileId=1".toList) := by decide

/-- What the handlers read of it: the file has the token in its number. -/
theorem query_markedUri : markedUri.path = localCacheStreamPath ∧
    markedUri.query = cachedSource ++ '&' :: ("fileId".toList ++ '=' :: ('1' :: '?' :: token (Base64Url.encode cachedTag))) := by
  have htext : markedUri.text = localCacheStreamPath ++ '?' ::
      (cachedSource ++ '&' :: ("fileId".toList ++ '=' :: ('1' :: '?' :: token (Base64Url.encode cachedTag)))) := by
    rw [markedUri_text, trim_cachedFile]
    simp
  have hpath : '?' ∉ localCacheStreamPath := by decide
  rw [PathAndQuery.path, PathAndQuery.query, htext, LiveHls.uri_ofText hpath]
  exact ⟨rfl, rfl⟩

theorem rsplitOnce_marked {text encoded : Text} (hfree : '&' ∉ encoded)
    (htext : text = localCacheStreamPath ++ '?' :: (cachedSource ++ '&' :: "fileId=1".toList) ++ '?' :: token encoded) :
    rsplitOnce separator text = none := by
  by_contra hsome
  obtain ⟨parts, hsplit⟩ := Option.ne_none_iff_exists'.mp hsome
  -- there is one ampersand, and the file's number follows it
  have hparam : '&' ∉ internalStreamAccessParam := by decide
  have hbefore : '&' ∉ localCacheStreamPath ++ '?' :: cachedSource := by decide
  have hafter : '&' ∉ "fileId=1".toList ++ '?' :: token encoded := by
    simp [token, hfree, hparam]
  have hboth : (localCacheStreamPath ++ '?' :: cachedSource) ++ '&' :: ("fileId=1".toList ++ '?' :: token encoded) =
      parts.1 ++ '&' :: (internalStreamAccessParam ++ '=' :: parts.2) := by
    have hmarked := rsplitOnce_eq_some hsplit
    rw [htext] at hmarked
    simpa [separator] using hmarked
  obtain ⟨-, -, hrest⟩ := (List.append_cons_inj_of_notMem hbefore hafter).mp hboth
  have hfile : ("fileId=1".toList ++ '?' :: token encoded).head? = some 'f' := rfl
  have haccess : (internalStreamAccessParam ++ '=' :: parts.2).head? = some 'i' := rfl
  rw [hrest, haccess] at hfile
  exact absurd hfile (by decide)

theorem splitAccess_marked {text encoded : Text} (hfree : '&' ∉ encoded) (hequals : '=' ∉ encoded)
    (htext : text = localCacheStreamPath ++ '?' :: (cachedSource ++ '&' :: "fileId=1".toList) ++ '?' :: token encoded) :
    splitAccess text =
      some (localCacheStreamPath ++ '?' :: (cachedSource ++ '&' :: "fileId=1".toList), encoded) := by
  have hlast := @rsplitOnce_of_notMem '=' ('?' :: internalStreamAccessParam) _ hequals
    (localCacheStreamPath ++ '?' :: (cachedSource ++ '&' :: "fileId=1".toList))
  have hsame : text = localCacheStreamPath ++ '?' :: (cachedSource ++ '&' :: "fileId=1".toList) ++
      ('?' :: internalStreamAccessParam ++ ['='] ++ encoded) := by
    rw [htext, token]
    simp
  rw [splitAccess, rsplitOnce_marked hfree htext, Option.none_or, hsame]
  exact hlast

theorem splitAccess_markedUri : splitAccess markedUri.text = some (trim cachedFile.text, Base64Url.encode cachedTag) := by
  rw [trim_cachedFile]
  refine splitAccess_marked (notMem_encode (show Base64Url.isAlphabet '&' = false by decide) cachedTag)
    (notMem_encode (show Base64Url.isAlphabet '=' = false by decide) cachedTag) ?_
  rw [markedUri_text, trim_cachedFile]

theorem presentedToken_markedUri : presentedToken markedUri = some cachedTag := by
  rw [presentedToken, splitAccess_markedUri, Option.bind_some, Base64Url.decode_encode]

theorem lastName_markedUri : lastName cacheLibraries.decoder.decode markedUri.query = some "fileId".toList := by
  have hfree := notMem_encode (show Base64Url.isAlphabet '&' = false by decide) cachedTag
  have hparam : '&' ∉ internalStreamAccessParam := by decide
  have hplain : percentDecode "fileId".toList = utf8Bytes "fileId".toList := by decide
  have hsplit : splitOnce ['='] ("fileId".toList ++ '=' :: ('1' :: '?' :: token (Base64Url.encode cachedTag))) =
      some ("fileId".toList, '1' :: '?' :: token (Base64Url.encode cachedTag)) := splitOnce_append (by decide) _
  have hpiece : parse cacheLibraries.decoder.decode
      ("fileId".toList ++ '=' :: ('1' :: '?' :: token (Base64Url.encode cachedTag))) =
        [parsePair cacheLibraries.decoder.decode
          ("fileId".toList ++ '=' :: ('1' :: '?' :: token (Base64Url.encode cachedTag)))] :=
    parse_piece _ (by simp [token, hfree, hparam]) (by simp)
  rw [lastName, query_markedUri.2, parse_append, hpiece, List.map_append, List.getLast?_append, parsePair, hsplit,
    Option.getD_some, hplain, cacheLibraries.decoder.decode_utf8Bytes]
  rfl

/-- It is admitted, and the handlers read another file from it. -/
theorem marked_request_reads_otherwise :
    isInternalStreamRequest cacheLibraries "secret".toList markedUri = true ∧
      (∀ tag, presentedToken markedUri = some tag →
        Contexts.Ideal cacheLibraries.mac (Signed "secret".toList (· = cachedFile)) tag) ∧
      ¬ ∃ target, target = cachedFile ∧ SameReading cacheLibraries (target.withAccess cacheLibraries "secret".toList) markedUri := by
  have hfree : '&' ∉ Base64Url.encode cachedTag := notMem_encode (by decide) cachedTag
  have hne := encode_ne_nil cachedTag_ne_nil
  refine ⟨?_, ?_, ?_⟩
  · have haccess : ¬ (markedUri.path ≠ localTorrentStreamPath ∧ markedUri.path ≠ localCacheStreamPath) :=
      fun h => h.2 query_markedUri.1
    rw [isInternalStreamRequest, if_neg haccess, splitAccess_markedUri]
    dsimp only
    rw [if_neg (by simpa [hfree] using hne), Base64Url.decode_encode]
    exact beq_iff_eq.mpr mac_cachedFile
  · intro tag htag
    rw [presentedToken_markedUri, Option.some.injEq] at htag
    rw [← htag]
    exact ideal_cachedTag
  · rintro ⟨target, rfl, hsame⟩
    have hlast := (cachedFile.sameReading_iff count_cacheLibraries hfree (.inr rfl) (.inr query_markedUri.1)).mp hsame
    rw [lastName_markedUri] at hlast
    exact absurd hlast (by decide)

end StreamArena.Streaming.InternalAccess
