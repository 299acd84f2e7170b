import StreamArena.LiveHls.Playlist
import StreamArena.LiveHls.Worker

/-! Playlists at the worker (workers/live-hls-proxy/src/playlist.js): what the origin has rewritten is rewritten once
more, to the worker's own address, within limits. -/
namespace StreamArena.LiveHls.Worker
open AsciiText FormUrlencoded Separated

def maxPlaylistLines : Nat := 20000
def maxNestedPlaylistReferences : Nat := 64
def maxPlaylistUriChars : Nat := 8192

inductive PlaylistLimitError where
  | tooManyLines
  | uriTooLong
  | fanOut
  deriving DecidableEq

def PlaylistLimitError.text : PlaylistLimitError → Text
  | .tooManyLines => "playlist has too many lines".toList
  | .uriTooLong => "playlist URI too long".toList
  | .fanOut => "playlist fan-out limit exceeded".toList

def nestedPrefix : Text := "/api/live/hls.m3u8?".toList
def resourcePrefix : Text := "/api/live/hls-resource?".toList

def isNested (pathAndQuery : Text) : Bool := startsWith pathAndQuery nestedPrefix

def isProxied (pathAndQuery : Text) : Bool := isNested pathAndQuery || startsWith pathAndQuery resourcePrefix

section rewrite
variable (workerBase : Text)

/-- The worker's address of a proxied path. -/
def workerUrl (pathAndQuery : Text) : Text :=
  if startsWith pathAndQuery resourcePrefix then workerBase ++ pathAndQuery ++ "&viaOrigin=1".toList
  else workerBase ++ pathAndQuery

def rewriteProxiedLiveUrl (pathAndQuery : Text) : Except PlaylistLimitError Text :=
  if utf16Length pathAndQuery > maxPlaylistUriChars then .error .uriTooLong
  else .ok (workerUrl workerBase pathAndQuery)

/-- What the pattern of proxied attributes captures at the front of a text. -/
def uriAttributeAt (text : Text) : Option Text :=
  (((stripPrefix text uriAttribute).bind (splitOnce ['"'])).map Prod.fst).filter isProxied

/-- Every match from left to right, with how many of them are playlists; the number is what is
left of the last match. -/
def rewriteAttributes : Nat → Text → Except PlaylistLimitError (Text × Nat)
  | _, [] => .ok ([], 0)
  | skip + 1, _ :: rest => rewriteAttributes skip rest
  | 0, c :: rest =>
    match uriAttributeAt (c :: rest) with
    | none => do
      let (line, nested) ← rewriteAttributes 0 rest
      return (c :: line, nested)
    | some pathAndQuery => do
      let url ← rewriteProxiedLiveUrl workerBase pathAndQuery
      let (line, nested) ← rewriteAttributes (uriAttribute.length + pathAndQuery.length) rest
      return (uriAttribute ++ url ++ '"' :: line, nested + if isNested pathAndQuery then 1 else 0)

def rewriteLine (line : Text) : Except PlaylistLimitError (Text × Nat) :=
  if startsWith line ['#'] then rewriteAttributes workerBase 0 line
  else
    let trimmed := jsTrim line
    if isNested trimmed then (rewriteProxiedLiveUrl workerBase trimmed).map fun url => (url, 1)
    else if startsWith trimmed resourcePrefix then
      (rewriteProxiedLiveUrl workerBase trimmed).map fun url => (url, 0)
    else .ok (line, 0)

def rewriteOriginPlaylist (body : Text) : Except PlaylistLimitError Text :=
  let lines := body.splitOn '\n'
  if lines.length > maxPlaylistLines then .error .tooManyLines
  else do
    let rewritten ← lines.mapM (rewriteLine workerBase)
    if (rewritten.map Prod.snd).sum > maxNestedPlaylistReferences then .error .fanOut
    else return join '\n' (rewritten.map Prod.fst)

end rewrite

attribute [local simp] rewriteAttributes

/-! What the worker does to a line, piece by piece. -/

inductive Piece where
  | text (c : Char)
  | attribute (pathAndQuery : Text)

def Piece.source : Piece → Text
  | .text c => [c]
  | .attribute pathAndQuery => uriAttribute ++ pathAndQuery ++ ['"']

def Piece.reference : Piece → Option Text
  | .text _ => none
  | .attribute pathAndQuery => some pathAndQuery

def Piece.rewritten (workerBase : Text) : Piece → Text
  | .text c => [c]
  | .attribute pathAndQuery => uriAttribute ++ workerUrl workerBase pathAndQuery ++ ['"']

/-- A tag as characters and the proxied attributes between them. -/
def pieces : Nat → Text → List Piece
  | _, [] => []
  | skip + 1, _ :: rest => pieces skip rest
  | 0, c :: rest =>
    match uriAttributeAt (c :: rest) with
    | none => .text c :: pieces 0 rest
    | some pathAndQuery =>
      .attribute pathAndQuery :: pieces (uriAttribute.length + pathAndQuery.length) rest

attribute [local simp] pieces

/-- The proxied paths a line names. -/
def references (line : Text) : List Text :=
  if startsWith line ['#'] then (pieces 0 line).filterMap Piece.reference
  else if isProxied (jsTrim line) then [jsTrim line]
  else []

/-- The line with every path it names at the worker. -/
def carried (workerBase line : Text) : Text :=
  if startsWith line ['#'] then (pieces 0 line).flatMap (Piece.rewritten workerBase)
  else if isProxied (jsTrim line) then workerUrl workerBase (jsTrim line)
  else line

theorem pieces_skip (skip : Nat) (text : Text) : pieces skip text = pieces 0 (text.drop skip) := by
  induction skip generalizing text with
  | zero => rfl
  | succ skip ih =>
    cases text with
    | nil => rfl
    | cons c rest => exact ih rest

theorem uriAttributeAt_eq_some {text pathAndQuery : Text} (h : uriAttributeAt text = some pathAndQuery) :
    isProxied pathAndQuery = true ∧ ∃ rest, text = uriAttribute ++ (pathAndQuery ++ '"' :: rest) := by
  obtain ⟨hcapture, hproxied⟩ := Option.filter_eq_some_iff.mp h
  obtain ⟨⟨before, rest⟩, hsplit, rfl⟩ := Option.map_eq_some_iff.mp hcapture
  obtain ⟨after, hafter, honce⟩ := Option.bind_eq_some_iff.mp hsplit
  rw [stripPrefix_eq_some.mp hafter, splitOnce_eq_some honce]
  exact ⟨hproxied, rest, by simp⟩

/-- The pieces of a tag are its text. -/
theorem pieces_source (line : Text) : (pieces 0 line).flatMap Piece.source = line := by
  induction hlen : line.length using Nat.strong_induction_on generalizing line with
  | _ n ih =>
    cases line with
    | nil => rfl
    | cons c rest =>
      rw [pieces]
      split
      · rw [List.flatMap_cons, ih rest.length (by simp [← hlen]) rest rfl]
        rfl
      · next pathAndQuery hat =>
        obtain ⟨-, after, htext⟩ := uriAttributeAt_eq_some hat
        have hdrop : rest.drop (uriAttribute.length + pathAndQuery.length) = after := by
          have htail : rest.drop (uriAttribute.length + pathAndQuery.length) =
              (c :: rest).drop (uriAttribute ++ pathAndQuery ++ ['"']).length := by
            rw [List.length_append, List.length_append, List.length_singleton, List.drop_succ_cons]
          rw [htail, htext, show uriAttribute ++ (pathAndQuery ++ '"' :: after) =
            uriAttribute ++ pathAndQuery ++ ['"'] ++ after by simp, List.drop_left]
        have hshort : after.length < n := by
          rw [← hlen, htext]
          simp
          omega
        rw [pieces_skip, hdrop, List.flatMap_cons, ih after.length hshort after rfl, htext]
        simp [Piece.source]

def fits (pathAndQuery : Text) : Bool := utf16Length pathAndQuery ≤ maxPlaylistUriChars

theorem rewriteProxiedLiveUrl_eq (workerBase pathAndQuery : Text) :
    rewriteProxiedLiveUrl workerBase pathAndQuery =
      if fits pathAndQuery then .ok (workerUrl workerBase pathAndQuery) else .error .uriTooLong := by
  rw [rewriteProxiedLiveUrl, fits]
  by_cases h : utf16Length pathAndQuery ≤ maxPlaylistUriChars
  · rw [if_neg (Nat.not_lt.mpr h), if_pos (decide_eq_true h)]
  · rw [if_pos (Nat.not_le.mp h), if_neg (by simpa using h)]

theorem rewriteAttributes_eq (workerBase : Text) (skip : Nat) (text : Text) :
    rewriteAttributes workerBase skip text =
      if ((pieces skip text).filterMap Piece.reference).all fits then
        .ok ((pieces skip text).flatMap (Piece.rewritten workerBase),
          ((pieces skip text).filterMap Piece.reference).countP isNested)
      else .error .uriTooLong := by
  induction text generalizing skip with
  | nil => cases skip <;> rfl
  | cons c rest ih =>
    cases skip with
    | succ skip => exact ih skip
    | zero =>
      rw [rewriteAttributes, pieces]
      split
      · have hreferences (more : List Piece) : (Piece.text c :: more).filterMap Piece.reference =
            more.filterMap Piece.reference := rfl
        rw [ih, hreferences]
        split <;> rfl
      · next pathAndQuery hat =>
        have hreferences (more : List Piece) : (Piece.attribute pathAndQuery :: more).filterMap Piece.reference =
            pathAndQuery :: more.filterMap Piece.reference := rfl
        rw [ih, rewriteProxiedLiveUrl_eq, hreferences, List.all_cons]
        cases fits pathAndQuery with
        | false => rfl
        | true =>
          rw [if_pos rfl, Bool.true_and]
          split
          · simp [Piece.rewritten, pure, Except.pure, bind, Except.bind, List.countP_cons]
          · rfl

theorem rewriteLine_eq (workerBase line : Text) :
    rewriteLine workerBase line =
      if (references line).all fits then .ok (carried workerBase line, (references line).countP isNested)
      else .error .uriTooLong := by
  rw [rewriteLine, references, carried]
  split
  · exact rewriteAttributes_eq workerBase 0 line
  · dsimp only
    rw [rewriteProxiedLiveUrl_eq, isProxied]
    cases hnested : isNested (jsTrim line) with
    | true =>
      cases hfits : fits (jsTrim line) <;> simp [hnested, hfits, Except.map]
    | false =>
      cases startsWith (jsTrim line) resourcePrefix with
      | true => cases hfits : fits (jsTrim line) <;> simp [hnested, hfits, Except.map]
      | false => rfl

theorem mapM_rewriteLine (workerBase : Text) (lines : List Text) :
    lines.mapM (rewriteLine workerBase) =
      if (lines.flatMap references).all fits then
        .ok (lines.map fun line => (carried workerBase line, (references line).countP isNested))
      else .error .uriTooLong := by
  induction lines with
  | nil => rfl
  | cons line lines ih =>
    rw [List.mapM_cons, ih, rewriteLine_eq, List.flatMap_cons, List.all_append]
    cases (references line).all fits with
    | false => rfl
    | true =>
      rw [if_pos rfl, Bool.true_and]
      split <;> rfl

/-- The references of a playlist, in the order they stand. -/
def playlistReferences (body : Text) : List Text := (body.splitOn '\n').flatMap references

structure WithinLimits (body : Text) : Prop where
  lines : (body.splitOn '\n').length ≤ maxPlaylistLines
  chars : ∀ r ∈ playlistReferences body, utf16Length r ≤ maxPlaylistUriChars
  nested : (playlistReferences body).countP isNested ≤ maxNestedPlaylistReferences

/-- A playlist within the limits is passed on line by line, any other is refused. -/
theorem rewriteOriginPlaylist_eq_ok_iff {workerBase body out : Text} :
    rewriteOriginPlaylist workerBase body = .ok out ↔
      WithinLimits body ∧ out = join '\n' ((body.splitOn '\n').map (carried workerBase)) := by
  have hsum : (((body.splitOn '\n').map fun line => (carried workerBase line, (references line).countP isNested)).map
      Prod.snd).sum = (playlistReferences body).countP isNested := by
    rw [playlistReferences, List.countP_flatMap, List.map_map]
    rfl
  have hfst : ((body.splitOn '\n').map fun line => (carried workerBase line, (references line).countP isNested)).map
      Prod.fst = (body.splitOn '\n').map (carried workerBase) := by
    rw [List.map_map]
    rfl
  have hchars : (playlistReferences body).all fits = true ↔
      ∀ r ∈ playlistReferences body, utf16Length r ≤ maxPlaylistUriChars := by
    simp only [List.all_eq_true, fits, decide_eq_true_eq]
  rw [rewriteOriginPlaylist, mapM_rewriteLine, ← playlistReferences]
  constructor
  · intro h
    split at h
    · cases h
    · next hlines =>
      split at h
      · next hshort =>
        simp only [bind, Except.bind, hsum, hfst] at h
        split at h
        · cases h
        · next hnested =>
          exact ⟨⟨Nat.not_lt.mp hlines, hchars.mp hshort, Nat.not_lt.mp hnested⟩, (Except.ok.inj h).symm⟩
      · cases h
  · rintro ⟨⟨hlines, hshort, hnested⟩, rfl⟩
    rw [if_neg (Nat.not_lt.mpr hlines), if_pos (hchars.mpr hshort)]
    simp only [bind, Except.bind, hsum, hfst]
    rw [if_neg (Nat.not_lt.mpr hnested)]
    rfl

end StreamArena.LiveHls.Worker
