import StreamArena.Routes.Fields
import StreamArena.UserState.Timestamps
import StreamArena.UserState.ContinueWatching

/-! The requests on watch progress and continue watching (src/routes.rs,
src/routes/user_settings.rs): what each handler reads from its JSON body and
which transactions it then commits, in order. -/
namespace StreamArena.UserState
open AsciiText JsonValue Routes

def userIdentityMaxBytes : Nat := 512
def userSmallTextMaxBytes : Nat := 256
def userUrlMaxBytes : Nat := 4096
def userSyncMaxEntries : Nat := 500
def maxResumeSeconds : ℚ := 31536000

/-- JSON numbers are finite, so the clamp is all that is left. -/
def normalizeResumeSecondsValue (value : Option Value) : ℚ :=
  max 0 (min ((value.bind Value.asF64).getD 0) maxResumeSeconds)

def updatedAtField (now : Nat) (payload : Value) : Int :=
  normalizeUserUpdatedAt now ((payload.get "updatedAt".toList).bind Value.asI64)

/-- The identity field, or the fallback of an entry stored under its identity. -/
def entryIdentity (entry : Value) (fallbackSourceIdentity : Option Text) : Option Text :=
  (boundedStringField entry "sourceIdentity".toList userIdentityMaxBytes).or
    (fallbackSourceIdentity.bind fun value => boundedTrimmedString value userIdentityMaxBytes)

structure WatchProgressEntry where
  sourceIdentity : Text
  resumeSeconds : ℚ
  updatedAt : Int

def sanitizeWatchProgressEntry (now : Nat) (entry : Value) (fallbackSourceIdentity : Option Text) :
    Option WatchProgressEntry :=
  (entryIdentity entry fallbackSourceIdentity).map fun sourceIdentity =>
    { sourceIdentity
      resumeSeconds :=
        normalizeResumeSecondsValue ((entry.get "resumeSeconds".toList).or (some entry))
      updatedAt := updatedAtField now entry }

theorem entryIdentity_ne {entry : Value} {fallback : Option Text} {identity : Text}
    (h : entryIdentity entry fallback = some identity) : identity ≠ [] := by
  rw [entryIdentity, Option.or_eq_some_iff] at h
  obtain h | ⟨-, h⟩ := h
  · obtain ⟨value, -, h⟩ := Option.bind_eq_some_iff.mp h
    exact (boundedTrimmedString_eq_some h).1
  · obtain ⟨value, -, h⟩ := Option.bind_eq_some_iff.mp h
    exact (boundedTrimmedString_eq_some h).1

/-- A bounded field of an entry, absent read as the empty text. -/
def entryField (entry : Value) (field : Text) (maxBytes : Nat) : Text :=
  (boundedStringField entry field maxBytes).getD []

theorem trim_entryField (entry : Value) (field : Text) (maxBytes : Nat) :
    trim (entryField entry field maxBytes) = entryField entry field maxBytes := by
  rw [entryField]
  cases h : boundedStringField entry field maxBytes with
  | none => rfl
  | some value =>
    obtain ⟨raw, -, h⟩ := Option.bind_eq_some_iff.mp h
    exact (boundedTrimmedString_eq_some h).2.1

theorem updatedAtField_nonneg (now : Nat) (payload : Value) : 0 ≤ updatedAtField now payload := by
  unfold updatedAtField normalizeUserUpdatedAt maxFutureSkewMs
  simp only
  split <;> omega

def sanitizeContinueWatchingEntry (now : Nat) (entry : Value)
    (fallbackSourceIdentity : Option Text) : Option ContinueWatchingEntry :=
  match h : entryIdentity entry fallbackSourceIdentity with
  | none => none
  | some sourceIdentity =>
    let small (field : Text) := entryField entry field userSmallTextMaxBytes
    let url (field : Text) := entryField entry field userUrlMaxBytes
    some
      { sourceIdentity
        title := small "title".toList
        episode := small "episode".toList
        src := url "src".toList
        tmdbId := small "tmdbId".toList
        mediaType := small "mediaType".toList
        seriesId := small "seriesId".toList
        episodeIndex := (((entry.get "episodeIndex".toList).bind Value.asI64).map fun value =>
          max (-1) (min value 1000000)).getD (-1)
        year := small "year".toList
        thumb := url "thumb".toList
        sourceHash := small "sourceHash".toList
        sessionKey := small "sessionKey".toList
        resolverProvider := small "resolverProvider".toList
        sourceInput := url "sourceInput".toList
        filename := small "filename".toList
        resumeSeconds :=
          normalizeResumeSecondsValue ((entry.get "resumeSeconds".toList).or (some entry))
        updatedAt := updatedAtField now entry
        sourceIdentity_ne := entryIdentity_ne h
        tmdbId_trimmed := trim_entryField ..
        mediaType_trimmed := trim_entryField ..
        seriesId_trimmed := trim_entryField ..
        updatedAt_nonneg := updatedAtField_nonneg now entry }

def extractSeriesIdFromSourceIdentity (sourceIdentity : Text) : Text :=
  match stripPrefix (trim sourceIdentity) "series:".toList with
  | none => []
  | some rest =>
    match splitOnce ":episode:".toList rest with
    | none => []
    | some (seriesId, _) => toAsciiLowercase (trim seriesId)

/-- The immediate transactions the handlers issue, each atomic. -/
inductive Transaction where
  | upsertWatchProgress (userId : Int) (identity : Text) (resumeSeconds : ℚ) (updatedAt : Int)
  | deleteWatchProgress (userId : Int) (identity : Text) (deletedAt : Int)
  | deleteWatchProgressForSeries (userId : Int) (seriesId : Text) (deletedAt : Int)
  | upsertContinueWatching (userId : Int) (e : ContinueWatchingEntry)
      (reconciled : Option ContinueWatchingSourceMetadata)
  | deleteContinueWatching (userId : Int) (identity : Text) (deletedAt : Int)
  | deleteContinueWatchingForSeries (userId : Int) (seriesId : Text) (deletedAt : Int)

def Transaction.apply (db : UserStateDb) : Transaction → UserStateDb
  | .upsertWatchProgress userId identity resumeSeconds updatedAt =>
    (UserState.upsertWatchProgress db userId identity resumeSeconds updatedAt).1
  | .deleteWatchProgress userId identity deletedAt =>
    deleteItem db userId .watchProgress identity deletedAt
  | .deleteWatchProgressForSeries userId seriesId deletedAt =>
    deleteUserWatchProgressForSeries db userId seriesId deletedAt
  | .upsertContinueWatching userId e reconciled =>
    (upsertUserContinueWatching db userId e reconciled).1
  | .deleteContinueWatching userId identity deletedAt =>
    deleteItem db userId .continueWatching identity deletedAt
  | .deleteContinueWatchingForSeries userId seriesId deletedAt =>
    deleteUserContinueWatchingForSeries db userId seriesId deletedAt

/-- Requests of any users interleave freely between transactions. -/
def run (txs : List Transaction) (db : UserStateDb) : UserStateDb := txs.foldl Transaction.apply db

@[simp] theorem run_nil (db : UserStateDb) : run [] db = db := rfl

@[simp] theorem run_cons (tx : Transaction) (txs : List Transaction) (db : UserStateDb) :
    run (tx :: txs) db = run txs (tx.apply db) := rfl

/-- What both DELETE handlers read from the body. -/
structure DeleteRequest where
  sourceIdentity : Text
  seriesId : Text
  deletedAt : Int

def parseDelete (now : Nat) (payload : Value) : Except ApiError DeleteRequest := do
  let sourceIdentity ←
    requireBoundedStringField payload "sourceIdentity".toList userIdentityMaxBytes
  let given := ((payload.get "seriesId".toList).bind Value.asStr).map trim
  let seriesId := ((given.filter fun value => !value.isEmpty).map toAsciiLowercase).getD
    (extractSeriesIdFromSourceIdentity sourceIdentity)
  return { sourceIdentity, seriesId, deletedAt := updatedAtField now payload }

/-- The transaction of a deletion on the watch-progress table. -/
def DeleteRequest.watchProgress (userId : Int) (request : DeleteRequest) : Transaction :=
  if request.seriesId.isEmpty then
    .deleteWatchProgress userId request.sourceIdentity request.deletedAt
  else .deleteWatchProgressForSeries userId request.seriesId request.deletedAt

/-- The transaction of a deletion on the continue-watching table. -/
def DeleteRequest.continueWatching (userId : Int) (request : DeleteRequest) : Transaction :=
  if request.seriesId.isEmpty then
    .deleteContinueWatching userId request.sourceIdentity request.deletedAt
  else .deleteContinueWatchingForSeries userId request.seriesId request.deletedAt

section handlers
variable (userId : Int) (now : Nat) (payload : Value)

/-- `DELETE /api/user/watch-progress`. -/
def userWatchProgressDelete : Except ApiError (List Transaction) := do
  let request ← parseDelete now payload
  return [request.watchProgress userId]

/-- `DELETE /api/user/continue-watching`. -/
def userContinueWatchingDelete : Except ApiError (List Transaction) := do
  let request ← parseDelete now payload
  return [request.continueWatching userId, request.watchProgress userId]

/-- `PUT /api/user/watch-progress`. -/
def userWatchProgressPut : Except ApiError (List Transaction) := do
  let sourceIdentity ←
    requireBoundedStringField payload "sourceIdentity".toList userIdentityMaxBytes
  let resumeSeconds := normalizeResumeSecondsValue (payload.get "resumeSeconds".toList)
  return [.upsertWatchProgress userId sourceIdentity resumeSeconds (updatedAtField now payload)]

/-- `PUT /api/user/continue-watching`; `reconciled` is what the cache database answers. -/
def userContinueWatchingPut (reconciled : Option ContinueWatchingSourceMetadata) :
    Except ApiError (List Transaction) :=
  match sanitizeContinueWatchingEntry now payload none with
  | none => .error (missingOrInvalid "sourceIdentity".toList userIdentityMaxBytes)
  | some e => .ok [.upsertContinueWatching userId e reconciled]

/-- The entries of a sync field: an array, or an object keyed by identity. -/
def syncEntries (value : Option Value) : List (Option Text × Value) :=
  match value with
  | some (.array entries) => (entries.take userSyncMaxEntries).map fun entry => (none, entry)
  | some (.object fields) =>
    (fields.take userSyncMaxEntries).map fun field => (some field.1, field.2)
  | _ => []

/-- The user-state part of `POST /api/user/sync`; `clock` and `sessions` are the server
clock and the cache database at each entry. -/
def userSync (clock : Nat → Nat) (sessions : Nat → Option ContinueWatchingSourceMetadata) :
    List Transaction :=
  let progress := (syncEntries (payload.get "watchProgress".toList)).zipIdx.filterMap fun e =>
    (sanitizeWatchProgressEntry (clock e.2) e.1.2 e.1.1).map fun entry =>
      Transaction.upsertWatchProgress userId entry.sourceIdentity entry.resumeSeconds entry.updatedAt
  let continueWatching :=
    (syncEntries (payload.get "continueWatching".toList)).zipIdx.filterMap fun e =>
      (sanitizeContinueWatchingEntry (clock e.2) e.1.2 e.1.1).map fun entry =>
        Transaction.upsertContinueWatching userId entry (sessions e.2)
  progress ++ continueWatching

end handlers

/-- The requests that write user state. -/
inductive StateRequest where
  | putWatchProgress (payload : Value)
  | deleteWatchProgress (payload : Value)
  | putContinueWatching (payload : Value) (reconciled : Option ContinueWatchingSourceMetadata)
  | deleteContinueWatching (payload : Value)
  | sync (payload : Value) (clock : Nat → Nat)
      (sessions : Nat → Option ContinueWatchingSourceMetadata)

/-- What a request of a user commits when it is answered ok. -/
def StateRequest.transactions (userId : Int) (now : Nat) :
    StateRequest → Except ApiError (List Transaction)
  | .putWatchProgress payload => userWatchProgressPut userId now payload
  | .deleteWatchProgress payload => userWatchProgressDelete userId now payload
  | .putContinueWatching payload reconciled =>
    userContinueWatchingPut userId now payload reconciled
  | .deleteContinueWatching payload => userContinueWatchingDelete userId now payload
  | .sync payload clock sessions => .ok (userSync userId payload clock sessions)

/-- Some request commits the transaction. -/
def Issued (tx : Transaction) : Prop :=
  ∃ (request : StateRequest) (userId : Int) (now : Nat) (txs : List Transaction),
    request.transactions userId now = .ok txs ∧ tx ∈ txs

variable {now : Nat} {payload : Value} {request : DeleteRequest}

attribute [local simp] syncEntries

theorem parseDelete_eq_ok (h : parseDelete now payload = .ok request) :
    requireBoundedStringField payload "sourceIdentity".toList userIdentityMaxBytes =
        .ok request.sourceIdentity ∧
      request.deletedAt = updatedAtField now payload := by
  obtain ⟨identity, hidentity, h⟩ := bind_eq_ok.mp h
  obtain rfl := Except.ok.inj h
  exact ⟨hidentity, rfl⟩

theorem sanitizeContinueWatchingEntry_eq_some (now : Nat) {entry : Value} {fallback : Option Text}
    {identity : Text} (h : entryIdentity entry fallback = some identity) :
    ∃ e, sanitizeContinueWatchingEntry now entry fallback = some e ∧
      e.sourceIdentity = identity ∧
      e.mediaType = entryField entry "mediaType".toList userSmallTextMaxBytes ∧
      e.seriesId = entryField entry "seriesId".toList userSmallTextMaxBytes ∧
      e.updatedAt = updatedAtField now entry := by
  unfold sanitizeContinueWatchingEntry
  split
  · next hn => simp [hn] at h
  · next found hf =>
    obtain rfl := Option.some.inj (hf.symm.trans h)
    exact ⟨_, rfl, rfl, rfl, rfl, rfl⟩

/-- A save with the body of an accepted deletion carries the deletion's own version. -/
theorem issued_upsertWatchProgress (h : parseDelete now payload = .ok request) (userId : Int) :
    ∃ resumeSeconds, Issued
      (.upsertWatchProgress userId request.sourceIdentity resumeSeconds request.deletedAt) := by
  obtain ⟨hidentity, hat⟩ := parseDelete_eq_ok h
  refine ⟨normalizeResumeSecondsValue (payload.get "resumeSeconds".toList),
    .putWatchProgress payload, userId, now, _, bind_eq_ok.mpr ⟨_, hidentity, rfl⟩, ?_⟩
  rw [hat]
  exact List.mem_singleton.mpr rfl

/-- A body with an identity and at most a version. -/
def bareBody (identity : Text) (updatedAt : Option Value) : Value :=
  .object (("sourceIdentity".toList, .string identity) ::
    (updatedAt.map fun value => ("updatedAt".toList, value)).toList)

theorem get_bareBody_sourceIdentity (identity : Text) (updatedAt : Option Value) :
    (bareBody identity updatedAt).get "sourceIdentity".toList = some (.string identity) := rfl

theorem get_bareBody_updatedAt (identity : Text) (updatedAt : Option Value) :
    (bareBody identity updatedAt).get "updatedAt".toList = updatedAt := by
  cases updatedAt <;> rfl

theorem get_bareBody_other {field : Text} (hi : field ≠ "sourceIdentity".toList)
    (hu : field ≠ "updatedAt".toList) (identity : Text) (updatedAt : Option Value) :
    (bareBody identity updatedAt).get field = none := by
  rw [bareBody, Value.get, List.lookup_cons, beq_false_of_ne hi]
  cases updatedAt with
  | none => rfl
  | some value =>
    rw [Option.map_some, Option.toList_some, List.lookup_cons, beq_false_of_ne hu]
    rfl

/-- Some entry without series and media type carries the deletion's version as well. -/
theorem issued_upsertContinueWatching (h : parseDelete now payload = .ok request) (userId : Int) :
    ∃ e : ContinueWatchingEntry, Issued (.upsertContinueWatching userId e none) ∧
      e.sourceIdentity = request.sourceIdentity ∧ e.mediaType = [] ∧ e.seriesId = [] ∧
      e.updatedAt = request.deletedAt := by
  obtain ⟨hidentity, hat⟩ := parseDelete_eq_ok h
  let body := bareBody request.sourceIdentity (payload.get "updatedAt".toList)
  have hbody : entryIdentity body none = some request.sourceIdentity := by
    obtain ⟨raw, -, hraw⟩ := Option.bind_eq_some_iff.mp (requireBoundedStringField_eq_ok hidentity)
    have hfield : boundedStringField body "sourceIdentity".toList userIdentityMaxBytes =
        some request.sourceIdentity := boundedTrimmedString_self hraw
    rw [entryIdentity, hfield, Option.some_or]
  have habsent {field : Text} (hi : field ≠ "sourceIdentity".toList)
      (hu : field ≠ "updatedAt".toList) : entryField body field userSmallTextMaxBytes = [] := by
    rw [entryField, boundedStringField, get_bareBody_other hi hu]
    rfl
  have hversion : updatedAtField now body = request.deletedAt := by
    rw [hat, updatedAtField, get_bareBody_updatedAt, updatedAtField]
  obtain ⟨e, he, hid, hmedia, hseries, hupdated⟩ :=
    sanitizeContinueWatchingEntry_eq_some now hbody
  refine ⟨e, ⟨.putContinueWatching body none, userId, now, [.upsertContinueWatching userId e none],
    ?_, List.mem_singleton.mpr rfl⟩, hid, ?_, ?_, hupdated.trans hversion⟩
  · rw [StateRequest.transactions, userContinueWatchingPut, he]
  · rw [hmedia, habsent (by decide) (by decide)]
  · rw [hseries, habsent (by decide) (by decide)]

end StreamArena.UserState
