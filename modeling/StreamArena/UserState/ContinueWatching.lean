import StreamArena.UserState.SeriesDelete

/-! `Db::upsert_user_continue_watching` (src/persistence.rs): a recency guard
over the series, a tombstone guard over the identity, then the collapse of the
sibling rows and the row itself. -/
namespace StreamArena.UserState
open AsciiText KeyedTable SqlLike

/-- An entry as `sanitize_continue_watching_entry` leaves it, an absent field read
as the empty text: identifiers are trimmed and the version is a time. -/
structure ContinueWatchingEntry where
  sourceIdentity : Text
  title : Text := []
  episode : Text := []
  src : Text := []
  tmdbId : Text := []
  mediaType : Text := []
  seriesId : Text := []
  episodeIndex : Int := -1
  year : Text := []
  thumb : Text := []
  sourceHash : Text := []
  sessionKey : Text := []
  resolverProvider : Text := []
  sourceInput : Text := []
  filename : Text := []
  resumeSeconds : ℚ := 0
  updatedAt : Int
  sourceIdentity_ne : sourceIdentity ≠ [] := by decide
  tmdbId_trimmed : trim tmdbId = tmdbId := by decide
  mediaType_trimmed : trim mediaType = mediaType := by decide
  seriesId_trimmed : trim seriesId = seriesId := by decide
  updatedAt_nonneg : 0 ≤ updatedAt := by decide

/-- What the playback sessions of the cache database say about the source. -/
structure ContinueWatchingSourceMetadata where
  sourceHash : Text
  sessionKey : Text
  resolverProvider : Text
  sourceInput : Text
  filename : Text

def latestContinueSeriesUpdatedAt (db : UserStateDb) (userId : Int) (seriesId : Text)
    (tmdbId : Option Text) : Int :=
  let rows := db.continueWatching.select fun key _ => decide (key.1 = userId)
  let matching := rows.filter fun e => continueMatches seriesId tmdbId e.1.2 e.2
  (matching.map fun e => e.2.updatedAt).max?.getD 0

namespace ContinueWatchingEntry
variable (e : ContinueWatchingEntry)

def normalizedSeriesId : Text := normalizeSeriesId e.seriesId

def normalizedMediaType : Text := toAsciiLowercase (trim e.mediaType)

def normalizedTmdbId : Text := trim e.tmdbId

/-- The show an entry names by itself: media type `tv` with a tmdb id. -/
def ownTmdbId : Option Text :=
  if e.normalizedMediaType == "tv".toList && !e.normalizedTmdbId.isEmpty then
    some e.normalizedTmdbId
  else none

def derivedTmdbId : Option Text := tmdbTvIdFromSeriesId e.normalizedSeriesId

def canonicalTmdbId : Option Text := e.ownTmdbId.or e.derivedTmdbId

def row (reconciled : Option ContinueWatchingSourceMetadata) : ContinueWatchingRow where
  title := e.title
  episode := e.episode
  src := e.src
  tmdbId := e.tmdbId
  mediaType := e.mediaType
  seriesId := e.seriesId
  episodeIndex := e.episodeIndex
  year := e.year
  thumb := e.thumb
  sourceHash := reconciled.elim (toAsciiLowercase (trim e.sourceHash)) (·.sourceHash)
  sessionKey := reconciled.elim (trim e.sessionKey) (·.sessionKey)
  resolverProvider := reconciled.elim (trim e.resolverProvider) (·.resolverProvider)
  sourceInput := reconciled.elim (trim e.sourceInput) (·.sourceInput)
  filename := reconciled.elim (trim e.filename) (·.filename)
  resumeSeconds := e.resumeSeconds
  updatedAt := e.updatedAt

@[simp] theorem row_updatedAt (reconciled : Option ContinueWatchingSourceMetadata) :
    (e.row reconciled).updatedAt = e.updatedAt := rfl

end ContinueWatchingEntry

section upsert
variable (db : UserStateDb) (userId : Int) (e : ContinueWatchingEntry)

/-- The recency guard: some row of the title is newer than the entry. -/
def supersededBySeries : Bool :=
  (!e.normalizedSeriesId.isEmpty || e.canonicalTmdbId.isSome) &&
    decide (latestContinueSeriesUpdatedAt db userId e.normalizedSeriesId e.canonicalTmdbId >
      e.updatedAt)

/-- The collapse by series id: a tombstone pass, then a statement without a time bound. -/
def collapseSeries : UserStateDb :=
  if e.normalizedSeriesId.isEmpty then db
  else
    let tx := tombstoneContinueSeries db userId e.normalizedSeriesId e.derivedTmdbId e.updatedAt
      (some e.sourceIdentity)
    { tx with continueWatching := tx.continueWatching.deleteWhere fun key row =>
        decide (key.1 = userId) && decide (key.2 ≠ e.sourceIdentity) &&
          continueSelected e.normalizedSeriesId e.derivedTmdbId key.2 row }

/-- `tmdb-tv-<id>`. -/
def showSeriesId (tmdbId : Text) : Text := "tmdb-tv-".toList ++ tmdbId

/-- The collapse by show id. -/
def collapseShow : UserStateDb :=
  match e.ownTmdbId with
  | none => db
  | some tmdbId =>
    let tx := tombstoneContinueSeries db userId (showSeriesId tmdbId) (some tmdbId)
      e.updatedAt (some e.sourceIdentity)
    { tx with continueWatching := tx.continueWatching.deleteWhere fun key row =>
        decide (key.1 = userId) && decide (key.2 ≠ e.sourceIdentity) &&
          (rowIsShow tmdbId row || likeTmdb tmdbId key.2) }

/-- The flag says whether both guards let the entry through. -/
def upsertUserContinueWatching (reconciled : Option ContinueWatchingSourceMetadata) :
    UserStateDb × Bool :=
  if supersededBySeries db userId e then (db, false)
  else if mutationIsBlockedByTombstone db userId .continueWatching e.sourceIdentity e.updatedAt then
    (db, false)
  else
    let tx := clearObsoleteTombstone db userId .continueWatching e.sourceIdentity e.updatedAt
    let tx := collapseShow (collapseSeries tx userId e) userId e
    let excluded := e.row reconciled
    let rows := tx.continueWatching.upsert (userId, e.sourceIdentity) excluded fun row =>
      if excluded.updatedAt ≥ row.updatedAt then excluded else row
    ({ tx with continueWatching := rows }, true)

end upsert

/-! What the collapse does to one sibling row. -/

/-- The statements remove the row. -/
def ContinueWatchingEntry.removes (e : ContinueWatchingEntry) (identity : Text)
    (row : ContinueWatchingRow) : Bool :=
  (!e.normalizedSeriesId.isEmpty &&
    continueSelected e.normalizedSeriesId e.derivedTmdbId identity row) ||
  e.ownTmdbId.any fun tmdbId => rowIsShow tmdbId row || likeTmdb tmdbId identity

/-- The passes tombstone the row: the second one no longer sees what the first statement removed. -/
def ContinueWatchingEntry.tombs (e : ContinueWatchingEntry) (identity : Text)
    (row : ContinueWatchingRow) : Bool :=
  decide (row.updatedAt ≤ e.updatedAt) &&
    ((!e.normalizedSeriesId.isEmpty &&
      continueMatches e.normalizedSeriesId e.derivedTmdbId identity row) ||
    (!(!e.normalizedSeriesId.isEmpty &&
        continueSelected e.normalizedSeriesId e.derivedTmdbId identity row) &&
      e.ownTmdbId.any fun tmdbId =>
        continueMatches (showSeriesId tmdbId) (some tmdbId) identity row))

variable {db : UserStateDb} {userId : Int} {e : ContinueWatchingEntry}
  {reconciled : Option ContinueWatchingSourceMetadata}

theorem max?_getD_gt {l : List Int} {t : Int} (h : 0 ≤ t) : l.max?.getD 0 > t ↔ ∃ a ∈ l, a > t := by
  cases hm : l.max? with
  | none =>
    rw [List.max?_eq_none_iff] at hm
    simp [hm, h]
  | some m =>
    obtain ⟨hmem, hmax⟩ := List.max?_eq_some_iff.mp hm
    constructor
    · intro ht
      exact ⟨m, hmem, ht⟩
    · rintro ⟨a, ha, ht⟩
      have := hmax a ha
      simp only [Option.getD_some]
      omega

theorem latestContinueSeriesUpdatedAt_gt {seriesId : Text} {tmdbId : Option Text} {t : Int}
    (h : 0 ≤ t) :
    latestContinueSeriesUpdatedAt db userId seriesId tmdbId > t ↔
      ∃ x row, db.continueWatching.get (userId, x) = some row ∧
        continueMatches seriesId tmdbId x row = true ∧ row.updatedAt > t := by
  simp only [latestContinueSeriesUpdatedAt, max?_getD_gt h, List.mem_map, List.mem_filter]
  constructor
  · rintro ⟨_, ⟨⟨⟨u, x⟩, row⟩, ⟨hm, hp⟩, rfl⟩, ht⟩
    obtain ⟨hg, hu⟩ := mem_select.mp hm
    rw [decide_eq_true_eq] at hu
    exact ⟨x, row, hu ▸ hg, hp, ht⟩
  · rintro ⟨x, row, hg, hp, ht⟩
    exact ⟨_, ⟨((userId, x), row), ⟨mem_select.mpr ⟨hg, by simp⟩, hp⟩, rfl⟩, ht⟩

theorem supersededBySeries_iff :
    supersededBySeries db userId e = true ↔
      (e.normalizedSeriesId ≠ [] ∨ e.canonicalTmdbId.isSome) ∧
        ∃ x row, db.continueWatching.get (userId, x) = some row ∧
          continueMatches e.normalizedSeriesId e.canonicalTmdbId x row = true ∧
          row.updatedAt > e.updatedAt := by
  rw [supersededBySeries, Bool.and_eq_true, decide_eq_true_eq,
    latestContinueSeriesUpdatedAt_gt e.updatedAt_nonneg]
  simp

theorem upsert_refused (h : supersededBySeries db userId e = true ∨
    mutationIsBlockedByTombstone db userId .continueWatching e.sourceIdentity e.updatedAt = true) :
    upsertUserContinueWatching db userId e reconciled = (db, false) := by
  rcases h with h | h
  · simp [upsertUserContinueWatching, h]
  · simp [upsertUserContinueWatching, h]

@[simp] theorem collapseSeries_watchProgress :
    (collapseSeries db userId e).watchProgress = db.watchProgress := by
  unfold collapseSeries
  split
  · rfl
  · exact recordAll_watchProgress _

@[simp] theorem collapseShow_watchProgress :
    (collapseShow db userId e).watchProgress = db.watchProgress := by
  unfold collapseShow
  split
  · rfl
  · exact recordAll_watchProgress _

theorem get_collapseSeries (u : Int) (x : Text) :
    (collapseSeries db userId e).continueWatching.get (u, x) =
      (db.continueWatching.get (u, x)).filter fun row =>
        !(decide (u = userId) && decide (x ≠ e.sourceIdentity) &&
          (!e.normalizedSeriesId.isEmpty &&
            continueSelected e.normalizedSeriesId e.derivedTmdbId x row)) := by
  unfold collapseSeries
  by_cases hs : e.normalizedSeriesId.isEmpty = true
  · rw [if_pos hs, filter_keep fun row _ => by simp [hs]]
  · simp only [hs, Bool.false_eq_true, ↓reduceIte, tombstoneContinueSeries, get_deleteWhere,
      recordAll_continueWatching, Bool.not_false, Bool.true_and]

theorem get_collapseShow (u : Int) (x : Text) :
    (collapseShow db userId e).continueWatching.get (u, x) =
      (db.continueWatching.get (u, x)).filter fun row =>
        !(decide (u = userId) && decide (x ≠ e.sourceIdentity) &&
          e.ownTmdbId.any fun tmdbId => rowIsShow tmdbId row || likeTmdb tmdbId x) := by
  unfold collapseShow
  cases hs : e.ownTmdbId with
  | none => rw [filter_keep fun row _ => by simp]
  | some tmdbId =>
    simp only [tombstoneContinueSeries, get_deleteWhere, recordAll_continueWatching,
      Option.any_some]

theorem tombstone_collapseSeries (u : Int) (d : StateDomain) (x : Text) :
    (collapseSeries db userId e).tombstone u d x =
      if u = userId ∧ d = .continueWatching ∧ e.normalizedSeriesId ≠ [] ∧ x ∈ continueOfSeries db
          userId e.normalizedSeriesId e.derivedTmdbId e.updatedAt (some e.sourceIdentity)
      then some ((db.tombstone u d x).elim e.updatedAt fun old => max old e.updatedAt)
      else db.tombstone u d x := by
  unfold collapseSeries
  by_cases hs : e.normalizedSeriesId = []
  · simp [hs]
  · rw [if_neg (by simpa using hs)]
    refine (tombstone_recordAll _ u d x).trans ?_
    simp [hs]

theorem tombstone_collapseShow (u : Int) (d : StateDomain) (x : Text) :
    (collapseShow db userId e).tombstone u d x =
      if u = userId ∧ d = .continueWatching ∧ ∃ tmdbId, e.ownTmdbId = some tmdbId ∧
          x ∈ continueOfSeries db userId (showSeriesId tmdbId) (some tmdbId) e.updatedAt
            (some e.sourceIdentity)
      then some ((db.tombstone u d x).elim e.updatedAt fun old => max old e.updatedAt)
      else db.tombstone u d x := by
  unfold collapseShow
  cases hs : e.ownTmdbId with
  | none => simp
  | some tmdbId =>
    refine (tombstone_recordAll _ u d x).trans ?_
    simp only [Option.some.injEq, exists_eq_left']

@[simp] theorem clearObsoleteTombstone_rows {identity : Text} {t : Int} (d : StateDomain) :
    (clearObsoleteTombstone db userId d identity t).continueWatching = db.continueWatching := rfl

/-- Both collapses, seen from one sibling row. -/
theorem get_collapse (u : Int) (x : Text) :
    (collapseShow (collapseSeries db userId e) userId e).continueWatching.get (u, x) =
      (db.continueWatching.get (u, x)).filter fun row =>
        !(decide (u = userId) && decide (x ≠ e.sourceIdentity) && e.removes x row) := by
  rw [get_collapseShow, get_collapseSeries, Option.filter_filter]
  congr 1
  funext row
  simp only [ContinueWatchingEntry.removes]
  by_cases hu : u = userId <;> by_cases hx : x = e.sourceIdentity <;> simp [hu, hx]

/-- Recording one time twice is recording it once. -/
theorem record_twice {A B : Prop} [Decidable A] [Decidable B] (old : Option Int) (t : Int) :
    (if B then some ((if A then some (old.elim t fun o => max o t) else old).elim t fun o => max o t)
      else if A then some (old.elim t fun o => max o t) else old) =
      if A ∨ B then some (old.elim t fun o => max o t) else old := by
  by_cases hA : A <;> by_cases hB : B <;> cases old <;> simp [hA, hB]

theorem tombs_iff {x : Text} {row : ContinueWatchingRow} :
    e.tombs x row = true ↔ row.updatedAt ≤ e.updatedAt ∧
      ((e.normalizedSeriesId ≠ [] ∧
        continueMatches e.normalizedSeriesId e.derivedTmdbId x row = true) ∨
      (¬ (e.normalizedSeriesId ≠ [] ∧
          continueSelected e.normalizedSeriesId e.derivedTmdbId x row = true) ∧
        ∃ tmdbId, e.ownTmdbId = some tmdbId ∧
          continueMatches (showSeriesId tmdbId) (some tmdbId) x row = true)) := by
  simp only [ContinueWatchingEntry.tombs, Bool.and_eq_true, Bool.or_eq_true, decide_eq_true_eq,
    Option.any_eq_true, Bool.not_eq_true', ← Bool.not_eq_true, List.isEmpty_iff, ne_eq]

theorem removes_iff {x : Text} {row : ContinueWatchingRow} :
    e.removes x row = true ↔
      (e.normalizedSeriesId ≠ [] ∧
        continueSelected e.normalizedSeriesId e.derivedTmdbId x row = true) ∨
      ∃ tmdbId, e.ownTmdbId = some tmdbId ∧
        (rowIsShow tmdbId row = true ∨ likeTmdb tmdbId x = true) := by
  simp only [ContinueWatchingEntry.removes, Bool.and_eq_true, Bool.or_eq_true,
    Bool.not_eq_true', List.isEmpty_eq_false_iff, Option.any_eq_true]

/-- Both passes, seen from one sibling identity. -/
theorem tombstone_collapse (u : Int) (d : StateDomain) (x : Text) :
    (collapseShow (collapseSeries db userId e) userId e).tombstone u d x =
      if u = userId ∧ d = .continueWatching ∧ x ≠ e.sourceIdentity ∧
          ∃ row, db.continueWatching.get (userId, x) = some row ∧ e.tombs x row = true
      then some ((db.tombstone u d x).elim e.updatedAt fun old => max old e.updatedAt)
      else db.tombstone u d x := by
  classical
  rw [tombstone_collapseShow, tombstone_collapseSeries, record_twice]
  refine if_congr ?_ rfl rfl
  have hx : some e.sourceIdentity ≠ some x ↔ x ≠ e.sourceIdentity := by
    rw [ne_eq, Option.some.injEq, eq_comm]
  simp only [mem_continueOfSeries, get_collapseSeries, hx]
  cases hg : db.continueWatching.get (userId, x) with
  | none => simp
  | some row =>
    simp only [Option.some.injEq, exists_eq_left', tombs_iff, Option.filter_eq_some_iff]
    by_cases hxe : x = e.sourceIdentity
    · simp [hxe]
    · simp only [hxe, ne_eq, not_false_eq_true, decide_true, Bool.true_and, true_and,
        Bool.not_eq_true', ← Bool.not_eq_true, Bool.and_eq_true, List.isEmpty_iff]
      constructor
      · rintro (⟨hu, hd, hs, ht, hm⟩ | ⟨hu, hd, tmdbId, hv, _, ⟨rfl, hsel⟩, ht, hm⟩)
        · exact ⟨hu, hd, ht, .inl ⟨hs, hm⟩⟩
        · exact ⟨hu, hd, ht, .inr ⟨hsel, tmdbId, hv, hm⟩⟩
      · rintro ⟨hu, hd, ht, ⟨hs, hm⟩ | ⟨hsel, tmdbId, hv, hm⟩⟩
        · exact .inl ⟨hu, hd, hs, ht, hm⟩
        · exact .inr ⟨hu, hd, tmdbId, hv, row, ⟨rfl, hsel⟩, ht, hm⟩

/-- What an accepted entry leaves in the table. -/
theorem get_upsertUserContinueWatching (hs : supersededBySeries db userId e = false)
    (hb : mutationIsBlockedByTombstone db userId .continueWatching e.sourceIdentity e.updatedAt = false)
    (u : Int) (x : Text) :
    (upsertUserContinueWatching db userId e reconciled).1.continueWatching.get (u, x) =
      if (u, x) = (userId, e.sourceIdentity) then
        some ((db.continueWatching.get (userId, e.sourceIdentity)).elim (e.row reconciled) fun row =>
          if e.updatedAt ≥ row.updatedAt then e.row reconciled else row)
      else (db.continueWatching.get (u, x)).filter fun row =>
        !(decide (u = userId) && e.removes x row) := by
  simp only [upsertUserContinueWatching, hs, hb, Bool.false_eq_true, ↓reduceIte, get_upsert,
    get_collapse, clearObsoleteTombstone_rows]
  by_cases hk : (u, x) = (userId, e.sourceIdentity)
  · rw [if_pos hk, if_pos hk, filter_keep fun row _ => by simp]
    rfl
  · rw [if_neg hk, if_neg hk]
    congr 1
    funext row
    by_cases hu : u = userId
    · have hx : x ≠ e.sourceIdentity := fun h => hk (by rw [hu, h])
      simp [hu, hx]
    · simp [hu]

/-- What an accepted entry leaves in the tombstones. -/
theorem tombstone_upsertUserContinueWatching (hs : supersededBySeries db userId e = false)
    (hb : mutationIsBlockedByTombstone db userId .continueWatching e.sourceIdentity e.updatedAt = false)
    (u : Int) (d : StateDomain) (x : Text) :
    (upsertUserContinueWatching db userId e reconciled).1.tombstone u d x =
      if (u, d, x) = (userId, .continueWatching, e.sourceIdentity) then none
      else if u = userId ∧ d = .continueWatching ∧
          ∃ row, db.continueWatching.get (userId, x) = some row ∧ e.tombs x row = true
      then some ((db.tombstone u d x).elim e.updatedAt fun old => max old e.updatedAt)
      else db.tombstone u d x := by
  simp only [upsertUserContinueWatching, hs, hb, Bool.false_eq_true, ↓reduceIte]
  refine (tombstone_collapse u d x).trans ?_
  simp only [clearObsoleteTombstone_rows, tombstone_clearObsoleteTombstone]
  by_cases hk : (u, d, x) = (userId, StateDomain.continueWatching, e.sourceIdentity)
  · obtain ⟨rfl, rfl, rfl⟩ : u = userId ∧ d = .continueWatching ∧ x = e.sourceIdentity := by
      simpa using hk
    have hold : (db.tombstone u .continueWatching e.sourceIdentity).filter
        (fun deletedAt => e.updatedAt ≤ deletedAt) = none := by
      rw [← Bool.not_eq_true, mutationIsBlockedByTombstone_iff] at hb
      rw [Option.filter_eq_none_iff]
      intro deletedAt hd
      simpa using fun hle => hb ⟨deletedAt, hd, hle⟩
    simp [hold]
  · simp only [hk, ↓reduceIte]
    refine if_congr ?_ rfl rfl
    constructor
    · rintro ⟨hu, hd, -, hrow⟩
      exact ⟨hu, hd, hrow⟩
    · rintro ⟨hu, hd, hrow⟩
      exact ⟨hu, hd, fun hx => hk (by rw [hu, hd, hx]), hrow⟩

theorem watchProgress_upsertUserContinueWatching :
    (upsertUserContinueWatching db userId e reconciled).1.watchProgress = db.watchProgress := by
  unfold upsertUserContinueWatching
  split
  · rfl
  · split
    · rfl
    · simp

theorem tombstone_watch_upsertUserContinueWatching (u : Int) (x : Text) :
    (upsertUserContinueWatching db userId e reconciled).1.tombstone u .watchProgress x =
      db.tombstone u .watchProgress x := by
  cases hs : supersededBySeries db userId e with
  | true => rw [upsert_refused (.inl hs)]
  | false =>
    cases hb : mutationIsBlockedByTombstone db userId .continueWatching e.sourceIdentity
        e.updatedAt with
    | true => rw [upsert_refused (.inr hb)]
    | false => rw [tombstone_upsertUserContinueWatching hs hb]; simp

/-- Seen by its own identity, an accepted entry is a write. -/
theorem continueCell_upsert_self (hs : supersededBySeries db userId e = false)
    (hb : mutationIsBlockedByTombstone db userId .continueWatching e.sourceIdentity e.updatedAt = false) :
    continueCell (upsertUserContinueWatching db userId e reconciled).1 userId e.sourceIdentity =
      (continueCell db userId e.sourceIdentity).put e.updatedAt (e.row reconciled) := by
  have hopen : ¬ (continueCell db userId e.sourceIdentity).blocked e.updatedAt := by
    rw [blocked_continueCell, hb]
    simp
  rw [LastWriter.put_open hopen]
  ext1
  · simp only [continueCell, get_upsertUserContinueWatching hs hb, ↓reduceIte]
    cases db.continueWatching.get (userId, e.sourceIdentity) with
    | none => rfl
    | some row =>
      simp only [Option.elim, Option.map_some, ge_iff_le]
      split <;> rfl
  · simp only [continueCell, tombstone_upsertUserContinueWatching hs hb, ↓reduceIte]

/-- No rank drops unless a statement removes a sibling row that no pass tombstones. -/
theorem version_le_upsert (u : Int) (x : Text)
    (h : ∀ row, u = userId → db.continueWatching.get (u, x) = some row → x ≠ e.sourceIdentity →
      e.removes x row = true → e.tombs x row = true) :
    (continueCell db u x).version ≤
      (continueCell (upsertUserContinueWatching db userId e reconciled).1 u x).version := by
  cases hs : supersededBySeries db userId e with
  | true => rw [upsert_refused (.inl hs)]
  | false =>
    cases hb : mutationIsBlockedByTombstone db userId .continueWatching e.sourceIdentity
        e.updatedAt with
    | true => rw [upsert_refused (.inr hb)]
    | false =>
      by_cases hk : (u, x) = (userId, e.sourceIdentity)
      · obtain ⟨rfl, rfl⟩ := Prod.mk.inj hk
        rw [continueCell_upsert_self hs hb]
        exact LastWriter.version_le_apply _ (.put e.updatedAt (e.row reconciled))
      · have hk' : (u, StateDomain.continueWatching, x) ≠
            (userId, .continueWatching, e.sourceIdentity) := by simpa using hk
        refine LastWriter.version_le_of_marked (fun t v hrow => ?_) fun hrow => ?_
        · obtain ⟨row, hg, he⟩ := Option.map_eq_some_iff.mp hrow
          obtain ⟨rfl, rfl⟩ := Prod.mk.inj he
          simp only [continueCell, get_upsertUserContinueWatching hs hb,
            tombstone_upsertUserContinueWatching hs hb, if_neg hk, if_neg hk', hg]
          by_cases hr : u = userId ∧ e.removes x row = true
          · obtain ⟨rfl, hr⟩ := hr
            have hx : x ≠ e.sourceIdentity := fun hx => hk (by rw [hx])
            have ht := h row rfl hg hx hr
            have hle := (tombs_iff.mp ht).1
            refine .inr ⟨by simp [hr], _, if_pos ⟨rfl, trivial, row, hg, ht⟩, ?_⟩
            exact hle.trans (LastWriter.le_delete_tombstone _ _)
          · refine .inl ?_
            rw [filter_keep fun row' hg' => ?_]
            · rfl
            · obtain rfl := Option.some.inj hg'
              cases hre : e.removes x row <;> simp_all
        · have hg : db.continueWatching.get (u, x) = none := Option.map_eq_none_iff.mp hrow
          simp only [continueCell, get_upsertUserContinueWatching hs hb,
            tombstone_upsertUserContinueWatching hs hb, if_neg hk, if_neg hk', hg]
          refine ⟨rfl, if_neg ?_⟩
          rintro ⟨rfl, -, row, hg', -⟩
          simp [hg] at hg'

end StreamArena.UserState
