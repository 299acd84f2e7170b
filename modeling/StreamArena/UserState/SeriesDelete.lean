import StreamArena.UserState.SeriesMatch
import StreamArena.UserState.Tombstones

/-! Series-wide deletion (src/persistence.rs): one transaction tombstones the
identities a Rust predicate picks from the rows it read, then removes the rows
a `DELETE` statement picks. The two agree unless a row diverges. -/
namespace StreamArena.UserState
open AsciiText KeyedTable SqlLike

/-- The loop of a tombstone pass over the identities it picked. -/
def recordAll (db : UserStateDb) (userId : Int) (domain : StateDomain) (identities : List Text)
    (deletedAt : Int) : UserStateDb :=
  identities.foldl (fun tx identity => recordTombstone tx userId domain identity deletedAt) db

/-- `media_type == "tv" && row_tmdb_id == value`, alike in Rust and in SQL. -/
def rowIsShow (tmdbId : Text) (row : ContinueWatchingRow) : Bool :=
  toAsciiLowercase row.mediaType == "tv".toList && row.tmdbId == tmdbId

/-- The predicate of the continue-watching passes. -/
def continueMatches (seriesId : Text) (tmdbId : Option Text) (identity : Text)
    (row : ContinueWatchingRow) : Bool :=
  (toAsciiLowercase row.seriesId == seriesId || isSeries seriesId identity) ||
    tmdbId.any fun value => rowIsShow value row || isTmdb value identity

/-- The condition of the continue-watching statements. -/
def continueSelected (seriesId : Text) (tmdbId : Option Text) (identity : Text)
    (row : ContinueWatchingRow) : Bool :=
  toAsciiLowercase row.seriesId == seriesId || likeSeries seriesId identity ||
    tmdbId.any fun value => likeTmdb value identity || rowIsShow value row

section passes
variable (db : UserStateDb) (userId : Int) (seriesId : Text) (tmdbId : Option Text) (deletedAt : Int)

def watchProgressOfSeries : List Text :=
  let identities := (db.watchProgress.select fun key row =>
    decide (key.1 = userId) && decide (row.updatedAt ≤ deletedAt)).map fun e => e.1.2
  identities.filter fun identity => identityMatches seriesId tmdbId identity

def tombstoneWatchProgressSeries : UserStateDb :=
  recordAll db userId .watchProgress (watchProgressOfSeries db userId seriesId tmdbId deletedAt)
    deletedAt

def continueOfSeries (exceptIdentity : Option Text) : List Text :=
  let rows := db.continueWatching.select fun key row =>
    decide (key.1 = userId) && decide (row.updatedAt ≤ deletedAt)
  let picked := rows.filter fun e =>
    !(exceptIdentity.any fun except => e.1.2 == except) && continueMatches seriesId tmdbId e.1.2 e.2
  picked.map fun e => e.1.2

def tombstoneContinueSeries (exceptIdentity : Option Text) : UserStateDb :=
  recordAll db userId .continueWatching
    (continueOfSeries db userId seriesId tmdbId deletedAt exceptIdentity) deletedAt

end passes

/-- Both branches: without a show id the statement is the one about the series alone. -/
def deleteUserWatchProgressForSeries (db : UserStateDb) (userId : Int) (seriesId : Text)
    (deletedAt : Int) : UserStateDb :=
  let normalizedSeriesId := normalizeSeriesId seriesId
  let tmdbId := tmdbTvIdFromSeriesId normalizedSeriesId
  let tx := tombstoneWatchProgressSeries db userId normalizedSeriesId tmdbId deletedAt
  { tx with watchProgress := tx.watchProgress.deleteWhere fun key row =>
      decide (key.1 = userId) && identitySelected normalizedSeriesId tmdbId key.2 &&
        decide (row.updatedAt ≤ deletedAt) }

def deleteUserContinueWatchingForSeries (db : UserStateDb) (userId : Int) (seriesId : Text)
    (deletedAt : Int) : UserStateDb :=
  let normalizedSeriesId := normalizeSeriesId seriesId
  let tmdbId := tmdbTvIdFromSeriesId normalizedSeriesId
  let tx := tombstoneContinueSeries db userId normalizedSeriesId tmdbId deletedAt none
  { tx with continueWatching := tx.continueWatching.deleteWhere fun key row =>
      decide (key.1 = userId) && continueSelected normalizedSeriesId tmdbId key.2 row &&
        decide (row.updatedAt ≤ deletedAt) }

variable {db : UserStateDb} {userId : Int} {domain : StateDomain} {seriesId identity : Text}
  {tmdbId exceptIdentity : Option Text} {deletedAt : Int}

@[simp] theorem recordAll_nil : recordAll db userId domain [] deletedAt = db := rfl

@[simp] theorem recordAll_cons (x : Text) (xs : List Text) :
    recordAll db userId domain (x :: xs) deletedAt =
      recordAll (recordTombstone db userId domain x deletedAt) userId domain xs deletedAt := rfl

@[simp] theorem recordAll_watchProgress (xs : List Text) :
    (recordAll db userId domain xs deletedAt).watchProgress = db.watchProgress := by
  induction xs generalizing db with
  | nil => rfl
  | cons x xs ih => rw [recordAll_cons, ih, recordTombstone_watchProgress]

@[simp] theorem recordAll_continueWatching (xs : List Text) :
    (recordAll db userId domain xs deletedAt).continueWatching = db.continueWatching := by
  induction xs generalizing db with
  | nil => rfl
  | cons x xs ih => rw [recordAll_cons, ih, recordTombstone_continueWatching]

theorem tombstone_recordAll (xs : List Text) (u : Int) (d : StateDomain) (x : Text) :
    (recordAll db userId domain xs deletedAt).tombstone u d x =
      if u = userId ∧ d = domain ∧ x ∈ xs then
        some ((db.tombstone u d x).elim deletedAt fun old => max old deletedAt)
      else db.tombstone u d x := by
  induction xs generalizing db with
  | nil => simp
  | cons a xs ih =>
    rw [recordAll_cons, ih, tombstone_recordTombstone]
    by_cases hk : (u, d, x) = (userId, domain, a)
    · obtain ⟨rfl, rfl, rfl⟩ := by simpa using hk
      cases db.tombstone u d x <;> simp
    · rw [if_neg hk]
      simp only [Prod.mk.injEq, not_and] at hk
      by_cases hm : u = userId ∧ d = domain ∧ x ∈ xs
      · simp [hm]
      · have hn : ¬ (u = userId ∧ d = domain ∧ x ∈ a :: xs) := by
          rintro ⟨hu, hd, hx⟩
          rcases List.mem_cons.mp hx with rfl | hx
          · exact hk hu hd rfl
          · exact hm ⟨hu, hd, hx⟩
        rw [if_neg hm, if_neg hn]

theorem mem_watchProgressOfSeries {x : Text} :
    x ∈ watchProgressOfSeries db userId seriesId tmdbId deletedAt ↔
      ∃ row, db.watchProgress.get (userId, x) = some row ∧ row.updatedAt ≤ deletedAt ∧
        identityMatches seriesId tmdbId x = true := by
  simp only [watchProgressOfSeries, List.mem_filter, List.mem_map]
  constructor
  · rintro ⟨⟨⟨⟨u, y⟩, row⟩, hm, rfl⟩, hp⟩
    obtain ⟨hg, hb⟩ := mem_select.mp hm
    simp only [Bool.and_eq_true, decide_eq_true_eq] at hb
    exact ⟨row, hb.1 ▸ hg, hb.2, hp⟩
  · rintro ⟨row, hg, ht, hp⟩
    exact ⟨⟨((userId, x), row), mem_select.mpr ⟨hg, by simp [ht]⟩, rfl⟩, hp⟩

theorem mem_continueOfSeries {x : Text} :
    x ∈ continueOfSeries db userId seriesId tmdbId deletedAt exceptIdentity ↔
      exceptIdentity ≠ some x ∧ ∃ row, db.continueWatching.get (userId, x) = some row ∧
        row.updatedAt ≤ deletedAt ∧ continueMatches seriesId tmdbId x row = true := by
  have hexc (y : Text) : (exceptIdentity.any fun except => y == except) = false ↔
      exceptIdentity ≠ some y := by
    cases exceptIdentity with
    | none => simp
    | some except =>
      rw [Option.any_some, beq_eq_false_iff_ne, ne_eq, ne_eq, Option.some.injEq, eq_comm]
  simp only [continueOfSeries, List.mem_map, List.mem_filter, Bool.and_eq_true, Bool.not_eq_true',
    hexc]
  constructor
  · rintro ⟨⟨⟨u, y⟩, row⟩, ⟨hm, he, hp⟩, rfl⟩
    obtain ⟨hg, hb⟩ := mem_select.mp hm
    simp only [Bool.and_eq_true, decide_eq_true_eq] at hb
    exact ⟨he, row, hb.1 ▸ hg, hb.2, hp⟩
  · rintro ⟨he, row, hg, ht, hp⟩
    exact ⟨((userId, x), row), ⟨mem_select.mpr ⟨hg, by simp [ht]⟩, he, hp⟩, rfl⟩

variable (db userId seriesId deletedAt) in
theorem get_deleteUserWatchProgressForSeries (u : Int) (x : Text) :
    (deleteUserWatchProgressForSeries db userId seriesId deletedAt).watchProgress.get (u, x) =
      (db.watchProgress.get (u, x)).filter fun row =>
        !(decide (u = userId) &&
          identitySelected (normalizeSeriesId seriesId)
            (tmdbTvIdFromSeriesId (normalizeSeriesId seriesId)) x &&
          decide (row.updatedAt ≤ deletedAt)) := by
  simp only [deleteUserWatchProgressForSeries, tombstoneWatchProgressSeries, get_deleteWhere,
    recordAll_watchProgress]

variable (db userId seriesId deletedAt) in
theorem get_deleteUserContinueWatchingForSeries (u : Int) (x : Text) :
    (deleteUserContinueWatchingForSeries db userId seriesId deletedAt).continueWatching.get (u, x) =
      (db.continueWatching.get (u, x)).filter fun row =>
        !(decide (u = userId) &&
          continueSelected (normalizeSeriesId seriesId)
            (tmdbTvIdFromSeriesId (normalizeSeriesId seriesId)) x row &&
          decide (row.updatedAt ≤ deletedAt)) := by
  simp only [deleteUserContinueWatchingForSeries, tombstoneContinueSeries, get_deleteWhere,
    recordAll_continueWatching]

/-- The identities one series deletion tombstones, and no others change. -/
theorem tombstone_deleteUserWatchProgressForSeries (u : Int) (d : StateDomain) (x : Text) :
    (deleteUserWatchProgressForSeries db userId seriesId deletedAt).tombstone u d x =
      if u = userId ∧ d = .watchProgress ∧ x ∈ watchProgressOfSeries db userId
          (normalizeSeriesId seriesId) (tmdbTvIdFromSeriesId (normalizeSeriesId seriesId)) deletedAt
      then some ((db.tombstone u d x).elim deletedAt fun old => max old deletedAt)
      else db.tombstone u d x :=
  tombstone_recordAll _ u d x

theorem tombstone_deleteUserContinueWatchingForSeries (u : Int) (d : StateDomain) (x : Text) :
    (deleteUserContinueWatchingForSeries db userId seriesId deletedAt).tombstone u d x =
      if u = userId ∧ d = .continueWatching ∧ x ∈ continueOfSeries db userId
          (normalizeSeriesId seriesId) (tmdbTvIdFromSeriesId (normalizeSeriesId seriesId)) deletedAt
          none
      then some ((db.tombstone u d x).elim deletedAt fun old => max old deletedAt)
      else db.tombstone u d x :=
  tombstone_recordAll _ u d x

/-! Where the pass and the statement pick the same rows. -/

/-- The identities a series calls its own. -/
def InFamily (seriesId : Text) (tmdbId : Option Text) (identity : Text) : Prop :=
  HasPrefix (seriesPrefix seriesId) identity ∨
    ∃ value, tmdbId = some value ∧ (eqIgnoreAsciiCase identity (tmdbSource value) = true ∨
      HasPrefix (tmdbSource value ++ ":".toList) identity)

/-- The rows of the continue-watching table a series calls its own. -/
def ContinueInSeries (seriesId : Text) (tmdbId : Option Text) (identity : Text)
    (row : ContinueWatchingRow) : Prop :=
  toAsciiLowercase row.seriesId = seriesId ∨ (∃ value, tmdbId = some value ∧ rowIsShow value row = true) ∨
    InFamily seriesId tmdbId identity

def ContinueDiverges (seriesId identity : Text) (row : ContinueWatchingRow) : Prop :=
  Diverges seriesId identity ∧ toAsciiLowercase row.seriesId ≠ seriesId ∧
    ∀ value, tmdbTvIdFromSeriesId seriesId = some value → rowIsShow value row = false

theorem identityMatches_iff {x : Text} (h : toAsciiLowercase seriesId = seriesId) :
    identityMatches seriesId tmdbId x = true ↔ InFamily seriesId tmdbId x := by
  rw [identityMatches, Bool.or_eq_true, isSeries_iff h, InFamily]
  cases tmdbId with
  | none => simp
  | some value => simp [isTmdb_iff]

theorem continueMatches_eq (seriesId : Text) (tmdbId : Option Text) (x : Text)
    (row : ContinueWatchingRow) :
    continueMatches seriesId tmdbId x row =
      (toAsciiLowercase row.seriesId == seriesId || (tmdbId.any fun value => rowIsShow value row) ||
        identityMatches seriesId tmdbId x) := by
  cases tmdbId <;> simp [continueMatches, identityMatches, Bool.or_assoc, Bool.or_left_comm]

theorem continueSelected_eq (seriesId : Text) (tmdbId : Option Text) (x : Text)
    (row : ContinueWatchingRow) :
    continueSelected seriesId tmdbId x row =
      (toAsciiLowercase row.seriesId == seriesId || (tmdbId.any fun value => rowIsShow value row) ||
        identitySelected seriesId tmdbId x) := by
  cases tmdbId <;>
    simp [continueSelected, identitySelected, Bool.or_assoc, Bool.or_left_comm, Bool.or_comm]

theorem continueMatches_iff {x : Text} {row : ContinueWatchingRow}
    (h : toAsciiLowercase seriesId = seriesId) :
    continueMatches seriesId tmdbId x row = true ↔ ContinueInSeries seriesId tmdbId x row := by
  rw [continueMatches_eq, Bool.or_eq_true, identityMatches_iff h, ContinueInSeries, Bool.or_eq_true,
    beq_iff_eq, or_assoc]
  cases tmdbId <;> simp

theorem diverges_iff {x : Text} (hn : normalizeSeriesId seriesId = seriesId) :
    Diverges seriesId x ↔ identitySelected seriesId (tmdbTvIdFromSeriesId seriesId) x ≠
      identityMatches seriesId (tmdbTvIdFromSeriesId seriesId) x := by
  constructor
  · rintro (hw | ⟨value, ht, hc⟩)
    · obtain ⟨hs, hm⟩ := wildcardOnly_not_matches hn hw
      simp [hs, hm]
    · obtain ⟨hs, hm⟩ := caseVariant_not_selected hn ht hc
      simp [hs, hm]
  · intro h
    by_contra hd
    exact h (selected_iff_matches hn hd)

theorem continueDiverges_iff {x : Text} {row : ContinueWatchingRow}
    (hn : normalizeSeriesId seriesId = seriesId) :
    ContinueDiverges seriesId x row ↔
      continueSelected seriesId (tmdbTvIdFromSeriesId seriesId) x row ≠
        continueMatches seriesId (tmdbTvIdFromSeriesId seriesId) x row := by
  rw [continueSelected_eq, continueMatches_eq, ContinueDiverges, diverges_iff hn]
  by_cases hs : toAsciiLowercase row.seriesId = seriesId
  · simp [hs]
  · rw [beq_false_of_ne hs]
    cases ht : tmdbTvIdFromSeriesId seriesId with
    | none => simp [hs]
    | some value => cases hr : rowIsShow value row <;> simp [hs, hr]

/-- Deleting what is tombstoned and nothing else, row by row of one user's table. -/
def DeletesExactly {ρ : Type} (before after : Table (Int × Text) ρ) (userId : Int)
    (tombstoned : List Text) (inSeries : Text → ρ → Prop) : Prop :=
  ∀ x row, before.get (userId, x) = some row →
    (after.get (userId, x) = none ↔ x ∈ tombstoned) ∧
    (¬ inSeries x row → after.get (userId, x) = some row ∧ x ∉ tombstoned)

/-- A pass that picks by `picks` and a statement that picks by `selects` are exact
on the rows where these agree. -/
theorem deletesExactly_iff {ρ : Type} {before after : Table (Int × Text) ρ}
    {tombstoned : List Text} {inSeries : Text → ρ → Prop} {updatedAt : ρ → Int}
    {picks selects : Text → ρ → Bool}
    (hafter : ∀ x, after.get (userId, x) = (before.get (userId, x)).filter fun row =>
      !(selects x row && decide (updatedAt row ≤ deletedAt)))
    (htomb : ∀ x, x ∈ tombstoned ↔ ∃ row, before.get (userId, x) = some row ∧
      updatedAt row ≤ deletedAt ∧ picks x row = true)
    (hseries : ∀ x row, picks x row = true ↔ inSeries x row) :
    DeletesExactly before after userId tombstoned inSeries ↔
      ∀ x row, before.get (userId, x) = some row → updatedAt row ≤ deletedAt →
        selects x row = picks x row := by
  have hremoved {x : Text} {row : ρ} (hg : before.get (userId, x) = some row) :
      after.get (userId, x) = none ↔ selects x row = true ∧ updatedAt row ≤ deletedAt := by
    rw [hafter, hg]
    simp
  have hpicked {x : Text} {row : ρ} (hg : before.get (userId, x) = some row) :
      x ∈ tombstoned ↔ updatedAt row ≤ deletedAt ∧ picks x row = true := by
    rw [htomb, hg]
    simp
  constructor
  · intro h x row hg ht
    have hx := (h x row hg).1
    rw [hremoved hg, hpicked hg] at hx
    rw [Bool.eq_iff_iff]
    simpa [ht] using hx
  · intro h x row hg
    rw [hremoved hg, hpicked hg]
    by_cases ht : updatedAt row ≤ deletedAt
    · have he := h x row hg ht
      refine ⟨by simp [he, ht], fun hout => ?_⟩
      have hp : picks x row = false := by simpa using mt (hseries x row).mp hout
      rw [hafter, hg]
      simp [he, hp]
    · rw [hafter, hg]
      simp [ht]

/-- Series-wide deletion is exact iff no row it can reach diverges. -/
theorem series_deletion_exact_iff (db : UserStateDb) (userId : Int) (seriesId : Text)
    (deletedAt : Int) :
    (DeletesExactly db.watchProgress
        (deleteUserWatchProgressForSeries db userId seriesId deletedAt).watchProgress userId
        (watchProgressOfSeries db userId (normalizeSeriesId seriesId)
          (tmdbTvIdFromSeriesId (normalizeSeriesId seriesId)) deletedAt)
        (fun x _ => InFamily (normalizeSeriesId seriesId)
          (tmdbTvIdFromSeriesId (normalizeSeriesId seriesId)) x) ↔
      ∀ x row, db.watchProgress.get (userId, x) = some row → row.updatedAt ≤ deletedAt →
        ¬ Diverges (normalizeSeriesId seriesId) x) ∧
    (DeletesExactly db.continueWatching
        (deleteUserContinueWatchingForSeries db userId seriesId deletedAt).continueWatching userId
        (continueOfSeries db userId (normalizeSeriesId seriesId)
          (tmdbTvIdFromSeriesId (normalizeSeriesId seriesId)) deletedAt none)
        (ContinueInSeries (normalizeSeriesId seriesId)
          (tmdbTvIdFromSeriesId (normalizeSeriesId seriesId))) ↔
      ∀ x row, db.continueWatching.get (userId, x) = some row → row.updatedAt ≤ deletedAt →
        ¬ ContinueDiverges (normalizeSeriesId seriesId) x row) := by
  have hn := normalizeSeriesId_idem seriesId
  have hl := lower_of_normalized hn
  constructor
  · have hafter (x : Text) := get_deleteUserWatchProgressForSeries db userId seriesId deletedAt userId x
    simp only [decide_true, Bool.true_and] at hafter
    simp only [deletesExactly_iff hafter (fun x => mem_watchProgressOfSeries)
      (fun x _ => identityMatches_iff hl), diverges_iff hn, ne_eq, not_not]
  · have hafter (x : Text) := get_deleteUserContinueWatchingForSeries db userId seriesId deletedAt userId x
    simp only [decide_true, Bool.true_and] at hafter
    have htomb (x : Text) : x ∈ continueOfSeries db userId (normalizeSeriesId seriesId)
        (tmdbTvIdFromSeriesId (normalizeSeriesId seriesId)) deletedAt none ↔ _ :=
      mem_continueOfSeries
    simp only [ne_eq, reduceCtorEq, not_false_eq_true, true_and] at htomb
    simp only [deletesExactly_iff hafter htomb (fun x row => continueMatches_iff hl),
      continueDiverges_iff hn, ne_eq, not_not]

/-- One checkpoint of another show, stored under an identity the pattern of `a_b` matches. -/
def otherShowDb : UserStateDb where
  watchProgress := Table.empty.upsert (1, "series:axb:episode:0".toList) ⟨10, 100⟩ id

/-- Deleting the series `a_b` removes the checkpoint of `axb` and records nothing. -/
theorem series_deletion_not_exact :
    ¬ ∀ (db : UserStateDb) (userId : Int) (seriesId : Text) (deletedAt : Int),
      DeletesExactly db.watchProgress
        (deleteUserWatchProgressForSeries db userId seriesId deletedAt).watchProgress userId
        (watchProgressOfSeries db userId (normalizeSeriesId seriesId)
          (tmdbTvIdFromSeriesId (normalizeSeriesId seriesId)) deletedAt)
        (fun x _ => InFamily (normalizeSeriesId seriesId)
          (tmdbTvIdFromSeriesId (normalizeSeriesId seriesId)) x) := by
  intro h
  have hx := h otherShowDb 1 "a_b".toList 200 "series:axb:episode:0".toList ⟨10, 100⟩ (by decide)
  have hgone : (deleteUserWatchProgressForSeries otherShowDb 1 "a_b".toList 200).watchProgress.get
      (1, "series:axb:episode:0".toList) = none := by decide +kernel
  have hkept : "series:axb:episode:0".toList ∉ watchProgressOfSeries otherShowDb 1
      (normalizeSeriesId "a_b".toList)
      (tmdbTvIdFromSeriesId (normalizeSeriesId "a_b".toList)) 200 := by decide +kernel
  exact hkept (hx.1.mp hgone)

end StreamArena.UserState
