import StreamArena.UserState.SeriesCollapse

/-! The guards of `Db::upsert_user_continue_watching` (src/persistence.rs)
against what runs behind them: the collapse of the sibling rows has no time
bound of its own, and the comparison of the row's own version comes last. -/
namespace StreamArena.UserState
open AsciiText KeyedTable SqlLike

/-- The stored row of the entry's identity is newer than the entry, so that the last statement keeps it. -/
def OwnRowNewer (db : UserStateDb) (userId : Int) (e : ContinueWatchingEntry) : Prop :=
  ∃ row, db.continueWatching.get (userId, e.sourceIdentity) = some row ∧ e.updatedAt < row.updatedAt

/-- An upsert that leaves all rows or has its own, and spares the rows that are newer and the siblings of a refused row. -/
structure AllOrNothing (db after : UserStateDb) (userId : Int) (e : ContinueWatchingEntry) (row : ContinueWatchingRow) :
    Prop where
  whole : (∀ u x, after.continueWatching.get (u, x) = db.continueWatching.get (u, x)) ∨
    after.continueWatching.get (userId, e.sourceIdentity) = some row
  newer : ∀ u x old, db.continueWatching.get (u, x) = some old → e.updatedAt < old.updatedAt →
    after.continueWatching.get (u, x) ≠ none
  refused : OwnRowNewer db userId e → ∀ u x, (u, x) ≠ (userId, e.sourceIdentity) →
    after.continueWatching.get (u, x) = db.continueWatching.get (u, x) ∧
      after.tombstone u .continueWatching x = db.tombstone u .continueWatching x

/-- The row is outside what the recency guard looks at, but a statement selects it: through a `_` or `%` that is read as a
wildcard, or as a row of the show that the series id names while the entry names another. -/
def EscapesGuard (e : ContinueWatchingEntry) (x : Text) (row : ContinueWatchingRow) : Prop :=
  continueMatches e.normalizedSeriesId e.canonicalTmdbId x row = false ∧
    (e.normalizedSeriesId ≠ [] ∧ WildcardOnly (seriesPrefix e.normalizedSeriesId) x ∨
      (∃ own, e.ownTmdbId = some own ∧ WildcardOnly (tmdbSource own ++ ":".toList) x) ∨
      e.normalizedSeriesId ≠ [] ∧ ∃ derived own, e.derivedTmdbId = some derived ∧ e.ownTmdbId = some own ∧ derived ≠ own ∧
        (rowIsShow derived row = true ∨ likeTmdb derived x = true))

/-- A statement removes the row, or a pass raises its tombstone. -/
def CollapseTouches (db : UserStateDb) (userId : Int) (e : ContinueWatchingEntry) (x : Text) (row : ContinueWatchingRow) :
    Prop :=
  e.removes x row = true ∨
    e.tombs x row = true ∧ ∀ deletedAt, db.tombstone userId .continueWatching x = some deletedAt → deletedAt < e.updatedAt

/-- The stored rows of the user other than the entry's own. -/
def Sibling (db : UserStateDb) (userId : Int) (e : ContinueWatchingEntry) (x : Text) (row : ContinueWatchingRow) : Prop :=
  db.continueWatching.get (userId, x) = some row ∧ x ≠ e.sourceIdentity

structure GuardsSuffice (db : UserStateDb) (userId : Int) (e : ContinueWatchingEntry) : Prop where
  escaping : ∀ x row, Sibling db userId e x row → EscapesGuard e x row → row.updatedAt ≤ e.updatedAt
  own : OwnRowNewer db userId e → ∀ x row, Sibling db userId e x row → ¬ CollapseTouches db userId e x row

variable {db : UserStateDb} {userId : Int} {e : ContinueWatchingEntry} {x : Text} {row : ContinueWatchingRow}
  {reconciled : Option ContinueWatchingSourceMetadata}

theorem normalizedSeriesId_normalized : normalizeSeriesId e.normalizedSeriesId = e.normalizedSeriesId :=
  normalizeSeriesId_idem e.seriesId

theorem canonicalTmdbId_of_own {own : Text} (h : e.ownTmdbId = some own) : e.canonicalTmdbId = some own := by
  rw [ContinueWatchingEntry.canonicalTmdbId, h, Option.some_or]

theorem canonicalTmdbId_of_derived (h : e.ownTmdbId = none) : e.canonicalTmdbId = e.derivedTmdbId := by
  rw [ContinueWatchingEntry.canonicalTmdbId, h, Option.none_or]

/-- The guard looks at the rows of the show that it takes the entry for. -/
theorem guard_sees_show {tmdbId : Text} (h : e.canonicalTmdbId = some tmdbId)
    (hrow : rowIsShow tmdbId row = true ∨ isTmdb tmdbId x = true) :
    continueMatches e.normalizedSeriesId e.canonicalTmdbId x row = true := by
  simp [continueMatches, h, hrow]

theorem guard_sees_series (hrow : toAsciiLowercase row.seriesId = e.normalizedSeriesId ∨ isSeries e.normalizedSeriesId x = true) :
    continueMatches e.normalizedSeriesId e.canonicalTmdbId x row = true := by
  rw [continueMatches, Bool.or_eq_true, Bool.or_eq_true, beq_iff_eq]
  exact .inl hrow

/-- A selected row of one show is seen by a guard for that show, but for wildcards. -/
theorem wildcardOnly_of_unseen {tmdbId : Text} (h : e.canonicalTmdbId = some tmdbId)
    (hunseen : continueMatches e.normalizedSeriesId e.canonicalTmdbId x row = false)
    (hrow : rowIsShow tmdbId row = true ∨ likeTmdb tmdbId x = true) : WildcardOnly (tmdbSource tmdbId ++ ":".toList) x := by
  have hnot : ¬(rowIsShow tmdbId row = true ∨ isTmdb tmdbId x = true) := fun hseen => by
    cases hunseen.symm.trans (guard_sees_show h hseen)
  obtain hshow | hlike := hrow
  · exact absurd (.inl hshow) hnot
  · obtain ⟨htmdb, -⟩ | hwild := likeTmdb_iff.mp hlike
    · exact absurd (.inr htmdb) hnot
    · exact hwild

/-- A removed row that the guard does not see escapes it in one of the three ways. -/
theorem escapesGuard_iff :
    EscapesGuard e x row ↔
      e.removes x row = true ∧ continueMatches e.normalizedSeriesId e.canonicalTmdbId x row = false := by
  have hlower := lower_of_normalized (normalizedSeriesId_normalized (e := e))
  rw [EscapesGuard, removes_iff, and_comm]
  refine and_congr_left fun hunseen => ?_
  constructor
  · rintro (⟨hne, hwild⟩ | ⟨own, hown, hwild⟩ | ⟨hne, derived, own, hderived, -, -, hrow⟩)
    · exact .inl ⟨hne, by simp [continueSelected, (likeSeries_iff hlower).mpr (.inr hwild)]⟩
    · exact .inr ⟨own, hown, .inr (likeTmdb_iff.mpr (.inr hwild))⟩
    · exact .inl ⟨hne, by simp [continueSelected, hderived, hrow.symm]⟩
  · rintro (⟨hne, hselected⟩ | ⟨own, hown, hrow⟩)
    · have hnot : ¬(toAsciiLowercase row.seriesId = e.normalizedSeriesId ∨ isSeries e.normalizedSeriesId x = true) :=
        fun hseen => by cases hunseen.symm.trans (guard_sees_series hseen)
      rw [continueSelected, Bool.or_eq_true, Bool.or_eq_true, beq_iff_eq, Option.any_eq_true] at hselected
      obtain (hseries | hlike) | ⟨derived, hderived, hrow⟩ := hselected
      · exact absurd (.inl hseries) hnot
      · obtain hseries | hwild := (likeSeries_iff hlower).mp hlike
        · exact absurd (.inr hseries) hnot
        · exact .inl ⟨hne, hwild⟩
      · rw [Bool.or_eq_true] at hrow
        cases hown : e.ownTmdbId with
        | none =>
          -- The guard is for the show of the series id, whose digits hold no wildcard.
          have hcanonical := (canonicalTmdbId_of_derived hown).trans hderived
          have hfree := (wildcardFree_of_tmdbTvId normalizedSeriesId_normalized hderived).2
          have hwild := wildcardOnly_of_unseen hcanonical hunseen hrow.symm
          exact absurd hwild (not_wildcardOnly (tmdbSource_wildcardFree hfree) x)
        | some own =>
          by_cases heq : derived = own
          · have hcanonical := canonicalTmdbId_of_own hown
            rw [← heq] at hcanonical hown
            exact .inr (.inl ⟨derived, congrArg some heq.symm, wildcardOnly_of_unseen hcanonical hunseen hrow.symm⟩)
          · exact .inr (.inr ⟨hne, derived, own, hderived, rfl, heq, hrow.symm⟩)
    · exact .inr (.inl ⟨own, hown, wildcardOnly_of_unseen (canonicalTmdbId_of_own hown) hunseen hrow⟩)

/-- Past the recency guard a removed row that is newer has escaped it. -/
theorem escapes_of_removed_newer (hs : supersededBySeries db userId e = false)
    (hrow : db.continueWatching.get (userId, x) = some row) (hremoves : e.removes x row = true)
    (hnewer : e.updatedAt < row.updatedAt) : EscapesGuard e x row := by
  refine escapesGuard_iff.mpr ⟨hremoves, ?_⟩
  by_contra hseen
  rw [Bool.not_eq_false] at hseen
  have htitle : e.normalizedSeriesId ≠ [] ∨ e.canonicalTmdbId.isSome = true := by
    obtain ⟨hne, -⟩ | ⟨own, hown, -⟩ := removes_iff.mp hremoves
    · exact .inl hne
    · exact .inr (by rw [canonicalTmdbId_of_own hown]; rfl)
  have hsuper := supersededBySeries_iff.mpr ⟨htitle, x, row, hrow, hseen, hnewer⟩
  rw [hs] at hsuper
  cases hsuper

section accepted
variable (hs : supersededBySeries db userId e = false)
  (hb : mutationIsBlockedByTombstone db userId .continueWatching e.sourceIdentity e.updatedAt = false)
include hs hb

theorem get_sibling_upsert (hx : x ≠ e.sourceIdentity) :
    (upsertUserContinueWatching db userId e reconciled).1.continueWatching.get (userId, x) =
      (db.continueWatching.get (userId, x)).filter fun row => !e.removes x row := by
  rw [get_upsertUserContinueWatching hs hb, if_neg (by simpa using hx)]
  simp

theorem tombstone_sibling_upsert (hx : x ≠ e.sourceIdentity) :
    (upsertUserContinueWatching db userId e reconciled).1.tombstone userId .continueWatching x =
      if ∃ row, db.continueWatching.get (userId, x) = some row ∧ e.tombs x row = true
      then some ((db.tombstone userId .continueWatching x).elim e.updatedAt fun old => max old e.updatedAt)
      else db.tombstone userId .continueWatching x := by
  rw [tombstone_upsertUserContinueWatching hs hb, if_neg (by simpa using hx)]
  simp

theorem get_other_upsert {u : Int} (hu : u ≠ userId) :
    (upsertUserContinueWatching db userId e reconciled).1.continueWatching.get (u, x) = db.continueWatching.get (u, x) := by
  rw [get_upsertUserContinueWatching hs hb, if_neg fun h => hu (Prod.mk.inj h).1]
  exact filter_keep fun row _ => by simp [hu]

theorem tombstone_other_upsert {u : Int} (hu : u ≠ userId) :
    (upsertUserContinueWatching db userId e reconciled).1.tombstone u .continueWatching x =
      db.tombstone u .continueWatching x := by
  rw [tombstone_upsertUserContinueWatching hs hb, if_neg fun h => hu (Prod.mk.inj h).1, if_neg fun h => hu h.1]

/-- A sibling keeps its row and its tombstone exactly when the collapse does not touch it. -/
theorem sibling_kept_iff (hrow : Sibling db userId e x row) :
    (upsertUserContinueWatching db userId e reconciled).1.continueWatching.get (userId, x) =
        db.continueWatching.get (userId, x) ∧
      (upsertUserContinueWatching db userId e reconciled).1.tombstone userId .continueWatching x =
        db.tombstone userId .continueWatching x ↔ ¬ CollapseTouches db userId e x row := by
  obtain ⟨hget, hx⟩ := hrow
  rw [get_sibling_upsert hs hb hx, tombstone_sibling_upsert hs hb hx, CollapseTouches, not_or, hget]
  refine and_congr ?_ ?_
  · cases hremoves : e.removes x row with
    | true => simp [hremoves]
    | false => simp [hremoves]
  · cases htombs : e.tombs x row with
    | false => simp [htombs]
    | true =>
      cases htombstone : db.tombstone userId .continueWatching x with
      | none => simp [htombs]
      | some deletedAt => simp [htombs]

theorem get_own_upsert :
    (upsertUserContinueWatching db userId e reconciled).1.continueWatching.get (userId, e.sourceIdentity) =
      some ((db.continueWatching.get (userId, e.sourceIdentity)).elim (e.row reconciled) fun row =>
        if e.updatedAt ≥ row.updatedAt then e.row reconciled else row) := by
  rw [get_upsertUserContinueWatching hs hb, if_pos rfl]

theorem get_own_of_not_newer (hown : ¬ OwnRowNewer db userId e) :
    (upsertUserContinueWatching db userId e reconciled).1.continueWatching.get (userId, e.sourceIdentity) =
      some (e.row reconciled) := by
  rw [get_own_upsert hs hb]
  cases hget : db.continueWatching.get (userId, e.sourceIdentity) with
  | none => rfl
  | some row =>
    have hle : row.updatedAt ≤ e.updatedAt := not_lt.mp fun hlt => hown ⟨row, hget, hlt⟩
    simp [hle]

theorem get_own_of_newer (hown : OwnRowNewer db userId e) :
    (upsertUserContinueWatching db userId e reconciled).1.continueWatching.get (userId, e.sourceIdentity) =
      db.continueWatching.get (userId, e.sourceIdentity) := by
  obtain ⟨row, hget, hlt⟩ := hown
  rw [get_own_upsert hs hb, hget]
  simp [not_le.mpr hlt]

theorem allOrNothing_of_guardsSuffice (h : GuardsSuffice db userId e) :
    AllOrNothing db (upsertUserContinueWatching db userId e reconciled).1 userId e (e.row reconciled) := by
  have hkept (hown : OwnRowNewer db userId e) (u : Int) (x : Text) (hkey : (u, x) ≠ (userId, e.sourceIdentity)) :
      (upsertUserContinueWatching db userId e reconciled).1.continueWatching.get (u, x) = db.continueWatching.get (u, x) ∧
        (upsertUserContinueWatching db userId e reconciled).1.tombstone u .continueWatching x =
          db.tombstone u .continueWatching x := by
    by_cases hu : u = userId
    · subst hu
      have hx : x ≠ e.sourceIdentity := fun hx => hkey (by rw [hx])
      cases hget : db.continueWatching.get (u, x) with
      | none =>
        rw [get_sibling_upsert hs hb hx, tombstone_sibling_upsert hs hb hx, hget]
        simp
      | some row =>
        rw [← hget]
        exact (sibling_kept_iff hs hb ⟨hget, hx⟩).mpr (h.own hown x row ⟨hget, hx⟩)
    · exact ⟨get_other_upsert hs hb hu, tombstone_other_upsert hs hb hu⟩
  refine ⟨?_, ?_, hkept⟩
  · by_cases hown : OwnRowNewer db userId e
    · left
      intro u x
      by_cases hkey : (u, x) = (userId, e.sourceIdentity)
      · rw [hkey]
        exact get_own_of_newer hs hb hown
      · exact (hkept hown u x hkey).1
    · exact .inr (get_own_of_not_newer hs hb hown)
  · intro u x row hget hnewer
    by_cases hu : u = userId
    · subst hu
      by_cases hx : x = e.sourceIdentity
      · rw [hx, get_own_upsert hs hb]
        simp
      · rw [get_sibling_upsert hs hb hx, hget]
        cases hremoves : e.removes x row with
        | false => simp [hremoves]
        | true =>
          have hle := h.escaping x row ⟨hget, hx⟩ (escapes_of_removed_newer hs hget hremoves hnewer)
          omega
    · rw [get_other_upsert hs hb hu, hget]
      simp

theorem guardsSuffice_of_allOrNothing
    (h : AllOrNothing db (upsertUserContinueWatching db userId e reconciled).1 userId e (e.row reconciled)) :
    GuardsSuffice db userId e where
  escaping x row hrow hescapes := by
    by_contra hnewer
    have hkept := h.newer userId x row hrow.1 (by omega)
    rw [get_sibling_upsert hs hb hrow.2, hrow.1] at hkept
    simp [(escapesGuard_iff.mp hescapes).1] at hkept
  own hown x row hrow :=
    (sibling_kept_iff hs hb hrow).mp (h.refused hown userId x fun hkey => hrow.2 (Prod.mk.inj hkey).2)

end accepted

theorem allOrNothing_self (db : UserStateDb) (userId : Int) (e : ContinueWatchingEntry) (row : ContinueWatchingRow) :
    AllOrNothing db db userId e row where
  whole := .inl fun _ _ => rfl
  newer u x old hget _ := by
    rw [hget]
    simp
  refused _ _ _ _ := ⟨rfl, rfl⟩

/-- An upsert is all or nothing exactly when a guard refuses it or the guards cover what runs behind them. -/
theorem upsert_allOrNothing_iff (db : UserStateDb) (userId : Int) (e : ContinueWatchingEntry)
    (reconciled : Option ContinueWatchingSourceMetadata) :
    AllOrNothing db (upsertUserContinueWatching db userId e reconciled).1 userId e (e.row reconciled) ↔
      supersededBySeries db userId e = true ∨
        mutationIsBlockedByTombstone db userId .continueWatching e.sourceIdentity e.updatedAt = true ∨
        GuardsSuffice db userId e := by
  cases hs : supersededBySeries db userId e with
  | true =>
    rw [upsert_refused (.inl hs)]
    exact iff_of_true (allOrNothing_self db userId e _) (.inl rfl)
  | false =>
    cases hb : mutationIsBlockedByTombstone db userId .continueWatching e.sourceIdentity e.updatedAt with
    | true =>
      rw [upsert_refused (.inr hb)]
      exact iff_of_true (allOrNothing_self db userId e _) (.inr (.inl rfl))
    | false =>
      constructor
      · intro h
        exact .inr (.inr (guardsSuffice_of_allOrNothing hs hb h))
      · rintro (h | h | h)
        · cases h
        · cases h
        · exact allOrNothing_of_guardsSuffice hs hb h

/-- One identity is stored as an episode of another series and newer than the entry: the older episode of the series goes,
and the entry does not come. -/
theorem episode_lost_without_upsert :
    ¬ ∀ (ops : List ContinueOp) (userId : Int) (e : ContinueWatchingEntry) (reconciled : Option ContinueWatchingSourceMetadata),
      AllOrNothing (runContinue userId ops {}) (upsertUserContinueWatching (runContinue userId ops {}) userId e reconciled).1
        userId e (e.row reconciled) := by
  intro h
  let moved : ContinueWatchingEntry :=
    { sourceIdentity := "file".toList, seriesId := "other".toList, updatedAt := 300 }
  let episode : ContinueWatchingEntry :=
    { sourceIdentity := "episode".toList, seriesId := "show".toList, updatedAt := 100 }
  let entry : ContinueWatchingEntry :=
    { sourceIdentity := "file".toList, seriesId := "show".toList, updatedAt := 200 }
  obtain hsame | hown := (h [.upsert moved none, .upsert episode none] 1 entry none).whole
  · have hgone := hsame 1 "episode".toList
    revert hgone
    decide +kernel
  · revert hown
    decide +kernel

end StreamArena.UserState
