import Mathlib.Data.Rat.Defs
import StreamArena.Library.AsciiText
import StreamArena.Library.KeyedTable
import StreamArena.Library.LastWriter

/-! Rows, tombstones and single-item mutations of the durable user state
(src/persistence/user_state.rs). Each definition is one immediate transaction
or one statement of it. Seen through one identity, the tables are a
last-writer-wins cell. -/
namespace StreamArena.UserState
open AsciiText KeyedTable

/-- The two values of the `state_domain` column. -/
inductive StateDomain where
  | watchProgress
  | continueWatching
  deriving DecidableEq

/-- Resume positions are finite doubles, hence rationals. -/
structure WatchProgressRow where
  resumeSeconds : ℚ
  updatedAt : Int
  deriving DecidableEq

structure ContinueWatchingRow where
  title : Text
  episode : Text
  src : Text
  tmdbId : Text
  mediaType : Text
  seriesId : Text
  episodeIndex : Int
  year : Text
  thumb : Text
  sourceHash : Text
  sessionKey : Text
  resolverProvider : Text
  sourceInput : Text
  filename : Text
  resumeSeconds : ℚ
  updatedAt : Int
  deriving DecidableEq

/-- The tables of `users.sqlite` this policy owns, under their primary keys. -/
structure UserStateDb where
  watchProgress : Table (Int × Text) WatchProgressRow := Table.empty
  continueWatching : Table (Int × Text) ContinueWatchingRow := Table.empty
  tombstones : Table (Int × StateDomain × Text) Int := Table.empty

variable (db : UserStateDb) (userId : Int) (domain : StateDomain) (identity : Text)

def UserStateDb.tombstone : Option Int := db.tombstones.get (userId, domain, identity)

def mutationIsBlockedByTombstone (updatedAt : Int) : Bool :=
  (db.tombstone userId domain identity).any fun deletedAt => decide (deletedAt ≥ updatedAt)

def clearObsoleteTombstone (updatedAt : Int) : UserStateDb :=
  { db with tombstones := db.tombstones.deleteWhere fun key deletedAt =>
      decide (key = (userId, domain, identity)) && decide (deletedAt < updatedAt) }

def recordTombstone (deletedAt : Int) : UserStateDb :=
  { db with tombstones :=
      db.tombstones.upsert (userId, domain, identity) deletedAt (fun old => max old deletedAt) }

/-- The flag says whether the upsert changed a row. -/
def upsertWatchProgress (resumeSeconds : ℚ) (updatedAt : Int) : UserStateDb × Bool :=
  if mutationIsBlockedByTombstone db userId .watchProgress identity updatedAt then (db, false)
  else
    let tx := clearObsoleteTombstone db userId .watchProgress identity updatedAt
    let excluded : WatchProgressRow := ⟨resumeSeconds, updatedAt⟩
    let changed := (tx.watchProgress.get (userId, identity)).all fun row =>
      decide (excluded.updatedAt ≥ row.updatedAt)
    let rows := tx.watchProgress.upsert (userId, identity) excluded fun row =>
      if excluded.updatedAt ≥ row.updatedAt then excluded else row
    ({ tx with watchProgress := rows }, changed)

/-- The table is the one of the domain, as at every call. -/
def deleteItem (deletedAt : Int) : UserStateDb :=
  let tx := recordTombstone db userId domain identity deletedAt
  match domain with
  | .watchProgress =>
    { tx with watchProgress := tx.watchProgress.deleteWhere fun key row =>
        decide (key = (userId, identity)) && decide (row.updatedAt ≤ deletedAt) }
  | .continueWatching =>
    { tx with continueWatching := tx.continueWatching.deleteWhere fun key row =>
        decide (key = (userId, identity)) && decide (row.updatedAt ≤ deletedAt) }

/-- What one identity sees of the watch-progress tables. -/
def watchCell : LastWriter.Cell Int ℚ where
  row := (db.watchProgress.get (userId, identity)).map fun row => (row.updatedAt, row.resumeSeconds)
  tombstone := db.tombstone userId .watchProgress identity

/-- What one identity sees of the continue-watching tables. -/
def continueCell : LastWriter.Cell Int ContinueWatchingRow where
  row := (db.continueWatching.get (userId, identity)).map fun row => (row.updatedAt, row)
  tombstone := db.tombstone userId .continueWatching identity

variable {db userId domain identity}

theorem tombstone_recordTombstone (userId' : Int) (domain' : StateDomain) (identity' : Text)
    (deletedAt : Int) :
    (recordTombstone db userId domain identity deletedAt).tombstone userId' domain' identity' =
      if (userId', domain', identity') = (userId, domain, identity) then
        some ((db.tombstone userId domain identity).elim deletedAt fun old => max old deletedAt)
      else db.tombstone userId' domain' identity' := by
  simp only [UserStateDb.tombstone, recordTombstone, get_upsert]

/-- A raised marker is the new deletion or the marker that was there. -/
theorem marker_of_raised {old : Option Int} {deletedAt d : Int}
    (h : some (old.elim deletedAt fun t => max t deletedAt) = some d) :
    d = deletedAt ∨ old = some d := by
  cases old with
  | none => exact .inl (Option.some.inj h).symm
  | some t =>
    rw [← Option.some.inj h]
    rcases max_choice t deletedAt with hmax | hmax
    · exact .inr (congrArg some hmax.symm)
    · exact .inl hmax

theorem tombstone_clearObsoleteTombstone (userId' : Int) (domain' : StateDomain)
    (identity' : Text) (updatedAt : Int) :
    (clearObsoleteTombstone db userId domain identity updatedAt).tombstone userId' domain' identity' =
      if (userId', domain', identity') = (userId, domain, identity) then
        (db.tombstone userId domain identity).filter fun deletedAt => updatedAt ≤ deletedAt
      else db.tombstone userId' domain' identity' := by
  simp only [UserStateDb.tombstone, clearObsoleteTombstone, get_deleteWhere]
  split
  · next he =>
    rw [he]
    cases db.tombstones.get (userId, domain, identity) <;> simp [Option.filter, not_lt]
  · next he => cases db.tombstones.get (userId', domain', identity') <;> simp [he, Option.filter]

@[simp] theorem recordTombstone_watchProgress (deletedAt : Int) :
    (recordTombstone db userId domain identity deletedAt).watchProgress = db.watchProgress := rfl
@[simp] theorem recordTombstone_continueWatching (deletedAt : Int) :
    (recordTombstone db userId domain identity deletedAt).continueWatching =
      db.continueWatching := rfl
@[simp] theorem clearObsoleteTombstone_watchProgress (updatedAt : Int) :
    (clearObsoleteTombstone db userId domain identity updatedAt).watchProgress =
      db.watchProgress := rfl
@[simp] theorem clearObsoleteTombstone_continueWatching (updatedAt : Int) :
    (clearObsoleteTombstone db userId domain identity updatedAt).continueWatching =
      db.continueWatching := rfl

theorem mutationIsBlockedByTombstone_iff {updatedAt : Int} :
    mutationIsBlockedByTombstone db userId domain identity updatedAt = true ↔
      ∃ deletedAt, db.tombstone userId domain identity = some deletedAt ∧ updatedAt ≤ deletedAt := by
  cases h : db.tombstone userId domain identity <;> simp [mutationIsBlockedByTombstone, h]

theorem blocked_watchCell {updatedAt : Int} :
    (watchCell db userId identity).blocked updatedAt ↔
      mutationIsBlockedByTombstone db userId .watchProgress identity updatedAt = true :=
  mutationIsBlockedByTombstone_iff.symm

theorem blocked_continueCell {updatedAt : Int} :
    (continueCell db userId identity).blocked updatedAt ↔
      mutationIsBlockedByTombstone db userId .continueWatching identity updatedAt = true :=
  mutationIsBlockedByTombstone_iff.symm

/-- An upsert is a write of its own cell and leaves every other cell alone. -/
theorem watchCell_upsertWatchProgress (userId' : Int) (identity' : Text) (resumeSeconds : ℚ)
    (updatedAt : Int) :
    watchCell (upsertWatchProgress db userId identity resumeSeconds updatedAt).1 userId' identity' =
      if (userId', identity') = (userId, identity) then
        (watchCell db userId identity).put updatedAt resumeSeconds
      else watchCell db userId' identity' := by
  by_cases hb : mutationIsBlockedByTombstone db userId .watchProgress identity updatedAt = true
  · rw [LastWriter.put_blocked (blocked_watchCell.mpr hb)]
    simp only [upsertWatchProgress, hb, ↓reduceIte]
    split
    · next he => cases he; rfl
    · rfl
  · have hc := mt blocked_watchCell.mp hb
    simp only [upsertWatchProgress, hb, Bool.false_eq_true, ↓reduceIte]
    by_cases he : (userId', identity') = (userId, identity)
    · obtain ⟨rfl, rfl⟩ := Prod.mk.inj he
      simp only [↓reduceIte, LastWriter.Cell.put, hc]
      ext1
      · simp only [watchCell, clearObsoleteTombstone_watchProgress, get_upsert_self]
        cases db.watchProgress.get (userId', identity') with
        | none => rfl
        | some row =>
          simp only [Option.elim, Option.map_some, ge_iff_le]
          split <;> rfl
      · exact (tombstone_clearObsoleteTombstone ..).trans (by simp [watchCell])
    · rw [if_neg he]
      ext1
      · simp only [watchCell, clearObsoleteTombstone_watchProgress]
        rw [get_upsert_of_ne _ he]
      · refine (tombstone_clearObsoleteTombstone ..).trans (if_neg ?_)
        simpa using he

theorem watchCell_deleteItem (userId' : Int) (identity' : Text) (deletedAt : Int) :
    watchCell (deleteItem db userId .watchProgress identity deletedAt) userId' identity' =
      if (userId', identity') = (userId, identity) then
        (watchCell db userId identity).delete deletedAt
      else watchCell db userId' identity' := by
  by_cases he : (userId', identity') = (userId, identity)
  · obtain ⟨rfl, rfl⟩ := Prod.mk.inj he
    rw [if_pos rfl]
    ext1
    · simp only [watchCell, deleteItem, recordTombstone_watchProgress, get_deleteWhere,
        LastWriter.Cell.delete]
      cases db.watchProgress.get (userId', identity') with
      | none => rfl
      | some row =>
        by_cases hr : row.updatedAt ≤ deletedAt <;> simp [Option.filter, hr, ← not_le]
    · exact (tombstone_recordTombstone ..).trans (if_pos rfl)
  · rw [if_neg he]
    ext1
    · simp only [watchCell, deleteItem, recordTombstone_watchProgress]
      rw [get_deleteWhere_of_not fun row _ => by simp [he]]
    · exact (tombstone_recordTombstone ..).trans (if_neg (by simpa using he))

theorem continueCell_deleteItem (userId' : Int) (identity' : Text) (deletedAt : Int) :
    continueCell (deleteItem db userId .continueWatching identity deletedAt) userId' identity' =
      if (userId', identity') = (userId, identity) then
        (continueCell db userId identity).delete deletedAt
      else continueCell db userId' identity' := by
  by_cases he : (userId', identity') = (userId, identity)
  · obtain ⟨rfl, rfl⟩ := Prod.mk.inj he
    rw [if_pos rfl]
    ext1
    · simp only [continueCell, deleteItem, recordTombstone_continueWatching, get_deleteWhere,
        LastWriter.Cell.delete]
      cases db.continueWatching.get (userId', identity') with
      | none => rfl
      | some row =>
        by_cases hr : row.updatedAt ≤ deletedAt <;> simp [Option.filter, hr, ← not_le]
    · exact (tombstone_recordTombstone ..).trans (if_pos rfl)
  · rw [if_neg he]
    ext1
    · simp only [continueCell, deleteItem, recordTombstone_continueWatching]
      rw [get_deleteWhere_of_not fun row _ => by simp [he]]
    · exact (tombstone_recordTombstone ..).trans (if_neg (by simpa using he))

/-- The two domains do not see each other's single-item mutations. -/
theorem continueCell_upsertWatchProgress (userId' : Int) (identity' : Text) (resumeSeconds : ℚ)
    (updatedAt : Int) :
    continueCell (upsertWatchProgress db userId identity resumeSeconds updatedAt).1 userId' identity' =
      continueCell db userId' identity' := by
  by_cases hb : mutationIsBlockedByTombstone db userId .watchProgress identity updatedAt = true
  · simp [upsertWatchProgress, hb]
  · simp only [upsertWatchProgress, hb, Bool.false_eq_true, ↓reduceIte]
    ext1
    · rfl
    · exact (tombstone_clearObsoleteTombstone ..).trans (by simp [continueCell])

theorem continueCell_deleteItem_watchProgress (userId' : Int) (identity' : Text) (deletedAt : Int) :
    continueCell (deleteItem db userId .watchProgress identity deletedAt) userId' identity' =
      continueCell db userId' identity' := by
  ext1
  · rfl
  · exact (tombstone_recordTombstone ..).trans (by simp [continueCell])

theorem watchCell_deleteItem_continueWatching (userId' : Int) (identity' : Text) (deletedAt : Int) :
    watchCell (deleteItem db userId .continueWatching identity deletedAt) userId' identity' =
      watchCell db userId' identity' := by
  ext1
  · rfl
  · exact (tombstone_recordTombstone ..).trans (by simp [watchCell])

end StreamArena.UserState
