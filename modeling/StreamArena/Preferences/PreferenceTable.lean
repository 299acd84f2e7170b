import StreamArena.Library.JsonValue
import StreamArena.Library.KeyedTable
import StreamArena.Library.SqlLike

/-! The `user_preferences` table (src/persistence/user_preferences.rs) and the
startup step that moves legacy keys to their new prefix (`build_users_schema`,
src/persistence.rs). -/
namespace StreamArena.Preferences
open AsciiText KeyedTable SqlLike

/-- Values under user and key; nothing here reads `updated_at`. -/
abbrev PreferenceTable := Table (Int × Text) Text

def realDebridTokenPrefKey : Text := "streamarena-real-debrid-api-key".toList
def realDebridEnabledPrefKey : Text := "streamarena-real-debrid-enabled".toList
def localTorrentEnabledPrefKey : Text := "streamarena-local-torrent-enabled".toList

def setPreference (prefs : PreferenceTable) (userId : Int) (key value : Text) : PreferenceTable :=
  prefs.upsert (userId, key) value fun _ => value

def upsertUserPreferences (prefs : PreferenceTable) (userId : Int) (entries : List (Text × Text)) :
    PreferenceTable :=
  entries.foldl (fun tx entry => setPreference tx userId entry.1 entry.2) prefs

def legacyPrefix : Text := "netflix-".toList

/-- `pref_key LIKE 'netflix-%'`. -/
def isLegacyKey (key : Text) : Bool := like (legacyPrefix ++ "%".toList) key

/-- `'streamarena-' || substr(pref_key, 9)`. -/
def renamedKey (key : Text) : Text := "streamarena-".toList ++ key.drop 8

/-- `UPDATE OR IGNORE` of one row: a row whose new key is taken stays as it is. -/
def renameRow (prefs : PreferenceTable) (row : (Int × Text) × Text) : PreferenceTable :=
  if (prefs.get (row.1.1, renamedKey row.1.2)).isSome then prefs
  else (prefs.deleteWhere fun key _ => decide (key = row.1)).upsert
    (row.1.1, renamedKey row.1.2) row.2 id

def updateLegacyKeys (prefs : PreferenceTable) : PreferenceTable :=
  (prefs.select fun key _ => isLegacyKey key.2).foldl renameRow prefs

def deleteLegacyKeys (prefs : PreferenceTable) : PreferenceTable :=
  prefs.deleteWhere fun key _ => isLegacyKey key.2

/-- The two statements of the rename. -/
def renameLegacyKeys (prefs : PreferenceTable) : PreferenceTable :=
  deleteLegacyKeys (updateLegacyKeys prefs)

variable {prefs : PreferenceTable} {userId u : Int} {key k : Text}

theorem get_setPreference (value : Text) :
    (setPreference prefs userId key value).get (u, k) =
      if (u, k) = (userId, key) then some value else prefs.get (u, k) := by
  rw [setPreference, get_upsert]
  cases prefs.get (userId, key) <;> rfl

variable (prefs userId) in
/-- After a batch a key holds its last entry, or what it held before. -/
theorem get_upsertUserPreferences (entries : List (Text × Text)) (u : Int) (k : Text) :
    (upsertUserPreferences prefs userId entries).get (u, k) =
      if u = userId then (entries.reverse.lookup k).or (prefs.get (u, k)) else prefs.get (u, k) := by
  induction entries generalizing prefs with
  | nil => simp [upsertUserPreferences]
  | cons entry entries ih =>
    obtain ⟨key, value⟩ := entry
    rw [upsertUserPreferences, List.foldl_cons, ← upsertUserPreferences, ih, get_setPreference]
    by_cases hu : u = userId
    · by_cases hk : k = key
      · subst hu hk
        simp [List.lookup_append]
      · simp [hu, hk, List.lookup_append, List.lookup_cons, beq_false_of_ne hk]
    · simp [hu]

theorem isLegacyKey_iff : isLegacyKey key = true ↔ HasPrefix legacyPrefix key :=
  like_iff_hasPrefix (by decide)

@[simp] theorem not_isLegacyKey_renamedKey (key : Text) : isLegacyKey (renamedKey key) = false := rfl

variable (prefs) in
/-- One renamed row: its own old key at most disappears, its new key at most appears. -/
theorem get_renameRow (row : (Int × Text) × Text) (u : Int) (k : Text) :
    (renameRow prefs row).get (u, k) =
      if (prefs.get (row.1.1, renamedKey row.1.2)).isSome then prefs.get (u, k)
      else if (u, k) = (row.1.1, renamedKey row.1.2) then some row.2
      else if (u, k) = row.1 then none else prefs.get (u, k) := by
  unfold renameRow
  split
  · rfl
  · next hn =>
    have hnone : prefs.get (row.1.1, renamedKey row.1.2) = none := by simpa using hn
    rw [get_upsert]
    by_cases hk : (u, k) = (row.1.1, renamedKey row.1.2)
    · rw [if_pos hk, if_pos hk, get_deleteWhere, hnone]
      rfl
    · rw [if_neg hk, if_neg hk, get_deleteWhere]
      cases prefs.get (u, k) with
      | none => simp
      | some v => by_cases hr : (u, k) = row.1 <;> simp [hr, Option.filter_some]

/-- What the rows already renamed have done to the table. -/
structure Renamed (before after : PreferenceTable) (rows : List ((Int × Text) × Text)) : Prop where
  kept : ∀ u k v, isLegacyKey k = false → before.get (u, k) = some v → after.get (u, k) = some v
  origin : ∀ u k v, after.get (u, k) = some v → before.get (u, k) = some v ∨
    isLegacyKey k = false ∧ ∃ k₀, isLegacyKey k₀ = true ∧ renamedKey k₀ = k ∧
      before.get (u, k₀) = some v
  moved : ∀ row ∈ rows, (after.get (row.1.1, renamedKey row.1.2)).isSome

theorem renamed_renameRow {before after : PreferenceTable} {rows : List ((Int × Text) × Text)}
    (h : Renamed before after rows) {row : (Int × Text) × Text} (hleg : isLegacyKey row.1.2 = true)
    (hrow : before.get row.1 = some row.2) : Renamed before (renameRow after row) (rows ++ [row]) := by
  by_cases htaken : (after.get (row.1.1, renamedKey row.1.2)).isSome
  · have hsame : renameRow after row = after := if_pos htaken
    rw [hsame]
    refine ⟨h.kept, h.origin, fun r hr => ?_⟩
    rcases List.mem_append.mp hr with hr | hr
    · exact h.moved r hr
    · rw [List.mem_singleton.mp hr]
      exact htaken
  · have hget (u : Int) (k : Text) := get_renameRow after row u k
    simp only [htaken, Bool.false_eq_true, ↓reduceIte] at hget
    have hnot {u : Int} {k : Text} (hk : isLegacyKey k = false) : (u, k) ≠ row.1 := by
      rintro hk'
      rw [← hk'] at hleg
      simp [hk] at hleg
    refine ⟨fun u k v hk hv => ?_, fun u k v hv => ?_, fun r hr => ?_⟩
    · have hold := h.kept u k v hk hv
      rw [hget, if_neg, if_neg (hnot hk), hold]
      intro he
      rw [he] at hold
      simp [hold] at htaken
    · rw [hget] at hv
      split at hv
      · next he =>
        obtain ⟨rfl, rfl⟩ := Prod.mk.inj he
        obtain rfl := Option.some.inj hv
        exact .inr ⟨rfl, row.1.2, hleg, rfl, hrow⟩
      · split at hv
        · simp at hv
        · exact h.origin u k v hv
    · rcases List.mem_append.mp hr with hr | hr
      · have hold := h.moved r hr
        rw [hget, if_neg, if_neg (hnot rfl)]
        · exact hold
        · intro he
          rw [he] at hold
          exact htaken hold
      · rw [List.mem_singleton.mp hr, hget, if_pos rfl]
        rfl

theorem renamed_foldl {before after : PreferenceTable} {rows done : List ((Int × Text) × Text)}
    (h : Renamed before after done)
    (hrows : ∀ row ∈ rows, isLegacyKey row.1.2 = true ∧ before.get row.1 = some row.2) :
    Renamed before (rows.foldl renameRow after) (done ++ rows) := by
  induction rows generalizing after done with
  | nil => simpa using h
  | cons row rows ih =>
    obtain ⟨hleg, hrow⟩ := hrows row List.mem_cons_self
    have hstep := ih (renamed_renameRow h hleg hrow) fun r hr => hrows r (List.mem_cons_of_mem _ hr)
    simpa using hstep

theorem renamed_updateLegacyKeys (prefs : PreferenceTable) :
    Renamed prefs (updateLegacyKeys prefs) (prefs.select fun key _ => isLegacyKey key.2) := by
  have hstart : Renamed prefs prefs [] :=
    ⟨fun u k v _ hv => hv, fun u k v hv => .inl hv, fun r hr => by simp at hr⟩
  refine renamed_foldl hstart fun row hr => ?_
  obtain ⟨hg, hl⟩ := mem_select.mp hr
  exact ⟨hl, hg⟩

theorem get_deleteLegacyKeys (u : Int) (k : Text) :
    (deleteLegacyKeys prefs).get (u, k) = if isLegacyKey k then none else prefs.get (u, k) := by
  rw [deleteLegacyKeys, get_deleteWhere]
  cases hk : isLegacyKey k with
  | true => cases prefs.get (u, k) <;> rfl
  | false => exact filter_keep fun r _ => rfl

/-- After the rename no legacy key is left. -/
theorem get_renameLegacyKeys_legacy (h : isLegacyKey k = true) :
    (renameLegacyKeys prefs).get (u, k) = none := by
  rw [renameLegacyKeys, get_deleteLegacyKeys, if_pos h]

/-- Rows under other keys are untouched. -/
theorem get_renameLegacyKeys_kept {v : Text} (h : isLegacyKey k = false)
    (hv : prefs.get (u, k) = some v) : (renameLegacyKeys prefs).get (u, k) = some v := by
  rw [renameLegacyKeys, get_deleteLegacyKeys, if_neg (by simp [h])]
  exact (renamed_updateLegacyKeys prefs).kept u k v h hv

/-- Every value was there before, under its key or under a legacy key renamed to it. -/
theorem get_renameLegacyKeys_origin {v : Text} (hv : (renameLegacyKeys prefs).get (u, k) = some v) :
    prefs.get (u, k) = some v ∨
      ∃ k₀, isLegacyKey k₀ = true ∧ renamedKey k₀ = k ∧ prefs.get (u, k₀) = some v := by
  rw [renameLegacyKeys, get_deleteLegacyKeys] at hv
  split at hv
  · simp at hv
  · exact ((renamed_updateLegacyKeys prefs).origin u k v hv).imp_right fun h => h.2

/-- A legacy row is there afterwards under its new key, or its twin is. -/
theorem isSome_renameLegacyKeys {v : Text} (h : isLegacyKey k = true)
    (hv : prefs.get (u, k) = some v) : ((renameLegacyKeys prefs).get (u, renamedKey k)).isSome := by
  rw [renameLegacyKeys, get_deleteLegacyKeys, if_neg (by simp)]
  exact (renamed_updateLegacyKeys prefs).moved ((u, k), v) (mem_select.mpr ⟨hv, h⟩)

end StreamArena.Preferences
