import StreamArena.Preferences.PreferenceTable

/-! `initialize_databases` (src/persistence.rs) as the durable steps it commits
one after the other: `users.sqlite` is created and brought to schema, seeded
from the legacy cache file on the boot that created it, then the cache file is
built or quarantined. A crash leaves a prefix of the steps. -/
namespace StreamArena.Persistence
open AsciiText KeyedTable Preferences

/-- The durable tables beside `users` and `user_preferences`. -/
inductive DurableTable where
  | authSessions
  | userWatchProgress
  | userContinueWatching
  | userStateTombstones
  | userMyList
  | passwordResetTokens
  | emailVerificationTokens
  | healthSamples
  | serviceStarts
  | feedback
  | liveWatchEvents
  deriving DecidableEq

/-- Tables whose rows have a parent in `users`. -/
def DurableTable.hasUserId : DurableTable → Bool
  | .healthSamples | .serviceStarts => false
  | _ => true

/-- A user by its unique name; the other columns are carried as they are. -/
structure UserRow where
  username : Text
  details : Text
  deriving DecidableEq

structure ChildRow where
  userId : Option Int
  details : Text
  deriving DecidableEq

/-- The durable tables of a file, child rows under table and primary key. -/
structure DurableRows where
  users : Table Int UserRow := Table.empty
  preferences : PreferenceTable := Table.empty
  children : Table (DurableTable × Text) ChildRow := Table.empty

structure UsersFile where
  schema : List Text := []
  rows : DurableRows := {}

/-- A cache file with the durable rows it can still be read for; names are unique
without regard to case. -/
structure CacheFile where
  rows : DurableRows := {}
  damaged : Bool := false
  usernames : rows.users.rows.Pairwise fun a b =>
    eqIgnoreAsciiCase a.2.username b.2.username = false

structure Disk where
  users : Option UsersFile
  cache : Option CacheFile

def emptyCache : CacheFile where
  usernames := List.Pairwise.nil

/-- The statements and named migrations `build_users_schema` commits before the key rename. -/
def usersSchemaStatements : List Text :=
  ["users".toList, "schema_migrations".toList, "auth_sessions".toList,
    "idx_auth_sessions_expires".toList, "email_verification_tokens".toList,
    "password_reset_tokens".toList, "user_preferences".toList, "provider_overrides".toList,
    "custom_providers".toList, "user_watch_progress".toList, "user_continue_watching".toList,
    "user_my_list".toList, "health_samples".toList, "idx_health_samples_ts".toList,
    "service_starts".toList, "idx_service_starts_started".toList, "feedback".toList,
    "idx_feedback_created".toList, "live_watch_events".toList, "idx_live_watch_created".toList,
    "idx_live_watch_user".toList, "2026-08-01-user-state-tombstones-v1".toList,
    "feedback.image_data".toList, "feedback.image_mime".toList,
    "user_continue_watching.source_hash".toList, "user_continue_watching.session_key".toList,
    "user_continue_watching.resolver_provider".toList, "user_continue_watching.source_input".toList,
    "user_continue_watching.filename".toList, "users.email_verified_at".toList,
    "users.is_admin".toList, "users.is_disabled".toList, "migrate_auth_sessions_schema".toList,
    "migrate_account_token_schema".toList]

inductive BootStep where
  | openUsers
  | usersStatement (name : Text)
  | updateLegacyKeys
  | deleteLegacyKeys
  | copyDurableTables
  | quarantineCache
  | buildCacheSchema

/-- `INSERT OR IGNORE` of one user: a taken id or name keeps what is there. -/
def insertUser (users : Table Int UserRow) (a : Int × UserRow) : Table Int UserRow :=
  if users.rows.any fun b => eqIgnoreAsciiCase b.2.username a.2.username then users
  else users.upsert a.1 a.2 id

/-- Parents first; children are filtered by the parents that made it. -/
def copyDurableTables (main legacy : DurableRows) : DurableRows :=
  let users := legacy.users.rows.foldl insertUser main.users
  { users
    preferences := main.preferences.copyFrom legacy.preferences fun key _ => (users.get key.1).isSome
    children := main.children.copyFrom legacy.children fun key row =>
      !key.1.hasUserId || row.userId.any fun userId => (users.get userId).isSome }

def UsersFile.mapPreferences (file : UsersFile) (f : PreferenceTable → PreferenceTable) : UsersFile :=
  { file with rows := { file.rows with preferences := f file.rows.preferences } }

theorem lawfulBEq_name : LawfulBEq Text := inferInstance

attribute [local instance] lawfulBEq_name

def BootStep.apply (disk : Disk) : BootStep → Disk
  | .openUsers => { disk with users := some (disk.users.getD {}) }
  | .usersStatement name =>
    { disk with users := disk.users.map fun file =>
        if name ∈ file.schema then file else { file with schema := file.schema ++ [name] } }
  | .updateLegacyKeys =>
    { disk with users := disk.users.map fun file => file.mapPreferences Preferences.updateLegacyKeys }
  | .deleteLegacyKeys =>
    { disk with users := disk.users.map fun file => file.mapPreferences Preferences.deleteLegacyKeys }
  | .copyDurableTables =>
    match disk.cache with
    | none => disk
    | some legacy =>
      { disk with users := disk.users.map fun file =>
          { file with rows := Persistence.copyDurableTables file.rows legacy.rows } }
  | .quarantineCache => { disk with cache := none }
  | .buildCacheSchema => { disk with cache := some (disk.cache.getD emptyCache) }

/-- Up to and including the key rename. -/
def initUsersSchema : List BootStep :=
  .openUsers :: usersSchemaStatements.map BootStep.usersStatement ++
    [.updateLegacyKeys, .deleteLegacyKeys]

def initCacheSchema (disk : Disk) : List BootStep :=
  if disk.cache.any CacheFile.damaged then [.quarantineCache, .buildCacheSchema]
  else [.buildCacheSchema]

/-- The durable steps of one boot, decided by whether `users.sqlite` existed at its start. -/
def initializeDatabases (disk : Disk) : List BootStep :=
  let usersDbExisted := disk.users.isSome
  initUsersSchema ++
    ((if !usersDbExisted && disk.cache.isSome then [.copyDurableTables] else []) ++
      initCacheSchema disk)

/-- A boot that gets as far as its first `steps` durable steps. -/
def boot (disk : Disk) (steps : Nat) : Disk :=
  ((initializeDatabases disk).take steps).foldl BootStep.apply disk

def completeBoot (disk : Disk) : Disk :=
  (initializeDatabases disk).foldl BootStep.apply disk

/-- The row of a preference, under its key or after the rename of legacy keys. -/
def PreferencePresent (prefs : PreferenceTable) (userId : Int) (key value : Text) : Prop :=
  prefs.get (userId, key) = some value ∨
    isLegacyKey key = true ∧ (prefs.get (userId, renamedKey key)).isSome

/-- Every legacy user, and every child row whose user exists, is in the file. -/
structure Present (legacy rows : DurableRows) : Prop where
  users : ∀ id row, legacy.users.get id = some row → rows.users.get id = some row
  preferences : ∀ userId key value, (legacy.users.get userId).isSome →
    legacy.preferences.get (userId, key) = some value →
    PreferencePresent rows.preferences userId key value
  children : ∀ table key row userId, row.userId = some userId → (legacy.users.get userId).isSome →
    legacy.children.get (table, key) = some row → rows.children.get (table, key) = some row

variable {legacy rows : DurableRows} {disk : Disk}

/-- Users with distinct names all arrive in an empty table. -/
theorem get_foldl_insertUser (l : List (Int × UserRow)) (users : Table Int UserRow)
    (hl : l.Pairwise fun a b => eqIgnoreAsciiCase a.2.username b.2.username = false)
    (hu : ∀ a ∈ l, ∀ b ∈ users.rows, eqIgnoreAsciiCase b.2.username a.2.username = false) (id : Int) :
    (l.foldl insertUser users).get id = (users.get id).or (l.lookup id) := by
  induction l generalizing users with
  | nil => simp
  | cons a l ih =>
    obtain ⟨hfirst, hl⟩ := List.pairwise_cons.mp hl
    have hfree : (users.rows.any fun b => eqIgnoreAsciiCase b.2.username a.2.username) = false := by
      rw [List.any_eq_false]
      intro b hb
      simp [hu a List.mem_cons_self b hb]
    have hins : insertUser users a = users.upsert a.1 a.2 (fun row => row) := by
      rw [insertUser, hfree]
      rfl
    rw [List.foldl_cons, hins, ih _ hl]
    · obtain ⟨i, row⟩ := a
      rw [get_upsert]
      by_cases hi : id = i
      · subst hi
        cases users.get id <;> simp
      · simp [hi, List.lookup_cons, beq_false_of_ne hi]
    · intro c hc b hb
      have hg := (users.upsert a.1 a.2 (fun row => row)).mem_rows_iff.mp (show (b.1, b.2) ∈ _ from hb)
      rw [get_upsert] at hg
      have hold (hg : users.get b.1 = some b.2) : eqIgnoreAsciiCase b.2.username c.2.username = false :=
        hu c (List.mem_cons_of_mem _ hc) (b.1, b.2) (users.mem_rows_iff.mpr hg)
      split at hg
      · next hb =>
        cases hga : users.get a.1 with
        | none =>
          simp only [hga, Option.elim, Option.some.injEq] at hg
          rw [← hg]
          exact hfirst c hc
        | some old =>
          simp only [hga, Option.elim, Option.some.injEq] at hg
          exact hold (by rw [hb, hga, hg])
      · exact hold hg

/-- The committed copy leaves every legacy row present. -/
theorem present_copyDurableTables (file : CacheFile) :
    Present file.rows (copyDurableTables {} file.rows) := by
  have husers (id : Int) : (copyDurableTables {} file.rows).users.get id = file.rows.users.get id := by
    have hget := get_foldl_insertUser file.rows.users.rows Table.empty file.usernames
      (fun a _ b hb => by simp [Table.empty] at hb) id
    rw [get_empty, Option.none_or] at hget
    exact hget
  refine ⟨fun id row hg => (husers id).trans hg, fun userId key value hu hg => .inl ?_,
    fun table key row userId hr hu hg => ?_⟩
  · refine (get_copyFrom _ _ _ _).trans ?_
    rw [get_empty, Option.none_or, hg]
    exact Option.filter_some_pos ((congrArg Option.isSome (husers userId)).trans hu)
  · refine (get_copyFrom _ _ _ _).trans ?_
    rw [get_empty, Option.none_or, hg]
    refine Option.filter_some_pos ?_
    rw [hr, Bool.or_eq_true]
    exact .inr ((congrArg Option.isSome (husers userId)).trans hu)

theorem present_updateLegacyKeys (h : Present legacy rows) :
    Present legacy { rows with preferences := Preferences.updateLegacyKeys rows.preferences } := by
  have hr := renamed_updateLegacyKeys rows.preferences
  refine ⟨h.users, fun userId key value hu hg => ?_, h.children⟩
  cases hk : isLegacyKey key with
  | false =>
    have hold := (h.preferences userId key value hu hg).resolve_right (by simp [hk])
    exact .inl (hr.kept userId key value hk hold)
  | true =>
    refine .inr ⟨hk, ?_⟩
    rcases h.preferences userId key value hu hg with hold | ⟨-, hold⟩
    · exact hr.moved ((userId, key), value) (mem_select.mpr ⟨hold, hk⟩)
    · obtain ⟨v, hv⟩ := Option.isSome_iff_exists.mp hold
      exact Option.isSome_iff_exists.mpr ⟨v, hr.kept userId _ v rfl hv⟩

/-- Both statements of the rename together lose nothing. -/
theorem present_renameLegacyKeys (h : Present legacy rows) :
    Present legacy { rows with preferences := renameLegacyKeys rows.preferences } := by
  refine ⟨h.users, fun userId key value hu hg => ?_, h.children⟩
  cases hk : isLegacyKey key with
  | false =>
    have hold := (h.preferences userId key value hu hg).resolve_right (by simp [hk])
    exact .inl (get_renameLegacyKeys_kept hk hold)
  | true =>
    refine .inr ⟨hk, ?_⟩
    rcases h.preferences userId key value hu hg with hold | ⟨-, hold⟩
    · exact isSome_renameLegacyKeys hk hold
    · obtain ⟨v, hv⟩ := Option.isSome_iff_exists.mp hold
      exact Option.isSome_iff_exists.mpr ⟨v, get_renameLegacyKeys_kept rfl hv⟩

/-- `users.sqlite` exists and holds all of the legacy rows. -/
def Migrated (legacy : DurableRows) (disk : Disk) : Prop :=
  ∃ file, disk.users = some file ∧ Present legacy file.rows

/-- `users.sqlite` exists and holds no user. -/
def Seedless (disk : Disk) : Prop :=
  ∃ file, disk.users = some file ∧ file.rows.users = Table.empty

/-- Steps that keep what was migrated, each by itself. -/
def BootStep.isSafe : BootStep → Bool
  | .deleteLegacyKeys | .copyDurableTables => false
  | _ => true

theorem migrated_step (h : Migrated legacy disk) {step : BootStep} (hs : step.isSafe = true) :
    Migrated legacy (step.apply disk) := by
  obtain ⟨file, hf, hp⟩ := h
  cases step with
  | openUsers => exact ⟨file, by simp [BootStep.apply, hf], hp⟩
  | usersStatement name =>
    refine ⟨_, by simp only [BootStep.apply, hf, Option.map_some]; rfl, ?_⟩
    split
    · exact hp
    · exact hp
  | updateLegacyKeys =>
    exact ⟨_, by simp only [BootStep.apply, hf, Option.map_some]; rfl, present_updateLegacyKeys hp⟩
  | deleteLegacyKeys => simp [BootStep.isSafe] at hs
  | copyDurableTables => simp [BootStep.isSafe] at hs
  | quarantineCache => exact ⟨file, hf, hp⟩
  | buildCacheSchema => exact ⟨file, hf, hp⟩

theorem migrated_steps {steps : List BootStep} (h : Migrated legacy disk)
    (hs : ∀ step ∈ steps, step.isSafe = true) : Migrated legacy (steps.foldl BootStep.apply disk) :=
  List.foldlRecOn steps BootStep.apply h fun _ h step hm => migrated_step h (hs step hm)

theorem migrated_rename (h : Migrated legacy disk) :
    Migrated legacy (BootStep.apply (BootStep.apply disk .updateLegacyKeys) .deleteLegacyKeys) := by
  obtain ⟨file, hf, hp⟩ := h
  exact ⟨_, by simp only [BootStep.apply, hf, Option.map_some]; rfl, present_renameLegacyKeys hp⟩

theorem seedless_step (h : Seedless disk) {step : BootStep} (hs : step ≠ .copyDurableTables) :
    Seedless (step.apply disk) := by
  obtain ⟨file, hf, he⟩ := h
  cases step with
  | openUsers => exact ⟨file, by simp [BootStep.apply, hf], he⟩
  | usersStatement name =>
    refine ⟨_, by simp only [BootStep.apply, hf, Option.map_some]; rfl, ?_⟩
    split
    · exact he
    · exact he
  | updateLegacyKeys =>
    exact ⟨file.mapPreferences updateLegacyKeys, by simp only [BootStep.apply, hf, Option.map_some],
      he⟩
  | deleteLegacyKeys =>
    exact ⟨file.mapPreferences deleteLegacyKeys, by simp only [BootStep.apply, hf, Option.map_some],
      he⟩
  | copyDurableTables => exact absurd rfl hs
  | quarantineCache => exact ⟨file, hf, he⟩
  | buildCacheSchema => exact ⟨file, hf, he⟩

theorem seedless_steps {steps : List BootStep} (h : Seedless disk)
    (hs : .copyDurableTables ∉ steps) : Seedless (steps.foldl BootStep.apply disk) :=
  List.foldlRecOn steps BootStep.apply h fun _ h _ hm =>
    seedless_step h (ne_of_mem_of_not_mem hm hs)

/-- `users.sqlite` is new and the legacy file still in place. -/
def Fresh (legacy : CacheFile) (disk : Disk) : Prop :=
  ∃ file, disk.users = some file ∧ file.rows = {} ∧ disk.cache = some legacy

theorem fresh_step {legacy : CacheFile} (h : Fresh legacy disk) {step : BootStep}
    (hs : step ∈ initUsersSchema) : Fresh legacy (step.apply disk) := by
  obtain ⟨file, hf, hr, hc⟩ := h
  simp only [initUsersSchema, List.cons_append, List.mem_cons, List.mem_append, List.mem_map,
    List.not_mem_nil, or_false] at hs
  rcases hs with rfl | ⟨name, -, rfl⟩ | rfl | rfl
  · exact ⟨file, by simp [BootStep.apply, hf], hr, hc⟩
  · refine ⟨_, by simp only [BootStep.apply, hf, Option.map_some]; rfl, ?_, hc⟩
    split
    · exact hr
    · exact hr
  · refine ⟨file.mapPreferences updateLegacyKeys,
      by simp only [BootStep.apply, hf, Option.map_some], ?_, hc⟩
    rw [UsersFile.mapPreferences, hr]
    rfl
  · refine ⟨file.mapPreferences deleteLegacyKeys,
      by simp only [BootStep.apply, hf, Option.map_some], ?_, hc⟩
    rw [UsersFile.mapPreferences, hr]
    rfl

theorem fresh_steps {legacy : CacheFile} {steps : List BootStep} (h : Fresh legacy disk)
    (hs : ∀ step ∈ steps, step ∈ initUsersSchema) :
    Fresh legacy (steps.foldl BootStep.apply disk) :=
  List.foldlRecOn steps BootStep.apply h fun _ h step hm => fresh_step h (hs step hm)

theorem seedless_of_fresh {legacy : CacheFile} (h : Fresh legacy disk) : Seedless disk := by
  obtain ⟨file, hf, hr, -⟩ := h
  exact ⟨file, hf, by rw [hr]⟩

theorem isSafe_initCacheSchema {step : BootStep} (h : step ∈ initCacheSchema disk) :
    step.isSafe = true ∧ step ≠ .copyDurableTables := by
  unfold initCacheSchema at h
  split at h
  · simp only [List.mem_cons, List.not_mem_nil, or_false] at h
    rcases h with rfl | rfl <;> exact ⟨rfl, by simp⟩
  · rw [List.mem_singleton.mp h]
    exact ⟨rfl, by simp⟩

theorem copy_notMem_initUsersSchema : BootStep.copyDurableTables ∉ initUsersSchema := by
  simp [initUsersSchema]

theorem initializeDatabases_existing (h : disk.users.isSome) :
    initializeDatabases disk = initUsersSchema ++ initCacheSchema disk := by
  simp [initializeDatabases, h]

theorem completeBoot_eq_boot (disk : Disk) :
    completeBoot disk = boot disk (initializeDatabases disk).length := by
  rw [completeBoot, boot, List.take_length]

/-- A boot on an existing `users.sqlite` keeps what was migrated, wherever it stops. -/
theorem migrated_boot (h : Migrated legacy disk) (steps : Nat) :
    Migrated legacy (boot disk steps) := by
  obtain ⟨file, hf, -⟩ := id h
  rw [boot, initializeDatabases_existing (by simp [hf])]
  let before := BootStep.openUsers :: usersSchemaStatements.map BootStep.usersStatement
  have hbefore : ∀ step ∈ before, step.isSafe = true := by
    intro step hm
    rcases List.mem_cons.mp hm with rfl | hm
    · rfl
    · obtain ⟨name, -, rfl⟩ := List.mem_map.mp hm
      rfl
  have hsplit : initUsersSchema ++ initCacheSchema disk = (before ++ [.updateLegacyKeys]) ++
      (.deleteLegacyKeys :: initCacheSchema disk) := by
    simp [initUsersSchema, before]
  rw [hsplit, List.take_append]
  cases hd : steps - (before ++ [BootStep.updateLegacyKeys]).length with
  | zero =>
    rw [List.take_zero, List.append_nil]
    refine migrated_steps h fun step hm => ?_
    rcases List.mem_append.mp (List.mem_of_mem_take hm) with hm | hm
    · exact hbefore step hm
    · rw [List.mem_singleton.mp hm]
      rfl
  | succ rest =>
    rw [List.take_of_length_le (by omega), List.take_succ_cons, List.foldl_append,
      List.foldl_append, List.foldl_cons]
    refine migrated_steps (migrated_rename (migrated_steps h hbefore)) fun step hm => ?_
    exact (isSafe_initCacheSchema (List.mem_of_mem_take hm)).1

/-- No boot on an existing `users.sqlite` copies anything. -/
theorem seedless_boot (h : Seedless disk) (steps : Nat) : Seedless (boot disk steps) := by
  obtain ⟨file, hf, -⟩ := id h
  rw [boot, initializeDatabases_existing (by simp [hf])]
  refine seedless_steps h fun hm => ?_
  rcases List.mem_append.mp (List.mem_of_mem_take hm) with hm | hm
  · exact copy_notMem_initUsersSchema hm
  · exact (isSafe_initCacheSchema hm).2 rfl

theorem migrated_boots (h : Migrated legacy disk) (interrupted : List Nat) :
    Migrated legacy (interrupted.foldl boot disk) :=
  List.foldlRecOn interrupted boot h fun _ h steps _ => migrated_boot h steps

theorem seedless_boots (h : Seedless disk) (interrupted : List Nat) :
    Seedless (interrupted.foldl boot disk) :=
  List.foldlRecOn interrupted boot h fun _ h steps _ => seedless_boot h steps

/-- The boot that creates `users.sqlite`: stopped before the copy it leaves the file
without users, past the copy it leaves every legacy row. -/
theorem first_boot (file : CacheFile) {steps : Nat} (h : 0 < steps) :
    (steps ≤ initUsersSchema.length → Seedless (boot ⟨none, some file⟩ steps)) ∧
    (initUsersSchema.length < steps → Migrated file.rows (boot ⟨none, some file⟩ steps)) := by
  have hlist : initializeDatabases ⟨none, some file⟩ =
      initUsersSchema ++ (.copyDurableTables :: initCacheSchema ⟨none, some file⟩) := rfl
  have hopen : Fresh file (BootStep.apply ⟨none, some file⟩ .openUsers) := ⟨{}, rfl, rfl, rfl⟩
  obtain ⟨rest, hrest⟩ : ∃ rest, initUsersSchema = .openUsers :: rest := ⟨_, rfl⟩
  have hmem : ∀ step ∈ rest, step ∈ initUsersSchema := fun step hm =>
    hrest ▸ List.mem_cons_of_mem _ hm
  constructor
  · intro hle
    obtain ⟨n, rfl⟩ : ∃ n, steps = n + 1 := ⟨steps - 1, by omega⟩
    rw [boot, hlist, List.take_append_of_le_length hle, hrest, List.take_succ_cons, List.foldl_cons]
    exact seedless_of_fresh (fresh_steps hopen fun step hm => hmem step (List.mem_of_mem_take hm))
  · intro hlt
    obtain ⟨n, hn⟩ : ∃ n, steps - initUsersSchema.length = n + 1 :=
      ⟨steps - initUsersSchema.length - 1, by omega⟩
    rw [boot, hlist, List.take_append, List.take_of_length_le hlt.le, hn, List.take_succ_cons,
      List.foldl_append, List.foldl_cons]
    have hinit : Fresh file (initUsersSchema.foldl BootStep.apply ⟨none, some file⟩) := by
      rw [hrest, List.foldl_cons]
      exact fresh_steps hopen hmem
    obtain ⟨users, hf, hr, hc⟩ := hinit
    refine migrated_steps ?_ fun step hm => (isSafe_initCacheSchema (List.mem_of_mem_take hm)).1
    refine ⟨{ users with rows := copyDurableTables users.rows file.rows }, ?_, ?_⟩
    · simp only [BootStep.apply, hc, hf, Option.map_some]
    · rw [hr]
      exact present_copyDurableTables file

/-- The first boot that got as far as creating `users.sqlite` also committed the copy. -/
def FirstBootCopies (interrupted : List Nat) : Prop :=
  ∀ steps, interrupted.find? (fun steps => decide (0 < steps)) = some steps →
    initUsersSchema.length < steps

/-- Without users the copy has nothing to bring. -/
theorem migrated_of_userless (hlegacy : ∀ id, legacy.users.get id = none) {file : UsersFile}
    (hf : disk.users = some file) : Migrated legacy disk := by
  refine ⟨file, hf, fun id row hg => ?_, fun userId key value hu _ => ?_,
    fun table key row userId _ hu _ => ?_⟩
  · simp [hlegacy] at hg
  · simp [hlegacy] at hu
  · simp [hlegacy] at hu

theorem not_migrated_of_seedless {id : Int} {row : UserRow} (hrow : legacy.users.get id = some row)
    (h : Seedless disk) : ¬ Migrated legacy disk := by
  rintro ⟨file, hf, hp⟩
  obtain ⟨file', hf', he⟩ := h
  obtain rfl := Option.some.inj (hf.symm.trans hf')
  have hg := hp.users id row hrow
  rw [he] at hg
  simp at hg

theorem migrated_completeBoot_fresh (file : CacheFile) :
    Migrated file.rows (completeBoot ⟨none, some file⟩) := by
  have hlen : (initializeDatabases ⟨none, some file⟩).length =
      initUsersSchema.length + ((initCacheSchema ⟨none, some file⟩).length + 1) :=
    List.length_append
  rw [completeBoot_eq_boot, hlen]
  exact (first_boot file (by omega)).2 (by omega)

/-- After a boot that created the file, the completed boot has the legacy rows iff that
first boot committed the copy or there was nothing to copy. -/
theorem migrated_after_first_boot (file : CacheFile) {steps : Nat} (h : 0 < steps)
    (interrupted : List Nat) :
    Migrated file.rows (completeBoot (interrupted.foldl boot (boot ⟨none, some file⟩ steps))) ↔
      (∀ id, file.rows.users.get id = none) ∨ initUsersSchema.length < steps := by
  obtain ⟨hseedless, hmigrated⟩ := first_boot file h
  rw [completeBoot_eq_boot]
  by_cases hlt : initUsersSchema.length < steps
  · exact iff_of_true (migrated_boot (migrated_boots (hmigrated hlt) _) _) (.inr hlt)
  · have hrun := seedless_boot (seedless_boots (hseedless (not_lt.mp hlt)) interrupted)
      (initializeDatabases (interrupted.foldl boot (boot ⟨none, some file⟩ steps))).length
    constructor
    · intro hm
      refine .inl fun id => ?_
      cases hg : file.rows.users.get id with
      | none => rfl
      | some row => exact absurd hm (not_migrated_of_seedless hg hrun)
    · rintro (hnone | hlt')
      · obtain ⟨users, hf, -⟩ := hrun
        exact migrated_of_userless hnone hf
      · exact absurd hlt' hlt

end StreamArena.Persistence
