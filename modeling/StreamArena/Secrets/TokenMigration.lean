import StreamArena.Secrets.Envelope

/-! Startup migration of stored tokens (`migrate_existing_tokens`, src/secret_store.rs,
over `replace_user_preferences_if_unchanged`, src/persistence/user_preferences.rs):
rows are read once, replacements computed, then swapped in one transaction that
gives up on the first row another process changed meanwhile. -/
namespace StreamArena.Secrets
open AsciiText KeyedTable Aead Base64Url Routes Preferences

structure TokenMigrationReport where
  plaintextEncrypted : Nat := 0
  keysRotated : Nat := 0
  deriving DecidableEq

def TokenMigrationReport.add (a b : TokenMigrationReport) : TokenMigrationReport where
  plaintextEncrypted := a.plaintextEncrypted + b.plaintextEncrypted
  keysRotated := a.keysRotated + b.keysRotated

/-- User, value read, value to store instead. -/
abbrev Replacement := Int × Text × Text

section
variable (crypto : TokenCrypto) (cipher : RealDebridTokenCipher)

/-- One row: left alone under the active key, else encrypted under it. -/
def migrateRow (nonce : Option Nonce) (row : Int × Text) :
    Except ApiError (Option Text × TokenMigrationReport) :=
  if startsWith row.2 envelopePrefix then do
    let opened ← decryptEnvelope crypto cipher row.1 row.2
    if cipher.activeKeyId = some opened.2 then return (none, {})
    else
      let encrypted ← encryptForUser crypto cipher nonce row.1 opened.1
      return (some encrypted, { keysRotated := 1 })
  else do
    let encrypted ← encryptForUser crypto cipher nonce row.1 row.2
    return (some encrypted, { plaintextEncrypted := 1 })

/-- `nonces` are the random draws, one at most for each row. -/
def planReplacements (nonces : Nat → Option Nonce) :
    List (Int × Text) → Except ApiError (List Replacement × TokenMigrationReport)
  | [] => .ok ([], {})
  | row :: rows => do
    let planned ← migrateRow crypto cipher (nonces 0) row
    let rest ← planReplacements (fun i => nonces (i + 1)) rows
    let replacement := planned.1.map fun new => (row.1, row.2, new)
    return (replacement.toList ++ rest.1, planned.2.add rest.2)

/-- `None` where the transaction is dropped. -/
def replaceUserPreferencesIfUnchanged (prefKey : Text) :
    PreferenceTable → List Replacement → Option PreferenceTable
  | tx, [] => some tx
  | tx, (userId, expectedValue, replacementValue) :: entries =>
    if tx.get (userId, prefKey) = some expectedValue then
      replaceUserPreferencesIfUnchanged prefKey (setPreference tx userId prefKey replacementValue)
        entries
    else none

def getUserPreferencesByKey (prefs : PreferenceTable) (prefKey : Text) : List (Int × Text) :=
  (prefs.select fun key _ => decide (key.2 = prefKey)).map fun row => (row.1.1, row.2)

def keysRequiredError : ApiError := .internal
  (keysEnvName ++ " is required because Real-Debrid tokens are already stored".toList)

def changedDuringMigrationError : ApiError := .internal
  ("A stored Real-Debrid token changed during encryption migration; ".toList ++
    "restart to retry safely.".toList)

/-- `read` is the table the rows are read from, `prefs` the one the transaction meets. -/
def migrateExistingTokens (nonces : Nat → Option Nonce) (read prefs : PreferenceTable) :
    Except ApiError TokenMigrationReport × PreferenceTable :=
  let rows := getUserPreferencesByKey read realDebridTokenPrefKey
  if rows.isEmpty then (.ok {}, prefs)
  else if !cipher.isEnabled then (.error keysRequiredError, prefs)
  else
    match planReplacements crypto cipher nonces rows with
    | .error error => (.error error, prefs)
    | .ok (replacements, report) =>
      if replacements.isEmpty then (.ok report, prefs)
      else
        match replaceUserPreferencesIfUnchanged realDebridTokenPrefKey prefs replacements with
        | none => (.error changedDuringMigrationError, prefs)
        | some after => (.ok report, after)

end

variable {crypto : TokenCrypto} {cipher : RealDebridTokenCipher} {userId u : Int} {k : Text}
  {read prefs after : PreferenceTable} {nonces : Nat → Option Nonce}

theorem mem_getUserPreferencesByKey {value prefKey : Text} :
    (userId, value) ∈ getUserPreferencesByKey prefs prefKey ↔
      prefs.get (userId, prefKey) = some value := by
  simp only [getUserPreferencesByKey, List.mem_map, Prod.mk.injEq]
  constructor
  · rintro ⟨⟨⟨user, key⟩, v⟩, hm, rfl, rfl⟩
    obtain ⟨hget, hkey⟩ := mem_select.mp hm
    rw [decide_eq_true_eq] at hkey
    exact hkey ▸ hget
  · intro hget
    exact ⟨((userId, prefKey), value), mem_select.mpr ⟨hget, by simp⟩, rfl, rfl⟩

/-- One row a user. -/
theorem nodup_getUserPreferencesByKey (prefs : PreferenceTable) (prefKey : Text) :
    ((getUserPreferencesByKey prefs prefKey).map Prod.fst).Nodup := by
  have hkeys : ((prefs.select fun key _ => decide (key.2 = prefKey)).map Prod.fst).Nodup :=
    prefs.nodup.sublist (List.filter_sublist.map Prod.fst)
  have husers := hkeys.map_on (f := Prod.fst) fun a ha b hb hab => ?_
  · simpa [getUserPreferencesByKey, List.map_map, Function.comp_def] using husers
  · have hkey {a : Int × Text}
        (ha : a ∈ (prefs.select fun key _ => decide (key.2 = prefKey)).map Prod.fst) :
        a.2 = prefKey := by
      obtain ⟨row, hm, rfl⟩ := List.mem_map.mp ha
      simpa using (List.mem_filter.mp hm).2
    exact Prod.ext hab ((hkey ha).trans (hkey hb).symm)

/-- The active key opens the value to this plaintext, for this user only. -/
structure SealedFor (crypto : TokenCrypto) (cipher : RealDebridTokenCipher) (userId : Int)
    (value plaintext : Text) : Prop where
  active : ∃ keyId, cipher.activeKeyId = some keyId ∧
    decryptEnvelope crypto cipher userId value = .ok (plaintext, keyId)
  opens : decryptForUser crypto cipher userId value = .ok plaintext
  ownUser : ∀ u, u ≠ userId → ∀ other, decryptForUser crypto cipher u value ≠ .ok other

/-- The plaintext a stored value stands for: itself, or what its envelope opens to. -/
def StoredPlaintext (crypto : TokenCrypto) (cipher : RealDebridTokenCipher) (userId : Int)
    (value plaintext : Text) : Prop :=
  if startsWith value envelopePrefix then
    decryptForUser crypto cipher userId value = .ok plaintext
  else value = plaintext

theorem sealedFor_of_decryptEnvelope {value plaintext keyId : Text}
    (hactive : cipher.activeKeyId = some keyId)
    (h : decryptEnvelope crypto cipher userId value = .ok (plaintext, keyId)) :
    SealedFor crypto cipher userId value plaintext := by
  refine ⟨⟨keyId, hactive, h⟩, decryptForUser_eq_ok.mpr ⟨keyId, h⟩, fun u hu other hother => ?_⟩
  obtain ⟨keyId', h'⟩ := decryptForUser_eq_ok.mp hother
  exact hu (user_of_decryptEnvelope h' h)

/-- What migrating a row gives: its value under the active key already, or its plaintext
encrypted under it. -/
theorem migrateRow_ok {nonce : Option Nonce} {value : Text} {new : Option Text}
    {report : TokenMigrationReport}
    (h : migrateRow crypto cipher nonce (userId, value) = .ok (new, report)) :
    ∃ plaintext, StoredPlaintext crypto cipher userId value plaintext ∧
      SealedFor crypto cipher userId (new.getD value) plaintext ∧
      ∀ w, new = some w → encryptForUser crypto cipher nonce userId plaintext = .ok w := by
  unfold migrateRow at h
  split at h
  · next hpre =>
    obtain ⟨⟨plaintext, keyId⟩, hopen, h⟩ := bind_eq_ok.mp h
    have hstored : StoredPlaintext crypto cipher userId value plaintext := by
      rw [StoredPlaintext, if_pos hpre]
      exact decryptForUser_eq_ok.mpr ⟨keyId, hopen⟩
    split at h
    · next hactive =>
      obtain ⟨rfl, rfl⟩ := Prod.mk.inj (Except.ok.inj h)
      exact ⟨plaintext, hstored, sealedFor_of_decryptEnvelope hactive hopen, by simp⟩
    · obtain ⟨encrypted, henc, h⟩ := bind_eq_ok.mp h
      obtain ⟨rfl, rfl⟩ := Prod.mk.inj (Except.ok.inj h)
      obtain ⟨active, hactive, -, hdec⟩ := decryptEnvelope_encryptForUser henc
      exact ⟨plaintext, hstored, sealedFor_of_decryptEnvelope hactive hdec,
        fun w hw => Option.some.inj hw ▸ henc⟩
  · next hpre =>
    obtain ⟨encrypted, henc, h⟩ := bind_eq_ok.mp h
    obtain ⟨rfl, rfl⟩ := Prod.mk.inj (Except.ok.inj h)
    obtain ⟨active, hactive, -, hdec⟩ := decryptEnvelope_encryptForUser henc
    refine ⟨value, ?_, sealedFor_of_decryptEnvelope hactive hdec,
      fun w hw => Option.some.inj hw ▸ henc⟩
    rw [StoredPlaintext, if_neg hpre]

theorem planReplacements_sublist {rows : List (Int × Text)} {replacements : List Replacement}
    {report : TokenMigrationReport}
    (h : planReplacements crypto cipher nonces rows = .ok (replacements, report)) :
    (replacements.map fun r => (r.1, r.2.1)).Sublist rows := by
  induction rows generalizing nonces replacements report with
  | nil =>
    obtain ⟨rfl, -⟩ := Prod.mk.inj (Except.ok.inj h)
    exact List.Sublist.refl _
  | cons row rows ih =>
    obtain ⟨⟨new, one⟩, -, h⟩ := bind_eq_ok.mp h
    obtain ⟨⟨rest, total⟩, hrest, h⟩ := bind_eq_ok.mp h
    obtain ⟨rfl, -⟩ := Prod.mk.inj (Except.ok.inj h)
    cases new with
    | none => exact (ih hrest).cons row
    | some new => exact (ih hrest).cons_cons row

theorem users_planReplacements {rows : List (Int × Text)} {replacements : List Replacement}
    {report : TokenMigrationReport}
    (h : planReplacements crypto cipher nonces rows = .ok (replacements, report)) :
    (replacements.map Prod.fst).Sublist (rows.map Prod.fst) := by
  simpa [List.map_map, Function.comp_def] using (planReplacements_sublist h).map Prod.fst

/-- The plan holds, for each row read, what migrating that row gives. -/
theorem lookup_planReplacements {rows : List (Int × Text)} {replacements : List Replacement}
    {report : TokenMigrationReport} (hrows : (rows.map Prod.fst).Nodup)
    (h : planReplacements crypto cipher nonces rows = .ok (replacements, report))
    {value : Text} (hm : (userId, value) ∈ rows) :
    ∃ nonce new one, migrateRow crypto cipher nonce (userId, value) = .ok (new, one) ∧
      replacements.lookup userId = new.map fun w => (value, w) := by
  induction rows generalizing nonces replacements report with
  | nil => simp at hm
  | cons row rows ih =>
    obtain ⟨⟨new, one⟩, hrow, h⟩ := bind_eq_ok.mp h
    obtain ⟨⟨rest, total⟩, hrest, h⟩ := bind_eq_ok.mp h
    obtain ⟨rfl, -⟩ := Prod.mk.inj (Except.ok.inj h)
    rw [List.map_cons, List.nodup_cons] at hrows
    rcases List.mem_cons.mp hm with rfl | hm
    · refine ⟨nonces 0, new, one, hrow, ?_⟩
      have hfree : rest.lookup userId = none := by
        rw [lookup_eq_none_iff]
        exact fun hu => hrows.1 ((users_planReplacements hrest).subset hu)
      cases new <;> simp [hfree]
    · obtain ⟨nonce, new', one', hrow', hlookup⟩ := ih hrows.2 hrest hm
      refine ⟨nonce, new', one', hrow', ?_⟩
      have hne : userId ≠ row.1 := by
        rintro rfl
        exact hrows.1 (List.mem_map.mpr ⟨_, hm, rfl⟩)
      rw [List.lookup_append, ← hlookup]
      cases new <;> simp [List.lookup_cons, beq_false_of_ne hne]

/-- A committed swap found every expected value and touched nothing else. -/
theorem get_replaceUserPreferences {prefKey : Text} {entries : List Replacement}
    (hentries : (entries.map Prod.fst).Nodup)
    (h : replaceUserPreferencesIfUnchanged prefKey prefs entries = some after) (u : Int) (k : Text) :
    after.get (u, k) = (if k = prefKey then (entries.lookup u).map Prod.snd else none).or
        (prefs.get (u, k)) ∧
      ∀ value w, entries.lookup u = some (value, w) → prefs.get (u, prefKey) = some value := by
  induction entries generalizing prefs with
  | nil =>
    obtain rfl := Option.some.inj h
    simp
  | cons entry entries ih =>
    obtain ⟨userId, expected, replacement⟩ := entry
    rw [List.map_cons, List.nodup_cons] at hentries
    rw [replaceUserPreferencesIfUnchanged, Option.ite_none_right_eq_some] at h
    obtain ⟨hexpected, h⟩ := h
    obtain ⟨hafter, hfound⟩ := ih hentries.2 h
    rw [get_setPreference] at hafter hfound
    by_cases hu : u = userId
    · subst hu
      have hfree : entries.lookup u = none := lookup_eq_none_iff.mpr hentries.1
      refine ⟨?_, fun value w hlookup => ?_⟩
      · rw [hafter, hfree]
        by_cases hk : k = prefKey <;> simp [hk]
      · rw [List.lookup_cons, beq_self_eq_true] at hlookup
        obtain ⟨rfl, -⟩ := Prod.mk.inj (Option.some.inj hlookup)
        exact hexpected
    · have hlook : (List.lookup u ((userId, expected, replacement) :: entries)) =
          entries.lookup u := by
        rw [List.lookup_cons, beq_false_of_ne hu]
      rw [hlook]
      refine ⟨?_, fun value w hlookup => ?_⟩
      · rw [hafter]
        simp [hu]
      · have hget := hfound value w hlookup
        simpa [hu] using hget

/-- A run fails and leaves the table, or commits a plan made from what it read. -/
theorem migrate_cases (crypto : TokenCrypto) (cipher : RealDebridTokenCipher)
    (nonces : Nat → Option Nonce) (read prefs : PreferenceTable) :
    (∃ error, migrateExistingTokens crypto cipher nonces read prefs = (.error error, prefs)) ∨
      ∃ replacements report after,
        planReplacements crypto cipher nonces (getUserPreferencesByKey read realDebridTokenPrefKey) =
          .ok (replacements, report) ∧
        replaceUserPreferencesIfUnchanged realDebridTokenPrefKey prefs replacements = some after ∧
        migrateExistingTokens crypto cipher nonces read prefs = (.ok report, after) := by
  unfold migrateExistingTokens
  dsimp only
  split
  · next hempty =>
    rw [List.isEmpty_iff.mp hempty]
    exact .inr ⟨[], {}, prefs, rfl, rfl, rfl⟩
  · split
    · exact .inl ⟨_, rfl⟩
    · split
      · exact .inl ⟨_, rfl⟩
      · next replacements report hplan =>
        split
        · next hempty =>
          obtain rfl := List.isEmpty_iff.mp hempty
          exact .inr ⟨[], report, prefs, hplan, rfl, rfl⟩
        · split
          · exact .inl ⟨_, rfl⟩
          · next after hswap => exact .inr ⟨replacements, report, after, hplan, hswap, rfl⟩

/-- Under the active key already, a row needs nothing. -/
theorem migrateRow_sealed {nonce : Option Nonce} {value plaintext : Text}
    (h : SealedFor crypto cipher userId value plaintext) :
    migrateRow crypto cipher nonce (userId, value) = .ok (none, {}) := by
  obtain ⟨keyId, hactive, hopen⟩ := h.active
  rw [migrateRow, if_pos (startsWith_of_decryptEnvelope hopen)]
  refine bind_eq_ok.mpr ⟨_, hopen, ?_⟩
  rw [if_pos hactive]
  rfl

theorem planReplacements_sealed {rows : List (Int × Text)}
    (h : ∀ row ∈ rows, ∃ plaintext, SealedFor crypto cipher row.1 row.2 plaintext) :
    planReplacements crypto cipher nonces rows = .ok ([], {}) := by
  induction rows generalizing nonces with
  | nil => rfl
  | cons row rows ih =>
    obtain ⟨plaintext, hrow⟩ := h row List.mem_cons_self
    rw [planReplacements, migrateRow_sealed hrow, ih fun r hr => h r (List.mem_cons_of_mem _ hr)]
    rfl

/-- Where every row read is an envelope under the active key, nothing is written. -/
theorem migrateExistingTokens_sealed
    (h : ∀ userId value, read.get (userId, realDebridTokenPrefKey) = some value →
      ∃ plaintext, SealedFor crypto cipher userId value plaintext)
    (nonces : Nat → Option Nonce) (prefs : PreferenceTable) :
    migrateExistingTokens crypto cipher nonces read prefs = (.ok {}, prefs) := by
  have hplan : planReplacements crypto cipher nonces
      (getUserPreferencesByKey read realDebridTokenPrefKey) = .ok ([], {}) :=
    planReplacements_sealed fun row hrow => h row.1 row.2 (mem_getUserPreferencesByKey.mp hrow)
  unfold migrateExistingTokens
  dsimp only
  split
  · rfl
  · next hne =>
    -- a row exists, so the ring that opens it is enabled
    obtain ⟨row, hrow⟩ := List.exists_mem_of_ne_nil _ (mt List.isEmpty_iff.mpr hne)
    obtain ⟨plaintext, hsealed⟩ := h row.1 row.2 (mem_getUserPreferencesByKey.mp hrow)
    obtain ⟨keyId, hactive, -⟩ := hsealed.active
    rw [RealDebridTokenCipher.isEnabled, hactive, hplan]
    rfl

/-- What a successful run guarantees, other processes having made `prefs` of `read`. -/
structure MigrationDone (crypto : TokenCrypto) (cipher : RealDebridTokenCipher)
    (read prefs after : PreferenceTable) : Prop where
  otherKeys : ∀ userId key, key ≠ realDebridTokenPrefKey →
    after.get (userId, key) = prefs.get (userId, key)
  migrated : ∀ userId value, read.get (userId, realDebridTokenPrefKey) = some value →
    prefs.get (userId, realDebridTokenPrefKey) = some value → ∃ plaintext new,
      StoredPlaintext crypto cipher userId value plaintext ∧
      after.get (userId, realDebridTokenPrefKey) = some new ∧
      SealedFor crypto cipher userId new plaintext ∧
      (new = value ∨ ∃ nonce, encryptForUser crypto cipher nonce userId plaintext = .ok new)
  changed : ∀ userId value, read.get (userId, realDebridTokenPrefKey) = some value →
    prefs.get (userId, realDebridTokenPrefKey) ≠ some value →
    after.get (userId, realDebridTokenPrefKey) = prefs.get (userId, realDebridTokenPrefKey) ∧
      ∃ plaintext, SealedFor crypto cipher userId value plaintext
  unread : ∀ userId, read.get (userId, realDebridTokenPrefKey) = none →
    after.get (userId, realDebridTokenPrefKey) = prefs.get (userId, realDebridTokenPrefKey)

theorem migrationDone_of_swap {replacements : List Replacement} {report : TokenMigrationReport}
    (hplan : planReplacements crypto cipher nonces
      (getUserPreferencesByKey read realDebridTokenPrefKey) = .ok (replacements, report))
    (hswap : replaceUserPreferencesIfUnchanged realDebridTokenPrefKey prefs replacements =
      some after) : MigrationDone crypto cipher read prefs after := by
  have hrows := nodup_getUserPreferencesByKey read realDebridTokenPrefKey
  have hsub := users_planReplacements hplan
  have hget := get_replaceUserPreferences (hsub.nodup hrows) hswap
  have hplanned {userId : Int} {value : Text}
      (hvalue : read.get (userId, realDebridTokenPrefKey) = some value) :
      ∃ (new : Option Text) (plaintext : Text),
        replacements.lookup userId = new.map (fun w => (value, w)) ∧
        StoredPlaintext crypto cipher userId value plaintext ∧
        SealedFor crypto cipher userId (new.getD value) plaintext ∧
        (new.getD value = value ∨
          ∃ nonce, encryptForUser crypto cipher nonce userId plaintext = .ok (new.getD value)) := by
    obtain ⟨nonce, new, one, hrow, hlookup⟩ :=
      lookup_planReplacements hrows hplan (mem_getUserPreferencesByKey.mpr hvalue)
    obtain ⟨plaintext, hstored, hsealed, hmade⟩ := migrateRow_ok hrow
    refine ⟨new, plaintext, hlookup, hstored, hsealed, ?_⟩
    cases new with
    | none => exact .inl rfl
    | some w => exact .inr ⟨nonce, hmade w rfl⟩
  have hafter (userId : Int) := (hget userId realDebridTokenPrefKey).1
  simp only [↓reduceIte] at hafter
  refine ⟨fun userId key hkey => ?_, fun userId value hvalue hsame => ?_,
    fun userId value hvalue hne => ?_, fun userId hvalue => ?_⟩
  · rw [(hget userId key).1, if_neg hkey, Option.none_or]
  · obtain ⟨new, plaintext, hlookup, hstored, hsealed, hmade⟩ := hplanned hvalue
    refine ⟨plaintext, new.getD value, hstored, ?_, hsealed, hmade⟩
    rw [hafter, hlookup, hsame]
    cases new <;> rfl
  · obtain ⟨new, plaintext, hlookup, -, hsealed, -⟩ := hplanned hvalue
    cases new with
    | some w => exact absurd ((hget userId realDebridTokenPrefKey).2 value w hlookup) hne
    | none => exact ⟨by rw [hafter, hlookup, Option.map_none, Option.map_none, Option.none_or],
        plaintext, hsealed⟩
  · have hfree : replacements.lookup userId = none := by
      rw [lookup_eq_none_iff]
      intro hm
      obtain ⟨row, hrow, rfl⟩ := List.mem_map.mp (hsub.subset hm)
      rw [mem_getUserPreferencesByKey.mp (show (row.1, row.2) ∈ _ from hrow)] at hvalue
      simp at hvalue
    rw [hafter, hfree, Option.map_none, Option.none_or]

/-- A run leaves the table on an error; on success every row no other process changed is an
envelope under the active key of the plaintext it held, a changed row was not due and stays
as it was left, and without changes a second run does nothing. -/
theorem migration_atomic (crypto : TokenCrypto) (cipher : RealDebridTokenCipher)
    (nonces : Nat → Option Nonce) (read prefs : PreferenceTable) :
    (∃ error, migrateExistingTokens crypto cipher nonces read prefs = (.error error, prefs)) ∨
      ∃ report after, migrateExistingTokens crypto cipher nonces read prefs = (.ok report, after) ∧
        MigrationDone crypto cipher read prefs after ∧
        ((∀ userId, prefs.get (userId, realDebridTokenPrefKey) =
            read.get (userId, realDebridTokenPrefKey)) →
          ∀ nonces, migrateExistingTokens crypto cipher nonces after after = (.ok {}, after)) := by
  obtain herror | ⟨replacements, report, after, hplan, hswap, hrun⟩ :=
    migrate_cases crypto cipher nonces read prefs
  · exact .inl herror
  · have hdone := migrationDone_of_swap hplan hswap
    refine .inr ⟨report, after, hrun, hdone, fun hsame nonces => ?_⟩
    refine migrateExistingTokens_sealed (fun userId value hafter => ?_) nonces after
    cases hvalue : read.get (userId, realDebridTokenPrefKey) with
    | none =>
      rw [hdone.unread userId hvalue, hsame, hvalue] at hafter
      simp at hafter
    | some old =>
      obtain ⟨plaintext, new, -, hnew, hsealed, -⟩ :=
        hdone.migrated userId old hvalue ((hsame userId).trans hvalue)
      rw [hafter] at hnew
      exact ⟨plaintext, Option.some.inj hnew ▸ hsealed⟩

section success
variable (nonces)

theorem migrateRow_isOk {nonce : Nonce} {value : Text}
    (h : (∃ plaintext, SealedFor crypto cipher userId value plaintext) ∨
      cipher.isEnabled = true ∧ startsWith value envelopePrefix = false) :
    ∃ planned, migrateRow crypto cipher (some nonce) (userId, value) = .ok planned := by
  rcases h with ⟨plaintext, hsealed⟩ | ⟨henabled, hplain⟩
  · exact ⟨_, migrateRow_sealed hsealed⟩
  · obtain ⟨keyId, hactive⟩ := Option.isSome_iff_exists.mp henabled
    obtain ⟨encrypted, henc⟩ := encryptForUser_isOk crypto hactive nonce userId value
    rw [migrateRow, if_neg (by simp [hplain])]
    exact ⟨_, bind_eq_ok.mpr ⟨encrypted, henc, rfl⟩⟩

theorem planReplacements_isOk {rows : List (Int × Text)}
    (h : ∀ row ∈ rows, ∀ i, ∃ planned, migrateRow crypto cipher (nonces i) row = .ok planned) :
    ∃ replacements report,
      planReplacements crypto cipher nonces rows = .ok (replacements, report) := by
  induction rows generalizing nonces with
  | nil => exact ⟨[], {}, rfl⟩
  | cons row rows ih =>
    obtain ⟨planned, hrow⟩ := h row List.mem_cons_self 0
    obtain ⟨rest, total, hrest⟩ := ih (fun i => nonces (i + 1)) fun r hr i =>
      h r (List.mem_cons_of_mem _ hr) (i + 1)
    exact ⟨_, _, bind_eq_ok.mpr ⟨planned, hrow, bind_eq_ok.mpr ⟨(rest, total), hrest, rfl⟩⟩⟩

theorem replaceUserPreferences_isSome {prefKey : Text} {entries : List Replacement}
    (hentries : (entries.map Prod.fst).Nodup)
    (h : ∀ entry ∈ entries, prefs.get (entry.1, prefKey) = some entry.2.1) :
    ∃ after, replaceUserPreferencesIfUnchanged prefKey prefs entries = some after := by
  induction entries generalizing prefs with
  | nil => exact ⟨prefs, rfl⟩
  | cons entry entries ih =>
    obtain ⟨userId, expected, replacement⟩ := entry
    rw [List.map_cons, List.nodup_cons] at hentries
    rw [replaceUserPreferencesIfUnchanged, if_pos (h _ List.mem_cons_self)]
    refine ih hentries.2 fun entry hm => ?_
    have hne : entry.1 ≠ userId := fun he => hentries.1 (List.mem_map.mpr ⟨entry, hm, he⟩)
    rw [get_setPreference, if_neg (by simp [hne])]
    exact h entry (List.mem_cons_of_mem _ hm)

/-- Undisturbed, a run succeeds when every row can be migrated. -/
theorem migrateExistingTokens_isOk
    (h : ∀ userId value, prefs.get (userId, realDebridTokenPrefKey) = some value →
      cipher.isEnabled = true ∧
        ∀ i, ∃ planned, migrateRow crypto cipher (nonces i) (userId, value) = .ok planned) :
    ∃ report after, migrateExistingTokens crypto cipher nonces prefs prefs = (.ok report, after) := by
  have hrow {row : Int × Text} (hm : row ∈ getUserPreferencesByKey prefs realDebridTokenPrefKey) :=
    h row.1 row.2 (mem_getUserPreferencesByKey.mp hm)
  obtain ⟨replacements, report, hplan⟩ := planReplacements_isOk nonces fun row hm => (hrow hm).2
  obtain ⟨after, hswap⟩ := replaceUserPreferences_isSome
    ((users_planReplacements hplan).nodup (nodup_getUserPreferencesByKey prefs _))
    fun entry hm => mem_getUserPreferencesByKey.mp
      ((planReplacements_sublist hplan).subset (List.mem_map.mpr ⟨entry, hm, rfl⟩))
  unfold migrateExistingTokens
  dsimp only
  split
  · exact ⟨_, _, rfl⟩
  · next hne =>
    obtain ⟨row, hm⟩ := List.exists_mem_of_ne_nil _ (mt List.isEmpty_iff.mpr hne)
    rw [(hrow hm).1, hplan]
    simp only [Bool.not_true, Bool.false_eq_true, ↓reduceIte, hswap]
    split
    · exact ⟨_, _, rfl⟩
    · exact ⟨_, _, rfl⟩

end success

/-- An ideal cipher over the actual codec. -/
def transcriptCrypto : TokenCrypto where
  aead := .ofHeader (fun key nonce aad => key.bytes ++ (nonce.bytes ++ frame aad))
    (by
      intro key key' nonce nonce' aad aad' m m' h
      simp only [List.append_assoc] at h
      obtain ⟨hkey, h⟩ := List.append_inj h (key.length_eq.trans key'.length_eq.symm)
      obtain ⟨hnonce, h⟩ := List.append_inj h (nonce.length_eq.trans nonce'.length_eq.symm)
      exact ⟨KeyMaterial.ext hkey, Nonce.ext hnonce, (frame_separates h).1⟩)
    (by
      intro key nonce aad
      rw [List.length_append, key.length_eq]
      exact (show tagBytes ≤ keyBytes by decide).trans (Nat.le_add_right _ _))
  codec := urlSafeNoPad

/-- A row that was not due is not looked at again: what another process makes of it meanwhile
stays, plaintext included. -/
theorem changed_row_stays_plaintext :
    ¬ ∀ (crypto : TokenCrypto) (cipher : RealDebridTokenCipher) (nonces : Nat → Option Nonce)
      (read prefs : PreferenceTable),
      (∃ error, migrateExistingTokens crypto cipher nonces read prefs = (.error error, prefs)) ∨
        ∃ report after, migrateExistingTokens crypto cipher nonces read prefs = (.ok report, after) ∧
          ∀ userId value, after.get (userId, realDebridTokenPrefKey) = some value →
            ∃ plaintext, SealedFor crypto cipher userId value plaintext := by
  intro h
  let cipher := RealDebridTokenCipher.disabled.insertKey "primary".toList
    ⟨List.replicate 32 7, rfl⟩ (by decide)
  have hactive : cipher.activeKeyId = some "primary".toList := rfl
  obtain ⟨value, hvalue⟩ := encryptForUser_isOk transcriptCrypto hactive
    ⟨List.replicate 12 0, rfl⟩ 1 "first".toList
  let read : PreferenceTable := Table.empty.upsert (1, realDebridTokenPrefKey) value id
  let prefs : PreferenceTable := Table.empty.upsert (1, realDebridTokenPrefKey) "second".toList id
  have hsealed : ∀ userId v, read.get (userId, realDebridTokenPrefKey) = some v →
      ∃ plaintext, SealedFor transcriptCrypto cipher userId v plaintext := by
    intro userId v hv
    rw [get_upsert] at hv
    split at hv
    · next huser =>
      obtain ⟨rfl, -⟩ := Prod.mk.inj huser
      obtain rfl := Option.some.inj hv
      obtain ⟨keyId, hactive, -, hopen⟩ := decryptEnvelope_encryptForUser hvalue
      exact ⟨_, sealedFor_of_decryptEnvelope hactive hopen⟩
    · simp at hv
  have hrun := migrateExistingTokens_sealed hsealed (fun _ => none) prefs
  rcases h transcriptCrypto cipher (fun _ => none) read prefs with
    ⟨error, herror⟩ | ⟨report, after, hok, hall⟩
  · rw [hrun] at herror
    simp at herror
  · obtain rfl := (Prod.mk.inj (hrun.symm.trans hok)).2
    obtain ⟨plaintext, hplain⟩ := hall 1 "second".toList rfl
    obtain ⟨keyId, -, hopen⟩ := hplain.active
    exact absurd (startsWith_of_decryptEnvelope hopen) (by decide)

end StreamArena.Secrets
