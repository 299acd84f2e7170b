import StreamArena.Library.Runs
import StreamArena.Preferences.RealDebridSettings
import StreamArena.Secrets.TokenMigration

/-! Where the values under the token key come from, over runs of settings requests and
restarts: a restart renames legacy keys (`build_users_schema`, src/persistence.rs) before
it migrates tokens (`migrate_existing_tokens`, src/secret_store.rs), and the rename reaches
the token key by a way no request filter guards. -/
namespace StreamArena.Secrets
open AsciiText KeyedTable JsonValue Aead Base64Url Routes Preferences Runs

section
variable (crypto : TokenCrypto) (cipher : RealDebridTokenCipher) (render : Value → Text)

/-- The key rename, then the token migration; requests in flight are gone. -/
def startServer (nonces : Nat → Option Nonce) (prefs : PreferenceTable) : Except ApiError Server :=
  let renamed := renameLegacyKeys prefs
  match migrateExistingTokens crypto cipher nonces renamed renamed with
  | (.error error, _) => .error error
  | (.ok _, after) => .ok { prefs := after }

inductive ServerEvent where
  | request (request : SettingsRequest (Option Nonce))
  | restart (nonces : Nat → Nonce)

/-- A failed startup ends the run. -/
def serverStep : Except ApiError Server → ServerEvent → Except ApiError Server
  | .error error, _ => .error error
  | .ok server, .request request =>
    .ok (server.step render (encryptForUser crypto cipher) request)
  | .ok server, .restart nonces => startServer crypto cipher (fun i => some (nonces i)) server.prefs

/-- An encryption for the user of a key that passed the check, or of what a row of the
token key held before the first boot; or such a row, under the active key already. -/
inductive TokenOrigin (start : PreferenceTable) (userId : Int) (value : Text) : Prop where
  | encrypted {plaintext : Text} {nonce : Option Nonce}
    (made : encryptForUser crypto cipher nonce userId plaintext = .ok value)
    (origin : isValidRealDebridApiKey plaintext = true ∨
      ∃ old, start.get (userId, realDebridTokenPrefKey) = some old ∧
        StoredPlaintext crypto cipher userId old plaintext)
  | kept {plaintext : Text} (stored : start.get (userId, realDebridTokenPrefKey) = some value)
    (opens : SealedFor crypto cipher userId value plaintext)

/-- Every stored token has such an origin, for its own user. -/
def TokensHold (start prefs : PreferenceTable) : Prop :=
  ∀ userId value, prefs.get (userId, realDebridTokenPrefKey) = some value →
    TokenOrigin crypto cipher start userId value

/-- The server is up, and its tokens hold. -/
def RunHolds (start : PreferenceTable) (state : Except ApiError Server) : Prop :=
  ∃ server, state = .ok server ∧ TokensHold crypto cipher start server.prefs

/-- A row the rename takes to the token key finds a token there, or is a valid key itself
that encryption is ready for. -/
def RenameHarmless (prefs : PreferenceTable) : Prop :=
  ∀ userId key value, prefs.get (userId, key) = some value → isLegacyKey key = true →
    renamedKey key = realDebridTokenPrefKey →
    (prefs.get (userId, realDebridTokenPrefKey)).isSome = true ∨
      cipher.isEnabled = true ∧ isValidRealDebridApiKey value = true ∧
        startsWith value envelopePrefix = false

def HarmlessEvent (state : Except ApiError Server) (event : ServerEvent) : Prop :=
  match state, event with
  | .ok server, .restart _ => RenameHarmless cipher server.prefs
  | _, _ => True

end

variable {crypto : TokenCrypto} {cipher : RealDebridTokenCipher} {render : Value → Text}
  {start prefs : PreferenceTable} {userId : Int} {value : Text}

theorem TokenOrigin.sealedFor (h : TokenOrigin crypto cipher start userId value) :
    ∃ plaintext, SealedFor crypto cipher userId value plaintext := by
  cases h with
  | encrypted made origin =>
    obtain ⟨keyId, hactive, -, hopen⟩ := decryptEnvelope_encryptForUser made
    exact ⟨_, sealedFor_of_decryptEnvelope hactive hopen⟩
  | kept stored opens => exact ⟨_, opens⟩

/-- Encrypting again what such a value opens to keeps the origin. -/
theorem TokenOrigin.encrypt_again (h : TokenOrigin crypto cipher start userId value)
    {plaintext new : Text} {nonce : Option Nonce}
    (hstored : StoredPlaintext crypto cipher userId value plaintext)
    (hnew : encryptForUser crypto cipher nonce userId plaintext = .ok new) :
    TokenOrigin crypto cipher start userId new := by
  cases h with
  | encrypted made origin =>
    obtain ⟨keyId, hactive, hpre, hopen⟩ := decryptEnvelope_encryptForUser made
    rw [StoredPlaintext, if_pos hpre, decryptForUser_eq_ok] at hstored
    obtain ⟨keyId', hopen'⟩ := hstored
    obtain ⟨rfl, -⟩ := Prod.mk.inj (Except.ok.inj (hopen.symm.trans hopen'))
    exact .encrypted hnew origin
  | kept stored opens => exact .encrypted hnew (.inr ⟨value, stored, hstored⟩)

/-- After a harmless rename a token was there before, or is a valid key in plain. -/
theorem renamed_token (hsafe : RenameHarmless cipher prefs)
    (hvalue : (renameLegacyKeys prefs).get (userId, realDebridTokenPrefKey) = some value) :
    prefs.get (userId, realDebridTokenPrefKey) = some value ∨
      cipher.isEnabled = true ∧ isValidRealDebridApiKey value = true ∧
        startsWith value envelopePrefix = false := by
  obtain hold | ⟨key, hlegacy, hkey, hold⟩ := get_renameLegacyKeys_origin hvalue
  · exact .inl hold
  · rcases hsafe userId key value hold hlegacy hkey with htoken | hvalid
    · obtain ⟨token, htoken⟩ := Option.isSome_iff_exists.mp htoken
      have hkept := get_renameLegacyKeys_kept (by decide) htoken
      rw [hvalue] at hkept
      exact .inl (hkept ▸ htoken)
    · exact .inr hvalid

/-- What a successful startup leaves under the token key, from rows that held or were there
before the first boot. -/
theorem tokensHold_startServer {nonces : Nat → Option Nonce} {server : Server}
    (hsafe : RenameHarmless cipher prefs)
    (hrows : prefs = start ∨ TokensHold crypto cipher start prefs)
    (h : startServer crypto cipher nonces prefs = .ok server) :
    TokensHold crypto cipher start server.prefs := by
  obtain ⟨error, herror⟩ | ⟨report, after, hrun, hdone, -⟩ :=
    migration_atomic crypto cipher nonces (renameLegacyKeys prefs) (renameLegacyKeys prefs)
  · simp [startServer, herror] at h
  · rw [startServer, hrun] at h
    obtain rfl := Except.ok.inj h
    intro userId new hnew
    cases hold : (renameLegacyKeys prefs).get (userId, realDebridTokenPrefKey) with
    | none =>
      rw [hdone.unread userId hold, hold] at hnew
      simp at hnew
    | some value =>
      obtain ⟨plaintext, new', hstored, hget, hsealed, hmade⟩ := hdone.migrated userId value hold hold
      obtain rfl := Option.some.inj (hget.symm.trans hnew)
      rcases renamed_token hsafe hold with hvalue | ⟨-, hvalid, hplain⟩
      · rcases hrows with rfl | hrows
        · rcases hmade with rfl | ⟨nonce, hmade⟩
          · exact .kept hvalue hsealed
          · exact .encrypted hmade (.inr ⟨value, hvalue, hstored⟩)
        · rcases hmade with rfl | ⟨nonce, hmade⟩
          · exact hrows userId _ hvalue
          · exact (hrows userId value hvalue).encrypt_again hstored hmade
      · rcases hmade with rfl | ⟨nonce, hmade⟩
        · obtain ⟨keyId, -, hopen⟩ := hsealed.active
          rw [startsWith_of_decryptEnvelope hopen] at hplain
          exact Bool.noConfusion hplain
        · rw [StoredPlaintext, hplain] at hstored
          exact .encrypted hmade (.inl ((show value = plaintext from hstored) ▸ hvalid))

/-- Tokens that hold never stop a startup. -/
theorem startServer_isOk (hsafe : RenameHarmless cipher prefs)
    (hrows : TokensHold crypto cipher start prefs) (nonces : Nat → Nonce) :
    ∃ server, startServer crypto cipher (fun i => some (nonces i)) prefs = .ok server := by
  have hmigratable : ∀ userId value,
      (renameLegacyKeys prefs).get (userId, realDebridTokenPrefKey) = some value →
      cipher.isEnabled = true ∧
        ∀ i, ∃ planned, migrateRow crypto cipher (some (nonces i)) (userId, value) = .ok planned := by
    intro userId value hvalue
    rcases renamed_token hsafe hvalue with hold | ⟨henabled, -, hplain⟩
    · obtain ⟨plaintext, hsealed⟩ := (hrows userId value hold).sealedFor
      obtain ⟨keyId, hactive, -⟩ := hsealed.active
      refine ⟨?_, fun i => migrateRow_isOk (.inl ⟨plaintext, hsealed⟩)⟩
      rw [RealDebridTokenCipher.isEnabled, hactive]
      rfl
    · exact ⟨henabled, fun i => migrateRow_isOk (.inr ⟨henabled, hplain⟩)⟩
  obtain ⟨report, after, hrun⟩ := migrateExistingTokens_isOk (fun i => some (nonces i)) hmigratable
  exact ⟨_, by rw [startServer, hrun]⟩

theorem planned_startServer {nonces : Nat → Option Nonce} {server : Server}
    (h : startServer crypto cipher nonces prefs = .ok server) : server.planned = [] := by
  unfold startServer at h
  dsimp only at h
  split at h
  · simp at h
  · exact congrArg Server.planned (Except.ok.inj h).symm

theorem planned_token {encryptKey : Text → Except ApiError Text} {change : Option Text}
    (h : PlannedChange encryptKey (realDebridTokenPrefKey, change)) :
    change = none ∨ ∃ apiKey encrypted, isValidRealDebridApiKey apiKey = true ∧
      encryptKey apiKey = .ok encrypted ∧ change = some encrypted := by
  generalize hk : realDebridTokenPrefKey = key at h
  cases h with
  | enabled flag => exact absurd hk (by decide)
  | localTorrent flag => exact absurd hk (by decide)
  | clearToken => exact .inl rfl
  | setToken valid sealed => exact .inr ⟨_, _, valid, sealed, rfl⟩

/-- No request puts anything else under the token key. -/
theorem tokensHold_step {server : Server} (request : SettingsRequest (Option Nonce))
    (hplanned : server.PlannedBy (encryptForUser crypto cipher))
    (h : TokensHold crypto cipher start server.prefs) :
    TokensHold crypto cipher start
      (server.step render (encryptForUser crypto cipher) request).prefs := by
  obtain ⟨userId, object, -, hstep⟩ | ⟨-, hsame | ⟨userId, changes, draw, hplan, hcommit⟩⟩ :=
    step_cases render request hplanned
  · intro u value hvalue
    rw [hstep, get_writePreferences_token] at hvalue
    exact h u value hvalue
  · rw [hsame]
    exact h
  · intro u value hvalue
    rw [(applyRealDebrid_eq_ok hcommit).1, get_foldl_applyPreferenceChange] at hvalue
    split at hvalue
    · next hu =>
      cases hl : changes.reverse.lookup realDebridTokenPrefKey with
      | none =>
        rw [hl] at hvalue
        exact h u value hvalue
      | some change =>
        rw [hl] at hvalue
        obtain rfl : change = some value := hvalue
        obtain ⟨before, rest, hsplit, -⟩ := List.lookup_eq_some_iff.mp hl
        have hm : (realDebridTokenPrefKey, some value) ∈ changes :=
          List.mem_reverse.mp (hsplit ▸ List.mem_append_right before List.mem_cons_self)
        obtain hnone | ⟨apiKey, encrypted, hvalid, hmade, hsome⟩ := planned_token (hplan _ hm)
        · simp at hnone
        · obtain rfl := Option.some.inj hsome
          exact hu ▸ .encrypted hmade (.inl hvalid)
    · exact h u value hvalue

/-- Over any run of requests and restarts after a first boot, with every rename harmless: the
server starts each time and every token is an encryption for its user of a checked key or of
what was there before the first boot. -/
theorem token_origin_of_harmless (crypto : TokenCrypto) (cipher : RealDebridTokenCipher)
    (render : Value → Text) (nonces : Nat → Option Nonce) {start : PreferenceTable} {server : Server}
    {events : List ServerEvent} (hstart : RenameHarmless cipher start)
    (hboot : startServer crypto cipher nonces start = .ok server)
    (hevents : Each (serverStep crypto cipher render) (HarmlessEvent cipher) (.ok server) events) :
    Throughout (serverStep crypto cipher render) (RunHolds crypto cipher start) (.ok server)
      events := by
  let Inv (state : Except ApiError Server) : Prop := ∃ server, state = .ok server ∧
    server.PlannedBy (encryptForUser crypto cipher) ∧ TokensHold crypto cipher start server.prefs
  have hrestart {prefs : PreferenceTable} {nonces : Nat → Option Nonce} {server : Server}
      (hsafe : RenameHarmless cipher prefs)
      (hrows : prefs = start ∨ TokensHold crypto cipher start prefs)
      (h : startServer crypto cipher nonces prefs = .ok server) : Inv (.ok server) := by
    refine ⟨server, rfl, fun update hm => ?_, tokensHold_startServer hsafe hrows h⟩
    rw [planned_startServer h] at hm
    simp at hm
  have hrun : Throughout (serverStep crypto cipher render) Inv (.ok server) events := by
    refine throughout_of_each (fun state event hsafe hinv => ?_) (hrestart hstart (.inl rfl) hboot)
      hevents
    obtain ⟨server, rfl, hplanned, hrows⟩ := hinv
    cases event with
    | request request =>
      exact ⟨_, rfl, plannedBy_step request hplanned, tokensHold_step request hplanned hrows⟩
    | restart nonces =>
      obtain ⟨next, hnext⟩ := startServer_isOk hsafe hrows nonces
      rw [serverStep, hnext]
      exact hrestart hsafe (.inr hrows) hnext
  exact hrun.imp fun state h => by
    obtain ⟨server, hstate, -, hrows⟩ := h
    exact ⟨server, hstate, hrows⟩

theorem harmless_request (state : Except ApiError Server) (request : SettingsRequest (Option Nonce)) :
    HarmlessEvent cipher state (.request request) := by
  cases state <;> exact trivial

/-- A ring of one key. -/
def primaryCipher : RealDebridTokenCipher :=
  .insertKey .disabled "primary".toList ⟨List.replicate 32 7, rfl⟩ (by decide)

theorem token_origin_of_saved_key :
    Throughout (serverStep transcriptCrypto primaryCipher fun _ => [])
      (RunHolds transcriptCrypto primaryCipher Table.empty) (.ok { prefs := Table.empty })
      [.restart fun _ => ⟨List.replicate 12 0, rfl⟩,
        .request (.planRealDebrid 1
          (.object [("apiKey".toList, .string "abcdefghijklmnop0123".toList)]) (.ok ())
          (some ⟨List.replicate 12 1, rfl⟩)),
        .request (.commitRealDebrid 0)] := by
  have hempty : RenameHarmless primaryCipher Table.empty := fun _ _ _ h => by simp at h
  exact token_origin_of_harmless transcriptCrypto primaryCipher (fun _ => []) (fun _ => none)
    hempty rfl ⟨hempty, harmless_request _ _, harmless_request _ _, trivial⟩

/-- A preference under the legacy name of the token key, which no filter refuses, is taken for
a token at the next startup and stops it. -/
theorem legacy_preference_stops_startup :
    ¬ ∀ (crypto : TokenCrypto) (cipher : RealDebridTokenCipher) (render : Value → Text)
      (nonces : Nat → Option Nonce) (start : PreferenceTable) (server : Server)
      (events : List ServerEvent), startServer crypto cipher nonces start = .ok server →
        Throughout (serverStep crypto cipher render) (RunHolds crypto cipher start) (.ok server)
          events := by
  intro h
  let body := Value.object [("netflix-real-debrid-api-key".toList, .string "saenc:x".toList)]
  have hrun := h transcriptCrypto primaryCipher (fun _ => []) (fun _ => none) Table.empty
    { prefs := Table.empty }
    [.request (.putPreferences 1 body), .restart fun _ => ⟨List.replicate 12 0, rfl⟩] rfl
  obtain ⟨server, hserver, -⟩ := hrun.2.2
  have hfail := congrArg Except.isOk hserver
  change _ = true at hfail
  revert hfail
  decide +kernel

end StreamArena.Secrets
