import StreamArena.Routes.Fields
import StreamArena.Preferences.PreferenceTable

/-! The requests that write preferences (src/routes/user_settings.rs): generic
writes by `PUT /api/user/preferences` and `POST /api/user/sync`, and
`PUT /api/user/real-debrid`, which plans its changes from an earlier read and
commits them in a transaction that checks the stored flag against the token. -/
namespace StreamArena.Preferences
open AsciiText KeyedTable JsonValue Routes

def userPrefMaxEntries : Nat := 200
def userPrefKeyMaxBytes : Nat := 128
def userPrefValueMaxBytes : Nat := 2000000

def isSecretUserPreferenceKey (key : Text) : Bool :=
  eqIgnoreAsciiCase (trim key) realDebridTokenPrefKey

/-- `render` is the JSON text of a value. -/
def preferenceText (render : Value → Text) : Value → Text
  | .string text => trim text
  | other => render other

def pushPreferenceEntry (render : Value → Text) (entries : List (Text × Text))
    (field : Text × Value) : List (Text × Text) :=
  if entries.length ≥ userPrefMaxEntries || isSecretUserPreferenceKey field.1 then entries
  else
    match boundedTrimmedString field.1 userPrefKeyMaxBytes with
    | none => entries
    | some key =>
      let val := preferenceText render field.2
      if byteLength val > userPrefValueMaxBytes then entries else entries ++ [(key, val)]

def userPreferenceEntriesFromObject (render : Value → Text) (prefs : List (Text × Value)) :
    List (Text × Text) :=
  prefs.foldl (pushPreferenceEntry render) []

def normalizeBoolPreference (value : Text) : Bool :=
  ["1".toList, "true".toList, "yes".toList, "on".toList, "enabled".toList].contains
    (toAsciiLowercase (trim value))

def normalizeBoolJsonValue : Value → Bool
  | .bool value => value
  | .string value => normalizeBoolPreference value
  | value => value.asI64.getD 0 != 0

def normalizeRealDebridApiKey (value : Text) : Text := trim value

def isValidRealDebridApiKey (value : Text) : Bool :=
  let normalized := normalizeRealDebridApiKey value
  if byteLength normalized < 16 || byteLength normalized > 512 ||
      !normalized.all fun c => decide (c.toNat < 128) then false
  else if normalized.any isWhitespace then false
  else
    let placeholders := ["your_real_debrid_api_token_here".toList, "real_debrid_token".toList,
      "test".toList, "demo".toList]
    !placeholders.contains (toAsciiLowercase normalized)

def realDebridApiKeyRequiredError : ApiError := .failedDependency
  "Enable Real-Debrid and add an API token in Settings to use cached streaming.".toList

def planRealDebridUpdate (configuredBefore : Bool)
    (apiKeyConfiguredUpdate requestedEnabled : Option Bool) : Except ApiError (Bool × Bool) :=
  let configuredAfter := apiKeyConfiguredUpdate.getD configuredBefore
  let enabledAfter := requestedEnabled.getD configuredAfter
  if enabledAfter && !configuredAfter then .error realDebridApiKeyRequiredError
  else .ok (configuredAfter, enabledAfter)

/-- An upsert, or a deletion where there is no value. -/
abbrev PreferenceChange := Text × Option Text

def flagText (enabled : Bool) : Text := if enabled then "1".toList else "0".toList

/-- The API key of the body, trimmed; `none` without such a field. -/
def realDebridApiKeyField (payload : Value) : Except ApiError (Option Text) :=
  match ((payload.get "apiKey".toList).or (payload.get "token".toList)).or
      (payload.get "realDebridApiKey".toList) with
  | none => .ok none
  | some (.string value) => .ok (some (normalizeRealDebridApiKey value))
  | some _ => .error (.badRequest
      "Real-Debrid apiKey must be a string; use an empty string to clear it.".toList)

def requestedEnabledField (payload : Value) : Option Bool :=
  ((payload.get "enabled".toList).or (payload.get "realDebridEnabled".toList)).map
    normalizeBoolJsonValue

/-- A key is checked here and by the service before it is encrypted; an empty one clears. -/
def realDebridTokenChange (validated : Except ApiError Unit) (encrypt : Text → Except ApiError Text) :
    Option Text → Except ApiError (List PreferenceChange)
  | none => .ok []
  | some apiKey =>
    if apiKey.isEmpty then .ok [(realDebridTokenPrefKey, none)]
    else if !isValidRealDebridApiKey apiKey then .error (.badRequest
      "Enter a valid Real-Debrid API token from Settings > API token.".toList)
    else do
      validated
      let encrypted ← encrypt apiKey
      return [(realDebridTokenPrefKey, some encrypted)]

/-- The changes `PUT /api/user/real-debrid` plans, from what it read and what it asked. -/
def planRealDebridChanges (validated : Except ApiError Unit) (encrypt : Text → Except ApiError Text)
    (configuredBefore : Bool) (payload : Value) : Except ApiError (List PreferenceChange) := do
  let apiKey ← realDebridApiKeyField payload
  let requestedEnabled := requestedEnabledField payload
  let plan ← planRealDebridUpdate configuredBefore (apiKey.map fun key => !key.isEmpty)
    requestedEnabled
  let tokenChange ← realDebridTokenChange validated encrypt apiKey
  let enabledChange : List PreferenceChange :=
    if requestedEnabled.isSome || apiKey.isSome then
      [(realDebridEnabledPrefKey, some (flagText plan.2))]
    else []
  let localTorrentChange : List PreferenceChange :=
    match payload.get "localTorrentEnabled".toList with
    | none => []
    | some value => [(localTorrentEnabledPrefKey, some (flagText (normalizeBoolJsonValue value)))]
  return tokenChange ++ (enabledChange ++ localTorrentChange)

def applyPreferenceChange (userId : Int) (tx : PreferenceTable) (change : PreferenceChange) :
    PreferenceTable :=
  match change.2 with
  | some value => setPreference tx userId change.1 value
  | none => tx.deleteWhere fun key _ => decide (key = (userId, change.1))

/-- How the transaction reads the flag: without folding case, without `enabled`. -/
def guardReadsEnabled (value : Text) : Bool :=
  ["1".toList, "true".toList, "yes".toList, "on".toList].contains (trim value)

/-- `none` where the transaction is dropped. -/
def applyPreferenceChangesWithRequiredToken (prefs : PreferenceTable) (userId : Int)
    (changes : List PreferenceChange) (tokenKey enabledKey : Text) : Option PreferenceTable :=
  let tx := changes.foldl (applyPreferenceChange userId) prefs
  let enabled := (tx.get (userId, enabledKey)).any guardReadsEnabled
  let tokenExists := (tx.get (userId, tokenKey)).isSome
  if enabled && !tokenExists then none else some tx

def applyRealDebridPreferenceChanges (prefs : PreferenceTable) (userId : Int)
    (changes : List PreferenceChange) : Except ApiError PreferenceTable :=
  if changes.isEmpty then .ok prefs
  else
    match applyPreferenceChangesWithRequiredToken prefs userId changes realDebridTokenPrefKey
      realDebridEnabledPrefKey with
    | some tx => .ok tx
    | none => .error (.failedDependency
        "Add a Real-Debrid API token before enabling cached streaming.".toList)

/-- The preferences, and the updates planned by requests still in flight. -/
structure Server where
  prefs : PreferenceTable
  planned : List (Int × List PreferenceChange) := []

/-- The requests of any users; a Real-Debrid update reads and commits at different times,
`validated` is the service's answer and `draw` what the random source gives. -/
inductive SettingsRequest (ν : Type*) where
  | putPreferences (userId : Int) (body : Value)
  | sync (userId : Int) (body : Value)
  | planRealDebrid (userId : Int) (body : Value) (validated : Except ApiError Unit) (draw : ν)
  | commitRealDebrid (index : Nat)

section server
variable {ν : Type*} (render : Value → Text) (encrypt : ν → Int → Text → Except ApiError Text)

/-- The object a generic write takes its preferences from. -/
def SettingsRequest.preferences : SettingsRequest ν → Option (Int × List (Text × Value))
  | putPreferences userId body => body.asObject.map fun object => (userId, object)
  | sync userId body =>
    ((body.get "preferences".toList).bind Value.asObject).map fun object => (userId, object)
  | _ => none

def Server.writePreferences (server : Server) (userId : Int) (object : List (Text × Value)) :
    Server :=
  { server with
    prefs := upsertUserPreferences server.prefs userId
      (userPreferenceEntriesFromObject render object) }

def Server.handle (server : Server) (request : SettingsRequest ν) : Server × Except ApiError Unit :=
  match request with
  | .putPreferences userId body =>
    match body.asObject with
    | none => (server, .error (.badRequest "Body must be a JSON object.".toList))
    | some object => (server.writePreferences render userId object, .ok ())
  | .sync userId body =>
    match (body.get "preferences".toList).bind Value.asObject with
    | none => (server, .ok ())
    | some object => (server.writePreferences render userId object, .ok ())
  | .planRealDebrid userId body validated draw =>
    let configuredBefore := (server.prefs.get (userId, realDebridTokenPrefKey)).isSome
    match planRealDebridChanges validated (encrypt draw userId) configuredBefore body with
    | .error error => (server, .error error)
    | .ok changes => ({ server with planned := server.planned ++ [(userId, changes)] }, .ok ())
  | .commitRealDebrid index =>
    match server.planned[index]? with
    | none => (server, .ok ())
    | some update =>
      let planned := server.planned.eraseIdx index
      match applyRealDebridPreferenceChanges server.prefs update.1 update.2 with
      | .error error => ({ server with planned }, .error error)
      | .ok prefs => ({ prefs, planned }, .ok ())

def Server.step (server : Server) (request : SettingsRequest ν) : Server :=
  (server.handle render encrypt request).1

end server

variable {ν : Type*} {render : Value → Text} {encrypt : ν → Int → Text → Except ApiError Text}

/-- What the sanitizer lets through. -/
structure AcceptedEntry (entry : Text × Text) : Prop where
  notSecret : isSecretUserPreferenceKey entry.1 = false
  key_ne : entry.1 ≠ []
  key_trimmed : trim entry.1 = entry.1
  key_bounded : byteLength entry.1 ≤ userPrefKeyMaxBytes
  value_bounded : byteLength entry.2 ≤ userPrefValueMaxBytes

variable (render) in
theorem pushPreferenceEntry_cases (entries : List (Text × Text)) (field : Text × Value) :
    pushPreferenceEntry render entries field = entries ∨ ∃ entry,
      pushPreferenceEntry render entries field = entries ++ [entry] ∧ AcceptedEntry entry ∧
        entries.length < userPrefMaxEntries := by
  unfold pushPreferenceEntry
  split
  · exact .inl rfl
  · next hpass =>
    simp only [Bool.or_eq_true, decide_eq_true_eq, not_or, Bool.not_eq_true] at hpass
    split
    · exact .inl rfl
    · next key hkey =>
      have htrim : key = trim field.1 := by
        rw [boundedTrimmedString, Option.ite_none_left_eq_some] at hkey
        exact (Option.some.inj hkey.2).symm
      obtain ⟨hne, hfix, hbytes⟩ := boundedTrimmedString_eq_some hkey
      dsimp only
      split
      · exact .inl rfl
      · next hval =>
        refine .inr ⟨_, rfl, ⟨?_, hne, hfix, hbytes, not_lt.mp hval⟩, by omega⟩
        rw [isSecretUserPreferenceKey, hfix, htrim]
        exact hpass.2

theorem accepted_entries (object : List (Text × Value)) :
    (userPreferenceEntriesFromObject render object).length ≤ userPrefMaxEntries ∧
      ∀ entry ∈ userPreferenceEntriesFromObject render object, AcceptedEntry entry := by
  have hfold (entries : List (Text × Text)) (hlen : entries.length ≤ userPrefMaxEntries)
      (hok : ∀ entry ∈ entries, AcceptedEntry entry) :
      (object.foldl (pushPreferenceEntry render) entries).length ≤ userPrefMaxEntries ∧
        ∀ entry ∈ object.foldl (pushPreferenceEntry render) entries, AcceptedEntry entry := by
    induction object generalizing entries with
    | nil => exact ⟨hlen, hok⟩
    | cons field object ih =>
      rw [List.foldl_cons]
      rcases pushPreferenceEntry_cases render entries field with
        hsame | ⟨entry, hpush, hentry, hlt⟩
      · rw [hsame]
        exact ih entries hlen hok
      · rw [hpush]
        refine ih _ ?_ fun e he => ?_
        · rw [List.length_append, List.length_singleton]
          omega
        · rcases List.mem_append.mp he with he | he
          · exact hok e he
          · exact List.mem_singleton.mp he ▸ hentry
  exact hfold [] (Nat.zero_le _) (by simp)

theorem isSecret_tokenKey : isSecretUserPreferenceKey realDebridTokenPrefKey = true := by
  decide

variable (render) in
/-- A generic write never touches a row under the token key itself. -/
theorem get_writePreferences_token (server : Server) (userId u : Int) (object : List (Text × Value)) :
    (server.writePreferences render userId object).prefs.get (u, realDebridTokenPrefKey) =
      server.prefs.get (u, realDebridTokenPrefKey) := by
  have hnone : (userPreferenceEntriesFromObject render object).reverse.lookup
      realDebridTokenPrefKey = none := by
    rw [List.lookup_eq_none_iff]
    intro entry he
    have hok := (accepted_entries object).2 entry (List.mem_reverse.mp he)
    rw [bne_iff_ne]
    intro hkey
    have hsecret := hok.notSecret
    rw [← hkey, isSecret_tokenKey] at hsecret
    exact Bool.noConfusion hsecret
  rw [Server.writePreferences, get_upsertUserPreferences, hnone]
  simp

/-- The last change of a key decides; other keys and users are left alone. -/
theorem get_foldl_applyPreferenceChange (changes : List PreferenceChange) (prefs : PreferenceTable)
    (userId u : Int) (k : Text) :
    (changes.foldl (applyPreferenceChange userId) prefs).get (u, k) =
      if u = userId then (changes.reverse.lookup k).getD (prefs.get (u, k))
      else prefs.get (u, k) := by
  induction changes generalizing prefs with
  | nil => simp
  | cons change changes ih =>
    obtain ⟨key, value⟩ := change
    have hchange : (applyPreferenceChange userId prefs (key, value)).get (u, k) =
        if (u, k) = (userId, key) then value else prefs.get (u, k) := by
      cases value with
      | some value => exact get_setPreference value
      | none =>
        rw [applyPreferenceChange, get_deleteWhere]
        split
        · next he => cases prefs.get (u, k) <;> simp [he]
        · next he => exact filter_keep fun r _ => by simp [he]
    rw [List.foldl_cons, ih, hchange]
    by_cases hu : u = userId
    · by_cases hk : k = key
      · subst hu hk
        cases hl : changes.reverse.lookup k <;> simp [List.lookup_append, hl]
      · simp [hu, hk, List.lookup_append, List.lookup_cons, beq_false_of_ne hk]
    · simp [hu]

/-- What a planned change can be. -/
inductive PlannedChange (encrypt : Text → Except ApiError Text) : PreferenceChange → Prop where
  | enabled (flag : Bool) : PlannedChange encrypt (realDebridEnabledPrefKey, some (flagText flag))
  | localTorrent (flag : Bool) :
    PlannedChange encrypt (localTorrentEnabledPrefKey, some (flagText flag))
  | clearToken : PlannedChange encrypt (realDebridTokenPrefKey, none)
  | setToken {apiKey encrypted : Text} (valid : isValidRealDebridApiKey apiKey = true)
    (sealed : encrypt apiKey = .ok encrypted) :
    PlannedChange encrypt (realDebridTokenPrefKey, some encrypted)

variable {validated : Except ApiError Unit} {encryptKey : Text → Except ApiError Text}
  {payload : Value} {changes : List PreferenceChange} {configuredBefore : Bool}

theorem planned_tokenChange {apiKey : Option Text}
    (h : realDebridTokenChange validated encryptKey apiKey = .ok changes) :
    ∀ change ∈ changes, PlannedChange encryptKey change := by
  unfold realDebridTokenChange at h
  split at h
  · obtain rfl := Except.ok.inj h
    simp
  · next apiKey =>
    split at h
    · obtain rfl := Except.ok.inj h
      intro change hm
      exact List.mem_singleton.mp hm ▸ .clearToken
    · split at h
      · simp at h
      · next hvalid =>
        obtain ⟨-, -, h⟩ := bind_eq_ok.mp h
        obtain ⟨encrypted, henc, h⟩ := bind_eq_ok.mp h
        obtain rfl := Except.ok.inj h
        intro change hm
        exact List.mem_singleton.mp hm ▸ .setToken (by simpa using hvalid) henc

/-- Every change of a plan is one of the four. -/
theorem planned_changes
    (h : planRealDebridChanges validated encryptKey configuredBefore payload = .ok changes) :
    ∀ change ∈ changes, PlannedChange encryptKey change := by
  obtain ⟨apiKey, -, h⟩ := bind_eq_ok.mp h
  obtain ⟨plan, -, h⟩ := bind_eq_ok.mp h
  obtain ⟨tokenChange, htoken, h⟩ := bind_eq_ok.mp h
  obtain rfl := Except.ok.inj h
  intro change hm
  rcases List.mem_append.mp hm with hm | hm
  · exact planned_tokenChange htoken change hm
  · rcases List.mem_append.mp hm with hm | hm
    · split at hm
      · exact List.mem_singleton.mp hm ▸ .enabled _
      · simp at hm
    · split at hm
      · simp at hm
      · exact List.mem_singleton.mp hm ▸ .localTorrent _

/-- A commit stores the changes and never an enabled flag without a token. -/
theorem applyRealDebrid_eq_ok {prefs after : PreferenceTable} {userId : Int}
    (h : applyRealDebridPreferenceChanges prefs userId changes = .ok after) :
    after = changes.foldl (applyPreferenceChange userId) prefs ∧
      (changes ≠ [] → (after.get (userId, realDebridEnabledPrefKey)).any guardReadsEnabled = true →
        (after.get (userId, realDebridTokenPrefKey)).isSome = true) := by
  unfold applyRealDebridPreferenceChanges at h
  split at h
  · next hempty =>
    obtain rfl := List.isEmpty_iff.mp hempty
    exact ⟨(Except.ok.inj h).symm, fun hne => absurd rfl hne⟩
  · split at h
    · next tx hguard =>
      obtain rfl := Except.ok.inj h
      unfold applyPreferenceChangesWithRequiredToken at hguard
      simp only [Option.ite_none_left_eq_some, Option.some.injEq, Bool.and_eq_true, not_and,
        Bool.not_eq_true, Bool.not_eq_false'] at hguard
      obtain ⟨hguard, rfl⟩ := hguard
      exact ⟨rfl, fun _ => hguard⟩
    · simp at h

/-- Every update in flight was planned for its user, with that user's encryption. -/
def Server.PlannedBy (encrypt : ν → Int → Text → Except ApiError Text) (server : Server) : Prop :=
  ∀ update ∈ server.planned, ∃ draw, ∀ change ∈ update.2,
    PlannedChange (encrypt draw update.1) change

variable (render) in
/-- What one request can do to the stored preferences. -/
theorem step_cases {server : Server} (request : SettingsRequest ν) (h : server.PlannedBy encrypt) :
    (∃ userId object, request.preferences = some (userId, object) ∧
      server.step render encrypt request = server.writePreferences render userId object) ∨
    request.preferences = none ∧
      ((server.step render encrypt request).prefs = server.prefs ∨
        ∃ userId changes draw, (∀ change ∈ changes, PlannedChange (encrypt draw userId) change) ∧
          applyRealDebridPreferenceChanges server.prefs userId changes =
            .ok (server.step render encrypt request).prefs) := by
  cases request with
  | putPreferences userId body =>
    simp only [Server.step, Server.handle, SettingsRequest.preferences]
    cases body.asObject with
    | none => exact .inr ⟨rfl, .inl rfl⟩
    | some object => exact .inl ⟨userId, object, rfl, rfl⟩
  | sync userId body =>
    simp only [Server.step, Server.handle, SettingsRequest.preferences]
    cases (body.get "preferences".toList).bind Value.asObject with
    | none => exact .inr ⟨rfl, .inl rfl⟩
    | some object => exact .inl ⟨userId, object, rfl, rfl⟩
  | planRealDebrid userId body validated draw =>
    refine .inr ⟨rfl, .inl ?_⟩
    simp only [Server.step, Server.handle]
    split <;> rfl
  | commitRealDebrid index =>
    refine .inr ⟨rfl, ?_⟩
    simp only [Server.step, Server.handle]
    split
    · exact .inl rfl
    · next update hupdate =>
      obtain ⟨draw, hdraw⟩ := h update (List.mem_of_getElem? hupdate)
      split
      · exact .inl rfl
      · next prefs hcommit => exact .inr ⟨update.1, update.2, draw, hdraw, hcommit⟩

theorem plannedBy_step {server : Server} (request : SettingsRequest ν) (h : server.PlannedBy encrypt) :
    (server.step render encrypt request).PlannedBy encrypt := by
  cases request with
  | putPreferences userId body =>
    simp only [Server.step, Server.handle]
    split <;> exact h
  | sync userId body =>
    simp only [Server.step, Server.handle]
    split <;> exact h
  | planRealDebrid userId body validated draw =>
    simp only [Server.step, Server.handle]
    split
    · exact h
    · next changes hplan =>
      intro update hm
      rcases List.mem_append.mp hm with hm | hm
      · exact h update hm
      · rw [List.mem_singleton.mp hm]
        exact ⟨draw, planned_changes hplan⟩
  | commitRealDebrid index =>
    have hrest : ∀ update ∈ server.planned.eraseIdx index, ∃ draw, ∀ change ∈ update.2,
        PlannedChange (encrypt draw update.1) change := fun update hm =>
      h update (List.mem_of_mem_eraseIdx hm)
    simp only [Server.step, Server.handle]
    split
    · exact h
    · split <;> exact hrest

end StreamArena.Preferences
