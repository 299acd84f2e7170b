import StreamArena.Library.Runs
import StreamArena.Preferences.RealDebridSettings

/-! The enabled flag against the token: the Real-Debrid transaction keeps them
together, a generic write does so exactly when the flag it leaves is read alike by
both readers and stands beside a token if it reads as true. -/
namespace StreamArena.Preferences
open AsciiText KeyedTable JsonValue Routes Runs

/-- A stored flag that reads as true has a token, and both readers agree on it. -/
structure FlagHolds (prefs : PreferenceTable) : Prop where
  token : ∀ userId value, prefs.get (userId, realDebridEnabledPrefKey) = some value →
    normalizeBoolPreference value = true → (prefs.get (userId, realDebridTokenPrefKey)).isSome = true
  readings : ∀ userId value, prefs.get (userId, realDebridEnabledPrefKey) = some value →
    guardReadsEnabled value = normalizeBoolPreference value

/-- A body that says nothing about Real-Debrid itself. -/
structure ChangesOnlyLocalTorrent (body : Value) : Prop where
  apiKey : body.get "apiKey".toList = none
  token : body.get "token".toList = none
  realDebridApiKey : body.get "realDebridApiKey".toList = none
  enabled : body.get "enabled".toList = none
  realDebridEnabled : body.get "realDebridEnabled".toList = none

/-- Such a body is planned whatever the handler read, and its commit is not refused. -/
def LocalTorrentAccepted (prefs : PreferenceTable) : Prop :=
  ∀ (userId : Int) (body : Value) (validated : Except ApiError Unit)
    (encrypt : Text → Except ApiError Text) (configuredBefore : Bool),
    ChangesOnlyLocalTorrent body → ∃ changes after,
      planRealDebridChanges validated encrypt configuredBefore body = .ok changes ∧
        applyRealDebridPreferenceChanges prefs userId changes = .ok after

/-- The flag a generic write leaves is read alike, and as true only beside a token. -/
def SafeWrite (prefs : PreferenceTable) (userId : Int) (entries : List (Text × Text)) : Prop :=
  ∀ value, entries.reverse.lookup realDebridEnabledPrefKey = some value →
    guardReadsEnabled value = normalizeBoolPreference value ∧
      (normalizeBoolPreference value = true →
        (prefs.get (userId, realDebridTokenPrefKey)).isSome = true)

variable {ν : Type*} {render : Value → Text} {encrypt : ν → Int → Text → Except ApiError Text}

def SafeRequest (render : Value → Text) (server : Server) (request : SettingsRequest ν) : Prop :=
  ∀ userId object, request.preferences = some (userId, object) →
    SafeWrite server.prefs userId (userPreferenceEntriesFromObject render object)

variable {server : Server} {prefs after : PreferenceTable} {userId : Int}
  {changes : List PreferenceChange}

theorem flagHolds_writePreferences (h : FlagHolds server.prefs) (object : List (Text × Value)) :
    FlagHolds (server.writePreferences render userId object).prefs ↔
      SafeWrite server.prefs userId (userPreferenceEntriesFromObject render object) := by
  have hflag (u : Int) := get_upsertUserPreferences server.prefs userId
    (userPreferenceEntriesFromObject render object) u realDebridEnabledPrefKey
  have htoken (u : Int) := get_writePreferences_token render server userId u object
  constructor
  · intro hafter value hvalue
    have hget : (server.writePreferences render userId object).prefs.get
        (userId, realDebridEnabledPrefKey) = some value := by
      refine (hflag userId).trans ?_
      rw [if_pos rfl, hvalue, Option.some_or]
    exact ⟨hafter.readings userId value hget, fun htrue =>
      htoken userId ▸ hafter.token userId value hget htrue⟩
  · intro hsafe
    have hcases (u : Int) (value : Text) (hget : (server.writePreferences render userId object).prefs.get
        (u, realDebridEnabledPrefKey) = some value) :
        guardReadsEnabled value = normalizeBoolPreference value ∧
          (normalizeBoolPreference value = true →
            (server.prefs.get (u, realDebridTokenPrefKey)).isSome = true) := by
      replace hget := (hflag u).symm.trans hget
      have hold (hget : server.prefs.get (u, realDebridEnabledPrefKey) = some value) :=
        And.intro (h.readings u value hget) (h.token u value hget)
      split at hget
      · next hu =>
        rw [Option.or_eq_some_iff] at hget
        rcases hget with hnew | ⟨-, hget⟩
        · exact hu ▸ hsafe value hnew
        · exact hold hget
      · exact hold hget
    exact ⟨fun u value hget htrue => (htoken u).symm ▸ (hcases u value hget).2 htrue,
      fun u value hget => (hcases u value hget).1⟩

theorem readings_flagText (flag : Bool) :
    guardReadsEnabled (flagText flag) = normalizeBoolPreference (flagText flag) := by
  cases flag <;> decide

theorem planned_enabled {encryptKey : Text → Except ApiError Text} {change : Option Text}
    (h : PlannedChange encryptKey (realDebridEnabledPrefKey, change)) :
    ∃ flag, change = some (flagText flag) := by
  generalize hk : realDebridEnabledPrefKey = key at h
  cases h with
  | enabled flag => exact ⟨flag, rfl⟩
  | localTorrent flag => exact absurd hk (by decide)
  | clearToken => exact absurd hk (by decide)
  | setToken valid sealed => exact absurd hk (by decide)

/-- The transaction keeps the invariant whatever it was planned from. -/
theorem flagHolds_commit (h : FlagHolds prefs) {encryptKey : Text → Except ApiError Text}
    (hplan : ∀ change ∈ changes, PlannedChange encryptKey change)
    (hcommit : applyRealDebridPreferenceChanges prefs userId changes = .ok after) :
    FlagHolds after := by
  obtain ⟨hafter, hguard⟩ := applyRealDebrid_eq_ok hcommit
  by_cases hempty : changes = []
  · subst hempty
    exact hafter ▸ h
  replace hguard := hguard hempty
  have hget (u : Int) (k : Text) : after.get (u, k) = _ :=
    hafter ▸ get_foldl_applyPreferenceChange changes prefs userId u k
  have hreadings (u : Int) (value : Text)
      (hv : after.get (u, realDebridEnabledPrefKey) = some value) :
      guardReadsEnabled value = normalizeBoolPreference value := by
    rw [hget] at hv
    split at hv
    · cases hl : changes.reverse.lookup realDebridEnabledPrefKey with
      | none =>
        rw [hl] at hv
        exact h.readings u value hv
      | some change =>
        rw [hl] at hv
        obtain rfl : change = some value := hv
        obtain ⟨before, rest, hsplit, -⟩ := List.lookup_eq_some_iff.mp hl
        have hm : (realDebridEnabledPrefKey, some value) ∈ changes :=
          List.mem_reverse.mp (hsplit ▸ List.mem_append_right before List.mem_cons_self)
        obtain ⟨flag, hflag⟩ := planned_enabled (hplan _ hm)
        obtain rfl := Option.some.inj hflag
        exact readings_flagText flag
    · exact h.readings u value hv
  refine ⟨fun u value hv htrue => ?_, hreadings⟩
  by_cases hu : u = userId
  · subst hu
    refine hguard ?_
    rw [hv]
    exact (hreadings u value hv).trans htrue
  · rw [hget, if_neg hu] at hv ⊢
    exact h.token u value hv htrue

theorem plan_localTorrent {body : Value} (h : ChangesOnlyLocalTorrent body)
    (validated : Except ApiError Unit) (encryptKey : Text → Except ApiError Text)
    (configuredBefore : Bool) :
    ∃ changes, planRealDebridChanges validated encryptKey configuredBefore body = .ok changes ∧
      ∀ change ∈ changes, change.1 = localTorrentEnabledPrefKey := by
  have hkey : realDebridApiKeyField body = .ok none := by
    rw [realDebridApiKeyField, h.apiKey, h.token, h.realDebridApiKey]
    rfl
  have hrequested : requestedEnabledField body = none := by
    rw [requestedEnabledField, h.enabled, h.realDebridEnabled]
    rfl
  have hplan : planRealDebridUpdate configuredBefore none none =
      .ok (configuredBefore, configuredBefore) := by
    cases configuredBefore <;> rfl
  rw [planRealDebridChanges, hkey, hrequested]
  refine ⟨_, bind_eq_ok.mpr ⟨none, rfl, bind_eq_ok.mpr ⟨_, hplan, rfl⟩⟩, fun change hm => ?_⟩
  rw [if_neg (by simp), List.nil_append, List.nil_append] at hm
  split at hm
  · simp at hm
  · rw [List.mem_singleton.mp hm]

/-- Beside the flag, no refusal is left for a body without Real-Debrid fields. -/
theorem localTorrentAccepted_of_flagHolds (h : FlagHolds prefs) : LocalTorrentAccepted prefs := by
  intro userId body validated encryptKey configuredBefore hbody
  obtain ⟨changes, hplan, hkeys⟩ := plan_localTorrent hbody validated encryptKey configuredBefore
  refine ⟨changes, ?_⟩
  have hsame (k : Text) (hk : k ≠ localTorrentEnabledPrefKey) :
      (changes.foldl (applyPreferenceChange userId) prefs).get (userId, k) = prefs.get (userId, k) := by
    have hnone : changes.reverse.lookup k = none := by
      rw [List.lookup_eq_none_iff]
      intro change hm
      rw [bne_iff_ne, hkeys change (List.mem_reverse.mp hm)]
      exact hk
    rw [get_foldl_applyPreferenceChange, hnone, if_pos rfl, Option.getD_none]
  have hguard : ((prefs.get (userId, realDebridEnabledPrefKey)).any guardReadsEnabled &&
      !(prefs.get (userId, realDebridTokenPrefKey)).isSome) = false := by
    cases hv : prefs.get (userId, realDebridEnabledPrefKey) with
    | none => rfl
    | some value =>
      cases hread : guardReadsEnabled value with
      | false => simp [hread]
      | true => simp [h.token userId value hv ((h.readings userId value hv).symm.trans hread)]
  unfold applyRealDebridPreferenceChanges
  split
  · exact ⟨prefs, hplan, rfl⟩
  · rw [applyPreferenceChangesWithRequiredToken, hsame _ (by decide),
      hsame _ (by decide), hguard]
    exact ⟨_, hplan, rfl⟩

/-- One request keeps the flag and token together iff it is safe. -/
theorem flagHolds_step (request : SettingsRequest ν) (hplanned : server.PlannedBy encrypt)
    (h : FlagHolds server.prefs) :
    FlagHolds (server.step render encrypt request).prefs ↔ SafeRequest render server request := by
  obtain ⟨userId, object, hwrite, hstep⟩ | ⟨hnone, hstep⟩ :=
    step_cases render request hplanned
  · rw [hstep, flagHolds_writePreferences h, SafeRequest, hwrite]
    constructor
    · rintro hsafe u o he
      obtain ⟨rfl, rfl⟩ := Prod.mk.inj (Option.some.inj he)
      exact hsafe
    · intro hsafe
      exact hsafe userId object rfl
  · have hsafe : SafeRequest render server request := by
      intro userId object he
      simp [hnone] at he
    refine iff_of_true ?_ hsafe
    rcases hstep with hsame | ⟨userId, changes, draw, hplan, hcommit⟩
    · exact hsame ▸ h
    · exact flagHolds_commit h hplan hcommit

variable (render encrypt) in
/-- Over any run of interleaved requests: at every store reached the flag has its token, both
readings agree and a change of the torrent flag alone is accepted, iff the store it began
with was so and every generic write is safe where it happens. -/
theorem flag_needs_token_iff (prefs : PreferenceTable) (requests : List (SettingsRequest ν)) :
    Throughout (Server.step render encrypt)
        (fun server => FlagHolds server.prefs ∧ LocalTorrentAccepted server.prefs)
        { prefs } requests ↔
      FlagHolds prefs ∧ Each (Server.step render encrypt) (SafeRequest render) { prefs } requests := by
  have hstart : Server.PlannedBy encrypt { prefs } := by simp [Server.PlannedBy]
  have hrun : Throughout (Server.step render encrypt) (fun server => FlagHolds server.prefs)
      { prefs } requests ↔
        FlagHolds prefs ∧ Each (Server.step render encrypt) (SafeRequest render) { prefs } requests :=
    throughout_iff_each (fun server request => plannedBy_step request)
      (fun server request => flagHolds_step request) hstart
  constructor
  · intro hall
    exact hrun.mp (hall.imp fun server h => h.1)
  · intro hsafe
    exact (hrun.mpr hsafe).imp fun server h => ⟨h, localTorrentAccepted_of_flagHolds h⟩

/-- A generic write switches the flag on where no token was ever stored. -/
theorem flag_without_token :
    ¬ ∀ (render : Value → Text) (encrypt : Unit → Int → Text → Except ApiError Text)
      (requests : List (SettingsRequest Unit)),
      Throughout (Server.step render encrypt) (fun server => FlagHolds server.prefs)
        { prefs := Table.empty } requests := by
  intro h
  let body := Value.object [(realDebridEnabledPrefKey, .string "1".toList)]
  have hrun := h (fun _ => []) (fun _ _ _ => .ok []) [.putPreferences 1 body]
  have hflag := hrun.2.token 1 "1".toList (by decide +kernel) (by decide +kernel)
  revert hflag
  decide +kernel

end StreamArena.Preferences
