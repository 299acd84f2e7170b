import StreamArena.Accounts.Requests

/-! Sessions and what their logins verified: the commits that replace a password, an
enabled state or a privilege delete the sessions there are, while a login in flight
makes its session later. -/
namespace StreamArena.Accounts
open AsciiText KeyedTable Calls Runs

/-- A commit that replaces something a session of the user was minted under. -/
def LedgerEntry.Revokes (userId : Int) : LedgerEntry → Prop
  | .passwordChanged changed _ _ => changed = userId
  | .disabled changed => changed = userId
  | .privilegeChanged changed => changed = userId
  | _ => False

/-- Nothing a login verified has been replaced since. -/
structure Mint.Current (ledger : List LedgerEntry) (userId : Int) (mint : Mint) : Prop where
  password : ∀ authority now, .passwordChanged userId authority now ∉ since mint.readAt ledger
  enabled : .disabled userId ∉ since mint.allowedAt ledger
  privilege : .privilegeChanged userId ∉ since mint.allowedAt ledger

/-- No session outlives what its login verified. -/
def SessionsCurrent (s : AccountStore) : Prop :=
  ∀ hash row mint, s.db.sessions.get hash = some row → s.mints hash = some mint →
    mint.Current s.ledger row.userId

/-- A login that makes its session makes it while what it verified stands. -/
def CreatesCurrent (env : Primitives) (s : AccountStore) (call : AccountCall) (input : StepInput) :
    Prop :=
  match call with
  | .loginAllowed userId mint =>
    s.db.hasUser userId = true → s.db.sessions.get (env.sha256Hex input.random) = none →
      mint.Current s.ledger userId
  | _ => True

/-- A mint is from the history there is. -/
def Mint.Within (mint : Mint) (length : Nat) : Prop :=
  mint.readAt ≤ length ∧ mint.allowedAt ≤ length

def MintsWithin (s : AccountStore) : Prop :=
  ∀ hash mint, s.mints hash = some mint → mint.Within s.ledger.length

def CallWithin (s : AccountStore) : AccountCall → Prop
  | .loginRead _ _ _ readAt => readAt ≤ s.ledger.length
  | .loginVerified _ readAt => readAt ≤ s.ledger.length
  | .loginAllowed _ mint => mint.Within s.ledger.length
  | _ => True

/-- A step that makes no session, and deletes those it revokes. -/
structure RevokingStep (s after : AccountStore) (entries : List LedgerEntry) : Prop where
  mints : after.mints = s.mints
  ledger : after.ledger = entries ++ s.ledger
  kept : ∀ hash row, after.db.sessions.get hash = some row →
    s.db.sessions.get hash = some row ∧ ∀ e ∈ entries, ¬e.Revokes row.userId

variable {env : Primitives} {s after : AccountStore} {input : StepInput} {call : AccountCall}
  {entries ledger : List LedgerEntry} {userId : Int} {mint : Mint}

theorem Mint.Current.append (h : mint.Current ledger userId) (hwithin : mint.Within ledger.length)
    (hentries : ∀ e ∈ entries, ¬e.Revokes userId) : mint.Current (entries ++ ledger) userId where
  password := fun authority now hmem => by
    rw [since_append _ hwithin.1, List.mem_append] at hmem
    exact hmem.elim (fun he => hentries _ he rfl) (h.password authority now)
  enabled := fun hmem => by
    rw [since_append _ hwithin.2, List.mem_append] at hmem
    exact hmem.elim (fun he => hentries _ he rfl) h.enabled
  privilege := fun hmem => by
    rw [since_append _ hwithin.2, List.mem_append] at hmem
    exact hmem.elim (fun he => hentries _ he rfl) h.privilege

theorem SessionsCurrent.revoking (hs : SessionsCurrent s) (hwithin : MintsWithin s)
    (hstep : RevokingStep s after entries) : SessionsCurrent after := by
  intro hash row mint hrow hmint
  obtain ⟨hold, hentries⟩ := hstep.kept hash row hrow
  rw [hstep.mints] at hmint
  rw [hstep.ledger]
  exact (hs hash row mint hold hmint).append (hwithin hash mint hmint) hentries

theorem RevokingStep.quiet (s : AccountStore) : RevokingStep s s [] :=
  ⟨rfl, rfl, fun _ _ hrow => ⟨hrow, nofun⟩⟩

/-- A commit that leaves the sessions alone and replaces nothing. -/
theorem RevokingStep.unrelated {db : AccountsDb} (hsessions : db.sessions = s.db.sessions)
    (hentries : ∀ e ∈ entries, ∀ userId, ¬e.Revokes userId) :
    RevokingStep s (s.commit db entries) entries where
  mints := rfl
  ledger := rfl
  kept := fun hash row hrow => by
    rw [AccountStore.commit, hsessions] at hrow
    exact ⟨hrow, fun e he => hentries e he row.userId⟩

/-- A commit that clears a user's sessions if the user exists. -/
theorem RevokingStep.clearing (updated : AccountsDb) {db : AccountsDb} {entry : LedgerEntry}
    (hupdated : updated.sessions = s.db.sessions)
    (hdb : db.sessions = if s.db.hasUser userId then (updated.clearSessions userId).sessions
      else updated.sessions)
    (hentry : ∀ other, entry.Revokes other → userId = other) :
    RevokingStep s (s.commit db (s.entryFor userId entry)) (s.entryFor userId entry) where
  mints := rfl
  ledger := rfl
  kept := fun hash row hrow => by
    rw [AccountStore.commit, hdb] at hrow
    rw [AccountStore.entryFor]
    split at hrow
    · next huser =>
      obtain ⟨hold, hother⟩ := session_of_cleared hrow
      rw [hupdated] at hold
      refine ⟨hold, fun e he hrevokes => hother ?_⟩
      rw [if_pos huser, List.mem_singleton] at he
      exact (hentry row.userId (he ▸ hrevokes)).symm
    · next huser =>
      rw [hupdated] at hrow
      rw [if_neg huser]
      exact ⟨hrow, fun e he => absurd he List.not_mem_nil⟩

theorem RevokingStep.replacePassword (s : AccountStore) (userId : Int) (passwordHash : Text)
    (authority : Option Issue) (now : Int) :
    RevokingStep s (s.commit (s.db.replacePassword userId passwordHash now)
      (s.entryFor userId (.passwordChanged userId authority now)))
      (s.entryFor userId (.passwordChanged userId authority now)) := by
  refine .clearing (s.db.updateUser userId fun user =>
    { user with passwordHash := passwordHash, updatedAt := now }) rfl ?_ fun _ h => h
  rw [AccountsDb.replacePassword]
  split <;> rfl

/-- Every step but the last one of a login. -/
theorem nextStep_revoking (env : Primitives) (s : AccountStore) (input : StepInput)
    (hcall : ∀ userId mint, call ≠ .loginAllowed userId mint) :
    ∃ entries, RevokingStep s (nextStep env s input call).1 entries := by
  cases call with
  | loginReceived email password =>
    simp only [nextStep]
    split <;> exact ⟨[], .quiet s⟩
  | loginRead userId passwordHash password readAt => exact ⟨[], .quiet s⟩
  | loginVerified userId readAt => exact ⟨[], .quiet s⟩
  | loginAllowed userId mint => exact absurd rfl (hcall userId mint)
  | forgotReceived email =>
    simp only [nextStep]
    split <;> exact ⟨[], .quiet s⟩
  | forgotRead userId =>
    simp only [nextStep, forgotReadStep]
    split
    · next db hdb =>
      exact ⟨_, .unrelated (createPasswordResetToken_eq_some hdb).2.1 (by simp [LedgerEntry.Revokes])⟩
    · exact ⟨[], .quiet s⟩
  | resetReceived token password =>
    simp only [nextStep]
    split
    · exact ⟨[], .quiet s⟩
    · simp only [resetReceivedStep]
      split
      · exact ⟨_, .unrelated rfl nofun⟩
      · exact ⟨_, .unrelated rfl (by simp [LedgerEntry.Revokes])⟩
  | resetConsumed userId expiresAt password authority => exact ⟨[], .quiet s⟩
  | resetHashed userId passwordHash authority => exact ⟨_, .replacePassword s userId passwordHash authority _⟩
  | passwordReceived userId password => exact ⟨[], .quiet s⟩
  | passwordHashed userId passwordHash => exact ⟨_, .replacePassword s userId passwordHash none _⟩
  | settingDisabled userId disabled =>
    cases disabled with
    | false => exact ⟨[], .unrelated rfl nofun⟩
    | true =>
      refine ⟨_, .clearing (s.db.updateUser userId fun user =>
        { user with isDisabled := true, updatedAt := input.now }) rfl ?_ fun _ h => h⟩
      simp only [AccountsDb.adminSetDisabled, Bool.true_and]
      split <;> rfl
  | settingAdmin userId isAdmin =>
    refine ⟨_, .clearing (s.db.updateUser userId fun user =>
      { user with isAdmin := isAdmin, updatedAt := input.now }) rfl ?_ fun _ h => h⟩
    rw [AccountsDb.adminSetAdmin]
    split <;> rfl

theorem loginAllowedStep_ledger : (loginAllowedStep env s input userId mint).ledger = s.ledger := by
  rw [loginAllowedStep]
  split <;> rfl

theorem nextStep_ledger_length :
    s.ledger.length ≤ (nextStep env s input call).1.ledger.length := by
  by_cases hcall : ∃ userId mint, call = .loginAllowed userId mint
  · obtain ⟨userId, mint, rfl⟩ := hcall
    exact le_of_eq (congrArg List.length loginAllowedStep_ledger).symm
  · obtain ⟨entries, hstep⟩ := nextStep_revoking env s input
      fun userId mint h => hcall ⟨userId, mint, h⟩
    rw [hstep.ledger, List.length_append]
    omega

theorem Mint.Within.mono {m n : Nat} (h : mint.Within m) (hle : m ≤ n) : mint.Within n :=
  ⟨h.1.trans hle, h.2.trans hle⟩

theorem CallWithin.mono (h : CallWithin s call) (hle : s.ledger.length ≤ after.ledger.length) :
    CallWithin after call := by
  cases call with
  | loginRead userId passwordHash password readAt => exact le_trans h hle
  | loginVerified userId readAt => exact le_trans h hle
  | loginAllowed userId mint => exact Mint.Within.mono h hle
  | _ => trivial

/-- A login's last step: a session of its own under a free hash, or nothing. -/
theorem loginAllowedStep_cases (env : Primitives) (s : AccountStore) (input : StepInput) (userId : Int)
    (mint : Mint) :
    (loginAllowedStep env s input userId mint = s ∧
      ¬(s.db.hasUser userId = true ∧ s.db.sessions.get (env.sha256Hex input.random) = none)) ∨
    (s.db.hasUser userId = true ∧ s.db.sessions.get (env.sha256Hex input.random) = none ∧
      ∃ db, loginAllowedStep env s input userId mint =
          s.commitSession db (env.sha256Hex input.random) mint ∧
        ∀ hash, db.sessions.get hash = if hash = env.sha256Hex input.random then
          some ⟨userId, input.now, input.now + sessionMaxAgeSeconds * 1000⟩
          else s.db.sessions.get hash) := by
  rw [loginAllowedStep]
  split
  · next db hdb =>
    obtain ⟨hfree, -, -, hget⟩ := createSession_eq_some hdb
    refine .inr ⟨?_, hfree, db, rfl, hget⟩
    rw [AccountsDb.createSession] at hdb
    rw [AccountsDb.hasUser]
    split at hdb
    · next huser _ => rw [huser]; rfl
    · cases hdb
  · next hdb =>
    refine .inl ⟨rfl, fun hboth => ?_⟩
    obtain ⟨huser, hfree⟩ := hboth
    obtain ⟨user, huser⟩ := Option.isSome_iff_exists.mp huser
    rw [AccountsDb.createSession, huser, hfree] at hdb
    cases hdb

theorem mintsWithin_next (hs : MintsWithin s) (hcall : CallWithin s call) :
    MintsWithin (nextStep env s input call).1 := by
  by_cases hlogin : ∃ userId mint, call = .loginAllowed userId mint
  · obtain ⟨userId, mint, rfl⟩ := hlogin
    rcases loginAllowedStep_cases env s input userId mint with ⟨hstep, -⟩ | ⟨-, -, db, hstep, -⟩
    · rw [nextStep, hstep]
      exact hs
    · simp only [nextStep, hstep]
      intro hash mint' hmint
      rcases eq_or_ne hash (env.sha256Hex input.random) with rfl | hne
      · rw [mints_commitSession, Function.update_self] at hmint
        exact Option.some.inj hmint ▸ hcall
      · rw [mints_commitSession, Function.update_of_ne hne] at hmint
        exact hs hash mint' hmint
  · obtain ⟨entries, hstep⟩ := nextStep_revoking env s input
      fun userId mint h => hlogin ⟨userId, mint, h⟩
    intro hash mint hmint
    rw [hstep.mints] at hmint
    exact (hs hash mint hmint).mono nextStep_ledger_length

theorem accountRequests_keeps : (accountRequests env).Keeps MintsWithin CallWithin where
  start := fun _ request _ => by cases request <;> trivial
  store := fun _ _ _ hs hcall => mintsWithin_next hs hcall
  own := fun s call input call' _ hcall hnext => by
    suffices h : CallWithin s call' from h.mono nextStep_ledger_length
    cases call with
    | loginReceived email password =>
      simp only [accountRequests, nextStep] at hnext
      split at hnext
      · cases hnext
      · obtain ⟨user, -, rfl⟩ := Option.map_eq_some_iff.mp hnext
        exact le_rfl
    | loginRead userId passwordHash password readAt =>
      obtain ⟨-, hnext⟩ := Option.ite_none_right_eq_some.mp hnext
      rw [← Option.some.inj hnext]
      exact hcall
    | loginVerified userId readAt =>
      obtain ⟨-, hnext⟩ := Option.ite_none_left_eq_some.mp hnext
      rw [← Option.some.inj hnext]
      exact ⟨hcall, le_rfl⟩
    | forgotReceived email =>
      simp only [accountRequests, nextStep] at hnext
      split at hnext
      · cases hnext
      · obtain ⟨user, -, rfl⟩ := Option.map_eq_some_iff.mp hnext
        trivial
    | resetReceived token password =>
      simp only [accountRequests, nextStep, resetReceivedStep] at hnext
      split at hnext
      · cases hnext
      · split at hnext
        · cases hnext
        · rw [← Option.some.inj hnext]
          trivial
    | resetConsumed userId expiresAt password authority =>
      obtain ⟨-, hnext⟩ := Option.ite_none_left_eq_some.mp hnext
      rw [← Option.some.inj hnext]
      trivial
    | passwordReceived userId password =>
      obtain ⟨-, hnext⟩ := Option.ite_none_left_eq_some.mp hnext
      rw [← Option.some.inj hnext]
      trivial
    | loginAllowed userId mint => cases hnext
    | forgotRead userId => cases hnext
    | resetHashed userId passwordHash authority => cases hnext
    | passwordHashed userId passwordHash => cases hnext
    | settingDisabled userId disabled => cases hnext
    | settingAdmin userId isAdmin => cases hnext
  frame := fun _ _ _ _ _ _ hother => hother.mono nextStep_ledger_length

/-- Only a login's last step can leave a session that is not current. -/
theorem sessionsCurrent_next (hwithin : MintsWithin s) (hs : SessionsCurrent s) :
    SessionsCurrent (nextStep env s input call).1 ↔ CreatesCurrent env s call input := by
  by_cases hlogin : ∃ userId mint, call = .loginAllowed userId mint
  · obtain ⟨userId, mint, rfl⟩ := hlogin
    simp only [nextStep, CreatesCurrent]
    rcases loginAllowedStep_cases env s input userId mint with
      ⟨hstep, hnone⟩ | ⟨huser, hfree, db, hstep, hget⟩
    · rw [hstep]
      exact iff_of_true hs fun huser hfree => absurd ⟨huser, hfree⟩ hnone
    · rw [hstep]
      constructor
      · intro h _ _
        exact h (env.sha256Hex input.random) _ mint ((hget _).trans (if_pos rfl))
          (Function.update_self ..)
      · intro h hash row mint' hrow hmint
        have hrow' := (hget hash).symm.trans hrow
        rcases eq_or_ne hash (env.sha256Hex input.random) with rfl | hne
        · rw [if_pos rfl] at hrow'
          rw [mints_commitSession, Function.update_self] at hmint
          rw [← Option.some.inj hrow', ← Option.some.inj hmint]
          exact h huser hfree
        · rw [if_neg hne] at hrow'
          rw [mints_commitSession, Function.update_of_ne hne] at hmint
          exact hs hash row mint' hrow' hmint
  · obtain ⟨entries, hstep⟩ := nextStep_revoking env s input
      fun userId mint h => hlogin ⟨userId, mint, h⟩
    refine iff_of_true (hs.revoking hwithin hstep) ?_
    cases call with
    | loginAllowed userId mint => exact absurd ⟨userId, mint, rfl⟩ hlogin
    | _ => trivial

/-- No session outlives what its login verified exactly when every login makes its
session before a commit replaces what it verified. -/
theorem login_sessions_current_iff (env : Primitives) (db : AccountsDb)
    (events : List (Event AccountRequest StepInput)) :
    Throughout (accountRequests env).step (fun w => SessionsCurrent w.store) (.idle { db := db }) events ↔
      Each (accountRequests env).step (Allowed (CreatesCurrent env)) (.idle { db := db }) events :=
  accountRequests_keeps.apart.throughout_iff (fun _ _ _ hwithin _ hs => sessionsCurrent_next hwithin hs)
    (World.sound_idle fun _ _ h => absurd h.symm (Option.some_ne_none _))
    fun _ _ _ _ h => absurd h.symm (Option.some_ne_none _)

/-- An administrator sets a new password between a login's last two steps. -/
def loginAcrossChange : List (Event AccountRequest StepInput) :=
  Event.begin 0 (AccountRequest.login "ada@example.org".toList "old secret".toList) ::
    List.replicate 3 (Event.advance 0 ⟨1000, []⟩) ++
    Event.begin 1 (AccountRequest.adminResetPassword 1 "new secret".toList) ::
    List.replicate 2 (Event.advance 1 ⟨2000, []⟩) ++ [Event.advance 0 ⟨3000, "cookie".toList⟩]

theorem login_outlives_password :
    ¬∀ db events, Throughout (accountRequests plainPrimitives).step
      (fun w => SessionsCurrent w.store) (.idle { db := db }) events := by
  intro h
  have hlast := (h oneAccount loginAcrossChange).last
  have hrow : (loginAcrossChange.foldl (accountRequests plainPrimitives).step
      (.idle { db := oneAccount })).store.db.sessions.get "cookie".toList =
        some ⟨1, 3000, 2592003000⟩ := by rfl
  have hmint : (loginAcrossChange.foldl (accountRequests plainPrimitives).step
      (.idle { db := oneAccount })).store.mints "cookie".toList = some ⟨0, 0⟩ := by rfl
  exact (hlast _ _ _ hrow hmint).password none 2000 (by decide +kernel)

end StreamArena.Accounts
