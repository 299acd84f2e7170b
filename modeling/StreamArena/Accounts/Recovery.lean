import StreamArena.Accounts.Requests

/-! Password reset tokens over all interleavings: a token is consumed in one
transaction and sets the password in a later one, with a slow hash in between. -/
namespace StreamArena.Accounts
open AsciiText KeyedTable Calls Runs

/-- A password change that a token authorised. -/
def setsBy (issue : Issue) : LedgerEntry → Bool
  | .passwordChanged _ authority _ => decide (authority = some issue)
  | _ => false

/-- A token still speaks for its account: it has not run out, and no password change of
the account has been committed since it was issued. -/
structure Timely (ledger : List LedgerEntry) (userId : Int) (issue : Issue) (now : Int) : Prop where
  unexpired : now < issue.expiresAt
  current : ∀ authority t, .passwordChanged userId authority t ∉ since issue.stamp ledger

/-- What recovery promises of a history. -/
structure RecoverySound (ledger : List LedgerEntry) : Prop where
  once : ∀ issue, ledger.countP (setsBy issue) ≤ 1
  own : ∀ userId issue now, .passwordChanged userId (some issue) now ∈ ledger →
    issue.userId = userId ∧ .issued issue ∈ ledger
  superseded : ∀ issue newer, .issued issue ∈ ledger → .issued newer ∈ since issue.stamp ledger →
    newer.userId = issue.userId → .presented issue ∉ before newer.stamp ledger →
    ∀ userId now, .passwordChanged userId (some issue) now ∉ ledger
  timely : ∀ post pre userId issue now,
    ledger = post ++ .passwordChanged userId (some issue) now :: pre → Timely pre userId issue now

/-- A reset that writes its password writes it while its token speaks for the account. -/
def ResetsTimely (s : AccountStore) (call : AccountCall) (input : StepInput) : Prop :=
  match call with
  | .resetHashed userId _ (some issue) =>
    s.db.hasUser userId = true → Timely s.ledger userId issue input.now
  | _ => True

/-- A token that lies in the table: not presented, and the newest of its account. -/
structure LiveIssue (ledger : List LedgerEntry) (userId : Int) (issue : Issue) : Prop where
  account : issue.userId = userId
  unpresented : .presented issue ∉ ledger
  latest : ∀ newer, .issued newer ∈ since issue.stamp ledger → newer.userId ≠ userId

/-- What every interleaving keeps of the history and the token table. -/
structure RecoveryInv (s : AccountStore) : Prop where
  stamped : ∀ issue, .issued issue ∈ s.ledger → issue.stamp ≤ s.ledger.length
  presented : ∀ issue, .presented issue ∈ s.ledger → .issued issue ∈ s.ledger
  changed : ∀ userId issue now, .passwordChanged userId (some issue) now ∈ s.ledger →
    issue.userId = userId ∧ .presented issue ∈ s.ledger
  once : ∀ issue, s.ledger.countP (setsBy issue) ≤ 1
  newest : ∀ issue newer, .issued issue ∈ s.ledger → .issued newer ∈ since issue.stamp s.ledger →
    newer.userId = issue.userId → .presented issue ∉ since newer.stamp s.ledger
  rows : ∀ hash row issue, s.db.resetTokens.get hash = some row →
    issueOf s.ledger hash = some issue → LiveIssue s.ledger row.userId issue

/-- A token taken out of the table that has not set a password yet. -/
structure Holds (ledger : List LedgerEntry) (userId : Int) (issue : Issue) : Prop where
  account : issue.userId = userId
  presented : .presented issue ∈ ledger
  unused : ∀ changed now, .passwordChanged changed (some issue) now ∉ ledger

/-- The token a reset in flight holds, with the account it was given. -/
def AccountCall.holder : AccountCall → Option (Int × Issue)
  | .resetConsumed userId _ _ authority => authority.map fun issue => (userId, issue)
  | .resetHashed userId _ authority => authority.map fun issue => (userId, issue)
  | _ => none

def CallHolds (s : AccountStore) (call : AccountCall) : Prop :=
  ∀ userId issue, call.holder = some (userId, issue) → Holds s.ledger userId issue

/-- No two resets hold one token. -/
def HoldersApart (call other : AccountCall) : Prop :=
  ∀ a b, call.holder = some a → other.holder = some b → a.2 ≠ b.2

variable {env : Primitives} {s after : AccountStore} {input : StepInput} {call : AccountCall}
  {e : LedgerEntry} {entries ledger : List LedgerEntry} {userId : Int} {issue : Issue}

theorem issueOf_eq_some {tokenHash : Text} (h : issueOf ledger tokenHash = some issue) :
    .issued issue ∈ ledger ∧ issue.tokenHash = tokenHash := by
  obtain ⟨e, hmem, he⟩ := List.exists_of_findSome?_eq_some h
  cases e with
  | issued found =>
    obtain ⟨hhash, hfound⟩ := Option.ite_none_right_eq_some.mp he
    rw [← Option.some.inj hfound]
    exact ⟨hmem, hhash⟩
  | presented => cases he
  | passwordChanged => cases he
  | disabled => cases he
  | privilegeChanged => cases he

theorem issueOf_cons_other (he : ∀ issue, e ≠ .issued issue) (tokenHash : Text) :
    issueOf (e :: ledger) tokenHash = issueOf ledger tokenHash := by
  cases e with
  | issued issue => exact absurd rfl (he issue)
  | _ => rfl

/-- An entry that is no issue and no presentation, and a token's use only where the
token is held. -/
def Follows (ledger : List LedgerEntry) : LedgerEntry → Prop
  | .issued _ => False
  | .presented _ => False
  | .passwordChanged userId (some issue) _ => Holds ledger userId issue
  | _ => True

theorem Follows.not_issued (he : Follows ledger e) (issue : Issue) : e ≠ .issued issue := by
  rintro rfl
  exact he

theorem Follows.not_presented (he : Follows ledger e) (issue : Issue) : e ≠ .presented issue := by
  rintro rfl
  exact he

theorem LiveIssue.cons (h : LiveIssue ledger userId issue) (hstamp : issue.stamp ≤ ledger.length)
    (hpresented : e ≠ .presented issue) (hlatest : ∀ newer, e = .issued newer → newer.userId ≠ userId) :
    LiveIssue (e :: ledger) userId issue where
  account := h.account
  unpresented := List.not_mem_cons_of_ne_of_not_mem hpresented.symm h.unpresented
  latest := fun newer hmem => by
    rw [since_cons hstamp] at hmem
    rcases List.mem_cons.mp hmem with he | hmem
    · exact hlatest newer he.symm
    · exact h.latest newer hmem

/-- Deleting rows keeps the invariant. -/
theorem RecoveryInv.of_rows (h : RecoveryInv s) (hledger : after.ledger = s.ledger)
    (hrows : ∀ hash row, after.db.resetTokens.get hash = some row →
      s.db.resetTokens.get hash = some row) : RecoveryInv after where
  stamped := hledger ▸ h.stamped
  presented := hledger ▸ h.presented
  changed := hledger ▸ h.changed
  once := hledger ▸ h.once
  newest := hledger ▸ h.newest
  rows := fun hash row issue hrow hissue => by
    rw [hledger] at hissue ⊢
    exact h.rows hash row issue (hrows hash row hrow) hissue

/-- Nothing that follows presents a superseded token. -/
theorem newest_cons_other (h : RecoveryInv s) (he : ∀ issue, e ≠ .issued issue)
    (hpresented : ∀ issue, e = .presented issue → .issued issue ∈ s.ledger →
      ∀ newer, .issued newer ∈ since issue.stamp s.ledger → newer.userId ≠ issue.userId)
    {newer : Issue} (hissue : .issued issue ∈ e :: s.ledger)
    (hnewer : .issued newer ∈ since issue.stamp (e :: s.ledger)) (huser : newer.userId = issue.userId) :
    .presented issue ∉ since newer.stamp (e :: s.ledger) := by
  have hissue' : .issued issue ∈ s.ledger := (List.mem_cons.mp hissue).resolve_left (he issue).symm
  rw [since_cons (h.stamped issue hissue')] at hnewer
  have hnewer' := (List.mem_cons.mp hnewer).resolve_left (he newer).symm
  rw [since_cons (h.stamped newer (since_subset _ _ hnewer'))]
  refine List.not_mem_cons_of_ne_of_not_mem ?_ (h.newest issue newer hissue' hnewer' huser)
  intro hp
  exact hpresented issue hp.symm hissue' newer hnewer' huser

theorem RecoveryInv.follow (h : RecoveryInv s) (he : Follows s.ledger e) :
    RecoveryInv { s with ledger := e :: s.ledger } where
  stamped := fun issue hmem => by
    have hmem' := (List.mem_cons.mp hmem).resolve_left (he.not_issued issue).symm
    exact (h.stamped issue hmem').trans (Nat.le_succ _)
  presented := fun issue hmem => by
    have hmem' := (List.mem_cons.mp hmem).resolve_left (he.not_presented issue).symm
    exact List.mem_cons_of_mem _ (h.presented issue hmem')
  changed := fun userId issue now hmem => by
    rcases List.mem_cons.mp hmem with rfl | hmem
    · exact ⟨he.account, List.mem_cons_of_mem _ he.presented⟩
    · obtain ⟨huser, hpresented⟩ := h.changed userId issue now hmem
      exact ⟨huser, List.mem_cons_of_mem _ hpresented⟩
  once := fun issue => by
    rw [List.countP_cons]
    split
    · next hset =>
      cases e with
      | passwordChanged userId authority now =>
        have hauthority : authority = some issue := of_decide_eq_true hset
        subst hauthority
        have hnone : s.ledger.countP (setsBy issue) = 0 := by
          rw [List.countP_eq_zero]
          intro e' hmem hset'
          cases e' with
          | passwordChanged account authority' now' =>
            rw [of_decide_eq_true hset'] at hmem
            exact he.unused account now' hmem
          | _ => exact absurd hset' nofun
        omega
      | _ => cases hset
    · exact h.once issue
  newest := fun issue newer hissue hnewer huser =>
    newest_cons_other h he.not_issued (fun issue hp => absurd hp (he.not_presented issue)) hissue hnewer
      huser
  rows := fun hash row issue hrow hissue => by
    rw [issueOf_cons_other he.not_issued] at hissue
    exact (h.rows hash row issue hrow hissue).cons (h.stamped issue (issueOf_eq_some hissue).1)
      (he.not_presented issue) fun newer hnewer => absurd hnewer (he.not_issued newer)

/-- Taking a live token out of the table. -/
theorem RecoveryInv.consume (h : RecoveryInv s) {tokenHash : Text} {row : ResetTokenRow}
    (hrow : s.db.resetTokens.get tokenHash = some row) (hissue : issueOf s.ledger tokenHash = some issue) :
    RecoveryInv { s with
      db := (s.db.consumePasswordResetToken tokenHash).1
      ledger := .presented issue :: s.ledger } where
  stamped := fun other hmem => by
    have hmem' := (List.mem_cons.mp hmem).resolve_left nofun
    exact (h.stamped other hmem').trans (Nat.le_succ _)
  presented := fun other hmem => by
    rcases List.mem_cons.mp hmem with hother | hmem
    · rw [LedgerEntry.presented.inj hother]
      exact List.mem_cons_of_mem _ (issueOf_eq_some hissue).1
    · exact List.mem_cons_of_mem _ (h.presented other hmem)
  changed := fun userId other now hmem => by
    have hmem' := (List.mem_cons.mp hmem).resolve_left nofun
    obtain ⟨huser, hpresented⟩ := h.changed userId other now hmem'
    exact ⟨huser, List.mem_cons_of_mem _ hpresented⟩
  once := fun other => by
    rw [List.countP_cons_of_neg (by simp [setsBy])]
    exact h.once other
  newest := fun other newer hother hnewer huser => by
    have hlive := h.rows tokenHash row issue hrow hissue
    refine newest_cons_other (e := .presented issue) h nofun (fun k hk _ newer' hnewer' => ?_) hother hnewer huser
    rw [← LedgerEntry.presented.inj hk] at hnewer' ⊢
    rw [hlive.account]
    exact hlive.latest newer' hnewer'
  rows := fun hash row' other hrow' hother => by
    rw [issueOf_cons_other (e := .presented issue) nofun] at hother
    obtain ⟨hold, hhash⟩ := Option.filter_eq_some_iff.mp
      ((get_deleteWhere s.db.resetTokens _ hash).symm.trans hrow')
    have hne : issue ≠ other := by
      rintro rfl
      have htoken := (issueOf_eq_some hissue).2
      have hother' := (issueOf_eq_some hother).2
      simp [← hother', htoken] at hhash
    exact (h.rows hash row' other hold hother).cons (h.stamped other (issueOf_eq_some hother).1)
      (fun hp => hne (LedgerEntry.presented.inj hp)) nofun

/-- Issuing a token deletes the account's earlier one. -/
theorem RecoveryInv.create (h : RecoveryInv s) {tokenHash : Text} {expiresAt now : Int} {db : AccountsDb}
    (hdb : s.db.createPasswordResetToken userId tokenHash expiresAt now = some db) :
    RecoveryInv (s.commit db [.issued ⟨s.ledger.length + 1, userId, tokenHash, expiresAt⟩]) := by
  obtain ⟨-, -, hthis, hothers⟩ := createPasswordResetToken_eq_some hdb
  have hfresh : .presented ⟨s.ledger.length + 1, userId, tokenHash, expiresAt⟩ ∉ s.ledger := by
    intro hmem
    have hstamp := h.stamped _ (h.presented _ hmem)
    simp only at hstamp
    omega
  refine ⟨?_, ?_, ?_, ?_, ?_, ?_⟩
  · intro other hmem
    rcases List.mem_cons.mp hmem with hother | hmem
    · rw [LedgerEntry.issued.inj hother]
      exact le_rfl
    · exact (h.stamped other hmem).trans (Nat.le_succ _)
  · intro other hmem
    exact List.mem_cons_of_mem _ (h.presented other ((List.mem_cons.mp hmem).resolve_left nofun))
  · intro account other now' hmem
    obtain ⟨huser, hpresented⟩ := h.changed account other now' ((List.mem_cons.mp hmem).resolve_left nofun)
    exact ⟨huser, List.mem_cons_of_mem _ hpresented⟩
  · intro other
    rw [AccountStore.commit, List.singleton_append, List.countP_cons_of_neg (by simp [setsBy])]
    exact h.once other
  · intro other newer hother hnewer huser
    rcases List.mem_cons.mp hother with hnew | hold
    · rw [LedgerEntry.issued.inj hnew] at hnewer
      simp [AccountStore.commit] at hnewer
    · rw [AccountStore.commit, List.singleton_append, since_cons (h.stamped other hold)] at hnewer
      rcases List.mem_cons.mp hnewer with hnew | hnewer
      · rw [LedgerEntry.issued.inj hnew]
        simp [AccountStore.commit]
      · rw [AccountStore.commit, List.singleton_append,
          since_cons (h.stamped newer (since_subset _ _ hnewer))]
        exact List.not_mem_cons_of_ne_of_not_mem nofun (h.newest other newer hold hnewer huser)
  · intro hash row other hrow hother
    by_cases hhash : hash = tokenHash
    · subst hhash
      rw [← Option.some.inj (hthis.symm.trans hrow)]
      have hissued : issueOf (s.commit db
          [.issued ⟨s.ledger.length + 1, userId, hash, expiresAt⟩]).ledger hash =
          some ⟨s.ledger.length + 1, userId, hash, expiresAt⟩ := by
        simp [issueOf, AccountStore.commit]
      rw [← Option.some.inj (hissued.symm.trans hother)]
      refine ⟨rfl, ?_, ?_⟩
      · exact List.not_mem_cons_of_ne_of_not_mem nofun hfresh
      · simp [AccountStore.commit]
    · obtain ⟨hold, hne⟩ := hothers hash row hhash hrow
      have hissued : issueOf s.ledger hash = some other := by
        simpa [issueOf, AccountStore.commit, Ne.symm hhash] using hother
      refine (h.rows hash row other hold hissued).cons (h.stamped other (issueOf_eq_some hissued).1) nofun ?_
      intro newer hnewer
      rw [← LedgerEntry.issued.inj hnewer]
      exact Ne.symm hne

theorem resetTokens_replacePassword {db : AccountsDb} {passwordHash hash : Text} {now : Int}
    {row : ResetTokenRow}
    (h : (db.replacePassword userId passwordHash now).resetTokens.get hash = some row) :
    db.resetTokens.get hash = some row := by
  rw [AccountsDb.replacePassword] at h
  split at h
  · exact (resetToken_of_cleared h).1
  · exact h

theorem RecoveryInv.commitFor (h : RecoveryInv s) {db : AccountsDb}
    (hrows : ∀ hash row, db.resetTokens.get hash = some row → s.db.resetTokens.get hash = some row)
    (he : Follows s.ledger e) : RecoveryInv (s.commit db (s.entryFor userId e)) := by
  rw [AccountStore.entryFor]
  split
  · exact (h.follow he).of_rows rfl hrows
  · exact h.of_rows rfl hrows

theorem follows_of_holds {account : Int} {authority : Option Issue} {now : Int}
    (h : ∀ issue, authority = some issue → Holds ledger account issue) :
    Follows ledger (.passwordChanged account authority now) := by
  cases authority with
  | none => trivial
  | some issue => exact h issue rfl

theorem recoveryInv_next (h : RecoveryInv s) (hcall : CallHolds s call) :
    RecoveryInv (nextStep env s input call).1 := by
  have hsame : ∀ hash row, s.db.resetTokens.get hash = some row →
      s.db.resetTokens.get hash = some row := fun _ _ hrow => hrow
  cases call with
  | loginReceived email password =>
    simp only [nextStep]
    split <;> exact h
  | loginAllowed userId mint =>
    simp only [nextStep, loginAllowedStep]
    split
    · next db hdb =>
      refine h.of_rows rfl fun hash row hrow => ?_
      rwa [AccountStore.commitSession, (createSession_eq_some hdb).2.2.1] at hrow
    · exact h
  | forgotReceived email =>
    simp only [nextStep]
    split <;> exact h
  | forgotRead userId =>
    simp only [nextStep, forgotReadStep]
    split
    · next db hdb => exact h.create hdb
    · exact h
  | resetReceived token password =>
    simp only [nextStep]
    split
    · exact h
    · have hdeleted : ∀ hash row,
          (s.db.consumePasswordResetToken (env.sha256Hex (trim token))).1.resetTokens.get hash = some row →
          s.db.resetTokens.get hash = some row := fun hash row hrow =>
        (Option.filter_eq_some_iff.mp ((get_deleteWhere s.db.resetTokens _ hash).symm.trans hrow)).1
      simp only [resetReceivedStep]
      split
      · exact h.of_rows rfl hdeleted
      · next userId expiresAt hconsumed =>
        obtain ⟨row, hrow, -⟩ := Option.map_eq_some_iff.mp hconsumed
        cases hissue : issueOf s.ledger (env.sha256Hex (trim token)) with
        | none => exact h.of_rows rfl hdeleted
        | some issue => exact h.consume hrow hissue
  | resetHashed userId passwordHash authority =>
    refine h.commitFor (fun _ _ => resetTokens_replacePassword) (follows_of_holds fun issue hissue => ?_)
    exact hcall userId issue (by rw [AccountCall.holder, hissue]; rfl)
  | passwordHashed userId passwordHash =>
    exact h.commitFor (fun _ _ => resetTokens_replacePassword) trivial
  | settingDisabled userId disabled =>
    have hrows : ∀ hash row, (s.db.adminSetDisabled userId disabled input.now).resetTokens.get hash =
        some row → s.db.resetTokens.get hash = some row := by
      intro hash row hrow
      rw [AccountsDb.adminSetDisabled] at hrow
      split at hrow <;> exact hrow
    cases disabled with
    | false => exact h.of_rows rfl hrows
    | true => exact h.commitFor hrows trivial
  | settingAdmin userId isAdmin =>
    refine h.commitFor (fun hash row hrow => ?_) trivial
    rw [AccountsDb.adminSetAdmin] at hrow
    split at hrow <;> exact hrow
  | _ => exact h

/-- What a step adds to the history; a token sets a password only in the step of the
reset that holds it. -/
theorem nextStep_ledger (env : Primitives) (s : AccountStore) (input : StepInput) (call : AccountCall) :
    ∃ entries, (nextStep env s input call).1.ledger = entries ++ s.ledger ∧
      ∀ userId issue now, .passwordChanged userId (some issue) now ∈ entries →
        call.holder = some (userId, issue) := by
  cases call with
  | loginReceived email password =>
    refine ⟨[], ?_, nofun⟩
    simp only [nextStep]
    split <;> rfl
  | loginAllowed userId mint =>
    refine ⟨[], ?_, nofun⟩
    simp only [nextStep, loginAllowedStep]
    split <;> rfl
  | forgotReceived email =>
    refine ⟨[], ?_, nofun⟩
    simp only [nextStep]
    split <;> rfl
  | forgotRead userId =>
    simp only [nextStep, forgotReadStep]
    split
    · exact ⟨_, rfl, by simp⟩
    · exact ⟨[], rfl, nofun⟩
  | resetReceived token password =>
    simp only [nextStep]
    split
    · exact ⟨[], rfl, nofun⟩
    · simp only [resetReceivedStep]
      split
      · exact ⟨[], rfl, nofun⟩
      · exact ⟨_, rfl, by simp⟩
  | resetHashed userId passwordHash authority =>
    refine ⟨_, rfl, fun account issue now hmem => ?_⟩
    rw [AccountStore.entryFor] at hmem
    split at hmem
    · obtain ⟨rfl, rfl, -⟩ := LedgerEntry.passwordChanged.inj (List.mem_singleton.mp hmem)
      rfl
    · exact absurd hmem List.not_mem_nil
  | passwordHashed userId passwordHash =>
    refine ⟨_, rfl, fun account issue now hmem => ?_⟩
    rw [AccountStore.entryFor] at hmem
    split at hmem <;> simp at hmem
  | settingDisabled userId disabled =>
    refine ⟨_, rfl, fun account issue now hmem => ?_⟩
    rw [AccountStore.entryFor] at hmem
    cases disabled with
    | false => exact absurd hmem List.not_mem_nil
    | true => split at hmem <;> simp at hmem
  | settingAdmin userId isAdmin =>
    refine ⟨_, rfl, fun account issue now hmem => ?_⟩
    rw [AccountStore.entryFor] at hmem
    split at hmem <;> simp at hmem
  | _ => exact ⟨[], rfl, nofun⟩

/-- A held token is left alone by the steps of others. -/
theorem Holds.next (h : Holds s.ledger userId issue)
    (hother : ∀ account, call.holder ≠ some (account, issue)) :
    Holds (nextStep env s input call).1.ledger userId issue := by
  obtain ⟨entries, hledger, hsets⟩ := nextStep_ledger env s input call
  rw [hledger]
  refine ⟨h.account, List.mem_append_right _ h.presented, fun account now hmem => ?_⟩
  rcases List.mem_append.mp hmem with hmem | hmem
  · exact hother account (hsets account issue now hmem)
  · exact h.unused account now hmem

/-- The token that a step leaves its call with: the one it held, or one just taken out
of the table. -/
theorem holder_next {call' : AccountCall} (hnext : (nextStep env s input call).2 = some call')
    (hissue : call'.holder = some (userId, issue)) :
    (call.holder = some (userId, issue) ∧ (nextStep env s input call).1 = s) ∨
    ∃ tokenHash row, s.db.resetTokens.get tokenHash = some row ∧ row.userId = userId ∧
      issueOf s.ledger tokenHash = some issue ∧
      (nextStep env s input call).1.ledger = .presented issue :: s.ledger := by
  cases call with
  | resetReceived token password =>
    simp only [nextStep] at hnext ⊢
    split at hnext
    · cases hnext
    · next hfields =>
      rw [if_neg hfields]
      simp only [resetReceivedStep] at hnext ⊢
      split at hnext
      · cases hnext
      · next account expiresAt hconsumed =>
        obtain ⟨row, hrow, hfound⟩ := Option.map_eq_some_iff.mp hconsumed
        rw [← Option.some.inj hnext, AccountCall.holder] at hissue
        obtain ⟨found, hauthority, hpair⟩ := Option.map_eq_some_iff.mp hissue
        obtain ⟨rfl, rfl⟩ := Prod.mk.inj hpair
        obtain ⟨rfl, -⟩ := Prod.mk.inj hfound
        refine .inr ⟨_, row, hrow, rfl, hauthority, ?_⟩
        rw [hauthority]
        rfl
  | resetConsumed account expiresAt password authority =>
    obtain ⟨-, hnext⟩ := Option.ite_none_left_eq_some.mp hnext
    rw [← Option.some.inj hnext] at hissue
    exact .inl ⟨hissue, rfl⟩
  | loginReceived email password =>
    simp only [nextStep] at hnext
    split at hnext
    · cases hnext
    · obtain ⟨user, -, rfl⟩ := Option.map_eq_some_iff.mp hnext
      cases hissue
  | loginRead account passwordHash password readAt =>
    obtain ⟨-, hnext⟩ := Option.ite_none_right_eq_some.mp hnext
    rw [← Option.some.inj hnext] at hissue
    cases hissue
  | loginVerified account readAt =>
    obtain ⟨-, hnext⟩ := Option.ite_none_left_eq_some.mp hnext
    rw [← Option.some.inj hnext] at hissue
    cases hissue
  | forgotReceived email =>
    simp only [nextStep] at hnext
    split at hnext
    · cases hnext
    · obtain ⟨user, -, rfl⟩ := Option.map_eq_some_iff.mp hnext
      cases hissue
  | passwordReceived account password =>
    obtain ⟨-, hnext⟩ := Option.ite_none_left_eq_some.mp hnext
    rw [← Option.some.inj hnext] at hissue
    cases hissue
  | _ => cases hnext

theorem recovery_keeps : (accountRequests env).KeepsApart RecoveryInv CallHolds HoldersApart where
  symm := fun call other h a b ha hb => (h b a hb ha).symm
  start := fun s request _ userId issue hissue => by cases request <;> cases hissue
  startApart := fun request other a b ha _ => by cases request <;> cases ha
  store := fun s call input hs hcall => recoveryInv_next hs hcall
  own := fun s call input call' hs hcall hnext userId issue hissue => by
    rcases holder_next hnext hissue with ⟨hheld, hsame⟩ | ⟨tokenHash, row, hrow, rfl, hfound, hledger⟩
    · have hs' : ((accountRequests env).next s call input).1 = s := hsame
      rw [hs']
      exact hcall userId issue hheld
    · have hlive := hs.rows tokenHash row issue hrow hfound
      have hl : ((accountRequests env).next s call input).1.ledger = .presented issue :: s.ledger := hledger
      rw [hl]
      refine ⟨hlive.account, List.mem_cons_self, fun account now hmem => ?_⟩
      have hmem' := (List.mem_cons.mp hmem).resolve_left nofun
      exact hlive.unpresented (hs.changed account issue now hmem').2
  ownApart := fun s call input call' other hs hcall hother hapart hnext a b ha hb => by
    rcases holder_next hnext ha with ⟨hheld, -⟩ | ⟨tokenHash, row, hrow, -, hfound, -⟩
    · exact hapart a b hheld hb
    · intro heq
      have hlive := hs.rows tokenHash row a.2 hrow hfound
      exact hlive.unpresented (heq ▸ (hother b.1 b.2 hb).presented)
  frame := fun s call input other hs hcall hother hapart userId issue hissue =>
    (hother userId issue hissue).next fun account hheld => hapart _ _ hheld hissue rfl

/-- Every password a token set, it set in time. -/
def SetsTimely (ledger : List LedgerEntry) : Prop :=
  ∀ post pre userId issue now, ledger = post ++ .passwordChanged userId (some issue) now :: pre →
    Timely pre userId issue now

theorem setsTimely_cons : SetsTimely (e :: ledger) ↔ SetsTimely ledger ∧
    ∀ userId issue now, e = .passwordChanged userId (some issue) now → Timely ledger userId issue now := by
  constructor
  · intro h
    refine ⟨fun post pre userId issue now hsplit => ?_, fun userId issue now he => ?_⟩
    · exact h (e :: post) pre userId issue now (by rw [hsplit, List.cons_append])
    · exact h [] ledger userId issue now (by rw [he, List.nil_append])
  · rintro ⟨h, he⟩ post pre userId issue now hsplit
    cases post with
    | nil =>
      obtain ⟨hhead, rfl⟩ := List.cons.inj hsplit
      exact he userId issue now hhead
    | cons head post =>
      obtain ⟨-, htail⟩ := List.cons.inj hsplit
      exact h post pre userId issue now htail

theorem setsTimely_append
    (hentries : ∀ userId issue now, .passwordChanged userId (some issue) now ∉ entries) :
    SetsTimely (entries ++ ledger) ↔ SetsTimely ledger := by
  induction entries with
  | nil => exact Iff.rfl
  | cons e entries ih =>
    rw [List.cons_append, setsTimely_cons,
      ih fun userId issue now hmem => hentries userId issue now (List.mem_cons_of_mem e hmem)]
    refine and_iff_left fun userId issue now he => ?_
    exact absurd List.mem_cons_self (he ▸ hentries userId issue now)

theorem mem_since_or_before {stamp : Nat} (h : e ∈ ledger) :
    e ∈ since stamp ledger ∨ e ∈ before stamp ledger := by
  rw [← List.mem_append, since, before, List.take_append_drop]
  exact h

/-- All that recovery promises but the timing holds of every interleaving. -/
theorem RecoveryInv.sound_iff (h : RecoveryInv s) : RecoverySound s.ledger ↔ SetsTimely s.ledger := by
  refine ⟨fun hs => hs.timely, fun htimely => ⟨h.once, ?_, ?_, htimely⟩⟩
  · intro userId issue now hmem
    obtain ⟨huser, hpresented⟩ := h.changed userId issue now hmem
    exact ⟨huser, h.presented issue hpresented⟩
  · intro issue newer hissue hnewer huser hbefore userId now hmem
    have hpresented := (h.changed userId issue now hmem).2
    exact h.newest issue newer hissue hnewer huser
      ((mem_since_or_before hpresented).resolve_right hbefore)

theorem setsTimely_next (hs : SetsTimely s.ledger) :
    SetsTimely (nextStep env s input call).1.ledger ↔ ResetsTimely s call input := by
  by_cases hreset : ∃ userId passwordHash issue, call = .resetHashed userId passwordHash (some issue)
  · obtain ⟨userId, passwordHash, issue, rfl⟩ := hreset
    simp only [nextStep, AccountStore.commit, AccountStore.entryFor, ResetsTimely]
    split
    · next huser =>
      rw [List.singleton_append, setsTimely_cons, and_iff_right hs]
      constructor
      · intro h _
        exact h userId issue input.now rfl
      · intro h account other now he
        obtain ⟨rfl, hissue, rfl⟩ := LedgerEntry.passwordChanged.inj he
        rw [← Option.some.inj hissue]
        exact h huser
    · next huser => exact iff_of_true hs fun h => absurd h huser
  · obtain ⟨entries, hledger, hsets⟩ := nextStep_ledger env s input call
    have hnone : ∀ userId issue now, .passwordChanged userId (some issue) now ∉ entries := by
      intro userId issue now hmem
      have hholder := hsets userId issue now hmem
      cases call with
      | resetHashed account passwordHash authority =>
        obtain ⟨issue', hauthority, -⟩ := Option.map_eq_some_iff.mp hholder
        exact hreset ⟨account, passwordHash, issue', by rw [hauthority]⟩
      | resetConsumed account expiresAt password authority =>
        have hsame : s.ledger = entries ++ s.ledger := hledger
        rw [List.self_eq_append_left.mp hsame] at hmem
        exact absurd hmem List.not_mem_nil
      | _ => cases hholder
    rw [hledger, setsTimely_append hnone]
    refine iff_of_true hs ?_
    cases call with
    | resetHashed account passwordHash authority =>
      cases authority with
      | none => trivial
      | some issue => exact absurd ⟨account, passwordHash, issue, rfl⟩ hreset
    | _ => trivial

theorem recoveryInv_start (db : AccountsDb) : RecoveryInv { db := db } where
  stamped := nofun
  presented := nofun
  changed := nofun
  once := fun _ => Nat.zero_le _
  newest := nofun
  rows := fun _ _ _ _ => nofun

theorem recoverySound_next (hs : RecoveryInv s) (hcall : CallHolds s call)
    (hsound : RecoverySound s.ledger) :
    RecoverySound (nextStep env s input call).1.ledger ↔ ResetsTimely s call input := by
  rw [(recoveryInv_next hs hcall).sound_iff]
  exact setsTimely_next (hs.sound_iff.mp hsound)

/-- An administrator sets a new password while a reset hashes its own. -/
def resetAcrossChange : List (Event AccountRequest StepInput) :=
  Event.begin 0 (AccountRequest.forgot "ada@example.org".toList) ::
    List.replicate 2 (Event.advance 0 ⟨1000, "link".toList⟩) ++
    Event.begin 1 (AccountRequest.reset "link".toList "chosen before".toList) ::
    List.replicate 2 (Event.advance 1 ⟨2000, []⟩) ++
    Event.begin 2 (AccountRequest.adminResetPassword 1 "set by admin".toList) ::
    List.replicate 2 (Event.advance 2 ⟨3000, []⟩) ++ [Event.advance 1 ⟨4000, []⟩]

end StreamArena.Accounts
