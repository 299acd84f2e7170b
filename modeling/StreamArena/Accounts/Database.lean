import StreamArena.Library.AsciiText
import StreamArena.Library.KeyedTable

/-! The account tables (src/persistence.rs) and the transactions on them that logins,
password resets and administrators run. -/
namespace StreamArena.Accounts
open AsciiText KeyedTable

structure UserRow where
  username : Text
  passwordHash : Text
  displayName : Text
  isAdmin : Bool
  isDisabled : Bool
  updatedAt : Int

structure SessionRow where
  userId : Int
  createdAt : Int
  expiresAt : Int

structure ResetTokenRow where
  userId : Int
  expiresAt : Int
  createdAt : Int

/-- Users by id; sessions and reset tokens by the hash of their token. -/
structure AccountsDb where
  users : Table Int UserRow
  sessions : Table Text SessionRow
  resetTokens : Table Text ResetTokenRow

namespace AccountsDb
variable (db : AccountsDb)

/-- User names are compared without ASCII case. -/
def getUserByEmail (email : Text) : Option (Int × UserRow) :=
  db.users.rows.find? fun user => decide (toAsciiLowercase user.2.username = toAsciiLowercase email)

def getAuthUser (userId : Int) : Option UserRow := db.users.get userId

/-- A session needs its user and a hash no session has; otherwise the call fails. -/
def createSession (tokenHash : Text) (userId now expiresAt : Int) : Option AccountsDb :=
  match db.users.get userId, db.sessions.get tokenHash with
  | some _, none =>
    some { db with sessions := db.sessions.upsert tokenHash ⟨userId, now, expiresAt⟩ id }
  | _, _ => none

def clearSessions (userId : Int) : AccountsDb :=
  { db with sessions := db.sessions.deleteWhere fun _ row => decide (row.userId = userId) }

def clearResetTokens (userId : Int) : AccountsDb :=
  { db with resetTokens := db.resetTokens.deleteWhere fun _ row => decide (row.userId = userId) }

/-- The `UPDATE` of one user; the transactions look at whether it changed a row. -/
def updateUser (userId : Int) (f : UserRow → UserRow) : AccountsDb :=
  { db with users := db.users.updateWhere (fun id _ => decide (id = userId)) f }

/-- Whether an `UPDATE` on this id changes a row. -/
def hasUser (userId : Int) : Bool := (db.users.get userId).isSome

/-- The transaction of both password changes. -/
def replacePassword (userId : Int) (passwordHash : Text) (now : Int) : AccountsDb :=
  let updated := db.updateUser userId fun user =>
    { user with passwordHash := passwordHash, updatedAt := now }
  if db.hasUser userId then (updated.clearSessions userId).clearResetTokens userId else updated

def setPasswordByUserId (userId : Int) (passwordHash : Text) (now : Int) : AccountsDb :=
  db.replacePassword userId passwordHash now

def adminSetPassword (userId : Int) (passwordHash : Text) (now : Int) : AccountsDb :=
  db.replacePassword userId passwordHash now

def adminSetDisabled (userId : Int) (disabled : Bool) (now : Int) : AccountsDb :=
  let updated := db.updateUser userId fun user =>
    { user with isDisabled := disabled, updatedAt := now }
  if disabled && db.hasUser userId then updated.clearSessions userId else updated

def adminSetAdmin (userId : Int) (isAdmin : Bool) (now : Int) : AccountsDb :=
  let updated := db.updateUser userId fun user =>
    { user with isAdmin := isAdmin, updatedAt := now }
  if db.hasUser userId then updated.clearSessions userId else updated

/-- The user's earlier token goes; a hash another token has fails the transaction. -/
def createPasswordResetToken (userId : Int) (tokenHash : Text) (expiresAt now : Int) :
    Option AccountsDb :=
  let cleared := db.clearResetTokens userId
  match db.users.get userId, cleared.resetTokens.get tokenHash with
  | some _, none =>
    some { cleared with
      resetTokens := cleared.resetTokens.upsert tokenHash ⟨userId, expiresAt, now⟩ id }
  | _, _ => none

/-- `DELETE … RETURNING`. -/
def consumePasswordResetToken (tokenHash : Text) : AccountsDb × Option (Int × Int) :=
  ({ db with resetTokens := db.resetTokens.deleteWhere fun hash _ => decide (hash = tokenHash) },
    (db.resetTokens.get tokenHash).map fun row => (row.userId, row.expiresAt))

end AccountsDb

variable {db after : AccountsDb} {userId : Int} {tokenHash hash : Text}

theorem get_sessions_clearSessions (userId : Int) (hash : Text) :
    (db.clearSessions userId).sessions.get hash =
      (db.sessions.get hash).filter fun row => !decide (row.userId = userId) :=
  get_deleteWhere db.sessions _ hash

theorem get_resetTokens_clearResetTokens (userId : Int) (hash : Text) :
    (db.clearResetTokens userId).resetTokens.get hash =
      (db.resetTokens.get hash).filter fun row => !decide (row.userId = userId) :=
  get_deleteWhere db.resetTokens _ hash

/-- A session that is found after its user's sessions were cleared is another user's. -/
theorem session_of_cleared {row : SessionRow}
    (h : (db.clearSessions userId).sessions.get hash = some row) :
    db.sessions.get hash = some row ∧ row.userId ≠ userId := by
  rw [get_sessions_clearSessions, Option.filter_eq_some_iff] at h
  simpa using h

theorem resetToken_of_cleared {row : ResetTokenRow}
    (h : (db.clearResetTokens userId).resetTokens.get hash = some row) :
    db.resetTokens.get hash = some row ∧ row.userId ≠ userId := by
  rw [get_resetTokens_clearResetTokens, Option.filter_eq_some_iff] at h
  simpa using h

/-- A session is created under a free hash for a user that exists. -/
theorem createSession_eq_some {now expiresAt : Int}
    (h : db.createSession tokenHash userId now expiresAt = some after) :
    db.sessions.get tokenHash = none ∧ after.users = db.users ∧ after.resetTokens = db.resetTokens ∧
      ∀ hash, after.sessions.get hash =
        if hash = tokenHash then some ⟨userId, now, expiresAt⟩ else db.sessions.get hash := by
  unfold AccountsDb.createSession at h
  split at h
  · next hfree =>
    rw [← Option.some.inj h]
    refine ⟨hfree, rfl, rfl, fun hash => ?_⟩
    refine (get_upsert db.sessions tokenHash hash _ id).trans ?_
    rw [hfree, Option.elim_none]
  · cases h

/-- A reset token is created under a free hash, and is its user's only one. -/
theorem createPasswordResetToken_eq_some {expiresAt now : Int}
    (h : db.createPasswordResetToken userId tokenHash expiresAt now = some after) :
    after.users = db.users ∧ after.sessions = db.sessions ∧
      after.resetTokens.get tokenHash = some ⟨userId, expiresAt, now⟩ ∧
      ∀ hash row, hash ≠ tokenHash → after.resetTokens.get hash = some row →
        db.resetTokens.get hash = some row ∧ row.userId ≠ userId := by
  unfold AccountsDb.createPasswordResetToken at h
  dsimp only at h
  split at h
  · next hfree =>
    rw [← Option.some.inj h]
    refine ⟨rfl, rfl, ?_, fun hash row hne hrow => ?_⟩
    · refine (get_upsert_self _ tokenHash _ id).trans ?_
      rw [hfree, Option.elim_none]
    · exact resetToken_of_cleared ((get_upsert_of_ne _ hne _ id).symm.trans hrow)
  · cases h

end StreamArena.Accounts
