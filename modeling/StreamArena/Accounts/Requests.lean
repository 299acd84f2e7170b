import StreamArena.Accounts.Database
import StreamArena.Library.Calls

/-! The account requests (src/routes.rs, src/routes/admin.rs) as calls that run one
database step at a time, with the history of what their commits replaced. -/
namespace StreamArena.Accounts
open AsciiText KeyedTable Calls

def sessionMaxAgeSeconds : Int := 30 * 24 * 60 * 60
def resetTokenTtlMs : Int := 60 * 60 * 1000

/-- What the handlers use of other code: case folding, Argon2 and SHA-256. -/
structure Primitives where
  toLowercase : Text → Text
  hashPassword : Text → Text → Text
  verifyPassword : Text → Text → Bool
  sha256Hex : Text → Text

/-- What a step draws from outside: the clock, and a random token or salt. -/
structure StepInput where
  now : Int
  random : Text

/-- A reset token as it was issued; `stamp` is the length of the history with it. -/
structure Issue where
  stamp : Nat
  userId : Int
  tokenHash : Text
  expiresAt : Int
  deriving DecidableEq

/-- The commits that matter for credentials; a password change names the token that
authorised it, if one did. -/
inductive LedgerEntry where
  | issued (issue : Issue)
  | presented (issue : Issue)
  | passwordChanged (userId : Int) (authority : Option Issue) (now : Int)
  | disabled (userId : Int)
  | privilegeChanged (userId : Int)
  deriving DecidableEq

/-- What has been committed since the history had a length; the newest entry is first. -/
def since (stamp : Nat) (ledger : List LedgerEntry) : List LedgerEntry :=
  ledger.take (ledger.length - stamp)

/-- The history up to that length. -/
def before (stamp : Nat) (ledger : List LedgerEntry) : List LedgerEntry :=
  ledger.drop (ledger.length - stamp)

/-- The newest token issued under a hash. -/
def issueOf (ledger : List LedgerEntry) (tokenHash : Text) : Option Issue :=
  ledger.findSome? fun
    | .issued issue => if issue.tokenHash = tokenHash then some issue else none
    | _ => none

/-- When a login read the password hash, and when the flags of the account. -/
structure Mint where
  readAt : Nat
  allowedAt : Nat
  deriving DecidableEq

/-- The database, its history, and for each session hash the login that made it. -/
structure AccountStore where
  db : AccountsDb
  ledger : List LedgerEntry := []
  mints : Text → Option Mint := fun _ => none

inductive AccountRequest where
  | login (email password : Text)
  | forgot (email : Text)
  | reset (token password : Text)
  | adminResetPassword (userId : Int) (password : Text)
  | adminSetDisabled (userId : Int) (disabled : Bool)
  | adminSetAdmin (userId : Int) (isAdmin : Bool)

/-- A request between two of its steps, with what it has read. -/
inductive AccountCall where
  | loginReceived (email password : Text)
  | loginRead (userId : Int) (passwordHash password : Text) (readAt : Nat)
  | loginVerified (userId : Int) (readAt : Nat)
  | loginAllowed (userId : Int) (mint : Mint)
  | forgotReceived (email : Text)
  | forgotRead (userId : Int)
  | resetReceived (token password : Text)
  | resetConsumed (userId expiresAt : Int) (password : Text) (authority : Option Issue)
  | resetHashed (userId : Int) (passwordHash : Text) (authority : Option Issue)
  | passwordReceived (userId : Int) (password : Text)
  | passwordHashed (userId : Int) (passwordHash : Text)
  | settingDisabled (userId : Int) (disabled : Bool)
  | settingAdmin (userId : Int) (isAdmin : Bool)

namespace AccountStore
variable (s : AccountStore)

/-- A commit with what it adds to the history. -/
def commit (db : AccountsDb) (entries : List LedgerEntry) : AccountStore :=
  { s with db := db, ledger := entries ++ s.ledger }

def commitSession (db : AccountsDb) (tokenHash : Text) (mint : Mint) : AccountStore :=
  { s with db := db, mints := Function.update s.mints tokenHash (some mint) }

/-- An entry only for a user that exists: the `UPDATE` must have changed a row. -/
def entryFor (userId : Int) (entry : LedgerEntry) : List LedgerEntry :=
  if s.db.hasUser userId then [entry] else []

end AccountStore

variable (env : Primitives) (s : AccountStore) (input : StepInput)

def loginAllowedStep (userId : Int) (mint : Mint) : AccountStore :=
  let tokenHash := env.sha256Hex input.random
  match s.db.createSession tokenHash userId input.now (input.now + sessionMaxAgeSeconds * 1000) with
  | some db => s.commitSession db tokenHash mint
  | none => s

def forgotReadStep (userId : Int) : AccountStore :=
  let tokenHash := env.sha256Hex input.random
  let expiresAt := input.now + resetTokenTtlMs
  match s.db.createPasswordResetToken userId tokenHash expiresAt input.now with
  | some db => s.commit db [.issued ⟨s.ledger.length + 1, userId, tokenHash, expiresAt⟩]
  | none => s

def resetReceivedStep (tokenHash password : Text) : AccountStore × Option AccountCall :=
  let consumed := s.db.consumePasswordResetToken tokenHash
  match consumed.2 with
  | none => (s.commit consumed.1 [], none)
  | some (userId, expiresAt) =>
    let authority := issueOf s.ledger tokenHash
    (s.commit consumed.1 (authority.toList.map .presented),
      some (.resetConsumed userId expiresAt password authority))

/-- One step of a request. A step that finds its fields missing, its token unknown or
its password wrong ends the request. -/
def nextStep : AccountCall → AccountStore × Option AccountCall
  | .loginReceived email password =>
    let email := env.toLowercase (trim email)
    if email.isEmpty || password.isEmpty then (s, none)
    else
      (s, (s.db.getUserByEmail email).map fun user =>
        .loginRead user.1 user.2.passwordHash password s.ledger.length)
  | .loginRead userId passwordHash password readAt =>
    (s, if env.verifyPassword password passwordHash then some (.loginVerified userId readAt) else none)
  | .loginVerified userId readAt =>
    (s, if (s.db.getAuthUser userId).any UserRow.isDisabled then none
      else some (.loginAllowed userId ⟨readAt, s.ledger.length⟩))
  | .loginAllowed userId mint => (loginAllowedStep env s input userId mint, none)
  | .forgotReceived email =>
    let email := env.toLowercase (trim email)
    if email.isEmpty then (s, none)
    else (s, (s.db.getUserByEmail email).map fun user => .forgotRead user.1)
  | .forgotRead userId => (forgotReadStep env s input userId, none)
  | .resetReceived token password =>
    let token := trim token
    if token.isEmpty || decide (password.length < 6) then (s, none)
    else resetReceivedStep s (env.sha256Hex token) password
  | .resetConsumed userId expiresAt password authority =>
    (s, if expiresAt ≤ input.now then none
      else some (.resetHashed userId (env.hashPassword password input.random) authority))
  | .resetHashed userId passwordHash authority =>
    (s.commit (s.db.setPasswordByUserId userId passwordHash input.now)
      (s.entryFor userId (.passwordChanged userId authority input.now)), none)
  | .passwordReceived userId password =>
    (s, if password.length < 6 then none
      else some (.passwordHashed userId (env.hashPassword password input.random)))
  | .passwordHashed userId passwordHash =>
    (s.commit (s.db.adminSetPassword userId passwordHash input.now)
      (s.entryFor userId (.passwordChanged userId none input.now)), none)
  | .settingDisabled userId disabled =>
    (s.commit (s.db.adminSetDisabled userId disabled input.now)
      (if disabled then s.entryFor userId (.disabled userId) else []), none)
  | .settingAdmin userId isAdmin =>
    (s.commit (s.db.adminSetAdmin userId isAdmin input.now)
      (s.entryFor userId (.privilegeChanged userId)), none)

def accountRequests : Protocol AccountStore AccountCall AccountRequest StepInput where
  start
    | .login email password => .loginReceived email password
    | .forgot email => .forgotReceived email
    | .reset token password => .resetReceived token password
    | .adminResetPassword userId password => .passwordReceived userId password
    | .adminSetDisabled userId disabled => .settingDisabled userId disabled
    | .adminSetAdmin userId isAdmin => .settingAdmin userId isAdmin
  next s call input := nextStep env s input call

@[simp] theorem mints_commitSession (s : AccountStore) (db : AccountsDb) (tokenHash : Text)
    (mint : Mint) :
    (s.commitSession db tokenHash mint).mints = Function.update s.mints tokenHash (some mint) := rfl

variable {stamp : Nat} {ledger : List LedgerEntry}

theorem since_append (entries : List LedgerEntry) (h : stamp ≤ ledger.length) :
    since stamp (entries ++ ledger) = entries ++ since stamp ledger := by
  have hlength : (entries ++ ledger).length - stamp = entries.length + (ledger.length - stamp) := by
    rw [List.length_append]
    omega
  rw [since, hlength, List.take_length_add_append, since]

theorem since_cons {e : LedgerEntry} (h : stamp ≤ ledger.length) :
    since stamp (e :: ledger) = e :: since stamp ledger :=
  since_append [e] h

theorem since_subset (stamp : Nat) (ledger : List LedgerEntry) : since stamp ledger ⊆ ledger :=
  List.take_subset _ _

@[simp] theorem since_new (e : LedgerEntry) (ledger : List LedgerEntry) :
    since (ledger.length + 1) (e :: ledger) = [] := by
  rw [since, List.length_cons, Nat.sub_self, List.take_zero]

/-- Hashes that can be read off, for runs on fixed inputs. -/
def plainPrimitives : Primitives where
  toLowercase := toAsciiLowercase
  hashPassword password _ := password
  verifyPassword password passwordHash := decide (password = passwordHash)
  sha256Hex token := token

def oneAccount : AccountsDb where
  users := ⟨[(1, ⟨"ada@example.org".toList, "old secret".toList, "Ada".toList, false, false, 0⟩)],
    by decide⟩
  sessions := .empty
  resetTokens := .empty

end StreamArena.Accounts
