import TradeFramework.Library.Raising
import TradeFramework.Library.SingleWriter
import Mathlib.Data.Int.Notation
import Mathlib.Algebra.Group.Nat.Defs

/-!
# Accounts, passwords and browser sessions

`login` and `change_password` statement by statement. Two things are kept that are no columns: a session
keeps the password its login verified, and the database the password changes, newest first.
-/

namespace TradeFramework.Auth

open Raising (raiseIf)
open SingleWriter (Statement Client)

section Passwords

/-- What the standard library computes. `scrypt` takes a password, a salt, the costs and a length. -/
structure Crypto where
  scrypt : String → String → ℕ → ℕ → ℕ → ℕ → Except PyError String
  sha256 : String → String
  casefold : String → String

def scryptN : ℕ := 2 ^ 15

def scryptR : ℕ := 8

def scryptP : ℕ := 1

def scryptLength : ℕ := 32

/-- A stored hash, taken apart at its dollar signs. -/
structure PasswordHash where
  algorithm : String
  n : ℕ
  r : ℕ
  p : ℕ
  salt : String
  expected : String
deriving DecidableEq, Repr

/-- `DEFAULT_PASSWORD_HASH`. -/
def defaultPasswordHash : PasswordHash :=
  ⟨"scrypt", 32768, 8, 1, "fUmDQGSXkO63M8iG0Fn-Zg", "zAQN0kTNia2wAz_y6bXRlkG2_LQXZMiAaR7K6vI2FyY"⟩

variable (crypto : Crypto)

def hashPassword (password salt : String) : Except PyError PasswordHash := do
  raiseIf (password = "") (.valueError "Password is required.")
  let digest ← crypto.scrypt password salt scryptN scryptR scryptP scryptLength
  pure ⟨"scrypt", scryptN, scryptR, scryptP, salt, digest⟩

def verifyPassword (password : String) (encoded : PasswordHash) : Bool :=
  encoded.algorithm == "scrypt" &&
    match crypto.scrypt password encoded.salt encoded.n encoded.r encoded.p encoded.expected.length with
    | .ok actual => actual == encoded.expected
    | .error _ => false

end Passwords

section Tables

structure User where
  userId : String
  email : String
  passwordHash : PasswordHash
  role : String
  status : String
  updatedAt : String
deriving DecidableEq, Repr

/-- A row of `sessions`, with the password its login verified. -/
structure Session where
  tokenHash : String
  userId : String
  csrfHash : String
  createdAt : ℤ
  expiresAt : ℤ
  lastSeenAt : ℤ
  password : Option String := none
deriving DecidableEq, Repr

structure LoginAttempt where
  identifierHash : String
  ipHash : String
  attemptedAt : ℤ
  succeeded : Bool
deriving DecidableEq, Repr

/-- A password change: who made it, the password it gave as current, the hash that its update found and
the hash that it stored. -/
structure Change where
  userId : String
  tokenHash : String
  currentPassword : String
  before : Option PasswordHash
  stored : PasswordHash
deriving DecidableEq, Repr

structure Tables where
  users : List User
  sessions : List Session
  loginAttempts : List LoginAttempt
  primaryKey : (users.map User.userId).Nodup

structure Database extends Tables where
  changes : List Change

/-- `SELECT * FROM users WHERE email = ?`. -/
def Database.userByEmail (d : Database) (email : String) : Option User :=
  d.users.find? fun u => u.email = email

/-- `SELECT password_hash FROM users WHERE user_id = ?`. -/
def Database.passwordHash (d : Database) (userId : String) : Option PasswordHash :=
  (d.users.find? fun u => u.userId = userId).map User.passwordHash

def loginWindowSeconds : ℤ := 15 * 60

def maxLoginFailures : ℕ := 5

/-- The failures that `_rate_limited` counts. -/
def Database.failures (d : Database) (identifierHash ipHash : String) (now : ℤ) : ℕ :=
  d.loginAttempts.countP fun a =>
    !a.succeeded && now - loginWindowSeconds ≤ a.attemptedAt &&
      (a.identifierHash = identifierHash || a.ipHash = ipHash)

def Database.purgeSessions (d : Database) (now : ℤ) : Database :=
  { d with sessions := d.sessions.filter fun s => now < s.expiresAt }

def Database.purgeLoginAttempts (d : Database) (now : ℤ) : Database :=
  { d with loginAttempts := d.loginAttempts.filter fun a => now - 24 * 60 * 60 ≤ a.attemptedAt }

def Database.insertLoginAttempt (d : Database) (attempt : LoginAttempt) : Database :=
  { d with loginAttempts := d.loginAttempts ++ [attempt] }

/-- The primary key of `sessions` refuses a token that is there. -/
def Database.insertSession (d : Database) (session : Session) : Option Database :=
  if session.tokenHash ∈ d.sessions.map Session.tokenHash then none
  else some { d with sessions := d.sessions ++ [session] }

/-- `UPDATE users SET password_hash = ?, updated_at = ? WHERE user_id = ?`, on one row. -/
def User.update (userId : String) (encoded : PasswordHash) (now : String) (u : User) : User :=
  if u.userId = userId then { u with passwordHash := encoded, updatedAt := now } else u

@[simp] lemma User.update_userId (userId : String) (encoded : PasswordHash) (now : String) (u : User) :
    (u.update userId encoded now).userId = u.userId := by
  unfold User.update
  split_ifs <;> rfl

def Database.updatePassword (d : Database) (userId tokenHash currentPassword : String)
    (encoded : PasswordHash) (now : String) : Database where
  users := d.users.map (User.update userId encoded now)
  sessions := d.sessions
  loginAttempts := d.loginAttempts
  changes := ⟨userId, tokenHash, currentPassword, d.passwordHash userId, encoded⟩ :: d.changes
  primaryKey := by
    rw [List.map_map]
    have hids : User.userId ∘ User.update userId encoded now = User.userId := by
      funext u
      simp
    rw [hids]
    exact d.primaryKey

/-- `DELETE FROM sessions WHERE user_id = ? AND token_hash != ?`. -/
def Database.deleteOtherSessions (d : Database) (userId tokenHash : String) : Database :=
  { d with sessions := d.sessions.filter fun s => !(s.userId = userId && s.tokenHash != tokenHash) }

end Tables

section Calls

/-- The checked arguments of `login`, and the time of the call. -/
structure LoginArguments where
  email : String
  password : String
  identifierHash : String
  ipHash : String
  now : ℤ
deriving DecidableEq, Repr

/-- The checked arguments of `change_password`. -/
structure ChangeArguments where
  userId : String
  tokenHash : String
  currentPassword : String
  newPassword : String
deriving DecidableEq, Repr

/-- What a login returns. -/
structure LoggedIn where
  token : String
  csrfToken : String
  expiresAt : ℤ
  userId : String
  email : String
  role : String
  status : String
deriving DecidableEq, Repr

/-- A call before its next statement. From its `SELECT` on, a password change carries how many changes
there were at that moment. -/
inductive Stage
  | purgeSessions (a : LoginArguments)
  | purgeLoginAttempts (a : LoginArguments)
  | countFailures (a : LoginArguments)
  | selectUser (a : LoginArguments)
  | insertLoginAttempt (a : LoginArguments) (row : Option User)
  | insertSession (a : LoginArguments) (row : User)
  | commitLogin (result : LoggedIn)
  | commitRefusal (e : PyError)
  | selectPasswordHash (a : ChangeArguments)
  | updateUser (a : ChangeArguments) (encoded : PasswordHash) (seen : ℕ)
  | deleteSessions (a : ChangeArguments) (seen : ℕ)
  | commitChange (a : ChangeArguments) (seen : ℕ)
  | loggedIn (result : LoggedIn)
  | changed
  | raised (e : PyError)
deriving DecidableEq, Repr

inductive Request
  | login (email password clientIp : String) (now : ℤ)
  | changePassword (session : Option (String × String)) (currentPassword newPassword : String)

/-- What `secrets` and the clock give. -/
structure Answer where
  salt : String
  token : String
  csrfToken : String
  now : String

variable (crypto : Crypto)

def loginArguments (email password clientIp : String) (now : ℤ) : Except PyError LoginArguments := do
  let email := crypto.casefold email
  raiseIf (email = "" ∨ 320 < email.length ∨ password = "" ∨ 1024 < password.length)
    (.valueError "Invalid email or password.")
  pure ⟨email, password, crypto.sha256 email, crypto.sha256 clientIp, now⟩

def changeArguments (session : Option (String × String)) (currentPassword newPassword : String) :
    Except PyError ChangeArguments :=
  match session with
  | none => throw (.permissionError "Authentication required.")
  | some (userId, tokenHash) => do
    raiseIf (newPassword.length < 12 ∨ 1024 < newPassword.length)
      (.valueError "New password must contain at least 12 characters.")
    pure ⟨userId, tokenHash, currentPassword, newPassword⟩

def Request.start : Request → Stage
  | .login email password clientIp now =>
    match loginArguments crypto email password clientIp now with
    | .ok a => .purgeSessions a
    | .error e => .raised e
  | .changePassword session currentPassword newPassword =>
    match changeArguments session currentPassword newPassword with
    | .ok a => .selectPasswordHash a
    | .error e => .raised e

/-- The row of a login whose password is right and whose account is active. -/
def verifiedUser (password : String) (row : Option User) : Option User :=
  let encoded := (row.map User.passwordHash).getD defaultPasswordHash
  if verifyPassword crypto password encoded then row.filter fun u => u.status = "active" else none

def sessionLifetimeSeconds : ℤ := 7 * 24 * 60 * 60

def newSession (a : LoginArguments) (row : User) (answer : Answer) : Session where
  tokenHash := crypto.sha256 answer.token
  userId := row.userId
  csrfHash := crypto.sha256 answer.csrfToken
  createdAt := a.now
  expiresAt := a.now + sessionLifetimeSeconds
  lastSeenAt := a.now
  password := some a.password

def loginResult (a : LoginArguments) (row : User) (answer : Answer) : LoggedIn :=
  ⟨answer.token, answer.csrfToken, a.now + sessionLifetimeSeconds, row.userId, row.email, row.role, row.status⟩

/-- The new hash of a change whose current password is right for the hash that was read. -/
def checkCurrentPassword (a : ChangeArguments) (row : Option PasswordHash) (salt : String) :
    Except PyError PasswordHash :=
  match row with
  | none => throw (.valueError "Current password is incorrect.")
  | some encoded => do
    raiseIf (!verifyPassword crypto a.currentPassword encoded) (.valueError "Current password is incorrect.")
    hashPassword crypto a.newPassword salt

def afterSelect (a : ChangeArguments) (salt : String) (d : Database) : Stage :=
  match checkCurrentPassword crypto a (d.passwordHash a.userId) salt with
  | .ok encoded => .updateUser a encoded d.changes.length
  | .error e => .raised e

def afterAttempt (a : LoginArguments) (row : Option User) : Stage :=
  match verifiedUser crypto a.password row with
  | some user => .insertSession a user
  | none => .commitRefusal (.valueError "Invalid email or password.")

/-- The next statement of a call. -/
def Stage.statement (answer : Answer) : Stage → Statement Database Stage
  | .purgeSessions a => .write (fun d => some (d.purgeSessions a.now)) (.purgeLoginAttempts a)
  | .purgeLoginAttempts a => .write (fun d => some (d.purgeLoginAttempts a.now)) (.countFailures a)
  | .countFailures a => .select fun d =>
    if maxLoginFailures ≤ d.failures a.identifierHash a.ipHash a.now then
      .commitRefusal (.permissionError "Too many login attempts. Try again later.")
    else .selectUser a
  | .selectUser a => .select fun d => .insertLoginAttempt a (d.userByEmail a.email)
  | .insertLoginAttempt a row =>
    .write (fun d => some (d.insertLoginAttempt
      ⟨a.identifierHash, a.ipHash, a.now, (verifiedUser crypto a.password row).isSome⟩))
      (afterAttempt crypto a row)
  | .insertSession a row =>
    .write (fun d => d.insertSession (newSession crypto a row answer)) (.commitLogin (loginResult a row answer))
  | .commitLogin result => .commit (.loggedIn result)
  | .commitRefusal e => .commit (.raised e)
  | .selectPasswordHash a => .select (afterSelect crypto a answer.salt)
  | .updateUser a encoded seen =>
    .write (fun d => some (d.updatePassword a.userId a.tokenHash a.currentPassword encoded answer.now))
      (.deleteSessions a seen)
  | .deleteSessions a seen =>
    .write (fun d => some (d.deleteOtherSessions a.userId a.tokenHash)) (.commitChange a seen)
  | .commitChange _ _ => .commit .changed
  | .loggedIn _ => .finished
  | .changed => .finished
  | .raised _ => .finished

/-- The calls of the control plane. A statement fails where the database stays locked for too long. -/
def client : Client Database Stage Request Answer where
  start := Request.start crypto
  statement := Stage.statement crypto
  failed := .raised (.runtimeError "database is locked")

end Calls

end TradeFramework.Auth
