import TradeFramework.Control.Auth
import Mathlib.Data.List.Nodup

/-!
# Password changes

Logins write from their first statement, so they see no change but their own until they commit. A password
change reads the hash before its transaction opens, and another change may commit in between.
-/

namespace TradeFramework.Auth

open SingleWriter (Rules Kept Event)

section Databases

variable (crypto : Crypto)

/-- The last change of a user. -/
def Database.lastChange (d : Database) (userId : String) : Option Change :=
  d.changes.find? fun c => c.userId = userId

/-- The last change of a user among those since there were a number of changes. -/
def Database.lastChangeSince (d : Database) (seen : ℕ) (userId : String) : Option Change :=
  (d.changes.take (d.changes.length - seen)).find? fun c => c.userId = userId

/-- Every change verified its current password against the hash that its update replaced, and after the
last change of a user every session of the user is the changing session or that of a login that verified
the new password. -/
structure Linearizable (d : Database) : Prop where
  verified : ∀ c ∈ d.changes, ∃ encoded, c.before = some encoded ∧
    verifyPassword crypto c.currentPassword encoded = true
  sessions : ∀ userId c, d.lastChange userId = some c → ∀ s ∈ d.sessions, s.userId = userId →
    s.tokenHash = c.tokenHash ∨
      ∃ password, s.password = some password ∧ verifyPassword crypto password c.stored = true

/-- No other change of the user has committed since the change read the hash, or the password it gave as
current is right for the hash that the last of them stored. -/
def Permitted (d : Database) : Stage → Prop
  | .commitChange a seen => ∀ other, d.lastChangeSince seen a.userId = some other →
      verifyPassword crypto a.currentPassword other.stored = true
  | _ => True

variable {crypto} {d : Database}

lemma lastChange_of_since {seen : ℕ} {userId : String} {c : Change}
    (h : d.lastChangeSince seen userId = some c) : d.lastChange userId = some c := by
  unfold Database.lastChangeSince at h
  unfold Database.lastChange
  rw [← List.take_append_drop (d.changes.length - seen) d.changes, List.find?_append, h]
  rfl

/-- The row of a user id is the only one. -/
lemma passwordHash_of_mem {u : User} (h : u ∈ d.users) : d.passwordHash u.userId = some u.passwordHash := by
  unfold Database.passwordHash
  have hsome : (d.users.find? fun v => v.userId = u.userId).isSome := by
    rw [List.find?_isSome]
    exact ⟨u, h, by simp⟩
  obtain ⟨v, hv⟩ := Option.isSome_iff_exists.mp hsome
  have hid : v.userId = u.userId := by simpa using List.find?_some hv
  have hsame : v = u := List.inj_on_of_nodup_map d.primaryKey (List.mem_of_find?_eq_some hv) h hid
  rw [hv, hsame]
  rfl

lemma passwordHash_updatePassword (userId tokenHash currentPassword : String) (encoded : PasswordHash)
    (now other : String) :
    (d.updatePassword userId tokenHash currentPassword encoded now).passwordHash other =
      if other = userId then (d.passwordHash other).map fun _ => encoded else d.passwordHash other := by
  have hfind : (d.users.map (User.update userId encoded now)).find? (fun u => u.userId = other) =
      (d.users.find? fun u => u.userId = other).map (User.update userId encoded now) := by
    rw [List.find?_map]
    congr 2
    funext u
    simp
  unfold Database.passwordHash Database.updatePassword
  dsimp only
  rw [hfind]
  cases hrow : d.users.find? fun u => u.userId = other with
  | none => simp
  | some u =>
    have hid : u.userId = other := by simpa using List.find?_some hrow
    by_cases hother : other = userId
    · simp [User.update, hid, hother]
    · simp [User.update, hid, hother]

end Databases

section Invariants

variable (crypto : Crypto)

/-- A user's hash is the one that the last change stored, and a change has purged the sessions. -/
structure Settled (d : Database) : Prop where
  stored : ∀ userId c, d.lastChange userId = some c → d.passwordHash userId = some c.stored
  sessions : ∀ userId c, d.lastChange userId = some c → ∀ s ∈ d.sessions, s.userId = userId →
    s.tokenHash = c.tokenHash ∨
      ∃ password, s.password = some password ∧ verifyPassword crypto password c.stored = true

/-- A change that has read the hash verified it, unless another one has committed since. -/
structure HasRead (d : Database) (a : ChangeArguments) (seen : ℕ) : Prop where
  le : seen ≤ d.changes.length
  verified : d.lastChangeSince seen a.userId = none → ∃ encoded, d.passwordHash a.userId = some encoded ∧
    verifyPassword crypto a.currentPassword encoded = true

/-- A call that has no transaction. -/
def Outside (d : Database) : Stage → Prop
  | .purgeSessions _ => True
  | .selectPasswordHash _ => True
  | .updateUser a _ seen => HasRead crypto d a seen
  | .loggedIn _ => True
  | .changed => True
  | .raised _ => True
  | _ => False

/-- What a login has written before it inserts its session. -/
structure OnlyPurged (d copy : Database) : Prop where
  users : copy.users = d.users
  changes : copy.changes = d.changes
  sessions : ∀ s ∈ copy.sessions, s ∈ d.sessions

/-- What a login has written at its end: a session of a user whose password it verified. -/
structure Inserted (d copy : Database) : Prop where
  users : copy.users = d.users
  changes : copy.changes = d.changes
  sessions : ∀ s ∈ copy.sessions, s ∈ d.sessions ∨ ∃ u ∈ d.users, ∃ password, s.userId = u.userId ∧
    s.password = some password ∧ verifyPassword crypto password u.passwordHash = true

/-- What a change has written: its own update, and sessions may have left. -/
structure Updated (d copy : Database) (a : ChangeArguments) : Prop where
  change : ∃ encoded now, copy.users = (d.updatePassword a.userId a.tokenHash a.currentPassword encoded now).users ∧
    copy.changes = ⟨a.userId, a.tokenHash, a.currentPassword, d.passwordHash a.userId, encoded⟩ :: d.changes
  sessions : ∀ s ∈ copy.sessions, s ∈ d.sessions

/-- A call in a transaction. -/
def Inside (d copy : Database) : Stage → Prop
  | .purgeLoginAttempts _ => OnlyPurged d copy
  | .countFailures _ => OnlyPurged d copy
  | .selectUser _ => OnlyPurged d copy
  | .insertLoginAttempt _ row => OnlyPurged d copy ∧ ∀ u, row = some u → u ∈ d.users
  | .insertSession a row =>
    OnlyPurged d copy ∧ row ∈ d.users ∧ verifyPassword crypto a.password row.passwordHash = true
  | .commitRefusal _ => OnlyPurged d copy
  | .commitLogin _ => Inserted crypto d copy
  | .deleteSessions a seen => HasRead crypto d a seen ∧ Updated d copy a
  | .commitChange a seen => HasRead crypto d a seen ∧ Updated d copy a ∧
      ∀ s ∈ copy.sessions, s.userId = a.userId → s.tokenHash = a.tokenHash
  | _ => False

variable {crypto} {d copy : Database}

lemma OnlyPurged.inserted (h : OnlyPurged d copy) : Inserted crypto d copy :=
  ⟨h.users, h.changes, fun s hs => Or.inl (h.sessions s hs)⟩

lemma passwordHash_congr {d' : Database} (h : d'.users = d.users) (userId : String) :
    d'.passwordHash userId = d.passwordHash userId := by
  unfold Database.passwordHash
  rw [h]

lemma lastChange_congr {d' : Database} (h : d'.changes = d.changes) (userId : String) :
    d'.lastChange userId = d.lastChange userId := by
  unfold Database.lastChange
  rw [h]

lemma lastChangeSince_congr {d' : Database} (h : d'.changes = d.changes) (seen : ℕ) (userId : String) :
    d'.lastChangeSince seen userId = d.lastChangeSince seen userId := by
  unfold Database.lastChangeSince
  rw [h]

/-- A commit that changes no password leaves what a change has read. -/
lemma HasRead.congr {a : ChangeArguments} {seen : ℕ} (h : HasRead crypto d a seen)
    (husers : copy.users = d.users) (hchanges : copy.changes = d.changes) : HasRead crypto copy a seen where
  le := hchanges ▸ h.le
  verified hnone := by
    rw [lastChangeSince_congr hchanges] at hnone
    rw [passwordHash_congr husers]
    exact h.verified hnone

/-- A commit of another change leaves what a change of another user has read. -/
lemma HasRead.updated {a b : ChangeArguments} {seen : ℕ} (h : HasRead crypto d a seen)
    (hcopy : Updated d copy b) : HasRead crypto copy a seen := by
  obtain ⟨encoded, now, husers, hchanges⟩ := hcopy.change
  have hseen := h.le
  constructor
  · rw [hchanges, List.length_cons]
    omega
  · intro hnone
    unfold Database.lastChangeSince at hnone
    rw [hchanges, List.length_cons, Nat.sub_add_comm hseen, List.take_succ_cons, List.find?_cons] at hnone
    split at hnone
    · cases hnone
    · next hother =>
      have hne : ¬a.userId = b.userId := fun heq => by simp [heq] at hother
      rw [passwordHash_congr husers, passwordHash_updatePassword, if_neg hne]
      exact h.verified hnone

/-- The hash that a change's update replaces is there. -/
lemma HasRead.exists_before {a : ChangeArguments} {seen : ℕ} (h : HasRead crypto d a seen)
    (hsettled : Settled crypto d) : ∃ encoded, d.passwordHash a.userId = some encoded := by
  cases hsince : d.lastChangeSince seen a.userId with
  | none =>
    obtain ⟨encoded, hencoded, -⟩ := h.verified hsince
    exact ⟨encoded, hencoded⟩
  | some other => exact ⟨_, hsettled.stored _ _ (lastChange_of_since hsince)⟩

/-- The current password of a change is right for the hash its update replaces, exactly when the commit is
permitted. -/
lemma HasRead.verified_iff {a : ChangeArguments} {seen : ℕ} (h : HasRead crypto d a seen)
    (hsettled : Settled crypto d) :
    (∃ encoded, d.passwordHash a.userId = some encoded ∧
      verifyPassword crypto a.currentPassword encoded = true) ↔
      Permitted crypto d (.commitChange a seen) := by
  cases hsince : d.lastChangeSince seen a.userId with
  | none =>
    constructor
    · intro _ other hother
      rw [hsince] at hother
      cases hother
    · exact fun _ => h.verified hsince
  | some last =>
    have hstored := hsettled.stored _ _ (lastChange_of_since hsince)
    constructor
    · rintro ⟨encoded, hencoded, hverified⟩ other hother
      rw [hsince] at hother
      rw [hstored] at hencoded
      cases hother
      cases hencoded
      exact hverified
    · exact fun hpermitted => ⟨_, hstored, hpermitted last hsince⟩

/-- A login's commit: the sessions that were there, and one whose password is the one in force. -/
lemma Settled.inserted (h : Settled crypto d) (hcopy : Inserted crypto d copy) : Settled crypto copy where
  stored userId c hc := by
    rw [lastChange_congr hcopy.changes] at hc
    rw [passwordHash_congr hcopy.users]
    exact h.stored userId c hc
  sessions userId c hc s hs hsession := by
    rw [lastChange_congr hcopy.changes] at hc
    rcases hcopy.sessions s hs with hold | ⟨u, hu, password, hsame, hpassword, hverified⟩
    · exact h.sessions userId c hc s hold hsession
    · have hstored := h.stored userId c hc
      rw [← hsession, hsame, passwordHash_of_mem hu] at hstored
      rw [Option.some.inj hstored] at hverified
      exact Or.inr ⟨password, hpassword, hverified⟩

lemma lastChange_updated {a : ChangeArguments} {encoded : PasswordHash} {userId : String}
    (hchanges : copy.changes =
      ⟨a.userId, a.tokenHash, a.currentPassword, d.passwordHash a.userId, encoded⟩ :: d.changes) :
    copy.lastChange userId = if userId = a.userId then
      some ⟨a.userId, a.tokenHash, a.currentPassword, d.passwordHash a.userId, encoded⟩
      else d.lastChange userId := by
  unfold Database.lastChange
  rw [hchanges, List.find?_cons]
  by_cases huser : userId = a.userId
  · simp [huser]
  · have hne : ¬a.userId = userId := fun heq => huser heq.symm
    simp [huser, hne]

/-- A change's commit: its sessions are purged, and the other users keep theirs. -/
lemma Settled.updated (h : Settled crypto d) {a : ChangeArguments} (hcopy : Updated d copy a)
    (hbefore : ∃ encoded, d.passwordHash a.userId = some encoded)
    (hpurged : ∀ s ∈ copy.sessions, s.userId = a.userId → s.tokenHash = a.tokenHash) :
    Settled crypto copy := by
  obtain ⟨encoded, now, husers, hchanges⟩ := hcopy.change
  obtain ⟨before, hbefore⟩ := hbefore
  constructor
  · intro userId c hc
    rw [lastChange_updated hchanges] at hc
    rw [passwordHash_congr husers, passwordHash_updatePassword]
    by_cases huser : userId = a.userId
    · rw [if_pos huser] at hc ⊢
      cases hc
      rw [huser, hbefore]
      rfl
    · rw [if_neg huser] at hc ⊢
      exact h.stored userId c hc
  · intro userId c hc s hs hsession
    rw [lastChange_updated hchanges] at hc
    by_cases huser : userId = a.userId
    · rw [if_pos huser] at hc
      cases hc
      exact Or.inl (hpurged s hs (hsession.trans huser))
    · rw [if_neg huser] at hc
      exact h.sessions userId c hc s (hcopy.sessions s hs) hsession

end Invariants

section Calls

variable {crypto : Crypto} {d copy copy' : Database} {answer : Answer} {next : Stage}

lemma verifiedUser_eq_some {password : String} {row : Option User} {u : User}
    (h : verifiedUser crypto password row = some u) :
    row = some u ∧ verifyPassword crypto password u.passwordHash = true := by
  unfold verifiedUser at h
  dsimp only at h
  split_ifs at h with hverified
  cases row with
  | none => cases h
  | some v =>
    obtain ⟨hsame, -⟩ := Option.filter_eq_some_iff.mp h
    cases hsame
    exact ⟨rfl, hverified⟩

lemma checkCurrentPassword_eq_ok {a : ChangeArguments} {row : Option PasswordHash} {salt : String}
    {encoded : PasswordHash} (h : checkCurrentPassword crypto a row salt = .ok encoded) :
    ∃ read, row = some read ∧ verifyPassword crypto a.currentPassword read = true := by
  cases row with
  | none => cases h
  | some read =>
    obtain ⟨_, hverified, -⟩ := Raising.bind_eq_ok.mp h
    exact ⟨read, rfl, by simpa using hverified⟩

lemma start_outside (d : Database) (request : Request) : Outside crypto d (Request.start crypto request) := by
  cases request with
  | login email password clientIp now =>
    unfold Request.start
    dsimp only
    split <;> trivial
  | changePassword session currentPassword newPassword =>
    unfold Request.start
    dsimp only
    split <;> trivial

/-- A change reads the hash that is in force. -/
lemma afterSelect_outside (a : ChangeArguments) (salt : String) :
    Outside crypto d (afterSelect crypto a salt d) := by
  unfold afterSelect
  split
  · next encoded hchecked =>
    obtain ⟨read, hread, hverified⟩ := checkCurrentPassword_eq_ok hchecked
    exact ⟨Nat.le_refl _, fun _ => ⟨read, hread, hverified⟩⟩
  · trivial

lemma afterAttempt_inside {a : LoginArguments} {row : Option User} (h : OnlyPurged d copy)
    (hrow : ∀ u, row = some u → u ∈ d.users) : Inside crypto d copy (afterAttempt crypto a row) := by
  unfold afterAttempt
  split
  · next u hverified =>
    obtain ⟨hsome, hpassword⟩ := verifiedUser_eq_some hverified
    exact ⟨h, hrow u hsome, hpassword⟩
  · exact h

lemma OnlyPurged.insertSession {session : Session} {u : User} {password : String} (h : OnlyPurged d copy)
    (hu : u ∈ d.users) (huser : session.userId = u.userId) (hpassword : session.password = some password)
    (hverified : verifyPassword crypto password u.passwordHash = true)
    (hinsert : copy.insertSession session = some copy') : Inserted crypto d copy' := by
  unfold Database.insertSession at hinsert
  split_ifs at hinsert
  cases hinsert
  refine ⟨h.users, h.changes, ?_⟩
  intro s hs
  rcases List.mem_append.mp hs with hs | hs
  · exact Or.inl (h.sessions s hs)
  · rw [List.mem_singleton.mp hs]
    exact Or.inr ⟨u, hu, password, huser, hpassword, hverified⟩

lemma write_inside {call : Stage} {f : Database → Option Database} (h : Inside crypto d copy call)
    (hstatement : call.statement crypto answer = .write f next) (hf : f copy = some copy') :
    Inside crypto d copy' next := by
  cases call with
  | purgeLoginAttempts a =>
    cases hstatement
    cases hf
    have hpurged : OnlyPurged d copy := h
    exact ⟨hpurged.users, hpurged.changes, hpurged.sessions⟩
  | insertLoginAttempt a row =>
    cases hstatement
    cases hf
    exact afterAttempt_inside ⟨h.1.users, h.1.changes, h.1.sessions⟩ h.2
  | insertSession a row =>
    cases hstatement
    obtain ⟨hpurged, hrow, hverified⟩ := h
    exact hpurged.insertSession hrow rfl rfl hverified hf
  | deleteSessions a seen =>
    cases hstatement
    cases hf
    obtain ⟨hread, hcopy⟩ := h
    refine ⟨hread, ⟨hcopy.change, fun s hs => hcopy.sessions s (List.mem_of_mem_filter hs)⟩, ?_⟩
    intro s hs huser
    have hkept := (List.mem_filter.mp hs).2
    simpa [huser] using hkept
  | purgeSessions a => exact h.elim
  | updateUser a encoded seen => exact h.elim
  | _ => cases hstatement

lemma write_outside {call : Stage} {f : Database → Option Database} (h : Outside crypto d call)
    (hstatement : call.statement crypto answer = .write f next) (hf : f d = some copy) :
    Inside crypto d copy next := by
  cases call with
  | purgeSessions a =>
    cases hstatement
    cases hf
    exact ⟨rfl, rfl, fun s hs => List.mem_of_mem_filter hs⟩
  | updateUser a encoded seen =>
    cases hstatement
    cases hf
    exact ⟨h, ⟨encoded, answer.now, rfl, rfl⟩, fun s hs => hs⟩
  | purgeLoginAttempts a => exact h.elim
  | insertLoginAttempt a row => exact h.elim
  | insertSession a row => exact h.elim
  | deleteSessions a seen => exact h.elim
  | _ => cases hstatement

lemma select_inside {call : Stage} {read : Database → Stage} (h : Inside crypto d copy call)
    (hstatement : call.statement crypto answer = .select read) : Inside crypto d copy (read copy) := by
  cases call with
  | countFailures a =>
    cases hstatement
    dsimp only
    split_ifs
    · exact h
    · exact h
  | selectUser a =>
    cases hstatement
    refine ⟨h, ?_⟩
    intro u hu
    have hmem : u ∈ copy.users := List.mem_of_find?_eq_some hu
    exact h.users ▸ hmem
  | selectPasswordHash a => exact h.elim
  | _ => cases hstatement

lemma select_outside {call : Stage} {read : Database → Stage} (h : Outside crypto d call)
    (hstatement : call.statement crypto answer = .select read) : Outside crypto d (read d) := by
  cases call with
  | selectPasswordHash a =>
    cases hstatement
    exact afterSelect_outside a answer.salt
  | countFailures a => exact h.elim
  | selectUser a => exact h.elim
  | _ => cases hstatement

/-- What the commit of a transaction leaves to the calls outside. -/
lemma outside_of_committed {other : Stage} (h : Outside crypto d other)
    (hread : ∀ a seen, HasRead crypto d a seen → HasRead crypto copy a seen) : Outside crypto copy other := by
  cases other with
  | updateUser a encoded seen => exact hread a seen h
  | _ => exact h

lemma commit_inside {call : Stage} (hsettled : Settled crypto d) (h : Inside crypto d copy call)
    (hstatement : call.statement crypto answer = .commit next) :
    Settled crypto copy ∧ Outside crypto copy next ∧
      ∀ other, Outside crypto d other → Outside crypto copy other := by
  cases call with
  | commitLogin result =>
    cases hstatement
    have hinserted : Inserted crypto d copy := h
    refine ⟨hsettled.inserted hinserted, trivial, fun other hother => outside_of_committed hother ?_⟩
    exact fun a seen hread => hread.congr hinserted.users hinserted.changes
  | commitRefusal e =>
    cases hstatement
    have hpurged : OnlyPurged d copy := h
    refine ⟨hsettled.inserted hpurged.inserted, trivial, fun other hother => outside_of_committed hother ?_⟩
    exact fun a seen hread => hread.congr hpurged.users hpurged.changes
  | commitChange a seen =>
    cases hstatement
    obtain ⟨hread, hcopy, hpurged⟩ := h
    refine ⟨hsettled.updated hcopy (hread.exists_before hsettled) hpurged, trivial,
      fun other hother => outside_of_committed hother ?_⟩
    exact fun b seen' hother => hother.updated hcopy
  | _ => cases hstatement

variable (crypto)

lemma rules : Rules (client crypto) (Settled crypto) (Outside crypto) (Inside crypto) where
  start d request _ := start_outside d request
  failed _ := trivial
  select_outside _ _ _ _ _ h hstatement := select_outside h hstatement
  select_inside _ _ _ _ _ _ h hstatement := select_inside h hstatement
  write_outside _ _ _ _ _ _ _ h hstatement hf := write_outside h hstatement hf
  write_inside _ _ _ _ _ _ _ _ h hstatement hf := write_inside h hstatement hf
  commit_outside d call _ _ _ h hstatement := by
    cases call with
    | commitLogin result => exact h.elim
    | commitRefusal e => exact h.elim
    | commitChange a seen => exact h.elim
    | _ => cases hstatement
  commit_inside _ _ _ _ _ hsettled h hstatement := commit_inside hsettled h hstatement

/-- A commit keeps the changes linearizable exactly when it is permitted. -/
lemma linearizable_commit {call : Stage} (hsettled : Settled crypto d) (h : Inside crypto d copy call)
    (hstatement : call.statement crypto answer = .commit next) (hgood : Linearizable crypto d) :
    Linearizable crypto copy ↔ Permitted crypto d call := by
  have hcopySettled := (commit_inside hsettled h hstatement).1
  cases call with
  | commitLogin result =>
    have hinserted : Inserted crypto d copy := h
    refine ⟨fun _ => trivial, fun _ => ⟨?_, hcopySettled.sessions⟩⟩
    intro c hc
    exact hgood.verified c (hinserted.changes ▸ hc)
  | commitRefusal e =>
    have hpurged : OnlyPurged d copy := h
    refine ⟨fun _ => trivial, fun _ => ⟨?_, hcopySettled.sessions⟩⟩
    intro c hc
    exact hgood.verified c (hpurged.changes ▸ hc)
  | commitChange a seen =>
    obtain ⟨hread, hcopy, -⟩ := h
    obtain ⟨encoded, now, -, hchanges⟩ := hcopy.change
    rw [← hread.verified_iff hsettled]
    constructor
    · intro hlinearizable
      exact hlinearizable.verified ⟨a.userId, a.tokenHash, a.currentPassword, d.passwordHash a.userId, encoded⟩
        (by simp [hchanges])
    · intro hverified
      refine ⟨?_, hcopySettled.sessions⟩
      intro c hc
      rw [hchanges] at hc
      rcases List.mem_cons.mp hc with rfl | hc
      · exact hverified
      · exact hgood.verified c hc
  | _ => cases hstatement

end Calls

section Runs

variable (crypto : Crypto)

/-- Nobody has called yet, and nobody has changed a password. -/
def start (tables : Tables) : SingleWriter.State Database Stage := ⟨⟨tables, []⟩, none, []⟩

lemma settled_start (tables : Tables) : Settled crypto ⟨tables, []⟩ where
  stored userId c hc := by cases hc
  sessions userId c hc := by cases hc

lemma linearizable_start (tables : Tables) : Linearizable crypto ⟨tables, []⟩ where
  verified := by simp
  sessions userId c hc := by cases hc

/-- In every run, after the last change of a user every session of the user is the changing session or that
of a login that verified the new password. -/
theorem sessions_after_change (tables : Tables) (events : List (Event Request Answer)) :
    Settled crypto (Transitions.run (SingleWriter.step (client crypto)) (start tables) events).committed :=
  ((SingleWriter.kept_start _ (settled_start crypto tables)).run (rules crypto) events).committed

/-- The runs in which the changes stay linearizable are those in which every change commits as permitted. -/
theorem linearizable_iff (tables : Tables) (events : List (Event Request Answer)) :
    Transitions.Along (SingleWriter.step (client crypto))
        (SingleWriter.Allowed (client crypto) (Permitted crypto)) (start tables) events ↔
      ∀ reached, reached <+: events →
        Linearizable crypto
          (Transitions.run (SingleWriter.step (client crypto)) (start tables) reached).committed :=
  SingleWriter.along_allowed_iff (rules crypto)
    (fun _ _ _ _ _ hsettled h hstatement hgood => linearizable_commit crypto hsettled h hstatement hgood)
    (settled_start crypto tables) (linearizable_start crypto tables) events

/-- A digest that shows the password. -/
def plainCrypto : Crypto where
  scrypt password salt _ _ _ _ := .ok (password ++ salt)
  sha256 := id
  casefold := id

/-- One account, whose password is `first password`. -/
def oneAccount : Tables where
  users := [⟨"user", "user@example", ⟨"scrypt", 1, 1, 1, "", "first password"⟩, "admin", "active", ""⟩]
  sessions := [⟨"owner", "user", "", 0, 10, 0, none⟩, ⟨"thief", "user", "", 0, 10, 0, none⟩]
  loginAttempts := []
  primaryKey := by decide

/-- Two sessions verify the first password, and then both store a new one. -/
def concurrentChanges : List (Event Request Answer) :=
  let answer : Answer := ⟨"", "", "", ""⟩
  [.arrive (.changePassword (some ("user", "owner")) "first password" "second password"),
    .arrive (.changePassword (some ("user", "thief")) "first password" "third password"),
    .advance 0 answer, .advance 1 answer, .advance 0 answer, .advance 0 answer, .advance 0 answer,
    .advance 1 answer, .advance 1 answer, .advance 1 answer]

/-- The second change replaces a password that it never verified. -/
theorem concurrentChanges_not_linearizable :
    ¬Linearizable plainCrypto (Transitions.run (SingleWriter.step (client plainCrypto)) (start oneAccount)
      concurrentChanges).committed := by
  intro h
  have hlast : (Transitions.run (SingleWriter.step (client plainCrypto)) (start oneAccount)
      concurrentChanges).committed.changes.map
        (fun c => c.before.map (verifyPassword plainCrypto c.currentPassword)) = [some false, some true] := by
    with_unfolding_all decide
  have hmem : some false ∈ [some false, some true] := by simp
  rw [← hlast] at hmem
  obtain ⟨c, hc, hwrong⟩ := List.mem_map.mp hmem
  obtain ⟨encoded, hbefore, hverified⟩ := h.verified c hc
  rw [hbefore, Option.map_some, hverified] at hwrong
  cases hwrong

end Runs

end TradeFramework.Auth
