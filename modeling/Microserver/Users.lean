import Microserver.Interleaving
import Microserver.Store
import Mathlib.Data.List.Nodup

/-!
The users table and the promise that an admin always remains. deleteUser counts
the admins in one statement and deletes in another, so with other requests in
between the promise holds exactly as far as the count, taken again when the
DELETE executes, still allows it.
-/
namespace Microserver.Users
open Microserver.Programs Microserver.Interleaving

def RoleAdmin : String := "admin"
def RoleReadOnly : String := "read-only"
def minPasswordLength : Nat := 8

inductive UserErr
  | userExists
  | userNotFound
  | invalidRole
  | invalidUsername
  | passwordTooShort
  | lastAdmin
  | wrongPassword
  | noBootstrapCredentials
  | uniqueConstraint
  | database
  | bcrypt (msg : String)
  | wrapped (context : String) (err : UserErr)
deriving DecidableEq

/-- `err.Error()`. -/
def UserErr.error : UserErr → String
  | .userExists => "user already exists"
  | .userNotFound => "user not found"
  | .invalidRole => "role must be \"admin\" or \"read-only\""
  | .invalidUsername => "username must match ^[a-zA-Z][a-zA-Z0-9_]\x7b0,62\x7d$"
  | .passwordTooShort => "password must be at least 8 characters"
  | .lastAdmin => "cannot remove the last admin user"
  | .wrongPassword => "current password is incorrect"
  | .noBootstrapCredentials =>
    "no users exist yet and AUTH_USERNAME/AUTH_PASSWORD are not set — can't bootstrap the first admin"
  | .uniqueConstraint => "UNIQUE constraint failed: users.username"
  | .database => "database failure"
  | .bcrypt msg => msg
  | .wrapped context err => context ++ ": " ++ err.error

/-- A row of the users table. -/
structure User where
  username : String
  passwordHash : String
  role : String
deriving DecidableEq

/-- The users table; the username is its key. -/
structure UserTable where
  rows : List User
  key : (rows.map (·.username)).Nodup

/-- The hash of a password, which may be refused, and its check. -/
structure Bcrypt where
  generateFromPassword : String → Except String String
  compareHashAndPassword : String → String → Bool

def UserTable.empty : UserTable := ⟨[], List.nodup_nil⟩

/-- INSERT INTO users. -/
def UserTable.insert (t : UserTable) (u : User) : Except UserErr UserTable :=
  if fresh : u.username ∈ t.rows.map (·.username) then .error .uniqueConstraint
  else .ok ⟨t.rows ++ [u], by
    rw [List.map_append, List.nodup_append]
    refine ⟨t.key, by simp, ?_⟩
    rintro a member b last rfl
    rw [List.map_singleton, List.mem_singleton] at last
    exact fresh (last ▸ member)⟩

/-- DELETE FROM users WHERE username = ?. -/
def UserTable.delete (t : UserTable) (username : String) : UserTable :=
  ⟨t.rows.filter (fun u => u.username ≠ username), t.key.sublist (List.filter_sublist.map _)⟩

/-- UPDATE users SET password_hash = ? WHERE username = ?. -/
def UserTable.setHash (t : UserTable) (hash username : String) : UserTable :=
  ⟨t.rows.map (fun u => if u.username = username then { u with passwordHash := hash } else u), by
    have names : (t.rows.map (fun u => if u.username = username then { u with passwordHash := hash } else u)).map (·.username) =
        t.rows.map (·.username) := by
      rw [List.map_map]
      refine List.map_congr_left fun u _ => ?_
      by_cases same : u.username = username <;> simp [same]
    rw [names]
    exact t.key⟩

/-- SELECT count(*) FROM users WHERE role = 'admin'. -/
def UserTable.admins (t : UserTable) : Nat := t.rows.countP (fun u => u.role = RoleAdmin)

/-- The statements on the users table. -/
inductive UserStmt : Type → Type
  | getUser (username : String) : UserStmt (Option User)
  | countAdmins : UserStmt Nat
  | countUsers : UserStmt Nat
  | insertUser (u : User) : UserStmt Unit
  | deleteUser (username : String) : UserStmt Nat
  | setPasswordHash (hash username : String) : UserStmt Unit

def UserStmt.exec {β : Type} : UserStmt β → UserTable → Except UserErr (β × UserTable)
  | .getUser username, t => .ok (t.rows.find? (fun u => u.username = username), t)
  | .countAdmins, t => .ok (t.admins, t)
  | .countUsers, t => .ok (t.rows.length, t)
  | .insertUser u, t => (t.insert u).map (fun t' => ((), t'))
  | .deleteUser username, t => .ok (t.rows.countP (fun u => u.username = username), t.delete username)
  | .setPasswordHash hash username, t => .ok ((), t.setHash hash username)

def userMachine : Machine UserStmt UserErr UserTable where
  exec := UserStmt.exec
  fault := .database

/-! ### The operations -/

abbrev UserOp (α : Type) := Prog UserStmt UserErr α

def validRole (role : String) : Bool := role = RoleAdmin || role = RoleReadOnly

def hashPassword (B : Bcrypt) (password : String) : UserOp String :=
  match B.generateFromPassword password with
  | .error msg => .fail (.wrapped "hashing password" (.bcrypt msg))
  | .ok hash => .ret hash

def createUser (B : Bcrypt) (username password role : String) : UserOp Unit :=
  if !Store.collectionNameRe username then .fail .invalidUsername
  else if !validRole role then .fail .invalidRole
  else if password.utf8ByteSize < minPasswordLength then .fail .passwordTooShort
  else do
    let hash ← hashPassword B password
    .call (fun e => if e = .uniqueConstraint then .userExists else .wrapped "creating user" e)
      (.insertUser ⟨username, hash, role⟩)

def getUser (username : String) : UserOp User := do
  match ← .call (.wrapped "looking up user") (.getUser username) with
  | none => .fail .userNotFound
  | some u => .ret u

def checkPassword (B : Bcrypt) (u : User) (password : String) : Bool := B.compareHashAndPassword u.passwordHash password

def countAdmins : UserOp Nat := .call (.wrapped "counting admins") .countAdmins

def deleteUser (username : String) : UserOp Bool := do
  match ← (getUser username).attempt with
  | .error e => if e = .userNotFound then return false else .fail e
  | .ok u =>
    if u.role = RoleAdmin then
      let n ← countAdmins
      if n ≤ 1 then .fail .lastAdmin
      else
        let n ← .call (.wrapped "deleting user") (.deleteUser username)
        return decide (n > 0)
    else
      let n ← .call (.wrapped "deleting user") (.deleteUser username)
      return decide (n > 0)

def setPasswordHash (B : Bcrypt) (username newPassword : String) : UserOp Unit :=
  if newPassword.utf8ByteSize < minPasswordLength then .fail .passwordTooShort
  else do
    let hash ← hashPassword B newPassword
    .call (.wrapped "updating password") (.setPasswordHash hash username)

def changePassword (B : Bcrypt) (username currentPassword newPassword : String) : UserOp Unit := do
  let u ← getUser username
  if !checkPassword B u currentPassword then .fail .wrongPassword
  else setPasswordHash B username newPassword

def resetPassword (B : Bcrypt) (username newPassword : String) : UserOp Unit := do
  let _ ← getUser username
  setPasswordHash B username newPassword

def countUsers : UserOp Nat := .call (.wrapped "counting users") .countUsers

def ensureBootstrapAdmin (B : Bcrypt) (username password : String) : UserOp Unit := do
  let n ← countUsers
  if n > 0 then .ret ()
  else if username = "" || password = "" then .fail .noBootstrapCredentials
  else createUser B username password RoleAdmin

/-! ### Requests -/

inductive Request
  | createUser (username password role : String)
  | deleteUser (username : String)
  | changePassword (username currentPassword newPassword : String)
  | resetPassword (username newPassword : String)

def Request.program (B : Bcrypt) : Request → UserOp Unit
  | .createUser username password role => Users.createUser B username password role
  | .deleteUser username => do
    let _ ← Users.deleteUser username
    return ()
  | .changePassword username currentPassword newPassword => Users.changePassword B username currentPassword newPassword
  | .resetPassword username newPassword => Users.resetPassword B username newPassword

def pool (B : Bcrypt) (t : UserTable) (requests : List Request) : Pool UserStmt UserErr UserTable Unit :=
  ⟨t, requests.map (Request.program B)⟩

def HasAdmin (t : UserTable) : Prop := ∃ u ∈ t.rows, u.role = RoleAdmin

instance (t : UserTable) : Decidable (HasAdmin t) := by
  unfold HasAdmin
  exact inferInstance

/-- What deleteUser checks before its DELETE, in the state where the DELETE
    executes: the user is no admin, or not the only one. -/
def StillAllowed {β : Type} : UserStmt β → UserTable → Prop
  | .deleteUser username, t => (∃ u ∈ t.rows, u.username = username ∧ u.role = RoleAdmin) → ¬ t.admins ≤ 1
  | _, _ => True

instance {β : Type} (c : UserStmt β) (t : UserTable) : Decidable (StillAllowed c t) := by
  cases c <;> (unfold StillAllowed; exact inferInstance)

/-- An admin is left after a DELETE exactly when the check still allows it. -/
theorem hasAdmin_delete_iff {t : UserTable} (admin : HasAdmin t) (username : String) :
    HasAdmin (t.delete username) ↔ StillAllowed (.deleteUser username) t := by
  have one_of_two : t.rows.countP (fun u => u.role = RoleAdmin) =
      (t.delete username).rows.countP (fun u => u.role = RoleAdmin) +
        t.rows.countP (fun u => u.username = username ∧ u.role = RoleAdmin) := by
    simp only [UserTable.delete, List.countP_filter]
    rw [List.countP_eq_countP_filter_add _ _ (fun u => decide (u.username ≠ username)), List.countP_filter, List.countP_filter]
    congr 1
    refine List.countP_congr fun u _ => ?_
    simp [and_comm]
  -- the key lets the DELETE take one admin at most
  have at_most_one : t.rows.countP (fun u => u.username = username ∧ u.role = RoleAdmin) ≤ 1 := by
    have count := List.nodup_iff_count_le_one.mp t.key username
    rw [List.count, List.countP_map] at count
    refine le_trans (List.countP_mono_left ?_) count
    intro u _ both
    simp only [Function.comp_apply, beq_iff_eq]
    simp only [decide_eq_true_eq] at both
    exact both.1
  have after : HasAdmin (t.delete username) ↔ 0 < (t.delete username).rows.countP (fun u => u.role = RoleAdmin) := by
    simp [HasAdmin, List.countP_pos_iff]
  have before : 0 < t.rows.countP (fun u => u.role = RoleAdmin) := by
    obtain ⟨u, member, role⟩ := admin
    exact List.countP_pos_iff.mpr ⟨u, member, by simpa using role⟩
  have deleted : (∃ u ∈ t.rows, u.username = username ∧ u.role = RoleAdmin) ↔
      0 < t.rows.countP (fun u => u.username = username ∧ u.role = RoleAdmin) := by
    simp [List.countP_pos_iff]
  rw [after]
  show _ ↔ ((∃ u ∈ t.rows, u.username = username ∧ u.role = RoleAdmin) → ¬ t.admins ≤ 1)
  rw [deleted]
  unfold UserTable.admins
  omega

/-- One statement of the pool keeps an admin exactly when it is still allowed. -/
theorem hasAdmin_step_iff {p : Pool UserStmt UserErr UserTable Unit} {turn : Turn} (admin : HasAdmin p.shared) :
    HasAdmin (p.step userMachine turn).shared ↔ Pool.Executes StillAllowed p turn := by
  obtain ⟨i, faulty⟩ := turn
  unfold Pool.step Pool.Executes
  cases found : p.threads[i]? with
  | none => simpa using admin
  | some program =>
    cases program with
    | ret a => simpa [Machine.step] using admin
    | fail e => simpa [Machine.step] using admin
    | stmt c next =>
      cases faulty with
      | true => simpa [Machine.step] using admin
      | false =>
        simp only [true_implies]
        cases c with
        | getUser username => simpa [Machine.step, userMachine, UserStmt.exec, StillAllowed] using admin
        | countAdmins => simpa [Machine.step, userMachine, UserStmt.exec, StillAllowed] using admin
        | countUsers => simpa [Machine.step, userMachine, UserStmt.exec, StillAllowed] using admin
        | deleteUser username =>
          simpa [Machine.step, userMachine, UserStmt.exec] using hasAdmin_delete_iff admin username
        | insertUser u =>
          obtain ⟨v, member, role⟩ := admin
          by_cases taken : u.username ∈ p.shared.rows.map (·.username)
          · have refused : p.shared.insert u = .error .uniqueConstraint := by simp only [UserTable.insert, dif_pos taken]
            simp only [Machine.step, userMachine, UserStmt.exec, refused, Except.map, StillAllowed, iff_true]
            exact ⟨v, member, role⟩
          · simp only [Machine.step, userMachine, UserStmt.exec, UserTable.insert, dif_neg taken, Except.map, StillAllowed,
              iff_true]
            exact ⟨v, List.mem_append_left _ member, role⟩
        | setPasswordHash hash username =>
          obtain ⟨v, member, role⟩ := admin
          simp only [Machine.step, userMachine, UserStmt.exec, StillAllowed, iff_true]
          refine ⟨if v.username = username then { v with passwordHash := hash } else v,
            List.mem_map.mpr ⟨v, member, rfl⟩, ?_⟩
          by_cases same : v.username = username
          · rw [if_pos same]
            exact role
          · rw [if_neg same]
            exact role

/-- ensureBootstrapAdmin on an empty table leaves an admin when it succeeds. -/
theorem bootstrap_hasAdmin {B : Bcrypt} {username password : String} {faults : List Bool} {t : UserTable}
    (done : userMachine.run (ensureBootstrapAdmin B username password) faults UserTable.empty = (.ok (), t)) :
    HasAdmin t := by
  have judged : userMachine.wp (fun r t => r = .ok () → HasAdmin t) (ensureBootstrapAdmin B username password)
      UserTable.empty := by
    unfold ensureBootstrapAdmin countUsers
    rw [Prog.bind_eq, Machine.wp_bind, Machine.wp_call]
    refine ⟨?_, fun e _ impossible => (by cases impossible), fun impossible => (by cases impossible)⟩
    intro n t counted
    simp only [userMachine, UserStmt.exec, UserTable.empty, List.length_nil, Except.ok.injEq, Prod.mk.injEq] at counted
    rw [← counted.1, ← counted.2]
    simp only [Machine.Then, gt_iff_lt, Nat.lt_irrefl, ↓reduceIte]
    by_cases missing : (username = "" || password = "") = true
    · rw [if_pos missing]
      intro impossible
      cases impossible
    · rw [if_neg missing]
      unfold createUser hashPassword
      by_cases valid : (!Store.collectionNameRe username) = true
      · rw [if_pos valid]
        intro impossible
        cases impossible
      · rw [if_neg valid, if_neg (by decide)]
        by_cases short : password.utf8ByteSize < minPasswordLength
        · rw [if_pos short]
          intro impossible
          cases impossible
        · rw [if_neg short]
          cases B.generateFromPassword password with
          | error msg =>
            intro impossible
            cases impossible
          | ok hash =>
            refine ⟨?_, fun e _ impossible => (by cases impossible), fun impossible => (by cases impossible)⟩
            intro _ t' inserted _
            simp only [userMachine, UserStmt.exec, UserTable.insert, Except.map] at inserted
            cases inserted
            exact ⟨⟨username, hash, RoleAdmin⟩, by simp, rfl⟩
  have outcome := (userMachine.wp_iff_run.mp judged) faults
  rw [done] at outcome
  exact outcome rfl

/-- From a bootstrapped table, every state that the requests reach has an admin
    exactly when every DELETE they execute is still allowed where it executes. -/
theorem admin_remains_iff (B : Bcrypt) (username password : String) (faults : List Bool) (t : UserTable)
    (requests : List Request) (schedule : List Turn)
    (bootstrapped : userMachine.run (ensureBootstrapAdmin B username password) faults UserTable.empty = (.ok (), t)) :
    (∀ n, HasAdmin ((pool B t requests).run userMachine (schedule.take n)).shared) ↔
      Along (Pool.step userMachine) (Pool.Executes StillAllowed) schedule (pool B t requests) :=
  (along_iff (I := fun p : Pool UserStmt UserErr UserTable Unit => HasAdmin p.shared) (fun _ _ admin => hasAdmin_step_iff admin)
    (bootstrap_hasAdmin bootstrapped)).symm

/-- A hash that keeps the password, for runs on given inputs. -/
def plainBcrypt : Bcrypt := ⟨fun password => .ok password, fun hash password => decide (hash = password)⟩

def bootstrapped : UserTable := ⟨[⟨"root", "rootpass", RoleAdmin⟩], by simp⟩

def twoAdmins : List Request :=
  [.createUser "second" "password" RoleAdmin, .deleteUser "root", .deleteUser "second"]

/-- When the two admins are deleted one after the other, the second delete is refused. -/
theorem admin_remains_sequential :
    Along (Pool.step userMachine) (Pool.Executes StillAllowed)
        ((0, false) :: (List.replicate 3 (1, false) ++ List.replicate 3 (2, false))) (pool plainBcrypt bootstrapped twoAdmins) ∧
      ∀ n, HasAdmin ((pool plainBcrypt bootstrapped twoAdmins).run userMachine
        (((0, false) :: (List.replicate 3 (1, false) ++ List.replicate 3 (2, false))).take n)).shared :=
  ⟨by decide, (admin_remains_iff plainBcrypt "root" "rootpass" [] bootstrapped twoAdmins _ rfl).mpr (by decide)⟩

/-- Both requests count two admins before either of them deletes. -/
theorem interleaved_deletes_remove_admins :
    ¬ ∀ (B : Bcrypt) (username password : String) (t : UserTable) (requests : List Request) (schedule : List Turn),
      userMachine.run (ensureBootstrapAdmin B username password) [] UserTable.empty = (.ok (), t) →
        HasAdmin ((pool B t requests).run userMachine schedule).shared := by
  intro all
  have remains := all plainBcrypt "root" "rootpass" bootstrapped
    twoAdmins [(0, false), (1, false), (1, false), (2, false), (2, false), (1, false), (2, false)] rfl
  have lost : ¬ HasAdmin ((pool plainBcrypt bootstrapped twoAdmins).run userMachine
      [(0, false), (1, false), (1, false), (2, false), (2, false), (1, false), (2, false)]).shared := by decide
  exact lost remains

end Microserver.Users
