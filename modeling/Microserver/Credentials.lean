import Mathlib.Logic.Function.Basic
import Microserver.Accounts

/-!
The users store as a map from usernames to passwords and roles. The map knows
nothing of hashes and statements: a call that returns nil adds an entry,
replaces a password or removes an entry, and a call that fails does nothing. The
table `Represents` the map when it holds, for every entry, a hash of its
password.
-/
namespace Microserver.Credentials
open Microserver.Programs Microserver.Ranking Microserver.Users Microserver.Tokens Microserver.Requests Microserver.Accounts

/-! ### The abstract map -/

/-- Passwords and roles by username. -/
abbrev CredentialMap := String → Option (String × String)

/-- The operations that write users. -/
inductive Call
  | ensureBootstrapAdmin (username password : String)
  | createUser (username password role : String)
  | changePassword (username currentPassword newPassword : String)
  | resetPassword (username newPassword : String)
  | deleteUser (username : String)

open Classical in
/-- What a call does when it returns nil. -/
noncomputable def CredentialMap.after (M : CredentialMap) : Call → CredentialMap
  | .ensureBootstrapAdmin username password =>
    if ∀ u, M u = none then Function.update M username (some (password, RoleAdmin)) else M
  | .createUser username password role => Function.update M username (some (password, role))
  | .changePassword username _ newPassword =>
    Function.update M username ((M username).map fun entry => (newPassword, entry.2))
  | .resetPassword username newPassword =>
    Function.update M username ((M username).map fun entry => (newPassword, entry.2))
  | .deleteUser username => Function.update M username none

/-- What must hold before a call that returns nil. -/
def CredentialMap.Allows (M : CredentialMap) : Call → Prop
  | .ensureBootstrapAdmin .. => True
  | .createUser username _ _ => M username = none
  | .changePassword username currentPassword _ => ∃ role, M username = some (currentPassword, role)
  | .resetPassword username _ => M username ≠ none
  | .deleteUser _ => True

/-- An allowed call leaves the roles of the users that stay. -/
theorem CredentialMap.role_after {M : CredentialMap} {call : Call} (allowed : M.Allows call) {u password role password' role' : String}
    (before : M u = some (password, role)) (later : M.after call u = some (password', role')) : role' = role := by
  cases call with
  | ensureBootstrapAdmin username password₀ =>
    have some_user : ¬ ∀ u, M u = none := fun empty => by simp [empty u] at before
    simp only [after, if_neg some_user, before] at later
    cases later
    rfl
  | createUser username password₀ role₀ =>
    have different : u ≠ username := by
      rintro rfl
      have free : M u = none := allowed
      rw [free] at before
      cases before
    simp only [after, Function.update_of_ne different, before] at later
    cases later
    rfl
  | changePassword username currentPassword newPassword | resetPassword username newPassword =>
    by_cases same : u = username
    · subst same
      simp only [after, Function.update_self, before, Option.map_some] at later
      cases later
      rfl
    · simp only [after, Function.update_of_ne same, before] at later
      cases later
      rfl
  | deleteUser username =>
    by_cases same : u = username
    · subst same
      simp [after] at later
    · simp only [after, Function.update_of_ne same, before] at later
      cases later
      rfl

/-! ### The table by usernames -/

/-- SELECT FROM users WHERE username = ?. -/
def lookup (t : UserTable) (username : String) : Option User := t.rows.find? (fun u => u.username = username)

theorem lookup_some {t : UserTable} {username : String} {u : User} (found : lookup t username = some u) :
    u ∈ t.rows ∧ u.username = username :=
  ⟨List.mem_of_find?_eq_some found, by simpa using List.find?_some found⟩

theorem lookup_iff {t : UserTable} {u : User} {username : String} :
    lookup t username = some u ↔ u ∈ t.rows ∧ u.username = username := by
  refine ⟨lookup_some, ?_⟩
  rintro ⟨member, rfl⟩
  cases found : lookup t u.username with
  | none =>
    have absent := List.find?_eq_none.mp found u member
    simp at absent
  | some v =>
    obtain ⟨stored, name⟩ := lookup_some found
    rw [List.inj_on_of_nodup_map t.key stored member name]

theorem lookup_insert {t t' : UserTable} {u : User} (done : t.insert u = .ok t') (username : String) :
    lookup t u.username = none ∧ lookup t' username = if username = u.username then some u else lookup t username := by
  unfold UserTable.insert at done
  by_cases taken : u.username ∈ t.rows.map (·.username)
  · rw [dif_pos taken] at done
    cases done
  · rw [dif_neg taken] at done
    cases done
    have free : lookup t u.username = none := by
      refine List.find?_eq_none.mpr fun v member => ?_
      simpa using fun same => taken (List.mem_map.mpr ⟨v, member, same⟩)
    refine ⟨free, ?_⟩
    unfold lookup at free ⊢
    rw [List.find?_append]
    by_cases same : username = u.username
    · subst same
      simp [free]
    · have other : ¬ u.username = username := fun equal => same equal.symm
      simp [same, other]

theorem lookup_delete (t : UserTable) (username name : String) :
    lookup (t.delete username) name = if name = username then none else lookup t name := by
  unfold lookup UserTable.delete
  rw [List.find?_filter]
  by_cases same : name = username
  · subst same
    rw [if_pos rfl, List.find?_eq_none]
    intro u member
    simp
  · rw [if_neg same]
    congr 1
    funext u
    by_cases here : u.username = name
    · simp [here, same]
    · simp [here]

theorem lookup_setHash (t : UserTable) (hash username name : String) :
    lookup (t.setHash hash username) name =
      if name = username then (lookup t name).map fun u => { u with passwordHash := hash } else lookup t name := by
  have kept : (fun u : User => decide (u.username = name)) ∘
      (fun u => if u.username = username then { u with passwordHash := hash } else u) = fun u => decide (u.username = name) := by
    funext u
    by_cases same : u.username = username <;> simp [same]
  unfold lookup UserTable.setHash
  rw [List.find?_map, kept]
  cases found : t.rows.find? (fun u => decide (u.username = name)) with
  | none => simp
  | some u =>
    have named : u.username = name := by simpa using List.find?_some found
    by_cases same : name = username
    · simp [same, named]
    · simp [same, named]

/-! ### What the operations do to the table -/

section Operations
variable {B : Bcrypt} {t : UserTable}

theorem wp_getUser {Q : Except UserErr User → UserTable → Prop} {username : String}
    (onError : ∀ e, (e = .userNotFound → lookup t username = none) → Q (.error e) t)
    (onOk : ∀ u, lookup t username = some u → Q (.ok u) t) : userMachine.wp Q (Users.getUser username) t := by
  unfold Users.getUser
  rw [Prog.bind_eq, Machine.wp_bind, Machine.wp_call]
  refine ⟨?_, fun e _ => onError _ nofun, onError _ nofun⟩
  intro found t' read
  have same : lookup t username = found ∧ t = t' := by
    simpa [userMachine, UserStmt.exec, lookup] using read
  obtain ⟨rfl, rfl⟩ := same
  cases there : lookup t username with
  | none => exact onError _ fun _ => there
  | some u => exact onOk u there

theorem wp_setPasswordHash {Q : Except UserErr Unit → UserTable → Prop} {username newPassword : String}
    (onError : ∀ e, Q (.error e) t)
    (onOk : ∀ hash, minPasswordLength ≤ newPassword.utf8ByteSize → B.generateFromPassword newPassword = .ok hash →
      Q (.ok ()) (t.setHash hash username)) : userMachine.wp Q (setPasswordHash B username newPassword) t := by
  unfold setPasswordHash
  by_cases short : newPassword.utf8ByteSize < minPasswordLength
  · rw [if_pos short]
    exact onError _
  · rw [if_neg short]
    unfold hashPassword
    cases hashed : B.generateFromPassword newPassword with
    | error msg => exact onError _
    | ok hash =>
      refine ⟨?_, fun e _ => onError _, onError _⟩
      intro _ t' done
      cases done
      exact onOk hash (not_lt.mp short) hashed

theorem wp_changePassword {Q : Except UserErr Unit → UserTable → Prop} {username currentPassword newPassword : String}
    (onError : ∀ e, Q (.error e) t)
    (onOk : ∀ u hash, lookup t username = some u → checkPassword B u currentPassword = true →
      minPasswordLength ≤ newPassword.utf8ByteSize → B.generateFromPassword newPassword = .ok hash →
      Q (.ok ()) (t.setHash hash username)) :
    userMachine.wp Q (changePassword B username currentPassword newPassword) t := by
  unfold changePassword
  rw [Prog.bind_eq, Machine.wp_bind]
  refine wp_getUser (fun e _ => onError e) fun u found => ?_
  show userMachine.wp Q (if _ then _ else _) t
  by_cases wrong : (!checkPassword B u currentPassword) = true
  · rw [if_pos wrong]
    exact onError _
  · rw [if_neg wrong]
    exact wp_setPasswordHash onError fun hash long hashed => onOk u hash found (by simpa using wrong) long hashed

theorem wp_resetPassword {Q : Except UserErr Unit → UserTable → Prop} {username newPassword : String}
    (onError : ∀ e, Q (.error e) t)
    (onOk : ∀ u hash, lookup t username = some u → minPasswordLength ≤ newPassword.utf8ByteSize →
      B.generateFromPassword newPassword = .ok hash → Q (.ok ()) (t.setHash hash username)) :
    userMachine.wp Q (resetPassword B username newPassword) t := by
  unfold resetPassword
  rw [Prog.bind_eq, Machine.wp_bind]
  exact wp_getUser (fun e _ => onError e) fun u found => wp_setPasswordHash onError fun hash => onOk u hash found

theorem wp_createUser {Q : Except UserErr Unit → UserTable → Prop} {username password role : String}
    (onError : ∀ e, Q (.error e) t)
    (onOk : ∀ hash t', minPasswordLength ≤ password.utf8ByteSize → B.generateFromPassword password = .ok hash →
      t.insert ⟨username, hash, role⟩ = .ok t' → Q (.ok ()) t') :
    userMachine.wp Q (createUser B username password role) t := by
  unfold createUser
  by_cases valid : (!Store.collectionNameRe username) = true
  · rw [if_pos valid]
    exact onError _
  · rw [if_neg valid]
    by_cases known : (!validRole role) = true
    · rw [if_pos known]
      exact onError _
    · rw [if_neg known]
      by_cases short : password.utf8ByteSize < minPasswordLength
      · rw [if_pos short]
        exact onError _
      · rw [if_neg short]
        unfold hashPassword
        cases hashed : B.generateFromPassword password with
        | error msg => exact onError _
        | ok hash =>
          refine ⟨?_, fun e _ => onError _, onError _⟩
          intro _ t' done
          cases inserted : t.insert ⟨username, hash, role⟩ with
          | error e => simp [userMachine, UserStmt.exec, inserted, Except.map] at done
          | ok t₁ =>
            have same : t₁ = t' := by simpa [userMachine, UserStmt.exec, inserted, Except.map] using done
            exact onOk hash t' (not_lt.mp short) hashed (same ▸ inserted)

theorem wp_deleteUser {Q : Except UserErr Bool → UserTable → Prop} {username : String} (onError : ∀ e, Q (.error e) t)
    (onAbsent : lookup t username = none → Q (.ok false) t) (onOk : ∀ found, Q (.ok found) (t.delete username)) :
    userMachine.wp Q (Users.deleteUser username) t := by
  have deletes : userMachine.wp Q
      ((Prog.call (.wrapped "deleting user") (.deleteUser username)).bind fun n => .ret (decide (n > 0))) t := by
    refine ⟨?_, fun e _ => onError _, onError _⟩
    intro n t' done
    cases done
    exact onOk _
  have gives_up (e : UserErr) (absent : e = .userNotFound → lookup t username = none) :
      userMachine.wp Q (if e = .userNotFound then .ret false else .fail e) t := by
    by_cases missing : e = .userNotFound
    · rw [if_pos missing]
      exact onAbsent (absent missing)
    · rw [if_neg missing]
      exact onError _
  unfold Users.deleteUser
  rw [Prog.bind_eq, Machine.wp_bind, Machine.wp_attempt]
  refine wp_getUser gives_up fun u found => ?_
  show userMachine.wp Q (if _ then _ else _) t
  by_cases admin : u.role = RoleAdmin
  · rw [if_pos admin]
    unfold Users.countAdmins
    rw [Prog.bind_eq, Machine.wp_bind, Machine.wp_call]
    refine ⟨?_, fun e _ => onError _, onError _⟩
    intro n t' counted
    cases counted
    show userMachine.wp Q (if _ then _ else _) t
    by_cases last : t.admins ≤ 1
    · rw [if_pos last]
      exact onError _
    · rw [if_neg last]
      exact deletes
  · rw [if_neg admin]
    exact deletes

theorem wp_ensureBootstrapAdmin {Q : Except UserErr Unit → UserTable → Prop} {username password : String}
    (onError : ∀ e, Q (.error e) t) (onSome : t.rows ≠ [] → Q (.ok ()) t)
    (onOk : t.rows = [] → ∀ hash t', minPasswordLength ≤ password.utf8ByteSize → B.generateFromPassword password = .ok hash →
      t.insert ⟨username, hash, RoleAdmin⟩ = .ok t' → Q (.ok ()) t') :
    userMachine.wp Q (Users.ensureBootstrapAdmin B username password) t := by
  unfold Users.ensureBootstrapAdmin Users.countUsers
  rw [Prog.bind_eq, Machine.wp_bind, Machine.wp_call]
  refine ⟨?_, fun e _ => onError _, onError _⟩
  intro n t' counted
  cases counted
  show userMachine.wp Q (if _ then _ else _) t
  by_cases populated : t.rows.length > 0
  · rw [if_pos populated]
    exact onSome (List.length_pos_iff.mp populated)
  · rw [if_neg populated]
    have none : t.rows = [] := List.length_eq_zero_iff.mp (by omega)
    by_cases missing : (username = "" || password = "") = true
    · rw [if_pos missing]
      exact onError _
    · rw [if_neg missing]
      exact wp_createUser onError (onOk none)

end Operations

/-! ### The table represents the map -/

/-- A hash of a password verifies that password and no other. -/
def Ideal (B : Bcrypt) : Prop :=
  ∀ password hash, B.generateFromPassword password = .ok hash →
    ∀ p, B.compareHashAndPassword hash p = true ↔ p = password

/-- The row of a user against its entry. -/
def Keeps (B : Bcrypt) (u : User) (entry : String × String) : Prop :=
  u.role = entry.2 ∧ ∀ p, checkPassword B u p = true ↔ p = entry.1

/-- The table has a row for every entry of the map, and no other. -/
def Represents (B : Bcrypt) (t : UserTable) (M : CredentialMap) : Prop :=
  ∀ username, Option.Rel (Keeps B) (lookup t username) (M username)

def Call.program (B : Bcrypt) : Call → UserOp Unit
  | .ensureBootstrapAdmin username password => Users.ensureBootstrapAdmin B username password
  | .createUser username password role => Users.createUser B username password role
  | .changePassword username currentPassword newPassword => Users.changePassword B username currentPassword newPassword
  | .resetPassword username newPassword => Users.resetPassword B username newPassword
  | .deleteUser username => do
    let _ ← Users.deleteUser username
    return ()

section Represents
variable {B : Bcrypt} {t t' : UserTable} {M : CredentialMap}

theorem Represents.none_iff (represents : Represents B t M) {username : String} :
    lookup t username = none ↔ M username = none := by
  have related := represents username
  revert related
  cases lookup t username <;> cases M username <;> intro related <;> cases related <;> simp

theorem Represents.row (represents : Represents B t M) {username : String} {u : User}
    (found : lookup t username = some u) : ∃ password, M username = some (password, u.role) ∧
      ∀ p, checkPassword B u p = true ↔ p = password := by
  have related := represents username
  rw [found] at related
  cases entry : M username with
  | none => simp [entry] at related
  | some pair =>
    rw [entry] at related
    cases related with
    | some keeps => exact ⟨pair.1, by rw [keeps.1], keeps.2⟩

theorem Represents.entry (represents : Represents B t M) {username password role : String}
    (entry : M username = some (password, role)) : ∃ u, lookup t username = some u ∧ u.role = role ∧
      ∀ p, checkPassword B u p = true ↔ p = password := by
  have related := represents username
  rw [entry] at related
  cases found : lookup t username with
  | none => simp [found] at related
  | some u =>
    rw [found] at related
    cases related with
    | some keeps => exact ⟨u, rfl, keeps⟩

theorem represents_empty : Represents B UserTable.empty (fun _ => none) := fun _ => .none

theorem Represents.insert (represents : Represents B t M) (ideal : Ideal B) {username password role hash : String}
    (hashed : B.generateFromPassword password = .ok hash) (done : t.insert ⟨username, hash, role⟩ = .ok t') :
    Represents B t' (Function.update M username (some (password, role))) := by
  intro name
  rw [(lookup_insert done name).2]
  by_cases same : name = username
  · subst same
    rw [if_pos rfl, Function.update_self]
    exact .some ⟨rfl, ideal password hash hashed⟩
  · rw [if_neg same, Function.update_of_ne same]
    exact represents name

theorem Represents.setHash (represents : Represents B t M) (ideal : Ideal B) {newPassword hash : String}
    (hashed : B.generateFromPassword newPassword = .ok hash) (username : String) :
    Represents B (t.setHash hash username) (Function.update M username ((M username).map fun entry => (newPassword, entry.2))) := by
  intro name
  rw [lookup_setHash]
  by_cases same : name = username
  · subst same
    rw [if_pos rfl, Function.update_self]
    have related := represents name
    revert related
    cases lookup t name <;> cases M name <;> intro related <;> cases related
    · exact .none
    · rename_i keeps
      exact .some ⟨keeps.1, ideal newPassword hash hashed⟩
  · rw [if_neg same, Function.update_of_ne same]
    exact represents name

theorem Represents.delete (represents : Represents B t M) (username : String) :
    Represents B (t.delete username) (Function.update M username none) := by
  intro name
  rw [lookup_delete]
  by_cases same : name = username
  · subst same
    rw [if_pos rfl, Function.update_self]
    exact .none
  · rw [if_neg same, Function.update_of_ne same]
    exact represents name

/-- An empty table represents the empty map. -/
theorem Represents.rows_nil_iff (represents : Represents B t M) : t.rows = [] ↔ ∀ u, M u = none := by
  constructor
  · intro empty u
    exact represents.none_iff.mp (by simp [lookup, empty])
  · intro empty
    refine List.eq_nil_iff_forall_not_mem.mpr fun u member => ?_
    have found : lookup t u.username = some u := lookup_iff.mpr ⟨member, rfl⟩
    have missing : lookup t u.username = none := represents.none_iff.mpr (empty _)
    rw [missing] at found
    cases found

end Represents

/-! ### Runs -/

/-- The table, and the map that follows it. -/
structure State where
  table : UserTable
  map : CredentialMap

/-- What the outcome of a call does to a state. -/
noncomputable def State.after (s : State) (call : Call) (outcome : Except UserErr Unit × UserTable) : State :=
  ⟨outcome.2, match outcome.1 with | .ok _ => s.map.after call | .error _ => s.map⟩

/-- One call with the statements that fail in it; the map follows when it returns nil. -/
noncomputable def State.step (B : Bcrypt) (s : State) (call : Call × List Bool) : State :=
  s.after call.1 (userMachine.run (call.1.program B) call.2 s.table)

noncomputable def State.run (B : Bcrypt) (calls : List (Call × List Bool)) : State :=
  calls.foldl (State.step B) ⟨UserTable.empty, fun _ => none⟩

/-- What is wanted of the outcome of a call. -/
structure Follows (B : Bcrypt) (s : State) (call : Call) (outcome : Except UserErr Unit) (t : UserTable) : Prop where
  represents : Represents B t (s.after call (outcome, t)).map
  allowed : outcome = .ok () → s.map.Allows call
  unchanged : ∀ e, outcome = .error e → t = s.table

theorem follows_error {B : Bcrypt} {s : State} (represents : Represents B s.table s.map) (call : Call) (e : UserErr) :
    Follows B s call (.error e) s.table := ⟨represents, nofun, fun _ _ => rfl⟩

/-- Every call follows the map, whichever statements fail. -/
theorem wp_follows {B : Bcrypt} (ideal : Ideal B) {s : State} (represents : Represents B s.table s.map) (call : Call) :
    userMachine.wp (Follows B s call) (call.program B) s.table := by
  cases call with
  | ensureBootstrapAdmin username password =>
    refine wp_ensureBootstrapAdmin (follows_error represents _) (fun populated => ?_) fun empty hash t' _ hashed inserted => ?_
    · have users : ¬ ∀ u, s.map u = none := fun none => populated (represents.rows_nil_iff.mpr none)
      refine ⟨?_, fun _ => trivial, nofun⟩
      simpa only [State.after, CredentialMap.after, if_neg users] using represents
    · have none : ∀ u, s.map u = none := represents.rows_nil_iff.mp empty
      refine ⟨?_, fun _ => trivial, nofun⟩
      simpa only [State.after, CredentialMap.after, if_pos none] using represents.insert ideal hashed inserted
  | createUser username password role =>
    refine wp_createUser (follows_error represents _) fun hash t' _ hashed inserted => ?_
    have free : lookup s.table username = none := (lookup_insert inserted username).1
    exact ⟨represents.insert ideal hashed inserted, fun _ => represents.none_iff.mp free, nofun⟩
  | changePassword username currentPassword newPassword =>
    refine wp_changePassword (follows_error represents _) fun u hash found verified _ hashed => ?_
    obtain ⟨password, entry, checks⟩ := represents.row found
    have same : currentPassword = password := (checks _).mp verified
    exact ⟨represents.setHash ideal hashed username, fun _ => ⟨u.role, same ▸ entry⟩, nofun⟩
  | resetPassword username newPassword =>
    refine wp_resetPassword (follows_error represents _) fun u hash found _ hashed => ?_
    obtain ⟨password, entry, -⟩ := represents.row found
    refine ⟨represents.setHash ideal hashed username, fun _ missing => ?_, nofun⟩
    rw [entry] at missing
    cases missing
  | deleteUser username =>
    have deleted : Follows B s (.deleteUser username) (.ok ()) (s.table.delete username) :=
      ⟨represents.delete username, fun _ => trivial, nofun⟩
    show userMachine.wp _ ((Users.deleteUser username).bind fun _ => .ret ()) s.table
    rw [Machine.wp_bind]
    refine wp_deleteUser (follows_error represents _) (fun absent => ?_) fun _ => deleted
    -- the user was not there, and the map has no entry to remove
    have missing : none = s.map username := (represents.none_iff.mp absent).symm
    have same : Function.update s.map username none = s.map := Function.update_eq_self_iff.mpr missing
    refine ⟨?_, fun _ => trivial, nofun⟩
    show Represents B s.table (Function.update s.map username none)
    rw [same]
    exact represents

theorem follows_run {B : Bcrypt} (ideal : Ideal B) {s : State} (represents : Represents B s.table s.map) (call : Call)
    (faults : List Bool) : Follows B s call (userMachine.run (call.program B) faults s.table).1
      (userMachine.run (call.program B) faults s.table).2 :=
  userMachine.wp_iff_run.mp (wp_follows ideal represents call) faults

/-- After every run the table represents the map. -/
theorem represents_run {B : Bcrypt} (ideal : Ideal B) (calls : List (Call × List Bool)) :
    Represents B (State.run B calls).table (State.run B calls).map :=
  run_always (I := fun s : State => Represents B s.table s.map)
    (fun _ call represents => (follows_run ideal represents call.1 call.2).represents) represents_empty calls

/-! ### What is read from a represented map -/

section Reads
variable {B : Bcrypt} {t : UserTable} {M : CredentialMap}

/-- handleLogin reads the row of the user and checks the password. -/
theorem eval_handleLogin (B : Bcrypt) (cfg : AuthConfig) (now : Int) (u p : String) (t : UserTable) :
    (userMachine.eval (handleLogin B cfg now (.ok ⟨u, p⟩)) t).1 =
      .ok (match lookup t u with
        | none => .error 401 "invalid credentials"
        | some row =>
          if !checkPassword B row p then .error 401 "invalid credentials"
          else .json 200 ⟨generateToken cfg now row.username row.role, cfg.TTL / 1000000000⟩) := by
  have read : userMachine.exec (.getUser u) t = .ok (lookup t u, t) := rfl
  show (userMachine.eval (.stmt (.getUser u) _) t).1 = _
  rw [userMachine.eval_ok read]
  cases lookup t u with
  | none => rfl
  | some row =>
    show (userMachine.eval (if _ then _ else _) t).1 = _
    by_cases wrong : (!checkPassword B row p) = true
    · rw [if_pos wrong]
      simp only [if_pos wrong]
      rfl
    · rw [if_neg wrong]
      simp only [if_neg wrong]
      rfl

/-- handleLogin answers with a token exactly for the password of an entry, and
    the token is for the role of the entry. -/
theorem handleLogin_iff (represents : Represents B t M) (cfg : AuthConfig) (now : Int) (u p : String)
    (response : LoginResponse) : (userMachine.eval (handleLogin B cfg now (.ok ⟨u, p⟩)) t).1 = .ok (.json 200 response) ↔
      ∃ role, M u = some (p, role) ∧ response = ⟨generateToken cfg now u role, cfg.TTL / 1000000000⟩ := by
  rw [eval_handleLogin]
  cases found : lookup t u with
  | none => simp [represents.none_iff.mp found]
  | some row =>
    obtain ⟨password, entry, checks⟩ := represents.row found
    have named : row.username = u := (lookup_some found).2
    simp only [entry, named]
    by_cases right : p = password
    · have verified : checkPassword B row p = true := (checks p).mpr right
      subst right
      simp only [verified, Bool.not_true, Bool.false_eq_true, ↓reduceIte]
      constructor
      · intro answered
        cases answered
        exact ⟨row.role, rfl, rfl⟩
      · rintro ⟨role, same, rfl⟩
        cases same
        rfl
    · have refused : checkPassword B row p = false := Bool.eq_false_iff.mpr fun verified => right ((checks p).mp verified)
      simp only [refused, Bool.not_false, ↓reduceIte]
      constructor
      · intro answered
        cases answered
      · rintro ⟨role, same, -⟩
        cases same
        exact absurd rfl right

/-- listUsers returns the entries in the order of their usernames. -/
theorem userInfos_iff (represents : Represents B t M) : (userInfos t).Pairwise (fun a b => a.username < b.username) ∧
    ∀ u role, (⟨u, role⟩ : UserInfo) ∈ userInfos t ↔ ∃ p, M u = some (p, role) := by
  constructor
  · have distinct : ((t.rows.map fun u => (⟨u.username, u.role⟩ : UserInfo)).map UserInfo.username).Nodup := by
      rw [List.map_map]
      exact t.key
    exact List.pairwise_map.mp (sortBy_ascending distinct)
  · intro u role
    have listed : (⟨u, role⟩ : UserInfo) ∈ userInfos t ↔ ∃ row ∈ t.rows, row.username = u ∧ row.role = role := by
      rw [userInfos, (sortBy_perm _ _).mem_iff, List.mem_map]
      simp
    rw [listed]
    constructor
    · rintro ⟨row, member, named, rfl⟩
      obtain ⟨password, entry, -⟩ := represents.row (lookup_iff.mpr ⟨member, named⟩)
      exact ⟨password, entry⟩
    · rintro ⟨password, entry⟩
      obtain ⟨row, found, roles, -⟩ := represents.entry entry
      exact ⟨row, (lookup_some found).1, (lookup_some found).2, roles⟩

end Reads

/-- After every run of calls, whichever statements fail in them, the users store
    reads as the map that followed the calls, and every further call follows it. -/
theorem run_refines_map (B : Bcrypt) (ideal : Ideal B) (cfg : AuthConfig) (calls : List (Call × List Bool)) :
    let s := State.run B calls
    (∀ now u p response, (userMachine.eval (handleLogin B cfg now (.ok ⟨u, p⟩)) s.table).1 = .ok (.json 200 response) ↔
      ∃ role, s.map u = some (p, role) ∧ response = ⟨generateToken cfg now u role, cfg.TTL / 1000000000⟩) ∧
    (∃ infos, listUsers false s.table = .ok infos ∧ infos.Pairwise (fun a b => a.username < b.username) ∧
      ∀ u role, (⟨u, role⟩ : UserInfo) ∈ infos ↔ ∃ p, s.map u = some (p, role)) ∧
    ∀ call faults outcome t, userMachine.run (call.program B) faults s.table = (outcome, t) →
      (outcome = .ok () → s.map.Allows call) ∧
      (∀ u password role password' role', s.map u = some (password, role) →
        (s.step B (call, faults)).map u = some (password', role') → role' = role) ∧
      (∀ e, outcome = .error e → t = s.table ∧ (s.step B (call, faults)).map = s.map) := by
  intro s
  have represents : Represents B s.table s.map := represents_run ideal calls
  refine ⟨handleLogin_iff represents cfg, ⟨userInfos s.table, rfl, userInfos_iff represents⟩, ?_⟩
  intro call faults outcome t ran
  have follows := follows_run ideal represents call faults
  have stepped : (s.step B (call, faults)) = s.after call (outcome, t) := by rw [State.step, ran]
  rw [ran] at follows
  rw [stepped]
  refine ⟨follows.allowed, ?_, ?_⟩
  · intro u password role password' role' before later
    cases outcome with
    | ok _ => exact CredentialMap.role_after (follows.allowed rfl) before later
    | error e =>
      have same : some (password', role') = some (password, role) := later.symm.trans before
      cases same
      rfl
  · rintro e rfl
    exact ⟨follows.unchanged e rfl, rfl⟩

theorem ideal_plainBcrypt : Ideal plainBcrypt := by
  intro password hash hashed p
  cases hashed
  simp [plainBcrypt, eq_comm]

/-- The bootstrapped admin of a run logs in. -/
theorem run_refines_map_root : Ideal plainBcrypt ∧
    (userMachine.eval (handleLogin plainBcrypt ⟨id, 0⟩ 0 (.ok ⟨"root", "rootpass"⟩))
      (State.run plainBcrypt [(.ensureBootstrapAdmin "root" "rootpass", [])]).table).1 =
        .ok (.json 200 ⟨generateToken ⟨id, 0⟩ 0 "root" RoleAdmin, 0⟩) := by
  refine ⟨ideal_plainBcrypt, ?_⟩
  refine ((run_refines_map plainBcrypt ideal_plainBcrypt ⟨id, 0⟩ _).1 0 "root" "rootpass" _).mpr ⟨RoleAdmin, ?_, rfl⟩
  have done : userMachine.run (Users.ensureBootstrapAdmin plainBcrypt "root" "rootpass") [] UserTable.empty =
      (.ok (), bootstrapped) := rfl
  simp [State.run, State.step, State.after, Call.program, done, CredentialMap.after]

end Microserver.Credentials
