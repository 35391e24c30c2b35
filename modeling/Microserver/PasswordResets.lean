import Microserver.Authorization

/-!
Admins who reset passwords. The router sends PUT /users/{username}/password to
handleResetPassword, but for the user called me, which createUser accepts like
any other name: that path belongs to handleChangePassword, which takes the user
from the token and asks for the current password. No password is empty, so what
the admin sends is refused there.
-/
namespace Microserver.PasswordResets
open Microserver.Values Microserver.Programs Microserver.Requests Microserver.Accounts Microserver.Credentials
open Microserver.Router Microserver.Authorization
open Microserver.Users hiding Request

/-- A PUT /users/{username}/password by an admin, with the new password and
    nothing else in the body; no statement fails. -/
structure IsReset (W : Config) (r : Request) (username newPassword : String) : Prop where
  method : r.method = "PUT"
  path : r.path = ["users", username, "password"]
  clean : r.clean = true
  token : ∃ caller, bearer W.auth r = .ok ⟨caller, RoleAdmin⟩
  body : r.body = .json (.obj [("new_password", .str newPassword)])
  unfailing : r.faults = []

/-- A password that setPasswordHash accepts. -/
def Accepted (B : Bcrypt) (password : String) : Prop :=
  minPasswordLength ≤ password.utf8ByteSize ∧ ∃ hash, B.generateFromPassword password = .ok hash

/-- The request succeeds, and then the user, as before otherwise, has the
    password and no other user is changed. -/
structure Resets (W : Config) (s : Service) (r : Request) (username newPassword : String) : Prop where
  done : (serve W s r).1.status = 204
  user : ∃ u u', lookup s.users username = some u ∧ lookup (serve W s r).2.users username = some u' ∧ u'.role = u.role ∧
    ∀ p, checkPassword W.bcrypt u' p = true ↔ p = newPassword
  others : ∀ other ≠ username, lookup (serve W s r).2.users other = lookup s.users other

/-! ### The hashes that are stored -/

/-- Every hash in the table was made of a password that is long enough. -/
def Hashed (B : Bcrypt) (t : UserTable) : Prop :=
  ∀ u ∈ t.rows, ∃ password, minPasswordLength ≤ password.utf8ByteSize ∧ B.generateFromPassword password = .ok u.passwordHash

section Hashed
variable {B : Bcrypt} {t t' : UserTable}

theorem hashed_empty : Hashed B UserTable.empty := nofun

theorem Hashed.insert (hashed : Hashed B t) {u : User} {password : String} (long : minPasswordLength ≤ password.utf8ByteSize)
    (made : B.generateFromPassword password = .ok u.passwordHash) (done : t.insert u = .ok t') : Hashed B t' := by
  unfold UserTable.insert at done
  split at done
  · cases done
  · cases done
    intro v member
    rcases List.mem_append.mp member with old | new
    · exact hashed v old
    · rw [List.mem_singleton.mp new]
      exact ⟨password, long, made⟩

theorem Hashed.delete (hashed : Hashed B t) (username : String) : Hashed B (t.delete username) :=
  fun u member => hashed u (List.mem_filter.mp member).1

theorem Hashed.setHash (hashed : Hashed B t) {password hash : String} (long : minPasswordLength ≤ password.utf8ByteSize)
    (made : B.generateFromPassword password = .ok hash) (username : String) : Hashed B (t.setHash hash username) := by
  intro u member
  obtain ⟨v, stored, rfl⟩ := List.mem_map.mp member
  by_cases same : v.username = username
  · rw [if_pos same]
    exact ⟨password, long, made⟩
  · rw [if_neg same]
    exact hashed v stored

/-- No user has the empty password. -/
theorem Hashed.refuses_empty (hashed : Hashed B t) (ideal : Ideal B) {username : String} {u : User}
    (found : lookup t username = some u) : checkPassword B u "" = false := by
  obtain ⟨password, long, made⟩ := hashed u (lookup_some found).1
  refine Bool.eq_false_iff.mpr fun verified => ?_
  have empty : "" = password := (ideal password u.passwordHash made "").mp verified
  rw [← empty] at long
  exact absurd long (by decide)

end Hashed

/-! ### The routes and the hashes -/

/-- The handler keeps every hash one of a password that is long enough. -/
def KeepsHashed (h : Handler) : Prop := ∀ W ctx r s, Hashed W.bcrypt s.users → Hashed W.bcrypt (h W ctx r s).2.users

section KeepsHashed
variable {α β : Type}

theorem onDB_hashed (op : Context → Router.Request → Config → Operations.Op α) (respond : α → Response) :
    KeepsHashed (onDB op respond) := by
  intro W ctx r s hashed
  unfold onDB
  split <;> exact hashed

theorem onItems_hashed (op : Context → Router.Request → VecItems.ItemOp (Written VecItems.ItemBody)) : KeepsHashed (onItems op) := by
  intro W ctx r s hashed
  unfold onItems
  split <;> exact hashed

theorem onBackups_hashed (op : Context → Router.Request → Base64.Bytes → Backups.FileOp (Written Backups.BackupBody)) :
    KeepsHashed (onBackups op) := by
  intro W ctx r s hashed
  unfold onBackups
  split <;> exact hashed

theorem onUsers_hashed {op : Context → Router.Request → Config → UserOp (Written α)} {content : α → Content}
    (keeps : ∀ W ctx r t, Hashed W.bcrypt t → userMachine.wp (fun _ t' => Hashed W.bcrypt t') (op ctx r W) t) :
    KeepsHashed (onUsers op content) := by
  intro W ctx r s hashed
  have kept := userMachine.wp_iff_run.mp (keeps W ctx r s.users hashed) r.faults
  unfold onUsers
  cases ran : userMachine.run (op ctx r W) r.faults s.users with
  | mk outcome users =>
    rw [ran] at kept
    cases outcome <;> exact kept

theorem authOnly_hashed {h : Handler} (keeps : KeepsHashed h) : KeepsHashed (authOnly h) := by
  intro W ctx r s hashed
  unfold authOnly requireAuth
  cases bearer W.auth r with
  | error msg => exact hashed
  | ok ac => exact keeps W _ r s hashed

theorem admin_hashed {h : Handler} (keeps : KeepsHashed h) : KeepsHashed (admin h) := by
  refine authOnly_hashed fun W ctx r s hashed => ?_
  unfold requireAdmin
  cases ctx.auth with
  | none => exact hashed
  | some ac =>
    dsimp only
    split
    · exact hashed
    · exact keeps W ctx r s hashed

/-- A handler that reads only. -/
theorem reads_hashed {h : Handler} (reads : Reads h) : KeepsHashed h := by
  intro W ctx r s hashed u member
  have same : hashOf (h W ctx r s).2.users u.username = hashOf s.users u.username :=
    by_contra fun different => (reads W ctx r s).hashes u.username different
  have found : lookup (h W ctx r s).2.users u.username = some u := lookup_iff.mpr ⟨member, rfl⟩
  have stored : hashOf s.users u.username = some u.passwordHash := by rw [← same, hashOf, found, Option.map_some]
  obtain ⟨v, there, hash⟩ := Option.map_eq_some_iff.mp stored
  rw [← hash]
  exact hashed v (lookup_some there).1

theorem createUser_hashed : KeepsHashed createUserHandler := by
  refine onUsers_hashed fun W ctx r t hashed => ?_
  unfold handleCreateUser Accounts.withRequest
  cases decodeJSON decodeCreateUserRequest r.body with
  | error reply => exact hashed
  | ok req =>
    dsimp only
    rw [Prog.bind_eq, Machine.wp_bind, Machine.wp_attempt]
    refine wp_createUser (fun e => ?_) fun hash t' long made inserted => hashed.insert long made inserted
    show userMachine.wp _ (if _ then _ else _) _
    split <;> exact hashed

theorem changePassword_hashed : KeepsHashed changePasswordHandler := by
  refine onUsers_hashed fun W ctx r t hashed => ?_
  unfold handleChangePassword Accounts.withRequest
  cases ctx.auth with
  | none => exact hashed
  | some ac =>
    cases decodeJSON decodeChangePasswordRequest r.body with
    | error reply => exact hashed
    | ok req =>
      dsimp only
      rw [Prog.bind_eq, Machine.wp_bind, Machine.wp_attempt]
      refine wp_changePassword (fun e => ?_) fun u hash _ _ long made => hashed.setHash long made ac.username
      show userMachine.wp _ (if _ then _ else if _ then _ else _) _
      split
      · exact hashed
      · split <;> exact hashed

theorem resetPassword_hashed : KeepsHashed resetPasswordHandler := by
  refine onUsers_hashed fun W ctx r t hashed => ?_
  unfold handleResetPassword Accounts.withRequest
  cases decodeJSON decodeResetPasswordRequest r.body with
  | error reply => exact hashed
  | ok newPassword =>
    dsimp only
    rw [Prog.bind_eq, Machine.wp_bind, Machine.wp_attempt]
    refine wp_resetPassword (fun e => ?_) fun u hash _ long made => hashed.setHash long made _
    show userMachine.wp _ (if _ then _ else if _ then _ else _) _
    split
    · exact hashed
    · split <;> exact hashed

theorem deleteUser_hashed : KeepsHashed deleteUserHandler := by
  refine onUsers_hashed fun W ctx r t hashed => ?_
  unfold handleDeleteUser
  rw [Prog.bind_eq, Machine.wp_bind, Machine.wp_attempt]
  have answered (found : Bool) {t' : UserTable} (kept : Hashed W.bcrypt t') :
      userMachine.wp (fun _ t => Hashed W.bcrypt t) (if !found then Prog.ret (.error 404 "user not found") else Prog.ret (.bare 204) : UserOp (Written Unit)) t' := by
    split <;> exact kept
  refine wp_deleteUser (fun e => ?_) (fun _ => answered false hashed) fun found => answered found (hashed.delete _)
  show userMachine.wp _ (if _ then _ else _) _
  split <;> exact hashed

end KeepsHashed

theorem routes_hashed : ∀ route ∈ routes, KeepsHashed route.handler := by
  have reader {h : Handler} (reads : Reads h) : KeepsHashed (authOnly h) := authOnly_hashed (reads_hashed reads)
  have users : KeepsHashed listUsersHandler := fun _ _ _ _ hashed => hashed
  simp only [routes, List.forall_mem_cons]
  exact ⟨reads_hashed handleHealth_reads, reads_hashed handleLogin_reads, authOnly_hashed (onItems_hashed _),
    admin_hashed (onItems_hashed _), admin_hashed (onItems_hashed _), admin_hashed (onItems_hashed _),
    admin_hashed (onItems_hashed _), authOnly_hashed (onItems_hashed _), admin_hashed (onDB_hashed _ _),
    authOnly_hashed (onDB_hashed _ _), admin_hashed (onDB_hashed _ _), admin_hashed (onDB_hashed _ _),
    admin_hashed (onDB_hashed _ _), admin_hashed (onDB_hashed _ _), authOnly_hashed (onDB_hashed _ _),
    authOnly_hashed (onDB_hashed _ _), admin_hashed (onDB_hashed _ _), admin_hashed (onDB_hashed _ _),
    authOnly_hashed (onDB_hashed _ _), authOnly_hashed (onDB_hashed _ _), authOnly_hashed (onDB_hashed _ _),
    reader handleExportDocuments_reads, admin_hashed (onBackups_hashed _), admin_hashed (onBackups_hashed _),
    admin_hashed (onBackups_hashed _), authOnly_hashed changePassword_hashed, admin_hashed createUser_hashed,
    admin_hashed users, admin_hashed deleteUser_hashed, admin_hashed resetPassword_hashed, by simp⟩

theorem serve_hashed {W : Config} {s : Service} (r : Router.Request) (hashed : Hashed W.bcrypt s.users) :
    Hashed W.bcrypt (serve W s r).2.users := by
  unfold serve
  split
  · exact hashed
  · cases found : findRoute r.method r.path with
    | none =>
      dsimp only
      split <;> exact hashed
    | some route => exact routes_hashed route (List.mem_filter.mp (List.mem_of_find?_eq_some found)).1 W _ r s hashed

/-- The users table of a server that was started on an empty one, after any requests. -/
theorem run_hashed {W : Config} {machine : RateLimits.Arithmetic} {username password : String} {faults : List Bool} {users : UserTable}
    (started : userMachine.run (ensureBootstrapAdmin W.bcrypt username password) faults UserTable.empty = (.ok (), users))
    (requests : List Router.Request) : Hashed W.bcrypt (run W (newService machine users) requests).users := by
  have bootstrapped : userMachine.wp (fun _ t => Hashed W.bcrypt t) (ensureBootstrapAdmin W.bcrypt username password) UserTable.empty :=
    wp_ensureBootstrapAdmin (fun _ => hashed_empty) (fun _ => hashed_empty)
      fun _ hash t' long made inserted => hashed_empty.insert long made inserted
  have start := userMachine.wp_iff_run.mp bootstrapped faults
  rw [started] at start
  exact run_always (I := fun s : Service => Hashed W.bcrypt s.users) (fun _ r hashed => serve_hashed r hashed) start requests

/-! ### The route of a reset -/

theorem findRoute_reset {username : String} (other : username ≠ "me") (nonempty : username ≠ "") :
    findRoute "PUT" ["users", username, "password"] =
      some ⟨⟨"PUT", [.text "users", .wild "username", .text "password"]⟩, admin resetPasswordHandler⟩ := by
  have different : "me" ≠ username := Ne.symm other
  simp [findRoute, routes, Pattern.matches, matchPath, different, nonempty, Pattern.moreSpecific]

theorem findRoute_me : findRoute "PUT" ["users", "me", "password"] =
    some ⟨⟨"PUT", [.text "users", .text "me", .text "password"]⟩, authOnly changePasswordHandler⟩ := by
  simp [findRoute, routes, Pattern.matches, matchPath, Pattern.moreSpecific]

section Reset
variable {W : Config} {r : Router.Request} {s : Service} {username newPassword : String}

theorem IsReset.decoded (reset : IsReset W r username newPassword) :
    decodeJSON decodeResetPasswordRequest r.body = .ok newPassword := by
  have name : foldName "new_password" = "new_password" := by decide
  rw [reset.body]
  simp [decodeJSON, Json.depth, Json.depthFields, maxNestingDepth, decodeResetPasswordRequest, decodeStruct, name, asString]

theorem IsReset.decoded_change (reset : IsReset W r username newPassword) :
    decodeJSON decodeChangePasswordRequest r.body = .ok ⟨"", newPassword⟩ := by
  have name : foldName "new_password" = "new_password" := by decide
  rw [reset.body]
  simp [decodeJSON, Json.depth, Json.depthFields, maxNestingDepth, decodeChangePasswordRequest, decodeStruct, name, asString]

/-- handleResetPassword for a user who is there. -/
theorem eval_handleResetPassword {B : Bcrypt} {t : UserTable} {u : User} {hash : String} (found : lookup t username = some u)
    (long : minPasswordLength ≤ newPassword.utf8ByteSize) (made : B.generateFromPassword newPassword = .ok hash) :
    userMachine.eval (handleResetPassword B username (.ok newPassword)) t = (.ok (.bare 204), t.setHash hash username) := by
  have reads : userMachine.eval (Users.getUser username) t = (.ok u, t) := by
    have read : userMachine.exec (.getUser username) t = .ok (some u, t) := by rw [← found]; rfl
    exact userMachine.eval_ok read
  have writes : userMachine.eval (setPasswordHash B username newPassword) t = (.ok (), t.setHash hash username) := by
    unfold setPasswordHash hashPassword
    rw [if_neg (not_lt.mpr long), made]
    exact userMachine.eval_ok rfl
  have resets : userMachine.eval (resetPassword B username newPassword) t = (.ok (), t.setHash hash username) := by
    unfold resetPassword
    rw [Prog.bind_eq, Machine.eval_bind, reads]
    exact writes
  show userMachine.eval ((resetPassword B username newPassword).attempt.bind _) t = _
  rw [Machine.eval_bind, Machine.eval_attempt, resets]
  rfl

/-- A reset is answered by handleChangePassword when the user is called me, and
    that refuses the empty password. -/
theorem reset_me (reset : IsReset W r "me" newPassword) (ideal : Ideal W.bcrypt) (hashed : Hashed W.bcrypt s.users) :
    (serve W s r).1.status ≠ 204 := by
  obtain ⟨caller, token⟩ := reset.token
  have program : userMachine.wp (fun result _ => ∀ written, result = .ok written → Written.code written ≠ 204)
      (handleChangePassword W.bcrypt (some ⟨caller, RoleAdmin⟩) (.ok ⟨"", newPassword⟩)) s.users := by
    unfold handleChangePassword Accounts.withRequest
    dsimp only
    rw [Prog.bind_eq, Machine.wp_bind, Machine.wp_attempt]
    refine wp_changePassword (fun e => ?_) fun u hash found verified _ _ => ?_
    · show userMachine.wp _ (if _ then _ else if _ then _ else _) _
      split
      · rintro written ⟨⟩
        simp [Written.code]
      · split <;> rintro written ⟨⟩ <;> simp [Written.code]
    · rw [hashed.refuses_empty ideal found] at verified
      cases verified
  have ran := userMachine.wp_iff_run.mp program r.faults
  have handler : serve W s r = changePasswordHandler W ⟨some ⟨caller, RoleAdmin⟩, []⟩ r s := by
    unfold serve
    rw [if_neg (by simp [reset.clean]), reset.method, reset.path, findRoute_me]
    show authOnly changePasswordHandler W _ r s = _
    unfold authOnly requireAuth
    rw [token]
    rfl
  rw [handler]
  unfold changePasswordHandler onUsers
  dsimp only
  rw [reset.decoded_change]
  cases outcome : userMachine.run (handleChangePassword W.bcrypt (some ⟨caller, RoleAdmin⟩) (.ok ⟨"", newPassword⟩)) r.faults s.users with
  | mk result users =>
    rw [outcome] at ran
    cases result with
    | error e => simp [errorResponse]
    | ok written =>
      have code := ran written rfl
      cases written <;> exact code

/-- A reset for any other user is answered by handleResetPassword. -/
theorem reset_other (reset : IsReset W r username newPassword) (ideal : Ideal W.bcrypt) (other : username ≠ "me")
    (nonempty : username ≠ "") (there : (lookup s.users username).isSome = true) (accepted : Accepted W.bcrypt newPassword) :
    Resets W s r username newPassword := by
  obtain ⟨caller, token⟩ := reset.token
  obtain ⟨long, hash, made⟩ := accepted
  obtain ⟨u, found⟩ := Option.isSome_iff_exists.mp there
  have values : matchPath [.text "users", .wild "username", .text "password"] ["users", username, "password"] =
      some [("username", username)] := by simp [matchPath, nonempty]
  have handler : serve W s r = resetPasswordHandler W ⟨some ⟨caller, RoleAdmin⟩, [("username", username)]⟩ r s := by
    unfold serve
    rw [if_neg (by simp [reset.clean]), reset.method, reset.path, findRoute_reset other nonempty]
    simp only [values, Option.getD_some]
    show admin resetPasswordHandler W _ r s = _
    unfold admin requireAuth
    rw [token]
    rfl
  have outcome : serve W s r = (⟨204, .empty⟩, { s with users := s.users.setHash hash username }) := by
    rw [handler]
    unfold resetPasswordHandler onUsers
    have named : Context.pathValue ⟨some ⟨caller, RoleAdmin⟩, [("username", username)]⟩ "username" = username := rfl
    have ran := eval_handleResetPassword found long made
    unfold Machine.eval at ran
    simp only [named, reset.decoded, reset.unfailing, ran]
    rfl
  have after (name : String) : lookup (serve W s r).2.users name =
      if name = username then (lookup s.users name).map fun u => { u with passwordHash := hash } else lookup s.users name := by
    rw [outcome]
    exact lookup_setHash _ _ _ _
  refine ⟨by rw [outcome], ⟨u, { u with passwordHash := hash }, found, ?_, rfl, ideal newPassword hash made⟩, fun name different => ?_⟩
  · rw [after, if_pos rfl, found, Option.map_some]
  · rw [after, if_neg different]

end Reset

/-- On a server that was started on an empty table, after any requests, an admin
    resets the password of a user exactly when the user is not called me. -/
theorem admin_resets_iff {W : Config} (ideal : Ideal W.bcrypt) {machine : RateLimits.Arithmetic} {name password : String} {faults : List Bool} {users : UserTable}
    (started : userMachine.run (ensureBootstrapAdmin W.bcrypt name password) faults UserTable.empty = (.ok (), users))
    (requests : List Router.Request) {r : Router.Request} {username newPassword : String}
    (valid : Store.collectionNameRe username = true)
    (there : (lookup (run W (newService machine users) requests).users username).isSome = true)
    (accepted : Accepted W.bcrypt newPassword) (reset : IsReset W r username newPassword) :
    Resets W (run W (newService machine users) requests) r username newPassword ↔ username ≠ "me" := by
  constructor
  · rintro resets rfl
    exact reset_me reset ideal (run_hashed started requests) resets.done
  · intro other
    have nonempty : username ≠ "" := by
      rintro rfl
      exact absurd valid (by decide)
    exact reset_other reset ideal other nonempty there accepted

/-- A request of root with a body. -/
def byRoot (method : String) (path : List String) (fields : List (String × Json)) : Router.Request :=
  plainRequest method path ("Bearer " ++ Tokens.rootIssue.token Tokens.zeroConfig) (.json (.obj fields))

theorem bearer_byRoot (method : String) (path : List String) (fields : List (String × Json)) :
    bearer plainConfig.auth (byRoot method path fields) = .ok ⟨"root", RoleAdmin⟩ := by
  have valid : Tokens.validateToken Tokens.zeroConfig 0 (Tokens.rootIssue.token Tokens.zeroConfig) = .ok ("root", RoleAdmin) :=
    Tokens.validateToken_of_presents (c := Tokens.rootIssue) ⟨by decide, by decide⟩ (Tokens.token_presents _ _) (by decide)
  exact bearer_of_token rfl valid

theorem byRoot_isReset (username newPassword : String) :
    IsReset plainConfig (byRoot "PUT" ["users", username, "password"] [("new_password", .str newPassword)]) username newPassword :=
  ⟨rfl, rfl, rfl, ⟨"root", bearer_byRoot _ _ _⟩, rfl, rfl⟩

/-- The request by which root creates a user. -/
def creates (username : String) : Router.Request :=
  byRoot "POST" ["users"] [("username", .str username), ("password", .str "password"), ("role", .str "read-only")]

theorem serve_creates (username : String) (s : Service) : serve plainConfig s (creates username) =
    createUserHandler plainConfig ⟨some ⟨"root", RoleAdmin⟩, []⟩ (creates username) s := by
  have found : findRoute "POST" ["users"] = some ⟨⟨"POST", [.text "users"]⟩, admin createUserHandler⟩ := by
    simp [findRoute, routes, Pattern.matches, matchPath, Pattern.moreSpecific]
  have token := bearer_byRoot "POST" ["users"]
    [("username", .str username), ("password", .str "password"), ("role", .str "read-only")]
  have method : (creates username).method = "POST" := rfl
  have path : (creates username).path = ["users"] := rfl
  have clean : (creates username).clean = true := rfl
  unfold serve
  rw [if_neg (by simp [clean]), method, path, found]
  show admin createUserHandler plainConfig _ (creates username) s = _
  unfold admin requireAuth creates
  rw [token]
  rfl

theorem admin_resets_alice :
    Resets plainConfig (run plainConfig (newService (.float64 false) bootstrapped) [creates "alice"])
      (byRoot "PUT" ["users", "alice", "password"] [("new_password", .str "passphrase")]) "alice" "passphrase" := by
  have there : (lookup (run plainConfig (newService (.float64 false) bootstrapped) [creates "alice"]).users "alice").isSome = true := by
    show (lookup (serve plainConfig (newService (.float64 false) bootstrapped) (creates "alice")).2.users "alice").isSome = true
    rw [serve_creates]
    decide
  have started : userMachine.run (ensureBootstrapAdmin plainBcrypt "root" "rootpass") [] UserTable.empty = (.ok (), bootstrapped) := rfl
  exact (admin_resets_iff ideal_plainBcrypt started [creates "alice"] (by decide) there ⟨by decide, _, rfl⟩
    (byRoot_isReset "alice" "passphrase")).mpr (by decide)

/-- A user called me is created, and its password cannot be reset. -/
theorem admin_resets_not_me : ¬ ∀ (W : Config) (machine : RateLimits.Arithmetic) (name password : String) (faults : List Bool) (users : UserTable)
    (requests : List Router.Request) (r : Router.Request) (username newPassword : String), Ideal W.bcrypt →
    userMachine.run (ensureBootstrapAdmin W.bcrypt name password) faults UserTable.empty = (.ok (), users) →
    Store.collectionNameRe username = true →
    (lookup (run W (newService machine users) requests).users username).isSome = true →
    Accepted W.bcrypt newPassword → IsReset W r username newPassword →
    Resets W (run W (newService machine users) requests) r username newPassword := by
  intro all
  have started : userMachine.run (ensureBootstrapAdmin plainBcrypt "root" "rootpass") [] UserTable.empty = (.ok (), bootstrapped) := rfl
  have there : (lookup (run plainConfig (newService (.float64 false) bootstrapped) [creates "me"]).users "me").isSome = true := by
    show (lookup (serve plainConfig (newService (.float64 false) bootstrapped) (creates "me")).2.users "me").isSome = true
    rw [serve_creates]
    decide
  have resets := all plainConfig (.float64 false) "root" "rootpass" [] bootstrapped [creates "me"] _ "me" "passphrase" ideal_plainBcrypt started
    (by decide) there ⟨by decide, _, rfl⟩ (byRoot_isReset "me" "passphrase")
  exact reset_me (byRoot_isReset "me" "passphrase") ideal_plainBcrypt (run_hashed started [creates "me"]) resets.done

end Microserver.PasswordResets
