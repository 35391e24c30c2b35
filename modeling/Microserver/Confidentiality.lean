import Microserver.Authorization

/-!
Who may learn what. The state of the server has four parts: the store (the
collections and vec_items), the users, the limiter of /login and the backups. Two
servers that agree on some of these give the same answers to every sequence of
requests that have no clearance for the rest: a request without a valid token has
none for the store, one without the token of an admin none for the backups and for
the list of the users. Logging in and changing the own password ask for one user,
the one that the request names.
-/
namespace Microserver.Confidentiality
open Microserver.Store Microserver.Programs Microserver.Statements Microserver.Operations Microserver.Accounts
open Microserver.Credentials Microserver.Requests Microserver.RateLimits Microserver.VecItems Microserver.Router Microserver.Authorization
open Microserver.Users hiding Request
open Microserver.Handlers (Decoded)

/-- The tables agree on the users that are named. -/
def SameRows (named : String → Prop) (t t' : UserTable) : Prop := ∀ username, named username → lookup t username = lookup t' username

/-- The servers agree on the store, on the users that are named, and on the limiter. -/
structure Agree (store : Prop) (named : String → Prop) (logins : Prop) (s s' : Service) : Prop where
  db : store → s.db = s'.db
  items : store → s.items = s'.items
  users : SameRows named s.users s'.users
  limiter : logins → s.loginLimiter = s'.loginLimiter

/-- POST /login. -/
def LogsIn (r : Request) : Prop := r.method = "POST" ∧ r.path = ["login"]

/-- The user whom POST /login or PUT /users/me/password is about. -/
def Names (auth : Tokens.AuthConfig) (r : Request) (username : String) : Prop :=
  LogsIn r ∧ (∃ req, decodeJSON decodeLoginRequest r.body = .ok req ∧ req.username = username) ∨
    (r.method = "PUT" ∧ r.path = ["users", "me", "password"]) ∧ ∃ ac, bearer auth r = .ok ac ∧ ac.username = username

/-- The answers to a sequence of requests. -/
def transcript (W : Config) : Service → List Request → List Response
  | _, [] => []
  | s, r :: rest => (serve W s r).1 :: transcript W (serve W s r).2 rest

section Statements
variable {named : String → Prop}

/-- The statement is about a user that is named. -/
def Concerns (named : String → Prop) {β : Type} : UserStmt β → Prop
  | .getUser username => named username
  | .setPasswordHash _ username => named username
  | _ => False

/-- No such statement tells the tables apart. -/
theorem exec_alike {β : Type} (c : UserStmt β) (t t' : UserTable) (concerns : Concerns named c) (same : SameRows named t t') :
    Machine.Alike (SameRows named) (userMachine.exec c t) (userMachine.exec c t') := by
  cases c with
  | getUser username => exact ⟨same username concerns, same⟩
  | setPasswordHash hash username =>
    refine ⟨rfl, fun other listed => ?_⟩
    rw [lookup_setHash, lookup_setHash, same other listed]
  | countAdmins => exact concerns.elim
  | countUsers => exact concerns.elim
  | insertUser u => exact concerns.elim
  | deleteUser username => exact concerns.elim

theorem getUser_concerns {username : String} (listed : named username) : (getUser username).Uses (Concerns named) := by
  unfold getUser
  refine Prog.uses_bind (Prog.uses_call listed) fun found => ?_
  cases found <;> trivial

theorem handleLogin_concerns {B : Bcrypt} {cfg : Tokens.AuthConfig} {now : Int} {body : Decoded LoginRequest}
    (listed : ∀ req, body = .ok req → named req.username) : (handleLogin B cfg now body).Uses (Concerns named) := by
  cases body with
  | error reply => trivial
  | ok req =>
    refine Prog.uses_bind (Prog.uses_attempt (getUser_concerns (listed req rfl))) fun outcome => ?_
    cases outcome with
    | error e =>
      dsimp only
      split <;> trivial
    | ok u =>
      dsimp only
      split <;> trivial

theorem setPasswordHash_concerns {B : Bcrypt} {username password : String} (listed : named username) :
    (setPasswordHash B username password).Uses (Concerns named) := by
  unfold setPasswordHash
  split
  · trivial
  · refine Prog.uses_bind ?_ fun hash => Prog.uses_call listed
    unfold hashPassword
    split <;> trivial

theorem changePassword_concerns {B : Bcrypt} {username current password : String} (listed : named username) :
    (changePassword B username current password).Uses (Concerns named) := by
  refine Prog.uses_bind (getUser_concerns listed) fun u => ?_
  split
  · trivial
  · exact setPasswordHash_concerns listed

theorem handleChangePassword_concerns {B : Bcrypt} {ac : AuthContext} {body : Decoded ChangePasswordRequest}
    (listed : named ac.username) : (handleChangePassword B (some ac) body).Uses (Concerns named) := by
  cases body with
  | error reply => trivial
  | ok req =>
    refine Prog.uses_bind (Prog.uses_attempt (changePassword_concerns listed)) fun outcome => ?_
    cases outcome with
    | error e =>
      dsimp only
      split
      · trivial
      · split <;> trivial
    | ok _ => trivial

end Statements

/-- Two servers that agree get the same answer and agree afterwards. -/
def Same (store : Prop) (named : String → Prop) (logins : Prop) (served served' : Response × Service) : Prop :=
  served.1 = served'.1 ∧ Agree store named logins served.2 served'.2

section Handlers
variable {α : Type} {store logins : Prop} {named : String → Prop} {W : Config} {ctx : Context} {r : Request} {s s' : Service}

theorem onDB_same (shared : store) (op : Context → Request → Config → Op α) (respond : α → Response)
    (agree : Agree store named logins s s') :
    Same store named logins (onDB op respond W ctx r s) (onDB op respond W ctx r s') := by
  unfold onDB
  rw [agree.db shared]
  cases (machine W.host).run (op ctx r W) r.faults s'.db with
  | mk outcome db => cases outcome <;> exact ⟨rfl, ⟨fun _ => rfl, agree.items, agree.users, agree.limiter⟩⟩

theorem onItems_same (shared : store) (op : Context → Request → ItemOp (Written ItemBody)) (agree : Agree store named logins s s') :
    Same store named logins (onItems op W ctx r s) (onItems op W ctx r s') := by
  unfold onItems
  rw [agree.items shared]
  cases (itemMachine W.host).run (op ctx r) r.faults s'.items with
  | mk outcome items => cases outcome <;> exact ⟨rfl, ⟨agree.db, fun _ => rfl, agree.users, agree.limiter⟩⟩

/-- A handler of users whose statements are about users that are named. -/
theorem onUsers_same {op : Context → Request → Config → UserOp (Written α)} {content : α → Content}
    (concerns : (op ctx r W).Uses (Concerns named)) (agree : Agree store named logins s s') :
    Same store named logins (onUsers op content W ctx r s) (onUsers op content W ctx r s') := by
  obtain ⟨outcome, rows⟩ := userMachine.run_alike (P := Concerns named) exec_alike concerns r.faults agree.users
  unfold onUsers
  revert outcome rows
  rcases userMachine.run (op ctx r W) r.faults s.users with ⟨outcome, users⟩
  rcases userMachine.run (op ctx r W) r.faults s'.users with ⟨outcome', users'⟩
  rintro (rfl : outcome = outcome') rows
  cases outcome <;> exact ⟨rfl, ⟨agree.db, agree.items, rows, agree.limiter⟩⟩

theorem exportDocuments_same (shared : store) (agree : Agree store named logins s s') :
    Same store named logins (exportDocumentsHandler W ctx r s) (exportDocumentsHandler W ctx r s') := by
  have unmoved : ∀ s, (exportDocumentsHandler W ctx r s).2 = s := by
    intro s
    unfold exportDocumentsHandler
    split
    · dsimp only
      split <;> rfl
    all_goals rfl
  have answered : (exportDocumentsHandler W ctx r s).1 = (exportDocumentsHandler W ctx r s').1 := by
    unfold exportDocumentsHandler
    rw [agree.db shared]
    split
    · dsimp only
      split <;> rfl
    all_goals rfl
  exact ⟨answered, by rw [unmoved, unmoved]; exact agree⟩

theorem rateLimitLogin_same {next : Handler} (known : logins) (agree : Agree store named logins s s')
    (same : ∀ s s', Agree store named logins s s' → Same store named logins (next W ctx r s) (next W ctx r s')) :
    Same store named logins (rateLimitLogin next W ctx r s) (rateLimitLogin next W ctx r s') := by
  unfold rateLimitLogin
  rw [agree.limiter known]
  dsimp only
  have spent : Agree store named logins
      { s with loginLimiter := (s'.loginLimiter.allow r.now (clientIP r.remoteAddr)).2 }
      { s' with loginLimiter := (s'.loginLimiter.allow r.now (clientIP r.remoteAddr)).2 } :=
    ⟨agree.db, agree.items, agree.users, fun _ => rfl⟩
  split
  · exact same _ _ spent
  · exact ⟨rfl, spent⟩

/-- Behind requireAuth a handler answers requests with a valid token only. -/
theorem authOnly_same {h : Handler} (agree : Agree store named logins s s')
    (same : ∀ ac, bearer W.auth r = .ok ac →
      Same store named logins (h W { ctx with auth := some ac } r s) (h W { ctx with auth := some ac } r s')) :
    Same store named logins (authOnly h W ctx r s) (authOnly h W ctx r s') := by
  unfold authOnly requireAuth
  cases token : bearer W.auth r with
  | error msg => exact ⟨rfl, agree⟩
  | ok ac => exact same ac token

/-- Behind requireAdmin a request without the token of an admin is refused. -/
theorem admin_refused {h : Handler} (noAdmin : NoAdmin W.auth r) :
    (Router.admin h W ctx r s).1 = (Router.admin h W ctx r s').1 := by
  unfold Router.admin requireAuth
  cases token : bearer W.auth r with
  | error msg => rfl
  | ok ac =>
    have other : ac.role ≠ RoleAdmin := by
      intro admin
      obtain ⟨username, role⟩ := ac
      exact noAdmin username (admin ▸ token)
    simp only [requireAdmin, if_pos other]

end Handlers

/-- The handler looks at nothing but the store. -/
def StoreOnly (h : Handler) : Prop :=
  ∀ named logins W ctx r s s', Agree True named logins s s' → Same True named logins (h W ctx r s) (h W ctx r s')

/-! ### Routes -/

/-- What a route lets requests learn. -/
inductive Discreet : Route → Prop
  | admin (pattern : Pattern) (h : Handler) : Discreet ⟨pattern, Router.admin h⟩
  | store (pattern : Pattern) {h : Handler} (only : StoreOnly h) : Discreet ⟨pattern, authOnly h⟩
  | health (pattern : Pattern) : Discreet ⟨pattern, handleHealth⟩
  | login : Discreet ⟨⟨"POST", [.text "login"]⟩, rateLimitLogin loginHandler⟩
  | password : Discreet ⟨⟨"PUT", [.text "users", .text "me", .text "password"]⟩, authOnly changePasswordHandler⟩

theorem routes_discreet : ∀ route ∈ routes, Discreet route := by
  have onStore (pattern : Pattern) {α : Type} (op : Context → Request → Config → Op α) (respond : α → Response) :
      Discreet ⟨pattern, authOnly (onDB op respond)⟩ := .store pattern fun _ _ _ _ _ _ _ => onDB_same trivial op respond
  have onShelf (pattern : Pattern) (op : Context → Request → ItemOp (Written ItemBody)) :
      Discreet ⟨pattern, authOnly (onItems op)⟩ := .store pattern fun _ _ _ _ _ _ _ => onItems_same trivial op
  simp only [routes, List.forall_mem_cons, Discreet.admin, Discreet.health, Discreet.login, Discreet.password, true_and]
  exact ⟨onShelf _ _, onShelf _ _, onStore _ _ _, onStore _ _ _, onStore _ _ _, onStore _ _ _, onStore _ _ _, onStore _ _ _,
    .store _ fun _ _ _ _ _ _ _ => exportDocuments_same trivial, by simp⟩

variable {store logins : Prop} {named : String → Prop} {W : Config} {r : Request} {s s' : Service}

/-- One request that is cleared for no more than the servers agree on. -/
theorem serve_same (agree : Agree store named logins s s') (noAdmin : NoAdmin W.auth r)
    (cleared : ∀ ac, bearer W.auth r = .ok ac → store) (names : ∀ username, Names W.auth r username → named username)
    (limited : LogsIn r → logins) : Same store named logins (serve W s r) (serve W s' r) := by
  have text {pattern : Pattern} (method : String) (texts : List String) (head : method ≠ "GET")
      (given : pattern = ⟨method, texts.map .text⟩) (matched : pattern.matches r.method r.path = true) :
      r.method = method ∧ r.path = texts := by
    subst given
    simp only [Pattern.matches, Bool.and_eq_true, Bool.or_eq_true, decide_eq_true_eq] at matched
    exact ⟨(matched.1.resolve_right fun both => head both.1).symm, matchPath_text matched.2⟩
  unfold serve
  split
  · exact ⟨rfl, agree⟩
  · cases found : findRoute r.method r.path with
    | none =>
      dsimp only
      split <;> exact ⟨rfl, agree⟩
    | some route =>
      obtain ⟨listed, matched⟩ := List.mem_filter.mp (List.mem_of_find?_eq_some found)
      dsimp only
      cases routes_discreet route listed with
      | admin pattern h => exact ⟨admin_refused noAdmin, by rw [admin_refuses noAdmin, admin_refuses noAdmin]; exact agree⟩
      | store pattern only =>
        refine authOnly_same agree fun ac token => ?_
        have shared : store = True := eq_true (cleared ac token)
        subst shared
        exact only named logins W _ r s s' agree
      | health pattern => exact ⟨rfl, agree⟩
      | login =>
        have asked := text "POST" ["login"] (by decide) rfl matched
        refine rateLimitLogin_same (limited asked) agree fun s s' agree => onUsers_same ?_ agree
        exact handleLogin_concerns fun req decoded => names req.username (.inl ⟨asked, req, decoded, rfl⟩)
      | password =>
        have asked := text "PUT" ["users", "me", "password"] (by decide) rfl matched
        refine authOnly_same agree fun ac token => onUsers_same ?_ agree
        exact handleChangePassword_concerns (names ac.username (.inr ⟨asked, ac, token, rfl⟩))

/-- Two servers that agree on the store, on some users or on the limiter of /login
    answer every sequence of requests alike that come without the token of an admin,
    without any valid token unless the stores agree, name no other users, and do not
    log in unless the limiters agree. No such request learns anything of the rest of
    the server; none learns anything of the backups. -/
theorem transcripts_agree (W : Config) (store logins : Prop) (named : String → Prop) (s s' : Service)
    (agree : Agree store named logins s s') (requests : List Request) (noAdmin : ∀ r ∈ requests, NoAdmin W.auth r)
    (cleared : ∀ r ∈ requests, ∀ ac, bearer W.auth r = .ok ac → store)
    (names : ∀ r ∈ requests, ∀ username, Names W.auth r username → named username)
    (limited : ∀ r ∈ requests, LogsIn r → logins) : transcript W s requests = transcript W s' requests := by
  induction requests generalizing s s' with
  | nil => rfl
  | cons r rest ih =>
    obtain ⟨same, next⟩ := serve_same agree (noAdmin r List.mem_cons_self) (cleared r List.mem_cons_self)
      (names r List.mem_cons_self) (limited r List.mem_cons_self)
    rw [transcript, transcript, same, ih _ _ next (fun q member => noAdmin q (List.mem_cons_of_mem _ member))
      (fun q member => cleared q (List.mem_cons_of_mem _ member)) (fun q member => names q (List.mem_cons_of_mem _ member))
      fun q member => limited q (List.mem_cons_of_mem _ member)]

/-- A server with the same store, but with another administrator and a backup. -/
def otherService : Service :=
  { newService (.float64 false) ⟨[⟨"admin", "secretpass", RoleAdmin⟩, ⟨"reader", "password", RoleReadOnly⟩], by decide⟩ with
    backups := some ⟨[⟨"backup-20240101T000000Z.db", .file, 0, [1]⟩], by decide⟩ }

/-- A reader logs in, changes the own password and asks for the backups, the users and
    the collections. -/
def curiousRequests : List Request :=
  let header := "Bearer " ++ readerIssue.token Tokens.zeroConfig
  [plainRequest "POST" ["login"] "" (.json (.obj [("username", .str "reader"), ("password", .str "password")])),
    plainRequest "PUT" ["users", "me", "password"] header
      (.json (.obj [("current_password", .str "password"), ("new_password", .str "passphrase")])),
    plainRequest "GET" ["admin", "backups"] header .malformed, plainRequest "GET" ["users"] header .malformed,
    plainRequest "GET" ["collections"] header .malformed]

theorem transcripts_agree_reader :
    transcript plainConfig (newService (.float64 false) rootAndReader) curiousRequests = transcript plainConfig otherService curiousRequests := by
  have valid : Tokens.validateToken Tokens.zeroConfig 0 (readerIssue.token Tokens.zeroConfig) = .ok ("reader", RoleReadOnly) :=
    Tokens.validateToken_of_presents (c := readerIssue) ⟨by decide, by decide⟩ (Tokens.token_presents _ _) (by decide)
  have bears (method : String) (path : List String) (body : RequestBody) : bearer plainConfig.auth
      (plainRequest method path ("Bearer " ++ readerIssue.token Tokens.zeroConfig) body) = .ok ⟨"reader", RoleReadOnly⟩ :=
    bearer_of_token (r := plainRequest method path ("Bearer " ++ readerIssue.token Tokens.zeroConfig) body) rfl valid
  have reader (method : String) (path : List String) (body : RequestBody) : NoAdmin plainConfig.auth
      (plainRequest method path ("Bearer " ++ readerIssue.token Tokens.zeroConfig) body) := by
    intro username admin
    have role : RoleReadOnly = RoleAdmin := congrArg AuthContext.role (Except.ok.inj ((bears method path body).symm.trans admin))
    exact absurd role (by decide)
  have named (method : String) (path : List String) (body : RequestBody) (other : ¬ (method = "POST" ∧ path = ["login"])) :
      ∀ username, Names plainConfig.auth (plainRequest method path ("Bearer " ++ readerIssue.token Tokens.zeroConfig) body) username →
        username = "reader" := by
    rintro username (⟨login, -⟩ | ⟨-, ac, token, rfl⟩)
    · exact absurd login other
    · exact congrArg AuthContext.username (Except.ok.inj (token.symm.trans (bears method path body)))
  refine transcripts_agree plainConfig True True (· = "reader") (newService (.float64 false) rootAndReader) otherService
    ⟨fun _ => rfl, fun _ => rfl, ?_, fun _ => rfl⟩ curiousRequests ?_ (fun _ _ _ _ => trivial) ?_ fun _ _ _ => trivial
  · rintro username rfl
    rfl
  · simp only [curiousRequests, List.forall_mem_cons]
    refine ⟨fun username admin => ?_, reader _ _ _, reader _ _ _, reader _ _ _, reader _ _ _, by simp⟩
    cases admin
  · simp only [curiousRequests, List.forall_mem_cons]
    refine ⟨?_, named _ _ _ (by decide), named _ _ _ (by decide), named _ _ _ (by decide), named _ _ _ (by decide), by simp⟩
    rintro username (⟨-, req, decoded, rfl⟩ | ⟨⟨method, -⟩, -⟩)
    · cases decoded
      rfl
    · exact absurd method (by decide)

end Microserver.Confidentiality
