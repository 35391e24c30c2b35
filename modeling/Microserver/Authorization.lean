import Microserver.Credentials
import Microserver.Router

/-!
Who may change what. Every route is behind requireAdmin, or its handler reads
only, or it is the one by which users change their own passwords; so requests
without the token of an admin leave everything but the hashes of those
passwords.
-/
namespace Microserver.Authorization
open Microserver.Store Microserver.Programs Microserver.Statements Microserver.Operations Microserver.Queries
open Microserver.Requests Microserver.Accounts Microserver.Credentials Microserver.Params Microserver.ReadHandlers
open Microserver.VecItems Microserver.Router
open Microserver.Users hiding Request

/-! ### What may change -/

def accounts (t : UserTable) : List (String × String) := t.rows.map fun u => (u.username, u.role)

def hashOf (t : UserTable) (username : String) : Option String := (lookup t username).map (·.passwordHash)

/-- Nothing has changed but the hashes of some users. -/
structure OnlyHashes (changed : String → Prop) (s s' : Service) : Prop where
  db : s'.db = s.db
  items : s'.items = s.items
  backups : s'.backups = s.backups
  accounts : accounts s'.users = accounts s.users
  hashes : ∀ username, hashOf s'.users username ≠ hashOf s.users username → changed username

section OnlyHashes
variable {changed changed' : String → Prop} {s s₁ s₂ : Service}

theorem OnlyHashes.refl : OnlyHashes changed s s := ⟨rfl, rfl, rfl, rfl, fun _ different => absurd rfl different⟩

theorem OnlyHashes.of_users (users : s₁.users = s.users) (db : s₁.db = s.db) (items : s₁.items = s.items)
    (backups : s₁.backups = s.backups) : OnlyHashes changed s s₁ :=
  ⟨db, items, backups, by rw [users], fun username different => absurd (by rw [users]) different⟩

theorem OnlyHashes.trans (first : OnlyHashes changed s s₁) (second : OnlyHashes changed' s₁ s₂) :
    OnlyHashes (fun username => changed username ∨ changed' username) s s₂ where
  db := second.db.trans first.db
  items := second.items.trans first.items
  backups := second.backups.trans first.backups
  accounts := second.accounts.trans first.accounts
  hashes username different := by
    by_cases same : hashOf s₁.users username = hashOf s.users username
    · exact .inr (second.hashes username (same ▸ different))
    · exact .inl (first.hashes username same)

theorem OnlyHashes.mono (only : OnlyHashes changed s s₁) (weaker : ∀ username, changed username → changed' username) :
    OnlyHashes changed' s s₁ :=
  { only with hashes := fun username different => weaker username (only.hashes username different) }

end OnlyHashes

/-! ### Programs that read -/

def ReadStmt {β : Type} : Stmt β → Prop
  | .read _ => True
  | _ => False

theorem machine_reads {h : Host} {β : Type} {c : Stmt β} {s s' : DB} {b : β} (reads : ReadStmt c)
    (done : (machine h).exec c s = .ok (b, s')) : s' = s := by
  cases c with
  | read query =>
    cases found : query h s with
    | error e => simp [machine, Stmt.exec, found, Except.map] at done
    | ok a =>
      simp only [machine, Stmt.exec, found, Except.map, Except.ok.injEq, Prod.mk.injEq] at done
      exact done.2.symm
  | _ => exact reads.elim

theorem run_reads {h : Host} {α : Type} {op : Op α} (uses : op.Uses ReadStmt) (faults : List Bool) (s : DB) :
    ((machine h).run op faults s).2 = s := by
  have kept : (machine h).wp (fun _ s' => s' = s) op s :=
    (machine h).wp_of_uses (fun c s₁ b s₂ reads start done => (machine_reads reads done).trans start) uses rfl
  exact (machine h).wp_iff_run.mp kept faults

section Uses
variable {α β : Type}

theorem getCollection_reads (name : String) : (getCollection name).Uses ReadStmt := by
  unfold getCollection
  refine Prog.uses_bind (Prog.uses_call trivial) ?_
  intro found
  cases found <;> trivial

theorem getDocumentByID_reads (coll : Collection) (id : Int) : (getDocumentByID coll id).Uses ReadStmt := by
  unfold getDocumentByID
  refine Prog.uses_bind (Prog.uses_call trivial) ?_
  intro found
  cases found <;> trivial

theorem searchDocuments_reads (coll : Collection) (text : String) (limit : Int) (rerank : Bool)
    (filters : List FilterCondition) (sort : Option SortSpec) :
    (searchDocuments coll text limit rerank filters sort).Uses ReadStmt := by
  unfold searchDocuments
  by_cases plain : (!coll.hasVector) = true
  · rw [if_pos plain]
    trivial
  · rw [if_neg plain]
    exact Prog.uses_bind (Prog.uses_call trivial) fun vec => Prog.uses_call trivial

theorem fullTextSearchDocuments_reads (E : Engine) (coll : Collection) (query : String) (limit offset : Int)
    (filters : List FilterCondition) (sort : Option SortSpec) :
    (fullTextSearchDocuments E coll query limit offset filters sort).Uses ReadStmt := by
  unfold fullTextSearchDocuments
  by_cases plain : (!coll.hasVector) = true
  · rw [if_pos plain]
    trivial
  · rw [if_neg plain]
    exact Prog.uses_call trivial

theorem aggregateDocuments_reads (E : Engine) (coll : Collection) (op field groupBy : String)
    (filters : List FilterCondition) : (aggregateDocuments E coll op field groupBy filters).Uses ReadStmt := by
  unfold aggregateDocuments
  cases aggOps.lookup op with
  | none => trivial
  | some fn =>
    dsimp only
    split
    · trivial
    · split
      · trivial
      · split
        · trivial
        · exact Prog.uses_call trivial

theorem withCollection_reads {name : String} {handle : Collection → Op (Written α)}
    (uses : ∀ coll, (handle coll).Uses ReadStmt) : (ReadHandlers.withCollection name handle).Uses ReadStmt := by
  unfold ReadHandlers.withCollection
  refine Prog.uses_bind (Prog.uses_attempt (getCollection_reads name)) ?_
  intro found
  cases found with
  | error e => trivial
  | ok coll => exact uses coll

theorem withParams_reads {params : Except String α} {handle : α → Op (Written β)} (uses : ∀ a, (handle a).Uses ReadStmt) :
    (withParams params handle).Uses ReadStmt := by
  cases params with
  | error msg => trivial
  | ok a => exact uses a

theorem reply_reads {op : Op α} {onError : Err → Written α} (uses : op.Uses ReadStmt) :
    (reply op onError).Uses ReadStmt := by
  unfold reply
  refine Prog.uses_bind (Prog.uses_attempt uses) ?_
  intro outcome
  cases outcome <;> trivial

theorem if_reads {p : Prop} [Decidable p] {op op' : Op α} (left : p → op.Uses ReadStmt) (right : ¬ p → op'.Uses ReadStmt) :
    (if p then op else op').Uses ReadStmt := by
  by_cases holds : p
  · rw [if_pos holds]
    exact left holds
  · rw [if_neg holds]
    exact right holds

end Uses

/-! ### Handlers -/

/-- A handler that leaves everything but the limiter. -/
def Reads (h : Handler) : Prop := ∀ W ctx r s, OnlyHashes (fun _ => False) s (h W ctx r s).2

section Handlers
variable {α : Type}

theorem onDB_reads {op : Context → Request → Config → Op α} {respond : α → Response}
    (uses : ∀ ctx r W, (op ctx r W).Uses ReadStmt) : Reads (onDB op respond) := by
  intro W ctx r s
  have kept := run_reads (h := W.host) (uses ctx r W) r.faults s.db
  unfold onDB
  cases ran : (machine W.host).run (op ctx r W) r.faults s.db with
  | mk outcome db =>
    rw [ran] at kept
    cases outcome <;> exact .of_users rfl kept rfl rfl

theorem handleListCollections_reads : Reads listCollectionsHandler :=
  onDB_reads fun _ _ _ => reply_reads (Prog.uses_call trivial)

theorem handleGetDocument_reads : Reads getDocumentHandler := by
  refine onDB_reads fun ctx r W => withCollection_reads fun coll => ?_
  cases Tokens.parseInt (ctx.pathValue "id") with
  | none => trivial
  | some id => exact reply_reads (getDocumentByID_reads coll id)

theorem handleListDocuments_reads : Reads listDocumentsHandler :=
  onDB_reads fun _ _ _ => withCollection_reads fun _ => withParams_reads fun _ => withParams_reads fun _ =>
    withParams_reads fun _ => reply_reads (Prog.uses_call trivial)

theorem handleSearchDocuments_reads : Reads searchDocumentsHandler :=
  onDB_reads fun _ _ _ => withCollection_reads fun _ => if_reads (fun _ => trivial) fun _ =>
    withParams_reads fun _ => withParams_reads fun _ => withParams_reads fun _ => withParams_reads fun _ =>
      reply_reads (searchDocuments_reads _ _ _ _ _ _)

theorem handleAggregate_reads : Reads aggregateHandler :=
  onDB_reads fun _ _ _ => withCollection_reads fun _ => if_reads (fun _ => trivial) fun _ =>
    withParams_reads fun _ => reply_reads (aggregateDocuments_reads _ _ _ _ _ _)

theorem handleFullTextSearch_reads : Reads fullTextSearchHandler :=
  onDB_reads fun _ _ _ => withCollection_reads fun _ => if_reads (fun _ => trivial) fun _ =>
    withParams_reads fun _ => withParams_reads fun _ => withParams_reads fun _ =>
      reply_reads (fullTextSearchDocuments_reads _ _ _ _ _ _ _)

theorem handleExportDocuments_reads : Reads exportDocumentsHandler := by
  intro W ctx r s
  have same : (exportDocumentsHandler W ctx r s).2 = s := by
    unfold exportDocumentsHandler
    split
    · dsimp only
      split <;> rfl
    all_goals rfl
  rw [same]
  exact .refl

def ReadItems {β : Type} : ItemStmt β → Prop
  | .read _ => True
  | _ => False

theorem onItems_reads {op : Context → Request → ItemOp (Written ItemBody)} (uses : ∀ ctx r, (op ctx r).Uses ReadItems) :
    Reads (onItems op) := by
  intro W ctx r s
  have keeps {β : Type} (c : ItemStmt β) (t : Table) (b : β) (t' : Table) (reads : ReadItems c) (start : t = s.items)
      (done : (itemMachine W.host).exec c t = .ok (b, t')) : t' = s.items := by
    cases c with
    | read query =>
      cases found : query W.host t with
      | error e => simp [itemMachine, ItemStmt.exec, found, Except.map] at done
      | ok a =>
        simp only [itemMachine, ItemStmt.exec, found, Except.map, Except.ok.injEq, Prod.mk.injEq] at done
        exact done.2.symm.trans start
    | _ => exact reads.elim
  have kept := (itemMachine W.host).wp_iff_run.mp
    ((itemMachine W.host).wp_of_uses (I := fun t => t = s.items) keeps (uses ctx r) rfl) r.faults
  unfold onItems
  cases ran : (itemMachine W.host).run (op ctx r) r.faults s.items with
  | mk outcome items =>
    rw [ran] at kept
    cases outcome <;> exact .of_users rfl rfl kept rfl

theorem answer_reads {op : ItemOp α} {reply : α → ItemReply} (uses : op.Uses ReadItems) :
    (VecItems.answer op reply).Uses ReadItems := by
  unfold VecItems.answer
  refine Prog.uses_bind (Prog.uses_attempt uses) ?_
  intro outcome
  cases outcome <;> trivial

theorem handleList_reads : Reads listHandler := by
  refine onItems_reads fun ctx r => ?_
  unfold handleList
  cases parseLimitOffset r.query with
  | error msg => trivial
  | ok page => exact answer_reads (Prog.uses_call trivial)

theorem handleSearch_reads : Reads searchHandler := by
  refine onItems_reads fun ctx r => ?_
  unfold handleSearch
  dsimp only
  split
  · trivial
  · cases parseSearchLimit r.query with
    | error msg => trivial
    | ok limit =>
      cases parseRerank r.query with
      | error msg => trivial
      | ok rerank => exact answer_reads (Prog.uses_bind (Prog.uses_call trivial) fun vec => Prog.uses_call trivial)

theorem handleHealth_reads : Reads handleHealth := fun _ _ _ _ => .refl

/-- handleLogin looks the user up and writes nothing. -/
theorem handleLogin_reads : Reads (rateLimitLogin loginHandler) := by
  have login : Reads loginHandler := by
    intro W ctx r s
    have judged : userMachine.wp (fun _ t => t = s.users)
        (handleLogin W.bcrypt W.auth r.now (decodeJSON decodeLoginRequest r.body)) s.users := by
      unfold handleLogin Accounts.withRequest
      cases decodeJSON decodeLoginRequest r.body with
      | error reply => exact rfl
      | ok req =>
        dsimp only
        rw [Prog.bind_eq, Machine.wp_bind, Machine.wp_attempt]
        refine wp_getUser (fun e _ => ?_) fun u found => ?_
        · show userMachine.wp _ (if _ then _ else _) _
          split <;> exact rfl
        · show userMachine.wp _ (if _ then _ else _) _
          split <;> exact rfl
    have kept := userMachine.wp_iff_run.mp judged r.faults
    unfold loginHandler onUsers
    cases ran : userMachine.run (handleLogin W.bcrypt W.auth r.now (decodeJSON decodeLoginRequest r.body)) r.faults s.users with
    | mk outcome users =>
      rw [ran] at kept
      cases outcome <;> exact .of_users kept rfl rfl rfl
  intro W ctx r s
  unfold rateLimitLogin
  dsimp only
  split
  · have only := login W ctx r { s with loginLimiter := (s.loginLimiter.allow r.now (RateLimits.clientIP r.remoteAddr)).2 }
    exact ⟨only.db, only.items, only.backups, only.accounts, only.hashes⟩
  · exact .of_users rfl rfl rfl rfl

end Handlers

theorem authOnly_reads {h : Handler} (reads : Reads h) : Reads (authOnly h) := by
  intro W ctx r s
  unfold authOnly requireAuth
  cases bearer W.auth r with
  | error msg => exact .refl
  | ok ac => exact reads W _ r s

/-! ### Changing a password -/

/-- A request by which a user changes its own password: PUT /users/me/password
    with a valid token and the password that the user has at that time. -/
def ChangesPassword (W : Config) (s : Service) (r : Request) (username : String) : Prop :=
  (r.method = "PUT" ∧ r.path = ["users", "me", "password"]) ∧
    (∃ role, bearer W.auth r = .ok ⟨username, role⟩) ∧
    ∃ req u, decodeJSON decodeChangePasswordRequest r.body = .ok req ∧ lookup s.users username = some u ∧
      checkPassword W.bcrypt u req.currentPassword = true

theorem accounts_setHash (t : UserTable) (hash username : String) : accounts (t.setHash hash username) = accounts t := by
  unfold accounts UserTable.setHash
  rw [List.map_map]
  refine List.map_congr_left fun u _ => ?_
  by_cases same : u.username = username <;> simp [same]

theorem hashOf_setHash {t : UserTable} {hash username name : String} (different : hashOf (t.setHash hash username) name ≠ hashOf t name) :
    name = username := by
  by_contra other
  refine different ?_
  rw [hashOf, lookup_setHash, if_neg other, hashOf]

/-- handleChangePassword replaces the hash of the caller, who has supplied the
    password, or nothing. -/
theorem handleChangePassword_changes {W : Config} {ctx : Context} {r : Request} {s : Service} {ac : AuthContext}
    (route : r.method = "PUT" ∧ r.path = ["users", "me", "password"]) (token : bearer W.auth r = .ok ac)
    (attached : ctx.auth = some ac) : OnlyHashes (ChangesPassword W s r) s (changePasswordHandler W ctx r s).2 := by
  have judged : userMachine.wp (fun _ t => OnlyHashes (ChangesPassword W s r) s { s with users := t })
      (handleChangePassword W.bcrypt ctx.auth (decodeJSON decodeChangePasswordRequest r.body)) s.users := by
    rw [attached]
    unfold handleChangePassword Accounts.withRequest
    cases decoded : decodeJSON decodeChangePasswordRequest r.body with
    | error reply => exact .refl
    | ok req =>
      dsimp only
      rw [Prog.bind_eq, Machine.wp_bind, Machine.wp_attempt]
      refine wp_changePassword (fun e => ?_) fun u hash found verified _ hashed => ?_
      · show userMachine.wp _ (if _ then _ else if _ then _ else _) _
        split
        · exact .refl
        · split <;> exact .refl
      · refine ⟨rfl, rfl, rfl, accounts_setHash _ _ _, ?_⟩
        intro username different
        have caller : username = ac.username := hashOf_setHash different
        subst caller
        exact ⟨route, ⟨ac.role, token⟩, req, u, decoded, found, verified⟩
  have kept := userMachine.wp_iff_run.mp judged r.faults
  unfold changePasswordHandler onUsers
  cases ran : userMachine.run (handleChangePassword W.bcrypt ctx.auth (decodeJSON decodeChangePasswordRequest r.body)) r.faults
      s.users with
  | mk outcome users =>
    rw [ran] at kept
    cases outcome <;> exact kept

theorem authOnly_changePassword {W : Config} {ctx : Context} {r : Request} {s : Service}
    (route : r.method = "PUT" ∧ r.path = ["users", "me", "password"]) :
    OnlyHashes (ChangesPassword W s r) s (authOnly changePasswordHandler W ctx r s).2 := by
  unfold authOnly requireAuth
  cases token : bearer W.auth r with
  | error msg => exact .refl
  | ok ac => exact handleChangePassword_changes route token rfl

/-! ### Routes -/

/-- What keeps a route from changing the store. -/
inductive Guarded : Route → Prop
  | admin (pattern : Pattern) (h : Handler) : Guarded ⟨pattern, Router.admin h⟩
  | reads (pattern : Pattern) {h : Handler} (reads : Reads h) : Guarded ⟨pattern, h⟩
  | password : Guarded ⟨⟨"PUT", [.text "users", .text "me", .text "password"]⟩, authOnly changePasswordHandler⟩

theorem routes_guarded : ∀ route ∈ routes, Guarded route := by
  have reader (pattern : Pattern) {h : Handler} (reads : Reads h) : Guarded ⟨pattern, authOnly h⟩ :=
    .reads pattern (authOnly_reads reads)
  simp only [routes, List.forall_mem_cons, Guarded.admin, Guarded.password, true_and]
  exact ⟨.reads _ handleHealth_reads, .reads _ handleLogin_reads, reader _ handleList_reads, reader _ handleSearch_reads,
    reader _ handleListCollections_reads, reader _ handleListDocuments_reads, reader _ handleGetDocument_reads,
    reader _ handleSearchDocuments_reads, reader _ handleAggregate_reads, reader _ handleFullTextSearch_reads,
    reader _ handleExportDocuments_reads, by simp⟩

/-- No valid token of an admin comes with the request. -/
def NoAdmin (auth : Tokens.AuthConfig) (r : Request) : Prop := ∀ username, bearer auth r ≠ .ok ⟨username, RoleAdmin⟩

theorem admin_refuses {W : Config} {ctx : Context} {r : Request} (noAdmin : NoAdmin W.auth r) (h : Handler)
    (s : Service) : (Router.admin h W ctx r s).2 = s := by
  unfold Router.admin requireAuth
  cases token : bearer W.auth r with
  | error msg => rfl
  | ok ac =>
    have other : ac.role ≠ RoleAdmin := by
      intro admin
      obtain ⟨username, role⟩ := ac
      exact noAdmin username (admin ▸ token)
    simp only [requireAdmin, if_pos other]

theorem matchPath_text {texts path : List String} (found : (matchPath (texts.map .text) path).isSome) : path = texts := by
  induction texts generalizing path with
  | nil =>
    cases path with
    | nil => rfl
    | cons s rest => simp [matchPath] at found
  | cons t rest ih =>
    cases path with
    | nil => simp [matchPath] at found
    | cons s path =>
      by_cases same : t = s
      · simp only [List.map_cons, matchPath, same, ↓reduceIte] at found
        rw [ih found, same]
      · simp [matchPath, same] at found

/-- One request without the token of an admin. -/
theorem serve_changes {W : Config} {r : Request} (noAdmin : NoAdmin W.auth r) (s : Service) :
    OnlyHashes (ChangesPassword W s r) s (serve W s r).2 := by
  unfold serve
  split
  · exact .refl
  · cases found : findRoute r.method r.path with
    | none =>
      dsimp only
      split <;> exact .refl
    | some route =>
      obtain ⟨listed, matched⟩ := List.mem_filter.mp (List.mem_of_find?_eq_some found)
      dsimp only
      cases routes_guarded route listed with
      | admin pattern h =>
        rw [admin_refuses noAdmin]
        exact .refl
      | reads pattern reads => exact (reads W _ r s).mono fun _ => False.elim
      | password =>
        simp only [Pattern.matches, Bool.and_eq_true, Bool.or_eq_true, decide_eq_true_eq] at matched
        have method : r.method = "PUT" := by
          rcases matched.1 with same | head
          · exact same.symm
          · exact absurd head.1 (by decide)
        have path : r.path = ["users", "me", "password"] := matchPath_text matched.2
        exact authOnly_changePassword ⟨method, path⟩

/-- After any requests without the token of an admin the registry, the
    references, all items, the backups, the usernames and the roles are as they
    were, and a password hash that is not was replaced by a request of its user
    who supplied the password. -/
theorem non_admins_change_nothing (W : Config) (s : Service) (requests : List Request)
    (noAdmin : ∀ r ∈ requests, NoAdmin W.auth r) :
    let s' := run W s requests
    s'.db = s.db ∧ s'.items = s.items ∧ s'.backups = s.backups ∧ accounts s'.users = accounts s.users ∧
      ∀ username, hashOf s'.users username ≠ hashOf s.users username →
        ∃ before r after, requests = before ++ r :: after ∧ ChangesPassword W (run W s before) r username := by
  have all : OnlyHashes (fun username => ∃ before r after, requests = before ++ r :: after ∧
      ChangesPassword W (run W s before) r username) s (run W s requests) := by
    induction requests generalizing s with
    | nil => exact .refl
    | cons r rest ih =>
      have first := serve_changes (noAdmin r List.mem_cons_self) s
      have later := ih (serve W s r).2 fun q member => noAdmin q (List.mem_cons_of_mem _ member)
      refine (first.trans later).mono ?_
      rintro username (here | ⟨before, q, after, rfl, there⟩)
      · exact ⟨[], r, rest, rfl, here⟩
      · exact ⟨r :: before, q, after, rfl, there⟩
  exact ⟨all.db, all.items, all.backups, all.accounts, all.hashes⟩

def readerIssue : Tokens.Issue := ⟨"reader", RoleReadOnly, 0, 3600000000000⟩

/-- Requests with the token of a reader, and one without a token. -/
def readerRequests : List Request :=
  let header := "Bearer " ++ readerIssue.token Tokens.zeroConfig
  [plainRequest "PUT" ["users", "me", "password"] header
      (.json (.obj [("current_password", .str "password"), ("new_password", .str "passphrase")])),
    plainRequest "DELETE" ["users", "root"] header .malformed,
    plainRequest "POST" ["collections"] "" (.json (.obj [("name", .str "books")]))]

def rootAndReader : UserTable := ⟨[⟨"root", "rootpass", RoleAdmin⟩, ⟨"reader", "password", RoleReadOnly⟩], by decide⟩

theorem non_admins_change_nothing_reader :
    (run plainConfig (newService (.float64 false) rootAndReader) readerRequests).db = (newService (.float64 false) rootAndReader).db ∧
      accounts (run plainConfig (newService (.float64 false) rootAndReader) readerRequests).users = accounts rootAndReader := by
  have valid : Tokens.validateToken Tokens.zeroConfig 0 (readerIssue.token Tokens.zeroConfig) = .ok ("reader", RoleReadOnly) :=
    Tokens.validateToken_of_presents (c := readerIssue) ⟨by decide, by decide⟩ (Tokens.token_presents _ _) (by decide)
  have reader (method : String) (path : List String) (body : RequestBody) : NoAdmin plainConfig.auth
      (plainRequest method path ("Bearer " ++ readerIssue.token Tokens.zeroConfig) body) := by
    intro username admin
    have token := bearer_of_token (r := plainRequest method path ("Bearer " ++ readerIssue.token Tokens.zeroConfig) body) rfl valid
    have role : RoleReadOnly = RoleAdmin := congrArg AuthContext.role (Except.ok.inj (token.symm.trans admin))
    exact absurd role (by decide)
  have missing : NoAdmin plainConfig.auth (plainRequest "POST" ["collections"] "" (.json (.obj [("name", .str "books")]))) := by
    intro username admin
    cases admin
  have all := non_admins_change_nothing plainConfig (newService (.float64 false) rootAndReader) readerRequests
    (by
      intro r member
      simp only [readerRequests, List.mem_cons, List.not_mem_nil, or_false] at member
      rcases member with rfl | rfl | rfl
      · exact reader _ _ _
      · exact reader _ _ _
      · exact missing)
  exact ⟨all.1, all.2.2.2.1⟩

end Microserver.Authorization
