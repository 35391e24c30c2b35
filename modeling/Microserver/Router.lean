import Microserver.Accounts
import Microserver.Backups
import Microserver.RateLimits
import Microserver.Schema
import Microserver.VecItems

/-!
The server: its state, the table of routes of newRouter with what each of them
requires of the caller, and how a request finds its handler. The handlers of one
request run alone; each part of the state has its own programs.
-/
namespace Microserver.Router
open Microserver.Values Microserver.Store Microserver.Programs Microserver.Statements Microserver.Operations
open Microserver.Requests Microserver.Users Microserver.Tokens Microserver.Accounts Microserver.RateLimits
open Microserver.ReadHandlers Microserver.VecItems Microserver.Backups Microserver.Params Microserver.Exports
open Microserver.Base64 (Bytes)

/-! ### The handlers of the catalog -/

def handleCreateCollection (body : Handlers.Decoded CreateCollectionRequest) : Op Handlers.Reply :=
  Handlers.withBody body fun req =>
    if req.name = "" then .ret (Handlers.writeError 400 "name is required")
    else do
      match ← (createCollection req.name req.vector req.dimensions req.references).attempt with
      | .error e => return Handlers.writeError (if e.is .collectionExists then 409 else 400) e.error
      | .ok _ => return ⟨201, .collection ⟨req.name, "", req.vector, req.dimensions⟩⟩

def handleDropCollection (name : String) : Op Handlers.Reply := do
  match ← (dropCollection name).attempt with
  | .error e =>
    return if e.is .collectionNotFound then Handlers.writeError 404 "collection not found"
      else Handlers.writeError 500 e.error
  | .ok _ => return ⟨204, .empty⟩

/-! ### Requests and responses -/

/-- A request as the router finds it. `path` holds the segments of the cleaned
    path, unescaped, and `clean` says that the path came in that form. Besides
    what the client sends there is what the request meets: the clock, the calls
    that fail from outside, and what the health checks find. -/
structure Request where
  method : String
  path : List String
  clean : Bool
  query : Query
  authorization : String
  body : RequestBody
  remoteAddr : String
  now : Int
  faults : List Bool
  checks : List (String × String)

inductive Content
  | empty
  | error (msg : String)
  | stored (body : Handlers.Body)
  | collections (cols : List Collection)
  | document (doc : Document)
  | documents (docs : List Document)
  | aggregates (results : List AggregateResult)
  | items (body : ItemBody)
  | login (response : LoginResponse)
  | user (u : UserInfo)
  | users (us : List UserInfo)
  | backups (body : BackupBody)
  | health (status : String) (checks : List (String × String))

structure Response where
  status : Nat
  content : Content

def errorResponse (status : Nat) (msg : String) : Response := ⟨status, .error msg⟩

/-- What a handler has written, as a response. -/
def respond {α : Type} (content : α → Content) : Written α → Response
  | .json status a => ⟨status, content a⟩
  | .error status msg => errorResponse status msg
  | .bare status => ⟨status, .empty⟩

def respondReply (reply : Handlers.Reply) : Response :=
  match reply.body with
  | .empty => ⟨reply.status, .empty⟩
  | .error msg => errorResponse reply.status msg
  | body => ⟨reply.status, .stored body⟩

/-! ### The state -/

/-- What the server relies on outside itself, and the configuration of tokens;
    `image` is the file that VACUUM INTO writes for a database. -/
structure Config where
  host : Host
  engine : Engine
  bcrypt : Bcrypt
  auth : AuthConfig
  image : DB → Table → UserTable → Bytes

structure Service where
  db : DB
  items : Table
  users : UserTable
  backups : Directory
  loginLimiter : RateLimiter

def loginRateLimitPerSecond : ℚ := 5 / 60
def loginRateLimitBurst : Int := 5

/-- The server on a new database that has only users. -/
def newService (machine : Arithmetic) (users : UserTable) : Service :=
  ⟨Schema.openVecDB, VecItems.schema, users, none, newRateLimiter machine loginRateLimitPerSecond loginRateLimitBurst⟩

/-- The context of a request: what requireAuth has attached, and the path values. -/
structure Context where
  auth : Option AuthContext
  values : List (String × String)

/-- `r.PathValue(name)`. -/
def Context.pathValue (ctx : Context) (name : String) : String := (ctx.values.lookup name).getD ""

/-- A handler answers a request and leaves the server in a next state. -/
abbrev Handler := Config → Context → Request → Service → Response × Service

section Lifting
variable {α : Type}

/-- A handler of collections. -/
def onDB (op : Context → Request → Config → Op α) (respond : α → Response) : Handler := fun W ctx r s =>
  match (machine W.host).run (op ctx r W) r.faults s.db with
  | (.ok written, db) => (respond written, { s with db := db })
  | (.error e, db) => (errorResponse 500 e.error, { s with db := db })

/-- A handler of the fixed table. -/
def onItems (op : Context → Request → ItemOp (Written ItemBody)) : Handler := fun W ctx r s =>
  match (itemMachine W.host).run (op ctx r) r.faults s.items with
  | (.ok written, items) => (respond .items written, { s with items := items })
  | (.error e, items) => (errorResponse 500 e.error, { s with items := items })

/-- A handler of users. -/
def onUsers (op : Context → Request → Config → UserOp (Written α)) (content : α → Content) : Handler := fun W ctx r s =>
  match userMachine.run (op ctx r W) r.faults s.users with
  | (.ok written, users) => (respond content written, { s with users := users })
  | (.error e, users) => (errorResponse 500 e.error, { s with users := users })

/-- A handler of backups; `image` is the file of the database as it is. -/
def onBackups (op : Context → Request → Bytes → FileOp (Written BackupBody)) : Handler := fun W ctx r s =>
  match fileMachine.run (op ctx r (W.image s.db s.items s.users)) r.faults s.backups with
  | (.ok written, backups) => (respond .backups written, { s with backups := backups })
  | (.error e, backups) => (errorResponse 500 e.error, { s with backups := backups })

end Lifting

/-! ### Middleware -/

/-- The caller that a request names with a bearer token. -/
def bearer (auth : AuthConfig) (r : Request) : Except String AuthContext :=
  let scheme := "Bearer ".toList
  if scheme.isPrefixOf r.authorization.toList then
    match validateToken auth r.now (String.ofList (r.authorization.toList.drop scheme.length)) with
    | .error _ => .error "invalid or expired token"
    | .ok (username, role) => .ok ⟨username, role⟩
  else .error "missing bearer token"

/-- The header `Bearer token`. -/
theorem bearer_of_token {auth : AuthConfig} {r : Request} {token username role : String}
    (header : r.authorization = "Bearer " ++ token) (valid : validateToken auth r.now token = .ok (username, role)) :
    bearer auth r = .ok ⟨username, role⟩ := by
  have starts : "Bearer ".toList.isPrefixOf r.authorization.toList = true := by
    rw [header, String.toList_append, List.isPrefixOf_iff_prefix]
    exact List.prefix_append _ _
  have rest : String.ofList (r.authorization.toList.drop "Bearer ".toList.length) = token := by
    rw [header, String.toList_append, List.drop_left, String.ofList_toList]
  unfold bearer
  simp only [starts, ↓reduceIte, rest, valid]

def requireAuth (next : Handler) : Handler := fun W ctx r s =>
  match bearer W.auth r with
  | .error msg => (errorResponse 401 msg, s)
  | .ok ac => next W { ctx with auth := some ac } r s

def requireAdmin (next : Handler) : Handler := fun W ctx r s =>
  match ctx.auth with
  | none => (errorResponse 403 "admin role required", s)
  | some ac => if ac.role ≠ RoleAdmin then (errorResponse 403 "admin role required", s) else next W ctx r s

/-- rateLimitMiddleware with the limiter of /login. -/
def rateLimitLogin (next : Handler) : Handler := fun W ctx r s =>
  let (allowed, limiter) := s.loginLimiter.allow r.now (clientIP r.remoteAddr)
  let s' := { s with loginLimiter := limiter }
  if allowed then next W ctx r s' else (errorResponse 429 "rate limit exceeded", s')

def authOnly (h : Handler) : Handler := requireAuth h

def admin (h : Handler) : Handler := requireAuth (requireAdmin h)

/-! ### The handlers -/

/-- The checks are made by the request; the status sums them up. -/
def handleHealth : Handler := fun _ _ r s =>
  let status := if r.checks.all fun check => check.2 = "ok" then "ok" else "degraded"
  (⟨if status = "ok" then 200 else 503, .health status r.checks⟩, s)

def loginHandler : Handler :=
  onUsers (fun _ r W => handleLogin W.bcrypt W.auth r.now (decodeJSON decodeLoginRequest r.body)) .login

def listHandler : Handler := onItems fun _ r => handleList r.query
def insertHandler : Handler := onItems fun _ r => handleInsert (decodeJSON decodeInsertRequest r.body)
def bulkInsertHandler : Handler := onItems fun _ r => handleBulkInsert (decodeJSON (decodeSlice decodeInsertRequest) r.body)
def updateHandler : Handler :=
  onItems fun ctx r => handleUpdate (ctx.pathValue "id") (decodeJSON decodeInsertRequest r.body)
def deleteHandler : Handler := onItems fun ctx _ => handleDelete (ctx.pathValue "id")
def searchHandler : Handler := onItems fun _ r => handleSearch r.query

def createCollectionHandler : Handler :=
  onDB (fun _ r _ => handleCreateCollection (decodeJSON decodeCreateCollectionRequest r.body)) respondReply
def listCollectionsHandler : Handler := onDB (fun _ _ _ => handleListCollections) (respond .collections)
def dropCollectionHandler : Handler := onDB (fun ctx _ _ => handleDropCollection (ctx.pathValue "name")) respondReply
def renameCollectionHandler : Handler :=
  onDB (fun ctx r _ => Handlers.handleRenameCollection (ctx.pathValue "name") (decodeJSON decodeRenameCollectionRequest r.body))
    respondReply
def insertDocumentHandler : Handler :=
  onDB (fun ctx r _ => Handlers.handleInsertDocument (ctx.pathValue "name") (decodeJSON decodeDocumentRequest r.body))
    respondReply
def bulkInsertDocumentHandler : Handler :=
  onDB (fun ctx r _ =>
    Handlers.handleBulkInsertDocument (ctx.pathValue "name") (decodeJSON (decodeSlice decodeDocumentRequest) r.body)) respondReply
def listDocumentsHandler : Handler :=
  onDB (fun ctx r W => handleListDocuments W.engine (ctx.pathValue "name") r.query) (respond .documents)
def getDocumentHandler : Handler :=
  onDB (fun ctx _ _ => handleGetDocument (ctx.pathValue "name") (ctx.pathValue "id")) (respond .document)
def updateDocumentHandler : Handler :=
  onDB (fun ctx r _ => Handlers.handleUpdateDocument (ctx.pathValue "name") (parseInt (ctx.pathValue "id"))
    (decodeJSON decodeDocumentRequest r.body)) respondReply
def deleteDocumentHandler : Handler :=
  onDB (fun ctx _ _ => Handlers.handleDeleteDocument (ctx.pathValue "name") (parseInt (ctx.pathValue "id"))) respondReply
def searchDocumentsHandler : Handler :=
  onDB (fun ctx r W => handleSearchDocuments W.engine (ctx.pathValue "name") r.query) (respond .documents)
def aggregateHandler : Handler :=
  onDB (fun ctx r W => handleAggregate W.engine (ctx.pathValue "name") r.query) (respond .aggregates)
def fullTextSearchHandler : Handler :=
  onDB (fun ctx r W => handleFullTextSearch W.engine (ctx.pathValue "name") r.query) (respond .documents)

/-- The loop of handleExportDocuments without writes in between, for at most so
    many pages. -/
def exportPages (h : Host) (coll : Collection) (s : DB) : Nat → List Bool → Pages → Pages
  | 0, _, pages => pages
  | n + 1, faults, pages => exportPages h coll s n faults.tail (pages.step h coll (faults.headD false) s)

/-- A page that is not the last one is full, so the rows bound the number of pages. -/
def exportDocumentsHandler : Handler := fun W ctx r s =>
  match (machine W.host).run (ReadHandlers.withCollection (ctx.pathValue "name") fun coll => .ret (.json 200 coll)) r.faults s.db with
  | (.ok (.json _ coll), _) =>
    let rows := match s.db.docs coll.tableName with | .ok t => t.rows.length | .error _ => 0
    match (exportPages W.host coll s.db (rows + 1) r.faults.tail (.paging 0 [])).reply with
    | some written => (respond .documents written, s)
    | none => (errorResponse 500 "", s)
  | (.ok (.error status msg), _) => (errorResponse status msg, s)
  | (.ok (.bare status), _) => (⟨status, .empty⟩, s)
  | (.error e, _) => (errorResponse 500 e.error, s)

def triggerBackupHandler : Handler := onBackups fun _ r image => handleTriggerBackup r.now image
def listBackupsHandler : Handler := onBackups fun _ _ _ => handleListBackups
def downloadBackupHandler : Handler := onBackups fun ctx _ _ => handleDownloadBackup (ctx.pathValue "name")

def changePasswordHandler : Handler :=
  onUsers (fun ctx r W => handleChangePassword W.bcrypt ctx.auth (decodeJSON decodeChangePasswordRequest r.body)) fun _ => .empty
def createUserHandler : Handler :=
  onUsers (fun _ r W => handleCreateUser W.bcrypt (decodeJSON decodeCreateUserRequest r.body)) .user
def listUsersHandler : Handler := fun _ _ r s => (respond .users (handleListUsers (r.faults.headD false) s.users), s)
def deleteUserHandler : Handler := onUsers (fun ctx _ _ => handleDeleteUser (ctx.pathValue "username")) fun _ => .empty
def resetPasswordHandler : Handler :=
  onUsers (fun ctx r W => handleResetPassword W.bcrypt (ctx.pathValue "username") (decodeJSON decodeResetPasswordRequest r.body))
    fun _ => .empty

/-! ### The routes -/

/-- A segment of a pattern; `{name}` stands for any one that is not empty. -/
inductive Segment
  | text (text : String)
  | wild (name : String)
deriving DecidableEq

structure Pattern where
  method : String
  path : List Segment
deriving DecidableEq

structure Route where
  pattern : Pattern
  handler : Handler

open Segment in
/-- The registrations of newRouter. -/
def routes : List Route :=
  [⟨⟨"GET", [text "health"]⟩, handleHealth⟩,
   ⟨⟨"POST", [text "login"]⟩, rateLimitLogin loginHandler⟩,
   ⟨⟨"GET", [text "items"]⟩, authOnly listHandler⟩,
   ⟨⟨"POST", [text "items"]⟩, admin insertHandler⟩,
   ⟨⟨"POST", [text "items", text "bulk"]⟩, admin bulkInsertHandler⟩,
   ⟨⟨"PUT", [text "items", wild "id"]⟩, admin updateHandler⟩,
   ⟨⟨"DELETE", [text "items", wild "id"]⟩, admin deleteHandler⟩,
   ⟨⟨"GET", [text "search"]⟩, authOnly searchHandler⟩,
   ⟨⟨"POST", [text "collections"]⟩, admin createCollectionHandler⟩,
   ⟨⟨"GET", [text "collections"]⟩, authOnly listCollectionsHandler⟩,
   ⟨⟨"DELETE", [text "collections", wild "name"]⟩, admin dropCollectionHandler⟩,
   ⟨⟨"PUT", [text "collections", wild "name", text "rename"]⟩, admin renameCollectionHandler⟩,
   ⟨⟨"POST", [text "collections", wild "name", text "items"]⟩, admin insertDocumentHandler⟩,
   ⟨⟨"POST", [text "collections", wild "name", text "items", text "bulk"]⟩, admin bulkInsertDocumentHandler⟩,
   ⟨⟨"GET", [text "collections", wild "name", text "items"]⟩, authOnly listDocumentsHandler⟩,
   ⟨⟨"GET", [text "collections", wild "name", text "items", wild "id"]⟩, authOnly getDocumentHandler⟩,
   ⟨⟨"PUT", [text "collections", wild "name", text "items", wild "id"]⟩, admin updateDocumentHandler⟩,
   ⟨⟨"DELETE", [text "collections", wild "name", text "items", wild "id"]⟩, admin deleteDocumentHandler⟩,
   ⟨⟨"GET", [text "collections", wild "name", text "search"]⟩, authOnly searchDocumentsHandler⟩,
   ⟨⟨"GET", [text "collections", wild "name", text "aggregate"]⟩, authOnly aggregateHandler⟩,
   ⟨⟨"GET", [text "collections", wild "name", text "fulltext"]⟩, authOnly fullTextSearchHandler⟩,
   ⟨⟨"GET", [text "collections", wild "name", text "export"]⟩, authOnly exportDocumentsHandler⟩,
   ⟨⟨"POST", [text "admin", text "backup"]⟩, admin triggerBackupHandler⟩,
   ⟨⟨"GET", [text "admin", text "backups"]⟩, admin listBackupsHandler⟩,
   ⟨⟨"GET", [text "admin", text "backups", wild "name"]⟩, admin downloadBackupHandler⟩,
   ⟨⟨"PUT", [text "users", text "me", text "password"]⟩, authOnly changePasswordHandler⟩,
   ⟨⟨"POST", [text "users"]⟩, admin createUserHandler⟩,
   ⟨⟨"GET", [text "users"]⟩, admin listUsersHandler⟩,
   ⟨⟨"DELETE", [text "users", wild "username"]⟩, admin deleteUserHandler⟩,
   ⟨⟨"PUT", [text "users", wild "username", text "password"]⟩, admin resetPasswordHandler⟩]

/-- The segments of a path against those of a pattern, with the path values. -/
def matchPath : List Segment → List String → Option (List (String × String))
  | [], [] => some []
  | .text t :: segments, s :: path => if t = s then matchPath segments path else none
  | .wild name :: segments, s :: path => if s = "" then none else (matchPath segments path).map fun values => (name, s) :: values
  | _, _ => none

/-- GET stands for HEAD as well. -/
def Pattern.matches (p : Pattern) (method : String) (path : List String) : Bool :=
  (p.method = method || (p.method = "GET" && method = "HEAD")) && (matchPath p.path path).isSome

/-- Wherever the other pattern has a text, this one has the same. -/
def Pattern.moreSpecific (p q : Pattern) : Bool :=
  (p.path.zip q.path).all fun pair => match pair.2 with | .text _ => pair.1 = pair.2 | .wild _ => true

/-- Of the patterns that match, the most specific one. -/
def findRoute (method : String) (path : List String) : Option Route :=
  let found := routes.filter fun route => route.pattern.matches method path
  found.find? fun route => found.all fun other => route.pattern.moreSpecific other.pattern

/-- The router. A path that is not clean is redirected to the clean one. -/
def serve (W : Config) (s : Service) (r : Request) : Response × Service :=
  if !r.clean && r.method ≠ "CONNECT" then (⟨307, .empty⟩, s)
  else
    match findRoute r.method r.path with
    | some route => route.handler W ⟨none, (matchPath route.pattern.path r.path).getD []⟩ r s
    | none =>
      if routes.any fun route => (matchPath route.pattern.path r.path).isSome then (errorResponse 405 "Method Not Allowed", s)
      else (errorResponse 404 "404 page not found", s)

/-- The state after a sequence of requests. -/
def run (W : Config) (s : Service) (requests : List Request) : Service := requests.foldl (fun s r => (serve W s r).2) s

/-- A configuration for runs on given inputs. -/
def plainConfig : Config := ⟨Host.uniform, Engine.plain, plainBcrypt, zeroConfig, fun _ _ _ => []⟩

/-- A request with a header and a body. -/
def plainRequest (method : String) (path : List String) (authorization : String) (body : RequestBody) : Request :=
  ⟨method, path, true, Query.empty, authorization, body, "203.0.113.7:54321", 0, [], []⟩

example : (findRoute "PUT" ["users", "me", "password"]).map (·.pattern) =
    some ⟨"PUT", [.text "users", .text "me", .text "password"]⟩ := by decide

end Microserver.Router
