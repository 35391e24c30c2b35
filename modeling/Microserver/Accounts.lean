import Microserver.Ranking
import Microserver.Requests
import Microserver.Tokens

/-!
The handlers of /login and of /users, and the listing of users.
-/
namespace Microserver.Accounts
open Microserver.Programs Microserver.Ranking Microserver.Users Microserver.Tokens Microserver.Handlers Microserver.Requests

/-- What requireAuth attaches to the context of a request. -/
structure AuthContext where
  username : String
  role : String
deriving DecidableEq

/-- A user as it is shown over HTTP. -/
structure UserInfo where
  username : String
  role : String
deriving DecidableEq

structure LoginResponse where
  token : String
  expiresIn : Int
deriving DecidableEq

/-- SELECT username, role FROM users ORDER BY username. -/
def userInfos (t : UserTable) : List UserInfo := sortBy (·.username) (t.rows.map fun u => ⟨u.username, u.role⟩)

/-- One statement, which `faulty` makes fail from outside. -/
def listUsers (faulty : Bool) (t : UserTable) : Except UserErr (List UserInfo) :=
  if faulty then .error (.wrapped "listing users" .database) else .ok (userInfos t)

/-- The rest of a handler after decodeJSON. -/
def withRequest {α β : Type} (body : Decoded α) (handle : α → UserOp (Written β)) : UserOp (Written β) :=
  match body with
  | .error reply => .ret (match reply.body with | .error msg => .error reply.status msg | _ => .bare reply.status)
  | .ok req => handle req

def handleLogin (B : Bcrypt) (cfg : AuthConfig) (now : Int) (body : Decoded LoginRequest) : UserOp (Written LoginResponse) :=
  withRequest body fun req => do
    match ← (getUser req.username).attempt with
    | .error e =>
      if e = .userNotFound then return .error 401 "invalid credentials" else return .error 500 e.error
    | .ok u =>
      if !checkPassword B u req.password then return .error 401 "invalid credentials"
      else return .json 200 ⟨generateToken cfg now u.username u.role, cfg.TTL / 1000000000⟩

def handleCreateUser (B : Bcrypt) (body : Decoded CreateUserRequest) : UserOp (Written UserInfo) :=
  withRequest body fun req => do
    match ← (createUser B req.username req.password req.role).attempt with
    | .error e => if e = .userExists then return .error 409 e.error else return .error 400 e.error
    | .ok _ => return .json 201 ⟨req.username, req.role⟩

/-- `ac` is the context of the request; the user comes from there. -/
def handleChangePassword (B : Bcrypt) (ac : Option AuthContext) (body : Decoded ChangePasswordRequest) :
    UserOp (Written Unit) :=
  match ac with
  | none => .ret (.error 401 "missing bearer token")
  | some ac => withRequest body fun req => do
    match ← (changePassword B ac.username req.currentPassword req.newPassword).attempt with
    | .error e =>
      if e = .wrongPassword then return .error 401 e.error
      else if e = .passwordTooShort then return .error 400 e.error
      else return .error 500 e.error
    | .ok _ => return .bare 204

def handleListUsers (faulty : Bool) (t : UserTable) : Written (List UserInfo) :=
  match listUsers faulty t with
  | .error e => .error 500 e.error
  | .ok users => .json 200 users

def handleResetPassword (B : Bcrypt) (username : String) (body : Decoded String) : UserOp (Written Unit) :=
  withRequest body fun newPassword => do
    match ← (resetPassword B username newPassword).attempt with
    | .error e =>
      if e = .userNotFound then return .error 404 e.error
      else if e = .passwordTooShort then return .error 400 e.error
      else return .error 500 e.error
    | .ok _ => return .bare 204

def handleDeleteUser (username : String) : UserOp (Written Unit) := do
  match ← (deleteUser username).attempt with
  | .error e => if e = .lastAdmin then return .error 409 e.error else return .error 500 e.error
  | .ok found => if !found then return .error 404 "user not found" else return .bare 204

end Microserver.Accounts
