import Microserver.Interleaving
import Microserver.Router

/-!
Password checks and the limiter of /login. Two handlers check passwords, and
handleLogin alone stands behind that limiter; so the checks that a client causes
are bounded as long as no PUT /users/me/password comes to its check. Requests
run at the same time: each of them finds the store as the others have left it,
and only the limiters are followed from one request to the next.
-/
namespace Microserver.Throttling
open Microserver.Programs Microserver.TokenBuckets Microserver.RateLimits Microserver.Requests Microserver.Accounts
open Microserver.Router
open Microserver.Users hiding Request

/-! ### The chain of main -/

def generalRateLimitPerSecond : ℚ := 20
def generalRateLimitBurst : Int := 40

/-- Ten minutes. -/
def rateLimiterPruneInterval : Int := 600000000000

structure Chain where
  service : Service
  generalLimiter : RateLimiter

/-- The request comes to newRouter: it is not answered by the middleware for
    browsers, by a redirect, by the metrics or by the general limiter. -/
def Chain.admits (cors : Bool) (c : Chain) (r : Request) : Bool :=
  !(cors && r.method = "OPTIONS") && (r.clean || r.method = "CONNECT") &&
    !((r.method = "GET" || r.method = "HEAD") && r.path = ["metrics"]) &&
    (c.generalLimiter.allow r.now (clientIP r.remoteAddr)).1

/-- The handler of main, without headers and the text of the metrics. -/
def Chain.handle (W : Config) (cors : Bool) (c : Chain) (r : Request) : Response × Chain :=
  if cors && r.method = "OPTIONS" then (⟨204, .empty⟩, c)
  else if !r.clean && r.method ≠ "CONNECT" then (⟨307, .empty⟩, c)
  else if (r.method = "GET" || r.method = "HEAD") && r.path = ["metrics"] then (⟨200, .empty⟩, c)
  else
    let (allowed, limiter) := c.generalLimiter.allow r.now (clientIP r.remoteAddr)
    if allowed then
      let (response, service) := serve W c.service r
      (response, ⟨service, limiter⟩)
    else (errorResponse 429 "rate limit exceeded", { c with generalLimiter := limiter })

/-! ### Which password a request checks -/

def loginPattern : Pattern := ⟨"POST", [.text "login"]⟩
def passwordPattern : Pattern := ⟨"PUT", [.text "users", .text "me", .text "password"]⟩

/-- The hash and the password that handleLogin gives to checkPassword. -/
def loginCheck (r : Request) (users : UserTable) : Option (String × String) :=
  match decodeJSON decodeLoginRequest r.body with
  | .error _ => none
  | .ok req =>
    match (userMachine.run (getUser req.username) r.faults users).1 with
    | .error _ => none
    | .ok u => some (u.passwordHash, req.password)

/-- The hash and the password that changePassword gives to checkPassword. -/
def changeCheck (username : String) (r : Request) (users : UserTable) : Option (String × String) :=
  match decodeJSON decodeChangePasswordRequest r.body with
  | .error _ => none
  | .ok req =>
    match (userMachine.run (getUser username) r.faults users).1 with
    | .error _ => none
    | .ok u => some (u.passwordHash, req.currentPassword)

/-- The route of a request that the router takes as it is. -/
def routeOf (r : Request) : Option Route :=
  if !r.clean && r.method ≠ "CONNECT" then none else findRoute r.method r.path

/-- The one call of checkPassword that a request causes in the router, if any. -/
def check (W : Config) (s : Service) (r : Request) : Option (String × String) :=
  match routeOf r with
  | none => none
  | some route =>
    if route.pattern = loginPattern then
      if (s.loginLimiter.allow r.now (clientIP r.remoteAddr)).1 then loginCheck r s.users else none
    else if route.pattern = passwordPattern then
      match bearer W.auth r with
      | .error _ => none
      | .ok ac => changeCheck ac.username r s.users
    else none

def Chain.check (W : Config) (cors : Bool) (c : Chain) (r : Request) : Option (String × String) :=
  if c.admits cors r then Throttling.check W c.service r else none

/-! ### What checkPassword is asked

The outcome of a request depends on how hashes compare with passwords at its one
check only.
-/

/-- The same configuration with another comparison of hashes and passwords. -/
def withCompare (W : Config) (compare : String → String → Bool) : Config :=
  { W with bcrypt := { W.bcrypt with compareHashAndPassword := compare } }

/-- The handler compares no password. -/
def Oblivious (h : Handler) : Prop := ∀ W compare ctx r s, h (withCompare W compare) ctx r s = h W ctx r s

theorem routes_oblivious : ∀ route ∈ routes,
    route = ⟨loginPattern, rateLimitLogin loginHandler⟩ ∨ route = ⟨passwordPattern, authOnly changePasswordHandler⟩ ∨
      route.pattern ≠ loginPattern ∧ route.pattern ≠ passwordPattern ∧ Oblivious route.handler := by
  simp only [routes, List.forall_mem_cons]
  and_intros
  all_goals first
    | exact .inr (.inr ⟨by decide, by decide, fun _ _ _ _ _ => rfl⟩)
    | exact .inl rfl
    | exact .inr (.inl rfl)
    | simp

section Compare
variable {W : Config} {compare : String → String → Bool} {ctx : Context} {r : Request} {s : Service}

/-- A program that looks a user up first goes on with the row that getUser
    returns. -/
theorem run_lookup_congr {α : Type} {username : String} {faults : List Bool} {users : UserTable}
    {next next' : Except UserErr (Option User) → UserOp α} (onError : ∀ e, next (.error e) = next' (.error e))
    (onNone : next (.ok none) = next' (.ok none))
    (onSome : ∀ u, (userMachine.run (getUser username) faults users).1 = .ok u → next (.ok (some u)) = next' (.ok (some u))) :
    userMachine.run (.stmt (.getUser username) next) faults users =
      userMachine.run (.stmt (.getUser username) next') faults users := by
  cases faulty : faults.headD false with
  | true => rw [userMachine.run_faulty faulty, userMachine.run_faulty faulty, onError]
  | false =>
    have read : userMachine.exec (.getUser username) users = .ok (users.rows.find? (fun u => u.username = username), users) := rfl
    have returned : userMachine.run (getUser username) faults users = userMachine.run _ faults.tail users :=
      userMachine.run_ok faulty read
    rw [userMachine.run_ok faulty read, userMachine.run_ok faulty read]
    cases found : users.rows.find? (fun u => u.username = username) with
    | none => rw [onNone]
    | some u =>
      rw [onSome u]
      rw [returned, found]
      rfl

theorem onUsers_congr {α : Type} {op : Context → Request → Config → UserOp (Written α)} {content : α → Content} {W' : Config}
    (same : userMachine.run (op ctx r W') r.faults s.users = userMachine.run (op ctx r W) r.faults s.users) :
    onUsers op content W' ctx r s = onUsers op content W ctx r s := by
  unfold onUsers
  rw [same]

theorem loginHandler_check (agrees : ∀ pair, loginCheck r s.users = some pair →
    compare pair.1 pair.2 = W.bcrypt.compareHashAndPassword pair.1 pair.2) :
    loginHandler (withCompare W compare) ctx r s = loginHandler W ctx r s := by
  refine onUsers_congr ?_
  unfold loginCheck at agrees
  unfold handleLogin withRequest
  cases decoded : decodeJSON decodeLoginRequest r.body with
  | error reply => rfl
  | ok req =>
    show userMachine.run (.stmt (.getUser req.username) _) _ _ = userMachine.run (.stmt (.getUser req.username) _) _ _
    refine run_lookup_congr (fun _ => rfl) rfl fun u found => ?_
    have checked : checkPassword (withCompare W compare).bcrypt u req.password = checkPassword W.bcrypt u req.password :=
      agrees (u.passwordHash, req.password) (by simp only [decoded, found])
    show (if _ then _ else _) = (if _ then _ else _)
    rw [checked]
    rfl

theorem changePasswordHandler_check {ac : AuthContext} (attached : ctx.auth = some ac)
    (agrees : ∀ pair, changeCheck ac.username r s.users = some pair →
      compare pair.1 pair.2 = W.bcrypt.compareHashAndPassword pair.1 pair.2) :
    changePasswordHandler (withCompare W compare) ctx r s = changePasswordHandler W ctx r s := by
  refine onUsers_congr ?_
  unfold changeCheck at agrees
  rw [attached]
  unfold handleChangePassword withRequest
  cases decoded : decodeJSON decodeChangePasswordRequest r.body with
  | error reply => rfl
  | ok req =>
    show userMachine.run (.stmt (.getUser ac.username) _) _ _ = userMachine.run (.stmt (.getUser ac.username) _) _ _
    refine run_lookup_congr (fun _ => rfl) rfl fun u found => ?_
    have checked : checkPassword (withCompare W compare).bcrypt u req.currentPassword = checkPassword W.bcrypt u req.currentPassword :=
      agrees (u.passwordHash, req.currentPassword) (by simp only [decoded, found])
    show Prog.bind (Prog.attempt (if _ then _ else _)) _ = Prog.bind (Prog.attempt (if _ then _ else _)) _
    rw [checked]
    rfl

/-- Another comparison that agrees on the check of a request leaves the answer
    and the state as they are. -/
theorem serve_check (agrees : ∀ pair, check W s r = some pair →
    compare pair.1 pair.2 = W.bcrypt.compareHashAndPassword pair.1 pair.2) :
    serve (withCompare W compare) s r = serve W s r := by
  unfold check routeOf at agrees
  unfold serve
  by_cases unclean : (!r.clean && r.method ≠ "CONNECT") = true
  · rw [if_pos unclean, if_pos unclean]
  · rw [if_neg unclean] at agrees ⊢
    rw [if_neg unclean]
    cases found : findRoute r.method r.path with
    | none => rfl
    | some route =>
      simp only [found] at agrees
      rcases routes_oblivious route (List.mem_filter.mp (List.mem_of_find?_eq_some found)).1 with
        rfl | rfl | ⟨login, password, oblivious⟩
      · show rateLimitLogin loginHandler (withCompare W compare) _ r s = rateLimitLogin loginHandler W _ r s
        unfold rateLimitLogin
        cases allowed : (s.loginLimiter.allow r.now (clientIP r.remoteAddr)).1 with
        | false => simp only [allowed, Bool.false_eq_true, ↓reduceIte]
        | true =>
          simp only [allowed, ↓reduceIte] at agrees ⊢
          exact loginHandler_check agrees
      · show authOnly changePasswordHandler (withCompare W compare) _ r s = authOnly changePasswordHandler W _ r s
        have other : passwordPattern ≠ loginPattern := by decide
        simp only [if_neg other, ↓reduceIte] at agrees
        unfold authOnly requireAuth
        cases token : bearer W.auth r with
        | error msg => simp only [withCompare, token]
        | ok ac =>
          simp only [token] at agrees
          have attached : (⟨some ac, (matchPath passwordPattern.path r.path).getD []⟩ : Context).auth = some ac := rfl
          have checked := changePasswordHandler_check attached agrees
          simpa only [withCompare, token] using checked
      · exact oblivious W compare _ r s

end Compare

/-! ### Runs -/

/-- What the limiters see: requests, each with the store that it finds and the
    nanoseconds that its body takes to come in, and the ticks of the prune loop. -/
inductive Event
  | request (r : Request) (found : Service) (wait : Nat)
  | prune (now : Int)

/-- The time at which the limiters are asked, or pruned. -/
def Event.now : Event → Int
  | .request r _ _ => r.now
  | .prune now => now

structure Limiters where
  login : RateLimiter
  general : RateLimiter

def newLimiters (machine : Arithmetic) : Limiters :=
  ⟨newRateLimiter machine loginRateLimitPerSecond loginRateLimitBurst,
    newRateLimiter machine generalRateLimitPerSecond generalRateLimitBurst⟩

/-- The chain for a request that finds the store so. -/
def Limiters.chain (l : Limiters) (found : Service) : Chain := ⟨{ found with loginLimiter := l.login }, l.general⟩

def Limiters.step (W : Config) (cors : Bool) (l : Limiters) : Event → Limiters
  | .request r found _ =>
    let c := ((l.chain found).handle W cors r).2
    ⟨c.service.loginLimiter, c.generalLimiter⟩
  | .prune now => { l with general := l.general.pruneStale now (rateLimiterPruneInterval * 10) }

def limitersAfter (W : Config) (cors : Bool) (events : List Event) (l : Limiters) : Limiters :=
  events.foldl (Limiters.step W cors) l

/-- When a request of the client asks the limiters and when it checks a password, if
    it does: handleLogin decodes the body in between. -/
def Limiters.checked (W : Config) (cors : Bool) (ip : String) (l : Limiters) : Event → Option (Int × Int)
  | .request r found wait =>
    if clientIP r.remoteAddr = ip ∧ ((l.chain found).check W cors r).isSome = true then some (r.now, r.now + wait) else none
  | .prune _ => none

/-- The password checks of a client. -/
def checks (W : Config) (cors : Bool) (ip : String) : List Event → Limiters → List (Int × Int)
  | [], _ => []
  | e :: rest, l => (l.checked W cors ip e).toList ++ checks W cors ip rest (l.step W cors e)

/-- How many passwords the requests of a client check in a window. -/
def verifications (W : Config) (cors : Bool) (ip : String) (s t : Int) (events : List Event) (l : Limiters) : Nat :=
  (checks W cors ip events l).countP fun c => s ≤ c.2 ∧ c.2 ≤ t

/-- No request of the client that checks a password comes to its check faster than
    an earlier one did. -/
def Unhurried (W : Config) (cors : Bool) (ip : String) (events : List Event) (l : Limiters) : Prop :=
  (checks W cors ip events l).Pairwise fun c c' => c.2 - c.1 ≤ c'.2 - c'.1

instance (W : Config) (cors : Bool) (ip : String) (events : List Event) (l : Limiters) :
    Decidable (Unhurried W cors ip events l) := by
  unfold Unhurried
  exact inferInstance

/-- A password change that comes to its check: the general limiter lets it pass,
    its token is valid, its body is decoded and its user is found. -/
def Bypasses (W : Config) (cors : Bool) (l : Limiters) : Event → Prop
  | .request r found _ =>
    (routeOf r).map (·.pattern) = some passwordPattern ∧ ((l.chain found).check W cors r).isSome = true
  | .prune _ => False

/-! ### The routes and the limiter -/

/-- The handler does not touch the limiter of /login. -/
def KeepsLimiter (h : Handler) : Prop := ∀ W ctx r s, (h W ctx r s).2.loginLimiter = s.loginLimiter

section KeepsLimiter
variable {α : Type}

theorem onDB_keeps (op : Context → Request → Config → Operations.Op α) (respond : α → Response) :
    KeepsLimiter (onDB op respond) := by
  intro W ctx r s
  unfold onDB
  split <;> rfl

theorem onItems_keeps (op : Context → Request → VecItems.ItemOp (Written VecItems.ItemBody)) :
    KeepsLimiter (onItems op) := by
  intro W ctx r s
  unfold onItems
  split <;> rfl

theorem onUsers_keeps (op : Context → Request → Config → UserOp (Written α)) (content : α → Content) :
    KeepsLimiter (onUsers op content) := by
  intro W ctx r s
  unfold onUsers
  split <;> rfl

theorem onBackups_keeps (op : Context → Request → Base64.Bytes → Backups.FileOp (Written Backups.BackupBody)) :
    KeepsLimiter (onBackups op) := by
  intro W ctx r s
  unfold onBackups
  split <;> rfl

theorem authOnly_keeps {h : Handler} (keeps : KeepsLimiter h) : KeepsLimiter (authOnly h) := by
  intro W ctx r s
  unfold authOnly requireAuth
  cases bearer W.auth r with
  | error msg => rfl
  | ok ac => exact keeps W _ r s

theorem admin_keeps {h : Handler} (keeps : KeepsLimiter h) : KeepsLimiter (admin h) := by
  refine authOnly_keeps fun W ctx r s => ?_
  unfold requireAdmin
  cases ctx.auth with
  | none => rfl
  | some ac =>
    dsimp only
    split
    · rfl
    · exact keeps W ctx r s

theorem exportDocuments_keeps : KeepsLimiter exportDocumentsHandler := by
  intro W ctx r s
  unfold exportDocumentsHandler
  split
  · dsimp only
    split <;> rfl
  all_goals rfl

end KeepsLimiter

/-- The limiter stands before handleLogin and no other handler touches it. -/
theorem routes_limiter : ∀ route ∈ routes,
    route = ⟨loginPattern, rateLimitLogin loginHandler⟩ ∨ route.pattern ≠ loginPattern ∧ KeepsLimiter route.handler := by
  have other {pattern : Pattern} {h : Handler} (different : pattern ≠ loginPattern) (keeps : KeepsLimiter h) :
      (⟨pattern, h⟩ : Route) = ⟨loginPattern, rateLimitLogin loginHandler⟩ ∨ pattern ≠ loginPattern ∧ KeepsLimiter h :=
    .inr ⟨different, keeps⟩
  have health : KeepsLimiter handleHealth := fun _ _ _ _ => rfl
  have users : KeepsLimiter listUsersHandler := fun _ _ _ _ => rfl
  simp only [routes, List.forall_mem_cons]
  exact ⟨other (by decide) health, .inl rfl, other (by decide) (authOnly_keeps (onItems_keeps _)),
    other (by decide) (admin_keeps (onItems_keeps _)), other (by decide) (admin_keeps (onItems_keeps _)),
    other (by decide) (admin_keeps (onItems_keeps _)), other (by decide) (admin_keeps (onItems_keeps _)),
    other (by decide) (authOnly_keeps (onItems_keeps _)),
    other (by decide) (admin_keeps (onDB_keeps _ _)), other (by decide) (authOnly_keeps (onDB_keeps _ _)),
    other (by decide) (admin_keeps (onDB_keeps _ _)), other (by decide) (admin_keeps (onDB_keeps _ _)),
    other (by decide) (admin_keeps (onDB_keeps _ _)), other (by decide) (admin_keeps (onDB_keeps _ _)),
    other (by decide) (authOnly_keeps (onDB_keeps _ _)), other (by decide) (authOnly_keeps (onDB_keeps _ _)),
    other (by decide) (admin_keeps (onDB_keeps _ _)), other (by decide) (admin_keeps (onDB_keeps _ _)),
    other (by decide) (authOnly_keeps (onDB_keeps _ _)), other (by decide) (authOnly_keeps (onDB_keeps _ _)),
    other (by decide) (authOnly_keeps (onDB_keeps _ _)), other (by decide) (authOnly_keeps exportDocuments_keeps),
    other (by decide) (admin_keeps (onBackups_keeps _)), other (by decide) (admin_keeps (onBackups_keeps _)),
    other (by decide) (admin_keeps (onBackups_keeps _)),
    other (by decide) (authOnly_keeps (onUsers_keeps _ _)), other (by decide) (admin_keeps (onUsers_keeps _ _)),
    other (by decide) (admin_keeps users), other (by decide) (admin_keeps (onUsers_keeps _ _)),
    other (by decide) (admin_keeps (onUsers_keeps _ _)), by simp⟩

theorem routeOf_mem {r : Request} {route : Route} (found : routeOf r = some route) : route ∈ routes := by
  unfold routeOf at found
  split at found
  · cases found
  · exact (List.mem_filter.mp (List.mem_of_find?_eq_some found)).1

theorem rateLimitLogin_limiter (W : Config) (ctx : Context) (r : Request) (s : Service) :
    (rateLimitLogin loginHandler W ctx r s).2.loginLimiter = (s.loginLimiter.allow r.now (clientIP r.remoteAddr)).2 := by
  unfold rateLimitLogin
  dsimp only
  split
  · exact onUsers_keeps _ _ W ctx r _
  · rfl

theorem serve_limiter (W : Config) (s : Service) (r : Request) : (serve W s r).2.loginLimiter =
    if (routeOf r).map (·.pattern) = some loginPattern then (s.loginLimiter.allow r.now (clientIP r.remoteAddr)).2
    else s.loginLimiter := by
  have listed (route : Route) (found : routeOf r = some route) := routes_limiter route (routeOf_mem found)
  unfold serve
  unfold routeOf at listed ⊢
  by_cases unclean : (!r.clean && r.method ≠ "CONNECT") = true
  · rw [if_pos unclean, if_pos unclean]
    rfl
  · rw [if_neg unclean] at listed ⊢
    rw [if_neg unclean]
    cases found : findRoute r.method r.path with
    | none =>
      dsimp only
      split <;> rfl
    | some route =>
      rcases listed route found with rfl | ⟨other, keeps⟩
      · exact rateLimitLogin_limiter W _ r s
      · have different : ¬ (some route).map (·.pattern) = some loginPattern := fun same => other (Option.some.inj same)
        rw [if_neg different]
        exact keeps W _ r s

/-- The request goes through the limiter of /login. -/
def AsksLogin (cors : Bool) (c : Chain) (r : Request) : Prop :=
  c.admits cors r = true ∧ (routeOf r).map (·.pattern) = some loginPattern

theorem handle_asks {W : Config} {cors : Bool} {c : Chain} {r : Request} (asks : AsksLogin cors c r) :
    (c.handle W cors r).2.service.loginLimiter = (c.service.loginLimiter.allow r.now (clientIP r.remoteAddr)).2 := by
  obtain ⟨admitted, route⟩ := asks
  simp only [Chain.admits, Bool.and_eq_true, Bool.not_eq_true', Bool.or_eq_true, decide_eq_true_eq] at admitted
  obtain ⟨⟨⟨browser, clean⟩, metrics⟩, allowed⟩ := admitted
  have stays : ¬ (!r.clean && decide (r.method ≠ "CONNECT")) = true := by
    rcases clean with clean | connect
    · simp [clean]
    · simp [connect]
  unfold Chain.handle
  rw [if_neg (by simp [browser]), if_neg stays, if_neg (by simp [metrics])]
  simp only [allowed, ↓reduceIte, serve_limiter, if_pos route]

theorem handle_keeps {W : Config} {cors : Bool} {c : Chain} {r : Request} (elsewhere : ¬ AsksLogin cors c r) :
    (c.handle W cors r).2.service.loginLimiter = c.service.loginLimiter := by
  unfold Chain.handle
  by_cases browser : (cors && r.method = "OPTIONS") = true
  · rw [if_pos browser]
  · rw [if_neg browser]
    by_cases unclean : (!r.clean && r.method ≠ "CONNECT") = true
    · rw [if_pos unclean]
    · rw [if_neg unclean]
      by_cases metrics : ((r.method = "GET" || r.method = "HEAD") && r.path = ["metrics"]) = true
      · rw [if_pos metrics]
      · rw [if_neg metrics]
        cases allowed : (c.generalLimiter.allow r.now (clientIP r.remoteAddr)).1 with
        | false => simp only [allowed, Bool.false_eq_true, ↓reduceIte]
        | true =>
          have admitted : c.admits cors r = true := by
            have clean : (r.clean || r.method = "CONNECT") = true := by
              rw [Bool.eq_false_iff.mpr metrics] at *
              simpa [Bool.or_eq_true, Classical.or_iff_not_imp_left] using unclean
            unfold Chain.admits
            rw [Bool.eq_false_iff.mpr browser, Bool.eq_false_iff.mpr metrics, clean, allowed]
            rfl
          have other : ¬ (routeOf r).map (·.pattern) = some loginPattern := fun route => elsewhere ⟨admitted, route⟩
          simp only [allowed, ↓reduceIte, serve_limiter, if_neg other]

/-- A check is made behind the limiter of /login, or by a password change. -/
theorem check_cases {W : Config} {cors : Bool} {c : Chain} {r : Request} (checks : (c.check W cors r).isSome = true) :
    AsksLogin cors c r ∧ (c.service.loginLimiter.allow r.now (clientIP r.remoteAddr)).1 = true ∨
      (routeOf r).map (·.pattern) = some passwordPattern := by
  unfold Chain.check at checks
  by_cases admitted : c.admits cors r = true
  · rw [if_pos admitted] at checks
    unfold check at checks
    cases found : routeOf r with
    | none => simp [found] at checks
    | some route =>
      simp only [found] at checks
      by_cases login : route.pattern = loginPattern
      · rw [if_pos login] at checks
        by_cases allowed : (c.service.loginLimiter.allow r.now (clientIP r.remoteAddr)).1 = true
        · exact .inl ⟨⟨admitted, by rw [found, ← login]; rfl⟩, allowed⟩
        · rw [if_neg allowed] at checks
          cases checks
      · rw [if_neg login] at checks
        by_cases password : route.pattern = passwordPattern
        · exact .inr (by rw [← password]; rfl)
        · rw [if_neg password] at checks
          cases checks
  · rw [if_neg admitted] at checks
    cases checks

/-! ### The bound -/

def loginLimit : Limit ℚ where
  rate := loginRateLimitPerSecond
  burst := loginRateLimitBurst
  rate_nonneg := by unfold loginRateLimitPerSecond; norm_num
  one_le_burst := by unfold loginRateLimitBurst; norm_num

/-- Rounding gives a client of the limiter of /login more tokens than the time that
    has elapsed. -/
def RoundsUp (cors : Bool) (l : Limiters) : Event → Prop
  | .request r found _ => AsksLogin cors (l.chain found) r ∧ ∃ b ∈ l.login.buckets (clientIP r.remoteAddr),
    b.tokens + seconds (r.now - b.lastCheck) * loginRateLimitPerSecond < min loginLimit.burst (l.login.refilled b r.now)
  | .prune _ => False

instance (cors : Bool) (c : Chain) (r : Request) : Decidable (AsksLogin cors c r) := inferInstanceAs (Decidable (_ ∧ _))

instance (cors : Bool) (l : Limiters) : (e : Event) → Decidable (RoundsUp cors l e)
  | .request r _ _ => inferInstanceAs (Decidable (_ ∧ ∃ b ∈ l.login.buckets (clientIP r.remoteAddr), _))
  | .prune _ => .isFalse id

/-- The limiter of /login, with sound buckets. -/
structure Sound (fuses : Bool) (now : Int) (l : Limiters) : Prop where
  machine : l.login.machine = .float64 fuses
  rate : 0 ≤ l.login.rate
  burst : l.login.burst = loginLimit.burst
  buckets : ∀ key, loginLimit.Sound (seconds now) (l.login.bucket key)

variable {fuses : Bool}

theorem Sound.later {now now' : Int} {l : Limiters} (sound : Sound fuses now l) (after : now ≤ now') : Sound fuses now' l :=
  ⟨sound.machine, sound.rate, sound.burst, fun key => (sound.buckets key).later (seconds_le.mpr after)⟩

theorem newLimiters_sound (fuses : Bool) (now : Int) : Sound fuses now (newLimiters (.float64 fuses)) :=
  ⟨rfl, round_nonneg (float64_monotone fuses) loginLimit.rate_nonneg,
    (by decide +kernel : Rounding.nearest 52 loginLimit.burst = loginLimit.burst), fun _ => Limit.sound_none⟩

section Step
variable {W : Config} {cors : Bool} {u v : Int} {l : Limiters} {e : Event}

/-- The check of a request that was admitted in the window. -/
def admittedIn (u v : Int) (check : Option (Int × Int)) : Nat := check.toList.countP fun c => u ≤ c.1 ∧ c.1 ≤ v

/-- What one event spends, the client's bucket loses. -/
theorem Sound.step (sound : Sound fuses e.now l) (ip : String) (window : u ≤ v) (behind : ¬ Bypasses W cors l e)
    (above : ¬ RoundsUp cors l e) : Sound fuses e.now (l.step W cors e) ∧
      (admittedIn u v (l.checked W cors ip e) : ℚ) +
          loginLimit.allowance (seconds u) (seconds v) ((l.step W cors e).login.bucket ip) ≤
        loginLimit.allowance (seconds u) (seconds v) (l.login.bucket ip) := by
  cases e with
  | prune now =>
    exact ⟨⟨sound.machine, sound.rate, sound.burst, sound.buckets⟩, by simp [Limiters.checked, Limiters.step, admittedIn]⟩
  | request r found wait =>
    by_cases asks : AsksLogin cors (l.chain found) r
    · -- the limiter of /login is asked under the address of the request
      have stepped : (l.step W cors (.request r found wait)).login = (l.login.allow r.now (clientIP r.remoteAddr)).2 :=
        handle_asks (W := W) asks
      have level : ∀ b ∈ l.login.buckets (clientIP r.remoteAddr), min loginLimit.burst (l.login.refilled b r.now) ≤
          b.tokens + seconds (r.now - b.lastCheck) * loginLimit.rate :=
        fun b there => not_lt.mp fun more => above ⟨asks, b, there, more⟩
      have buckets : loginLimit.Sound (seconds r.now) (l.login.bucket (clientIP r.remoteAddr)) := sound.buckets _
      obtain ⟨left, bucket, spends⟩ := allow_spends sound.machine sound.rate sound.burst (by decide +kernel) (by decide +kernel)
        buckets level
      obtain ⟨b, put⟩ := allow_put l.login r.now (clientIP r.remoteAddr)
      refine ⟨⟨?_, ?_, ?_, fun key => ?_⟩, ?_⟩
      · rw [stepped, put]
        exact sound.machine
      · rw [stepped, put]
        exact sound.rate
      · rw [stepped, put]
        exact sound.burst
      · rw [stepped]
        by_cases same : key = clientIP r.remoteAddr
        · rw [same, bucket]
          exact spends.sound
        · rw [allow_other same]
          exact sound.buckets key
      · rw [stepped]
        by_cases same : ip = clientIP r.remoteAddr
        · subst same
          have spent : admittedIn u v (l.checked W cors (clientIP r.remoteAddr) (.request r found wait)) ≤
              Limit.spent (seconds u) (seconds v) (seconds r.now) (l.login.allow r.now (clientIP r.remoteAddr)).1 := by
            have times : seconds u ≤ seconds r.now ∧ seconds r.now ≤ seconds v ↔ u ≤ r.now ∧ r.now ≤ v :=
              and_congr seconds_le seconds_le
            rw [Limiters.checked, Limit.spent]
            by_cases counted : ((l.chain found).check W cors r).isSome = true
            · have granted : (l.login.allow r.now (clientIP r.remoteAddr)).1 = true := by
                rcases check_cases counted with login | password
                · exact login.2
                · exact absurd ⟨password, counted⟩ behind
              simp [admittedIn, counted, granted, times, List.countP_singleton]
            · simp [admittedIn, counted]
          have taken := spends.allowance (s := seconds u) (t := seconds v) (seconds_le.mpr window) buckets
          rw [bucket]
          exact le_trans (add_le_add_left (Nat.cast_le.mpr spent) _) taken
        · have free : l.checked W cors ip (.request r found wait) = none := if_neg fun counted => same counted.1.symm
          rw [free, allow_other same]
          exact (zero_add _).le
    · have stepped : (l.step W cors (.request r found wait)).login = l.login := handle_keeps (W := W) asks
      have free : l.checked W cors ip (.request r found wait) = none := by
        refine if_neg fun counted => ?_
        rcases check_cases counted.2 with login | password
        · exact asks login.1
        · exact behind ⟨password, counted.2⟩
      refine ⟨⟨by rw [stepped]; exact sound.machine, by rw [stepped]; exact sound.rate, by rw [stepped]; exact sound.burst,
        by rw [stepped]; exact sound.buckets⟩, ?_⟩
      rw [free, stepped]
      exact (zero_add _).le

end Step

/-- A run whose logins are behind the limiter and are not rounded up. -/
def Behind (W : Config) (cors : Bool) (l : Limiters) (e : Event) : Prop := ¬ Bypasses W cors l e ∧ ¬ RoundsUp cors l e

/-- Through such a run, a client that asks the limiters in a window checks no more
    passwords than its bucket allowed at the start. -/
theorem admitted_le_allowance {W : Config} {cors : Bool} (ip : String) {u v : Int} (window : u ≤ v)
    {events : List Event} {l : Limiters} (ordered : (events.map Event.now).Pairwise (· ≤ ·))
    (sound : ∀ e ∈ events.head?, Sound fuses e.now l)
    (behind : Along (Limiters.step W cors) (Behind W cors) events l) {now : Int} (start : Sound fuses now l) :
    ((checks W cors ip events l).countP (fun c => u ≤ c.1 ∧ c.1 ≤ v) : ℚ) ≤
      loginLimit.allowance (seconds u) (seconds v) (l.login.bucket ip) := by
  induction events generalizing l now with
  | nil =>
    rw [checks, List.countP_nil, Nat.cast_zero]
    exact Limit.allowance_nonneg (seconds_le.mpr window) (start.buckets ip)
  | cons e rest ih =>
    obtain ⟨after, spent⟩ := (sound e rfl).step ip window behind.1.1 behind.1.2
    rw [List.map_cons, List.pairwise_cons] at ordered
    have next : ∀ e' ∈ rest.head?, Sound fuses e'.now (l.step W cors e) := fun e' member =>
      after.later (ordered.1 _ (List.mem_map_of_mem (List.mem_of_mem_head? member)))
    have later := ih ordered.2 next behind.2 after
    rw [checks, List.countP_append, Nat.cast_add]
    rw [admittedIn] at spent
    linarith

/-- The limiters are asked in the order of the run. -/
theorem checks_ordered (W : Config) (cors : Bool) (ip : String) {events : List Event} (l : Limiters)
    (ordered : (events.map Event.now).Pairwise (· ≤ ·)) : (checks W cors ip events l).Pairwise fun c c' => c.1 ≤ c'.1 := by
  suffices sublist : ((checks W cors ip events l).map Prod.fst).Sublist (events.map Event.now) from
    List.pairwise_map.mp (ordered.sublist sublist)
  clear ordered
  induction events generalizing l with
  | nil => exact .slnil
  | cons e rest ih =>
    rw [checks, List.map_append, List.map_cons]
    cases checked : l.checked W cors ip e with
    | none => exact (ih _).cons _
    | some c =>
      have asked : c.1 = e.now := by
        cases e with
        | prune now => cases checked
        | request r found wait =>
          rw [Limiters.checked, Option.ite_none_right_eq_some] at checked
          rw [← Option.some.inj checked.2]
          rfl
      rw [Option.toList_some, List.map_singleton, asked]
      exact (ih _).cons_cons _

/-- Checks that come no faster than earlier ones were asked for in a window no
    longer than theirs. -/
theorem admitted_window {cs : List (Int × Int)} (ordered : cs.Pairwise fun c c' => c.1 ≤ c'.1)
    (unhurried : cs.Pairwise fun c c' => c.2 - c.1 ≤ c'.2 - c'.1) {s t : Int} (window : s ≤ t) :
    ∃ u v, u ≤ v ∧ v - u ≤ t - s ∧ cs.countP (fun c => s ≤ c.2 ∧ c.2 ≤ t) ≤ cs.countP (fun c => u ≤ c.1 ∧ c.1 ≤ v) := by
  have inside (c : Int × Int) : c ∈ cs.filter (fun c => s ≤ c.2 ∧ c.2 ≤ t) ↔ c ∈ cs ∧ s ≤ c.2 ∧ c.2 ≤ t := by
    rw [List.mem_filter, decide_eq_true_eq]
  have pairs : (cs.filter fun c => s ≤ c.2 ∧ c.2 ≤ t).Pairwise fun c c' => c.1 ≤ c'.1 ∧ c.2 - c.1 ≤ c'.2 - c'.1 :=
    (ordered.and unhurried).filter _
  rcases List.eq_nil_or_concat (cs.filter fun c => s ≤ c.2 ∧ c.2 ≤ t) with empty | ⟨first, last, split⟩
  · refine ⟨s, s, le_rfl, by omega, ?_⟩
    rw [List.countP_eq_length_filter, empty]
    exact Nat.zero_le _
  rw [split, List.concat_eq_append] at pairs
  have upTo (c : Int × Int) (member : c ∈ first ++ [last]) : c.1 ≤ last.1 ∧ c.2 - c.1 ≤ last.2 - last.1 := by
    rcases List.mem_append.mp member with before | here
    · exact (List.pairwise_append.mp pairs).2.2 c before last (.head _)
    · rw [List.mem_singleton.mp here]
      exact ⟨le_rfl, le_rfl⟩
  obtain ⟨head, since⟩ : ∃ head ∈ first ++ [last], ∀ c ∈ first ++ [last], head.1 ≤ c.1 := by
    cases first with
    | nil => exact ⟨last, .head _, fun c member => by rw [List.mem_singleton.mp member]⟩
    | cons head rest =>
      exact ⟨head, .head _, List.forall_mem_cons.mpr ⟨le_rfl, fun c member => ((List.pairwise_cons.mp pairs).1 c member).1⟩⟩
  obtain ⟨listed, least⟩ := since
  rw [split, List.concat_eq_append] at inside
  have start := ((inside head).mp listed).2
  have stop := ((inside last).mp (List.mem_append_right _ (.head _))).2
  have delay := upTo head listed
  refine ⟨head.1, last.1, delay.1, by omega, List.countP_mono_left fun c member within => ?_⟩
  have there := (inside c).mpr ⟨member, by simpa using within⟩
  exact decide_eq_true ⟨least c there, (upTo c there).1⟩

/-- As long as no password change comes to its check, no login is rounded up and no
    body comes in faster than an earlier one, the requests of a client check at most
    `burst + length * rate` passwords in a window of time. -/
theorem verifications_bounded (W : Config) (cors fuses : Bool) (events : List Event)
    (ordered : (events.map Event.now).Pairwise (· ≤ ·))
    (behind : Along (Limiters.step W cors) (Behind W cors) events (newLimiters (.float64 fuses)))
    (ip : String) (unhurried : Unhurried W cors ip events (newLimiters (.float64 fuses))) (s t : Int) (window : s ≤ t) :
    (verifications W cors ip s t events (newLimiters (.float64 fuses)) : ℚ) ≤
      loginRateLimitBurst + seconds (t - s) * loginRateLimitPerSecond := by
  obtain ⟨u, v, window', length, fewer⟩ := admitted_window (checks_ordered W cors ip _ ordered) unhurried window
  have spent := admitted_le_allowance ip window' ordered (fun e _ => newLimiters_sound fuses e.now) behind (newLimiters_sound fuses u)
  have whole : loginLimit.allowance (seconds u) (seconds v) ((newLimiters (.float64 fuses)).login.bucket ip) ≤
      loginLimit.burst + loginLimit.rate * (seconds v - seconds u) :=
    Limit.allowance_le (seconds_le.mpr window') ((newLimiters_sound fuses u).buckets ip)
  have shorter : loginLimit.rate * seconds (v - u) ≤ loginLimit.rate * seconds (t - s) :=
    mul_le_mul_of_nonneg_left (seconds_le.mpr length) loginLimit.rate_nonneg
  rw [mul_comm (seconds (t - s))]
  rw [← seconds_sub] at whole
  exact (Nat.cast_le.mpr fewer).trans (spent.trans (whole.trans (add_le_add_right shorter _)))

/-- Six logins at once: five of them check a password. -/
def logins : List Event :=
  List.replicate 6 (.request (plainRequest "POST" ["login"] "" (.json (.obj [("username", .str "root"), ("password", .str "guess")])))
    (newService (.float64 false) bootstrapped) 0)

instance (W : Config) (cors : Bool) (l : Limiters) : (e : Event) → Decidable (Bypasses W cors l e)
  | .request _ _ _ => inferInstanceAs (Decidable (_ ∧ _))
  | .prune _ => .isFalse id

instance (W : Config) (cors : Bool) (l : Limiters) (e : Event) : Decidable (Behind W cors l e) :=
  inferInstanceAs (Decidable (_ ∧ _))

theorem verifications_bounded_logins :
    verifications plainConfig false "203.0.113.7" 0 0 logins (newLimiters (.float64 false)) = 5 ∧
    (verifications plainConfig false "203.0.113.7" 0 0 logins (newLimiters (.float64 false)) : ℚ) ≤
      loginRateLimitBurst + seconds (0 - 0) * loginRateLimitPerSecond :=
  ⟨by decide +kernel, verifications_bounded plainConfig false false logins (by decide +kernel) (by decide +kernel) "203.0.113.7"
    (by decide +kernel) 0 0 le_rfl⟩

/-- The same user guesses its password six times at once. -/
def guesses : List Event :=
  List.replicate 6 (.request (plainRequest "PUT" ["users", "me", "password"]
    ("Bearer " ++ Tokens.rootIssue.token Tokens.zeroConfig)
    (.json (.obj [("current_password", .str "guess"), ("new_password", .str "passphrase")])))
    (newService (.float64 false) bootstrapped) 0)

/-- Password changes check passwords that no limiter of logins counts. -/
theorem password_changes_unbounded :
    ¬ ∀ (W : Config) (cors fuses : Bool) (events : List Event), (events.map Event.now).Pairwise (· ≤ ·) →
      ∀ (ip : String) (s t : Int), s ≤ t → (verifications W cors ip s t events (newLimiters (.float64 fuses)) : ℚ) ≤
        loginRateLimitBurst + seconds (t - s) * loginRateLimitPerSecond := by
  intro all
  have bounded := all plainConfig false false guesses (by decide) "203.0.113.7" 0 0 le_rfl
  have six : verifications plainConfig false "203.0.113.7" 0 0 guesses (newLimiters (.float64 false)) = 6 := by decide +kernel
  rw [six] at bounded
  exact absurd bounded (by decide +kernel)

end Microserver.Throttling
