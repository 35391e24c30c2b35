import Microserver.Credentials
import Microserver.Throttling

/-!
The two limiters on the way to /login. The general limiter stands before the
router, so a client that has used it up is turned away from /login as well: the
answers to logins depend on the logins alone as long as it turns none away. That
holds however the machine rounds, as the limiter of /login then sees the same
calls.
-/
namespace Microserver.LoginThrottling
open Microserver.Programs Microserver.TokenBuckets Microserver.RateLimits Microserver.Requests Microserver.Accounts
open Microserver.Credentials Microserver.Router Microserver.Throttling
open Microserver.Users hiding Request

/-- A POST /login. -/
def IsLogin (r : Request) : Prop := (routeOf r).map (·.pattern) = some loginPattern

instance (r : Request) : Decidable (IsLogin r) := by
  unfold IsLogin
  exact inferInstance

/-- The logins of a run, by time and client. -/
def logins (events : List Event) : List (Int × String) :=
  events.filterMap fun
    | .request r _ _ => if IsLogin r then some (r.now, clientIP r.remoteAddr) else none
    | .prune _ => none

/-- For each login of a run, whether the chain rejects it with 429. -/
def rejections (W : Config) (cors : Bool) : List Event → Limiters → List Bool
  | [], _ => []
  | .request r found wait :: rest, l =>
    if IsLogin r then
      decide (((l.chain found).handle W cors r).1.status = 429) :: rejections W cors rest (l.step W cors (.request r found wait))
    else rejections W cors rest (l.step W cors (.request r found wait))
  | .prune now :: rest, l => rejections W cors rest (l.step W cors (.prune now))

/-- For each login, whether a limiter that sees nothing else rejects it. -/
def throttled : List (Int × String) → RateLimiter → List Bool
  | [], _ => []
  | (now, ip) :: rest, limiter => (!(limiter.allow now ip).1) :: throttled rest (limiter.allow now ip).2

/-- The general limiter has a token for a login. -/
def Separate (l : Limiters) : Event → Prop
  | .request r _ _ => IsLogin r → ¬ l.general.Exhausted r.now (clientIP r.remoteAddr)
  | .prune _ => True

instance (l : Limiters) : (e : Event) → Decidable (Separate l e)
  | .request r _ _ => inferInstanceAs (Decidable (IsLogin r → _))
  | .prune _ => .isTrue trivial

/-- The limiter that sees nothing but the logins. -/
def referenceAfter (logins : List (Int × String)) (limiter : RateLimiter) : RateLimiter :=
  logins.foldl (fun limiter login => (limiter.allow login.1 login.2).2) limiter

section Answers
variable {W : Config} {cors : Bool} {c : Chain} {r : Request}

theorem login_clean (login : IsLogin r) : r.clean = true ∧ r.method = "POST" := by
  unfold IsLogin routeOf at login
  by_cases unclean : (!r.clean && decide (r.method ≠ "CONNECT")) = true
  · rw [if_pos unclean] at login
    cases login
  · rw [if_neg unclean] at login
    cases found : findRoute r.method r.path with
    | none => simp [found] at login
    | some route =>
      have pattern : route.pattern = loginPattern := by simpa [found] using login
      have matched := (List.mem_filter.mp (List.mem_of_find?_eq_some found)).2
      rw [pattern] at matched
      have method : r.method = "POST" := by
        simp only [Pattern.matches, loginPattern, Bool.and_eq_true, Bool.or_eq_true, decide_eq_true_eq] at matched
        rcases matched.1 with same | ⟨impossible, -⟩
        · exact (of_decide_eq_true same).symm
        · exact absurd impossible (by decide)
      exact ⟨by simpa [method] using unclean, method⟩

theorem decodeJSON_status {α : Type} {decode : Values.Json → Option α} {body : RequestBody} {reply : Handlers.Reply}
    (rejected : decodeJSON decode body = .error reply) : reply.status ≠ 429 := by
  cases body with
  | tooLarge =>
    cases rejected
    decide
  | malformed =>
    cases rejected
    decide
  | json value =>
    unfold decodeJSON at rejected
    dsimp only at rejected
    split at rejected
    · cases rejected
      decide
    · split at rejected
      · cases rejected
        decide
      · cases rejected

/-- handleLogin itself never answers 429. -/
theorem loginHandler_status (ctx : Context) (s : Service) : (loginHandler W ctx r s).1.status ≠ 429 := by
  have program : userMachine.wp (fun result _ => ∀ written, result = .ok written → Written.code written ≠ 429)
      (handleLogin W.bcrypt W.auth r.now (decodeJSON decodeLoginRequest r.body)) s.users := by
    unfold handleLogin withRequest
    cases decoded : decodeJSON decodeLoginRequest r.body with
    | error reply =>
      rintro written ⟨⟩
      have status := decodeJSON_status decoded
      split <;> exact status
    | ok req =>
      dsimp only
      rw [Prog.bind_eq, Machine.wp_bind, Machine.wp_attempt]
      refine wp_getUser (fun e _ => ?_) fun u found => ?_
      · show userMachine.wp _ (if _ then _ else _) _
        split <;> rintro written ⟨⟩ <;> simp [Written.code]
      · show userMachine.wp _ (if _ then _ else _) _
        split <;> rintro written ⟨⟩ <;> simp [Written.code]
  have ran := (userMachine.wp_iff_run.mp program) r.faults
  unfold loginHandler onUsers
  cases outcome : userMachine.run (handleLogin W.bcrypt W.auth r.now (decodeJSON decodeLoginRequest r.body)) r.faults s.users with
  | mk result users =>
    rw [outcome] at ran
    cases result with
    | error e => simp [errorResponse]
    | ok written =>
      have code := ran written rfl
      cases written <;> exact code

/-- Behind the general limiter, the limiter of /login decides. -/
theorem serve_login (login : IsLogin r) (s : Service) :
    (serve W s r).1.status = 429 ↔ (s.loginLimiter.allow r.now (clientIP r.remoteAddr)).1 = false := by
  have listed (route : Route) (found : routeOf r = some route) := routes_limiter route (routeOf_mem found)
  unfold IsLogin at login
  unfold routeOf at login listed
  unfold serve
  by_cases unclean : (!r.clean && decide (r.method ≠ "CONNECT")) = true
  · rw [if_pos unclean] at login
    cases login
  · rw [if_neg unclean] at login listed ⊢
    cases found : findRoute r.method r.path with
    | none => simp [found] at login
    | some route =>
      rcases listed route found with rfl | ⟨other, -⟩
      · show (rateLimitLogin loginHandler W _ r s).1.status = 429 ↔ _
        unfold rateLimitLogin
        cases allowed : (s.loginLimiter.allow r.now (clientIP r.remoteAddr)).1 with
        | false => simp [allowed, errorResponse]
        | true =>
          simp only [allowed, ↓reduceIte, Bool.true_eq_false, iff_false]
          exact loginHandler_status _ _
      · exact absurd (by simpa [found] using login) other

/-- A login on its way through the chain. -/
theorem handle_login (W : Config) (cors : Bool) (c : Chain) (login : IsLogin r) : ((c.handle W cors r).1.status = 429 ↔
      (c.generalLimiter.allow r.now (clientIP r.remoteAddr)).1 = false ∨
        (c.service.loginLimiter.allow r.now (clientIP r.remoteAddr)).1 = false) ∧
    (AsksLogin cors c r ↔ (c.generalLimiter.allow r.now (clientIP r.remoteAddr)).1 = true) := by
  obtain ⟨clean, method⟩ := login_clean login
  have admitted : c.admits cors r = (c.generalLimiter.allow r.now (clientIP r.remoteAddr)).1 := by
    simp [Chain.admits, clean, method]
  constructor
  · unfold Chain.handle
    rw [if_neg (by simp [method]), if_neg (by simp [clean]), if_neg (by simp [method])]
    cases allowed : (c.generalLimiter.allow r.now (clientIP r.remoteAddr)).1 with
    | false => simp [allowed, errorResponse]
    | true => simpa [allowed] using serve_login login c.service
  · unfold AsksLogin
    rw [admitted]
    exact and_iff_left login

/-- The general limiter keeps its burst. -/
theorem handle_burst : (c.handle W cors r).2.generalLimiter.burst = c.generalLimiter.burst := by
  have kept : (c.generalLimiter.allow r.now (clientIP r.remoteAddr)).2.burst = c.generalLimiter.burst := by
    obtain ⟨b, put⟩ := allow_put c.generalLimiter r.now (clientIP r.remoteAddr)
    rw [put, put_burst]
  unfold Chain.handle
  split
  · rfl
  · split
    · rfl
    · split
      · rfl
      · dsimp only
        split <;> exact kept

end Answers

/-! ### Runs -/

section Step
variable {W : Config} {cors : Bool} {l : Limiters} {r : Request} {found : Service} {wait : Nat}

/-- A login is rejected when the general limiter has no token for it or the limiter
    of /login has none. -/
theorem login_rejected (login : IsLogin r) (burst : 1 ≤ l.general.burst) : ((l.chain found).handle W cors r).1.status = 429 ↔
    l.general.Exhausted r.now (clientIP r.remoteAddr) ∨ (l.login.allow r.now (clientIP r.remoteAddr)).1 = false := by
  obtain ⟨rejected, -⟩ := handle_login W cors (l.chain found) login
  exact rejected.trans (or_congr_left (allow_refused burst))

/-- A separate login calls the limiter of /login. -/
theorem login_step (login : IsLogin r) (burst : 1 ≤ l.general.burst) (separate : Separate l (.request r found wait)) :
    (l.step W cors (.request r found wait)).login = (l.login.allow r.now (clientIP r.remoteAddr)).2 := by
  obtain ⟨-, asks⟩ := handle_login W cors (l.chain found) login
  refine handle_asks (W := W) (asks.mpr (Bool.eq_true_of_not_eq_false fun refused => ?_))
  exact separate login ((allow_refused burst).mp refused)

/-- Other requests leave the limiter of /login alone. -/
theorem other_step (other : ¬ IsLogin r) : (l.step W cors (.request r found wait)).login = l.login :=
  handle_keeps (W := W) fun asks => other asks.2

theorem step_burst (W : Config) (cors : Bool) (l : Limiters) (e : Event) : (l.step W cors e).general.burst = l.general.burst := by
  cases e with
  | request r found wait => exact handle_burst
  | prune now => rfl

theorem logins_cons (login : IsLogin r) (rest : List Event) :
    logins (.request r found wait :: rest) = (r.now, clientIP r.remoteAddr) :: logins rest := by
  simp [logins, login]

theorem logins_other (other : ¬ IsLogin r) (rest : List Event) : logins (.request r found wait :: rest) = logins rest := by
  simp [logins, other]

end Step

section Runs
variable {W : Config} {cors : Bool} {events : List Event} {l : Limiters}

/-- In a run whose logins are separate, the limiter of /login sees them and nothing
    else. -/
theorem run_separate (burst : 1 ≤ l.general.burst) (separate : Along (Limiters.step W cors) Separate events l) :
    rejections W cors events l = throttled (logins events) l.login ∧
      (limitersAfter W cors events l).login = referenceAfter (logins events) l.login ∧
      1 ≤ (limitersAfter W cors events l).general.burst := by
  induction events generalizing l with
  | nil => exact ⟨rfl, rfl, burst⟩
  | cons e rest ih =>
    have next := ih ((step_burst W cors l e).symm ▸ burst) separate.2
    cases e with
    | prune now => exact next
    | request r found wait =>
      by_cases login : IsLogin r
      · have answer : decide (((l.chain found).handle W cors r).1.status = 429) = !(l.login.allow r.now (clientIP r.remoteAddr)).1 := by
          have alone : ((l.chain found).handle W cors r).1.status = 429 ↔ (l.login.allow r.now (clientIP r.remoteAddr)).1 = false :=
            (login_rejected login burst).trans (or_iff_right (separate.1 login))
          rw [Bool.eq_iff_iff, decide_eq_true_eq, alone, Bool.not_eq_true']
        rw [login_step login burst separate.1] at next
        rw [logins_cons login, rejections, if_pos login, throttled, answer, next.1]
        exact ⟨rfl, next.2⟩
      · rw [other_step login] at next
        rw [logins_other login, rejections, if_neg login]
        exact next

end Runs

/-- As long as the general limiter has a token for every login, the logins that a
    run rejects are those that the limiter of /login rejects by itself, so runs with
    the same logins reject the same ones; and the first login for which it has none
    is rejected as it would be by itself only if the limiter of /login refuses it too. -/
theorem logins_separate (W : Config) (cors fuses : Bool) :
    (∀ events, Along (Limiters.step W cors) Separate events (newLimiters (.float64 fuses)) →
      rejections W cors events (newLimiters (.float64 fuses)) = throttled (logins events) (newLimiters (.float64 fuses)).login) ∧
    (∀ events events', logins events = logins events' → Along (Limiters.step W cors) Separate events (newLimiters (.float64 fuses)) →
      Along (Limiters.step W cors) Separate events' (newLimiters (.float64 fuses)) →
      rejections W cors events (newLimiters (.float64 fuses)) = rejections W cors events' (newLimiters (.float64 fuses))) ∧
    ∀ events r found wait, Along (Limiters.step W cors) Separate events (newLimiters (.float64 fuses)) → IsLogin r →
      (rejections W cors [.request r found wait] (limitersAfter W cors events (newLimiters (.float64 fuses))) =
          throttled (logins [.request r found wait]) (referenceAfter (logins events) (newLimiters (.float64 fuses)).login) ↔
        ((limitersAfter W cors events (newLimiters (.float64 fuses))).general.Exhausted r.now (clientIP r.remoteAddr) →
          ((limitersAfter W cors events (newLimiters (.float64 fuses))).login.allow r.now (clientIP r.remoteAddr)).1 = false)) := by
  have burst : 1 ≤ (newLimiters (.float64 fuses)).general.burst :=
    (by decide +kernel : (1 : ℚ) ≤ Rounding.nearest 52 generalRateLimitBurst)
  refine ⟨fun events separate => (run_separate burst separate).1, fun events events' same separate separate' => ?_,
    fun events r found wait separate login => ?_⟩
  · rw [(run_separate burst separate).1, (run_separate burst separate').1, same]
  · obtain ⟨-, reference, after⟩ := run_separate burst separate
    rw [← reference, logins_cons login, rejections, if_pos login]
    show [decide _] = [!_] ↔ _
    rw [List.singleton_inj, Bool.eq_iff_iff, decide_eq_true_eq, Bool.not_eq_true', login_rejected login after]
    exact or_iff_right_iff_imp

/-- One login from an address. -/
def oneLogin : Event :=
  .request (plainRequest "POST" ["login"] "" (.json (.obj [("username", .str "root"), ("password", .str "guess")])))
    (newService (.float64 false) bootstrapped) 0

/-- Requests for /health from the same address, all at once. -/
def healthChecks (n : Nat) : List Event :=
  List.replicate n (.request (plainRequest "GET" ["health"] "" .malformed) (newService (.float64 false) bootstrapped) 0)

theorem logins_separate_checks :
    rejections plainConfig false (healthChecks 3 ++ [oneLogin]) (newLimiters (.float64 false)) =
      throttled (logins (healthChecks 3 ++ [oneLogin])) (newLimiters (.float64 false)).login ∧
    rejections plainConfig false (healthChecks 3 ++ [oneLogin]) (newLimiters (.float64 false)) =
      rejections plainConfig false [oneLogin] (newLimiters (.float64 false)) :=
  have ⟨alone, same, _⟩ := logins_separate plainConfig false false
  ⟨alone (healthChecks 3 ++ [oneLogin]) (by decide +kernel),
    same (healthChecks 3 ++ [oneLogin]) [oneLogin] (by decide +kernel) (by decide +kernel) (by decide +kernel)⟩

/-- Forty requests for /health use up the general limiter, and the first login is
    rejected. -/
theorem logins_not_separate :
    ¬ ∀ (W : Config) (cors fuses : Bool) (events events' : List Event),
      (events.map Event.now).Pairwise (· ≤ ·) → (events'.map Event.now).Pairwise (· ≤ ·) → logins events = logins events' →
      rejections W cors events (newLimiters (.float64 fuses)) = rejections W cors events' (newLimiters (.float64 fuses)) := by
  intro all
  have same := all plainConfig false false (healthChecks 40 ++ [oneLogin]) [oneLogin] (by decide) (by decide)
    (by decide)
  exact absurd same (by decide +kernel)

end Microserver.LoginThrottling
