import Microserver.Throttling

/-!
The header of a rejected request. rateLimitMiddleware announces one second,
whichever limiter it stands for. The general limiter refills twenty tokens in
that time; the limiter of /login refills a twelfth of one, so there the second is
enough for a client that has eleven twelfths of a token left, up to the rounding
of float64, and for no other.
-/
namespace Microserver.RetryAfter
open Microserver.Rounding Microserver.RateLimits Microserver.Router Microserver.Throttling

/-- What rateLimitMiddleware writes when it does not call next. -/
structure Rejection where
  header : List (String × String)
  response : Response

/-- rateLimitMiddleware: a rejection, or none when next is called. -/
def rateLimitMiddleware (rl : RateLimiter) (now : Int) (remoteAddr : String) : Option Rejection × RateLimiter :=
  let (allowed, limiter) := rl.allow now (clientIP remoteAddr)
  if !allowed then (some ⟨[("Retry-After", "1")], errorResponse 429 "rate limit exceeded"⟩, limiter) else (none, limiter)

/-- The seconds that a rejection announces. -/
def Rejection.announced (rejection : Rejection) : Option Nat :=
  (rejection.header.find? fun h => h.1 = "Retry-After").bind fun h => Tokens.parseDigits h.2.toList

inductive Installed
  | general
  | login
  deriving DecidableEq

def Installed.limiter (fuses : Bool) : Installed → RateLimiter
  | .general => newRateLimiter (.float64 fuses) generalRateLimitPerSecond generalRateLimitBurst
  | .login => newRateLimiter (.float64 fuses) loginRateLimitPerSecond loginRateLimitBurst

/-- A request comes to the middleware, or the prune loop ticks. -/
inductive Arrival
  | request (now : Int) (remoteAddr : String)
  | tick (now : Int)

def Arrival.now : Arrival → Int
  | .request now _ => now
  | .tick now => now

/-- Only the general limiter has a prune loop. -/
def Installed.step (i : Installed) (rl : RateLimiter) : Arrival → RateLimiter
  | .request now remoteAddr => (rateLimitMiddleware rl now remoteAddr).2
  | .tick now =>
    match i with
    | .general => rl.pruneStale now (rateLimiterPruneInterval * 10)
    | .login => rl

def Installed.run (i : Installed) (arrivals : List Arrival) (rl : RateLimiter) : RateLimiter :=
  arrivals.foldl i.step rl

/-- The arrival is no request of the client. -/
def Arrival.Foreign (ip : String) : Arrival → Prop
  | .request _ remoteAddr => clientIP remoteAddr ≠ ip
  | .tick _ => True

/-- A client that is rejected and waits as long as it is told to is not rejected
    again. -/
def Honest (i : Installed) (rl : RateLimiter) (now : Int) (remoteAddr : String) : Prop :=
  ∀ rejection seconds, (rateLimitMiddleware rl now remoteAddr).1 = some rejection → rejection.announced = some seconds →
    ∀ meanwhile later remoteAddr', clientIP remoteAddr' = clientIP remoteAddr →
      (∀ a ∈ meanwhile, a.Foreign (clientIP remoteAddr)) → (now :: meanwhile.map Arrival.now ++ [later]).Pairwise (· ≤ ·) →
      now + seconds * 1000000000 ≤ later →
      (rateLimitMiddleware (i.run meanwhile (i.step rl (.request now remoteAddr))) later remoteAddr').1 = none

/-! ### The middleware in the chain -/

/-- The route of /login is handleLogin behind the middleware. -/
theorem rateLimitLogin_middleware (next : Handler) (W : Config) (ctx : Context) (r : Router.Request) (s : Service) :
    rateLimitLogin next W ctx r s =
      match rateLimitMiddleware s.loginLimiter r.now r.remoteAddr with
      | (some rejection, limiter) => (rejection.response, { s with loginLimiter := limiter })
      | (none, limiter) => next W ctx r { s with loginLimiter := limiter } := by
  unfold rateLimitLogin rateLimitMiddleware
  cases s.loginLimiter.allow r.now (clientIP r.remoteAddr) with
  | mk allowed limiter => cases allowed <;> rfl

/-- Before the router the middleware stands with the general limiter. -/
theorem handle_middleware (W : Config) (cors : Bool) (c : Chain) (r : Router.Request)
    (reaches : ¬ (cors && r.method = "OPTIONS") ∧ ¬ (!r.clean && r.method ≠ "CONNECT") ∧
      ¬ ((r.method = "GET" || r.method = "HEAD") && r.path = ["metrics"])) :
    c.handle W cors r =
      match rateLimitMiddleware c.generalLimiter r.now r.remoteAddr with
      | (some rejection, limiter) => (rejection.response, { c with generalLimiter := limiter })
      | (none, limiter) => ((serve W c.service r).1, ⟨(serve W c.service r).2, limiter⟩) := by
  obtain ⟨browser, unclean, metrics⟩ := reaches
  unfold Chain.handle rateLimitMiddleware
  rw [if_neg (by simpa using browser), if_neg (by simpa using unclean), if_neg (by simpa using metrics)]
  cases c.generalLimiter.allow r.now (clientIP r.remoteAddr) with
  | mk allowed limiter => cases allowed <;> rfl

section Middleware
variable {rl : RateLimiter} {now : Int} {remoteAddr : String}

theorem rateLimitMiddleware_limiter : (rateLimitMiddleware rl now remoteAddr).2 = (rl.allow now (clientIP remoteAddr)).2 := by
  unfold rateLimitMiddleware
  cases rl.allow now (clientIP remoteAddr) with
  | mk allowed limiter => cases allowed <;> rfl

theorem rateLimitMiddleware_next :
    (rateLimitMiddleware rl now remoteAddr).1 = none ↔ (rl.allow now (clientIP remoteAddr)).1 = true := by
  unfold rateLimitMiddleware
  cases rl.allow now (clientIP remoteAddr) with
  | mk allowed limiter => cases allowed <;> simp

/-- Every rejection announces one second. -/
theorem rateLimitMiddleware_announced {rejection : Rejection}
    (rejected : (rateLimitMiddleware rl now remoteAddr).1 = some rejection) :
    rejection.announced = some 1 ∧ (rl.allow now (clientIP remoteAddr)).1 = false := by
  unfold rateLimitMiddleware at rejected
  cases asked : rl.allow now (clientIP remoteAddr) with
  | mk allowed limiter =>
    rw [asked] at rejected
    cases allowed with
    | true => cases rejected
    | false =>
      cases rejected
      exact ⟨by decide, rfl⟩

end Middleware

/-! ### Runs -/

theorem rate_pos (i : Installed) (fuses : Bool) : 0 ≤ (i.limiter fuses).rate := by
  cases i with
  | general => exact (by decide +kernel : 0 ≤ nearest 52 generalRateLimitPerSecond)
  | login => exact (by decide +kernel : 0 ≤ nearest 52 loginRateLimitPerSecond)

theorem rate_representable (i : Installed) (fuses : Bool) : nearest 52 (i.limiter fuses).rate = (i.limiter fuses).rate := by
  cases i with
  | general => exact nearest_nearest (by decide)
  | login => exact nearest_nearest (by decide +kernel)

theorem one_le_burst (i : Installed) (fuses : Bool) : 1 ≤ (i.limiter fuses).burst := by
  cases i with
  | general => exact (by decide +kernel : 1 ≤ nearest 52 generalRateLimitBurst)
  | login => exact (by decide +kernel : 1 ≤ nearest 52 loginRateLimitBurst)

/-- An installed limiter after some calls: its buckets were counted before now and
    none is negative. -/
structure Calm (i : Installed) (fuses : Bool) (now : Int) (rl : RateLimiter) : Prop where
  machine : rl.machine = .float64 fuses
  rate : rl.rate = (i.limiter fuses).rate
  burst : rl.burst = (i.limiter fuses).burst
  buckets : ∀ key b, rl.buckets key = some b → 0 ≤ b.tokens ∧ b.lastCheck ≤ now

section Runs
variable {i : Installed} {fuses : Bool} {rl : RateLimiter} {now : Int} {ip : String} {b : TokenBucket}

theorem limiter_calm (now : Int) : Calm i fuses now (i.limiter fuses) := by
  cases i <;> exact ⟨rfl, rfl, rfl, fun _ _ there => by cases there⟩

theorem Calm.later (calm : Calm i fuses now rl) {now' : Int} (after : now ≤ now') : Calm i fuses now' rl :=
  ⟨calm.machine, calm.rate, calm.burst, fun key b there => (calm.buckets key b there).imp_right (·.trans after)⟩

theorem Calm.monotone (calm : Calm i fuses now rl) : rl.machine.Monotone := calm.machine ▸ float64_monotone fuses

theorem Calm.rate_nonneg (calm : Calm i fuses now rl) : 0 ≤ rl.rate := calm.rate ▸ rate_pos i fuses

theorem Calm.burst_pos (calm : Calm i fuses now rl) : 1 ≤ rl.burst := calm.burst ▸ one_le_burst i fuses

theorem Calm.refilled_nonneg (calm : Calm i fuses now rl) {key : String} (there : rl.buckets key = some b) : 0 ≤ rl.refilled b now :=
  have ⟨nonneg, past⟩ := calm.buckets key b there
  RateLimits.refilled_nonneg calm.monotone calm.rate_nonneg nonneg past

theorem Calm.put (calm : Calm i fuses now rl) (key : String) (nonneg : 0 ≤ b.tokens) (past : b.lastCheck ≤ now) :
    Calm i fuses now (rl.put key b) := by
  refine ⟨calm.machine, calm.rate, calm.burst, fun other b' there => ?_⟩
  simp only [RateLimiter.put, Function.update_apply] at there
  split at there
  · cases there
    exact ⟨nonneg, past⟩
  · exact calm.buckets other b' there

theorem Calm.allow (calm : Calm i fuses now rl) (key : String) : Calm i fuses now (rl.allow now key).2 := by
  have whole := calm.burst_pos
  unfold RateLimiter.allow
  cases there : rl.buckets key with
  | none => exact calm.put key (round_nonneg calm.monotone (sub_nonneg.mpr whole)) le_rfl
  | some b =>
    have tokens : 0 ≤ if rl.refilled b now > rl.burst then rl.burst else rl.refilled b now := by
      split
      · exact zero_le_one.trans whole
      · exact calm.refilled_nonneg there
    dsimp only
    by_cases empty : (if rl.refilled b now > rl.burst then rl.burst else rl.refilled b now) < 1
    · rw [if_pos empty]
      exact calm.put key tokens le_rfl
    · rw [if_neg empty]
      exact calm.put key (round_nonneg calm.monotone (sub_nonneg.mpr (not_lt.mp empty))) le_rfl

/-- A bucket, or none: the client has made no request since it was left so. -/
def Waits (ip : String) (b : TokenBucket) (rl : RateLimiter) : Prop := ∀ b' ∈ rl.buckets ip, b' = b

theorem pruneStale_subset {key : String} {maxAge : Int} (there : (rl.pruneStale now maxAge).buckets key = some b) :
    rl.buckets key = some b := (Option.filter_eq_some_iff.mp there).1

/-- An arrival keeps a limiter calm; one that is no request of a client leaves the
    bucket of the client as it is, or throws it away. -/
theorem step_calm (ip : String) (b : TokenBucket) (a : Arrival) (calm : Calm i fuses a.now rl) :
    Calm i fuses a.now (i.step rl a) ∧ (a.Foreign ip → Waits ip b rl → Waits ip b (i.step rl a)) := by
  cases a with
  | request now remoteAddr =>
    show Calm i fuses now (rateLimitMiddleware rl now remoteAddr).2 ∧
      (_ → _ → Waits ip b (rateLimitMiddleware rl now remoteAddr).2)
    rw [rateLimitMiddleware_limiter]
    refine ⟨calm.allow _, fun foreign waits b' there => waits b' ?_⟩
    obtain ⟨_, put⟩ := allow_put rl now (clientIP remoteAddr)
    rw [put] at there
    simpa [RateLimiter.put, Function.update_apply, Ne.symm foreign] using there
  | tick now =>
    cases i with
    | general =>
      exact ⟨⟨calm.machine, calm.rate, calm.burst, fun key b' there => calm.buckets key b' (pruneStale_subset there)⟩,
        fun _ waits b' there => waits b' (pruneStale_subset there)⟩
    | login => exact ⟨calm, fun _ waits => waits⟩

theorem run_calm (ip : String) (b : TokenBucket) {start : Int} {arrivals : List Arrival} (calm : Calm i fuses start rl)
    (ordered : (arrivals.map Arrival.now).Pairwise (· ≤ ·)) (since : ∀ a ∈ arrivals, start ≤ a.now)
    (past : ∀ a ∈ arrivals, a.now ≤ now) (begun : start ≤ now) : Calm i fuses now (i.run arrivals rl) ∧
      ((∀ a ∈ arrivals, a.Foreign ip) → Waits ip b rl → Waits ip b (i.run arrivals rl)) := by
  induction arrivals generalizing rl start with
  | nil => exact ⟨calm.later begun, fun _ waits => waits⟩
  | cons a rest ih =>
    rw [List.map_cons, List.pairwise_cons] at ordered
    have later : ∀ a' ∈ rest, a.now ≤ a'.now := fun a' member => ordered.1 _ (List.mem_map_of_mem member)
    obtain ⟨stepped, same⟩ := step_calm ip b a (calm.later (since a (.head _)))
    obtain ⟨reached, onward⟩ := ih stepped ordered.2 later (fun a' member => past a' (.tail _ member)) (past a (.head _))
    exact ⟨reached, fun foreign waits =>
      onward (fun a' member => foreign a' (.tail _ member)) (same (foreign a (.head _)) waits)⟩

/-- What a second adds to a bucket that was counted now. -/
theorem second_refilled (calm : Calm i fuses now rl) (tokens : ℚ) :
    rl.refilled ⟨tokens, now⟩ (now + 1000000000) = nearest 52 (tokens + rl.rate) := by
  have one : rl.machine.seconds 1000000000 = 1 := by
    rw [calm.machine]
    exact (by decide +kernel : nearest 52 (Int.tdiv 1000000000 1000000000 + nearest 52 (Int.tmod 1000000000 1000000000 / 1000000000)) = 1)
  have whole : rl.machine.product rl.rate = rl.rate := by
    rw [calm.machine, calm.rate]
    cases fuses with
    | false => exact rate_representable i false
    | true => rfl
  rw [RateLimiter.refilled, add_sub_cancel_left, one, one_mul, whole, calm.machine]
  rfl

/-- A rejected client that stays away for a second or more is admitted when its
    bucket has a token after one second. -/
theorem admitted_later {remoteAddr remoteAddr' : String} {meanwhile : List Arrival} {later : Int} (calm : Calm i fuses now rl)
    (found : rl.buckets (clientIP remoteAddr) = some b)
    (left : (rl.allow now (clientIP remoteAddr)).2 = rl.put (clientIP remoteAddr) ⟨rl.refilled b now, now⟩)
    (enough : 1 ≤ nearest 52 (rl.refilled b now + rl.rate)) (same : clientIP remoteAddr' = clientIP remoteAddr)
    (foreign : ∀ a ∈ meanwhile, a.Foreign (clientIP remoteAddr))
    (ordered : (now :: meanwhile.map Arrival.now ++ [later]).Pairwise (· ≤ ·)) (wait : now + 1000000000 ≤ later) :
    (rateLimitMiddleware (i.run meanwhile (i.step rl (.request now remoteAddr))) later remoteAddr').1 = none := by
  obtain ⟨sorted, -, last⟩ := List.pairwise_append.mp ordered
  rw [List.pairwise_cons] at sorted
  have stepped : i.step rl (.request now remoteAddr) = rl.put (clientIP remoteAddr) ⟨rl.refilled b now, now⟩ :=
    rateLimitMiddleware_limiter.trans left
  have nonneg := calm.refilled_nonneg found
  have start := calm.put (b := ⟨rl.refilled b now, now⟩) (clientIP remoteAddr) nonneg le_rfl
  obtain ⟨reached, waiting⟩ := run_calm (clientIP remoteAddr) ⟨rl.refilled b now, now⟩ start sorted.2
    (fun a member => sorted.1 _ (List.mem_map_of_mem member))
    (fun a member => last _ (.tail _ (List.mem_map_of_mem member)) later (.head _)) (by omega)
  have waits := waiting foreign fun b' there => by simpa [RateLimiter.put, eq_comm] using there
  rw [stepped, rateLimitMiddleware_next, same]
  refine Bool.eq_true_of_not_eq_false fun refused => ?_
  obtain ⟨b', there, low⟩ := (allow_refused reached.burst_pos).mp refused
  rw [waits b' there] at low
  have kept : (i.run meanwhile (rl.put (clientIP remoteAddr) ⟨rl.refilled b now, now⟩)).refilled ⟨rl.refilled b now, now⟩ later =
      rl.refilled ⟨rl.refilled b now, now⟩ later :=
    refilled_congr (reached.machine.trans calm.machine.symm) (reached.rate.trans calm.rate.symm) _ _
  have grown : rl.refilled ⟨rl.refilled b now, now⟩ (now + 1000000000) ≤ rl.refilled ⟨rl.refilled b now, now⟩ later :=
    refilled_mono calm.monotone calm.rate_nonneg nonneg (Int.le_add_of_nonneg_right (by decide)) wait
  rw [kept] at low
  rw [second_refilled calm] at grown
  exact absurd (enough.trans grown) (not_le.mpr low)

end Runs

/-- Honesty is what a second refills. -/
theorem honest_iff {i : Installed} {fuses : Bool} {rl : RateLimiter} {now : Int} {remoteAddr : String} (calm : Calm i fuses now rl)
    (rejected : (rateLimitMiddleware rl now remoteAddr).1.isSome = true) : Honest i rl now remoteAddr ↔
      ∀ b ∈ rl.buckets (clientIP remoteAddr), 1 - 1 / 2 ^ 54 ≤ rl.refilled b now + rl.rate := by
  obtain ⟨rejection, written⟩ := Option.isSome_iff_exists.mp rejected
  obtain ⟨announced, refused⟩ := rateLimitMiddleware_announced written
  obtain ⟨b, found, -, left⟩ := allow_leaves calm.burst_pos refused
  have nonneg := add_nonneg (calm.refilled_nonneg found) calm.rate_nonneg
  have only : (∀ b' ∈ rl.buckets (clientIP remoteAddr), 1 - 1 / 2 ^ 54 ≤ rl.refilled b' now + rl.rate) ↔
      1 ≤ nearest 52 (rl.refilled b now + rl.rate) := by
    rw [one_le_nearest nonneg, Option.mem_def.mp found]
    simp
  rw [only]
  constructor
  · intro honest
    have quiet : (now :: [].map Arrival.now ++ [now + 1000000000]).Pairwise (· ≤ ·) := by simp
    have next := honest rejection 1 written announced [] (now + 1000000000) remoteAddr rfl (by simp) quiet (by simp)
    have stepped : i.step rl (.request now remoteAddr) = rl.put (clientIP remoteAddr) ⟨rl.refilled b now, now⟩ :=
      rateLimitMiddleware_limiter.trans left
    rw [Installed.run, List.foldl_nil, stepped, rateLimitMiddleware_next] at next
    by_contra short
    have exhausted : (rl.put (clientIP remoteAddr) ⟨rl.refilled b now, now⟩).Exhausted (now + 1000000000) (clientIP remoteAddr) := by
      refine ⟨⟨rl.refilled b now, now⟩, by simp [RateLimiter.put], ?_⟩
      show rl.refilled ⟨rl.refilled b now, now⟩ (now + 1000000000) < 1
      rw [second_refilled calm]
      exact not_le.mp short
    have burst : 1 ≤ (rl.put (clientIP remoteAddr) ⟨rl.refilled b now, now⟩).burst := calm.burst_pos
    rw [(allow_refused burst).mpr exhausted] at next
    cases next
  · intro enough rejection' announced' written' said meanwhile later remoteAddr' same foreign ordered wait
    rw [written, Option.some.injEq] at written'
    rw [← written', announced, Option.some.injEq] at said
    subst said
    exact admitted_later calm found left enough same foreign ordered (by simpa using wait)

/-- After every history of requests and ticks, a rejected client of the general
    limiter may come back after the announced second; a rejected client of the
    limiter of /login may when what its bucket holds and a second of refilling round
    to a token, and only then. -/
theorem retryAfter_honest_iff (i : Installed) (fuses : Bool) (history : List Arrival) (now : Int) (remoteAddr : String)
    (ordered : (history.map Arrival.now ++ [now]).Pairwise (· ≤ ·))
    (rejected : (rateLimitMiddleware (i.run history (i.limiter fuses)) now remoteAddr).1.isSome = true) :
    Honest i (i.run history (i.limiter fuses)) now remoteAddr ↔
      i = .general ∨ ∀ b ∈ (i.run history (i.limiter fuses)).buckets (clientIP remoteAddr),
        1 - 1 / 2 ^ 54 - nearest 52 loginRateLimitPerSecond ≤ (i.run history (i.limiter fuses)).refilled b now := by
  have pairs := List.pairwise_append.mp ordered
  have calm : Calm i fuses now (i.run history (i.limiter fuses)) := by
    cases history with
    | nil => exact limiter_calm now
    | cons a rest =>
      have past : ∀ a' ∈ a :: rest, a'.now ≤ now := fun a' member => pairs.2.2 _ (List.mem_map_of_mem member) now (.head _)
      have first : ∀ a' ∈ a :: rest, a.now ≤ a'.now :=
        List.forall_mem_cons.mpr ⟨le_rfl, fun a' member => (List.pairwise_cons.mp pairs.1).1 _ (List.mem_map_of_mem member)⟩
      exact (run_calm "" ⟨0, 0⟩ (limiter_calm a.now) pairs.1 first past (past a (.head _))).1
  rw [honest_iff calm rejected, calm.rate]
  cases i with
  | general =>
    refine ⟨fun _ => .inl rfl, fun _ b found => ?_⟩
    have quick : 1 - 1 / 2 ^ 54 ≤ (Installed.limiter fuses .general).rate :=
      (by decide +kernel : 1 - 1 / 2 ^ 54 ≤ nearest 52 generalRateLimitPerSecond)
    exact quick.trans (le_add_of_nonneg_left (calm.refilled_nonneg found))
  | login =>
    refine Iff.trans ?_ (or_iff_right (by decide)).symm
    exact forall₂_congr fun b _ => sub_le_iff_le_add.symm

/-- Requests of one client, all at once. -/
def requests (n : Nat) : List Arrival := List.replicate n (.request 0 "192.0.2.7:1234")

/-- Eleven seconds after a burst of logins the sixth is rejected, and the second
    that it is told to wait is enough. -/
theorem retryAfter_honest_login :
    Honest .login (Installed.login.run (requests 5) (Installed.login.limiter false)) 11000000000 "192.0.2.7:1234" :=
  (retryAfter_honest_iff .login false (requests 5) 11000000000 "192.0.2.7:1234" (by decide +kernel) (by decide +kernel)).mpr
    (.inr (by decide +kernel))

/-- Right after a burst of logins it is not. -/
theorem retryAfter_not_honest : ¬ ∀ (i : Installed) (fuses : Bool) (history : List Arrival) (now : Int) (remoteAddr : String),
    (history.map Arrival.now ++ [now]).Pairwise (· ≤ ·) →
    (rateLimitMiddleware (i.run history (i.limiter fuses)) now remoteAddr).1.isSome = true →
    Honest i (i.run history (i.limiter fuses)) now remoteAddr := by
  intro all
  have rejected :
      (rateLimitMiddleware (Installed.login.run (requests 5) (Installed.login.limiter false)) 0 "192.0.2.7:1234").1.isSome = true := by
    decide +kernel
  have honest := all .login false (requests 5) 0 "192.0.2.7:1234" (by decide) rejected
  obtain ⟨rejection, written⟩ := Option.isSome_iff_exists.mp rejected
  have next := honest rejection 1 written (rateLimitMiddleware_announced written).1 [] 1000000000 "192.0.2.7:1234" rfl
    (by simp) (by decide) (by decide)
  exact absurd (rateLimitMiddleware_next.mp next) (by decide +kernel)

end Microserver.RetryAfter
