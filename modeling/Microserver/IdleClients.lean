import Microserver.LastSeen
import Microserver.RetryAfter

/-!
The clients that the limiters remember. A limiter is a cache of the clients that
have called it: allow touches a client, pruneStale sweeps. Only the general
limiter has a prune loop, so it forgets a client after eleven intervals; the
limiter of /login, which newRouter makes for itself, remembers every client.
-/
namespace Microserver.IdleClients
open Microserver.RateLimits Microserver.Router Microserver.Throttling Microserver.RetryAfter Microserver.LastSeen
open Microserver.Users hiding Request

/-! ### Limiters as caches -/

/-- When each client was last seen. -/
def lastSeen (rl : RateLimiter) : Cache String Int := fun key => (rl.buckets key).map (·.lastCheck)

theorem allow_lastSeen (rl : RateLimiter) (now : Int) (key : String) (age : Int) :
    lastSeen (rl.allow now key).2 = LastSeen.step age (lastSeen rl) (.touch now key) := by
  obtain ⟨b, checked, same⟩ := allow_put_now rl now key
  ext1 other
  rw [same]
  by_cases equal : other = key
  · simp [lastSeen, RateLimiter.put, LastSeen.step, equal, checked]
  · simp [lastSeen, RateLimiter.put, LastSeen.step, equal]

theorem pruneStale_lastSeen (rl : RateLimiter) (now maxAge : Int) :
    lastSeen (rl.pruneStale now maxAge) = LastSeen.step maxAge (lastSeen rl) (.sweep now) := by
  ext1 key
  cases found : rl.buckets key with
  | none => simp [lastSeen, RateLimiter.pruneStale, LastSeen.step, found]
  | some b =>
    simp only [lastSeen, RateLimiter.pruneStale, LastSeen.step, found, Option.map_some]
    by_cases stale : b.lastCheck < now - maxAge
    · rw [Option.filter_some_neg (by simp [stale]), Option.filter_some_neg (by simp [stale]), Option.map_none]
    · rw [Option.filter_some_pos (by simp [stale]), Option.filter_some_pos (by simp [stale]), Option.map_some]

/-! ### What the server does to its limiters -/

/-- The request comes to the general limiter. -/
def AsksGeneral (cors : Bool) (r : Request) : Prop :=
  ¬ (cors && r.method = "OPTIONS") = true ∧ ¬ (!r.clean && r.method ≠ "CONNECT") = true ∧
    ¬ ((r.method = "GET" || r.method = "HEAD") && r.path = ["metrics"]) = true

instance (cors : Bool) (r : Request) : Decidable (AsksGeneral cors r) := inferInstanceAs (Decidable (_ ∧ _))

/-- The request comes to a limiter. -/
def Asks (i : Installed) (cors : Bool) (c : Chain) (r : Request) : Prop :=
  match i with
  | .general => AsksGeneral cors r
  | .login => AsksLogin cors c r

instance (i : Installed) (cors : Bool) (c : Chain) (r : Request) : Decidable (Asks i cors c r) :=
  match i with
  | .general => inferInstanceAs (Decidable (AsksGeneral cors r))
  | .login => inferInstanceAs (Decidable (_ ∧ _))

def installed (l : Limiters) : Installed → RateLimiter
  | .general => l.general
  | .login => l.login

/-- What an event is for a limiter. -/
def access (i : Installed) (cors : Bool) (l : Limiters) : Event → Option (Access String Int)
  | .request r found _ => if Asks i cors (l.chain found) r then some (.touch r.now (clientIP r.remoteAddr)) else none
  | .prune now =>
    match i with
    | .general => some (.sweep now)
    | .login => none

/-- What a run of the server is for a limiter. -/
def accesses (i : Installed) (W : Config) (cors : Bool) : List Event → Limiters → List (Access String Int)
  | [], _ => []
  | e :: rest, l => (access i cors l e).toList ++ accesses i W cors rest (l.step W cors e)

variable {machine : Arithmetic} {W : Config} {cors : Bool} {l : Limiters} {i : Installed} {events : List Event}

theorem handle_general (c : Chain) (r : Request) : (c.handle W cors r).2.generalLimiter =
    if AsksGeneral cors r then (c.generalLimiter.allow r.now (clientIP r.remoteAddr)).2 else c.generalLimiter := by
  unfold Chain.handle
  by_cases browser : (cors && decide (r.method = "OPTIONS")) = true
  · have elsewhere : ¬ AsksGeneral cors r := fun asks => asks.1 browser
    rw [if_pos browser, if_neg elsewhere]
  · by_cases unclean : (!r.clean && decide (r.method ≠ "CONNECT")) = true
    · have elsewhere : ¬ AsksGeneral cors r := fun asks => asks.2.1 unclean
      rw [if_neg browser, if_pos unclean, if_neg elsewhere]
    · by_cases metrics : ((decide (r.method = "GET") || decide (r.method = "HEAD")) && decide (r.path = ["metrics"])) = true
      · have elsewhere : ¬ AsksGeneral cors r := fun asks => asks.2.2 metrics
        rw [if_neg browser, if_neg unclean, if_pos metrics, if_neg elsewhere]
      · have asks : AsksGeneral cors r := ⟨browser, unclean, metrics⟩
        rw [if_neg browser, if_neg unclean, if_neg metrics, if_pos asks]
        cases allowed : (c.generalLimiter.allow r.now (clientIP r.remoteAddr)).1 <;> simp [allowed]

/-- A request is a call of allow on the limiters that it comes to. -/
theorem step_request (i : Installed) (r : Request) (found : Service) (wait : Nat) : installed (l.step W cors (.request r found wait)) i =
    if Asks i cors (l.chain found) r then ((installed l i).allow r.now (clientIP r.remoteAddr)).2 else installed l i := by
  cases i with
  | general => exact handle_general (l.chain found) r
  | login =>
    by_cases asks : Asks .login cors (l.chain found) r
    · rw [if_pos asks]
      exact handle_asks asks
    · rw [if_neg asks]
      exact handle_keeps asks

/-- An event of the server does to a limiter what its access does to the cache. -/
theorem step_lastSeen (i : Installed) (W : Config) (cors : Bool) (l : Limiters) (e : Event) :
    lastSeen (installed (l.step W cors e) i) =
      LastSeen.run (rateLimiterPruneInterval * 10) (access i cors l e).toList (lastSeen (installed l i)) := by
  cases e with
  | request r found wait =>
    rw [step_request]
    simp only [access]
    by_cases asks : Asks i cors (l.chain found) r
    · rw [if_pos asks, if_pos asks]
      exact allow_lastSeen _ _ _ (rateLimiterPruneInterval * 10)
    · rw [if_neg asks, if_neg asks]
      rfl
  | prune now =>
    cases i with
    | general => exact pruneStale_lastSeen l.general now (rateLimiterPruneInterval * 10)
    | login => rfl

theorem run_lastSeen (i : Installed) (W : Config) (cors : Bool) (events : List Event) (l : Limiters) :
    lastSeen (installed (limitersAfter W cors events l) i) =
      LastSeen.run (rateLimiterPruneInterval * 10) (accesses i W cors events l) (lastSeen (installed l i)) := by
  induction events generalizing l with
  | nil => rfl
  | cons e rest ih =>
    rw [accesses, run_append, ← step_lastSeen i W cors l e]
    exact ih (l.step W cors e)

theorem newLimiters_lastSeen (i : Installed) (machine : Arithmetic) : lastSeen (installed (newLimiters machine) i) = LastSeen.empty := by
  cases i <;> rfl

theorem access_now {e : Event} {x : Access String Int} (there : access i cors l e = some x) : x.now = e.now := by
  cases e with
  | request r found wait =>
    simp only [access] at there
    by_cases asks : Asks i cors (l.chain found) r
    · rw [if_pos asks] at there
      cases there
      rfl
    · rw [if_neg asks] at there
      cases there
  | prune now =>
    cases i with
    | general =>
      cases there
      rfl
    | login => cases there

/-- A limiter sees events of the run, in their order. -/
theorem accesses_sublist (i : Installed) (W : Config) (cors : Bool) (events : List Event) (l : Limiters) :
    ((accesses i W cors events l).map Access.now).Sublist (events.map Event.now) := by
  induction events generalizing l with
  | nil => exact List.Sublist.refl []
  | cons e rest ih =>
    rw [accesses]
    cases there : access i cors l e with
    | none => exact (ih _).cons _
    | some x =>
      rw [Option.toList_some, List.singleton_append, List.map_cons, List.map_cons, access_now there]
      exact (ih _).cons_cons _

/-- The general limiter is swept at every tick. -/
theorem sweep_general {now : Int} (W : Config) (cors : Bool) (l : Limiters) (tick : .prune now ∈ events) :
    .sweep now ∈ accesses .general W cors events l := by
  induction events generalizing l with
  | nil => cases tick
  | cons e rest ih =>
    rw [accesses, List.mem_append]
    rcases List.mem_cons.mp tick with rfl | later
    · exact .inl (by simp [access])
    · exact .inr (ih _ later)

/-- The limiter of /login is never swept. -/
theorem sweep_login (W : Config) (cors : Bool) (events : List Event) (l : Limiters) (now : Int) :
    .sweep now ∉ accesses .login W cors events l := by
  induction events generalizing l with
  | nil => exact List.not_mem_nil
  | cons e rest ih =>
    rw [accesses, List.mem_append, not_or]
    refine ⟨?_, ih _⟩
    cases e with
    | request r found wait =>
      unfold access
      by_cases asks : Asks .login cors (l.chain found) r <;> simp [asks]
    | prune now => simp [access]

/-! ### Idle clients -/

/-- The run of a server from its start to a moment, with a tick of the prune loop
    in every interval. -/
structure Serving (start now : Int) (events : List Event) : Prop where
  ordered : (events.map Event.now).Pairwise (· ≤ ·)
  since : ∀ e ∈ events, start ≤ e.now
  past : ∀ e ∈ events, e.now ≤ now
  ticks : ∀ a, start ≤ a → a + rateLimiterPruneInterval ≤ now →
    ∃ p, a < p ∧ p ≤ a + rateLimiterPruneInterval ∧ .prune p ∈ events

/-- The client called allow on the limiter within the last eleven intervals. -/
def Recent (i : Installed) (machine : Arithmetic) (W : Config) (cors : Bool) (events : List Event) (now : Int) (key : String) : Prop :=
  ∃ x ∈ accesses i W cors events (newLimiters machine), x.touched = some key ∧ now - x.now ≤ 11 * rateLimiterPruneInterval

instance (i : Installed) (machine : Arithmetic) (W : Config) (cors : Bool) (events : List Event) (now : Int) (key : String) :
    Decidable (Recent i machine W cors events now key) :=
  inferInstanceAs (Decidable (∃ x ∈ accesses i W cors events (newLimiters machine), _))

/-- The limiter remembers no client that has been idle for longer than that. -/
def Forgets (i : Installed) (machine : Arithmetic) (W : Config) (cors : Bool) (events : List Event) (now : Int) : Prop :=
  ∀ key, ((installed (limitersAfter W cors events (newLimiters machine)) i).buckets key).isSome = true → Recent i machine W cors events now key

/-- The buckets of a limiter are those that its cache keeps. -/
theorem isSome_iff {key : String} : ((installed (limitersAfter W cors events (newLimiters machine)) i).buckets key).isSome = true ↔
    ∃ last, LastSeen.run (rateLimiterPruneInterval * 10) (accesses i W cors events (newLimiters machine)) LastSeen.empty key = some last := by
  rw [← newLimiters_lastSeen i machine, ← run_lastSeen, lastSeen]
  simp [Option.isSome_iff_exists]

theorem general_forgets {start now : Int} (serving : Serving start now events) : Forgets .general machine W cors events now := by
  intro key there
  obtain ⟨last, kept⟩ := isSome_iff.mp there
  have order := accesses_sublist .general W cors events (newLimiters machine)
  have since : ∀ x ∈ accesses .general W cors events (newLimiters machine), start ≤ x.now := by
    intro x member
    obtain ⟨e, listed, same⟩ := List.mem_map.mp (order.subset (List.mem_map_of_mem member))
    rw [← same]
    exact serving.since e listed
  have bound : now ≤ last + rateLimiterPruneInterval * 10 + rateLimiterPruneInterval := by
    refine run_recent (by decide) (serving.ordered.sublist order) since ?_ kept
    intro a begun inside
    obtain ⟨p, after, -, tick⟩ := serving.ticks a begun inside
    exact ⟨p, after, sweep_general W cors (newLimiters machine) tick⟩
  refine ⟨.touch last key, touched_of_run kept, rfl, ?_⟩
  show now - last ≤ _
  omega

/-- The limiter of /login forgets no client; so it keeps none for long exactly
    when none stays away for long. -/
theorem login_forgets_iff {now : Int} : Forgets .login machine W cors events now ↔
    ∀ x ∈ accesses .login W cors events (newLimiters machine), ∀ key ∈ x.touched, Recent .login machine W cors events now key := by
  constructor
  · intro forgets x member key touch
    cases x with
    | sweep _ => cases touch
    | touch _ _ =>
      cases touch
      exact forgets key (isSome_iff.mpr (run_unswept (sweep_login W cors events (newLimiters machine)) member))
  · intro recent key there
    obtain ⟨last, kept⟩ := isSome_iff.mp there
    exact recent (.touch last key) (touched_of_run kept) key rfl

/-- At every moment of every run, no limiter of the server remembers a client that
    has been idle for more than eleven intervals, exactly when no client of the
    limiter of /login has been. -/
theorem idle_clients_forgotten_iff (machine : Arithmetic) (W : Config) (cors : Bool) {start now : Int} {events : List Event}
    (serving : Serving start now events) : (∀ i, Forgets i machine W cors events now) ↔
      ∀ x ∈ accesses .login W cors events (newLimiters machine), ∀ key ∈ x.touched, Recent .login machine W cors events now key := by
  rw [← login_forgets_iff]
  refine ⟨fun all => all .login, fun login i => ?_⟩
  cases i with
  | general => exact general_forgets serving
  | login => exact login

/-- A login from the one address of the tests. -/
def loginAt (now : Int) : Event := .request { plainRequest "POST" ["login"] "" .malformed with now := now } (newService (.float64 false) bootstrapped) 0

def ticks (first n : Nat) : List Event := (List.range' first n).map fun k : Nat => .prune (k * rateLimiterPruneInterval)

theorem ticks_every {n : Nat} (listed : ∀ k : Nat, 1 ≤ k → k < n + 1 → .prune (k * rateLimiterPruneInterval) ∈ events) (a : Int)
    (begun : 0 ≤ a) (inside : a + rateLimiterPruneInterval ≤ n * rateLimiterPruneInterval) :
    ∃ p, a < p ∧ p ≤ a + rateLimiterPruneInterval ∧ .prune p ∈ events := by
  unfold rateLimiterPruneInterval at *
  have known : ((a / 600000000000).toNat : Int) = a / 600000000000 := Int.toNat_of_nonneg (by omega)
  refine ⟨((a / 600000000000).toNat + 1 : Nat) * 600000000000, by omega, by omega, listed _ (by omega) (by omega)⟩

theorem mem_ticks {first n k : Nat} (low : first ≤ k) (high : k < first + n) :
    .prune (k * rateLimiterPruneInterval) ∈ ticks first n :=
  List.mem_map.mpr ⟨k, List.mem_range'_1.mpr ⟨low, high⟩, rfl⟩

/-- A client that logs in and again an hour later. -/
def returning : List Event :=
  loginAt 0 :: ticks 1 6 ++ loginAt (6 * rateLimiterPruneInterval) :: ticks 7 6

theorem idle_clients_forgotten_returning :
    Serving 0 (12 * rateLimiterPruneInterval) returning ∧ ∀ i, Forgets i (.float64 false) plainConfig false returning (12 * rateLimiterPruneInterval) := by
  have listed (k : Nat) (low : 1 ≤ k) (high : k < 13) : .prune (k * rateLimiterPruneInterval) ∈ returning := by
    unfold returning
    by_cases early : k < 7
    · exact List.mem_append_left _ (.tail _ (mem_ticks low early))
    · exact List.mem_append_right _ (.tail _ (mem_ticks (not_lt.mp early) high))
  have serving : Serving 0 (12 * rateLimiterPruneInterval) returning :=
    ⟨by decide, by decide, by decide, ticks_every (n := 12) listed⟩
  exact ⟨serving, (idle_clients_forgotten_iff (.float64 false) plainConfig false serving).mpr (by decide +kernel)⟩

/-- A client that logs in once. -/
def passing : List Event := loginAt 0 :: ticks 1 12

/-- Two hours later the limiter of /login still has its bucket. -/
theorem idle_client_remembered :
    Serving 0 (12 * rateLimiterPruneInterval) passing ∧
      ¬ ∀ i, Forgets i (.float64 false) plainConfig false passing (12 * rateLimiterPruneInterval) := by
  refine ⟨⟨by decide, by decide, by decide, 
    ticks_every (n := 12) fun _ low high => .tail _ (mem_ticks low high)⟩, ?_⟩
  intro all
  exact absurd (all .login "203.0.113.7" (by decide)) (by decide)

end Microserver.IdleClients
