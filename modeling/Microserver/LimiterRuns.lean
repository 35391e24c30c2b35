import Microserver.RateLimits

/-!
Runs of a rate limiter: calls of allow under any keys, and calls of pruneStale
between them. What a bucket can still grant in a window carries the bound
through a run; that two limiters answer alike from now on carries everything
else: calls under other keys, calls that are refused and buckets that are thrown
away after they had the time to refill leave every answer as it is. Tokens are
counted exactly here.
-/
namespace Microserver.LimiterRuns
open Microserver.TokenBuckets Microserver.RateLimits

/-- The calls of allow, each a reading of the clock and a key, with their answers. -/
def answered : List (Int × String) → RateLimiter → List ((Int × String) × Bool)
  | [], _ => []
  | call :: rest, rl => (call, (rl.allow call.1 call.2).1) :: answered rest (rl.allow call.1 call.2).2

/-- The limiter after the calls. -/
def after : List (Int × String) → RateLimiter → RateLimiter
  | [], rl => rl
  | call :: rest, rl => after rest (rl.allow call.1 call.2).2

/-- How many calls under the key returned true at times in the window. -/
def admitted (key : String) (s t : Int) (calls : List (Int × String)) (rl : RateLimiter) : Nat :=
  (answered calls rl).countP fun a => a.1.2 = key ∧ s ≤ a.1.1 ∧ a.1.1 ≤ t ∧ a.2 = true

/-- The answers to the calls under the key. -/
def answersFor (key : String) (calls : List (Int × String)) (rl : RateLimiter) : List Bool :=
  ((answered calls rl).filter fun a => a.1.2 = key).map (·.2)

/-- The readings of the clock do not decrease. -/
def Ordered (calls : List (Int × String)) : Prop := calls.Pairwise fun a b => a.1 ≤ b.1

/-- The limit of newRateLimiter. -/
def limitOf {rate : ℚ} {burst : Int} (refills : 0 ≤ rate) (holds : 1 ≤ burst) : Limit ℚ :=
  ⟨rate, burst, refills, by exact_mod_cast holds⟩

/-! ### One limiter -/

/-- The limiter keeps to the limit, and its buckets are sound. -/
structure Steady (L : Limit ℚ) (now : Int) (rl : RateLimiter) : Prop where
  keeps : rl.Keeps L
  buckets : ∀ key, L.Sound (seconds now) (rl.bucket key)

section Steady
variable {L : Limit ℚ} {rl : RateLimiter} {now : Int} {key : String}

theorem newRateLimiter_steady {rate : ℚ} {burst : Int} (refills : 0 ≤ rate) (holds : 1 ≤ burst) :
    Steady (limitOf refills holds) now (newRateLimiter .rational rate burst) := ⟨⟨rfl, rfl, rfl⟩, fun _ => Limit.sound_none⟩

theorem Steady.later (steady : Steady L now rl) {now' : Int} (later : now ≤ now') : Steady L now' rl :=
  ⟨steady.keeps, fun key => (steady.buckets key).later (seconds_le.mpr later)⟩

theorem Steady.allow (steady : Steady L now rl) (key : String) : Steady L now (rl.allow now key).2 := by
  refine ⟨allow_keeps steady.keeps, fun other => ?_⟩
  by_cases same : other = key
  · rw [same, (allow_call steady.keeps now key).2]
    exact (Limit.call_spends (steady.buckets key)).sound
  · rw [allow_other same]
    exact steady.buckets other

theorem Steady.pruneStale (steady : Steady L now rl) (maxAge : Int) : Steady L now (rl.pruneStale now maxAge) := by
  refine ⟨steady.keeps, fun key b there => ?_⟩
  refine steady.buckets key b ?_
  simp only [RateLimiter.bucket, RateLimiter.pruneStale, Option.map_eq_some_iff, Option.filter_eq_some_iff] at there ⊢
  obtain ⟨stored, ⟨found, -⟩, same⟩ := there
  exact ⟨stored, found, same⟩

/-- The tokens of every bucket of a steady limiter, and when it was counted. -/
theorem Steady.tokens (steady : Steady L now rl) {b : TokenBucket} (found : rl.buckets key = some b) :
    0 ≤ b.tokens ∧ b.tokens ≤ L.burst ∧ b.lastCheck ≤ now := by
  obtain ⟨nonneg, bound, past⟩ := steady.buckets key ⟨b.tokens, seconds b.lastCheck⟩ (by simp [RateLimiter.bucket, found])
  exact ⟨nonneg, bound, seconds_le.mp past⟩

/-- What one call grants under a key in a window, the bucket of the key loses. -/
theorem Steady.spent (steady : Steady L now rl) (asked key : String) {s t : Int} (window : s ≤ t) :
    ((if asked = key ∧ s ≤ now ∧ now ≤ t ∧ (rl.allow now asked).1 = true then 1 else 0 : Nat) : ℚ) +
        L.allowance (seconds s) (seconds t) ((rl.allow now asked).2.bucket key) ≤
      L.allowance (seconds s) (seconds t) (rl.bucket key) := by
  by_cases same : asked = key
  · subst same
    obtain ⟨answer, bucket⟩ := allow_call steady.keeps now asked
    have counted : (if asked = asked ∧ s ≤ now ∧ now ≤ t ∧ (rl.allow now asked).1 = true then 1 else 0) =
        Limit.spent (seconds s) (seconds t) (seconds now) (L.call (seconds now) (rl.bucket asked)).1 := by
      unfold Limit.spent
      refine if_congr ?_ rfl rfl
      rw [answer, seconds_le, seconds_le]
      exact ⟨fun ⟨_, low, high, granted⟩ => ⟨granted, low, high⟩, fun ⟨granted, low, high⟩ => ⟨rfl, low, high, granted⟩⟩
    rw [counted, bucket]
    exact (Limit.call_spends (steady.buckets asked)).allowance (seconds_le.mpr window) (steady.buckets asked)
  · rw [if_neg fun counted => same counted.1, Nat.cast_zero, zero_add, allow_other (Ne.symm same)]

end Steady

/-! ### Runs of calls -/

section Calls
variable {L : Limit ℚ} {rl rl' : RateLimiter} {key : String} {calls : List (Int × String)}

theorem answered_append (before rest : List (Int × String)) (rl : RateLimiter) :
    answered (before ++ rest) rl = answered before rl ++ answered rest (after before rl) := by
  induction before generalizing rl with
  | nil => rfl
  | cons call before ih =>
    rw [List.cons_append, answered, answered, after, ih]
    rfl

/-- Calls keep a limiter steady, from the last of them on. -/
theorem Steady.after {start : Int} (steady : Steady L start rl) (ordered : Ordered calls)
    (since : ∀ call ∈ calls, start ≤ call.1) : ∃ now, Steady L now (LimiterRuns.after calls rl) := by
  induction calls generalizing rl start with
  | nil => exact ⟨start, steady⟩
  | cons call rest ih =>
    rw [Ordered, List.pairwise_cons] at ordered
    exact ih ((steady.later (since call (.head _))).allow call.2) ordered.2 ordered.1

/-- A run grants no more under a key in a window than the bucket of the key can. -/
theorem admitted_le (key : String) {start s t : Int} (window : s ≤ t) (steady : Steady L start rl) (ordered : Ordered calls)
    (since : ∀ call ∈ calls, start ≤ call.1) :
    (admitted key s t calls rl : ℚ) ≤ L.allowance (seconds s) (seconds t) (rl.bucket key) := by
  induction calls generalizing rl start with
  | nil => exact Nat.cast_zero.trans_le (Limit.allowance_nonneg (seconds_le.mpr window) (steady.buckets key))
  | cons call rest ih =>
    rw [Ordered, List.pairwise_cons] at ordered
    have now : Steady L call.1 rl := steady.later (since call (.head _))
    have left := ih (now.allow call.2) ordered.2 ordered.1
    have taken := now.spent call.2 key window
    have counted : admitted key s t (call :: rest) rl = admitted key s t rest (rl.allow call.1 call.2).2 +
        if call.2 = key ∧ s ≤ call.1 ∧ call.1 ≤ t ∧ (rl.allow call.1 call.2).1 = true then 1 else 0 := by
      simp only [admitted, answered, List.countP_cons, decide_eq_true_eq]
    rw [counted, Nat.cast_add, add_comm]
    exact (add_le_add_right left _).trans taken

/-- The answers under a key are those of a limiter that sees no other key. -/
theorem answersFor_filter (keeps : rl.Keeps L) (keeps' : rl'.Keeps L) (same : rl.bucket key = rl'.bucket key) :
    answersFor key calls rl = answersFor key (calls.filter fun call => call.2 = key) rl' := by
  induction calls generalizing rl rl' with
  | nil => rfl
  | cons call rest ih =>
    obtain ⟨now, asked⟩ := call
    by_cases own : asked = key
    · subst own
      obtain ⟨answer, bucket⟩ := allow_call keeps now asked
      obtain ⟨answer', bucket'⟩ := allow_call keeps' now asked
      have next : answersFor asked rest (rl.allow now asked).2 =
          answersFor asked (rest.filter fun call => call.2 = asked) (rl'.allow now asked).2 :=
        ih (allow_keeps keeps) (allow_keeps keeps') (by rw [bucket, bucket', same])
      have listed : ((now, asked) :: rest).filter (fun call => call.2 = asked) = (now, asked) :: rest.filter fun call => call.2 = asked :=
        List.filter_cons_of_pos (by simp)
      simp only [listed, answersFor, answered, List.filter_cons, decide_true, if_true, List.map_cons, List.cons.injEq]
      exact ⟨by rw [answer, answer', same], next⟩
    · have next : answersFor key rest (rl.allow now asked).2 = answersFor key (rest.filter fun call => call.2 = key) rl' :=
        ih (allow_keeps keeps) keeps' ((allow_other (Ne.symm own)).trans same)
      have listed : ((now, asked) :: rest).filter (fun call => call.2 = key) = rest.filter fun call => call.2 = key :=
        List.filter_cons_of_neg (by simpa using own)
      rw [listed, ← next]
      simp [answersFor, answered, own]

/-- Limiters that answer alike from now on answer all calls alike. -/
theorem answered_sameFrom {start : Int} (keeps : rl.Keeps L) (keeps' : rl'.Keeps L)
    (same : ∀ key, L.SameFrom (seconds start) (rl.bucket key) (rl'.bucket key)) (ordered : Ordered calls)
    (since : ∀ call ∈ calls, start ≤ call.1) : answered calls rl = answered calls rl' := by
  induction calls generalizing rl rl' start with
  | nil => rfl
  | cons call rest ih =>
    rw [Ordered, List.pairwise_cons] at ordered
    have now (key : String) : L.SameFrom (seconds call.1) (rl.bucket key) (rl'.bucket key) :=
      (same key).later (seconds_le.mpr (since call (.head _)))
    rw [answered, answered, sameFrom_answer keeps keeps' (now call.2),
      ih (allow_keeps keeps) (allow_keeps keeps') (sameFrom_asked keeps keeps' now) ordered.2 ordered.1]

theorem after_keeps (calls : List (Int × String)) (keeps : rl.Keeps L) : (after calls rl).Keeps L := by
  induction calls generalizing rl with
  | nil => exact keeps
  | cons call rest ih => exact ih (allow_keeps keeps)

end Calls

/-- In every run of a new limiter, the calls under a key that are granted in a
    window of time are at most the burst and what refills in it, every bucket
    holds between zero tokens and the burst, the answers under a key depend on the
    calls under that key alone, and a call that is refused changes no later answer. -/
theorem allow_bounded {rate : ℚ} {burst : Int} (refills : 0 ≤ rate) (holds : 1 ≤ burst) :
    (∀ calls, Ordered calls →
      (∀ key s t, s ≤ t → (admitted key s t calls (newRateLimiter .rational rate burst) : ℚ) ≤ burst + rate * seconds (t - s)) ∧
      ∀ key, ∀ b ∈ (after calls (newRateLimiter .rational rate burst)).buckets key, 0 ≤ b.tokens ∧ b.tokens ≤ burst) ∧
    (∀ key calls calls', calls.filter (fun call => call.2 = key) = calls'.filter (fun call => call.2 = key) →
      answersFor key calls (newRateLimiter .rational rate burst) = answersFor key calls' (newRateLimiter .rational rate burst)) ∧
    ∀ before now key rest, Ordered (before ++ (now, key) :: rest) →
      ((after before (newRateLimiter .rational rate burst)).allow now key).1 = false →
      answered (before ++ (now, key) :: rest) (newRateLimiter .rational rate burst) =
        answered before (newRateLimiter .rational rate burst) ++
          ((now, key), false) :: answered rest (after before (newRateLimiter .rational rate burst)) := by
  have keeps : (newRateLimiter .rational rate burst).Keeps (limitOf refills holds) := ⟨rfl, rfl, rfl⟩
  refine ⟨fun calls ordered => ?_, fun key calls calls' same => ?_, fun before now key rest ordered refused => ?_⟩
  · obtain ⟨start, since⟩ : ∃ start : Int, ∀ call ∈ calls, start ≤ call.1 := by
      cases calls with
      | nil => exact ⟨0, by simp⟩
      | cons call rest => exact ⟨call.1, List.forall_mem_cons.mpr ⟨le_rfl, (List.pairwise_cons.mp ordered).1⟩⟩
    have steady : Steady (limitOf refills holds) start (newRateLimiter .rational rate burst) := newRateLimiter_steady refills holds
    constructor
    · intro key s t window
      have bound := admitted_le key window steady ordered since
      rw [seconds_sub]
      exact bound
    · intro key b found
      obtain ⟨now, kept⟩ := steady.after ordered since
      obtain ⟨nonneg, bound, -⟩ := kept.tokens found
      exact ⟨nonneg, bound⟩
  · rw [answersFor_filter keeps keeps rfl, same, ← answersFor_filter keeps keeps rfl]
  · rw [answered_append, answered, refused]
    obtain ⟨-, later, -⟩ := List.pairwise_append.mp ordered
    rw [List.pairwise_cons] at later
    have kept := after_keeps before keeps
    have same := sameFrom_refused kept refused
    rw [answered_sameFrom kept (allow_keeps kept) same later.2 later.1]

/-- One token a second, and no more than one: the second call at once is refused,
    and the call a second later is granted. -/
theorem allow_bounded_one :
    (admitted "a" 0 1000000000 [(0, "a"), (0, "a"), (1000000000, "a")] (newRateLimiter .rational 1 1) : ℚ) ≤
      (1 : Int) + 1 * seconds (1000000000 - 0) ∧
    answersFor "a" [(0, "b"), (0, "a"), (0, "a")] (newRateLimiter .rational 1 1) =
      answersFor "a" [(0, "a"), (0, "a"), (5, "b")] (newRateLimiter .rational 1 1) ∧
    answered ([(0, "a")] ++ (0, "a") :: [(1000000000, "a")]) (newRateLimiter .rational 1 1) =
      answered [(0, "a")] (newRateLimiter .rational 1 1) ++
        ((0, "a"), false) :: answered [(1000000000, "a")] (after [(0, "a")] (newRateLimiter .rational 1 1)) :=
  have ⟨bounded, isolated, refused⟩ := allow_bounded (show (0 : ℚ) ≤ 1 by decide) (show (1 : Int) ≤ 1 by decide)
  ⟨(bounded [(0, "a"), (0, "a"), (1000000000, "a")] (by unfold Ordered; decide)).1 "a" 0 1000000000 (by decide),
    isolated "a" [(0, "b"), (0, "a"), (0, "a")] [(0, "a"), (0, "a"), (5, "b")] (by decide),
    refused [(0, "a")] 0 "a" [(1000000000, "a")] (by unfold Ordered; decide) (by decide +kernel)⟩

/-! ### Pruning -/

/-- A call of allow under a key, or a call of pruneStale. -/
inductive Event
  | allow (now : Int) (key : String)
  | prune (now : Int)

def Event.now : Event → Int
  | .allow now _ => now
  | .prune now => now

def Event.isAllow : Event → Bool
  | .allow _ _ => true
  | .prune _ => false

/-- The answers of all calls of allow. -/
def answers (maxAge : Int) : List Event → RateLimiter → List Bool
  | [], _ => []
  | .allow now key :: rest, rl => (rl.allow now key).1 :: answers maxAge rest (rl.allow now key).2
  | .prune now :: rest, rl => answers maxAge rest (rl.pruneStale now maxAge)

section Prune
variable {L : Limit ℚ} {rl rl' : RateLimiter} {maxAge : Int}

/-- A bucket that pruneStale deletes has had the time to refill. -/
theorem pruneStale_sameFrom {now : Int} (covers : L.burst ≤ L.rate * seconds maxAge) (steady : Steady L now rl) (key : String) :
    L.SameFrom (seconds now) ((rl.pruneStale now maxAge).bucket key) (rl.bucket key) := by
  cases found : rl.buckets key with
  | none =>
    have missing : (rl.pruneStale now maxAge).bucket key = rl.bucket key := by
      simp [RateLimiter.bucket, RateLimiter.pruneStale, found]
    rw [missing]
    exact .refl _
  | some b =>
    have kept : rl.bucket key = some ⟨b.tokens, seconds b.lastCheck⟩ := by simp [RateLimiter.bucket, found]
    have pruned : (rl.pruneStale now maxAge).buckets key = if b.lastCheck < now - maxAge then none else some b := by
      show (rl.buckets key).filter _ = _
      by_cases stale : b.lastCheck < now - maxAge
      · rw [if_pos stale, found]
        exact Option.filter_some_neg (decide_eq_false (not_not_intro stale))
      · rw [if_neg stale, found]
        exact Option.filter_some_pos (decide_eq_true stale)
    by_cases stale : b.lastCheck < now - maxAge
    · have deleted : (rl.pruneStale now maxAge).bucket key = none := by
        rw [RateLimiter.bucket, pruned, if_pos stale, Option.map_none]
      have age : seconds maxAge ≤ seconds now - seconds b.lastCheck := by
        rw [← seconds_sub, seconds_le]
        omega
      have full : L.burst ≤ (seconds now - seconds b.lastCheck) * L.rate := by
        rw [mul_comm]
        exact covers.trans (mul_le_mul_of_nonneg_left age L.rate_nonneg)
      rw [deleted, kept]
      exact .refilled (steady.tokens found).1 full
    · have same : (rl.pruneStale now maxAge).bucket key = rl.bucket key := by
        rw [RateLimiter.bucket, pruned, if_neg stale, RateLimiter.bucket, found]
      rw [same]
      exact .refl _

/-- A limiter that is pruned answers as one that answers alike and is not. -/
theorem answers_prune {start : Int} {events : List Event} (covers : L.burst ≤ L.rate * seconds maxAge)
    (steady : Steady L start rl) (keeps' : rl'.Keeps L)
    (same : ∀ key, L.SameFrom (seconds start) (rl.bucket key) (rl'.bucket key))
    (ordered : (events.map Event.now).Pairwise (· ≤ ·)) (since : ∀ e ∈ events, start ≤ e.now) :
    answers maxAge events rl = answers maxAge (events.filter Event.isAllow) rl' := by
  induction events generalizing rl rl' start with
  | nil => rfl
  | cons e rest ih =>
    rw [List.map_cons, List.pairwise_cons] at ordered
    have later : ∀ e' ∈ rest, e.now ≤ e'.now := fun e' member => ordered.1 _ (List.mem_map_of_mem member)
    have begun := seconds_le.mpr (since e (.head _))
    have now : Steady L e.now rl := steady.later (since e (.head _))
    cases e with
    | allow time key =>
      have alike (other : String) : L.SameFrom (seconds time) (rl.bucket other) (rl'.bucket other) := (same other).later begun
      have next := ih (now.allow key) (allow_keeps keeps') (sameFrom_asked now.keeps keeps' alike) ordered.2 later
      rw [List.filter_cons_of_pos rfl, answers, answers, sameFrom_answer now.keeps keeps' (alike key)]
      exact congrArg _ next
    | prune time =>
      rw [List.filter_cons_of_neg (by simp [Event.isAllow]), answers]
      exact ih (now.pruneStale maxAge) keeps' (fun key => (pruneStale_sameFrom covers now key).trans ((same key).later begun))
        ordered.2 later

end Prune

/-- When a bucket refills within the age at which it is thrown away, a run of a new
    limiter gives the same answers without its calls of pruneStale. -/
theorem pruneStale_transparent {rate : ℚ} {burst : Int} {maxAge : Int} (refills : 0 ≤ rate) (holds : 1 ≤ burst)
    (covers : (burst : ℚ) ≤ rate * seconds maxAge) (events : List Event) (ordered : (events.map Event.now).Pairwise (· ≤ ·)) :
    answers maxAge events (newRateLimiter .rational rate burst) =
      answers maxAge (events.filter Event.isAllow) (newRateLimiter .rational rate burst) := by
  obtain ⟨start, since⟩ : ∃ start : Int, ∀ e ∈ events, start ≤ e.now := by
    cases events with
    | nil => exact ⟨0, by simp⟩
    | cons e rest =>
      rw [List.map_cons, List.pairwise_cons] at ordered
      exact ⟨e.now, List.forall_mem_cons.mpr ⟨le_rfl, fun e' member => ordered.1 _ (List.mem_map_of_mem member)⟩⟩
  exact answers_prune (L := limitOf refills holds) covers (newRateLimiter_steady refills holds) ⟨rfl, rfl, rfl⟩
    (fun _ => .refl _) ordered since

/-- The general limiter and its prune loop. -/
theorem pruneStale_transparent_general :
    answers 6000000000000 [.allow 0 "a", .prune 7000000000000, .allow 7000000000000 "a"] (newRateLimiter .rational 20 40) =
      answers 6000000000000 ([.allow 0 "a", .prune 7000000000000, .allow 7000000000000 "a"].filter Event.isAllow)
        (newRateLimiter .rational 20 40) :=
  pruneStale_transparent (by decide) (by decide) (by decide +kernel) _ (by decide)

end Microserver.LimiterRuns
