import Mathlib.Data.Rat.Cast.Order
import Mathlib.Logic.Function.Basic
import Mathlib.Tactic.NormNum
import Microserver.Rounding
import Microserver.TokenBuckets

/-!
The rate limiters: a token bucket for each client. The clock is read in
nanoseconds; tokens are counted in the arithmetic of the machine, which is
float64 in the server and may be taken as exact.
-/
namespace Microserver.RateLimits
open Microserver.Rounding Microserver.TokenBuckets

/-- How the results of operations on numbers are rounded. -/
structure Arithmetic where
  round : ℚ → ℚ
  /-- The product in a sum, which a machine with a fused operation does not round. -/
  product : ℚ → ℚ

namespace Arithmetic

/-- Rational numbers. -/
def rational : Arithmetic := ⟨id, id⟩

/-- The numbers of Go, on a machine that fuses a product with a sum or not. -/
def float64 (fuses : Bool) : Arithmetic := ⟨nearest 52, if fuses then id else nearest 52⟩

/-- `d.Seconds()`. -/
def seconds (machine : Arithmetic) (d : Int) : ℚ :=
  machine.round (d.tdiv 1000000000 + machine.round (d.tmod 1000000000 / 1000000000))

end Arithmetic

structure TokenBucket where
  tokens : ℚ
  lastCheck : Int

structure RateLimiter where
  machine : Arithmetic
  buckets : String → Option TokenBucket
  rate : ℚ
  burst : ℚ

def newRateLimiter (machine : Arithmetic) (ratePerSecond : ℚ) (burst : Int) : RateLimiter :=
  ⟨machine, fun _ => none, machine.round ratePerSecond, machine.round burst⟩

/-- `b.tokens += elapsed * rl.rate`. -/
def RateLimiter.refilled (rl : RateLimiter) (b : TokenBucket) (now : Int) : ℚ :=
  rl.machine.round (b.tokens + rl.machine.product (rl.machine.seconds (now - b.lastCheck) * rl.rate))

def RateLimiter.put (rl : RateLimiter) (key : String) (b : TokenBucket) : RateLimiter :=
  { rl with buckets := Function.update rl.buckets key (some b) }

def RateLimiter.allow (rl : RateLimiter) (now : Int) (key : String) : Bool × RateLimiter :=
  match rl.buckets key with
  | none => (true, rl.put key ⟨rl.machine.round (rl.burst - 1), now⟩)
  | some b =>
    let tokens := if rl.refilled b now > rl.burst then rl.burst else rl.refilled b now
    if tokens < 1 then (false, rl.put key ⟨tokens, now⟩) else (true, rl.put key ⟨rl.machine.round (tokens - 1), now⟩)

/-- No whole token is left under the key. -/
def RateLimiter.Exhausted (rl : RateLimiter) (now : Int) (key : String) : Prop :=
  ∃ b ∈ rl.buckets key, rl.refilled b now < 1

instance (rl : RateLimiter) (now : Int) (key : String) : Decidable (rl.Exhausted now key) :=
  inferInstanceAs (Decidable (∃ b ∈ rl.buckets key, _))

def RateLimiter.pruneStale (rl : RateLimiter) (now maxAge : Int) : RateLimiter :=
  { rl with buckets := fun k => (rl.buckets k).filter fun b => ¬ b.lastCheck < now - maxAge }

/-- `net.SplitHostPort`, the host only. -/
def splitHost (hostport : List Char) : Option (List Char) :=
  let port := hostport.reverse.takeWhile (· != ':')
  if port.length = hostport.length then none
  else
    let before := hostport.take (hostport.length - port.length - 1)
    match before with
    | '[' :: rest =>
      -- the first bracket must close the host, right before the last colon
      let host := rest.takeWhile (· != ']')
      if rest.drop host.length ≠ [']'] ∨ '[' ∈ host ∨ '[' ∈ port ∨ ']' ∈ port then none else some host
    | host => if ':' ∈ host ∨ '[' ∈ hostport ∨ ']' ∈ hostport then none else some host

def clientIP (remoteAddr : String) : String :=
  match splitHost remoteAddr.toList with
  | none => remoteAddr
  | some host => String.ofList host

example : clientIP "203.0.113.7:54321" = "203.0.113.7" := by decide
example : clientIP "[2001:db8::1]:443" = "2001:db8::1" := by decide

/-! ### The arithmetic -/

/-- Rounding keeps the order, and zero and one. -/
structure Arithmetic.Monotone (machine : Arithmetic) : Prop where
  round_mono : ∀ x y, 0 ≤ x → x ≤ y → machine.round x ≤ machine.round y
  round_zero : machine.round 0 = 0
  round_one : machine.round 1 = 1
  product_mono : ∀ x y, 0 ≤ x → x ≤ y → machine.product x ≤ machine.product y
  product_zero : machine.product 0 = 0

theorem float64_monotone (fuses : Bool) : (Arithmetic.float64 fuses).Monotone := by
  have one : nearest 52 1 = 1 := nearest_of_multiple (m := 1) (k := 0) (by norm_num) (by decide +kernel)
  cases fuses with
  | false => exact ⟨fun _ _ => nearest_mono, nearest_zero, one, fun _ _ => nearest_mono, nearest_zero⟩
  | true => exact ⟨fun _ _ => nearest_mono, nearest_zero, one, fun _ _ _ less => less, rfl⟩

section Monotone
variable {machine : Arithmetic} (monotone : machine.Monotone)
include monotone

theorem round_nonneg {x : ℚ} (nonneg : 0 ≤ x) : 0 ≤ machine.round x :=
  monotone.round_zero.symm.trans_le (monotone.round_mono 0 x le_rfl nonneg)

theorem product_nonneg {x : ℚ} (nonneg : 0 ≤ x) : 0 ≤ machine.product x :=
  monotone.product_zero.symm.trans_le (monotone.product_mono 0 x le_rfl nonneg)

/-- The fraction of a second in a duration. -/
theorem fraction_bounds (d : ℕ) : 0 ≤ machine.round ((d % 1000000000 : ℕ) / 1000000000) ∧
    machine.round ((d % 1000000000 : ℕ) / 1000000000) ≤ 1 := by
  have nonneg : (0 : ℚ) ≤ (d % 1000000000 : ℕ) / 1000000000 := by positivity
  refine ⟨round_nonneg monotone nonneg, (monotone.round_mono _ 1 nonneg ?_).trans_eq monotone.round_one⟩
  rw [div_le_one (by norm_num)]
  exact_mod_cast (Nat.mod_lt d (by norm_num)).le

omit monotone in
theorem seconds_natCast (machine : Arithmetic) (d : ℕ) : machine.seconds d =
    machine.round ((d / 1000000000 : ℕ) + machine.round ((d % 1000000000 : ℕ) / 1000000000)) := by
  unfold Arithmetic.seconds
  congr 2

/-- A longer duration has no fewer seconds. -/
theorem seconds_mono {d d' : Int} (nonneg : 0 ≤ d) (longer : d ≤ d') : machine.seconds d ≤ machine.seconds d' := by
  obtain ⟨n, rfl⟩ := Int.eq_ofNat_of_zero_le nonneg
  obtain ⟨n', rfl⟩ := Int.eq_ofNat_of_zero_le (nonneg.trans longer)
  have less : n ≤ n' := by exact_mod_cast longer
  rw [seconds_natCast, seconds_natCast]
  refine monotone.round_mono _ _ (add_nonneg (Nat.cast_nonneg _) (fraction_bounds monotone n).1) ?_
  rcases (Nat.div_le_div_right (c := 1000000000) less).lt_or_eq with apart | same
  · have whole : ((n / 1000000000 : ℕ) : ℚ) + 1 ≤ (n' / 1000000000 : ℕ) := by exact_mod_cast apart
    have := (fraction_bounds monotone n).2
    have := (fraction_bounds monotone n').1
    linarith
  · have rest : n % 1000000000 ≤ n' % 1000000000 := by omega
    rw [same]
    refine add_le_add_right (monotone.round_mono _ _ (by positivity) ?_) _
    rw [div_le_div_iff_of_pos_right (by norm_num)]
    exact_mod_cast rest

theorem seconds_nonneg {d : Int} (nonneg : 0 ≤ d) : 0 ≤ machine.seconds d := by
  refine le_of_eq_of_le ?_ (seconds_mono monotone le_rfl nonneg)
  have zero : machine.seconds 0 = machine.round (0 + machine.round 0) := by simp [Arithmetic.seconds]
  rw [zero, monotone.round_zero, add_zero, monotone.round_zero]

end Monotone

section Refilled
variable {rl : RateLimiter} {b : TokenBucket} {now later : Int}

theorem refilled_congr {rl' : RateLimiter} (machine : rl'.machine = rl.machine) (rate : rl'.rate = rl.rate) (b : TokenBucket)
    (now : Int) : rl'.refilled b now = rl.refilled b now := by
  unfold RateLimiter.refilled
  rw [machine, rate]

theorem refilled_nonneg (monotone : rl.machine.Monotone) (rate : 0 ≤ rl.rate) (nonneg : 0 ≤ b.tokens) (past : b.lastCheck ≤ now) :
    0 ≤ rl.refilled b now :=
  round_nonneg monotone (add_nonneg nonneg
    (product_nonneg monotone (mul_nonneg (seconds_nonneg monotone (sub_nonneg.mpr past)) rate)))

/-- A bucket holds no fewer tokens later on. -/
theorem refilled_mono (monotone : rl.machine.Monotone) (rate : 0 ≤ rl.rate) (nonneg : 0 ≤ b.tokens) (past : b.lastCheck ≤ now)
    (after : now ≤ later) : rl.refilled b now ≤ rl.refilled b later := by
  have elapsed := seconds_nonneg monotone (sub_nonneg.mpr past)
  have more := mul_le_mul_of_nonneg_right (seconds_mono monotone (sub_nonneg.mpr past) (sub_le_sub_right after b.lastCheck)) rate
  refine monotone.round_mono _ _ (add_nonneg nonneg (product_nonneg monotone (mul_nonneg elapsed rate))) ?_
  exact add_le_add_right (monotone.product_mono _ _ (mul_nonneg elapsed rate) more) _

end Refilled

/-! ### Limiters as token buckets -/

/-- The seconds in a duration, exactly. -/
def seconds (d : Int) : ℚ := (d : ℚ) / 1000000000

/-- The bucket of a client, in seconds. -/
def RateLimiter.bucket (rl : RateLimiter) (key : String) : Option (Bucket ℚ) :=
  (rl.buckets key).map fun b => ⟨b.tokens, seconds b.lastCheck⟩

/-- The limiter keeps to a limit, in exact arithmetic. -/
def RateLimiter.Keeps (rl : RateLimiter) (L : Limit ℚ) : Prop :=
  rl.machine = .rational ∧ rl.rate = L.rate ∧ rl.burst = L.burst

theorem seconds_sub (a b : Int) : seconds (a - b) = seconds a - seconds b := by
  unfold seconds
  rw [Int.cast_sub, sub_div]

theorem rational_seconds (d : Int) : Arithmetic.rational.seconds d = seconds d := by
  have parts : ((d.tdiv 1000000000 * 1000000000 + d.tmod 1000000000 : Int) : ℚ) = d := by
    rw [Int.mul_comm, Int.mul_tdiv_add_tmod]
  push_cast at parts
  simp only [Arithmetic.seconds, Arithmetic.rational, id_eq, seconds]
  linarith

theorem seconds_le {a b : Int} : seconds a ≤ seconds b ↔ a ≤ b := by
  unfold seconds
  rw [div_le_div_iff_of_pos_right (by norm_num), Int.cast_le]

section Allow
variable {rl : RateLimiter} {L : Limit ℚ} {now : Int} {key other : String}

@[simp] theorem put_machine (b : TokenBucket) : (rl.put key b).machine = rl.machine := rfl
@[simp] theorem put_rate (b : TokenBucket) : (rl.put key b).rate = rl.rate := rfl
@[simp] theorem put_burst (b : TokenBucket) : (rl.put key b).burst = rl.burst := rfl

theorem put_bucket (b : TokenBucket) :
    (rl.put key b).bucket other = if other = key then some ⟨b.tokens, seconds b.lastCheck⟩ else rl.bucket other := by
  unfold RateLimiter.put RateLimiter.bucket
  by_cases same : other = key
  · subst same
    simp
  · simp [same]

/-- allow puts a bucket under the key, checked now, and that is all it changes. -/
theorem allow_put_now (rl : RateLimiter) (now : Int) (key : String) :
    ∃ b, b.lastCheck = now ∧ (rl.allow now key).2 = rl.put key b := by
  unfold RateLimiter.allow
  cases rl.buckets key with
  | none => exact ⟨_, rfl, rfl⟩
  | some b =>
    dsimp only
    split <;> split <;> exact ⟨_, rfl, rfl⟩

theorem allow_put (rl : RateLimiter) (now : Int) (key : String) : ∃ b, (rl.allow now key).2 = rl.put key b := by
  obtain ⟨b, -, same⟩ := allow_put_now rl now key
  exact ⟨b, same⟩

theorem allow_other (different : other ≠ key) : (rl.allow now key).2.bucket other = rl.bucket other := by
  obtain ⟨b, same⟩ := allow_put rl now key
  rw [same, put_bucket, if_neg different]

theorem allow_keeps (keeps : rl.Keeps L) : (rl.allow now key).2.Keeps L := by
  obtain ⟨b, same⟩ := allow_put rl now key
  rw [same]
  exact keeps

/-- allow refuses a call when no whole token is left. -/
theorem allow_refused (burst : 1 ≤ rl.burst) : (rl.allow now key).1 = false ↔ rl.Exhausted now key := by
  unfold RateLimiter.allow RateLimiter.Exhausted
  cases found : rl.buckets key with
  | none => simp
  | some b =>
    have capped : (if rl.refilled b now > rl.burst then rl.burst else rl.refilled b now) < 1 ↔ rl.refilled b now < 1 := by
      by_cases beyond : rl.refilled b now > rl.burst
      · rw [if_pos beyond]
        exact ⟨fun low => absurd low (not_lt.mpr burst), fun low => absurd (burst.trans beyond.le) (not_le.mpr low)⟩
      · rw [if_neg beyond]
    simp only [Option.mem_def, Option.some.injEq, exists_eq_left', ← capped]
    constructor
    · intro refused
      by_contra left
      rw [if_neg left] at refused
      cases refused
    · intro low
      rw [if_pos low]

/-- A call that is refused leaves what its bucket has refilled. -/
theorem allow_leaves (burst : 1 ≤ rl.burst) (refused : (rl.allow now key).1 = false) :
    ∃ b ∈ rl.buckets key, rl.refilled b now < 1 ∧ (rl.allow now key).2 = rl.put key ⟨rl.refilled b now, now⟩ := by
  obtain ⟨b, found, low⟩ := (allow_refused burst).mp refused
  have capped : ¬ rl.refilled b now > rl.burst := fun beyond => absurd (burst.trans beyond.le) (not_le.mpr low)
  refine ⟨b, found, low, ?_⟩
  simp only [RateLimiter.allow, Option.mem_def.mp found, if_neg capped, if_pos low]

theorem refilled_rational (keeps : rl.Keeps L) (b : TokenBucket) :
    rl.refilled b now = b.tokens + (seconds now - seconds b.lastCheck) * L.rate := by
  obtain ⟨machine, rate, -⟩ := keeps
  rw [RateLimiter.refilled, machine, rational_seconds, rate, seconds_sub]
  rfl

/-- allow is a call of the bucket of its key. -/
theorem allow_call (keeps : rl.Keeps L) (now : Int) (key : String) : (rl.allow now key).1 = (L.call (seconds now) (rl.bucket key)).1 ∧
    (rl.allow now key).2.bucket key = some (L.call (seconds now) (rl.bucket key)).2 := by
  have ⟨machine, _, burst⟩ := keeps
  have unrounded (x : ℚ) : rl.machine.round x = x := by
    rw [machine]
    rfl
  cases found : rl.buckets key with
  | none =>
    have bucket : rl.bucket key = none := by rw [RateLimiter.bucket, found]; rfl
    have allowed : rl.allow now key = (true, rl.put key ⟨rl.burst - 1, now⟩) := by simp [RateLimiter.allow, found, unrounded]
    rw [allowed, bucket, put_bucket, if_pos rfl, burst]
    exact ⟨rfl, rfl⟩
  | some b =>
    have bucket : rl.bucket key = some ⟨b.tokens, seconds b.lastCheck⟩ := by rw [RateLimiter.bucket, found]; rfl
    have tokens : (if rl.refilled b now > rl.burst then rl.burst else rl.refilled b now) =
        L.refill ⟨b.tokens, seconds b.lastCheck⟩ (seconds now) := by
      rw [refilled_rational keeps, burst, Limit.refill, min_def]
      by_cases beyond : b.tokens + (seconds now - seconds b.lastCheck) * L.rate > L.burst
      · rw [if_pos beyond, if_pos beyond.le]
      · rw [if_neg beyond]
        by_cases exact : L.burst ≤ b.tokens + (seconds now - seconds b.lastCheck) * L.rate
        · rw [if_pos exact]
          exact le_antisymm (not_lt.mp beyond) exact
        · rw [if_neg exact]
    rw [bucket]
    simp only [RateLimiter.allow, found, tokens, Limit.call, unrounded]
    by_cases empty : L.refill ⟨b.tokens, seconds b.lastCheck⟩ (seconds now) < 1
    · simp only [if_pos empty, put_bucket, ↓reduceIte, and_self]
    · simp only [if_neg empty, put_bucket, ↓reduceIte, and_self]

/-- In float64, a call whose bucket is not refilled by more than what has elapsed
    spends no more than an exact one: to take a token away rounds nothing. -/
theorem allow_spends {fuses : Bool} (machine : rl.machine = .float64 fuses) (rate : 0 ≤ rl.rate) (burst : rl.burst = L.burst)
    (representable : nearest 52 L.burst = L.burst) (small : L.burst ≤ 2 ^ 52) (sound : L.Sound (seconds now) (rl.bucket key))
    (above : ∀ b ∈ rl.buckets key, min L.burst (rl.refilled b now) ≤ b.tokens + seconds (now - b.lastCheck) * L.rate) :
    ∃ left, (rl.allow now key).2.bucket key = some left ∧
      L.Spends (seconds now) (rl.bucket key) (rl.allow now key).1 left := by
  have rounded (x : ℚ) : rl.machine.round x = nearest 52 x := by
    rw [machine]
    rfl
  cases found : rl.buckets key with
  | none =>
    have bucket : rl.bucket key = none := by rw [RateLimiter.bucket, found]; rfl
    have allowed : rl.allow now key = (true, rl.put key ⟨L.burst - 1, now⟩) := by
      simp [RateLimiter.allow, found, rounded, burst, nearest_sub_one representable L.one_le_burst small]
    rw [allowed, bucket]
    exact ⟨⟨L.burst - 1, seconds now⟩, by rw [put_bucket, if_pos rfl],
      rfl, sub_nonneg.mpr L.one_le_burst, (sub_add_cancel _ _).le⟩
  | some b =>
    have bucket : rl.bucket key = some ⟨b.tokens, seconds b.lastCheck⟩ := by rw [RateLimiter.bucket, found]; rfl
    rw [bucket] at sound ⊢
    obtain ⟨nonneg, -, past⟩ := sound _ rfl
    have monotone : rl.machine.Monotone := machine ▸ float64_monotone fuses
    have filled : 0 ≤ rl.refilled b now := refilled_nonneg monotone rate nonneg (seconds_le.mp past)
    have tokens : (if rl.refilled b now > rl.burst then rl.burst else rl.refilled b now) = min L.burst (rl.refilled b now) := by
      rw [burst, min_def]
      by_cases beyond : rl.refilled b now > L.burst
      · rw [if_pos beyond, if_pos beyond.le]
      · rw [if_neg beyond]
        by_cases full : L.burst ≤ rl.refilled b now
        · rw [if_pos full]
          exact le_antisymm (not_lt.mp beyond) full
        · rw [if_neg full]
    have level : min L.burst (rl.refilled b now) ≤ L.level (seconds now) (some ⟨b.tokens, seconds b.lastCheck⟩) := by
      refine le_min (min_le_left _ _) ?_
      show _ ≤ b.tokens + (seconds now - seconds b.lastCheck) * L.rate
      rw [← seconds_sub]
      exact above b found
    have whole : nearest 52 (min L.burst (rl.refilled b now)) = min L.burst (rl.refilled b now) := by
      have fixed : nearest 52 (rl.refilled b now) = rl.refilled b now := by
        have elapsed := seconds_nonneg monotone (sub_nonneg.mpr (seconds_le.mp past))
        have sum : 0 ≤ b.tokens + rl.machine.product (rl.machine.seconds (now - b.lastCheck) * rl.rate) :=
          add_nonneg nonneg (product_nonneg monotone (mul_nonneg elapsed rate))
        rw [RateLimiter.refilled, rounded]
        exact nearest_nearest sum
      rcases min_choice L.burst (rl.refilled b now) with same | same <;> rw [same]
      · exact representable
      · exact fixed
    simp only [RateLimiter.allow, found, tokens, rounded]
    by_cases empty : min L.burst (rl.refilled b now) < 1
    · rw [if_pos empty]
      refine ⟨⟨min L.burst (rl.refilled b now), seconds now⟩, by rw [put_bucket, if_pos rfl], rfl, ?_, ?_⟩
      · exact le_min (zero_le_one.trans L.one_le_burst) filled
      · exact (add_zero _).trans_le level
    · have exact := nearest_sub_one whole (not_lt.mp empty) ((min_le_left _ _).trans small)
      rw [if_neg empty, exact]
      refine ⟨⟨min L.burst (rl.refilled b now) - 1, seconds now⟩, by rw [put_bucket, if_pos rfl], rfl, ?_, ?_⟩
      · exact sub_nonneg.mpr (not_lt.mp empty)
      · exact (sub_add_cancel _ _).trans_le level

end Allow

/-! ### Limiters that answer alike -/

section SameFrom
variable {rl rl' : RateLimiter} {L : Limit ℚ} {now : Int} {key : String}

theorem sameFrom_answer (keeps : rl.Keeps L) (keeps' : rl'.Keeps L)
    (same : L.SameFrom (seconds now) (rl.bucket key) (rl'.bucket key)) : (rl.allow now key).1 = (rl'.allow now key).1 := by
  rw [(allow_call keeps now key).1, (allow_call keeps' now key).1, same.call]

/-- Both limiters are asked. -/
theorem sameFrom_asked (keeps : rl.Keeps L) (keeps' : rl'.Keeps L)
    (same : ∀ other, L.SameFrom (seconds now) (rl.bucket other) (rl'.bucket other)) (other : String) :
    L.SameFrom (seconds now) ((rl.allow now key).2.bucket other) ((rl'.allow now key).2.bucket other) := by
  by_cases different : other = key
  · rw [different, (allow_call keeps now key).2, (allow_call keeps' now key).2, (same key).call]
    exact .refl _
  · rw [allow_other different, allow_other different]
    exact same other

/-- A limiter that refuses a call goes on as if it had not been asked. -/
theorem sameFrom_refused (keeps : rl.Keeps L) (refused : (rl.allow now key).1 = false) (other : String) :
    L.SameFrom (seconds now) (rl.bucket other) ((rl.allow now key).2.bucket other) := by
  by_cases different : other = key
  · rw [(allow_call keeps now key).1] at refused
    rw [different, (allow_call keeps now key).2]
    exact Limit.SameFrom.refused refused
  · rw [allow_other different]
    exact .refl _

end SameFrom
end Microserver.RateLimits
