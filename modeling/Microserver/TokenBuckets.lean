import Mathlib.Algebra.Order.Field.Basic
import Mathlib.Tactic.Linarith
import Mathlib.Tactic.Ring

/-!
Token buckets over an ordered field. A bucket refills at a rate up to a burst,
and a call is granted when a whole token is left. What a bucket can still grant
in a window of time is its `allowance`; no call makes it grow, and a granted
call inside the window takes one from it, so whatever calls come, and whatever
else happens between them, no window sees more than `burst + rate * length`.
What a bucket answers depends on its tokens alone, and a refused call changes
none of the later answers.
-/
namespace Microserver.TokenBuckets
universe u
variable {𝕜 : Type u} [Field 𝕜] [LinearOrder 𝕜] [IsStrictOrderedRing 𝕜]

/-- Tokens per unit of time, and how many a bucket holds at most. -/
structure Limit (𝕜 : Type u) [Field 𝕜] [LinearOrder 𝕜] where
  rate : 𝕜
  burst : 𝕜
  rate_nonneg : 0 ≤ rate
  one_le_burst : 1 ≤ burst

/-- The tokens of a bucket, counted at `lastCheck`. -/
structure Bucket (𝕜 : Type u) where
  tokens : 𝕜
  lastCheck : 𝕜

namespace Limit
variable {L : Limit 𝕜} {s t now : 𝕜} {b : Bucket 𝕜}

/-- The tokens at a later time. -/
def refill (L : Limit 𝕜) (b : Bucket 𝕜) (now : 𝕜) : 𝕜 := min L.burst (b.tokens + (now - b.lastCheck) * L.rate)

/-- One call. A bucket that is not there yet is a full one. -/
def call (L : Limit 𝕜) (now : 𝕜) : Option (Bucket 𝕜) → Bool × Bucket 𝕜
  | none => (true, ⟨L.burst - 1, now⟩)
  | some b => if L.refill b now < 1 then (false, ⟨L.refill b now, now⟩) else (true, ⟨L.refill b now - 1, now⟩)

/-- The tokens that a call finds. -/
def level (L : Limit 𝕜) (now : 𝕜) : Option (Bucket 𝕜) → 𝕜
  | none => L.burst
  | some b => L.refill b now

/-- A bucket between zero and the burst, counted at a time that has come. -/
def Sound (L : Limit 𝕜) (now : 𝕜) (bucket : Option (Bucket 𝕜)) : Prop :=
  ∀ b, bucket = some b → 0 ≤ b.tokens ∧ b.tokens ≤ L.burst ∧ b.lastCheck ≤ now

omit [IsStrictOrderedRing 𝕜] in
theorem sound_none : L.Sound now none := nofun

omit [IsStrictOrderedRing 𝕜] in
theorem Sound.later {bucket : Option (Bucket 𝕜)} (sound : L.Sound now bucket) {now' : 𝕜} (after : now ≤ now') :
    L.Sound now' bucket := fun b there =>
  have ⟨nonneg, bound, past⟩ := sound b there
  ⟨nonneg, bound, past.trans after⟩

omit [IsStrictOrderedRing 𝕜] in
theorem refill_le : L.refill b now ≤ L.burst := min_le_left _ _

theorem refill_nonneg (nonneg : 0 ≤ b.tokens) (past : b.lastCheck ≤ now) : 0 ≤ L.refill b now := by
  have elapsed : 0 ≤ (now - b.lastCheck) * L.rate := mul_nonneg (sub_nonneg.mpr past) L.rate_nonneg
  have burst : 0 ≤ L.burst := zero_le_one.trans L.one_le_burst
  exact le_min burst (add_nonneg nonneg elapsed)

/-- What a call, granted or not, may leave of a bucket: no more than it has refilled,
    less a token if it is granted. -/
structure Spends (L : Limit 𝕜) (now : 𝕜) (bucket : Option (Bucket 𝕜)) (granted : Bool) (left : Bucket 𝕜) : Prop where
  counted : left.lastCheck = now
  nonneg : 0 ≤ left.tokens
  taken : left.tokens + (if granted then 1 else 0) ≤ L.level now bucket

omit [IsStrictOrderedRing 𝕜] in
theorem level_le (bucket : Option (Bucket 𝕜)) : L.level now bucket ≤ L.burst := by
  cases bucket with
  | none => exact le_rfl
  | some b => exact refill_le

theorem Spends.sound {bucket : Option (Bucket 𝕜)} {granted : Bool} {left : Bucket 𝕜} (spends : L.Spends now bucket granted left) :
    L.Sound now (some left) := by
  have taken := spends.taken.trans (level_le bucket)
  have token : (0 : 𝕜) ≤ if granted then 1 else 0 := by split <;> simp
  rintro b ⟨⟩
  exact ⟨spends.nonneg, by linarith, spends.counted.le⟩

theorem call_spends {bucket : Option (Bucket 𝕜)} (sound : L.Sound now bucket) :
    L.Spends now bucket (L.call now bucket).1 (L.call now bucket).2 := by
  cases bucket with
  | none => exact ⟨rfl, sub_nonneg.mpr L.one_le_burst, (sub_add_cancel _ _).le⟩
  | some b =>
    obtain ⟨nonneg, -, past⟩ := sound b rfl
    by_cases empty : L.refill b now < 1
    · have refused : L.call now (some b) = (false, ⟨L.refill b now, now⟩) := if_pos empty
      rw [refused]
      exact ⟨rfl, refill_nonneg nonneg past, (add_zero _).le⟩
    · have granted : L.call now (some b) = (true, ⟨L.refill b now - 1, now⟩) := if_neg empty
      rw [granted]
      exact ⟨rfl, sub_nonneg.mpr (not_lt.mp empty), (sub_add_cancel _ _).le⟩

/-- What a bucket can grant from now on in the window from `s` to `t`. -/
def allowance (L : Limit 𝕜) (s t : 𝕜) : Option (Bucket 𝕜) → 𝕜
  | none => L.burst + L.rate * (t - s)
  | some b =>
    if b.lastCheck < s then L.burst + L.rate * (t - s)
    else if b.lastCheck ≤ t then b.tokens + L.rate * (t - b.lastCheck)
    else 0

/-- One when a call at `now` is granted inside the window. -/
def spent (s t now : 𝕜) (granted : Bool) : ℕ := if granted = true ∧ s ≤ now ∧ now ≤ t then 1 else 0

section Window
variable {bucket : Option (Bucket 𝕜)} (window : s ≤ t)
include window

theorem whole_nonneg : 0 ≤ L.burst + L.rate * (t - s) :=
  add_nonneg (zero_le_one.trans L.one_le_burst) (mul_nonneg L.rate_nonneg (sub_nonneg.mpr window))

theorem allowance_nonneg (sound : L.Sound now bucket) : 0 ≤ L.allowance s t bucket := by
  cases bucket with
  | none => exact whole_nonneg window
  | some b =>
    obtain ⟨nonneg, -, -⟩ := sound b rfl
    rw [allowance]
    by_cases before : b.lastCheck < s
    · rw [if_pos before]
      exact whole_nonneg window
    · rw [if_neg before]
      by_cases inside : b.lastCheck ≤ t
      · rw [if_pos inside]
        exact add_nonneg nonneg (mul_nonneg L.rate_nonneg (sub_nonneg.mpr inside))
      · rw [if_neg inside]

theorem allowance_le (sound : L.Sound now bucket) : L.allowance s t bucket ≤ L.burst + L.rate * (t - s) := by
  cases bucket with
  | none => exact le_rfl
  | some b =>
    obtain ⟨-, bound, -⟩ := sound b rfl
    rw [allowance]
    by_cases before : b.lastCheck < s
    · rw [if_pos before]
    · rw [if_neg before]
      by_cases inside : b.lastCheck ≤ t
      · rw [if_pos inside]
        have later : t - b.lastCheck ≤ t - s := sub_le_sub_left (not_lt.mp before) t
        exact add_le_add bound (mul_le_mul_of_nonneg_left later L.rate_nonneg)
      · rw [if_neg inside]
        exact whole_nonneg window

/-- A call does not make the allowance grow, and takes from it what it is granted
    inside the window. -/
theorem Spends.allowance {granted : Bool} {left : Bucket 𝕜} (spends : L.Spends now bucket granted left) (sound : L.Sound now bucket) :
    spent s t now granted + L.allowance s t (some left) ≤ L.allowance s t bucket := by
  have after := spends.sound
  by_cases before : now < s
  · -- the call comes before the window, and so did the bucket
    have missed : spent s t now granted = 0 := if_neg fun inside => absurd inside.2.1 (not_le.mpr before)
    have whole : L.allowance s t bucket = L.burst + L.rate * (t - s) := by
      cases bucket with
      | none => rfl
      | some b => exact if_pos ((sound b rfl).2.2.trans_lt before)
    rw [missed, Nat.cast_zero, zero_add, whole]
    exact allowance_le window after
  · by_cases past : t < now
    · have missed : spent s t now granted = 0 := if_neg fun inside => absurd inside.2.2 (not_le.mpr past)
      have beyond : L.allowance s t (some left) = 0 := by
        rw [Limit.allowance, spends.counted, if_neg before, if_neg (not_le.mpr past)]
      rw [missed, beyond, Nat.cast_zero, add_zero]
      exact allowance_nonneg window sound
    · have inside : s ≤ now ∧ now ≤ t := ⟨not_lt.mp before, not_lt.mp past⟩
      have remaining : L.allowance s t (some left) = left.tokens + L.rate * (t - now) := by
        rw [Limit.allowance, spends.counted, if_neg before, if_pos inside.2]
      have taken : (spent s t now granted : 𝕜) + left.tokens ≤ L.level now bucket := by
        refine le_of_eq_of_le ?_ spends.taken
        cases granted <;> simp [spent, inside, add_comm]
      have rest : L.rate * (t - now) ≤ L.rate * (t - s) :=
        mul_le_mul_of_nonneg_left (sub_le_sub_left inside.1 t) L.rate_nonneg
      have whole : (spent s t now granted : 𝕜) + L.allowance s t (some left) ≤ L.burst + L.rate * (t - s) := by
        rw [remaining, ← add_assoc]
        exact add_le_add (taken.trans (level_le bucket)) rest
      cases bucket with
      | none => exact whole
      | some b =>
        rw [remaining, ← add_assoc, Limit.allowance]
        by_cases early : b.lastCheck < s
        · rw [if_pos early, add_assoc, ← remaining]
          exact whole
        · have reached : b.lastCheck ≤ t := (sound b rfl).2.2.trans inside.2
          rw [if_neg early, if_pos reached]
          have bound : L.refill b now ≤ b.tokens + (now - b.lastCheck) * L.rate := min_le_right _ _
          have taken : (spent s t now granted : 𝕜) + left.tokens ≤ L.refill b now := taken
          linarith

end Window
/-! ### Buckets that answer alike -/

/-- From now on the two buckets have the same tokens. -/
def SameFrom (L : Limit 𝕜) (now : 𝕜) (bucket bucket' : Option (Bucket 𝕜)) : Prop :=
  ∀ later, now ≤ later → L.level later bucket = L.level later bucket'

omit [IsStrictOrderedRing 𝕜] in
/-- A call depends on the tokens it finds alone. -/
theorem call_level (bucket : Option (Bucket 𝕜)) : L.call now bucket =
    if L.level now bucket < 1 then (false, ⟨L.level now bucket, now⟩) else (true, ⟨L.level now bucket - 1, now⟩) := by
  cases bucket with
  | none => exact (if_neg (not_lt.mpr L.one_le_burst)).symm
  | some b => rfl

omit [IsStrictOrderedRing 𝕜] in
theorem SameFrom.refl (bucket : Option (Bucket 𝕜)) : L.SameFrom now bucket bucket := fun _ _ => rfl

variable {bucket bucket' : Option (Bucket 𝕜)}

omit [IsStrictOrderedRing 𝕜] in
theorem SameFrom.later (same : L.SameFrom now bucket bucket') {now' : 𝕜} (after : now ≤ now') : L.SameFrom now' bucket bucket' :=
  fun t reached => same t (after.trans reached)

omit [IsStrictOrderedRing 𝕜] in
theorem SameFrom.call (same : L.SameFrom now bucket bucket') : L.call now bucket = L.call now bucket' := by
  rw [call_level, call_level, same now le_rfl]

/-- To refill in two steps is to refill in one. -/
theorem refill_refill {later : 𝕜} (after : now ≤ later) : L.refill ⟨L.refill b now, now⟩ later = L.refill b later := by
  have more : 0 ≤ (later - now) * L.rate := mul_nonneg (sub_nonneg.mpr after) L.rate_nonneg
  have sum : b.tokens + (now - b.lastCheck) * L.rate + (later - now) * L.rate = b.tokens + (later - b.lastCheck) * L.rate := by ring
  unfold refill
  rcases le_total L.burst (b.tokens + (now - b.lastCheck) * L.rate) with full | short
  · rw [min_eq_left full, min_eq_left (le_add_of_nonneg_right more), min_eq_left]
    rw [← sum]
    exact full.trans (le_add_of_nonneg_right more)
  · rw [min_eq_right short, sum]

/-- A call that is refused changes no later answer. -/
theorem SameFrom.refused (refused : (L.call now bucket).1 = false) : L.SameFrom now bucket (some (L.call now bucket).2) := by
  cases bucket with
  | none => cases refused
  | some b =>
    intro later after
    have left : (L.call now (some b)).2 = ⟨L.refill b now, now⟩ := by
      by_cases empty : L.refill b now < 1
      · simp [Limit.call, empty]
      · simp [Limit.call, empty] at refused
    rw [left]
    exact (refill_refill after).symm

omit [IsStrictOrderedRing 𝕜] in
theorem SameFrom.trans {bucket'' : Option (Bucket 𝕜)} (first : L.SameFrom now bucket bucket')
    (second : L.SameFrom now bucket' bucket'') : L.SameFrom now bucket bucket'' :=
  fun later after => (first later after).trans (second later after)

omit [IsStrictOrderedRing 𝕜] in
theorem SameFrom.symm (same : L.SameFrom now bucket bucket') : L.SameFrom now bucket' bucket :=
  fun later after => (same later after).symm

/-- A bucket that had the time to refill is as good as one that is not there. -/
theorem SameFrom.refilled (nonneg : 0 ≤ b.tokens) (full : L.burst ≤ (now - b.lastCheck) * L.rate) :
    L.SameFrom now none (some b) := by
  intro later after
  have more : (now - b.lastCheck) * L.rate ≤ (later - b.lastCheck) * L.rate :=
    mul_le_mul_of_nonneg_right (sub_le_sub_right after _) L.rate_nonneg
  exact (min_eq_left ((full.trans more).trans (le_add_of_nonneg_left nonneg))).symm

end Limit
end Microserver.TokenBuckets
