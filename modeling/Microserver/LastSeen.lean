import Mathlib.Algebra.Order.Group.Defs
import Mathlib.Data.List.Induction
import Mathlib.Logic.Function.Basic

/-!
Caches that forget. A cache keeps for each key when it was last touched, and a
sweep drops the keys that were not touched for longer than an age. A cache that
is swept in every period remembers a key for no more than the age and a period;
one that is never swept remembers every key it has seen.
-/
namespace Microserver.LastSeen
universe u v

/-- What happens to a cache. -/
inductive Access (κ : Type u) (τ : Type v)
  | touch (now : τ) (key : κ)
  | sweep (now : τ)
deriving DecidableEq

abbrev Cache (κ : Type u) (τ : Type v) := κ → Option τ

variable {κ : Type u} {τ : Type v}

def Access.now : Access κ τ → τ
  | .touch now _ => now
  | .sweep now => now

/-- The key that is touched. -/
def Access.touched : Access κ τ → Option κ
  | .touch _ key => some key
  | .sweep _ => none

/-- A cache that has seen nothing. -/
def empty : Cache κ τ := fun _ => none

variable [DecidableEq κ] [AddCommGroup τ] [LinearOrder τ]

def step (age : τ) (cache : Cache κ τ) : Access κ τ → Cache κ τ
  | .touch now key => Function.update cache key (some now)
  | .sweep now => fun key => (cache key).filter fun last => ¬ last < now - age

def run (age : τ) (accesses : List (Access κ τ)) (cache : Cache κ τ) : Cache κ τ := accesses.foldl (step age) cache

variable {age last : τ} {accesses : List (Access κ τ)} {cache : Cache κ τ} {key : κ}

theorem run_append (before after : List (Access κ τ)) :
    run age (before ++ after) cache = run age after (run age before cache) := List.foldl_append

theorem run_concat (access : Access κ τ) : run age (accesses ++ [access]) cache = step age (run age accesses cache) access :=
  run_append accesses [access]

theorem run_cons (access : Access κ τ) (rest : List (Access κ τ)) :
    run age (access :: rest) cache = run age rest (step age cache access) := rfl

theorem step_sweep_some {now : τ} :
    step age cache (.sweep now) key = some last ↔ cache key = some last ∧ now - age ≤ last := by
  simp [step, Option.filter_eq_some_iff]

theorem step_touch_some {now : τ} {touched : κ} :
    step age cache (.touch now touched) key = some last ↔
      if key = touched then now = last else cache key = some last := by
  by_cases same : key = touched
  · subst same
    simp [step]
  · simp [step, same]

/-- A key is kept with a time at which it was touched. -/
theorem touched_of_run (kept : run age accesses empty key = some last) : .touch last key ∈ accesses := by
  induction accesses using List.reverseRecOn generalizing last with
  | nil => cases kept
  | append_singleton accesses access ih =>
    rw [run_concat] at kept
    rw [List.mem_append, List.mem_singleton]
    cases access with
    | touch now touched =>
      have either := step_touch_some.mp kept
      by_cases same : key = touched
      · rw [if_pos same] at either
        rw [same, either]
        exact .inr rfl
      · rw [if_neg same] at either
        exact .inl (ih either)
    | sweep now => exact .inl (ih (step_sweep_some.mp kept).1)

/-- A cache that is never swept keeps every key. -/
theorem run_unswept (unswept : ∀ now, .sweep now ∉ accesses) {now : τ} (touched : .touch now key ∈ accesses) :
    ∃ last, run age accesses empty key = some last := by
  induction accesses using List.reverseRecOn with
  | nil => cases touched
  | append_singleton accesses access ih =>
    have before : ∀ now, .sweep now ∉ accesses := fun now member => unswept now (List.mem_append_left _ member)
    simp only [run_concat]
    cases access with
    | sweep now => exact absurd (List.mem_append_right _ (List.mem_singleton_self _)) (unswept now)
    | touch now' touched' =>
      by_cases same : key = touched'
      · exact ⟨now', step_touch_some.mpr (by rw [if_pos same])⟩
      · have earlier : .touch now key ∈ accesses := by simpa [same] using touched
        obtain ⟨last, kept⟩ := ih before earlier
        exact ⟨last, step_touch_some.mpr (by rwa [if_neg same])⟩

/-- Later accesses do not make a cache older. -/
theorem run_bound {bound : τ} (low : ∀ key last, cache key = some last → bound ≤ last)
    (since : ∀ access ∈ accesses, bound ≤ access.now) (kept : run age accesses cache key = some last) : bound ≤ last := by
  induction accesses generalizing cache with
  | nil => exact low key last kept
  | cons access rest ih =>
    rw [List.forall_mem_cons] at since
    refine ih ?_ since.2 kept
    intro other earlier there
    cases access with
    | touch now touched =>
      have either := step_touch_some.mp there
      by_cases same : other = touched
      · rw [if_pos same] at either
        rw [← either]
        exact since.1
      · rw [if_neg same] at either
        exact low other earlier either
    | sweep now => exact low other earlier (step_sweep_some.mp there).1

variable [IsOrderedAddMonoid τ]

/-- A cache that is swept in every period forgets the keys that were not touched
    for the age and a period. -/
theorem run_recent {start now period : τ} (nonneg : 0 ≤ age) (ordered : (accesses.map Access.now).Pairwise (· ≤ ·))
    (since : ∀ access ∈ accesses, start ≤ access.now)
    (swept : ∀ a, start ≤ a → a + period ≤ now → ∃ p, a < p ∧ .sweep p ∈ accesses)
    (kept : run age accesses empty key = some last) : now ≤ last + age + period := by
  by_contra late
  have begun : start ≤ last + age :=
    (since _ (touched_of_run kept)).trans (le_add_of_nonneg_right nonneg)
  obtain ⟨p, after, member⟩ := swept (last + age) begun (le_of_lt (not_le.mp late))
  obtain ⟨before, rest, rfl⟩ := List.append_of_mem member
  have later : ∀ access ∈ rest, p - age ≤ access.now := by
    intro access there
    rw [List.map_append, List.map_cons, List.pairwise_append, List.pairwise_cons] at ordered
    exact (sub_le_self p nonneg).trans (ordered.2.1.1 _ (List.mem_map_of_mem there))
  rw [run_append, run_cons] at kept
  have fresh : p - age ≤ last := run_bound (fun _ _ there => (step_sweep_some.mp there).2) later kept
  exact absurd (sub_le_iff_le_add.mp fresh) (not_le.mpr after)

end Microserver.LastSeen
