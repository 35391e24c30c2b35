import Mathlib.Algebra.BigOperators.Group.List.Lemmas
import Mathlib.Algebra.GroupWithZero.Nat
import Mathlib.Data.List.Dedup

/-!
Grouping by a key. Walking through a list and keeping the first value of each key
gives representatives, one of each key that occurs, and the elements with the keys
of the representatives are a partition: their numbers sum to the length.
-/
namespace Microserver.Groupings
universe u v
variable {β : Type u} {κ : Type v} {key : β → κ}

/-- One value of each key that occurs. -/
structure Represents (key : β → κ) (reps values : List β) : Prop where
  distinct : (reps.map key).Nodup
  occurs : ∀ v ∈ reps, v ∈ values
  covers : ∀ v ∈ values, ∃ u ∈ reps, key u = key v

theorem represents_nil : Represents key [] [] := ⟨List.nodup_nil, by simp, by simp⟩

theorem Represents.perm {reps reps' values values' : List β} (represents : Represents key reps values)
    (reordered : reps'.Perm reps) (shuffled : values'.Perm values) : Represents key reps' values' := by
  refine ⟨(reordered.map key).nodup_iff.mpr represents.distinct, fun v member => ?_, fun v member => ?_⟩
  · exact shuffled.mem_iff.mpr (represents.occurs v (reordered.mem_iff.mp member))
  · obtain ⟨u, there, same⟩ := represents.covers v (shuffled.mem_iff.mp member)
    exact ⟨u, reordered.mem_iff.mpr there, same⟩

section Walk
variable [DecidableEq κ]

/-- Keep a value unless one with its key is there. -/
def keepFirst (key : β → κ) (seen : List β) (v : β) : List β := if seen.any fun u => key u = key v then seen else seen ++ [v]

/-- One more value is walked to. -/
theorem Represents.keepFirst {seen values : List β} (represents : Represents key seen values) (v : β) :
    Represents key (keepFirst key seen v) (values ++ [v]) := by
  unfold Groupings.keepFirst
  by_cases known : (seen.any fun u => decide (key u = key v)) = true
  · rw [if_pos known]
    obtain ⟨u, member, same⟩ := List.any_eq_true.mp known
    refine ⟨represents.distinct, fun v' there => List.mem_append_left _ (represents.occurs v' there), fun v' there => ?_⟩
    rcases List.mem_append.mp there with old | new
    · exact represents.covers v' old
    · rw [List.mem_singleton.mp new]
      exact ⟨u, member, of_decide_eq_true same⟩
  · rw [if_neg known]
    have fresh : ∀ u ∈ seen, key u ≠ key v := fun u member same =>
      known (List.any_eq_true.mpr ⟨u, member, decide_eq_true same⟩)
    refine ⟨?_, fun v' there => ?_, fun v' there => ?_⟩
    · rw [List.map_append, List.nodup_append]
      refine ⟨represents.distinct, by simp, ?_⟩
      intro k old k' new
      obtain ⟨u, member, rfl⟩ := List.mem_map.mp old
      rw [List.mem_singleton.mp new]
      exact fresh u member
    · rcases List.mem_append.mp there with old | new
      · exact List.mem_append_left _ (represents.occurs v' old)
      · exact List.mem_append_right _ new
    · rcases List.mem_append.mp there with old | new
      · obtain ⟨u, member, same⟩ := represents.covers v' old
        exact ⟨u, List.mem_append_left _ member, same⟩
      · rw [List.mem_singleton.mp new]
        exact ⟨v, by simp, rfl⟩

theorem represents_foldl {seen before : List β} (represents : Represents key seen before) (values : List β) :
    Represents key (values.foldl (Groupings.keepFirst key) seen) (before ++ values) := by
  induction values generalizing seen before with
  | nil => simpa using represents
  | cons v rest ih =>
    rw [List.foldl_cons, ← List.singleton_append, ← List.append_assoc]
    exact ih (represents.keepFirst v)

/-- The groups of the representatives are a partition. -/
theorem Represents.sum_groups {reps values : List β} (represents : Represents key reps values) :
    (reps.map fun u => (values.filter fun v => key u = key v).length).sum = values.length := by
  have keys : (reps.map key).Perm (values.map key).dedup := by
    refine (List.perm_ext_iff_of_nodup represents.distinct (List.nodup_dedup _)).mpr fun k => ?_
    rw [List.mem_dedup, List.mem_map, List.mem_map]
    constructor
    · rintro ⟨u, member, rfl⟩
      exact ⟨u, represents.occurs u member, rfl⟩
    · rintro ⟨v, member, rfl⟩
      exact represents.covers v member
  have sizes : (reps.map fun u => (values.filter fun v => key u = key v).length) =
      (reps.map key).map fun k => (values.map key).count k := by
    rw [List.map_map]
    refine List.map_congr_left fun u _ => ?_
    rw [Function.comp_apply, List.count_eq_countP, List.countP_map, ← List.countP_eq_length_filter]
    refine List.countP_congr fun v _ => ?_
    rw [decide_eq_true_iff, Function.comp_apply, beq_iff_eq, eq_comm]
  rw [sizes, (keys.map _).sum_eq, List.sum_map_count_dedup_eq_length, List.length_map]

/-- The elements with the keys of the representatives, group by group, are all elements. -/
theorem flatMap_groups_perm {ρ : Type*} {value : ρ → β} {reps : List β} {rows : List ρ} (distinct : (reps.map key).Nodup)
    (covers : ∀ r ∈ rows, ∃ u ∈ reps, key u = key (value r)) :
    (reps.flatMap fun u => rows.filter fun r => key u = key (value r)).Perm rows := by
  induction reps generalizing rows with
  | nil =>
    have none : rows = [] := List.eq_nil_iff_forall_not_mem.mpr fun r member => by simpa using covers r member
    simp [none]
  | cons u rest ih =>
    obtain ⟨fresh, distinct⟩ := List.nodup_cons.mp distinct
    have others : (rest.flatMap fun u' => rows.filter fun r => key u' = key (value r)) =
        rest.flatMap fun u' => (rows.filter fun r => !decide (key u = key (value r))).filter fun r => key u' = key (value r) := by
      refine List.flatMap_congr fun u' member => ?_
      rw [List.filter_filter]
      refine List.filter_congr fun r _ => ?_
      have different : key u ≠ key u' := fun same => fresh (same ▸ List.mem_map_of_mem member)
      by_cases own : key u' = key (value r)
      · simp [own, own ▸ different]
      · simp [own]
    rw [List.flatMap_cons, others]
    refine (List.Perm.append_left _ (ih distinct fun r member => ?_)).trans (List.filter_append_perm _ rows)
    obtain ⟨there, apart⟩ := List.mem_filter.mp member
    obtain ⟨u', listed, same⟩ := covers r there
    rcases List.mem_cons.mp listed with rfl | later
    · simp [same] at apart
    · exact ⟨u', later, same⟩

end Walk

end Microserver.Groupings
