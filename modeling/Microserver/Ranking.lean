import Mathlib.Data.List.Sort

/-!
Lists as rankings. `[x, y] <+ l` says that `x` comes before `y` in `l`. Sorting by
a key is stable, so it ranks by the key first and by the list second; and two
rankings of the same elements select the same first `n` exactly when none of the
others comes before a selected one.
-/
namespace Microserver.Ranking
open List
variable {α β : Type} [LinearOrder β]

/-- The elements in the order of their keys; equal keys stay in the order of the list. -/
def sortBy (key : α → β) (l : List α) : List α := l.insertionSort (fun a b => key a ≤ key b)

theorem sortBy_perm (key : α → β) (l : List α) : (sortBy key l).Perm l := perm_insertionSort _ l

theorem sortBy_pairwise (key : α → β) (l : List α) : (sortBy key l).Pairwise (fun a b => key a ≤ key b) := by
  have total : Std.Total (fun a b : α => key a ≤ key b) := ⟨fun a b => le_total _ _⟩
  have trans : IsTrans α (fun a b : α => key a ≤ key b) := ⟨fun a b c first second => le_trans first second⟩
  exact pairwise_insertionSort _ l

/-- Different keys come out in ascending order. -/
theorem sortBy_ascending {key : α → β} {l : List α} (distinct : (l.map key).Nodup) :
    ((sortBy key l).map key).Pairwise (· < ·) := by
  have nodup : ((sortBy key l).map key).Nodup := ((sortBy_perm key l).map key).nodup_iff.mpr distinct
  have ordered : ((sortBy key l).map key).Pairwise (· ≤ ·) := pairwise_map.mpr (sortBy_pairwise key l)
  exact ordered.imp₂ (fun _ _ le different => lt_of_le_of_ne le different) nodup

theorem mem_of_before {x y : α} {l : List α} (before : [x, y] <+ l) : x ∈ l ∧ y ∈ l :=
  ⟨before.subset (by simp), before.subset (by simp)⟩

/-- Of two elements of a list one comes before the other. -/
theorem before_or_before {x y : α} {l : List α} (left : x ∈ l) (right : y ∈ l) (different : x ≠ y) :
    [x, y] <+ l ∨ [y, x] <+ l := by
  induction l with
  | nil => cases left
  | cons z rest ih =>
    rcases mem_cons.mp left with rfl | laterX
    · rcases mem_cons.mp right with rfl | laterY
      · exact absurd rfl different
      · exact .inl ((singleton_sublist.mpr laterY).cons_cons x)
    · rcases mem_cons.mp right with rfl | laterY
      · exact .inr ((singleton_sublist.mpr laterX).cons_cons y)
      · rcases ih laterX laterY with before | before
        · exact .inl (before.cons z)
        · exact .inr (before.cons z)

theorem not_before_both {x y : α} {l : List α} (nodup : l.Nodup) (before : [x, y] <+ l) : ¬ [y, x] <+ l := by
  induction l with
  | nil => cases before
  | cons z rest ih =>
    obtain ⟨fresh, nodupRest⟩ := nodup_cons.mp nodup
    intro after
    cases before with
    | cons _ before =>
      cases after with
      | cons _ after => exact ih nodupRest before after
      | cons_cons _ after => exact fresh (mem_of_before before).2
    | cons_cons _ before =>
      cases after with
      | cons _ after => exact fresh (mem_of_before after).2
      | cons_cons _ after => exact fresh (singleton_sublist.mp before)

/-- Sorting ranks by the key, and equal keys by the list. -/
theorem before_sortBy_iff {key : α → β} {l : List α} (nodup : l.Nodup) {x y : α} (left : x ∈ l) (right : y ∈ l)
    (different : x ≠ y) : [x, y] <+ sortBy key l ↔ key x < key y ∨ key x = key y ∧ [x, y] <+ l := by
  have total : Std.Total (fun a b : α => key a ≤ key b) := ⟨fun a b => le_total _ _⟩
  have trans : IsTrans α (fun a b : α => key a ≤ key b) := ⟨fun a b c first second => le_trans first second⟩
  have sortedNodup : (sortBy key l).Nodup := (sortBy_perm key l).nodup_iff.mpr nodup
  have ordered {a b : α} (before : [a, b] <+ sortBy key l) : key a ≤ key b := by
    have pair : [a, b].Pairwise (fun a b => key a ≤ key b) := (sortBy_pairwise key l).sublist before
    simpa using pair
  have stable {a b : α} (le : key a ≤ key b) (before : [a, b] <+ l) : [a, b] <+ sortBy key l :=
    pair_sublist_insertionSort le before
  constructor
  · intro before
    rcases lt_or_eq_of_le (ordered before) with lt | equal
    · exact .inl lt
    · refine .inr ⟨equal, ?_⟩
      rcases before_or_before left right different with here | there
      · exact here
      · exact absurd (stable equal.ge there) (not_before_both sortedNodup before)
  · rintro (lt | ⟨equal, before⟩)
    · rcases before_or_before ((sortBy_perm key l).mem_iff.mpr left) ((sortBy_perm key l).mem_iff.mpr right) different with
        here | there
      · exact here
      · exact absurd (ordered there) (not_le.mpr lt)
    · exact stable equal.le before

/-- A selection of `n` elements is the first `n` of a ranking exactly when each of
    them comes before each of the others. -/
theorem selects_same_iff {selected all ranking : List α} {n : Nat} (perm : ranking.Perm all) (nodup : all.Nodup)
    (nodupSelected : selected.Nodup) (subset : selected ⊆ all) (length : selected.length = min n all.length) :
    (∀ x, x ∈ ranking.take n ↔ x ∈ selected) ↔ ∀ x ∈ selected, ∀ y ∈ all, y ∉ selected → [x, y] <+ ranking := by
  have nodupRanking : ranking.Nodup := perm.nodup_iff.mpr nodup
  have nodupTake : (ranking.take n).Nodup := nodupRanking.sublist (take_sublist n ranking)
  have split {x y : α} (first : x ∈ ranking.take n) (second : y ∈ ranking) (late : y ∉ ranking.take n) :
      [x, y] <+ ranking := by
    have rest : y ∈ ranking.drop n := by
      rw [← take_append_drop n ranking] at second
      exact (mem_append.mp second).resolve_left late
    have both := (singleton_sublist.mpr first).append (singleton_sublist.mpr rest)
    rwa [take_append_drop] at both
  constructor
  · intro same x member y listed other
    exact split ((same x).mpr member) (perm.mem_iff.mpr listed) fun early => other ((same y).mp early)
  · intro before
    have lengths : (ranking.take n).length = selected.length := by
      rw [length_take, perm.length_eq, length]
    by_cases inside : ranking.take n ⊆ selected
    · have exactly := (subperm_of_subset nodupTake inside).perm_of_length_le lengths.ge
      exact fun x => exactly.mem_iff
    · -- some selected element would be late, and some other one early
      obtain ⟨y, early, other⟩ : ∃ y ∈ ranking.take n, y ∉ selected := by
        by_contra none
        exact inside fun y early => by
          by_contra other
          exact none ⟨y, early, other⟩
      have outside : ¬ selected ⊆ ranking.take n := by
        intro reverse
        have exactly := (subperm_of_subset nodupSelected reverse).perm_of_length_le lengths.le
        exact other (exactly.mem_iff.mpr early)
      obtain ⟨x, member, late⟩ : ∃ x ∈ selected, x ∉ ranking.take n := by
        by_contra none
        exact outside fun x member => by
          by_contra late
          exact none ⟨x, member, late⟩
      have forward := before x member y (perm.mem_iff.mp (mem_of_mem_take early)) other
      have backward := split early (perm.mem_iff.mpr (subset member)) late
      exact absurd backward (not_before_both nodupRanking forward)

/-- Sorting forgets in which order the elements came. -/
theorem sortBy_of_perm {l l' : List β} (perm : l.Perm l') : sortBy id l = sortBy id l' := by
  refine Perm.eq_of_pairwise (fun a b _ _ le le' => le_antisymm le le') (sortBy_pairwise id l) (sortBy_pairwise id l') ?_
  exact (sortBy_perm id l).trans (perm.trans (sortBy_perm id l').symm)

/-- All but the last `k` elements of an ascending list are those with `k` greater
    ones. -/
theorem mem_take_ascending {l : List β} (ascending : l.Pairwise (· < ·)) {x : β} (member : x ∈ l) (k : Nat) :
    x ∈ l.take (l.length - k) ↔ k ≤ (l.filter fun y => x < y).length := by
  obtain ⟨before, behind, rfl⟩ := List.append_of_mem member
  obtain ⟨-, tail, crossing⟩ := pairwise_append.mp ascending
  obtain ⟨greater, -⟩ := pairwise_cons.mp tail
  have below : before.filter (fun y => x < y) = [] :=
    filter_eq_nil_iff.mpr fun y early => by simpa using (crossing y early x (.head _)).le
  have above : behind.filter (fun y => x < y) = behind := filter_eq_self.mpr fun y late => by simpa using greater y late
  have later : x ∉ before := fun early => lt_irrefl x (crossing x early x (.head _))
  rw [filter_append, below, nil_append, filter_cons_of_neg (by simp), above, length_append, length_cons,
    take_append, mem_append]
  by_cases enough : k ≤ behind.length
  · have position : before.length + (behind.length + 1) - k - before.length = behind.length - k + 1 := by omega
    rw [position, take_succ_cons]
    exact iff_of_true (.inr (.head _)) enough
  · have position : before.length + (behind.length + 1) - k - before.length = 0 := by omega
    rw [position, take_zero]
    refine iff_of_false ?_ enough
    rintro (early | none)
    · exact later (mem_of_mem_take early)
    · cases none

end Microserver.Ranking
