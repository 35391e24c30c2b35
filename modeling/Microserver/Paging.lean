import Mathlib.Order.Lattice
import Mathlib.Data.List.Pairwise
import Mathlib.Tactic.Common

/-!
Reading an ascending list page by page, by offset, while the list changes. A page
continues what was read before as long as the list has, up to the last element
read, as many elements as the offset skips; then nothing is read twice, and an
element that stays is read or still lies ahead.
-/
namespace Microserver.Paging
open List
variable {α : Type} [LinearOrder α] {l all : List α} {offset size : Nat}

/-- The page of a list at an offset. -/
def page (l : List α) (offset size : Nat) : List α := (l.drop offset).take size

/-- The list has as many elements up to the last one read as the offset skips. -/
def Continues (l all : List α) (offset : Nat) : Prop := ∀ x ∈ all.getLast?, l.countP (· ≤ x) = offset

instance : Decidable (Continues l all offset) :=
  inferInstanceAs (Decidable (∀ x ∈ all.getLast?, l.countP (· ≤ x) = offset))

theorem Continues.perm {l' : List α} (continues : Continues l all offset) (perm : l'.Perm l) : Continues l' all offset :=
  fun x last => (perm.countP_eq _).trans (continues x last)

/-- The elements up to `x` come first in an ascending list, and the offset of
    their number skips just these. -/
theorem drop_countP_le (ascending : l.Pairwise (· < ·)) (x : α) : l.drop (l.countP (· ≤ x)) = l.filter (x < ·) := by
  induction l with
  | nil => rfl
  | cons y rest ih =>
    obtain ⟨first, ascending⟩ := pairwise_cons.mp ascending
    by_cases before : y ≤ x
    · have skipped : ¬ x < y := not_lt.mpr before
      simpa [before, skipped] using ih ascending
    · have after : x < y := not_le.mp before
      have rest_after : ∀ z ∈ rest, x < z := fun z member => after.trans (first z member)
      have none : rest.countP (· ≤ x) = 0 := countP_eq_zero.mpr fun z member => by simpa using rest_after z member
      have all : rest.filter (x < ·) = rest := filter_eq_self.mpr fun z member => by simpa using rest_after z member
      simp [before, after, none, all]

theorem le_getLast {x y : α} (ascending : all.Pairwise (· < ·)) (last : x ∈ all.getLast?) (member : y ∈ all) : y ≤ x := by
  obtain ⟨front, rfl⟩ := getLast?_eq_some_iff.mp last
  rcases mem_append.mp member with early | late
  · exact le_of_lt ((pairwise_append.mp ascending).2.2 y early x (by simp))
  · exact le_of_eq (by simpa using late)

/-- A page that continues what was read holds elements beyond it, in order. -/
theorem mem_page (ascending : l.Pairwise (· < ·)) (continues : Continues l all offset) {x y : α}
    (last : x ∈ all.getLast?) (member : y ∈ page l offset size) : x < y := by
  have beyond : y ∈ l.drop offset := mem_of_mem_take member
  rw [← continues x last, drop_countP_le ascending] at beyond
  simpa using (mem_filter.mp beyond).2

theorem append_page_ascending (ascending : l.Pairwise (· < ·)) (sofar : all.Pairwise (· < ·))
    (continues : Continues l all offset) : (all ++ page l offset size).Pairwise (· < ·) := by
  refine pairwise_append.mpr ⟨sofar, (ascending.sublist (drop_sublist _ _)).sublist (take_sublist _ _), ?_⟩
  intro y read z member
  cases last : all.getLast? with
  | none => simp [getLast?_eq_none_iff.mp last] at read
  | some x => exact lt_of_le_of_lt (le_getLast sofar last read) (mem_page ascending continues last member)

/-- An element of the list that lay ahead is on the page, or the page is full and it still lies ahead. -/
theorem read_or_ahead (ascending : l.Pairwise (· < ·)) (continues : Continues l all offset) (start : all = [] → offset = 0)
    {y : α} (member : y ∈ l) (ahead : ∀ z ∈ all, z < y) :
    y ∈ page l offset size ∨ (page l offset size).length = size ∧ ∀ z ∈ all ++ page l offset size, z < y := by
  have beyond : y ∈ l.drop offset := by
    cases last : all.getLast? with
    | none =>
      rw [start (getLast?_eq_none_iff.mp last)]
      exact member
    | some x =>
      rw [← continues x last, drop_countP_le ascending]
      exact mem_filter.mpr ⟨member, by simpa using ahead x (mem_of_getLast? last)⟩
  rw [← take_append_drop size (l.drop offset)] at beyond
  rcases mem_append.mp beyond with here | later
  · exact .inl here
  · refine .inr ⟨?_, ?_⟩
    · have long : size < (l.drop offset).length := by
        have rest := length_pos_of_mem later
        rw [length_drop] at rest
        omega
      rw [page, length_take]
      omega
    · intro z read
      rcases mem_append.mp read with earlier | here
      · exact ahead z earlier
      · have split := ascending.sublist (drop_sublist offset l)
        rw [← take_append_drop size (l.drop offset)] at split
        exact (pairwise_append.mp split).2.2 z here y later

end Microserver.Paging
