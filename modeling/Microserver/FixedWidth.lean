import Mathlib.Data.List.Forall2
import Mathlib.Data.Nat.Basic
import Mathlib.Data.String.Basic

/-!
Texts of numbers in fields of fixed widths. A number is written in at least so many
digits; if all of them fit, texts of one format are ordered as the lists of their
numbers are.
-/
namespace Microserver.FixedWidth
open List

section Lists
variable {α : Type} [LinearOrder α]

theorem append_lt_append_iff {l₁ l₂ : List α} (same : l₁.length = l₂.length) (r₁ r₂ : List α) :
    l₁ ++ r₁ < l₂ ++ r₂ ↔ l₁ < l₂ ∨ l₁ = l₂ ∧ r₁ < r₂ := by
  induction l₁ generalizing l₂ with
  | nil =>
    obtain rfl := length_eq_zero_iff.mp same.symm
    simp
  | cons a l₁ ih =>
    cases l₂ with
    | nil => cases same
    | cons b l₂ =>
      rw [cons_append, cons_append, cons_lt_cons_iff, cons_lt_cons_iff, ih (Nat.succ.inj same)]
      constructor
      · rintro (lt | ⟨rfl, lt | ⟨rfl, lt⟩⟩)
        · exact .inl (.inl lt)
        · exact .inl (.inr ⟨rfl, lt⟩)
        · exact .inr ⟨rfl, lt⟩
      · rintro ((lt | ⟨rfl, lt⟩) | ⟨same, lt⟩)
        · exact .inl lt
        · exact .inr ⟨rfl, .inl lt⟩
        · cases same
          exact .inr ⟨rfl, .inr ⟨rfl, lt⟩⟩

theorem append_left_lt_iff (l r₁ r₂ : List α) : l ++ r₁ < l ++ r₂ ↔ r₁ < r₂ := by
  rw [append_lt_append_iff rfl]
  simp

end Lists

/-- A number in at least `width` digits. -/
def digits (width n : Nat) : List Char := replicate (width - (Nat.toDigits 10 n).length) '0' ++ Nat.toDigits 10 n

variable {width n m : Nat}

theorem digits_length (positive : 0 < width) (fits : n < 10 ^ width) : (digits width n).length = width := by
  have short : (Nat.toDigits 10 n).length ≤ width := (Nat.length_toDigits_le_iff (by decide) positive).mpr fits
  rw [digits, length_append, length_replicate]
  omega

theorem digits_isDigit : ∀ c ∈ digits width n, c.isDigit = true := by
  intro c member
  rcases mem_append.mp member with zero | digit
  · rw [eq_of_mem_replicate zero]
    rfl
  · exact Nat.isDigit_of_mem_toDigits (by decide) (by decide) digit

/-- The last digit. -/
theorem digits_succ (positive : 0 < width) : digits (width + 1) n = digits width (n / 10) ++ [(n % 10).digitChar] := by
  unfold digits
  by_cases small : n < 10
  · have zero : n / 10 = 0 := by omega
    have rest : n % 10 = n := by omega
    obtain ⟨width, rfl⟩ := Nat.exists_eq_succ_of_ne_zero positive.ne'
    rw [zero, rest, Nat.toDigits_of_lt_base small, Nat.toDigits_zero, length_singleton, length_singleton, Nat.succ_sub_one,
      ← replicate_succ']
    rfl
  · rw [Nat.toDigits_of_base_le (by decide) (by omega), length_append, length_singleton, Nat.add_sub_add_right, append_assoc]

theorem digitChar_lt_iff {a b : Nat} (left : a < 10) (right : b < 10) : a.digitChar < b.digitChar ↔ a < b := by
  have all : ∀ a : Fin 10, ∀ b : Fin 10, (a : Nat).digitChar < (b : Nat).digitChar ↔ (a : Nat) < (b : Nat) := by decide
  exact all ⟨a, left⟩ ⟨b, right⟩

/-- Numbers are ordered as their digits. -/
theorem digits_lt_of_lt (positive : 0 < width) (fits : m < 10 ^ width) (lt : n < m) : digits width n < digits width m := by
  induction width, positive using Nat.le_induction generalizing n m with
  | base =>
    have left : digits 1 n = [n.digitChar] := by
      rw [digits, Nat.toDigits_of_lt_base (by omega)]
      rfl
    have right : digits 1 m = [m.digitChar] := by
      rw [digits, Nat.toDigits_of_lt_base (by omega)]
      rfl
    rw [left, right, cons_lt_cons_iff, digitChar_lt_iff (by omega) (by omega)]
    exact .inl lt
  | succ width positive ih =>
    rw [Nat.pow_succ] at fits
    have front : m / 10 < 10 ^ width := by omega
    have lengths : (digits width (n / 10)).length = (digits width (m / 10)).length := by
      rw [digits_length positive (by omega), digits_length positive front]
    rw [digits_succ positive, digits_succ positive, append_lt_append_iff lengths]
    by_cases before : n / 10 < m / 10
    · exact .inl (ih front before)
    · have same : n / 10 = m / 10 := by omega
      refine .inr ⟨by rw [same], ?_⟩
      rw [cons_lt_cons_iff, digitChar_lt_iff (by omega) (by omega)]
      exact .inl (by omega)

theorem digits_lt_iff (positive : 0 < width) (left : n < 10 ^ width) (right : m < 10 ^ width) :
    digits width n < digits width m ↔ n < m := by
  refine ⟨fun lt => ?_, digits_lt_of_lt positive right⟩
  rcases Nat.lt_trichotomy n m with less | rfl | greater
  · exact less
  · exact absurd lt (lt_irrefl _)
  · exact absurd lt (lt_asymm (digits_lt_of_lt positive left greater))

theorem digits_inj (positive : 0 < width) (left : n < 10 ^ width) (right : m < 10 ^ width)
    (same : digits width n = digits width m) : n = m := by
  rcases Nat.lt_trichotomy n m with less | equal | greater
  · exact absurd (digits_lt_of_lt positive right less) (by rw [same]; exact lt_irrefl _)
  · exact equal
  · exact absurd (digits_lt_of_lt positive left greater) (by rw [same]; exact lt_irrefl _)

/-! ### Formats -/

/-- Fields, each with its width and what stands behind it. -/
abbrev Format := List (Nat × List Char)

/-- The numbers in the fields. -/
def render : Format → List Nat → List Char
  | (width, behind) :: format, n :: ns => digits width n ++ (behind ++ render format ns)
  | _, _ => []

/-- The numbers fit into the fields. -/
def Fits (format : Format) (ns : List Nat) : Prop := Forall₂ (fun field n => 0 < field.1 ∧ n < 10 ^ field.1) format ns

/-- The texts of a format are ordered as their numbers. -/
theorem render_lt_iff {format : Format} {ns ms : List Nat} (left : Fits format ns) (right : Fits format ms) :
    render format ns < render format ms ↔ ns < ms := by
  induction left generalizing ms with
  | nil =>
    cases right
    simp [render]
  | @cons field n format ns fits rest ih =>
    cases right with
    | @cons _ m _ ms fits' rest' =>
      obtain ⟨positive, small⟩ := fits
      have lengths : (digits field.1 n).length = (digits field.1 m).length := by
        rw [digits_length positive small, digits_length positive fits'.2]
      rw [render, render, append_lt_append_iff lengths, append_left_lt_iff, ih rest', cons_lt_cons_iff,
        digits_lt_iff positive small fits'.2]
      have same : digits field.1 n = digits field.1 m ↔ n = m :=
        ⟨digits_inj positive small fits'.2, fun equal => by rw [equal]⟩
      rw [same]

end Microserver.FixedWidth
