import Mathlib.Order.Monotone.Basic
import Microserver.Backups

/-!
The names of backups as a clock. The date of a day rises with the day, and a name
is the date and the time of the day in fields of fixed widths; so names with years
of four digits are ordered as the times they are made from.
-/
namespace Microserver.Timestamps
open Microserver.Backups Microserver.FixedWidth

/-! ### Years -/

/-- The day of an era without the leap days before it. -/
def flattened (day : Nat) : Nat := day - day / 1460 + day / 36524 - day / 146096

/-- The first day of a year in its era. -/
def yearStart (year : Nat) : Nat := 365 * year + year / 4 - year / 100 + year / 400

def yearOfEra (day : Nat) : Nat := flattened day / 365

def dayOfYear (day : Nat) : Nat := day - yearStart (yearOfEra day)

theorem flattened_monotone : Monotone flattened := by
  refine monotone_nat_of_le_succ fun day => ?_
  unfold flattened
  omega

theorem flattened_yearStart : ∀ year < 401, flattened (yearStart year) = 365 * year := by
  decide +kernel

theorem flattened_yearEnd : ∀ year < 400, flattened (yearStart (year + 1) - 1) < 365 * (year + 1) := by
  decide +kernel

/-- A day lies in its year. -/
theorem yearOfEra_bounds {day : Nat} (inside : day < 146097) :
    yearOfEra day < 400 ∧ yearStart (yearOfEra day) ≤ day ∧ day < yearStart (yearOfEra day + 1) := by
  have last : flattened day ≤ flattened 146096 := flattened_monotone (by omega)
  have final : flattened 146096 = 145999 := by decide
  have year : yearOfEra day < 400 := by
    unfold yearOfEra
    omega
  have below : 365 * yearOfEra day ≤ flattened day := Nat.mul_div_le _ _
  have above : flattened day < 365 * (yearOfEra day + 1) := by
    unfold yearOfEra
    omega
  refine ⟨year, ?_, ?_⟩
  · by_contra before
    cases same : yearOfEra day with
    | zero =>
      rw [same] at before
      exact before (Nat.zero_le _)
    | succ earlier =>
      rw [same] at before below year
      have sooner : flattened day ≤ flattened (yearStart (earlier + 1) - 1) := flattened_monotone (by omega)
      have ended := flattened_yearEnd earlier (by omega)
      omega
  · by_contra after
    have later := flattened_monotone (Nat.not_lt.mp after)
    rw [flattened_yearStart _ (by omega)] at later
    omega

theorem yearStart_succ : ∀ year < 400, yearStart (year + 1) ≤ yearStart year + 366 := by
  decide +kernel

theorem dayOfYear_le {day : Nat} (inside : day < 146097) : dayOfYear day ≤ 365 := by
  obtain ⟨year, start, before⟩ := yearOfEra_bounds inside
  have long := yearStart_succ _ year
  unfold dayOfYear
  omega

/-- Later days of an era lie later in the year, or in a later year. -/
theorem era_lt {day day' : Nat} (inside : day' < 146097) (later : day < day') :
    yearOfEra day < yearOfEra day' ∨ yearOfEra day = yearOfEra day' ∧ dayOfYear day < dayOfYear day' := by
  obtain ⟨-, start, -⟩ := yearOfEra_bounds (Nat.lt_trans later inside)
  have years : yearOfEra day ≤ yearOfEra day' := Nat.div_le_div_right (flattened_monotone later.le)
  rcases Nat.lt_or_eq_of_le years with less | same
  · exact .inl less
  · refine .inr ⟨same, ?_⟩
    unfold dayOfYear
    rw [← same]
    omega

/-! ### Dates -/

/-- Months and days in one number, in years that begin in March. -/
def dateCode (day : Nat) : Nat := 31 * ((5 * day + 2) / 153) + (day - (153 * ((5 * day + 2) / 153) + 2) / 5)

theorem dateCode_steps : ∀ day < 366, dateCode day < dateCode (day + 1) ∧ dateCode day < 372 ∧ (5 * day + 2) / 153 < 12 ∧
    (153 * ((5 * day + 2) / 153) + 2) / 5 ≤ day ∧ day - (153 * ((5 * day + 2) / 153) + 2) / 5 < 31 := by
  decide +kernel

theorem dateCode_lt {day day' : Nat} (inside : day' < 367) (later : day < day') : dateCode day < dateCode day' := by
  induction day', later using Nat.le_induction with
  | base => exact (dateCode_steps day (by omega)).1
  | succ next reached ih =>
    have step := (dateCode_steps next (by omega)).1
    have before := ih (by omega)
    omega

/-- A date in one number. -/
def code (date : Int × Nat × Nat) : Int := 372 * date.1 + 31 * date.2.1 + date.2.2

/-- The day of the era of a day since the epoch. -/
def eraDay (day : Int) : Nat := ((day + 719468) % 146097).toNat

theorem eraDay_lt (day : Int) : eraDay day < 146097 := by
  unfold eraDay
  omega

theorem civil_eq (day : Int) : civil day =
    let era := (day + 719468) / 146097
    let month := (5 * dayOfYear (eraDay day) + 2) / 153
    (if month < 10 then (yearOfEra (eraDay day) : Int) + era * 400 else yearOfEra (eraDay day) + era * 400 + 1,
      if month < 10 then month + 3 else month - 9, dayOfYear (eraDay day) - (153 * month + 2) / 5 + 1) := by
  have year := (yearOfEra_bounds (eraDay_lt day)).1
  have start : yearStart (yearOfEra (eraDay day)) =
      365 * yearOfEra (eraDay day) + yearOfEra (eraDay day) / 4 - yearOfEra (eraDay day) / 100 := by
    unfold yearStart
    omega
  unfold dayOfYear
  rw [start]
  rfl

theorem civil_ranges (day : Int) : 1 ≤ (civil day).2.1 ∧ (civil day).2.1 ≤ 12 ∧ 1 ≤ (civil day).2.2 ∧ (civil day).2.2 ≤ 31 := by
  obtain ⟨-, -, month, -, ofMonth⟩ := dateCode_steps _ (Nat.lt_succ_of_le (dayOfYear_le (eraDay_lt day)))
  rw [civil_eq]
  dsimp only
  split <;> omega

theorem code_civil (day : Int) : code (civil day) =
    372 * (yearOfEra (eraDay day) + (day + 719468) / 146097 * 400) + dateCode (dayOfYear (eraDay day)) + 94 := by
  obtain ⟨-, -, month, start, -⟩ := dateCode_steps _ (Nat.lt_succ_of_le (dayOfYear_le (eraDay_lt day)))
  rw [civil_eq]
  unfold code dateCode
  dsimp only
  split
  · push_cast
    omega
  · push_cast
    omega

/-- Dates rise. -/
theorem code_civil_lt {day day' : Int} (later : day < day') : code (civil day) < code (civil day') := by
  have small := (dateCode_steps _ (Nat.lt_succ_of_le (dayOfYear_le (eraDay_lt day)))).2.1
  obtain ⟨year, -, -⟩ := yearOfEra_bounds (eraDay_lt day)
  rw [code_civil, code_civil]
  by_cases era : (day + 719468) / 146097 < (day' + 719468) / 146097
  · omega
  · have same : (day + 719468) / 146097 = (day' + 719468) / 146097 := by omega
    have ofEra : eraDay day < eraDay day' := by
      unfold eraDay
      omega
    rcases era_lt (eraDay_lt day') ofEra with less | ⟨equal, less⟩
    · omega
    · have codes := dateCode_lt (Nat.lt_of_le_of_lt (dayOfYear_le (eraDay_lt day')) (by decide)) less
      omega

/-! ### Names -/

/-- The day since the epoch. -/
def dayOf (t : Int) : Int := t / 1000000000 / 86400

/-- The second of the day. -/
def secondOf (t : Int) : Nat := (t / 1000000000 % 86400).toNat

/-- The numbers in the name of a backup. -/
def fields (t : Int) : List Nat :=
  [(civil (dayOf t)).1.natAbs, (civil (dayOf t)).2.1, (civil (dayOf t)).2.2, secondOf t / 3600, secondOf t / 60 % 60, secondOf t % 60,
    (t % 1000000000).toNat]

def nameFormat : Format := [(4, []), (2, []), (2, ['-']), (2, []), (2, []), (2, ['.']), (9, backupSuffix.toList)]

/-- The year can be written in four digits. -/
def FourDigitYear (t : Int) : Prop := 0 ≤ (civil (dayOf t)).1 ∧ (civil (dayOf t)).1 ≤ 9999

theorem padded_toList (width n : Nat) : (padded width n).toList = digits width n := String.toList_ofList

theorem backupName_toList {t : Int} (year : FourDigitYear t) :
    (backupName t).toList = backupPrefix.toList ++ render nameFormat (fields t) := by
  have sign : (if (civil (dayOf t)).1 < 0 then "-" else "") = "" := if_neg (Int.not_lt.mpr year.1)
  have text : formatUTC t = (if (civil (dayOf t)).1 < 0 then "-" else "") ++ padded 4 (civil (dayOf t)).1.natAbs ++
      padded 2 (civil (dayOf t)).2.1 ++ padded 2 (civil (dayOf t)).2.2 ++ "-" ++ padded 2 (secondOf t / 3600) ++
      padded 2 (secondOf t / 60 % 60) ++ padded 2 (secondOf t % 60) ++ "." ++ padded 9 (t % 1000000000).toNat := rfl
  unfold backupName
  rw [text, sign]
  simp only [String.toList_append, padded_toList, List.append_assoc]
  rfl

theorem fields_fit {t : Int} (year : FourDigitYear t) : Fits nameFormat (fields t) := by
  obtain ⟨-, month, -, day⟩ := civil_ranges (dayOf t)
  obtain ⟨first, last⟩ := year
  have second : secondOf t < 86400 := by
    unfold secondOf
    omega
  unfold Fits nameFormat fields
  simp only [List.forall₂_cons, List.Forall₂.nil, and_true]
  omega

/-- The numbers rise with the time. -/
theorem fields_lt {t t' : Int} (year : FourDigitYear t) (year' : FourDigitYear t') (later : t < t') : fields t < fields t' := by
  have years := year.1
  have years' := year'.1
  unfold fields
  simp only [List.cons_lt_cons_iff, List.not_lt_nil, and_false, or_false]
  by_cases days : dayOf t < dayOf t'
  · have codes := code_civil_lt days
    have ranges := civil_ranges (dayOf t)
    have ranges' := civil_ranges (dayOf t')
    unfold code at codes
    omega
  · have same : dayOf t = dayOf t' := by
      unfold dayOf at days ⊢
      omega
    have seconds : secondOf t < secondOf t' ∨ secondOf t = secondOf t' ∧ t % 1000000000 < t' % 1000000000 := by
      unfold dayOf at same
      unfold secondOf
      omega
    have ofDay : secondOf t' < 86400 := by
      unfold secondOf
      omega
    rw [same]
    omega

theorem backupName_lt_of_lt {t t' : Int} (year : FourDigitYear t) (year' : FourDigitYear t') (later : t < t') :
    backupName t < backupName t' := by
  rw [String.lt_iff_toList_lt, backupName_toList year, backupName_toList year', append_left_lt_iff,
    render_lt_iff (fields_fit year) (fields_fit year')]
  exact fields_lt year year' later

/-- Names are ordered as the times they are made from. -/
theorem backupName_lt_backupName_iff {t t' : Int} (year : FourDigitYear t) (year' : FourDigitYear t') :
    backupName t < backupName t' ↔ t < t' := by
  refine ⟨fun lt => ?_, backupName_lt_of_lt year year'⟩
  rcases lt_trichotomy t t' with less | rfl | greater
  · exact less
  · exact absurd lt (lt_irrefl _)
  · exact absurd lt (lt_asymm (backupName_lt_of_lt year' year greater))

end Microserver.Timestamps
