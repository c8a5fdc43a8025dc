import Mathlib.Algebra.Ring.Nat
import Mathlib.Data.List.Basic
import VirtualShell.Calendar.Date

/-!
# Day numbers and dates

The year of a day is found by a quotient that is off by one at most (`yearOfDay_spec`), and the
months before a day by taking their lengths off one after another (`splitMonths_spec`). So the date
of a day number is one that the calendar has, and its day number is the one it came from
(`Date.toDays_ofDays`).
-/

namespace VirtualShell.Calendar

theorem isLeap_eq_true {y : Int} :
    isLeap y = true ↔ (y % 4 = 0 ∧ y % 100 ≠ 0) ∨ y % 400 = 0 := by
  simp [isLeap]

/-- The length of a year. -/
def yearLength (leap : Bool) : Nat := if leap then 366 else 365

theorem daysBeforeYear_succ (y : Int) :
    daysBeforeYear (y + 1) = daysBeforeYear y + yearLength (isLeap y) := by
  unfold daysBeforeYear yearLength
  cases hleap : isLeap y with
  | true =>
    rw [isLeap_eq_true] at hleap
    simp only [if_true]
    omega
  | false =>
    have hleap' : ¬ ((y % 4 = 0 ∧ y % 100 ≠ 0) ∨ y % 400 = 0) := by
      rw [← isLeap_eq_true, hleap]
      exact Bool.false_ne_true
    simp only [Bool.false_eq_true, if_false]
    omega

/-- Four hundred years have 146097 days; the days before a year stay near that proportion. -/
theorem daysBeforeYear_bounds (y : Int) : 146097 * y - 396 ≤ 400 * daysBeforeYear y ∧
    400 * daysBeforeYear y ≤ 146097 * y + 699 := by
  unfold daysBeforeYear
  omega

/-- A day lies in its year. -/
theorem yearOfDay_spec (n : Int) :
    daysBeforeYear (yearOfDay n) ≤ n ∧ n < daysBeforeYear (yearOfDay n + 1) := by
  have hbelow := (daysBeforeYear_bounds (400 * n / 146097 - 1)).2
  have habove := (daysBeforeYear_bounds (400 * n / 146097 + 1 + 1)).1
  unfold yearOfDay
  dsimp only
  split_ifs with h₁ h₂
  · rw [Int.sub_add_cancel]
    omega
  · omega
  · omega

/-- Taking months off a day of the year leaves a day of one month, and the months before it make up
the difference. -/
theorem splitMonths_spec {lengths : List Nat} {d : Nat} (h : d < lengths.sum) :
    (splitMonths lengths d).1 < lengths.length ∧
      (splitMonths lengths d).2 < lengths.getD (splitMonths lengths d).1 0 ∧
      (lengths.take (splitMonths lengths d).1).sum + (splitMonths lengths d).2 = d := by
  induction lengths generalizing d with
  | nil => exact absurd h (Nat.not_lt_zero d)
  | cons l ls ih =>
    rw [List.sum_cons] at h
    unfold splitMonths
    split
    · next hd => exact ⟨Nat.succ_pos _, hd, by simp⟩
    · next hd =>
      obtain ⟨hmonth, hday, hsum⟩ := ih (d := d - l) (by omega)
      refine ⟨by simpa using hmonth, by simpa using hday, ?_⟩
      dsimp only
      rw [List.take_succ_cons, List.sum_cons]
      omega

theorem sum_monthLengths (leap : Bool) : (monthLengths leap).sum = yearLength leap := by
  cases leap <;> rfl

namespace Date

theorem dayOfYear_eq (d : Date) : d.dayOfYear =
    ((monthLengths (isLeap d.year)).take (d.month - 1)).sum + (d.day - 1) := by
  rw [dayOfYear, List.sum_eq_foldl]

/-- A day number and the parts of its date. -/
theorem ofDays_spec (days : Int) : (ofDays days).IsValid ∧ (ofDays days).toDays = days := by
  obtain ⟨hfrom, hto⟩ := yearOfDay_spec (days + epochDay)
  rw [daysBeforeYear_succ] at hto
  set year := yearOfDay (days + epochDay) with hyear
  set d := (days + epochDay - daysBeforeYear year).toNat with hd
  have hlt : d < (monthLengths (isLeap year)).sum := by
    rw [sum_monthLengths]
    omega
  obtain ⟨hmonth, hday, hsum⟩ := splitMonths_spec hlt
  have hdate : ofDays days = ⟨year, (splitMonths (monthLengths (isLeap year)) d).1 + 1,
      (splitMonths (monthLengths (isLeap year)) d).2 + 1⟩ := rfl
  have hlength : (monthLengths (isLeap year)).length = 12 := rfl
  rw [hdate]
  refine ⟨⟨Nat.succ_pos _, ?_, Nat.succ_pos _, ?_⟩, ?_⟩
  · rw [← hlength]
    exact hmonth
  · exact hday
  · rw [toDays, dayOfYear_eq]
    simp only [Nat.add_sub_cancel, hsum]
    omega

theorem isValid_ofDays (days : Int) : (ofDays days).IsValid := (ofDays_spec days).1

theorem toDays_ofDays (days : Int) : (ofDays days).toDays = days := (ofDays_spec days).2

theorem IsValid.day_le {d : Date} (h : d.IsValid) : d.day ≤ 31 := by
  obtain ⟨hmonth, hmonth', -, hday⟩ := h
  have hall : ∀ (leap : Bool) (i : Fin 12), (monthLengths leap).getD i.val 0 ≤ 31 := by decide
  exact Nat.le_trans hday (hall (isLeap d.year) ⟨d.month - 1, by omega⟩)

end Date

end VirtualShell.Calendar
