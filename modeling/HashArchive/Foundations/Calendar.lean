import Mathlib.Algebra.BigOperators.Group.List.Basic
import Mathlib.Algebra.Ring.Nat

/-!
# The calendar

A date of the Gregorian calendar is a year, a month and a day that the month has. Counting the
days from the first of January 1970 on, before and after, gives each date a number
(`Date.toDays`), and each number is that of one date (`toDays_ofDays`, `ofDays_toDays`).

A cycle of 400 years, from 2001 on, has 146097 days. `yearDay` takes it apart into centuries, four
years and years, of which the last of each may be longer than the others. The months are the parts
of a year, and `locate` finds the part in which a day is.
-/

set_option autoImplicit false

namespace HashArchive.Calendar

/-! ## Parts of given lengths -/

/-- The part in which a position is, of parts with these lengths, and the position in it. -/
def locate : List ℕ → ℕ → Option (ℕ × ℕ)
  | [], _ => none
  | length :: lengths, position =>
    if position < length then some (0, position)
    else (locate lengths (position - length)).map fun found => (found.1 + 1, found.2)

/-- **What is located**: the position is in the part, after the parts before it. -/
theorem locate_eq_some_iff {lengths : List ℕ} {position part inside : ℕ} :
    locate lengths position = some (part, inside) ↔
      ∃ length, lengths[part]? = some length ∧ inside < length ∧
        position = (lengths.take part).sum + inside := by
  induction lengths generalizing position part with
  | nil => simp [locate]
  | cons first lengths ih =>
      by_cases here : position < first
      · rw [locate, if_pos here]
        constructor
        · intro same
          cases same
          exact ⟨first, rfl, here, (Nat.zero_add _).symm⟩
        · rintro ⟨length, held, within, rfl⟩
          cases part with
          | zero =>
              cases held
              simp
          | succ part =>
              simp only [List.take_succ_cons, List.sum_cons] at here
              omega
      · rw [locate, if_neg here, Option.map_eq_some_iff]
        constructor
        · rintro ⟨⟨part, inside⟩, found, ⟨⟩⟩
          obtain ⟨length, held, within, split⟩ := ih.mp found
          refine ⟨length, held, within, ?_⟩
          rw [List.take_succ_cons, List.sum_cons, Nat.add_assoc, ← split]
          omega
        · rintro ⟨length, held, within, rfl⟩
          cases part with
          | zero =>
              cases held
              simp only [List.take_zero, List.sum_nil] at here
              omega
          | succ part =>
              refine ⟨(part, inside), ih.mpr ⟨length, held, within, ?_⟩, rfl⟩
              rw [List.take_succ_cons, List.sum_cons]
              omega

/-- A position within the parts is located. -/
theorem exists_locate {lengths : List ℕ} {position : ℕ} (within : position < lengths.sum) :
    ∃ found, locate lengths position = some found := by
  induction lengths generalizing position with
  | nil => exact absurd within (Nat.not_lt_zero position)
  | cons first lengths ih =>
      by_cases here : position < first
      · exact ⟨_, if_pos here⟩
      · rw [List.sum_cons] at within
        obtain ⟨found, located⟩ := @ih (position - first) (by omega)
        exact ⟨_, by rw [locate, if_neg here, located, Option.map_some]⟩

/-! ## Years -/

/-- A year that has a 29th of February. -/
def IsLeap (year : ℤ) : Prop := year % 4 = 0 ∧ (year % 100 ≠ 0 ∨ year % 400 = 0)

instance (year : ℤ) : Decidable (IsLeap year) :=
  inferInstanceAs (Decidable (year % 4 = 0 ∧ (year % 100 ≠ 0 ∨ year % 400 = 0)))

/-- The lengths of the months of a year. -/
def monthLengths (year : ℤ) : List ℕ :=
  [31, if IsLeap year then 29 else 28, 31, 30, 31, 30, 31, 31, 30, 31, 30, 31]

theorem sum_monthLengths (year : ℤ) :
    (monthLengths year).sum = if IsLeap year then 366 else 365 := by
  unfold monthLengths
  split_ifs <;> rfl

/-- The days from the start of 1970 to the start of a year. -/
def yearStart (year : ℤ) : ℤ :=
  365 * (year - 1970) + (year - 1) / 4 - (year - 1) / 100 + (year - 1) / 400 - 477

section Cycle

variable {cycle century fours year : ℤ} (centuries : 0 ≤ century ∧ century ≤ 3)
  (quads : 0 ≤ fours ∧ fours ≤ 24) (years : 0 ≤ year ∧ year ≤ 3)
include centuries quads years

/-- The start of a year by its place in a cycle. -/
theorem yearStart_place : yearStart (2001 + 400 * cycle + 100 * century + 4 * fours + year) =
    11323 + 146097 * cycle + 36524 * century + 1461 * fours + 365 * year := by
  have quarter : (2001 + 400 * cycle + 100 * century + 4 * fours + year - 1) / 4 =
      500 + 100 * cycle + 25 * century + fours := by omega
  have hundred : (2001 + 400 * cycle + 100 * century + 4 * fours + year - 1) / 100 =
      20 + 4 * cycle + century := by omega
  have fourHundred : (2001 + 400 * cycle + 100 * century + 4 * fours + year - 1) / 400 =
      5 + cycle := by omega
  rw [yearStart, quarter, hundred, fourHundred]
  omega

/-- The last of four years is a leap year, but the last of a century only when it is the last of
the cycle. -/
theorem isLeap_place : IsLeap (2001 + 400 * cycle + 100 * century + 4 * fours + year) ↔
    year = 3 ∧ (fours < 24 ∨ century = 3) := by
  unfold IsLeap
  omega

end Cycle

/-- The place of a day in a cycle: the century, the four years, the year and the day of it. -/
def place (inCycle : ℤ) : ℤ × ℤ × ℤ × ℤ :=
  let century := min (inCycle / 36524) 3
  let inCentury := inCycle - 36524 * century
  let year := min (inCentury % 1461 / 365) 3
  (century, inCentury / 1461, year, inCentury % 1461 - 365 * year)

theorem place_spec {inCycle : ℤ} (least : 0 ≤ inCycle) (most : inCycle < 146097) :
    ∃ century fours year day, place inCycle = (century, fours, year, day) ∧
      inCycle = 36524 * century + 1461 * fours + 365 * year + day ∧
      (0 ≤ century ∧ century ≤ 3) ∧ (0 ≤ fours ∧ fours ≤ 24) ∧ (0 ≤ year ∧ year ≤ 3) ∧
      0 ≤ day ∧ (day < 365 ∨ day = 365 ∧ year = 3 ∧ (fours < 24 ∨ century = 3)) := by
  refine ⟨_, _, _, _, rfl, ?_⟩
  generalize isCentury : min (inCycle / 36524) 3 = century
  generalize rest : inCycle - 36524 * century = inCentury
  have inBounds : 0 ≤ inCentury ∧ (inCentury < 36524 ∨ century = 3 ∧ inCentury = 36524) := by omega
  generalize isYear : min (inCentury % 1461 / 365) 3 = year
  refine ⟨by omega, by omega, by omega, by omega, by omega, ?_⟩
  by_cases short : inCentury % 1461 - 365 * year < 365
  · exact .inl short
  · exact .inr (by omega)

/-- The year in which a day is, and the days of it before. -/
def yearDay (day : ℤ) : ℤ × ℕ :=
  let (century, fours, year, rest) := place ((day - 11323) % 146097)
  (2001 + 400 * ((day - 11323) / 146097) + 100 * century + 4 * fours + year, rest.toNat)

/-- **A day is in its year**, after the days of the year before it. -/
theorem yearDay_spec (day : ℤ) : yearStart (yearDay day).1 + (yearDay day).2 = day ∧
    (yearDay day).2 < (monthLengths (yearDay day).1).sum := by
  have split := Int.emod_add_mul_ediv (day - 11323) 146097
  obtain ⟨century, fours, year, rest, placed, whole, centuries, quads, years, least, most⟩ :=
    place_spec (Int.emod_nonneg (day - 11323) (by decide))
      (Int.emod_lt_of_pos (day - 11323) (show (0 : ℤ) < 146097 by decide))
  rw [sum_monthLengths, yearDay, placed]
  constructor
  · show yearStart (2001 + 400 * _ + 100 * century + 4 * fours + year) + rest.toNat = day
    rw [yearStart_place centuries quads years]
    omega
  · split_ifs with leap
    · show rest.toNat < 366
      omega
    · show rest.toNat < 365
      rcases most with short | ⟨-, last⟩
      · omega
      · exact absurd ((isLeap_place centuries quads years).mpr last) leap

/-- A year begins when the year before it ends. -/
theorem yearStart_succ (year : ℤ) :
    yearStart (year + 1) = yearStart year + (monthLengths year).sum := by
  rw [sum_monthLengths]
  unfold yearStart
  split_ifs with leap
  · unfold IsLeap at leap
    omega
  · unfold IsLeap at leap
    omega

theorem yearStart_add_le (year : ℤ) (years : ℕ) : yearStart year ≤ yearStart (year + years) := by
  induction years with
  | zero => exact Int.le_of_eq (congrArg yearStart (Int.add_zero year).symm)
  | succ years ih =>
      rw [Int.natCast_succ, ← Int.add_assoc, yearStart_succ]
      omega

/-- A day is in one year only. -/
theorem eq_of_yearStart {first second : ℤ} {inFirst inSecond : ℕ}
    (firstWithin : inFirst < (monthLengths first).sum)
    (secondWithin : inSecond < (monthLengths second).sum)
    (same : yearStart first + inFirst = yearStart second + inSecond) :
    first = second ∧ inFirst = inSecond := by
  have apart {earlier later : ℤ} (before : earlier < later) :
      yearStart earlier + (monthLengths earlier).sum ≤ yearStart later := by
    have reach := yearStart_add_le (earlier + 1) (later - (earlier + 1)).toNat
    have there : earlier + 1 + (later - (earlier + 1)).toNat = later := by omega
    rwa [yearStart_succ, there] at reach
  rcases Int.lt_trichotomy first second with before | rfl | after
  · have := apart before
    omega
  · exact ⟨rfl, by omega⟩
  · have := apart after
    omega

/-! ## Dates -/

/-- A date. The months count from 0 on, the days of a month from 1 on. -/
structure Date where
  year : ℤ
  month : ℕ
  day : ℕ
  valid : ∃ length, (monthLengths year)[month]? = some length ∧ 1 ≤ day ∧ day ≤ length

namespace Date

theorem ext {first second : Date} (year : first.year = second.year)
    (month : first.month = second.month) (day : first.day = second.day) : first = second := by
  cases first
  cases second
  cases year
  cases month
  cases day
  rfl

/-- The days of the year before a date. -/
def dayOfYear (date : Date) : ℕ := ((monthLengths date.year).take date.month).sum + (date.day - 1)

/-- The days from the first of January 1970 to a date. -/
def toDays (date : Date) : ℤ := yearStart date.year + date.dayOfYear

theorem locate_dayOfYear (date : Date) :
    locate (monthLengths date.year) date.dayOfYear = some (date.month, date.day - 1) := by
  obtain ⟨length, held, least, most⟩ := date.valid
  exact locate_eq_some_iff.mpr ⟨length, held, by omega, rfl⟩

theorem dayOfYear_lt (date : Date) : date.dayOfYear < (monthLengths date.year).sum := by
  obtain ⟨length, held, least, most⟩ := date.valid
  have split : (monthLengths date.year).sum =
      ((monthLengths date.year).take date.month).sum +
        (length + ((monthLengths date.year).drop (date.month + 1)).sum) := by
    obtain ⟨within, rfl⟩ := List.getElem?_eq_some_iff.mp held
    rw [← List.sum_cons, ← List.drop_eq_getElem_cons within, ← List.sum_append,
      List.take_append_drop]
  rw [split, dayOfYear]
  omega

/-- The months of its year have a day. -/
theorem locate_yearDay_ne_none (day : ℤ) :
    locate (monthLengths (yearDay day).1) (yearDay day).2 ≠ none := by
  obtain ⟨found, located⟩ := exists_locate (yearDay_spec day).2
  rw [located]
  exact Option.some_ne_none found

theorem valid_of_locate {year : ℤ} {inYear month inside : ℕ}
    (located : locate (monthLengths year) inYear = some (month, inside)) :
    ∃ length, (monthLengths year)[month]? = some length ∧ 1 ≤ inside + 1 ∧ inside + 1 ≤ length := by
  obtain ⟨length, held, less, -⟩ := locate_eq_some_iff.mp located
  exact ⟨length, held, Nat.succ_pos inside, less⟩

/-- The date of a day. -/
def ofDays (day : ℤ) : Date :=
  match located : locate (monthLengths (yearDay day).1) (yearDay day).2 with
  | some (month, inside) => ⟨(yearDay day).1, month, inside + 1, valid_of_locate located⟩
  | none => absurd located (locate_yearDay_ne_none day)

@[simp] theorem year_ofDays (day : ℤ) : (ofDays day).year = (yearDay day).1 := by
  unfold ofDays
  split
  · rfl
  · rename_i located
    exact absurd located (locate_yearDay_ne_none day)

/-- **Each day has a date.** -/
@[simp] theorem toDays_ofDays (day : ℤ) : (ofDays day).toDays = day := by
  obtain ⟨whole, -⟩ := yearDay_spec day
  unfold ofDays
  split
  · rename_i month inside located
    obtain ⟨length, held, less, split⟩ := locate_eq_some_iff.mp located
    rw [toDays, dayOfYear, Nat.add_sub_cancel, ← split, whole]
  · rename_i located
    exact absurd located (locate_yearDay_ne_none day)

theorem toDays_injective {first second : Date} (same : first.toDays = second.toDays) :
    first = second := by
  obtain ⟨year, inYear⟩ := eq_of_yearStart first.dayOfYear_lt second.dayOfYear_lt same
  have located := first.locate_dayOfYear
  rw [year, inYear, second.locate_dayOfYear] at located
  obtain ⟨month, day⟩ := Prod.mk.inj (Option.some.inj located)
  obtain ⟨-, -, least, -⟩ := first.valid
  obtain ⟨-, -, leastSecond, -⟩ := second.valid
  exact ext year month.symm (by omega)

/-- **A date has one number**, and a number one date. -/
@[simp] theorem ofDays_toDays (date : Date) : ofDays date.toDays = date :=
  toDays_injective (toDays_ofDays date.toDays)

theorem ofDays_inj {first second : ℤ} : ofDays first = ofDays second ↔ first = second :=
  ⟨fun same => by rw [← toDays_ofDays first, same, toDays_ofDays], congrArg ofDays⟩

end Date

/-- The 29th of February of 2000. -/
example : (Date.ofDays 11016).year = 2000 ∧ (Date.ofDays 11016).month = 1 ∧
    (Date.ofDays 11016).day = 29 := by decide

end HashArchive.Calendar
