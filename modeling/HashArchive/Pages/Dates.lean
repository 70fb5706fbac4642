import HashArchive.Foundations.Calendar
import HashArchive.Foundations.Json
import HashArchive.Foundations.Scanning
import Mathlib.Tactic.IntervalCases

/-!
# Dates

`date_html` of `page_parts.c` prints the day of a time. `gmtime_r` fails for a time whose year does
not fit an `int`, which is not checked: what is printed then comes from the stack.

`dateHtml_exact` says for which times a date is printed, that it is the date of the day in UTC, and
on which days its ordinal number is spelled as in English.
-/

set_option autoImplicit false

namespace HashArchive.Html

open Calendar Json

/-! ## The function -/

/-- What `date_html` uses of a `struct tm`. -/
structure Tm where
  tmYear : ℤ
  tmMon : ℤ
  tmMday : ℤ

/-- A value of an `int`. -/
def FitsInt (value : ℤ) : Prop := -2 ^ 31 ≤ value ∧ value < 2 ^ 31

instance (value : ℤ) : Decidable (FitsInt value) :=
  inferInstanceAs (Decidable (-2 ^ 31 ≤ value ∧ value < 2 ^ 31))

/-- The date of a time in UTC. -/
def utcDate (ts : ℤ) : Date := Date.ofDays (ts / 86400)

/-- The year of a time is an `int`, also counted from 1900 on. -/
def YearFits (ts : ℤ) : Prop := FitsInt ((utcDate ts).year - 1900) ∧ FitsInt (utcDate ts).year

/-- `gmtime_r`. It gives nothing when the year does not fit. -/
def gmtimeR (ts : ℤ) : Option Tm :=
  if FitsInt ((utcDate ts).year - 1900) then
    some ⟨(utcDate ts).year - 1900, (utcDate ts).month, (utcDate ts).day⟩
  else none

/-- `months`. -/
def months : List Str :=
  ["January".toList, "February".toList, "March".toList, "April".toList, "May".toList,
    "June".toList, "July".toList, "August".toList, "September".toList, "October".toList,
    "November".toList, "December".toList]

/-- `suffix`. -/
def suffix : List Str :=
  ["th".toList, "st".toList, "nd".toList, "rd".toList, "th".toList, "th".toList, "th".toList,
    "th".toList, "th".toList, "th".toList]

/-- `table[index]`. -/
def tableEntry (table : List Str) (index : ℤ) : Result Str :=
  match index with
  | .ofNat index =>
    match table[index]? with
    | some text => .ok text
    | none => .error (.fault .outOfBounds)
  | .negSucc _ => .error (.fault .outOfBounds)

/-- The format of `date_html`. -/
def dateText (labelEscaped month : Str) (mday : ℤ) (ordinal : Str) (year : ℤ) : Str :=
  "<div class=\"date\">".toList ++ (labelEscaped ++ (month ++ ' ' :: (integerText mday ++
    ("<sup>".toList ++ (ordinal ++ ("</sup>, ".toList ++ (integerText year ++ "</div>".toList)))))))

/-- `date_html`. The local `t` holds anything before `gmtime_r` is called. -/
def dateHtml (t : Tm) (labelEscaped : Str) (ts : ℤ) : Result Str := do
  let t := (gmtimeR ts).getD t
  let month ← tableEntry months t.tmMon
  let ordinal ← tableEntry suffix (t.tmMday.tmod 10)
  if FitsInt (1900 + t.tmYear) then
    .ok (dateText labelEscaped month t.tmMday ordinal (1900 + t.tmYear))
  else .error (.fault .signedOverflow)

/-! ## What is printed -/

/-- The ordinal number of a day ends in English like this. -/
def englishOrdinal (day : ℕ) : Str :=
  if day = 11 ∨ day = 12 ∨ day = 13 then "th".toList
  else if day % 10 = 1 then "st".toList
  else if day % 10 = 2 then "nd".toList
  else if day % 10 = 3 then "rd".toList
  else "th".toList

/-- A date as `date_html` prints it. -/
def printedDate (labelEscaped : Str) (date : Date) : Str :=
  dateText labelEscaped (months.getD date.month []) date.day (suffix.getD (date.day % 10) [])
    date.year

theorem month_lt (date : Date) : date.month < months.length := by
  obtain ⟨length, held, -⟩ := date.valid
  exact (List.getElem?_eq_some_iff.mp held).1

theorem day_le (date : Date) : 1 ≤ date.day ∧ date.day ≤ 31 := by
  obtain ⟨length, held, least, most⟩ := date.valid
  have short : ∀ length ∈ monthLengths date.year, length ≤ 31 := by
    unfold monthLengths
    split_ifs <;> decide
  exact ⟨least, most.trans (short length (List.mem_of_getElem? held))⟩

theorem tableEntry_of_lt {table : List Str} {index : ℕ} (within : index < table.length) :
    tableEntry table index = .ok (table.getD index []) := by
  show (match table[index]? with | some text => Except.ok text | none => _) = _
  rw [List.getElem?_eq_getElem within, List.getD_eq_getElem?_getD, List.getElem?_eq_getElem within]
  rfl

/-- **The date of a time whose year is an `int`** is printed. -/
theorem dateHtml_of_yearFits (t : Tm) (labelEscaped : Str) {ts : ℤ} (fits : YearFits ts) :
    dateHtml t labelEscaped ts = .ok (printedDate labelEscaped (utcDate ts)) := by
  have ordinal : ((utcDate ts).day : ℤ).tmod 10 = ((utcDate ts).day % 10 : ℕ) := by
    rw [Int.tmod_eq_emod_of_nonneg (Int.natCast_nonneg _)]
    rfl
  have year : 1900 + ((utcDate ts).year - 1900) = (utcDate ts).year := by omega
  rw [dateHtml, gmtimeR, if_pos fits.1]
  simp only [Option.getD_some, ordinal, year, if_pos fits.2]
  rw [tableEntry_of_lt (month_lt (utcDate ts)),
    tableEntry_of_lt (show (utcDate ts).day % 10 < suffix.length from Nat.mod_lt _ (by decide))]
  rfl

/-- For other times it is left to the stack whether anything is printed. -/
theorem exists_dateHtml_error (labelEscaped : Str) {ts : ℤ}
    (wide : ¬ YearFits ts) : ∃ t fault, dateHtml t labelEscaped ts = .error (.fault fault) := by
  by_cases fits : FitsInt ((utcDate ts).year - 1900)
  · have overflow : ¬ FitsInt (1900 + ((utcDate ts).year - 1900)) := by
      rw [show 1900 + ((utcDate ts).year - 1900) = (utcDate ts).year by omega]
      exact fun fitsYear => wide ⟨fits, fitsYear⟩
    have ordinal : ((utcDate ts).day : ℤ).tmod 10 = ((utcDate ts).day % 10 : ℕ) := by
      rw [Int.tmod_eq_emod_of_nonneg (Int.natCast_nonneg _)]
      rfl
    refine ⟨⟨0, 0, 1⟩, .signedOverflow, ?_⟩
    rw [dateHtml, gmtimeR, if_pos fits]
    simp only [Option.getD_some, ordinal, if_neg overflow]
    rw [tableEntry_of_lt (month_lt (utcDate ts)),
      tableEntry_of_lt (show (utcDate ts).day % 10 < suffix.length from Nat.mod_lt _ (by decide))]
    rfl
  · refine ⟨⟨0, 12, 1⟩, .outOfBounds, ?_⟩
    rw [dateHtml, gmtimeR, if_neg fits]
    rfl

theorem fault_of_tableEntry {table : List Str} {index : ℤ} {failure : Failure}
    (failed : tableEntry table index = .error failure) : failure = .fault .outOfBounds := by
  unfold tableEntry at failed
  split at failed
  · split at failed
    · cases failed
    · cases failed
      rfl
  · cases failed
    rfl

/-- `date_html` does not report an error. -/
theorem fault_of_dateHtml {t : Tm} {labelEscaped : Str} {ts : ℤ} {failure : Failure}
    (failed : dateHtml t labelEscaped ts = .error failure) : ∃ fault, failure = .fault fault := by
  rcases Result.bind_eq_error.mp failed with here | ⟨month, -, failed⟩
  · exact ⟨_, fault_of_tableEntry here⟩
  rcases Result.bind_eq_error.mp failed with here | ⟨ordinal, -, failed⟩
  · exact ⟨_, fault_of_tableEntry here⟩
  split at failed
  · cases failed
  · cases failed
    exact ⟨_, rfl⟩

/-! ## Reading a date -/

theorem eq_of_months {first second : ℕ} (firstWithin : first < months.length)
    (secondWithin : second < months.length)
    (same : months.getD first [] = months.getD second []) : first = second := by
  have distinct : months.Nodup := by decide +kernel
  exact (List.getD_inj firstWithin secondWithin distinct).mp same

theorem space_notMem_months {month : ℕ} (within : month < months.length) :
    ' ' ∉ months.getD month [] := by
  have words : (months.all fun word => decide (' ' ∉ word)) = true := by decide +kernel
  have member : months.getD month [] ∈ months := by
    rw [List.getD_eq_getElem?_getD, List.getElem?_eq_getElem within]
    exact List.getElem_mem within
  exact of_decide_eq_true (List.all_eq_true.mp words _ member)

theorem integerText_append_inj {first second : ℤ} {rest other : Str}
    (delimited : Delimited rest) (delimitedOther : Delimited other)
    (same : integerText first ++ rest = integerText second ++ other) :
    first = second ∧ rest = other := by
  have read := readInteger_integerText first delimited
  rw [same, readInteger_integerText second delimitedOther] at read
  exact Prod.mk.inj (Option.some.inj read.symm)

/-- **A date can be read** from what is printed. -/
theorem printedDate_inj {labelEscaped : Str} {first second : Date} :
    printedDate labelEscaped first = printedDate labelEscaped second ↔ first = second := by
  refine ⟨fun same => ?_, congrArg _⟩
  unfold printedDate dateText at same
  have afterLabel := List.append_cancel_left (List.append_cancel_left same)
  have word (date : Date) (rest : Str) :
      (months.getD date.month [] ++ ' ' :: rest).takeWhile (· != ' ') = months.getD date.month [] :=
    takeWhile_of_stop (fun c member => bne_iff_ne.mpr fun same =>
      space_notMem_months (month_lt date) (same ▸ member)) (by rintro _ ⟨⟩; rfl)
  have month := congrArg (List.takeWhile (· != ' ')) afterLabel
  rw [word, word] at month
  rw [month] at afterLabel
  have afterMonth := (List.cons.inj (List.append_cancel_left afterLabel)).2
  have beforeTag (tag rest : Str) (opens : tag.head? = some '<') : Delimited (tag ++ rest) := by
    obtain ⟨tail, rfl⟩ := List.head?_eq_some_iff.mp opens
    exact delimited_of_head rfl
  obtain ⟨day, afterDay⟩ := integerText_append_inj (beforeTag _ _ rfl) (beforeTag _ _ rfl) afterMonth
  have sameDay : first.day = second.day := Int.ofNat.inj day
  rw [sameDay] at afterDay
  have afterOrdinal := List.append_cancel_left
    (List.append_cancel_left (List.append_cancel_left afterDay))
  obtain ⟨year, -⟩ := @integerText_append_inj _ _ "</div>".toList "</div>".toList
    (delimited_of_head rfl) (delimited_of_head rfl) afterOrdinal
  exact Date.ext year (eq_of_months (month_lt first) (month_lt second) month) sameDay

/-- The ordinal number of a day from the 11th to the 13th is the only one that is misspelled. -/
theorem suffix_eq_englishOrdinal_iff {day : ℕ} (least : 1 ≤ day) (most : day ≤ 31) :
    suffix.getD (day % 10) [] = englishOrdinal day ↔ ¬ (11 ≤ day ∧ day ≤ 13) := by
  interval_cases day <;> decide

/-- **Which dates are printed, and how.** Whatever is on the stack, the date of a time is printed
exactly when its year is an `int`, also counted from 1900 on; two times have the same text exactly
when they are on the same day in UTC; and the ordinal number is spelled as in English except on the
11th, the 12th and the 13th. -/
theorem dateHtml_exact (labelEscaped : Str) (ts : ℤ) :
    ((∀ t, ∃ text, dateHtml t labelEscaped ts = .ok text) ↔ YearFits ts) ∧
    (YearFits ts → ∀ t, dateHtml t labelEscaped ts = .ok (printedDate labelEscaped (utcDate ts)) ∧
      ∀ other, YearFits other →
        (dateHtml t labelEscaped other = dateHtml t labelEscaped ts ↔ other / 86400 = ts / 86400)) ∧
    (printedDate labelEscaped (utcDate ts) =
        dateText labelEscaped (months.getD (utcDate ts).month []) (utcDate ts).day
          (englishOrdinal (utcDate ts).day) (utcDate ts).year ↔
      ¬ (11 ≤ (utcDate ts).day ∧ (utcDate ts).day ≤ 13)) := by
  refine ⟨⟨fun printed => ?_, fun fits t => ⟨_, dateHtml_of_yearFits t labelEscaped fits⟩⟩,
    fun fits t => ⟨dateHtml_of_yearFits t labelEscaped fits, fun other fitsOther => ?_⟩, ?_⟩
  · by_contra wide
    obtain ⟨t, fault, failed⟩ := exists_dateHtml_error labelEscaped wide
    obtain ⟨text, done⟩ := printed t
    rw [failed] at done
    cases done
  · rw [dateHtml_of_yearFits t labelEscaped fits, dateHtml_of_yearFits t labelEscaped fitsOther,
      Except.ok.injEq, printedDate_inj]
    exact Date.ofDays_inj
  · rw [← suffix_eq_englishOrdinal_iff (day_le (utcDate ts)).1 (day_le (utcDate ts)).2]
    constructor
    · intro same
      unfold printedDate dateText at same
      have afterMonth := (List.cons.inj (List.append_cancel_left (List.append_cancel_left
        (List.append_cancel_left same)))).2
      exact List.append_cancel_right (List.append_cancel_left (List.append_cancel_left afterMonth))
    · intro same
      rw [printedDate, same]

/-- The 12th of August 2016. -/
theorem dateHtml_exact_twelfth : ∀ t, dateHtml t "As of ".toList 1471000000 =
    .ok "<div class=\"date\">As of August 12<sup>nd</sup>, 2016</div>".toList := by
  intro t
  have fits : YearFits 1471000000 := by
    unfold YearFits
    decide
  rw [((dateHtml_exact "As of ".toList 1471000000).2.1 fits t).1]
  decide +kernel

end HashArchive.Html
