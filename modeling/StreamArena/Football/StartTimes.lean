import StreamArena.Library.Calendar
import StreamArena.Library.Decimal
import StreamArena.Library.Outcome

/-! The start times of a provider's matches (src/football.rs), and the calendar dates of
days (src/home_bootstrap.rs). -/
namespace StreamArena.Football.StartTimes
open AsciiText Decimal Calendar

/-- Days since 1970-01-01. -/
def unixDaysFromCivil (year month day : Int) : Int :=
  let y := if month ≤ 2 then year - 1 else year
  let era := (if 0 ≤ y then y else y - 399).tdiv 400
  let yoe := y - era * 400
  let doy := (153 * (if 2 < month then month - 3 else month + 9) + 2).tdiv 5 + day - 1
  let doe := yoe * 365 + yoe.tdiv 4 - yoe.tdiv 100 + doy
  era * 146097 + doe - 719468

def civilFromUnixDays (daysSinceUnixEpoch : Int) : Civil :=
  let days := daysSinceUnixEpoch + 719468
  let era := (if 0 ≤ days then days else days - 146096) / 146097
  let dayOfEra := days - era * 146097
  let yearOfEra := (dayOfEra - dayOfEra.tdiv 1460 + dayOfEra.tdiv 36524 - dayOfEra.tdiv 146096) / 365
  let year := yearOfEra + era * 400
  let dayOfYear := dayOfEra - (365 * yearOfEra + yearOfEra.tdiv 4 - yearOfEra.tdiv 100)
  let monthPrime := (5 * dayOfYear + 2) / 153
  let day := dayOfYear - (153 * monthPrime + 2) / 5 + 1
  let month := monthPrime + if monthPrime < 10 then 3 else -9
  ⟨year + if month ≤ 2 then 1 else 0, month, day⟩

/-- The numbers of a start. -/
structure Start where
  year : Int
  month : Int
  day : Int
  hour : Int
  minute : Int
  deriving DecidableEq

def Start.date (start : Start) : Civil := ⟨start.year, start.month, start.day⟩

/-- A time that is not a number counts as zero. -/
def readStart (value : Text) : Option Start :=
  let value := trim value
  if value.isEmpty then none
  else
    let (datePart, timePart) := (splitOnce [' '] value).getD (value, "00:00".toList)
    match datePart.splitOn '-' with
    | year :: month :: day :: _ => do
      let year ← parseI64 (trim year)
      let month ← parseI64 (trim month)
      let day ← parseI64 (trim day)
      let number (index : Nat) := (parseI64 (trim ((timePart.splitOn ':')[index]?.getD ['0']))).getD 0
      some ⟨year, month, day, number 0, number 1⟩
    | _ => none

def Start.InRange (start : Start) : Prop :=
  (1 ≤ start.year ∧ start.year ≤ 9999) ∧ (1 ≤ start.month ∧ start.month ≤ 12) ∧ 1 ≤ start.day ∧ start.day ≤ 31

instance (start : Start) : Decidable start.InRange := inferInstanceAs (Decidable (_ ∧ _))

/-- A register holds no more. -/
def checked (n : Int) : Outcome Int := Outcome.guarded (i64Min ≤ n ∧ n ≤ i64Max) (.value n)

def parseCdnlivetvStartMs (value : Text) : Outcome Int := do
  let start ← Outcome.ofOption (readStart value)
  if start.InRange then
    let date ← checked (unixDaysFromCivil start.year start.month start.day * 86400)
    let hour ← checked (start.hour * 3600)
    let both ← checked (date + hour)
    let minute ← checked (start.minute * 60)
    let seconds ← checked (both + minute)
    checked (seconds * 1000)
  else .nothing

/-! The count of the days. -/

/-- The year that begins in March. -/
def marchYear (c : Civil) : Int := if c.month ≤ 2 then c.year - 1 else c.year

/-- The months from March on, from zero. -/
def monthPrime (month : Int) : Int := if 2 < month then month - 3 else month + 9

/-- The days of the year before such a month. -/
def daysBeforeMonth (monthPrime : Int) : Int := (153 * monthPrime + 2) / 5

def dayOfMarchYear (c : Civil) : Int := daysBeforeMonth (monthPrime c.month) + c.day - 1

/-- The days before a year that begins in March. -/
def daysBefore (year : Int) : Int := 365 * year + year / 4 - year / 100 + year / 400

theorem era_eq (y : Int) : (if 0 ≤ y then y else y - 399).tdiv 400 = y / 400 := by
  split
  · next h => exact Int.tdiv_eq_ediv_of_nonneg h
  · next h =>
    have heq : y - 399 = -(399 - y) := by ring
    rw [heq, Int.neg_tdiv, Int.tdiv_eq_ediv_of_nonneg (show 0 ≤ 399 - y by omega)]
    omega

theorem unixDays_eq {c : Civil} (hmonth : 1 ≤ c.month ∧ c.month ≤ 12) :
    unixDaysFromCivil c.year c.month c.day = daysBefore (marchYear c) + dayOfMarchYear c - 719468 := by
  simp only [unixDaysFromCivil, daysBefore, dayOfMarchYear, daysBeforeMonth, monthPrime, marchYear]
  rw [era_eq]
  generalize hy : (if c.month ≤ 2 then c.year - 1 else c.year) = y
  have hm : 0 ≤ 153 * (if 2 < c.month then c.month - 3 else c.month + 9) + 2 := by split <;> omega
  have hyoe : 0 ≤ y - y / 400 * 400 := by omega
  rw [Int.tdiv_eq_ediv_of_nonneg hm, Int.tdiv_eq_ediv_of_nonneg hyoe, Int.tdiv_eq_ediv_of_nonneg hyoe]
  omega

theorem daysBefore_succ (year : Int) : daysBefore (year + 1) = daysBefore year + if isLeap (year + 1) then 366 else 365 := by
  unfold daysBefore isLeap
  split_ifs <;> omega

theorem daysBefore_mono {year year' : Int} (h : year < year') : daysBefore (year + 1) ≤ daysBefore year' := by
  unfold daysBefore
  omega

/-- But for February, which stands last, a month is as long as the formula has it. -/
theorem monthLength_eq {month : Int} (h : 1 ≤ month ∧ month ≤ 12) (hne : month ≠ 2) (year : Int) :
    monthLength year month = daysBeforeMonth (monthPrime month + 1) - daysBeforeMonth (monthPrime month) := by
  obtain ⟨hfirst, hlast⟩ := h
  unfold monthLength monthPrime daysBeforeMonth
  interval_cases month <;> simp at hne ⊢

theorem dayOfMarchYear_february (year day : Int) : dayOfMarchYear ⟨year, 2, day⟩ = 336 + day := by
  simp only [dayOfMarchYear, monthPrime, daysBeforeMonth]
  norm_num
  ring

/-- A date lies within its year from March to February. -/
theorem dayOfMarchYear_bounds {c : Civil} (h : c.Valid) :
    0 ≤ dayOfMarchYear c ∧ dayOfMarchYear c < if isLeap (marchYear c + 1) then 366 else 365 := by
  obtain ⟨hmonth, hday⟩ := h
  rcases c with ⟨year, month, day⟩
  dsimp only at hmonth hday
  by_cases hne : month = 2
  · subst hne
    rw [dayOfMarchYear_february, marchYear]
    simp only [monthLength, if_true] at hday
    norm_num
    split_ifs at hday ⊢ <;> omega
  · rw [monthLength_eq hmonth hne] at hday
    have hbound : dayOfMarchYear ⟨year, month, day⟩ < 365 := by
      simp only [dayOfMarchYear, monthPrime, daysBeforeMonth] at hday ⊢
      split_ifs at hday ⊢ <;> omega
    refine ⟨?_, by split <;> omega⟩
    simp only [dayOfMarchYear, monthPrime, daysBeforeMonth]
    split <;> omega

theorem unixDays_next {c : Civil} (h : c.Valid) :
    unixDaysFromCivil c.next.year c.next.month c.next.day = unixDaysFromCivil c.year c.month c.day + 1 := by
  rw [unixDays_eq h.month, unixDays_eq h.next.month]
  obtain ⟨hmonth, hday⟩ := h
  rcases c with ⟨year, month, day⟩
  dsimp only at hmonth hday
  unfold Civil.next
  dsimp only
  split_ifs with hlast hdecember
  · simp only [marchYear, dayOfMarchYear]
    ring
  · by_cases hne : month = 2
    · subst hne
      have hsucc := daysBefore_succ (year - 1)
      simp only [monthLength, if_true] at hday hlast
      have hmarch : dayOfMarchYear ⟨year, 2 + 1, 1⟩ = 0 := rfl
      rw [dayOfMarchYear_february, hmarch]
      simp only [marchYear]
      norm_num at hsucc ⊢
      split_ifs at hsucc hday hlast <;> omega
    · rw [monthLength_eq hmonth hne] at hday hlast
      simp only [marchYear, dayOfMarchYear, monthPrime, daysBeforeMonth] at hday hlast ⊢
      split_ifs at hday hlast ⊢ <;> omega
  · have hdecember : month = 12 := by omega
    subst hdecember
    have hday' : day = 31 := by
      simp only [monthLength] at hday hlast
      norm_num at hday hlast
      omega
    subst hday'
    simp only [marchYear, dayOfMarchYear, monthPrime, daysBeforeMonth]
    norm_num
    ring

/-- Of two dates the later has the greater year from March, or the greater day in it. -/
theorem march_of_before {c c' : Civil} (h : c.Valid) (h' : c'.Valid) (hbefore : c.Before c') :
    marchYear c < marchYear c' ∨ marchYear c = marchYear c' ∧ dayOfMarchYear c < dayOfMarchYear c' := by
  obtain ⟨hmonth, hday⟩ := h
  obtain ⟨hmonth', hday'⟩ := h'
  rcases c with ⟨year, month, day⟩
  rcases c' with ⟨year', month', day'⟩
  simp only [Civil.Before] at *
  by_cases hne : month = 2
  · subst hne
    simp only [marchYear, dayOfMarchYear, monthPrime, daysBeforeMonth]
    split_ifs <;> omega
  · rw [monthLength_eq hmonth hne] at hday
    simp only [marchYear, dayOfMarchYear, monthPrime, daysBeforeMonth] at hday ⊢
    split_ifs at hday ⊢ <;> omega

theorem unixDays_strictMono {c c' : Civil} (h : c.Valid) (h' : c'.Valid) (hbefore : c.Before c') :
    unixDaysFromCivil c.year c.month c.day < unixDaysFromCivil c'.year c'.month c'.day := by
  rw [unixDays_eq h.month, unixDays_eq h'.month]
  have hbounds := dayOfMarchYear_bounds h
  have hbounds' := dayOfMarchYear_bounds h'
  have hsucc := daysBefore_succ (marchYear c)
  obtain hyear | ⟨hyear, hless⟩ := march_of_before h h' hbefore
  · have hmono := daysBefore_mono hyear
    split_ifs at hsucc hbounds <;> omega
  · rw [hyear]
    omega

theorem unixDays_injective {c c' : Civil} (h : c.Valid) (h' : c'.Valid)
    (heq : unixDaysFromCivil c.year c.month c.day = unixDaysFromCivil c'.year c'.month c'.day) : c = c' := by
  obtain hless | hsame | hless := c.before_trichotomy c'
  · exact absurd heq (unixDays_strictMono h h' hless).ne
  · exact hsame
  · exact absurd heq (unixDays_strictMono h' h hless).ne'

def unixEpoch : Civil := ⟨1970, 1, 1⟩

/-- The formula counts the days from 1970-01-01. -/
theorem dayCount_unixDays {c : Civil} (h : c.Valid) {n : Int} :
    DayCount unixEpoch c n ↔ unixDaysFromCivil c.year c.month c.day = n :=
  dayCount_iff (f := fun c => unixDaysFromCivil c.year c.month c.day) (by decide) (by decide) (fun _ => unixDays_next)
    (fun _ _ => unixDays_injective) h

/-! The parts of a day within its era of 400 years. -/

def yearOfEra (dayOfEra : Int) : Int := (dayOfEra - dayOfEra / 1460 + dayOfEra / 36524 - dayOfEra / 146096) / 365

def dayOfYear (dayOfEra : Int) : Int :=
  dayOfEra - (365 * yearOfEra dayOfEra + yearOfEra dayOfEra / 4 - yearOfEra dayOfEra / 100)

theorem yearOfEra_mono {n m : Int} (h : n ≤ m) : yearOfEra n ≤ yearOfEra m := by
  have hn : n / 146096 = n / 36524 / 4 := by omega
  have hm : m / 146096 = m / 36524 / 4 := by omega
  unfold yearOfEra
  rw [hn, hm]
  omega

/-- A day of an era by its century, its four years, its year and its day. -/
theorem exists_parts {n : Int} (h : 0 ≤ n ∧ n ≤ 146096) : ∃ century quad year day : Int,
    (0 ≤ century ∧ century ≤ 3) ∧ (0 ≤ quad ∧ quad ≤ 24) ∧ (0 ≤ year ∧ year ≤ 3) ∧ (0 ≤ day ∧ day ≤ 365) ∧
      (day = 365 → year = 3 ∧ (quad ≠ 24 ∨ century = 3)) ∧ n = 36524 * century + 1461 * quad + 365 * year + day := by
  obtain ⟨century, r, hcentury, hr, heq⟩ : ∃ century r : Int, (0 ≤ century ∧ century ≤ 3) ∧
      (0 ≤ r ∧ r ≤ 36524 ∧ (r = 36524 → century = 3)) ∧ n = 36524 * century + r := by
    refine ⟨min 3 (n / 36524), n - 36524 * min 3 (n / 36524), ?_, ?_, ?_⟩ <;> omega
  refine ⟨century, r / 1461, min 3 (r % 1461 / 365), r % 1461 - 365 * min 3 (r % 1461 / 365), hcentury, ?_, ?_, ?_, ?_, ?_⟩ <;> omega

theorem yearOfEra_parts {century quad year day : Int} (hcentury : 0 ≤ century ∧ century ≤ 3) (hquad : 0 ≤ quad ∧ quad ≤ 24)
    (hyear : 0 ≤ year ∧ year ≤ 3) (hday : 0 ≤ day ∧ day ≤ 365) (hleap : day = 365 → year = 3 ∧ (quad ≠ 24 ∨ century = 3)) :
    yearOfEra (36524 * century + 1461 * quad + 365 * year + day) = 100 * century + 4 * quad + year := by
  generalize hn : 36524 * century + 1461 * quad + 365 * year + day = n
  have hlast : n / 36524 = century + (if n = 146096 then 1 else 0) := by split_ifs <;> omega
  have hera : n / 146096 = if n = 146096 then 1 else 0 := by split_ifs <;> omega
  have hquads : n / 1460 = 25 * century + quad + (if 1460 ≤ 24 * century + quad + 365 * year + day then 1 else 0) := by
    split_ifs <;> omega
  rw [yearOfEra, hlast, hera, hquads]
  split_ifs <;> omega

theorem yearOfEra_of_le {n : Int} (h : 0 ≤ n ∧ n ≤ 146096) :
    (0 ≤ yearOfEra n ∧ yearOfEra n ≤ 399) ∧ 0 ≤ dayOfYear n ∧ dayOfYear n < if isLeap (yearOfEra n + 1) then 366 else 365 := by
  obtain ⟨century, quad, year, day, hcentury, hquad, hyear, hday, hleap, rfl⟩ := exists_parts h
  have hquads : (100 * century + 4 * quad + year) / 4 = 25 * century + quad := by omega
  have hcenturies : (100 * century + 4 * quad + year) / 100 = century := by omega
  have hleaps : isLeap (100 * century + 4 * quad + year + 1) ↔ year = 3 ∧ (quad ≠ 24 ∨ century = 3) := by
    unfold isLeap
    omega
  rw [dayOfYear, yearOfEra_parts hcentury hquad hyear hday hleap, hquads, hcenturies]
  refine ⟨⟨by omega, by omega⟩, by omega, ?_⟩
  split_ifs with hlong
  · omega
  · have hshort : day ≠ 365 := fun heq => hlong (hleaps.mpr (hleap heq))
    omega

theorem yearOfEra_of_lt {n : Int} (h : 146096 < n ∧ n ≤ 292192) :
    (400 ≤ yearOfEra n ∧ yearOfEra n ≤ 799) ∧ 0 ≤ dayOfYear n ∧ dayOfYear n ≤ 366 := by
  obtain ⟨century, quad, year, day, hcentury, hquad, hyear, hday, hleap, heq⟩ := exists_parts (n := n - 146096) (by omega)
  have hlast : n / 36524 = 4 + century + (if n = 292192 then 1 else 0) := by split_ifs <;> omega
  have hera : n / 146096 = 1 + if n = 292192 then 1 else 0 := by split_ifs <;> omega
  have hcenturies : n / 36524 - n / 146096 = 3 + century := by
    rw [hlast, hera]
    ring
  obtain ⟨late, hlate, hquads⟩ : ∃ late : Int, (0 ≤ late ∧ late ≤ 1 ∧ (late = 1 → 1364 ≤ 24 * century + quad + 365 * year + day)) ∧
      n / 1460 = 100 + 25 * century + quad + late := ⟨n / 1460 - (100 + 25 * century + quad), by omega, by omega⟩
  have hyears : yearOfEra n = 400 + 100 * century + 4 * quad + (365 * year + day - 1 - late) / 365 := by
    have hsum : n - n / 1460 + n / 36524 - n / 146096 =
        365 * year + day - 1 - late + (400 + 100 * century + 4 * quad) * 365 := by linarith
    rw [yearOfEra, hsum, Int.add_mul_ediv_right _ _ (by decide), add_comm]
  rw [dayOfYear, hyears]
  clear hyears hquads hcenturies hlast hera
  obtain ⟨within, hwithin⟩ : ∃ within, within = (365 * year + day - 1 - late) / 365 := ⟨_, rfl⟩
  rw [← hwithin]
  by_cases hfirst : within = -1
  · subst hfirst
    omega
  · have hquad' : (400 + 100 * century + 4 * quad + within) / 4 = 100 + 25 * century + quad := by omega
    have hcentury' : (400 + 100 * century + 4 * quad + within) / 100 = 4 + century := by omega
    rw [hquad', hcentury']
    omega

/-! The date of a day. -/

def era (d : Int) : Int := (if 0 ≤ d + 719468 then d + 719468 else d + 719468 - 146096) / 146097

def dayOfEra (d : Int) : Int := d + 719468 - era d * 146097

def civilOf (year dayOfYear : Int) : Civil :=
  let monthPrime := (5 * dayOfYear + 2) / 153
  let month := monthPrime + if monthPrime < 10 then 3 else -9
  ⟨year + if month ≤ 2 then 1 else 0, month, dayOfYear - (153 * monthPrime + 2) / 5 + 1⟩

/-- The days before the year zero for which the code takes the era before, all but the last of an era. -/
def Early (d : Int) : Prop := d + 719468 < 0 ∧ (d + 719468) % 146097 ≠ 146096

instance (d : Int) : Decidable (Early d) := inferInstanceAs (Decidable (_ ∧ _))

theorem era_of_not_early {d : Int} (h : ¬Early d) : era d = (d + 719468) / 146097 ∧ 0 ≤ dayOfEra d ∧ dayOfEra d ≤ 146096 := by
  unfold Early at h
  unfold dayOfEra era
  split <;> omega

theorem era_of_early {d : Int} (h : Early d) : era d = (d + 719468) / 146097 - 1 ∧ 146096 < dayOfEra d ∧ dayOfEra d ≤ 292192 := by
  unfold Early at h
  unfold dayOfEra era
  split <;> omega

def yearOf (d : Int) : Int := yearOfEra (dayOfEra d) + era d * 400

def dayOf (d : Int) : Int := dayOfYear (dayOfEra d)

theorem dayOfEra_nonneg (d : Int) : 0 ≤ dayOfEra d := by
  unfold dayOfEra era
  split <;> omega

theorem civil_eq (d : Int) : civilFromUnixDays d = civilOf (yearOf d) (dayOf d) := by
  have hday := dayOfEra_nonneg d
  have hyear : 0 ≤ yearOfEra (dayOfEra d) := le_trans (by decide) (yearOfEra_mono hday)
  have hyears : (dayOfEra d - (dayOfEra d).tdiv 1460 + (dayOfEra d).tdiv 36524 - (dayOfEra d).tdiv 146096) / 365 =
      yearOfEra (dayOfEra d) := by
    rw [yearOfEra, Int.tdiv_eq_ediv_of_nonneg hday, Int.tdiv_eq_ediv_of_nonneg hday, Int.tdiv_eq_ediv_of_nonneg hday]
  have hdays : dayOfEra d - (365 * yearOfEra (dayOfEra d) + (yearOfEra (dayOfEra d)).tdiv 4 - (yearOfEra (dayOfEra d)).tdiv 100) =
      dayOf d := by
    rw [dayOf, dayOfYear, Int.tdiv_eq_ediv_of_nonneg hyear, Int.tdiv_eq_ediv_of_nonneg hyear]
  have hopen : civilFromUnixDays d =
      (fun years => civilOf (years + era d * 400) (dayOfEra d - (365 * years + years.tdiv 4 - years.tdiv 100)))
        ((dayOfEra d - (dayOfEra d).tdiv 1460 + (dayOfEra d).tdiv 36524 - (dayOfEra d).tdiv 146096) / 365) := rfl
  rw [hopen, hyears]
  dsimp only
  rw [hdays, yearOf]

theorem yearOf_bounds (d : Int) : 400 * ((d + 719468) / 146097) ≤ yearOf d ∧ yearOf d ≤ 400 * ((d + 719468) / 146097) + 399 := by
  unfold yearOf
  by_cases h : Early d
  · obtain ⟨hera, hday⟩ := era_of_early h
    have hyear := (yearOfEra_of_lt hday).1
    omega
  · obtain ⟨hera, hday⟩ := era_of_not_early h
    have hyear := (yearOfEra_of_le hday).1
    omega

theorem dayOf_bounds (d : Int) : 0 ≤ dayOf d ∧ dayOf d ≤ 366 := by
  unfold dayOf
  by_cases h : Early d
  · exact (yearOfEra_of_lt (era_of_early h).2).2
  · have hday := (yearOfEra_of_le (era_of_not_early h).2).2
    split_ifs at hday <;> omega

/-- The place of a day in its year; an early day takes that of the next. -/
theorem days_of (d : Int) : daysBefore (yearOf d) + dayOf d = d + 719468 + if Early d then 1 else 0 := by
  unfold yearOf dayOf dayOfYear daysBefore
  by_cases h : Early d
  · obtain ⟨hera, hday⟩ := era_of_early h
    have hyear := (yearOfEra_of_lt hday).1
    rw [if_pos h]
    unfold dayOfEra at *
    omega
  · obtain ⟨hera, hday⟩ := era_of_not_early h
    have hyear := (yearOfEra_of_le hday).1
    rw [if_neg h]
    unfold dayOfEra at *
    omega

theorem yearOf_mono {d d' : Int} (h : d ≤ d') : yearOf d ≤ yearOf d' := by
  have hbounds := yearOf_bounds d
  have hbounds' := yearOf_bounds d'
  by_cases hera : era d = era d'
  · have hday : dayOfEra d ≤ dayOfEra d' := by
      unfold dayOfEra
      omega
    have hmono := yearOfEra_mono hday
    unfold yearOf
    omega
  · by_cases hsame : (d + 719468) / 146097 = (d' + 719468) / 146097
    · by_cases hearly : Early d' <;> by_cases hearly' : Early d
      · exact absurd (by rw [(era_of_early hearly).1, (era_of_early hearly').1, hsame]) hera
      · unfold Early at hearly hearly'
        omega
      · have hlast : dayOfEra d' = 146096 := by
          have hera' := (era_of_not_early hearly).1
          unfold dayOfEra
          unfold Early at hearly hearly'
          omega
        have hyear : yearOf d' = 399 + era d' * 400 := by
          rw [yearOf, hlast]
          rfl
        rw [(era_of_not_early hearly).1] at hyear
        omega
      · exact absurd (by rw [(era_of_not_early hearly).1, (era_of_not_early hearly').1, hsame]) hera
    · omega

/-! Years and days as dates. -/

theorem civilOf_march (year : Int) {day : Int} (h : 0 ≤ day ∧ day ≤ 366) :
    (1 ≤ (civilOf year day).month ∧ (civilOf year day).month ≤ 12) ∧ marchYear (civilOf year day) = year ∧
      dayOfMarchYear (civilOf year day) = day := by
  simp only [civilOf, marchYear, dayOfMarchYear, daysBeforeMonth, monthPrime]
  refine ⟨?_, ?_, ?_⟩ <;> split_ifs <;> omega

theorem civilOf_valid {year day : Int} (h : 0 ≤ day ∧ day < if isLeap (year + 1) then 366 else 365) : (civilOf year day).Valid := by
  have hday : 0 ≤ day ∧ day ≤ 366 := by split_ifs at h <;> omega
  obtain ⟨hmonth, hyear, hdays⟩ := civilOf_march year hday
  refine ⟨hmonth, ?_⟩
  by_cases hfebruary : (civilOf year day).month = 2
  · have hlength : monthLength (civilOf year day).year 2 = if isLeap (civilOf year day).year then 29 else 28 := rfl
    rw [hfebruary, hlength]
    have hnext : (civilOf year day).year = year + 1 := by
      rw [marchYear, if_pos (by omega)] at hyear
      omega
    rw [hnext]
    simp only [civilOf] at hfebruary ⊢
    split_ifs at h hfebruary ⊢ <;> omega
  · have hprime : monthPrime (civilOf year day).month = (5 * day + 2) / 153 := by
      simp only [civilOf, monthPrime]
      split_ifs <;> omega
    rw [monthLength_eq hmonth hfebruary, hprime]
    simp only [civilOf, daysBeforeMonth]
    omega

theorem civilOf_before {year year' day day' : Int} (hday : 0 ≤ day ∧ day ≤ 366) (hday' : 0 ≤ day' ∧ day' ≤ 366)
    (h : year < year' ∨ year = year' ∧ day < day') : (civilOf year day).Before (civilOf year' day') := by
  simp only [civilOf, Civil.Before]
  split_ifs <;> omega

theorem unixDays_civil (d : Int) :
    unixDaysFromCivil (civilFromUnixDays d).year (civilFromUnixDays d).month (civilFromUnixDays d).day =
      d + if Early d then 1 else 0 := by
  have hdays := days_of d
  obtain ⟨hmonth, hyear, hday⟩ := civilOf_march (yearOf d) (dayOf_bounds d)
  rw [civil_eq, unixDays_eq hmonth, hyear, hday]
  omega

theorem civil_valid {d : Int} (h : ¬Early d) : (civilFromUnixDays d).Valid := by
  obtain ⟨hera, hday⟩ := era_of_not_early h
  have hbounds := (yearOfEra_of_le hday).2
  have hleap : isLeap (yearOf d + 1) ↔ isLeap (yearOfEra (dayOfEra d) + 1) := by
    unfold yearOf isLeap
    omega
  rw [civil_eq]
  refine civilOf_valid ?_
  simp only [hleap]
  exact hbounds

/-- A day is read back from its date unless the code takes the era before. -/
theorem unixDays_civil_iff (d : Int) :
    (unixDaysFromCivil (civilFromUnixDays d).year (civilFromUnixDays d).month (civilFromUnixDays d).day = d ∧
      (civilFromUnixDays d).Valid) ↔ ¬Early d := by
  rw [unixDays_civil]
  refine ⟨fun h hearly => ?_, fun h => ⟨by rw [if_neg h, add_zero], civil_valid h⟩⟩
  rw [if_pos hearly] at h
  omega

theorem civil_unixDays_iff {c : Civil} (h : c.Valid) :
    civilFromUnixDays (unixDaysFromCivil c.year c.month c.day) = c ↔ ¬Early (unixDaysFromCivil c.year c.month c.day) := by
  have hback := unixDays_civil (unixDaysFromCivil c.year c.month c.day)
  constructor
  · intro heq hearly
    rw [heq, if_pos hearly] at hback
    omega
  · intro hearly
    rw [if_neg hearly, add_zero] at hback
    exact unixDays_injective (civil_valid hearly) h hback

/-- The days from the year zero on, and the last days of the eras. -/
theorem daysBefore_last {year day : Int} (hday : 0 ≤ day ∧ day ≤ 365) :
    (0 ≤ daysBefore year + day ↔ 0 ≤ year) ∧
      ((daysBefore year + day) % 146097 = 146096 ↔ year % 400 = 399 ∧ day = 365) := by
  obtain ⟨cycle, r, hr, rfl⟩ : ∃ cycle r : Int, (0 ≤ r ∧ r ≤ 399) ∧ year = 400 * cycle + r :=
    ⟨year / 400, year % 400, by omega, by omega⟩
  have hwithin : daysBefore (400 * cycle + r) = 146097 * cycle + (365 * r + r / 4 - r / 100) := by
    unfold daysBefore
    omega
  have hlast : 0 ≤ 365 * r + r / 4 - r / 100 ∧ 365 * r + r / 4 - r / 100 ≤ 145731 ∧
      (365 * r + r / 4 - r / 100 = 145731 ↔ r = 399) := by omega
  rw [hwithin]
  generalize 365 * r + r / 4 - r / 100 = before at *
  constructor <;> omega

/-- The dates from 0000-03-01 on, and the last day of each era before. -/
def Civil.Late (c : Civil) : Prop :=
  (0 < c.year ∨ c.year = 0 ∧ 2 < c.month) ∨ 400 ∣ c.year ∧ c.month = 2 ∧ c.day = 29

theorem early_unixDays_iff {c : Civil} (h : c.Valid) : ¬Early (unixDaysFromCivil c.year c.month c.day) ↔ Civil.Late c := by
  have hbounds := dayOfMarchYear_bounds h
  have hlong : dayOfMarchYear c = 365 ↔ c.month = 2 ∧ c.day = 29 := by
    by_cases hfebruary : c.month = 2
    · have hday : dayOfMarchYear c = 336 + c.day := by
        rw [← dayOfMarchYear_february c.year, ← hfebruary]
      omega
    · have hday := h.day
      rw [monthLength_eq h.month hfebruary] at hday
      have hmonth := h.month
      simp only [dayOfMarchYear, monthPrime, daysBeforeMonth] at hday ⊢
      split_ifs at hday ⊢ <;> omega
  have hmarch : 0 ≤ marchYear c ↔ 0 < c.year ∨ c.year = 0 ∧ 2 < c.month := by
    unfold marchYear
    split_ifs <;> omega
  have hyear : c.month = 2 → marchYear c = c.year - 1 := fun hfebruary => if_pos (by omega)
  have hday : 0 ≤ dayOfMarchYear c ∧ dayOfMarchYear c ≤ 365 := by split_ifs at hbounds <;> omega
  obtain ⟨hpositive, hlast⟩ := @daysBefore_last (marchYear c) _ hday
  rw [unixDays_eq h.month, Early, Civil.Late, ← hmarch, sub_add_cancel, ← hpositive, Ne, hlast, hlong]
  omega

/-- Later days have later dates, but for an early day before one that is not. -/
theorem civil_before_iff {d d' : Int} (h : d < d') :
    (civilFromUnixDays d).Before (civilFromUnixDays d') ↔ ¬(Early d ∧ d' = d + 1 ∧ ¬Early d') := by
  have hyear := yearOf_mono h.le
  have hdays := days_of d
  have hdays' := days_of d'
  rw [civil_eq, civil_eq]
  constructor
  · rintro hbefore ⟨hearly, rfl, hlate⟩
    rw [if_pos hearly] at hdays
    rw [if_neg hlate] at hdays'
    have hsame : yearOf d = yearOf (d + 1) := by
      have hera := (era_of_early hearly).1
      have hera' := (era_of_not_early hlate).1
      have hday : dayOfEra d = 292192 ∧ dayOfEra (d + 1) = 146096 := by
        unfold dayOfEra
        unfold Early at hearly hlate
        omega
      have hyears : yearOfEra 292192 = 799 ∧ yearOfEra 146096 = 399 := by decide
      rw [yearOf, yearOf, hday.1, hday.2, hyears.1, hyears.2]
      unfold Early at hearly hlate
      omega
    have hday : dayOf d = dayOf (d + 1) := by
      rw [hsame] at hdays
      omega
    rw [hsame, hday] at hbefore
    unfold Civil.Before at hbefore
    omega
  · intro hexcept
    refine civilOf_before (dayOf_bounds d) (dayOf_bounds d') ?_
    rcases hyear.lt_or_eq with hless | heq
    · exact .inl hless
    · refine .inr ⟨heq, ?_⟩
      rw [heq] at hdays
      by_cases hearly : Early d <;> by_cases hearly' : Early d'
      · rw [if_pos hearly] at hdays
        rw [if_pos hearly'] at hdays'
        omega
      · have hne : d' ≠ d + 1 := fun hnext => hexcept ⟨hearly, hnext, hearly'⟩
        rw [if_pos hearly] at hdays
        rw [if_neg hearly'] at hdays'
        omega
      · rw [if_neg hearly] at hdays
        rw [if_pos hearly'] at hdays'
        omega
      · rw [if_neg hearly] at hdays
        rw [if_neg hearly'] at hdays'
        omega

/-! The starts. -/

/-- A start at a minute that there is. -/
structure Start.Exists (start : Start) : Prop where
  date : start.date.Valid
  hour : 0 ≤ start.hour ∧ start.hour ≤ 23
  minute : 0 ≤ start.minute ∧ start.minute ≤ 59

/-- What is read is a minute that there is, in milliseconds from the epoch. -/
structure ExactStart (value : Text) : Prop where
  inRange : parseCdnlivetvStartMs value ≠ .panic
  exact : ∀ ms, parseCdnlivetvStartMs value = .value ms → ∃ start days, readStart value = some start ∧ start.Exists ∧
    DayCount unixEpoch start.date days ∧ ms = (days * 86400 + start.hour * 3600 + start.minute * 60) * 1000

theorem checked_of_bounds {n : Int} (h : i64Min ≤ n ∧ n ≤ i64Max) : checked n = .value n := if_pos h

theorem checked_ne_nothing (n : Int) : checked n ≠ .nothing := by
  unfold checked Outcome.guarded
  split <;> simp

theorem parse_eq {value : Text} {start : Start} (hread : readStart value = some start) (hrange : start.InRange) :
    parseCdnlivetvStartMs value =
      (checked (unixDaysFromCivil start.year start.month start.day * 86400)).bind fun date =>
        (checked (start.hour * 3600)).bind fun hour => (checked (date + hour)).bind fun both =>
          (checked (start.minute * 60)).bind fun minute => (checked (both + minute)).bind fun seconds => checked (seconds * 1000) := by
  rw [parseCdnlivetvStartMs, hread]
  exact if_pos hrange

theorem parse_of_exists {value : Text} {start : Start} (hread : readStart value = some start) (hrange : start.InRange)
    (hexists : start.Exists) : parseCdnlivetvStartMs value =
      .value ((unixDaysFromCivil start.year start.month start.day * 86400 + start.hour * 3600 + start.minute * 60) * 1000) := by
  have hdays : -800000 ≤ unixDaysFromCivil start.year start.month start.day ∧
      unixDaysFromCivil start.year start.month start.day ≤ 3000000 := by
    have heq := unixDays_eq hexists.date.month
    have hbounds := dayOfMarchYear_bounds hexists.date
    have hday : dayOfMarchYear start.date ≤ 365 := by split_ifs at hbounds <;> omega
    have hyear : 0 ≤ marchYear start.date ∧ marchYear start.date ≤ 9999 := by
      have hyears := hrange.1
      simp only [marchYear, Start.date]
      split_ifs <;> omega
    simp only [Start.date] at heq hbounds hday hyear
    rw [heq, daysBefore]
    omega
  have hhour := hexists.hour
  have hminute := hexists.minute
  generalize hd : unixDaysFromCivil start.year start.month start.day = days at hdays
  have hfits : (i64Min ≤ days * 86400 ∧ days * 86400 ≤ i64Max) ∧ (i64Min ≤ start.hour * 3600 ∧ start.hour * 3600 ≤ i64Max) ∧
      (i64Min ≤ days * 86400 + start.hour * 3600 ∧ days * 86400 + start.hour * 3600 ≤ i64Max) ∧
      (i64Min ≤ start.minute * 60 ∧ start.minute * 60 ≤ i64Max) ∧
      (i64Min ≤ days * 86400 + start.hour * 3600 + start.minute * 60 ∧
        days * 86400 + start.hour * 3600 + start.minute * 60 ≤ i64Max) ∧
      i64Min ≤ (days * 86400 + start.hour * 3600 + start.minute * 60) * 1000 ∧
        (days * 86400 + start.hour * 3600 + start.minute * 60) * 1000 ≤ i64Max := by
    unfold i64Min i64Max
    omega
  obtain ⟨hdate, hhours, hboth, hminutes, hseconds, htotal⟩ := hfits
  rw [parse_eq hread hrange, hd, checked_of_bounds hdate, Outcome.value_bind, checked_of_bounds hhours, Outcome.value_bind,
    checked_of_bounds hboth, Outcome.value_bind, checked_of_bounds hminutes, Outcome.value_bind, checked_of_bounds hseconds,
    Outcome.value_bind, checked_of_bounds htotal]

theorem parse_ne_nothing {value : Text} {start : Start} (hread : readStart value = some start) (hrange : start.InRange) :
    parseCdnlivetvStartMs value ≠ .nothing := by
  have hbind {α β : Type} {x : Outcome α} {f : α → Outcome β} (hx : x ≠ .nothing) (hf : ∀ a, f a ≠ .nothing) :
      x.bind f ≠ .nothing := by
    cases x with
    | value a => exact hf a
    | nothing => exact absurd rfl hx
    | panic => simp
  rw [parse_eq hread hrange]
  exact hbind (checked_ne_nothing _) fun _ => hbind (checked_ne_nothing _) fun _ => hbind (checked_ne_nothing _) fun _ =>
    hbind (checked_ne_nothing _) fun _ => hbind (checked_ne_nothing _) fun _ => checked_ne_nothing _

theorem exactStart_iff (value : Text) :
    ExactStart value ↔ ∀ start, readStart value = some start → start.InRange → start.Exists := by
  constructor
  · intro h start hread hrange
    cases hparsed : parseCdnlivetvStartMs value with
    | value ms =>
      obtain ⟨start', days, hread', hexists, -⟩ := h.exact ms hparsed
      rw [hread] at hread'
      exact Option.some.inj hread' ▸ hexists
    | nothing => exact absurd hparsed (parse_ne_nothing hread hrange)
    | panic => exact absurd hparsed h.inRange
  · intro h
    cases hread : readStart value with
    | none =>
      have hparsed : parseCdnlivetvStartMs value = .nothing := by
        rw [parseCdnlivetvStartMs, hread]
        rfl
      exact ⟨by simp [hparsed], fun ms hms => by simp [hparsed] at hms⟩
    | some start =>
      by_cases hrange : start.InRange
      · have hexists := h start hread hrange
        have hparsed := parse_of_exists hread hrange hexists
        refine ⟨by simp [hparsed], fun ms hms => ⟨start, _, hread, hexists, (dayCount_unixDays hexists.date).mpr rfl, ?_⟩⟩
        rw [hparsed] at hms
        exact (Outcome.value.inj hms).symm
      · have hparsed : parseCdnlivetvStartMs value = .nothing := by
          rw [parseCdnlivetvStartMs, hread]
          exact if_neg hrange
        exact ⟨by simp [hparsed], fun ms hms => by simp [hparsed] at hms⟩

/-- When starts are exact, days and dates mirror each other, and the order of the days is that of the dates. -/
theorem calendar_iff (value : Text) (d d' : Int) (c c' : Civil) :
    (ExactStart value ↔ ∀ start, readStart value = some start → start.InRange → start.Exists) ∧
      ((unixDaysFromCivil (civilFromUnixDays d).year (civilFromUnixDays d).month (civilFromUnixDays d).day = d ∧
        (civilFromUnixDays d).Valid) ↔ ¬Early d) ∧
      (c.Valid → (civilFromUnixDays (unixDaysFromCivil c.year c.month c.day) = c ↔ Civil.Late c)) ∧
      (c.Valid → c'.Valid → c.Before c' →
        unixDaysFromCivil c.year c.month c.day < unixDaysFromCivil c'.year c'.month c'.day) ∧
      (d < d' → ((civilFromUnixDays d).Before (civilFromUnixDays d') ↔ ¬(Early d ∧ d' = d + 1 ∧ ¬Early d'))) :=
  ⟨exactStart_iff value, unixDays_civil_iff d, fun h => (civil_unixDays_iff h).trans (early_unixDays_iff h),
    unixDays_strictMono, civil_before_iff⟩

theorem leapDay_mirrored : civilFromUnixDays (unixDaysFromCivil 2024 2 29) = ⟨2024, 2, 29⟩ := by
  have hleap := calendar_iff "2024-02-29 10:00".toList 19782 19783 ⟨2024, 2, 29⟩ ⟨2024, 3, 1⟩
  exact (hleap.2.2.1 (by decide)).mpr (by unfold Civil.Late; decide)

/-- The thirtieth of February, and a day in the year before zero that comes back as the next. -/
theorem february_start_and_early_day :
    ¬ExactStart "2024-02-30 10:00".toList ∧
      unixDaysFromCivil (civilFromUnixDays (-719500)).year (civilFromUnixDays (-719500)).month (civilFromUnixDays (-719500)).day =
        -719499 := by
  refine ⟨fun h => ?_, by decide⟩
  have hparsed : parseCdnlivetvStartMs "2024-02-30 10:00".toList = .value 1709287200000 := by decide +kernel
  obtain ⟨start, days, hread, hexists, -⟩ := h.exact _ hparsed
  have hstart : readStart "2024-02-30 10:00".toList = some ⟨2024, 2, 30, 10, 0⟩ := by decide +kernel
  rw [hstart] at hread
  rw [← Option.some.inj hread] at hexists
  exact absurd hexists.date (by decide)

end StreamArena.Football.StartTimes
