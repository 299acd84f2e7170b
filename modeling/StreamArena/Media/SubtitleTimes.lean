import Mathlib
import StreamArena.Library.Decimal
import StreamArena.Library.Outcome
import StreamArena.Library.Words

/-! The times of subtitle cues: `parse_subtitle_timestamp_ms` and `parse_subtitle_cue_timing`
(src/src/media.rs), in builds that check the range of a register and in those that do not. -/
namespace StreamArena.Media
open AsciiText Decimal Words

inductive Build where
  | checked
  | release
  deriving DecidableEq

/-- What an operation leaves in its register, which has gone round where the result is too large. -/
def Build.register (build : Build) (exact : Nat) (wrapped : UInt64) : Outcome UInt64 :=
  if exact < 2 ^ 64 then .value wrapped
  else match build with
    | checked => .panic
    | release => .value wrapped

def Build.mul (build : Build) (a b : UInt64) : Outcome UInt64 := build.register (a.toNat * b.toNat) (a * b)

def Build.add (build : Build) (a b : UInt64) : Outcome UInt64 := build.register (a.toNat + b.toNat) (a + b)

/-- The clock of a timestamp and the text of its fraction. -/
def timestampParts (value : Text) : Option (UInt64 × UInt64 × UInt64 × Text) := do
  let token ← (splitWhitespace value).head?
  let dotted := token.map fun c => if c = ',' then '.' else c
  let (clock, fraction) := (splitOnce ['.'] dotted).getD (dotted, ['0'])
  match ← (clock.splitOn ':').mapM parseU64 with
  | [minutes, seconds] => some (0, minutes, seconds, fraction)
  | [hours, minutes, seconds] => some (hours, minutes, seconds, fraction)
  | _ => none

/-- Zeros up to three places. -/
def padded (fraction : Text) : Text := fraction ++ List.replicate (3 - fraction.length) '0'

def parseMilliseconds (fraction : Text) : Option UInt64 := parseU64 ((padded fraction).take 3)

def clockMs (build : Build) (hours minutes seconds milliseconds : UInt64) : Outcome UInt64 := do
  let hourMinutes ← build.mul hours 60
  let hourSeconds ← build.mul hourMinutes 60
  let minuteSeconds ← build.mul minutes 60
  let wholeMinutes ← build.add hourSeconds minuteSeconds
  let wholeSeconds ← build.add wholeMinutes seconds
  let wholeMs ← build.mul wholeSeconds 1000
  build.add wholeMs milliseconds

def parseSubtitleTimestampMs (build : Build) (value : Text) : Outcome UInt64 := do
  let (hours, minutes, seconds, fraction) ← .ofOption (timestampParts value)
  let milliseconds ← .ofOption (parseMilliseconds fraction)
  clockMs build hours minutes seconds milliseconds

def arrow : Text := ['-', '-', '>']

/-- What stands before and after the arrow of a block. -/
def timelineParts (block : Text) : Option (Text × Text) :=
  ((lines block).find? fun line => contains line arrow).bind (splitOnce arrow)

def parseSubtitleCueTiming (build : Build) (block : Text) : Outcome (UInt64 × UInt64) := do
  let (start, end') ← .ofOption (timelineParts block)
  let startMs ← parseSubtitleTimestampMs build start
  let endMs ← parseSubtitleTimestampMs build end'
  if startMs ≤ endMs then .value (startMs, endMs) else .nothing

/-- The digits that a fraction starts with, behind its sign if it has one. -/
def fractionDigits (fraction : Text) : Text :=
  (match fraction with
  | '+' :: digits => digits
  | digits => digits).takeWhile Char.isDigit

/-- The milliseconds that the first three digits stand for. -/
def fractionMs (fraction : Text) : Nat := Nat.ofDigitChars 10 ((padded (fractionDigits fraction)).take 3) 0

def totalMs (hours minutes seconds : UInt64) (milliseconds : Nat) : Nat :=
  ((hours.toNat * 60 + minutes.toNat) * 60 + seconds.toNat) * 1000 + milliseconds

/-- The time that a text reads as, as a number without a bound. -/
def exactMs (value : Text) : Option Nat :=
  (timestampParts value).map fun (hours, minutes, seconds, fraction) => totalMs hours minutes seconds (fractionMs fraction)

/-- A timestamp is read without overflow, and to its exact value. -/
def Exact (value : Text) : Prop :=
  ∀ build, (parseSubtitleTimestampMs build value).Safe ∧
    ∀ ms, parseSubtitleTimestampMs build value = .value ms → exactMs value = some ms.toNat

/-- A text that has the form of a timestamp. -/
def Accepted (value : Text) : Prop :=
  ∃ hours minutes seconds fraction, timestampParts value = some (hours, minutes, seconds, fraction) ∧
    (parseMilliseconds fraction).isSome = true

/-- The time of a text fits its register, and a sign stands on no fraction but a zero one. -/
def WithinRegister (value : Text) : Prop :=
  ∀ hours minutes seconds fraction, timestampParts value = some (hours, minutes, seconds, fraction) →
    (parseMilliseconds fraction).isSome = true →
      totalMs hours minutes seconds (fractionMs fraction) < 2 ^ 64 ∧ (fraction.head? = some '+' → fractionMs fraction = 0)

/-- The timing of a block is read without overflow, from times read exactly, and given when they are in order. -/
def ExactTiming (block : Text) : Prop :=
  (∀ build, (parseSubtitleCueTiming build block).Safe) ∧
    (∀ start end', timelineParts block = some (start, end') → Exact start ∧ (Accepted start → Exact end')) ∧
      ∀ build startMs endMs, parseSubtitleCueTiming build block = .value (startMs, endMs) →
        ∃ start end', timelineParts block = some (start, end') ∧ exactMs start = some startMs.toNat ∧
          exactMs end' = some endMs.toNat ∧ startMs.toNat ≤ endMs.toNat

section
variable {build : Build} {a b : UInt64}

theorem Build.register_of_lt {exact : Nat} {wrapped : UInt64} (h : exact < 2 ^ 64) :
    build.register exact wrapped = .value wrapped := if_pos h

theorem Build.mul_eq {factor : Nat} (hb : b.toNat = factor) (h : a.toNat * factor < 2 ^ 64) :
    ∃ product, build.mul a b = .value product ∧ product.toNat = a.toNat * factor := by
  subst hb
  refine ⟨a * b, build.register_of_lt h, ?_⟩
  rw [UInt64.toNat_mul, Nat.mod_eq_of_lt h]

theorem Build.add_eq (h : a.toNat + b.toNat < 2 ^ 64) :
    ∃ sum, build.add a b = .value sum ∧ sum.toNat = a.toNat + b.toNat := by
  refine ⟨a + b, build.register_of_lt h, ?_⟩
  rw [UInt64.toNat_add, Nat.mod_eq_of_lt h]

theorem Build.safe_checked_mul {factor : Nat} (hb : b.toNat = factor) :
    (Build.checked.mul a b).Safe ↔ a.toNat * factor < 2 ^ 64 := by
  subst hb
  rw [mul, register]
  split <;> simp_all

theorem Build.safe_checked_add : (Build.checked.add a b).Safe ↔ a.toNat + b.toNat < 2 ^ 64 := by
  rw [add, register]
  split <;> simp_all

end

section
variable {hours minutes seconds milliseconds : UInt64}

theorem toNat_sixty : (60 : UInt64).toNat = 60 := rfl
theorem toNat_thousand : (1000 : UInt64).toNat = 1000 := rfl

/-- A clock that fits is read in both builds. -/
theorem clockMs_of_lt (build : Build) (h : totalMs hours minutes seconds milliseconds.toNat < 2 ^ 64) :
    ∃ total, clockMs build hours minutes seconds milliseconds = .value total ∧
      total.toNat = totalMs hours minutes seconds milliseconds.toNat := by
  rw [totalMs] at h ⊢
  obtain ⟨hourMinutes, hvalue₁, hhour⟩ := @Build.mul_eq build hours 60 60 toNat_sixty (by omega)
  obtain ⟨hourSeconds, hvalue₂, hhours⟩ := @Build.mul_eq build hourMinutes 60 60 toNat_sixty (by omega)
  obtain ⟨minuteSeconds, hvalue₃, hminutes⟩ := @Build.mul_eq build minutes 60 60 toNat_sixty (by omega)
  obtain ⟨wholeMinutes, hvalue₄, hwhole⟩ := @Build.add_eq build hourSeconds minuteSeconds (by omega)
  obtain ⟨wholeSeconds, hvalue₅, hseconds⟩ := @Build.add_eq build wholeMinutes seconds (by omega)
  have hclock : wholeSeconds.toNat = (hours.toNat * 60 + minutes.toNat) * 60 + seconds.toNat := by omega
  rw [← hclock] at h ⊢
  have hfits : wholeSeconds.toNat * 1000 < 2 ^ 64 := Nat.lt_of_le_of_lt (Nat.le_add_right _ _) h
  obtain ⟨wholeMs, hvalue₆, hms⟩ := build.mul_eq toNat_thousand hfits
  obtain ⟨total, hvalue₇, htotal⟩ := @Build.add_eq build wholeMs milliseconds (by omega)
  refine ⟨total, ?_, by omega⟩
  simp only [clockMs, Outcome.bind_def, hvalue₁, hvalue₂, hvalue₃, hvalue₄, hvalue₅, hvalue₆, hvalue₇, Outcome.value_bind]

/-- A clock that does not fit stops the build that checks. -/
theorem lt_of_safe_clockMs (h : (clockMs .checked hours minutes seconds milliseconds).Safe) :
    totalMs hours minutes seconds milliseconds.toNat < 2 ^ 64 := by
  rw [totalMs]
  simp only [clockMs, Outcome.bind_def] at h
  obtain ⟨hourMinutes, hvalue, hhour⟩ := Build.checked.mul_eq toNat_sixty ((Build.safe_checked_mul toNat_sixty).mp (Outcome.safe_bind.mp h).1)
  rw [hvalue, Outcome.value_bind] at h
  obtain ⟨hourSeconds, hvalue, hhours⟩ := Build.checked.mul_eq toNat_sixty ((Build.safe_checked_mul toNat_sixty).mp (Outcome.safe_bind.mp h).1)
  rw [hvalue, Outcome.value_bind] at h
  obtain ⟨minuteSeconds, hvalue, hminutes⟩ := Build.checked.mul_eq toNat_sixty ((Build.safe_checked_mul toNat_sixty).mp (Outcome.safe_bind.mp h).1)
  rw [hvalue, Outcome.value_bind] at h
  obtain ⟨wholeMinutes, hvalue, hwhole⟩ := Build.checked.add_eq (Build.safe_checked_add.mp (Outcome.safe_bind.mp h).1)
  rw [hvalue, Outcome.value_bind] at h
  obtain ⟨wholeSeconds, hvalue, hseconds⟩ := Build.checked.add_eq (Build.safe_checked_add.mp (Outcome.safe_bind.mp h).1)
  rw [hvalue, Outcome.value_bind] at h
  obtain ⟨wholeMs, hvalue, hms⟩ := Build.checked.mul_eq toNat_thousand ((Build.safe_checked_mul toNat_thousand).mp (Outcome.safe_bind.mp h).1)
  rw [hvalue, Outcome.value_bind] at h
  have htotal := Build.safe_checked_add.mp h
  omega

end

section
variable {fraction digits : Text} {milliseconds : UInt64}

/-- What follows the digits does not show in their first three places. -/
theorem take_padded_takeWhile (h : ((padded digits).take 3).all Char.isDigit = true) :
    (padded (digits.takeWhile Char.isDigit)).take 3 = (padded digits).take 3 := by
  rcases digits with _ | ⟨a, _ | ⟨b, _ | ⟨c, rest⟩⟩⟩
  · rfl
  · simp [padded] at h
    simp [h]
  · simp [padded] at h
    simp [h]
  · simp [padded] at h
    simp [padded, h]

theorem parseU64_eq_some {text : Text} (h : parseU64 text = some milliseconds) :
    parseUnsigned text = some milliseconds.toNat := by
  obtain ⟨n, hn, rfl⟩ := Option.map_eq_some_iff.mp h
  obtain ⟨hparse, hlt⟩ := Option.filter_eq_some_iff.mp hn
  rw [hparse, UInt64.toNat_ofNat_of_lt' (of_decide_eq_true hlt)]

theorem parseDigits_eq_some {text : Text} {n : Nat} (h : parseDigits text = some n) :
    text.all Char.isDigit = true ∧ Nat.ofDigitChars 10 text 0 = n := by
  rw [parseDigits] at h
  split at h
  next hdigits => exact ⟨hdigits.2, Option.some.inj h⟩
  next => cases h

/-- Without a sign the first three places are read as they are. -/
theorem parseMilliseconds_unsigned (hsign : fraction.head? ≠ some '+')
    (h : parseMilliseconds fraction = some milliseconds) : milliseconds.toNat = fractionMs fraction := by
  have hplain : fractionDigits fraction = fraction.takeWhile Char.isDigit := by
    cases fraction with
    | nil => rfl
    | cons c rest =>
      rw [fractionDigits.eq_2]
      rintro digits heq
      exact hsign (by rw [heq]; rfl)
  have hparse : parseUnsigned ((padded fraction).take 3) = parseDigits ((padded fraction).take 3) := by
    cases fraction with
    | nil => rfl
    | cons c rest =>
      rw [padded, List.cons_append, List.take_succ_cons, parseUnsigned.eq_2]
      rintro digits heq
      exact hsign (congrArg some (List.cons_eq_cons.mp heq).1)
  obtain ⟨hdigits, hvalue⟩ := parseDigits_eq_some (hparse.symm.trans (parseU64_eq_some h))
  rw [fractionMs, hplain, take_padded_takeWhile hdigits, hvalue]

/-- A sign takes the place of a digit. -/
theorem parseMilliseconds_signed (h : parseMilliseconds ('+' :: digits) = some milliseconds) :
    milliseconds.toNat ≤ fractionMs ('+' :: digits) ∧
      (milliseconds.toNat = fractionMs ('+' :: digits) → fractionMs ('+' :: digits) = 0) := by
  have hparse := parseU64_eq_some h
  rw [padded, List.cons_append, List.take_succ_cons, parseUnsigned] at hparse
  obtain ⟨hdigits, hvalue⟩ := parseDigits_eq_some hparse
  have hplain : fractionDigits ('+' :: digits) = digits.takeWhile Char.isDigit := rfl
  rw [fractionMs, hplain]
  rcases digits with _ | ⟨a, _ | ⟨b, _ | ⟨c, rest⟩⟩⟩
  · simp [padded, Nat.ofDigitChars] at hvalue ⊢
    omega
  · simp [padded, Nat.ofDigitChars] at hdigits hvalue ⊢
    simp [hdigits]
    omega
  · simp [padded, Nat.ofDigitChars] at hdigits hvalue ⊢
    simp [hdigits]
    omega
  · simp [padded, Nat.ofDigitChars] at hdigits hvalue ⊢
    simp [hdigits, List.takeWhile_cons]
    split
    · simp
      omega
    · simp
      omega

/-- A fraction is read exactly unless it has a sign and is not zero. -/
theorem milliseconds_exact_iff (h : parseMilliseconds fraction = some milliseconds) :
    milliseconds.toNat ≤ fractionMs fraction ∧
      (milliseconds.toNat = fractionMs fraction ↔ (fraction.head? = some '+' → fractionMs fraction = 0)) := by
  by_cases hsign : fraction.head? = some '+'
  · obtain ⟨digits, rfl⟩ : ∃ digits, fraction = '+' :: digits := by
      cases fraction with
      | nil => cases hsign
      | cons c digits => exact ⟨digits, by rw [Option.some.inj hsign]⟩
    obtain ⟨hle, hzero⟩ := parseMilliseconds_signed h
    refine ⟨hle, fun heq _ => hzero heq, fun hnone => ?_⟩
    have hfraction := hnone hsign
    omega
  · have hsame := parseMilliseconds_unsigned hsign h
    exact ⟨hsame.le, fun _ hplus => absurd hplus hsign, fun _ => hsame⟩

end

section
variable {value : Text} {build : Build}

theorem parseSubtitleTimestampMs_of_none (h : ¬ Accepted value) : parseSubtitleTimestampMs build value = .nothing := by
  rw [parseSubtitleTimestampMs, Outcome.bind_def]
  cases hparts : timestampParts value with
  | none => rfl
  | some parts =>
    obtain ⟨hours, minutes, seconds, fraction⟩ := parts
    cases hmilliseconds : parseMilliseconds fraction with
    | none => simp [Outcome.bind_def, hmilliseconds]
    | some milliseconds =>
      have haccepted : Accepted value := ⟨hours, minutes, seconds, fraction, hparts, by simp [hmilliseconds]⟩
      exact absurd haccepted h

theorem parseSubtitleTimestampMs_of_some {hours minutes seconds milliseconds : UInt64} {fraction : Text}
    (hparts : timestampParts value = some (hours, minutes, seconds, fraction))
    (hmilliseconds : parseMilliseconds fraction = some milliseconds) :
    parseSubtitleTimestampMs build value = clockMs build hours minutes seconds milliseconds := by
  simp [parseSubtitleTimestampMs, Outcome.bind_def, hparts, hmilliseconds]

/-- A timestamp is read exactly when it fits, with no sign on a fraction but a zero one. -/
theorem exact_iff : Exact value ↔ WithinRegister value := by
  by_cases haccepted : Accepted value
  · obtain ⟨hours, minutes, seconds, fraction, hparts, hsome⟩ := haccepted
    obtain ⟨milliseconds, hmilliseconds⟩ := Option.isSome_iff_exists.mp hsome
    obtain ⟨hle, hexact⟩ := milliseconds_exact_iff hmilliseconds
    have hread (build : Build) : parseSubtitleTimestampMs build value = clockMs build hours minutes seconds milliseconds :=
      parseSubtitleTimestampMs_of_some hparts hmilliseconds
    have htime : exactMs value = some (totalMs hours minutes seconds (fractionMs fraction)) := by
      rw [exactMs, hparts]
      rfl
    constructor
    · intro h hours' minutes' seconds' fraction' hparts' _
      cases hparts.symm.trans hparts'
      obtain ⟨hsafe, -⟩ := h .checked
      rw [hread] at hsafe
      obtain ⟨total, hclock, htotal⟩ := clockMs_of_lt .checked (lt_of_safe_clockMs hsafe)
      have hsame := (h .checked).2 total ((hread _).trans hclock)
      rw [htime] at hsame
      have hlt := total.toNat_lt
      have hequal := (Option.some.inj hsame).trans htotal
      rw [totalMs, totalMs] at hequal
      refine ⟨?_, hexact.mp (by omega)⟩
      rw [Option.some.inj hsame]
      exact hlt
    · intro h build
      obtain ⟨hlt, hsign⟩ := h hours minutes seconds fraction hparts hsome
      have hsame := hexact.mpr hsign
      rw [← hsame] at hlt
      obtain ⟨total, hclock, htotal⟩ := clockMs_of_lt build hlt
      rw [hread, hclock]
      refine ⟨by simp, fun ms hms => ?_⟩
      cases hms
      rw [htime, htotal, hsame]
  · constructor
    · intro _ hours minutes seconds fraction hparts hsome
      exact absurd ⟨hours, minutes, seconds, fraction, hparts, hsome⟩ haccepted
    · intro _ build
      rw [parseSubtitleTimestampMs_of_none haccepted]
      exact ⟨by simp, fun ms hms => by cases hms⟩

theorem accepted_of_value {ms : UInt64} (h : parseSubtitleTimestampMs build value = .value ms) : Accepted value := by
  by_contra hnot
  rw [parseSubtitleTimestampMs_of_none hnot] at h
  cases h

/-- The timing of a block is exact when its timestamps are. -/
theorem exactTiming_of_exact {block : Text} (h : ∀ start end', timelineParts block = some (start, end') →
    Exact start ∧ (Accepted start → Exact end')) : ExactTiming block := by
  have hpair (build : Build) : (parseSubtitleCueTiming build block).Safe ∧ ∀ startMs endMs,
      parseSubtitleCueTiming build block = .value (startMs, endMs) →
        ∃ start end', timelineParts block = some (start, end') ∧ exactMs start = some startMs.toNat ∧
          exactMs end' = some endMs.toNat ∧ startMs.toNat ≤ endMs.toNat := by
    rw [parseSubtitleCueTiming, Outcome.bind_def]
    cases hparts : timelineParts block with
    | none => simp
    | some parts =>
      obtain ⟨start, end'⟩ := parts
      obtain ⟨hstart, hend⟩ := h start end' hparts
      simp only [Outcome.ofOption_some, Outcome.value_bind, Outcome.bind_def]
      constructor
      · refine Outcome.safe_bind.mpr ⟨(hstart build).1, fun startMs hvalue => ?_⟩
        refine Outcome.safe_bind.mpr ⟨(hend (accepted_of_value hvalue) build).1, fun endMs _ => ?_⟩
        split <;> simp
      · intro startMs endMs hvalue
        obtain ⟨first, hfirst, hvalue⟩ := Outcome.bind_eq_value.mp hvalue
        obtain ⟨last, hlast, hvalue⟩ := Outcome.bind_eq_value.mp hvalue
        split at hvalue
        next hle =>
          cases hvalue
          exact ⟨start, end', rfl, (hstart build).2 _ hfirst, (hend (accepted_of_value hfirst) build).2 _ hlast,
            UInt64.le_iff_toNat_le.mp hle⟩
        next => cases hvalue
  exact ⟨fun build => (hpair build).1, h, fun build => (hpair build).2⟩

end

/-- The timing of a block is read exactly unless one of its timestamps does not fit, or has a sign on its fraction. -/
theorem exactTiming_iff (block : Text) : ExactTiming block ↔
    ∀ start end', timelineParts block = some (start, end') →
      WithinRegister start ∧ (Accepted start → WithinRegister end') := by
  simp only [← exact_iff]
  constructor
  · intro h
    exact h.2.1
  · intro h
    exact exactTiming_of_exact h

/-- `5124095576031:00:00 --> 5124095576031:00:01`. -/
def centuriesLate : Text := "5124095576031:00:00 --> 5124095576031:00:01".toList

theorem late_timestamp_overflows : ¬ ∀ block, ExactTiming block := by
  intro h
  have hsafe := (h centuriesLate).1 .checked
  have hpanic : parseSubtitleCueTiming .checked centuriesLate = .panic := by decide +kernel
  exact hsafe hpanic

end StreamArena.Media
