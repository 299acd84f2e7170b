import Mathlib
import StreamArena.Library.Decimal
import StreamArena.Media.VttNormalization

/-! The timing lines of subtitle cues, and that they keep their times. -/
namespace StreamArena.Media
open AsciiText Words Regexes Regexes.Regex Separated Decimal

def digitPair : Text → Option Nat
  | [a, b] => (parseDigits [a, b]).filter (· < 60)
  | _ => none

def secondsMs (marks : List Char) : Text → Option Nat
  | [a, b, mark, x, y, z] => do
    let seconds ← digitPair [a, b]
    let fraction ← parseDigits [x, y, z]
    if marks.contains mark then some (seconds * 1000 + fraction) else none
  | _ => none

/-- The time of a timestamp whose fraction stands behind one of some marks. -/
def timestampMs (marks : List Char) (token : Text) : Option Nat :=
  match token.splitOn ':' with
  | [minutes, seconds] => do
    let minutes ← digitPair minutes
    let ms ← secondsMs marks seconds
    some (minutes * 60000 + ms)
  | [hours, minutes, seconds] => do
    let hours ← parseDigits hours
    let minutes ← digitPair minutes
    let ms ← secondsMs marks seconds
    some (hours * 3600000 + minutes * 60000 + ms)
  | _ => none

/-- The times of a timing line. -/
def cueTimes (marks : List Char) (line : Text) : Option (Nat × Nat) := do
  let (before, after) ← splitOnce arrowText line
  let start ← timestampMs marks (trim before)
  let token ← (splitWhitespace after).head?
  let stop ← timestampMs marks token
  some (start, stop)

/-- The text of a timestamp behind its hours. -/
structure ClockTail where
  m1 : Char
  m2 : Char
  s1 : Char
  s2 : Char
  f1 : Char
  f2 : Char
  f3 : Char
  digits : [m1, m2, s1, s2, f1, f2, f3].all Char.isDigit = true

def ClockTail.text (tail : ClockTail) (mark : Char) : Text :=
  [tail.m1, tail.m2, ':', tail.s1, tail.s2, mark, tail.f1, tail.f2, tail.f3]

def hoursText : Option Text → Text
  | none => []
  | some hours => hours ++ [':']

theorem all_isDigit_of_parseDigits {text : Text} {n : Nat} (h : parseDigits text = some n) :
    text ≠ [] ∧ text.all Char.isDigit = true := by
  rw [parseDigits] at h
  split at h
  · next hdigits => simpa using hdigits
  · cases h

theorem digitPair_eq_some {text : Text} {n : Nat} (h : digitPair text = some n) :
    ∃ a b, text = [a, b] ∧ [a, b].all Char.isDigit = true := by
  unfold digitPair at h
  split at h
  · next a b =>
    rw [Option.filter_eq_some_iff] at h
    exact ⟨a, b, rfl, (all_isDigit_of_parseDigits h.1).2⟩
  · cases h

/-- Another mark before the fraction makes no difference to the time. -/
theorem secondsMs_eq_some {marks : List Char} {text : Text} {n : Nat} (h : secondsMs marks text = some n) :
    ∃ a b mark x y z, text = [a, b, mark, x, y, z] ∧ mark ∈ marks ∧ [a, b, x, y, z].all Char.isDigit = true ∧
      ∀ marks' : List Char, ∀ mark' ∈ marks', secondsMs marks' [a, b, mark', x, y, z] = some n := by
  unfold secondsMs at h
  split at h
  · next a b mark x y z =>
    simp only [Option.bind_eq_bind, Option.bind_eq_some_iff] at h
    obtain ⟨seconds, hseconds, fraction, hfraction, hmark⟩ := h
    split at hmark
    · next hmem =>
      obtain ⟨a', b', hpair, hdigits⟩ := digitPair_eq_some hseconds
      obtain ⟨-, hdigits'⟩ := all_isDigit_of_parseDigits hfraction
      refine ⟨a, b, mark, x, y, z, rfl, List.contains_iff_mem.mp hmem, ?_, fun marks' mark' hmark' => ?_⟩
      · rw [← hpair] at hdigits
        simp only [List.all_cons, Bool.and_eq_true] at hdigits hdigits' ⊢
        exact ⟨hdigits.1, hdigits.2.1, hdigits'⟩
      · have hmem' : marks'.contains mark' = true := List.contains_iff_mem.mpr hmark'
        simp only [secondsMs, hseconds, hfraction, Option.bind_eq_bind, Option.bind_some, hmem', if_true]
        exact hmark
    · cases hmark
  · cases h

theorem isDigit_ne {c d : Char} (hc : c.isDigit = true) (hd : d.isDigit = false) : c ≠ d := by
  rintro rfl
  rw [hc] at hd
  cases hd

theorem splitOn_colons {parts : List Text} (hne : parts ≠ []) (h : ∀ part ∈ parts, ':' ∉ part) :
    (join ':' parts).splitOn ':' = parts :=
  List.splitOn_intercalate ':' h hne

/-- Hours of a timestamp, if it has some. -/
def Hours (hours : Option Text) : Prop := ∀ text ∈ hours, text ≠ [] ∧ text.all Char.isDigit = true

/-- A timestamp is written as its hours and a clock, and has the same time with another mark. -/
theorem timestampMs_eq_some {marks : List Char} {token : Text} {t : Nat} (h : timestampMs marks token = some t) :
    ∃ (hours : Option Text) (tail : ClockTail) (mark : Char), Hours hours ∧ mark ∈ marks ∧
      token = hoursText hours ++ tail.text mark ∧
      ∀ marks' : List Char, ∀ mark' ∈ marks', mark' ≠ ':' → timestampMs marks' (hoursText hours ++ tail.text mark') = some t := by
  have hjoin : join ':' (token.splitOn ':') = token := List.intercalate_splitOn ':'
  have hfree {text : Text} (h : text.all Char.isDigit = true) : ':' ∉ text := fun hmem =>
    absurd (List.all_eq_true.mp h ':' hmem) (by decide)
  unfold timestampMs at h
  split at h
  · next minutes seconds hparts =>
    simp only [Option.bind_eq_bind, Option.bind_eq_some_iff] at h
    obtain ⟨m, hminutes, ms, hseconds, ht⟩ := h
    obtain ⟨m1, m2, rfl, hm⟩ := digitPair_eq_some hminutes
    obtain ⟨s1, s2, mark, f1, f2, f3, rfl, hmark, hs, hother⟩ := secondsMs_eq_some hseconds
    have hdigits : [m1, m2, s1, s2, f1, f2, f3].all Char.isDigit = true := by
      simp only [List.all_cons, Bool.and_eq_true] at hm hs ⊢
      exact ⟨hm.1, hm.2.1, hs⟩
    refine ⟨none, ⟨m1, m2, s1, s2, f1, f2, f3, hdigits⟩, mark, by simp [Hours], hmark, ?_, fun marks' mark' hmark' hcolon => ?_⟩
    · rw [hparts] at hjoin
      exact hjoin.symm
    · have hsplit := @splitOn_colons [[m1, m2], [s1, s2, mark', f1, f2, f3]] (by simp) (by
        simp only [List.all_cons, Bool.and_eq_true] at hdigits
        have hne {c : Char} (hc : c.isDigit = true) : ':' ≠ c := (isDigit_ne hc (by decide)).symm
        simp [hne hdigits.1, hne hdigits.2.1, hne hdigits.2.2.1, hne hdigits.2.2.2.1, hne hdigits.2.2.2.2.1, hne hdigits.2.2.2.2.2.1,
          hne hdigits.2.2.2.2.2.2.1, hcolon.symm])
      have htext : hoursText none ++ ClockTail.text ⟨m1, m2, s1, s2, f1, f2, f3, hdigits⟩ mark' =
          join ':' [[m1, m2], [s1, s2, mark', f1, f2, f3]] := rfl
      rw [timestampMs, htext, hsplit]
      simp only [hminutes, hother marks' mark' hmark', Option.bind_eq_bind, Option.bind_some]
      exact ht
  · next hourText minutes seconds hparts =>
    simp only [Option.bind_eq_bind, Option.bind_eq_some_iff] at h
    obtain ⟨hour, hhours, m, hminutes, ms, hseconds, ht⟩ := h
    obtain ⟨m1, m2, rfl, hm⟩ := digitPair_eq_some hminutes
    obtain ⟨s1, s2, mark, f1, f2, f3, rfl, hmark, hs, hother⟩ := secondsMs_eq_some hseconds
    have hdigits : [m1, m2, s1, s2, f1, f2, f3].all Char.isDigit = true := by
      simp only [List.all_cons, Bool.and_eq_true] at hm hs ⊢
      exact ⟨hm.1, hm.2.1, hs⟩
    have hhour := all_isDigit_of_parseDigits hhours
    refine ⟨some hourText, ⟨m1, m2, s1, s2, f1, f2, f3, hdigits⟩, mark, ?_, hmark, ?_, fun marks' mark' hmark' hcolon => ?_⟩
    · intro text htext
      rw [← Option.some.inj htext]
      exact hhour
    · rw [hparts] at hjoin
      rw [← hjoin]
      simp [join, List.intercalate, hoursText, ClockTail.text]
    · have hsplit := @splitOn_colons [hourText, [m1, m2], [s1, s2, mark', f1, f2, f3]] (by simp) (by
        simp only [List.all_cons, Bool.and_eq_true] at hdigits
        have hne {c : Char} (hc : c.isDigit = true) : ':' ≠ c := (isDigit_ne hc (by decide)).symm
        simp [hfree hhour.2, hne hdigits.1, hne hdigits.2.1, hne hdigits.2.2.1, hne hdigits.2.2.2.1, hne hdigits.2.2.2.2.1,
          hne hdigits.2.2.2.2.2.1, hne hdigits.2.2.2.2.2.2.1, hcolon.symm])
      have htext : hoursText (some hourText) ++ ClockTail.text ⟨m1, m2, s1, s2, f1, f2, f3, hdigits⟩ mark' =
          join ':' [hourText, [m1, m2], [s1, s2, mark', f1, f2, f3]] := by
        simp [join, List.intercalate, hoursText, ClockTail.text]
      rw [timestampMs, htext, hsplit]
      simp only [hhours, hminutes, hother marks' mark' hmark', Option.bind_eq_bind, Option.bind_some]
      exact ht
  · cases h

section
variable (digits : Digits)

theorem Digits.of_isDigit {c : Char} (h : c.isDigit = true) : digits.isDigit c = true := by
  have hrange : c.toNat < 128 := by
    simp only [Char.isDigit, Bool.and_eq_true, decide_eq_true_eq] at h
    have hle : c.val.toNat ≤ 57 := h.2
    exact Nat.lt_of_le_of_lt hle (by decide)
  rw [digits.ascii c hrange, h]

theorem Digits.colon : digits.isDigit ':' = false := digits.ascii ':' (by decide)
theorem Digits.comma : digits.isDigit ',' = false := digits.ascii ',' (by decide)
theorem Digits.point : digits.isDigit '.' = false := digits.ascii '.' (by decide)
theorem Digits.dash : digits.isDigit '-' = false := digits.ascii '-' (by decide)
theorem Digits.greater : digits.isDigit '>' = false := digits.ascii '>' (by decide)

/-- A timestamp starts with two digits and a colon. -/
theorem matchAt_srt_none {before : Option Char} {s : Text}
    (h : ∀ a b rest, s = a :: b :: ':' :: rest → digits.isDigit a = true → digits.isDigit b = false) :
    (srtTimestamp digits).matchAt noWords before s = none := by
  have hrun : (srtTimestamp digits).run noWords ⟨before, s, []⟩ = [] := by
    cases s with
    | nil => rfl
    | cons a s =>
      by_cases ha : digits.isDigit a = true
      · cases s with
        | nil => simp [srtTimestamp, run, ha]
        | cons b s =>
          by_cases hb : digits.isDigit b = true
          · cases s with
            | nil => simp [srtTimestamp, run, one, ha, hb]
            | cons c s =>
              have hc : c ≠ ':' := by
                rintro rfl
                rw [h a b s rfl ha] at hb
                cases hb
              simp [srtTimestamp, run, one, ha, hb, hc]
          · simp [srtTimestamp, run, ha, hb]
      · simp [srtTimestamp, run, ha]
  rw [matchAt, hrun]
  rfl

theorem avoids_srtTimestamp : (srtTimestamp digits).avoids '\n' = true := by
  have hdigit : digits.isDigit '\n' = false := digits.ascii '\n' (by decide)
  simp [srtTimestamp, avoids, opt, one, hdigit]

variable {digits}

theorem normalizeSrt_cons {c : Char} {s : Text}
    (h : ∀ b rest, s = b :: ':' :: rest → digits.isDigit c = true → digits.isDigit b = false) :
    normalizeSrtTimestamps digits (c :: s) = c :: normalizeSrtTimestamps digits s := by
  have hnone : (srtTimestamp digits).matchAt noWords none (c :: s) = none := by
    apply matchAt_srt_none
    intro a b rest heq ha
    obtain ⟨rfl, rfl⟩ := List.cons.inj heq
    exact h b rest rfl ha
  rw [normalizeSrtTimestamps, replaceAll_cons (avoids_srtTimestamp digits), hnone]
  rfl

/-- What holds no digit stays as it is. -/
theorem normalizeSrt_append {s : Text} (h : ∀ c ∈ s, digits.isDigit c = false) (rest : Text) :
    normalizeSrtTimestamps digits (s ++ rest) = s ++ normalizeSrtTimestamps digits rest := by
  induction s with
  | nil => rfl
  | cons c s ih =>
    have hc := h c List.mem_cons_self
    rw [List.cons_append, normalizeSrt_cons (fun _ _ _ hdigit => by rw [hc] at hdigit; cases hdigit),
      ih fun d hd => h d (List.mem_cons_of_mem c hd)]
    rfl

theorem ClockTail.isDigits (tail : ClockTail) : digits.isDigit tail.m1 = true ∧ digits.isDigit tail.m2 = true ∧
    digits.isDigit tail.s1 = true ∧ digits.isDigit tail.s2 = true ∧ digits.isDigit tail.f1 = true ∧
      digits.isDigit tail.f2 = true ∧ digits.isDigit tail.f3 = true := by
  have hdigits := tail.digits
  simp only [List.all_cons, List.all_nil, Bool.and_true, Bool.and_eq_true] at hdigits
  exact ⟨digits.of_isDigit hdigits.1, digits.of_isDigit hdigits.2.1, digits.of_isDigit hdigits.2.2.1, digits.of_isDigit hdigits.2.2.2.1,
    digits.of_isDigit hdigits.2.2.2.2.1, digits.of_isDigit hdigits.2.2.2.2.2.1, digits.of_isDigit hdigits.2.2.2.2.2.2⟩

/-- What stands behind a timestamp neither goes on with digits nor with a colon. -/
def Quiet (digits : Digits) (rest : Text) : Prop := ∀ c ∈ rest.head?, digits.isDigit c = false ∧ c ≠ ':'

theorem matchAt_srt_comma (tail : ClockTail) (before : Option Char) (rest : Text) :
    (srtTimestamp digits).matchAt noWords before (tail.text ',' ++ rest) =
      some ⟨some tail.f3, rest, [[tail.m1, tail.m2, ':', tail.s1, tail.s2], [tail.f1, tail.f2, tail.f3]]⟩ := by
  obtain ⟨h1, h2, h3, h4, h5, h6, h7⟩ := @ClockTail.isDigits digits tail
  have hthree : rest.length + 1 + 1 + 1 - rest.length = 3 := by omega
  have hfive : rest.length + 1 + 1 + 1 + 1 + 1 + 1 + 1 + 1 + 1 - (rest.length + 1 + 1 + 1 + 1) = 5 := by omega
  have hless : rest.length ≤ rest.length + 1 + 1 + 1 + 1 + 1 + 1 + 1 + 1 := by omega
  simp [matchAt, srtTimestamp, run, one, opt, ClockTail.text, h1, h2, h3, h4, h5, h6, h7, hthree, hless]

theorem matchAt_srt_hours {a b : Char} (ha : digits.isDigit a = true) (hb : digits.isDigit b = true) (tail : ClockTail)
    (before : Option Char) (rest : Text) :
    (srtTimestamp digits).matchAt noWords before (a :: b :: ':' :: (tail.text ',' ++ rest)) =
      some ⟨some tail.f3, rest, [[a, b, ':', tail.m1, tail.m2, ':', tail.s1, tail.s2], [tail.f1, tail.f2, tail.f3]]⟩ := by
  obtain ⟨h1, h2, h3, h4, h5, h6, h7⟩ := @ClockTail.isDigits digits tail
  have hthree : rest.length + 1 + 1 + 1 - rest.length = 3 := by omega
  have hless : rest.length ≤ rest.length + 1 + 1 + 1 + 1 + 1 + 1 + 1 + 1 + 1 + 1 + 1 := by omega
  simp [matchAt, srtTimestamp, run, one, opt, ClockTail.text, ha, hb, h1, h2, h3, h4, h5, h6, h7, hthree, hless]

theorem matchAt_srt_point (tail : ClockTail) (before : Option Char) (rest : Text) :
    (srtTimestamp digits).matchAt noWords before (tail.text '.' ++ rest) = none := by
  obtain ⟨h1, h2, h3, h4, -, -, -⟩ := @ClockTail.isDigits digits tail
  simp [matchAt, srtTimestamp, run, one, opt, ClockTail.text, h1, h2, h3, h4]

theorem matchAt_srt_hours_point {a b : Char} (ha : digits.isDigit a = true) (hb : digits.isDigit b = true) (tail : ClockTail)
    (before : Option Char) (rest : Text) :
    (srtTimestamp digits).matchAt noWords before (a :: b :: ':' :: (tail.text '.' ++ rest)) = none := by
  obtain ⟨h1, h2, h3, h4, -, -, -⟩ := @ClockTail.isDigits digits tail
  simp [matchAt, srtTimestamp, run, one, opt, ClockTail.text, ha, hb, h1, h2, h3, h4]

/-- A clock ends up with a point. -/
theorem normalizeSrt_tail {mark : Char} (hmark : mark = ',' ∨ mark = '.') (tail : ClockTail) {rest : Text} (hrest : Quiet digits rest) :
    normalizeSrtTimestamps digits (tail.text mark ++ rest) = tail.text '.' ++ normalizeSrtTimestamps digits rest := by
  obtain ⟨h1, h2, h3, h4, h5, h6, h7⟩ := @ClockTail.isDigits digits tail
  have hcolon := digits.colon
  have hpoint := digits.point
  rcases hmark with rfl | rfl
  · have hfound := @matchAt_srt_comma digits tail none rest
    rw [ClockTail.text, List.cons_append] at hfound
    rw [normalizeSrtTimestamps, ClockTail.text, List.cons_append, replaceAll_cons (avoids_srtTimestamp digits), hfound]
    rfl
  · have hnone := @matchAt_srt_point digits tail none rest
    rw [ClockTail.text, List.cons_append] at hnone
    have hdigit {c : Char} (hc : digits.isDigit c = true) : c ≠ ':' := by
      rintro rfl
      rw [hcolon] at hc
      cases hc
    have hfirst : normalizeSrtTimestamps digits (tail.text '.' ++ rest) =
        tail.m1 :: normalizeSrtTimestamps digits ([tail.m2, ':', tail.s1, tail.s2, '.', tail.f1, tail.f2, tail.f3] ++ rest) := by
      rw [normalizeSrtTimestamps, ClockTail.text, List.cons_append, replaceAll_cons (avoids_srtTimestamp digits), hnone]
      rfl
    have hquiet {b : Char} {more : Text} (h : rest = b :: more) : digits.isDigit b = false ∧ b ≠ ':' := hrest b (by simp [h])
    rw [hfirst]
    simp only [List.cons_append, List.nil_append, ClockTail.text]
    rw [normalizeSrt_cons, normalizeSrt_cons, normalizeSrt_cons, normalizeSrt_cons, normalizeSrt_cons, normalizeSrt_cons,
      normalizeSrt_cons, normalizeSrt_cons]
    · intro b more heq _
      exact (hquiet heq).1
    · intro b more heq _
      exact absurd rfl (hquiet (List.cons.inj heq).2).2
    · intro b more heq _
      exact absurd (List.cons.inj (List.cons.inj heq).2).1 (hdigit h7)
    · intro b more heq hc
      rw [hpoint] at hc
      cases hc
    · intro b more heq _
      rw [← (List.cons.inj heq).1]
      exact hpoint
    · intro b more heq _
      exact absurd (List.cons.inj (List.cons.inj heq).2).1 (by decide)
    · intro b more heq hc
      rw [hcolon] at hc
      cases hc
    · intro b more heq _
      rw [← (List.cons.inj heq).1]
      exact hcolon

/-- A timestamp ends up with a point. -/
theorem normalizeSrt_timestamp {hours : Option Text} (hhours : Hours hours) {mark : Char} (hmark : mark = ',' ∨ mark = '.')
    (tail : ClockTail) {rest : Text} (hrest : Quiet digits rest) :
    normalizeSrtTimestamps digits (hoursText hours ++ tail.text mark ++ rest) =
      hoursText hours ++ tail.text '.' ++ normalizeSrtTimestamps digits rest := by
  have hcolon := digits.colon
  cases hours with
  | none => exact normalizeSrt_tail hmark tail hrest
  | some text =>
    obtain ⟨hne, hall⟩ := hhours text rfl
    have hdigits : ∀ c ∈ text, digits.isDigit c = true := fun c hc => digits.of_isDigit (List.all_eq_true.mp hall c hc)
    have hbehind : normalizeSrtTimestamps digits (':' :: (tail.text mark ++ rest)) =
        ':' :: (tail.text '.' ++ normalizeSrtTimestamps digits rest) := by
      rw [normalizeSrt_cons, normalizeSrt_tail hmark tail hrest]
      intro b more _ hc
      rw [hcolon] at hc
      cases hc
    simp only [hoursText, List.append_assoc, List.cons_append, List.nil_append]
    clear hall hhours
    induction text with
    | nil => exact absurd rfl hne
    | cons a text ih =>
      have ha := hdigits a List.mem_cons_self
      cases text with
      | nil =>
        rw [List.cons_append, List.nil_append, normalizeSrt_cons, hbehind]
        · rfl
        · intro b more heq _
          rw [← (List.cons.inj heq).1]
          exact hcolon
      | cons b text =>
        have hb := hdigits b (List.mem_cons_of_mem a List.mem_cons_self)
        cases text with
        | nil =>
          rcases hmark with rfl | rfl
          · have hfound := @matchAt_srt_hours digits _ _ ha hb tail none rest
            rw [List.cons_append, List.cons_append, List.nil_append, normalizeSrtTimestamps,
              replaceAll_cons (avoids_srtTimestamp digits), hfound]
            rfl
          · have hnone := @matchAt_srt_hours_point digits _ _ ha hb tail none rest
            have hnext : normalizeSrtTimestamps digits (b :: ':' :: (tail.text '.' ++ rest)) =
                b :: ':' :: (tail.text '.' ++ normalizeSrtTimestamps digits rest) := by
              rw [normalizeSrt_cons, hbehind]
              intro c more heq _
              rw [← (List.cons.inj heq).1]
              exact hcolon
            rw [List.cons_append, List.cons_append, List.nil_append, normalizeSrtTimestamps,
              replaceAll_cons (avoids_srtTimestamp digits), hnone]
            exact congrArg (a :: ·) hnext
        | cons c text =>
          have hc := hdigits c (List.mem_cons_of_mem a (List.mem_cons_of_mem b List.mem_cons_self))
          rw [List.cons_append, normalizeSrt_cons, ih (List.cons_ne_nil b _) fun d hd => hdigits d (List.mem_cons_of_mem a hd)]
          · rfl
          · intro d more heq _
            have hcc : c = ':' := (List.cons.inj (List.cons.inj heq).2).1
            rw [hcc, hcolon] at hc
            cases hc

end

/-- A timing line: two timestamps with an arrow between, and what follows behind white space. -/
structure TimingLine (marks : List Char) where
  front : Text
  startHours : Option Text
  startTail : ClockTail
  startMark : Char
  left : Text
  right : Text
  stopHours : Option Text
  stopTail : ClockTail
  stopMark : Char
  rest : Text
  hfront : TextLines.isBlank front = true
  hstart : Hours startHours
  hstartMark : startMark ∈ marks
  hleft : TextLines.isBlank left = true
  hright : TextLines.isBlank right = true
  hstop : Hours stopHours
  hstopMark : stopMark ∈ marks
  hrest : Parted rest

namespace TimingLine
variable {marks : List Char} (line : TimingLine marks)

/-- The timestamps, with one mark or another. -/
def start (mark : Char) : Text := hoursText line.startHours ++ line.startTail.text mark
def stop (mark : Char) : Text := hoursText line.stopHours ++ line.stopTail.text mark

def text : Text :=
  line.front ++ (line.start line.startMark ++ (line.left ++ (arrowText ++ (line.right ++ (line.stop line.stopMark ++ line.rest)))))

end TimingLine

/-- Marks that are no white space, no colon and no dash. -/
def Plain (marks : List Char) : Prop := ∀ mark ∈ marks, mark = ',' ∨ mark = '.'

theorem mem_timestamp {hours : Option Text} (hhours : Hours hours) (tail : ClockTail) {mark c : Char}
    (h : c ∈ hoursText hours ++ tail.text mark) : c.isDigit = true ∨ c = ':' ∨ c = mark := by
  have hdigits := tail.digits
  simp only [List.all_cons, List.all_nil, Bool.and_true, Bool.and_eq_true] at hdigits
  rcases List.mem_append.mp h with h | h
  · cases hours with
    | none => cases h
    | some text =>
      rcases List.mem_append.mp h with h | h
      · exact .inl (List.all_eq_true.mp (hhours text rfl).2 c h)
      · exact .inr (.inl (List.mem_singleton.mp h))
  · simp only [ClockTail.text, List.mem_cons, List.not_mem_nil, or_false] at h
    rcases h with rfl | rfl | rfl | rfl | rfl | rfl | rfl | rfl | rfl <;> simp [hdigits]

/-- A timestamp is one word, without a dash. -/
theorem timestamp_word {hours : Option Text} (hhours : Hours hours) (tail : ClockTail) {mark : Char}
    (hmark : mark = ',' ∨ mark = '.') : hoursText hours ++ tail.text mark ≠ [] ∧
      ∀ c ∈ hoursText hours ++ tail.text mark, isWhitespace c = false ∧ c ≠ '-' := by
  refine ⟨by simp [ClockTail.text], fun c hc => ?_⟩
  rcases mem_timestamp hhours tail hc with hdigit | rfl | rfl
  · exact ⟨not_isWhitespace_of_isDigit hdigit, isDigit_ne hdigit (by decide)⟩
  · decide
  · rcases hmark with rfl | rfl <;> decide

theorem notMem_dash_of_isBlank {s : Text} (h : TextLines.isBlank s = true) : '-' ∉ s := fun hmem =>
  absurd (List.all_eq_true.mp h '-' hmem) (by decide)

theorem head_timestamp {hours : Option Text} (hhours : Hours hours) (tail : ClockTail) (mark : Char) :
    ∃ d rest, hoursText hours ++ tail.text mark = d :: rest ∧ d.isDigit = true := by
  cases hours with
  | none =>
    have hdigits := tail.digits
    simp only [List.all_cons, Bool.and_eq_true] at hdigits
    exact ⟨tail.m1, _, rfl, hdigits.1⟩
  | some text =>
    obtain ⟨hne, hall⟩ := hhours text rfl
    cases text with
    | nil => exact absurd rfl hne
    | cons d text => exact ⟨d, _, rfl, List.all_eq_true.mp hall d List.mem_cons_self⟩

/-- A timing line is split at its arrow. -/
theorem splitOnce_text {marks : List Char} (hplain : Plain marks) (line : TimingLine marks) :
    splitOnce arrowText line.text = some (line.front ++ (line.start line.startMark ++ line.left),
      line.right ++ (line.stop line.stopMark ++ line.rest)) := by
  obtain ⟨-, hstart⟩ := timestamp_word line.hstart line.startTail (hplain _ line.hstartMark)
  have hdash : '-' ∉ line.front ++ (line.start line.startMark ++ line.left) := by
    intro hmem
    rcases List.mem_append.mp hmem with hmem | hmem
    · exact notMem_dash_of_isBlank line.hfront hmem
    · rcases List.mem_append.mp hmem with hmem | hmem
      · exact (hstart _ hmem).2 rfl
      · exact notMem_dash_of_isBlank line.hleft hmem
  have hsplit := @splitOnce_of_notMem '-' ['-', '>'] _ hdash (line.right ++ (line.stop line.stopMark ++ line.rest))
  have htext : line.text = (line.front ++ (line.start line.startMark ++ line.left)) ++
      ('-' :: ['-', '>'] ++ (line.right ++ (line.stop line.stopMark ++ line.rest))) := by
    simp [TimingLine.text, arrowText]
  rw [htext]
  exact hsplit

/-- The times of a timing line are those of its timestamps. -/
theorem cueTimes_text {marks marks' : List Char} (hplain : Plain marks) (line : TimingLine marks) :
    cueTimes marks' line.text = (do
      let start ← timestampMs marks' (line.start line.startMark)
      let stop ← timestampMs marks' (line.stop line.stopMark)
      some (start, stop)) := by
  obtain ⟨hstartne, hstart⟩ := timestamp_word line.hstart line.startTail (hplain _ line.hstartMark)
  obtain ⟨hstopne, hstop⟩ := timestamp_word line.hstop line.stopTail (hplain _ line.hstopMark)
  have htrim : trim (line.front ++ (line.start line.startMark ++ line.left)) = line.start line.startMark := by
    have hword := TextLines.trimEnd_word [] hstartne (fun c hc => (hstart c hc).1) line.left
    rw [TextLines.trimEnd_eq_nil.mpr line.hleft, List.append_nil] at hword
    rw [TextLines.trim_eq, TextLines.trimStart_blank line.hfront]
    exact (congrArg trimEnd (TextLines.trimStart_word hstartne (fun c hc => (hstart c hc).1) line.left)).trans hword
  have hword : (splitWhitespace (line.right ++ (line.stop line.stopMark ++ line.rest))).head? = some (line.stop line.stopMark) := by
    rw [splitWhitespace_blank (fun c hc => List.all_eq_true.mp line.hright c hc)]
    exact congrArg List.head? (splitWhitespace_word hstopne (fun c hc => (hstop c hc).1) line.hrest)
  rw [cueTimes, splitOnce_text hplain]
  simp only [Option.bind_eq_bind, Option.bind_some, htrim, hword]

/-- Every line with times is written so. -/
theorem exists_timingLine {marks : List Char} {line : Text} {times : Nat × Nat} (h : cueTimes marks line = some times) :
    ∃ timing : TimingLine marks, timing.text = line ∧ ∀ marks' mark mark', mark ∈ marks' → mark ≠ ':' → mark' ∈ marks' → mark' ≠ ':' →
      timestampMs marks' (timing.start mark) = some times.1 ∧ timestampMs marks' (timing.stop mark') = some times.2 := by
  rw [cueTimes] at h
  simp only [Option.bind_eq_bind, Option.bind_eq_some_iff] at h
  obtain ⟨⟨before, after⟩, hsplit, start, hstart, token, htoken, stop, hstop, htimes⟩ := h
  obtain ⟨front, left, hbefore, hfront, hleft⟩ := TextLines.trim_append before
  obtain ⟨right, rest, hafter, hright, -, -, hrest⟩ := head_splitWhitespace htoken
  obtain ⟨startHours, startTail, startMark, hstartHours, hstartMark, hstartText, hstartOther⟩ := timestampMs_eq_some hstart
  obtain ⟨stopHours, stopTail, stopMark, hstopHours, hstopMark, hstopText, hstopOther⟩ := timestampMs_eq_some hstop
  have hright : TextLines.isBlank right = true := List.all_eq_true.mpr hright
  have hafter : after = right ++ (token ++ rest) := hafter
  have hstartText : trim before = hoursText startHours ++ startTail.text startMark := hstartText
  refine ⟨⟨front, startHours, startTail, startMark, left, right, stopHours, stopTail, stopMark, rest, hfront, hstartHours, hstartMark,
    hleft, hright, hstopHours, hstopMark, hrest⟩, ?_, fun marks' mark mark' hmark hcolon hmark' hcolon' => ?_⟩
  · rw [splitOnce_eq_some hsplit, hafter, hbefore, hstartText, hstopText]
    simp [TimingLine.text, TimingLine.start, TimingLine.stop]
  · rw [← Option.some.inj htimes]
    exact ⟨hstartOther marks' mark hmark hcolon, hstopOther marks' mark' hmark' hcolon'⟩

section
variable {digits : Digits} {marks : List Char}

theorem isDigit_of_isBlank {s : Text} (h : TextLines.isBlank s = true) : ∀ c ∈ s, digits.isDigit c = false := fun c hc =>
  digits.whitespace c (List.all_eq_true.mp h c hc)

theorem quiet_of_parted {s : Text} (h : Parted s) : Quiet digits s := by
  intro c hc
  have hspace := h c hc
  refine ⟨digits.whitespace c hspace, ?_⟩
  rintro rfl
  exact absurd hspace (by decide)

theorem parted_normalizeSrt {s : Text} (h : Parted s) : Parted (normalizeSrtTimestamps digits s) := by
  cases s with
  | nil => exact h
  | cons c s =>
    have hc := h c rfl
    rw [normalizeSrt_cons fun _ _ _ hdigit => by rw [digits.whitespace c hc] at hdigit; cases hdigit]
    exact fun d hd => Option.some.inj hd ▸ hc

/-- A timing line of one kind of subtitles as one of the other. -/
def TimingLine.pointed (digits : Digits) (line : TimingLine marks) : TimingLine ['.'] :=
  { line with
    startMark := '.'
    stopMark := '.'
    rest := normalizeSrtTimestamps digits line.rest
    hstartMark := List.mem_singleton_self '.'
    hstopMark := List.mem_singleton_self '.'
    hrest := parted_normalizeSrt line.hrest }

theorem normalizeSrt_text (hplain : Plain marks) (line : TimingLine marks) :
    normalizeSrtTimestamps digits line.text = (line.pointed digits).text := by
  have hrest : Quiet digits line.rest := quiet_of_parted line.hrest
  have harrow (s : Text) : normalizeSrtTimestamps digits (arrowText ++ s) = arrowText ++ normalizeSrtTimestamps digits s := by
    apply normalizeSrt_append
    intro c hc
    have hmem : c = '-' ∨ c = '>' := by
      simp [arrowText] at hc
      rcases hc with rfl | rfl | rfl <;> simp
    rcases hmem with rfl | rfl
    · exact digits.dash
    · exact digits.greater
  have hleft : Quiet digits (line.left ++ (arrowText ++ (line.right ++ (line.stop line.stopMark ++ line.rest)))) := by
    cases hl : line.left with
    | nil =>
      intro c hc
      have hdash : c = '-' := by simpa [arrowText, eq_comm] using hc
      rw [hdash]
      exact ⟨digits.dash, by decide⟩
    | cons d left =>
      refine quiet_of_parted fun c hc => ?_
      have hd : d = c := by simpa using hc
      have hblank := line.hleft
      rw [hl] at hblank
      rw [← hd]
      exact List.all_eq_true.mp hblank d List.mem_cons_self
  have hstart := normalizeSrt_timestamp line.hstart (hplain _ line.hstartMark) line.startTail hleft
  have hstop := normalizeSrt_timestamp line.hstop (hplain _ line.hstopMark) line.stopTail hrest
  rw [TimingLine.text, normalizeSrt_append (isDigit_of_isBlank line.hfront), TimingLine.start, hstart,
    normalizeSrt_append (isDigit_of_isBlank line.hleft), harrow, normalizeSrt_append (isDigit_of_isBlank line.hright),
    TimingLine.stop, hstop]
  rfl

end

section
variable {marks : List Char}

/-- A line with the timestamps of another one, and other white space and settings. -/
def TimingLine.respaced (line : TimingLine marks) (left right rest : Text) (hleft : TextLines.isBlank left = true)
    (hright : TextLines.isBlank right = true) (hrest : Parted rest) : TimingLine marks :=
  { line with
    front := []
    left
    right
    rest
    hfront := rfl
    hleft
    hright
    hrest }

theorem parted_trimEnd {s : Text} (h : Parted s) : Parted (trimEnd s) := by
  intro c hc
  have hprefix : trimEnd s <+: s := List.rdropWhile_prefix isWhitespace s
  cases hs : trimEnd s with
  | nil =>
    rw [hs] at hc
    cases hc
  | cons d t =>
    rw [hs] at hprefix hc
    obtain ⟨more, hmore⟩ := hprefix
    rw [← hmore] at h
    exact h c hc

theorem trim_text (hplain : Plain marks) (line : TimingLine marks) :
    trim line.text = (line.respaced line.left line.right (trimEnd line.rest) line.hleft line.hright (parted_trimEnd line.hrest)).text := by
  obtain ⟨hstartne, hstart⟩ := timestamp_word line.hstart line.startTail (hplain _ line.hstartMark)
  obtain ⟨hstopne, hstop⟩ := timestamp_word line.hstop line.stopTail (hplain _ line.hstopMark)
  have hend := TextLines.trimEnd_word (line.start line.startMark ++ (line.left ++ (arrowText ++ line.right))) hstopne
    (fun c hc => (hstop c hc).1) line.rest
  have htext : line.text = line.front ++ (line.start line.startMark ++ (line.left ++ (arrowText ++ (line.right ++
      (line.stop line.stopMark ++ line.rest))))) := rfl
  have hjoin (rest : Text) : line.start line.startMark ++ (line.left ++ (arrowText ++ (line.right ++ (line.stop line.stopMark ++ rest)))) =
      (line.start line.startMark ++ (line.left ++ (arrowText ++ line.right))) ++ (line.stop line.stopMark ++ rest) := by simp
  rw [TextLines.trim_eq, htext, TextLines.trimStart_blank line.hfront]
  refine (congrArg trimEnd (TextLines.trimStart_word hstartne (fun c hc => (hstart c hc).1) _)).trans ?_
  refine (congrArg trimEnd (hjoin line.rest)).trans (hend.trans (hjoin (trimEnd line.rest)).symm)

theorem contains_arrow (hplain : Plain marks) (line : TimingLine marks) : contains line.text arrowText = true := by
  rw [contains, splitOnce_text hplain]
  rfl

theorem startsWith_of_ne {c d : Char} (h : c ≠ d) (s pre : Text) : startsWith (d :: s) (c :: pre) = false := by
  simp [startsWith, List.isPrefixOf, h]

theorem not_displayToken {d : Char} (hd : d ∉ ['l', 'p', 's', 'a']) (s : Text) :
    (displayTokens.any fun setting => startsWith (d :: s) setting) = false := by
  simp only [List.mem_cons, List.not_mem_nil, or_false, not_or, ne_comm (a := d)] at hd
  simp [displayTokens, startsWith_of_ne hd.1, startsWith_of_ne hd.2.1, startsWith_of_ne hd.2.2.1, startsWith_of_ne hd.2.2.2]

theorem not_keyword {d : Char} (hd : d ∉ ['W', 'N', 'R', 'X']) (s : Text) :
    (keywords.any fun keyword => startsWith (d :: s) keyword) = false := by
  simp only [List.mem_cons, List.not_mem_nil, or_false, not_or, ne_comm (a := d)] at hd
  simp [keywords, startsWith_of_ne hd.1, startsWith_of_ne hd.2.1, startsWith_of_ne hd.2.2.1, startsWith_of_ne hd.2.2.2]

theorem join_parted (first : Text) (words : List Text) : ∃ rest, join ' ' (first :: words) = first ++ rest ∧ Parted rest := by
  cases words with
  | nil => exact ⟨[], by rw [join_singleton, List.append_nil], by simp [Parted]⟩
  | cons next words =>
    refine ⟨' ' :: join ' ' (next :: words), join_cons first (List.cons_ne_nil next words), fun c hc => ?_⟩
    rw [← Option.some.inj hc]
    decide

/-- The words that are left of a timing line start with its timestamps, the arrow between them. -/
theorem stripped_text (hplain : Plain marks) (line : TimingLine marks) : ∃ (left right rest : Text)
    (hleft : TextLines.isBlank left = true) (hright : TextLines.isBlank right = true) (hrest : Parted rest),
      join ' ' ((splitWhitespace line.text).filter keepsToken) =
        (line.respaced left right rest hleft hright hrest).text := by
  obtain ⟨hstartne, hstartFree⟩ := timestamp_word line.hstart line.startTail (hplain _ line.hstartMark)
  obtain ⟨hstopne, hstopFree⟩ := timestamp_word line.hstop line.stopTail (hplain _ line.hstopMark)
  rw [← TimingLine.start] at hstartne
  rw [← TimingLine.stop] at hstopne
  obtain ⟨d, startRest, hd, hdigit⟩ := head_timestamp line.hstart line.startTail line.startMark
  obtain ⟨e, stopRest, he, hdigit'⟩ := head_timestamp line.hstop line.stopTail line.stopMark
  have hfree : ∀ c ∈ arrowText, isWhitespace c = false := by
    have hall : arrowText.all (fun c => !isWhitespace c) = true := by decide
    intro c hc
    simpa using List.all_eq_true.mp hall c hc
  have hkeepDigit {c : Char} (hc : c.isDigit = true) (s : Text) :
      keepsToken (c :: s) = true := by
    rw [keepsToken, not_displayToken]
    · rfl
    · have hne {x : Char} (hx : x.isDigit = false) : c ≠ x := isDigit_ne hc hx
      simp [hne (x := 'l') (by decide), hne (x := 'p') (by decide), hne (x := 's') (by decide), hne (x := 'a') (by decide)]
  have hkeepStart (s : Text) : keepsToken (line.start line.startMark ++ s) = true := by
    rw [TimingLine.start, hd]
    exact hkeepDigit hdigit _
  have hkeepStop : keepsToken (line.stop line.stopMark) = true := by
    rw [TimingLine.stop, he]
    exact hkeepDigit hdigit' _
  have hkeepArrow (s : Text) : keepsToken (arrowText ++ s) = true := by
    have harrow : arrowText ++ s = '-' :: ('-' :: '>' :: s) := rfl
    rw [harrow, keepsToken, not_displayToken (by decide)]
    rfl
  have hparted {blank : Text} (hblank : TextLines.isBlank blank = true) (hne : blank ≠ []) (s : Text) : Parted (blank ++ s) := by
    cases blank with
    | nil => exact absurd rfl hne
    | cons c blank => exact fun x hx => Option.some.inj hx ▸ List.all_eq_true.mp hblank c List.mem_cons_self
  have hwords {word : Text} (hne : word ≠ []) (hword : ∀ c ∈ word, isWhitespace c = false) {blank : Text}
      (hblank : TextLines.isBlank blank = true) (hblankne : blank ≠ []) (s : Text) :
      splitWhitespace (word ++ (blank ++ s)) = word :: splitWhitespace s := by
    rw [splitWhitespace_word hne hword (hparted hblank hblankne s), splitWhitespace_blank fun c hc => List.all_eq_true.mp hblank c hc]
  have htext : splitWhitespace line.text = splitWhitespace (line.start line.startMark ++ (line.left ++ (arrowText ++ (line.right ++
      (line.stop line.stopMark ++ line.rest))))) := splitWhitespace_blank (fun c hc => List.all_eq_true.mp line.hfront c hc) _
  have hblank : TextLines.isBlank [' '] = true := by decide
  have hjoined (word next : Text) (words : List Text) : join ' ' (word :: next :: words) = word ++ ([' '] ++ join ' ' (next :: words)) :=
    join_cons word (List.cons_ne_nil next words)
  have happ {word word' : Text} (h : ∀ c ∈ word, isWhitespace c = false) (h' : ∀ c ∈ word', isWhitespace c = false) :
      ∀ c ∈ word ++ word', isWhitespace c = false := fun c hc => (List.mem_append.mp hc).elim (h c) (h' c)
  have hstart : ∀ c ∈ line.start line.startMark, isWhitespace c = false := fun c hc => (hstartFree c hc).1
  have hstop : ∀ c ∈ line.stop line.stopMark, isWhitespace c = false := fun c hc => (hstopFree c hc).1
  have hstopWords : splitWhitespace (line.stop line.stopMark ++ line.rest) = line.stop line.stopMark :: splitWhitespace line.rest :=
    splitWhitespace_word hstopne hstop line.hrest
  have harrowWords : splitWhitespace (arrowText ++ (line.stop line.stopMark ++ line.rest)) =
      (arrowText ++ line.stop line.stopMark) :: splitWhitespace line.rest := by
    rw [← List.append_assoc]
    exact splitWhitespace_word (by simp [arrowText]) (happ hfree hstop) line.hrest
  rw [htext]
  by_cases hl : line.left = []
  · by_cases hr : line.right = []
    · have hall : splitWhitespace (line.start line.startMark ++ (arrowText ++ (line.stop line.stopMark ++ line.rest))) =
          (line.start line.startMark ++ (arrowText ++ line.stop line.stopMark)) :: splitWhitespace line.rest := by
        have hassoc : line.start line.startMark ++ (arrowText ++ (line.stop line.stopMark ++ line.rest)) =
            (line.start line.startMark ++ (arrowText ++ line.stop line.stopMark)) ++ line.rest := by simp
        rw [hassoc]
        exact splitWhitespace_word (by simp [arrowText]) (happ hstart (happ hfree hstop)) line.hrest
      obtain ⟨rest, hjoin, hrest⟩ := join_parted (line.start line.startMark ++ (arrowText ++ line.stop line.stopMark))
        ((splitWhitespace line.rest).filter keepsToken)
      refine ⟨[], [], rest, TextLines.isBlank_nil, TextLines.isBlank_nil, hrest, ?_⟩
      rw [hl, hr, List.nil_append, List.nil_append, hall, List.filter_cons_of_pos (hkeepStart _), hjoin]
      simp [TimingLine.text, TimingLine.respaced, TimingLine.start, TimingLine.stop]
    · have hall : splitWhitespace (line.start line.startMark ++ (arrowText ++ (line.right ++ (line.stop line.stopMark ++ line.rest)))) =
          (line.start line.startMark ++ arrowText) :: line.stop line.stopMark :: splitWhitespace line.rest := by
        rw [← List.append_assoc, hwords (by simp [arrowText]) (happ hstart hfree) line.hright hr, hstopWords]
      obtain ⟨rest, hjoin, hrest⟩ := join_parted (line.stop line.stopMark)
        ((splitWhitespace line.rest).filter keepsToken)
      refine ⟨[], [' '], rest, TextLines.isBlank_nil, hblank, hrest, ?_⟩
      rw [hl, List.nil_append, hall, List.filter_cons_of_pos (hkeepStart _), List.filter_cons_of_pos hkeepStop, hjoined, hjoin]
      simp [TimingLine.text, TimingLine.respaced, TimingLine.start, TimingLine.stop]
  · have hkeep := hkeepStart []
    rw [List.append_nil] at hkeep
    rw [hwords hstartne hstart line.hleft hl]
    by_cases hr : line.right = []
    · obtain ⟨rest, hjoin, hrest⟩ := join_parted (arrowText ++ line.stop line.stopMark)
        ((splitWhitespace line.rest).filter keepsToken)
      refine ⟨[' '], [], rest, hblank, TextLines.isBlank_nil, hrest, ?_⟩
      rw [hr, List.nil_append, harrowWords, List.filter_cons_of_pos hkeep, List.filter_cons_of_pos (hkeepArrow _), hjoined, hjoin]
      simp [TimingLine.text, TimingLine.respaced, TimingLine.start, TimingLine.stop]
    · have hkeepArrow := hkeepArrow []
      rw [List.append_nil] at hkeepArrow
      obtain ⟨rest, hjoin, hrest⟩ := join_parted (line.stop line.stopMark)
        ((splitWhitespace line.rest).filter keepsToken)
      refine ⟨[' '], [' '], rest, hblank, hblank, hrest, ?_⟩
      rw [hwords (by simp [arrowText]) hfree line.hright hr, hstopWords, List.filter_cons_of_pos hkeep,
        List.filter_cons_of_pos hkeepArrow, List.filter_cons_of_pos hkeepStop, hjoined, hjoined, hjoin]
      simp [TimingLine.text, TimingLine.respaced, TimingLine.start, TimingLine.stop]

/-- A timing line gets settings and keeps its timestamps. -/
theorem applyCueDisplaySettings_text (hplain : Plain marks) (line : TimingLine marks) : ∃ (left right rest : Text)
    (hleft : TextLines.isBlank left = true) (hright : TextLines.isBlank right = true) (hrest : Parted rest),
      applyCueDisplaySettings line.text = (line.respaced left right rest hleft hright hrest).text := by
  obtain ⟨left, right, rest, hleft, hright, hrest, hstripped⟩ := stripped_text hplain line
  have hsettings : Parted (trimEnd rest ++ displaySettings) := by
    intro c hc
    cases hr : trimEnd rest with
    | nil =>
      rw [hr, displaySettings, List.nil_append, List.head?_cons] at hc
      rw [← Option.some.inj hc]
      decide
    | cons d more =>
      rw [hr] at hc
      exact parted_trimEnd hrest c (by rw [hr]; exact hc)
  refine ⟨left, right, trimEnd rest ++ displaySettings, hleft, hright, hsettings, ?_⟩
  rw [applyCueDisplaySettings]
  simp only [hstripped]
  rw [if_pos (contains_arrow hplain _), trim_text hplain]
  simp [TimingLine.text, TimingLine.respaced, TimingLine.start, TimingLine.stop]

/-- A timing line is sanitized as one, and keeps its timestamps. -/
theorem sanitizeLine_text (hplain : Plain marks) (line : TimingLine marks) : isStyle line.text = false ∧
    ∃ (left right rest : Text) (hleft : TextLines.isBlank left = true) (hright : TextLines.isBlank right = true) (hrest : Parted rest),
      sanitizeLine line.text = (line.respaced left right rest hleft hright hrest).text := by
  obtain ⟨d, startRest, hd, hdigit⟩ := head_timestamp line.hstart line.startTail line.startMark
  have htrim := trim_text hplain line
  have hhead : ∃ rest, trim line.text = d :: rest := by
    rw [htrim]
    refine ⟨startRest ++ (line.left ++ (arrowText ++ (line.right ++ (line.stop line.stopMark ++ trimEnd line.rest)))), ?_⟩
    simp only [TimingLine.text, TimingLine.respaced, TimingLine.start, TimingLine.stop, hd, List.nil_append, List.cons_append]
  obtain ⟨rest, hrest⟩ := hhead
  have hne {x : Char} (hx : x.isDigit = false) : d ≠ x := isDigit_ne hdigit hx
  have hstyle : isStyle line.text = false := by
    have hlower : d.toLower = d := toLower_of_not_isUpper fun hupper => by
      rw [isUpper_iff] at hupper
      simp only [Char.isDigit, Bool.and_eq_true, decide_eq_true_eq] at hdigit
      have hle : d.val.toNat ≤ 57 := hdigit.2
      have hval : d.toNat = d.val.toNat := rfl
      omega
    have hs : d ≠ 's' := hne (by decide)
    rw [isStyle, hrest]
    simp [eqIgnoreAsciiCase, toAsciiLowercase, styleKeyword, hlower, hs]
  have hempty : ¬ (trim line.text).isEmpty = true := by simp [hrest]
  have hkeyword : ¬ isKeyword line.text = true := by
    rw [isKeyword, hrest, not_keyword]
    · exact Bool.false_ne_true
    · simp [hne (x := 'W') (by decide), hne (x := 'N') (by decide), hne (x := 'R') (by decide), hne (x := 'X') (by decide)]
  have harrow : contains (trim line.text) arrowText = true := by
    rw [htrim]
    exact contains_arrow hplain _
  refine ⟨hstyle, ?_⟩
  rw [sanitizeLine, if_neg hempty, if_neg hkeyword, if_pos harrow]
  exact applyCueDisplaySettings_text hplain line

end

theorem plain_point : Plain ['.'] := by simp [Plain]
theorem plain_both : Plain [',', '.'] := by simp [Plain]

/-- The line of a cue's times is kept with these. -/
theorem cueTimes_sanitizeLine {line : Text} {times : Nat × Nat} (h : cueTimes ['.'] line = some times) :
    isStyle line = false ∧ cueTimes ['.'] (sanitizeLine line) = some times := by
  obtain ⟨timing, rfl, htimes⟩ := exists_timingLine h
  obtain ⟨hstyle, left, right, rest, hleft, hright, hrest, hsanitized⟩ := sanitizeLine_text plain_point timing
  have hmark : timing.startMark = '.' := List.mem_singleton.mp timing.hstartMark
  have hmark' : timing.stopMark = '.' := List.mem_singleton.mp timing.hstopMark
  obtain ⟨hstart, hstop⟩ := htimes ['.'] timing.startMark timing.stopMark timing.hstartMark (by rw [hmark]; decide)
    timing.hstopMark (by rw [hmark']; decide)
  refine ⟨hstyle, ?_⟩
  rw [hsanitized, cueTimes_text plain_point]
  change (timestampMs ['.'] (timing.start timing.startMark)).bind (fun start => (timestampMs ['.'] (timing.stop timing.stopMark)).bind
    fun stop => some (start, stop)) = some times
  rw [hstart, hstop]
  rfl

/-- The times of a SubRip line are those of the line with points. -/
theorem cueTimes_normalizeSrt {digits : Digits} {line : Text} {times : Nat × Nat} (h : cueTimes [',', '.'] line = some times) :
    cueTimes ['.'] (normalizeSrtTimestamps digits line) = some times := by
  obtain ⟨timing, rfl, htimes⟩ := exists_timingLine h
  obtain ⟨hstart, hstop⟩ := htimes ['.'] '.' '.' (by decide) (by decide) (by decide) (by decide)
  rw [normalizeSrt_text plain_both, cueTimes_text plain_point]
  change (timestampMs ['.'] (timing.start '.')).bind (fun start => (timestampMs ['.'] (timing.stop '.')).bind
    fun stop => some (start, stop)) = some times
  rw [hstart, hstop]
  rfl

section
variable {marks : List Char}

def TimingLine.surrounded (timing : TimingLine marks) (front rest : Text) (hfront : TextLines.isBlank front = true)
    (hrest : Parted rest) : TimingLine marks :=
  { timing with
    front
    rest
    hfront
    hrest }

theorem cueTimes_surrounded (hplain : Plain marks) (timing : TimingLine marks) (front rest : Text)
    (hfront : TextLines.isBlank front = true) (hrest : Parted rest) :
    cueTimes marks (timing.surrounded front rest hfront hrest).text = cueTimes marks timing.text := by
  rw [cueTimes_text hplain, cueTimes_text hplain]
  rfl

theorem isBlank_append {s t : Text} (hs : TextLines.isBlank s = true) (ht : TextLines.isBlank t = true) :
    TextLines.isBlank (s ++ t) = true := by
  rw [TextLines.isBlank] at hs ht ⊢
  rw [List.all_append, hs, ht]
  rfl

/-- White space before a line makes no difference to its times. -/
theorem cueTimes_trimStart (hplain : Plain marks) (line : Text) : cueTimes marks (trimStart line) = cueTimes marks line := by
  have hsplit : line = line.takeWhile isWhitespace ++ trimStart line := (List.takeWhile_append_dropWhile).symm
  have hblank : TextLines.isBlank (line.takeWhile isWhitespace) = true := List.all_eq_true.mpr fun c hc => List.mem_takeWhile_imp hc
  apply Option.ext
  intro times
  constructor
  · intro h
    obtain ⟨timing, htext, -⟩ := exists_timingLine h
    have hline : line = (timing.surrounded (line.takeWhile isWhitespace ++ timing.front) timing.rest
        (isBlank_append hblank timing.hfront) timing.hrest).text := by
      conv_lhs => rw [hsplit, ← htext]
      simp [TimingLine.text, TimingLine.surrounded, TimingLine.start, TimingLine.stop]
    rw [hline, cueTimes_surrounded hplain, htext]
    exact h
  · intro h
    obtain ⟨timing, rfl, -⟩ := exists_timingLine h
    obtain ⟨hne, hfree⟩ := timestamp_word timing.hstart timing.startTail (hplain _ timing.hstartMark)
    have htrim : trimStart timing.text = (timing.surrounded [] timing.rest TextLines.isBlank_nil timing.hrest).text := by
      rw [TimingLine.text, TextLines.trimStart_blank timing.hfront]
      exact TextLines.trimStart_word hne (fun c hc => (hfree c hc).1) _
    rw [htrim, cueTimes_surrounded hplain]
    exact h

/-- Nor does white space behind it. -/
theorem cueTimes_trimEnd (hplain : Plain marks) (line : Text) : cueTimes marks (trimEnd line) = cueTimes marks line := by
  have hsplit : line = trimEnd line ++ line.rtakeWhile isWhitespace := (List.rdropWhile_append_rtakeWhile).symm
  have hblank : ∀ c ∈ line.rtakeWhile isWhitespace, isWhitespace c = true := fun c hc => List.mem_rtakeWhile_imp hc
  apply Option.ext
  intro times
  constructor
  · intro h
    obtain ⟨timing, htext, -⟩ := exists_timingLine h
    have hparted : Parted (timing.rest ++ line.rtakeWhile isWhitespace) := by
      intro c hc
      cases hrest : timing.rest with
      | nil =>
        rw [hrest] at hc
        exact hblank c (List.mem_of_mem_head? hc)
      | cons d rest =>
        have hd := timing.hrest d (by rw [hrest]; rfl)
        rw [hrest] at hc
        exact Option.some.inj hc ▸ hd
    have hline : line = (timing.surrounded timing.front (timing.rest ++ line.rtakeWhile isWhitespace) timing.hfront hparted).text := by
      conv_lhs => rw [hsplit, ← htext]
      simp [TimingLine.text, TimingLine.surrounded, TimingLine.start, TimingLine.stop]
    rw [hline, cueTimes_surrounded hplain, htext]
    exact h
  · intro h
    obtain ⟨timing, rfl, -⟩ := exists_timingLine h
    obtain ⟨hne, hfree⟩ := timestamp_word timing.hstop timing.stopTail (hplain _ timing.hstopMark)
    have hend := TextLines.trimEnd_word (timing.front ++ (timing.start timing.startMark ++ (timing.left ++ (arrowText ++ timing.right))))
      hne (fun c hc => (hfree c hc).1) timing.rest
    have hjoin (rest : Text) : timing.front ++ (timing.start timing.startMark ++ (timing.left ++ (arrowText ++ (timing.right ++
        (timing.stop timing.stopMark ++ rest))))) = (timing.front ++ (timing.start timing.startMark ++ (timing.left ++
          (arrowText ++ timing.right)))) ++ (timing.stop timing.stopMark ++ rest) := by simp
    have htrim : trimEnd timing.text =
        (timing.surrounded timing.front (trimEnd timing.rest) timing.hfront (parted_trimEnd timing.hrest)).text :=
      (congrArg trimEnd (hjoin timing.rest)).trans (hend.trans (hjoin (trimEnd timing.rest)).symm)
    rw [htrim, cueTimes_surrounded hplain]
    exact h

end

end StreamArena.Media
