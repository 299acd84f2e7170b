import Mathlib
import StreamArena.Media.CueTimes

/-! The cues of a subtitle text, as players read them. -/
namespace StreamArena.Media
open AsciiText Words Separated TextLines

structure Cue where
  start : Nat
  stop : Nat
  text : List Text
  deriving DecidableEq

def Cue.push (cue : Cue) (line : Text) : Cue := { cue with text := cue.text ++ [stripCueMarkup line] }

/-- The cues of some lines, the first ones in an open cue or in none. A timing line opens a
cue, and the next empty line closes it. -/
def readCues (marks : List Char) : Option Cue → List Text → List Cue
  | none, [] => []
  | some cue, [] => [cue]
  | none, line :: rest =>
    match cueTimes marks line with
    | none => readCues marks none rest
    | some (start, stop) => readCues marks (some ⟨start, stop, []⟩) rest
  | some cue, line :: rest =>
    if line = [] then cue :: readCues marks none rest else readCues marks (some (cue.push line)) rest

def textLines (rawText : Text) : List Text := (normalizeNewlines (withoutBom rawText)).splitOn '\n'

def isWebVtt (rawText : Text) : Bool := startsWith (trim (normalizeNewlines (withoutBom rawText))) signature

/-- What stands before the milliseconds: a comma in SubRip. -/
def marksOf (rawText : Text) : List Char := if isWebVtt rawText = true then ['.'] else [',', '.']

def cuesOf (rawText : Text) : List Cue := readCues (marksOf rawText) none (textLines rawText)

theorem plain_marksOf (rawText : Text) : Plain (marksOf rawText) := by
  rw [marksOf]
  split
  · exact plain_point
  · exact plain_both

section
variable {marks : List Char}

theorem cueTimes_of_notMem {line : Text} (h : '>' ∉ line) : cueTimes marks line = none := by
  rw [cueTimes]
  cases hsplit : splitOnce arrowText line with
  | none => rfl
  | some parts =>
    have hline := splitOnce_eq_some hsplit
    refine absurd ?_ h
    rw [hline]
    simp [arrowText]

theorem cueTimes_of_isBlank {line : Text} (h : isBlank line = true) : cueTimes marks line = none :=
  cueTimes_of_notMem fun hmem => absurd (List.all_eq_true.mp h '>' hmem) (by decide)

section
attribute [local simp] readCues

theorem readCues_none_cons {line : Text} (h : cueTimes marks line = none) (rest : List Text) :
    readCues marks none (line :: rest) = readCues marks none rest := by
  rw [readCues, h]

theorem readCues_timing {line : Text} {times : Nat × Nat} (h : cueTimes marks line = some times) (rest : List Text) :
    readCues marks none (line :: rest) = readCues marks (some ⟨times.1, times.2, []⟩) rest := by
  rw [readCues, h]

theorem readCues_close (cue : Cue) (rest : List Text) :
    readCues marks (some cue) ([] :: rest) = cue :: readCues marks none rest := by
  rw [readCues, if_pos rfl]

theorem readCues_push (cue : Cue) {line : Text} (h : line ≠ []) (rest : List Text) :
    readCues marks (some cue) (line :: rest) = readCues marks (some (cue.push line)) rest := by
  rw [readCues, if_neg h]

theorem readCues_none_append {head : List Text} (h : ∀ line ∈ head, cueTimes marks line = none) (rest : List Text) :
    readCues marks none (head ++ rest) = readCues marks none rest := by
  induction head with
  | nil => rfl
  | cons line head ih =>
    rw [List.cons_append, readCues_none_cons (h line List.mem_cons_self), ih fun l hl => h l (List.mem_cons_of_mem line hl)]

/-- An empty last line makes no difference. -/
theorem readCues_concat (opened : Option Cue) (text : List Text) :
    readCues marks opened (text ++ [[]]) = readCues marks opened text := by
  induction text generalizing opened with
  | nil =>
    cases opened with
    | none => exact readCues_none_cons (cueTimes_of_isBlank isBlank_nil) []
    | some cue => simp [readCues]
  | cons line text ih =>
    rw [List.cons_append]
    cases opened with
    | none =>
      cases htimes : cueTimes marks line with
      | none => rw [readCues_none_cons htimes, readCues_none_cons htimes, ih]
      | some times => rw [readCues_timing htimes, readCues_timing htimes, ih]
    | some cue =>
      rcases eq_or_ne line [] with rfl | hline
      · rw [readCues_close, readCues_close, ih]
      · rw [readCues_push cue hline, readCues_push cue hline, ih]

end

/-- Dialogue with nothing but white space behind it ends in none. -/
def endsClean (marks : List Char) : Bool → List Text → Bool
  | _, [] => true
  | false, line :: rest => endsClean marks (cueTimes marks line).isSome rest
  | true, line :: rest =>
    if line = [] then endsClean marks false rest
    else (!rest.all isBlank || trimEnd line == line) && endsClean marks true rest

theorem readCues_trimEndLines (hplain : Plain marks) {opened : Option Cue} {text : List Text}
    (h : endsClean marks opened.isSome text = true) :
    readCues marks opened (trimEndLines text) = readCues marks opened text := by
  induction text generalizing opened with
  | nil => rfl
  | cons line rest ih =>
    by_cases hrest : trimEndLines rest = []
    · have hall : rest.all isBlank = true := List.all_eq_true.mpr (trimEndLines_eq_nil.mp hrest)
      rw [hrest] at ih
      rw [trimEndLines, if_pos hrest]
      cases opened with
      | none =>
        rw [Option.isSome_none, endsClean] at h
        have htrim := cueTimes_trimEnd hplain line
        cases htimes : cueTimes marks line with
        | none =>
          rw [htimes] at h htrim
          rw [readCues_none_cons htimes]
          split
          · exact ih h
          · rw [readCues_none_cons htrim]
            exact ih h
        | some times =>
          rw [htimes] at h htrim
          have hblank : ¬ isBlank line = true := fun hblank => by
            rw [cueTimes_of_isBlank hblank] at htimes
            cases htimes
          rw [if_neg hblank, readCues_timing htimes, readCues_timing htrim]
          exact ih h
      | some cue =>
        rw [Option.isSome_some, endsClean] at h
        rcases eq_or_ne line [] with rfl | hline
        · rw [if_pos rfl] at h
          rw [if_pos isBlank_nil, readCues_close]
          exact congrArg (cue :: ·) (@ih none h)
        · rw [if_neg hline, hall, Bool.and_eq_true, Bool.not_true, Bool.false_or, beq_iff_eq] at h
          have hblank : ¬ isBlank line = true := by
            rw [← trimEnd_eq_nil, h.1]
            exact hline
          rw [if_neg hblank, h.1, readCues_push cue hline, readCues_push cue hline]
          exact ih h.2
    · rw [trimEndLines, if_neg hrest]
      cases opened with
      | none =>
        rw [Option.isSome_none, endsClean] at h
        cases htimes : cueTimes marks line with
        | none =>
          rw [htimes] at h
          rw [readCues_none_cons htimes, readCues_none_cons htimes]
          exact ih h
        | some times =>
          rw [htimes] at h
          rw [readCues_timing htimes, readCues_timing htimes]
          exact ih h
      | some cue =>
        rw [Option.isSome_some, endsClean] at h
        rcases eq_or_ne line [] with rfl | hline
        · rw [if_pos rfl] at h
          rw [readCues_close, readCues_close]
          exact congrArg (cue :: ·) (ih h)
        · rw [if_neg hline, Bool.and_eq_true] at h
          rw [readCues_push cue hline, readCues_push cue hline]
          exact ih h.2

/-- The blank lines before a text and the white space before its first line hold no cue. -/
theorem readCues_trimStartLines (hplain : Plain marks) (text : List Text) :
    readCues marks none (trimStartLines text) = readCues marks none text := by
  induction text with
  | nil => rfl
  | cons line rest ih =>
    rw [trimStartLines]
    split
    · next hblank => rw [ih, readCues_none_cons (cueTimes_of_isBlank hblank)]
    · have htrim := cueTimes_trimStart hplain line
      cases htimes : cueTimes marks line with
      | none =>
        rw [htimes] at htrim
        rw [readCues_none_cons htimes, readCues_none_cons htrim]
      | some times =>
        rw [htimes] at htrim
        rw [readCues_timing htimes, readCues_timing htrim]

theorem endsClean_trimStartLines (hplain : Plain marks) (text : List Text) :
    endsClean marks false (trimStartLines text) = endsClean marks false text := by
  induction text with
  | nil => rfl
  | cons line rest ih =>
    rw [trimStartLines]
    split
    · next hblank =>
      rw [ih, endsClean, cueTimes_of_isBlank hblank]
      rfl
    · rw [endsClean, endsClean, cueTimes_trimStart hplain]

theorem readCues_trimLines (hplain : Plain marks) {text : List Text} (h : endsClean marks false text = true) :
    readCues marks none (trimLines text) = readCues marks none text := by
  rw [trimLines, readCues_trimEndLines hplain, readCues_trimStartLines hplain]
  rw [Option.isSome_none, endsClean_trimStartLines hplain]
  exact h

end

theorem cueTimes_signature {marks : List Char} (tail : Text) : cueTimes marks (signature ++ tail) = none := by
  by_contra h
  obtain ⟨times, htimes⟩ := Option.ne_none_iff_exists'.mp h
  obtain ⟨timing, htext, -⟩ := exists_timingLine htimes
  obtain ⟨d, rest, hd, hdigit⟩ := head_timestamp timing.hstart timing.startTail timing.startMark
  rw [TimingLine.text, TimingLine.start, hd] at htext
  cases hfront : timing.front with
  | nil =>
    rw [hfront] at htext
    have hhead : d = 'W' := (List.cons.inj htext).1
    rw [hhead] at hdigit
    exact absurd hdigit (by decide)
  | cons c front =>
    have hspace := List.all_eq_true.mp timing.hfront c (by rw [hfront]; exact List.mem_cons_self)
    rw [hfront] at htext
    have hhead : c = 'W' := (List.cons.inj htext).1
    rw [hhead] at hspace
    exact absurd hspace (by decide)

end StreamArena.Media
