import Mathlib
import StreamArena.Library.Decimal
import StreamArena.LiveHls.Worker
import StreamArena.Media.VttNormalization

/-! The cues that the web player reads from a subtitle file (src/src-ui/player/subtitles.js), and
what it makes of a printed file. -/
namespace StreamArena.WebPlayer.SubtitleCues
open AsciiText Decimal Separated Regexes LiveHls.Worker
open Media (one noneOf normalizeNewlines arrowText)

/-- A run of digits of some lengths, as a number. -/
def digits (shortest longest : Nat) (text : Text) : Option Nat :=
  if shortest ≤ text.length ∧ text.length ≤ longest then parseDigits text else none

/-- Two digits, and up to three after a point. -/
def secondsParts (text : Text) : Option (Nat × Nat) :=
  match splitOnce ['.'] text with
  | none => (digits 2 2 text).map fun seconds => (seconds, 0)
  | some (seconds, fraction) => do
    let seconds ← digits 2 2 seconds
    let _ ← digits 1 3 fraction
    let milliseconds ← parseDigits (fraction.rightpad 3 '0')
    some (seconds, milliseconds)

def parseVttTimestampToSeconds (value : Text) : Option Rat :=
  match (jsTrim value).splitOn ':' with
  | [minutes, seconds] => do
    let minutes ← digits 2 2 minutes
    let (seconds, milliseconds) ← secondsParts seconds
    some (minutes * 60 + seconds + milliseconds / 1000)
  | [hours, minutes, seconds] => do
    let hours ← digits 1 2 hours
    let minutes ← digits 2 2 minutes
    let (seconds, milliseconds) ← secondsParts seconds
    some (hours * 3600 + minutes * 60 + seconds + milliseconds / 1000)
  | _ => none

structure Cue where
  startSeconds : Rat
  endSeconds : Rat
  text : Text
  deriving DecidableEq

def letter (c : Char) : Regex := .char fun x => x.toLower == c

def letters (word : Text) : Regex := word.foldr (fun c r => .seq (letter c) r) .empty

def isWord (c : Char) : Bool := c.isAlphanum || c == '_'

/-- A line that starts with an expression. -/
def starts (r : Regex) (line : Text) : Bool := !(r.run isWord ⟨none, line, []⟩).isEmpty

/-- The word that stands first in a line, in any case. -/
def keyword (word : Text) : Regex := .seq (letters word) .boundary

def lineBreak : Regex :=
  .seq (one '<') (.seq (letters "br".toList) (.seq (.star (.char isJsWhitespace)) (.seq (Regex.opt (one '/')) (one '>'))))

def tag : Regex :=
  .seq (one '<') (.seq (Regex.opt (one '/')) (.seq (.char fun c => c != '>') (.seq (noneOf '>') (one '>'))))

def isBlankLine (line : Text) : Bool := (jsTrim line).isEmpty

def isVttTimingLine (value : Text) : Bool := contains (jsTrim value) arrowText

/-- The end of a style or a note: a blank line, or the start of a cue. -/
def skipBlock : List Text → List Text
  | [] => []
  | line :: rest =>
    let nextTrimmed := jsTrim (rest.head?.getD [])
    if isBlankLine line then line :: rest
    else if isVttTimingLine (jsTrim line) || (!nextTrimmed.isEmpty && isVttTimingLine nextTrimmed) then line :: rest
    else skipBlock rest

section player
variable (textContent : Text → Text)

/-- What a browser makes of a text with entities. -/
def decodeSubtitleHtmlEntities (text : Text) : Text := if text.contains '&' then textContent text else text

def cueText (cueLines : List Text) : Text :=
  let rawCueText := join '\n' cueLines
  let withBreaks := lineBreak.replaceAll isWord (fun _ => ['\n']) rawCueText
  let plain := (tag.replaceAll isWord (fun _ => []) withBreaks).filter (· != '\u200b')
  jsTrim (decodeSubtitleHtmlEntities textContent plain)

def firstToken (part : Text) : Text := part.takeWhile fun c => !isJsWhitespace c

def cueOf (timingLine : Text) (cueLines : List Text) : Option Cue := do
  let (startPart, rest) ← splitOnce arrowText timingLine
  let endPart := ((splitOnce arrowText rest).map Prod.fst).getD rest
  let startSeconds ← parseVttTimestampToSeconds (firstToken (jsTrim startPart))
  let endSeconds ← parseVttTimestampToSeconds (firstToken (jsTrim endPart))
  let text := cueText textContent cueLines
  if text.isEmpty ∨ endSeconds ≤ startSeconds then none else some ⟨startSeconds, endSeconds, text⟩

/-- The lines of a cue's text, and what follows them. -/
def cueLines (lines : List Text) : List Text := lines.takeWhile fun line => !isBlankLine line
def afterCue (lines : List Text) : List Text := lines.dropWhile fun line => !isBlankLine line

theorem length_skipBlock_le (lines : List Text) : (skipBlock lines).length ≤ lines.length := by
  induction lines with
  | nil => rfl
  | cons line rest ih =>
    rw [skipBlock]
    split_ifs
    · rfl
    · rfl
    · exact ih.trans (Nat.le_succ _)

theorem length_afterCue_le (lines : List Text) : (afterCue lines).length ≤ lines.length := List.length_dropWhile_le _ _

def readLines : List Text → List Cue
  | [] => []
  | line :: rest =>
    let trimmed := jsTrim line
    if trimmed.isEmpty || starts (keyword "webvtt".toList) trimmed then readLines rest
    else if starts (keyword "style".toList) trimmed || starts (keyword "note".toList) trimmed then readLines (skipBlock rest)
    else if starts (keyword "region".toList) trimmed || starts (letters "x-timestamp-map=".toList) trimmed then readLines rest
    else if isVttTimingLine trimmed then (cueOf textContent trimmed (cueLines rest)).toList ++ readLines (afterCue rest)
    else
      match rest with
      | [] => []
      | next :: after =>
        if isVttTimingLine (jsTrim next) then
          (cueOf textContent (jsTrim next) (cueLines after)).toList ++ readLines (afterCue after)
        else readLines (next :: after)
termination_by lines => lines.length
decreasing_by
  all_goals simp only [List.length_cons]
  · omega
  · have := length_skipBlock_le rest
    omega
  · omega
  · have := length_afterCue_le rest
    omega
  · have := length_afterCue_le after
    omega
  · omega

def withoutBom (rawText : Text) : Text :=
  match rawText with
  | '\uFEFF' :: text => text
  | text => text

def parseWebVttCues (rawText : Text) : List Cue :=
  let normalized := normalizeNewlines (withoutBom rawText)
  if isBlankLine normalized then [] else readLines textContent (normalized.splitOn '\n')

end player

/-! Files as they are printed. -/

/-- The last digits of a number. -/
def printed : Nat → Nat → Text
  | 0, _ => []
  | count + 1, value => printed count (value / 10) ++ [Nat.digitChar (value % 10)]

def clock (hours : Bool) (ms : Nat) : Text :=
  (if hours then printed 2 (ms / 3600000) ++ [':'] else []) ++
    printed 2 (ms / 60000 % 60) ++ ':' :: printed 2 (ms / 1000 % 60) ++ '.' :: printed 3 (ms % 1000)

/-- A time below a hundred hours; where its hours are not printed it has none. -/
structure Timestamp where
  ms : Nat
  hours : Bool
  inRange : ms < if hours then 360000000 else 3600000

def Timestamp.text (time : Timestamp) : Text := clock time.hours time.ms

def Timestamp.seconds (time : Timestamp) : Rat := time.ms / 1000

def isOneLine (line : Text) : Bool := !line.contains '\n' && !line.contains '\r'

/-- A block of a file: a cue, or lines without an arrow, as a header, a note and a style have them. -/
structure CueBlock where
  identifier : Option Text
  start : Timestamp
  stop : Timestamp
  settings : Text
  lines : List Text
  ordered : start.ms < stop.ms
  identifier_arrow : ∀ line ∈ identifier, isOneLine line = true ∧ isVttTimingLine line = false
  settings_space : isOneLine settings = true ∧ ∀ c ∈ settings.head?, isJsWhitespace c = true
  lines_ne_nil : lines ≠ []
  text : ∀ line ∈ lines, isOneLine line = true ∧ isBlankLine line = false ∧ '<' ∉ line ∧ '&' ∉ line

def CueBlock.timing (cue : CueBlock) : Text := cue.start.text ++ " --> ".toList ++ cue.stop.text ++ cue.settings

structure CommentBlock where
  lines : List Text
  arrowless : ∀ line ∈ lines, isOneLine line = true ∧ isBlankLine line = false ∧ isVttTimingLine line = false

inductive Block where
  | cue (block : CueBlock)
  | comment (block : CommentBlock)

def Block.lines : Block → List Text
  | .cue block => block.identifier.toList ++ block.timing :: block.lines
  | .comment block => block.lines

/-- The lines of a file: blank ones first, and some behind each block, at least one where another follows. -/
inductive FileLines : List Block → List Text → Prop where
  | nil : FileLines [] []
  | blank {blocks : List Block} {lines : List Text} {line : Text} : isOneLine line = true → isBlankLine line = true →
      FileLines blocks lines → FileLines blocks (line :: lines)
  | last (block : Block) : FileLines [block] block.lines
  | block (block : Block) {blocks : List Block} {lines : List Text} {line : Text} : isOneLine line = true → isBlankLine line = true →
      FileLines blocks lines → FileLines (block :: blocks) (block.lines ++ line :: lines)

inductive LineEnd where
  | lf | crlf | cr

def LineEnd.text : LineEnd → Text
  | lf => ['\n']
  | crlf => ['\r', '\n']
  | cr => ['\r']

def fileText (bom : Bool) (lineEnd : LineEnd) (lines : List Text) : Text :=
  (if bom then ['\uFEFF'] else []) ++ lineEnd.text.intercalate lines

/-- The text of a cue as the player shows it. -/
def shownText (lines : List Text) : Text := jsTrim ((join '\n' lines).filter (· != '\u200b'))

def CueBlock.shown (cue : CueBlock) : Option Cue :=
  if (shownText cue.lines).isEmpty then none else some ⟨cue.start.seconds, cue.stop.seconds, shownText cue.lines⟩

def Block.shown : Block → Option Cue
  | .cue block => block.shown
  | .comment _ => none

/-! Printed times. -/

theorem length_printed (count value : Nat) : (printed count value).length = count := by
  induction count generalizing value with
  | zero => rfl
  | succ count ih => simp [printed, ih]

theorem digitChar_of_lt {d : Nat} (h : d < 10) : (Nat.digitChar d).isDigit = true ∧ (Nat.digitChar d).toNat = 48 + d := by
  interval_cases d <;> decide

theorem isDigit_of_mem_printed {count value : Nat} {c : Char} (h : c ∈ printed count value) : c.isDigit = true := by
  induction count generalizing value with
  | zero => cases h
  | succ count ih =>
    obtain h | h := List.mem_append.mp h
    · exact ih h
    · rw [List.mem_singleton.mp h]
      exact (digitChar_of_lt (Nat.mod_lt _ (by decide))).1

theorem ofDigitChars_printed (count value : Nat) : Nat.ofDigitChars 10 (printed count value) 0 = value % 10 ^ count := by
  induction count generalizing value with
  | zero => simp [printed, Nat.mod_one]
  | succ count ih =>
    have hdigit := (digitChar_of_lt (Nat.mod_lt value (show 0 < 10 by decide))).2
    rw [printed, Nat.ofDigitChars_append, ih]
    simp [Nat.ofDigitChars_cons, hdigit]
    have hparts := Nat.mod_mul (a := 10) (b := 10 ^ count) (x := value)
    rw [pow_succ', hparts]
    omega

theorem parseDigits_printed {count value : Nat} (hcount : 0 < count) (h : value < 10 ^ count) :
    parseDigits (printed count value) = some value := by
  have hne : printed count value ≠ [] := by
    intro hnil
    have hlength := length_printed count value
    rw [hnil] at hlength
    exact hcount.ne hlength
  rw [parseDigits, if_pos ⟨hne, List.all_eq_true.mpr fun c hc => isDigit_of_mem_printed hc⟩, ofDigitChars_printed, Nat.mod_eq_of_lt h]

theorem notMem_printed {c : Char} (h : c.isDigit = false) (count value : Nat) : c ∉ printed count value := by
  intro hmem
  rw [isDigit_of_mem_printed hmem] at h
  cases h

theorem digits_printed {shortest longest count value : Nat} (hshort : shortest ≤ count) (hlong : count ≤ longest) (hcount : 0 < count)
    (h : value < 10 ^ count) : digits shortest longest (printed count value) = some value := by
  rw [digits, length_printed, if_pos ⟨hshort, hlong⟩, parseDigits_printed hcount h]

theorem secondsParts_printed {seconds milliseconds : Nat} (hseconds : seconds < 60) (hmilliseconds : milliseconds < 1000) :
    secondsParts (printed 2 seconds ++ '.' :: printed 3 milliseconds) = some (seconds, milliseconds) := by
  have hpad : (printed 3 milliseconds).rightpad 3 '0' = printed 3 milliseconds := by simp [List.rightpad, length_printed]
  rw [secondsParts, splitOnce_append (notMem_printed rfl 2 seconds)]
  dsimp only
  rw [hpad, digits_printed (by decide) (by decide) (by decide) (by omega),
    digits_printed (by decide) (by decide) (by decide) (by omega), parseDigits_printed (by decide) (by omega)]
  rfl

theorem jsTrim_of_free {s : Text} (h : ∀ c ∈ s, isJsWhitespace c = false) : jsTrim s = s := by
  have hstart : s.dropWhile isJsWhitespace = s := by
    cases s with
    | nil => rfl
    | cons c s => exact List.dropWhile_cons_of_neg (by simp [h c List.mem_cons_self])
  rw [jsTrim, hstart, List.rdropWhile_eq_self_iff]
  intro hne
  simp [h _ (List.getLast_mem hne)]

theorem not_isJsWhitespace_of_isDigit {c : Char} (h : c.isDigit = true) : isJsWhitespace c = false := by
  have hbounds : 48 ≤ c.toNat ∧ c.toNat ≤ 57 := by
    simpa [Char.isDigit, UInt32.le_iff_toNat_le] using h
  simp only [isJsWhitespace, isWhitespace, Bool.or_eq_false_iff, Bool.and_eq_false_iff, decide_eq_false_iff_not, beq_eq_false_iff_ne]
  omega

/-- The characters of a timestamp. -/
theorem mem_clock {hours : Bool} {ms : Nat} {c : Char} (h : c ∈ clock hours ms) : c.isDigit = true ∨ c = ':' ∨ c = '.' := by
  have hprinted {count value : Nat} (h : c ∈ printed count value) := isDigit_of_mem_printed h
  cases hours <;> simp only [clock, if_true, Bool.false_eq_true, if_false, List.nil_append, List.mem_append, List.mem_cons,
    List.not_mem_nil, or_false] at h <;> tauto

theorem free_clock {hours : Bool} {ms : Nat} {c : Char} (h : c ∈ clock hours ms) : isJsWhitespace c = false := by
  obtain h | rfl | rfl := mem_clock h
  · exact not_isJsWhitespace_of_isDigit h
  · decide
  · decide

theorem splitOn_clock (hours : Bool) (ms : Nat) : (clock hours ms).splitOn ':' = (if hours then [printed 2 (ms / 3600000)] else []) ++
    [printed 2 (ms / 60000 % 60), printed 2 (ms / 1000 % 60) ++ '.' :: printed 3 (ms % 1000)] := by
  have hjoin : clock hours ms = join ':' ((if hours then [printed 2 (ms / 3600000)] else []) ++
      [printed 2 (ms / 60000 % 60), printed 2 (ms / 1000 % 60) ++ '.' :: printed 3 (ms % 1000)]) := by
    cases hours <;> simp [clock, join_cons, join_singleton]
  have hfree (count value : Nat) := notMem_printed (c := ':') rfl count value
  rw [hjoin]
  refine List.splitOn_intercalate ':' ?_ (by simp)
  cases hours <;> simp [hfree]

theorem parse_timestamp (time : Timestamp) : parseVttTimestampToSeconds time.text = some time.seconds := by
  obtain ⟨ms, hours, hrange⟩ := time
  have hms : ms = ms / 3600000 * 3600000 + ms / 60000 % 60 * 60000 + ms / 1000 % 60 * 1000 + ms % 1000 := by omega
  have hsum : (ms : Rat) / 1000 = (ms / 3600000 : Nat) * 3600 + (ms / 60000 % 60 : Nat) * 60 + (ms / 1000 % 60 : Nat) +
      (ms % 1000 : Nat) / 1000 := by
    have hcast : (ms : Rat) = (ms / 3600000 : Nat) * 3600000 + (ms / 60000 % 60 : Nat) * 60000 + (ms / 1000 % 60 : Nat) * 1000 +
        (ms % 1000 : Nat) := by exact_mod_cast hms
    rw [hcast]
    ring
  have hparts := @secondsParts_printed (ms / 1000 % 60) (ms % 1000) (by omega) (by omega)
  have hminutes := @digits_printed 2 2 2 (ms / 60000 % 60) (by decide) (by decide) (by decide) (by omega)
  rw [Timestamp.text, parseVttTimestampToSeconds, jsTrim_of_free fun c hc => free_clock hc, Timestamp.seconds, splitOn_clock]
  dsimp only
  rw [hsum]
  cases hours with
  | false =>
    have hhours : ms / 3600000 = 0 := Nat.div_eq_of_lt (by simpa using hrange)
    simp [hminutes, hparts, hhours]
  | true =>
    have hhours := @digits_printed 1 2 2 (ms / 3600000) (by decide) (by decide) (by decide)
      (Nat.div_lt_of_lt_mul (by simpa using hrange))
    simp [hminutes, hparts, hhours]

/-! Timing lines. -/

theorem rdropWhile_append {p : Char → Bool} {front : Text} (hlast : ∀ c ∈ front.getLast?, p c = false) (back : Text) :
    (front ++ back).rdropWhile p = front ++ back.rdropWhile p := by
  induction back using List.reverseRecOn with
  | nil =>
    rw [List.append_nil, List.rdropWhile_nil, List.append_nil, List.rdropWhile_eq_self_iff]
    intro hne
    simp [hlast _ (List.getLast?_eq_some_getLast hne)]
  | append_singleton back c ih =>
    rw [← List.append_assoc]
    by_cases hc : p c = true
    · rw [List.rdropWhile_concat_pos _ _ _ hc, List.rdropWhile_concat_pos _ _ _ hc, ih]
    · rw [List.rdropWhile_concat_neg _ _ _ hc, List.rdropWhile_concat_neg _ _ _ hc, List.append_assoc]

/-- What stands between white space begins and ends a trimmed text. -/
theorem jsTrim_append {blank front : Text} (hblank : ∀ c ∈ blank, isJsWhitespace c = true) (hne : front ≠ [])
    (hhead : ∀ c ∈ front.head?, isJsWhitespace c = false) (hlast : ∀ c ∈ front.getLast?, isJsWhitespace c = false) (back : Text) :
    jsTrim (blank ++ (front ++ back)) = front ++ back.rdropWhile isJsWhitespace := by
  rw [jsTrim, List.dropWhile_append_of_pos hblank]
  cases front with
  | nil => exact absurd rfl hne
  | cons c front =>
    rw [List.cons_append, List.dropWhile_cons_of_neg (by simp [hhead c rfl]), ← List.cons_append, rdropWhile_append hlast]

theorem firstToken_append {word tail : Text} (hword : ∀ c ∈ word, isJsWhitespace c = false)
    (htail : ∀ c ∈ tail.head?, isJsWhitespace c = true) : firstToken (word ++ tail) = word := by
  rw [firstToken, List.takeWhile_append_of_pos (by simpa using hword)]
  cases tail with
  | nil => simp
  | cons c tail => simp [htail c rfl]

theorem headSpace_of_front {front tail : Text} (h : front <+: tail) (htail : ∀ c ∈ tail.head?, isJsWhitespace c = true) :
    ∀ c ∈ front.head?, isJsWhitespace c = true := by
  obtain ⟨rest, rfl⟩ := h
  cases front with
  | nil => simp
  | cons c front => exact htail

/-- A word between white space is the first token. -/
theorem firstToken_jsTrim {blank word tail : Text} (hblank : ∀ c ∈ blank, isJsWhitespace c = true) (hne : word ≠ [])
    (hword : ∀ c ∈ word, isJsWhitespace c = false) (htail : ∀ c ∈ tail.head?, isJsWhitespace c = true) :
    firstToken (jsTrim (blank ++ (word ++ tail))) = word := by
  rw [jsTrim_append hblank hne (fun c hc => hword c (List.mem_of_mem_head? hc)) fun c hc => hword c (List.mem_of_getLast? hc)]
  exact firstToken_append hword (headSpace_of_front (List.rdropWhile_prefix _ _) htail)

theorem splitOnce_free {s : Text} (h : '-' ∉ s) (t : Text) :
    splitOnce arrowText (s ++ t) = (splitOnce arrowText t).map fun parts => (s ++ parts.1, parts.2) := by
  induction s with
  | nil => simp
  | cons c s ih =>
    have hc : c ≠ '-' := fun heq => h (heq ▸ List.mem_cons_self)
    have hnot : ¬ arrowText.isPrefixOf (c :: (s ++ t)) = true := by
      simp [arrowText, List.isPrefixOf, Ne.symm hc]
    rw [List.cons_append, splitOnce_cons_of_not hnot, ih fun hmem => h (List.mem_cons_of_mem c hmem), Option.map_map]
    rfl

theorem Timestamp.text_free (time : Timestamp) : '-' ∉ time.text ∧ time.text ≠ [] ∧ ∀ c ∈ time.text, isJsWhitespace c = false := by
  refine ⟨fun hmem => ?_, ?_, fun c hc => free_clock hc⟩
  · obtain h | h | h := mem_clock hmem
    · exact absurd h (by decide)
    · cases h
    · cases h
  · simp [Timestamp.text, clock]

theorem splitOnce_timing (start : Timestamp) (rest : Text) :
    splitOnce arrowText (start.text ++ " --> ".toList ++ rest) = some (start.text ++ [' '], ' ' :: rest) := by
  have heq : start.text ++ " --> ".toList ++ rest = (start.text ++ [' ']) ++ (arrowText ++ ' ' :: rest) := by simp [arrowText]
  have hfree : '-' ∉ start.text ++ [' '] := by simp [start.text_free.1]
  rw [heq]
  exact @splitOnce_of_notMem '-' ['-', '>'] _ hfree _

theorem cueOf_timing (textContent : Text → Text) (start stop : Timestamp) {tail : Text}
    (htail : ∀ c ∈ tail.head?, isJsWhitespace c = true) (lines : List Text) (h : start.ms < stop.ms) :
    cueOf textContent (start.text ++ " --> ".toList ++ stop.text ++ tail) lines =
      if (cueText textContent lines).isEmpty then none else some ⟨start.seconds, stop.seconds, cueText textContent lines⟩ := by
  obtain ⟨hstartArrow, hstartNe, hstartFree⟩ := start.text_free
  obtain ⟨hstopArrow, hstopNe, hstopFree⟩ := stop.text_free
  have hspace : isJsWhitespace ' ' = true := by decide
  have hsplit := splitOnce_timing start (stop.text ++ tail)
  rw [← List.append_assoc] at hsplit
  have hend : ∃ rest, ((splitOnce arrowText (' ' :: (stop.text ++ tail))).map Prod.fst).getD (' ' :: (stop.text ++ tail)) =
      [' '] ++ (stop.text ++ rest) ∧ ∀ c ∈ rest.head?, isJsWhitespace c = true := by
    have hfree : '-' ∉ ' ' :: stop.text := by simp [hstopArrow]
    rw [← List.cons_append, splitOnce_free hfree]
    cases hsecond : splitOnce arrowText tail with
    | none => exact ⟨tail, rfl, htail⟩
    | some parts =>
      refine ⟨parts.1, rfl, headSpace_of_front ⟨arrowText ++ parts.2, ?_⟩ htail⟩
      rw [splitOnce_eq_some hsecond, List.append_assoc]
  obtain ⟨rest, hrest, hhead⟩ := hend
  have hstart : firstToken (jsTrim (start.text ++ [' '])) = start.text :=
    @firstToken_jsTrim [] _ _ (by simp) hstartNe hstartFree (by simp [hspace])
  have hstop : firstToken (jsTrim ([' '] ++ (stop.text ++ rest))) = stop.text :=
    firstToken_jsTrim (by simp [hspace]) hstopNe hstopFree hhead
  have hless : ¬ stop.seconds ≤ start.seconds := by
    have hcast : (start.ms : Rat) < stop.ms := by exact_mod_cast h
    rw [not_le, Timestamp.seconds, Timestamp.seconds]
    linarith
  rw [cueOf, hsplit]
  simp only [Option.bind_eq_bind, Option.bind_some]
  rw [hrest, hstart, hstop, parse_timestamp, parse_timestamp]
  simp only [Option.bind_some, hless, or_false]

theorem CueBlock.jsTrim_timing (cue : CueBlock) : jsTrim cue.timing =
    cue.start.text ++ " --> ".toList ++ cue.stop.text ++ cue.settings.rdropWhile isJsWhitespace := by
  obtain ⟨-, hstartNe, hstartFree⟩ := cue.start.text_free
  obtain ⟨-, hstopNe, hstopFree⟩ := cue.stop.text_free
  refine @jsTrim_append [] _ (by simp) (by simp [hstartNe]) ?_ ?_ cue.settings
  · intro c hc
    rw [List.append_assoc, List.head?_append_of_ne_nil _ hstartNe] at hc
    exact hstartFree c (List.mem_of_mem_head? hc)
  · intro c hc
    rw [List.getLast?_append_of_ne_nil _ hstopNe] at hc
    exact hstopFree c (List.mem_of_getLast? hc)

theorem CueBlock.cueOf_jsTrim (textContent : Text → Text) (cue : CueBlock) (lines : List Text) :
    cueOf textContent (jsTrim cue.timing) lines = if (cueText textContent lines).isEmpty then none
      else some ⟨cue.start.seconds, cue.stop.seconds, cueText textContent lines⟩ := by
  rw [cue.jsTrim_timing]
  exact cueOf_timing textContent cue.start cue.stop
    (headSpace_of_front (List.rdropWhile_prefix _ _) cue.settings_space.2) lines cue.ordered

/-! Text without markup. -/

theorem replaceAll_of_notMem {more : Regex} {f : List Text → Text} {c : Char} {s : Text} (h : c ∉ s) :
    (Regex.seq (one c) more).replaceAll isWord f s = s := by
  have hfrom (fuel : Nat) (before : Option Char) (hfuel : s.length < fuel) :
      (Regex.seq (one c) more).replaceFrom isWord f fuel before s = s := by
    induction s generalizing fuel before with
    | nil =>
      cases fuel with
      | zero => rfl
      | succ fuel => rfl
    | cons x s ih =>
      obtain ⟨hx, hs⟩ := not_or.mp fun hor => h (List.mem_cons.mpr hor)
      cases fuel with
      | zero => exact absurd hfuel (Nat.not_lt_zero _)
      | succ fuel =>
        have hmatch : (Regex.seq (one c) more).matchAt isWord before (x :: s) = none := by
          simp [Regex.matchAt, Regex.run, one, Ne.symm hx]
        rw [Regex.replaceFrom, hmatch]
        dsimp only
        rw [ih hs fuel (some x) (Nat.lt_of_succ_lt_succ hfuel)]
  exact hfrom _ none (Nat.lt_succ_self _)

theorem cueText_of_plain (textContent : Text → Text) {lines : List Text} (h : ∀ line ∈ lines, '<' ∉ line ∧ '&' ∉ line) :
    cueText textContent lines = shownText lines := by
  have hfree {c : Char} (hc : c ≠ '\n') (h : ∀ line ∈ lines, c ∉ line) : c ∉ join '\n' lines := by
    intro hmem
    obtain ⟨line, hline, hmem⟩ | rfl := mem_join hmem
    · exact h line hline hmem
    · exact hc rfl
  have hangle : '<' ∉ join '\n' lines := hfree (by decide) fun line hline => (h line hline).1
  have hentity : '&' ∉ (join '\n' lines).filter (· != '\u200b') :=
    fun hmem => hfree (by decide) (fun line hline => (h line hline).2) (List.mem_filter.mp hmem).1
  rw [cueText, lineBreak, replaceAll_of_notMem hangle, tag, replaceAll_of_notMem hangle, decodeSubtitleHtmlEntities, if_neg (by simpa using hentity), shownText]

theorem CueBlock.cueOf_lines (textContent : Text → Text) (cue : CueBlock) :
    cueOf textContent (jsTrim cue.timing) cue.lines = cue.shown := by
  rw [cue.cueOf_jsTrim, cueText_of_plain textContent fun line hline => (cue.text line hline).2.2, CueBlock.shown]

/-! The lines of a block. -/

theorem jsTrim_jsTrim (s : Text) : jsTrim (jsTrim s) = jsTrim s := by
  have hstart : (jsTrim s).dropWhile isJsWhitespace = jsTrim s := by
    rw [List.dropWhile_eq_self_iff]
    intro hlength
    obtain ⟨rest, hrest⟩ := List.rdropWhile_prefix isJsWhitespace (s.dropWhile isJsWhitespace)
    have hhead : (s.dropWhile isJsWhitespace).head? = (jsTrim s).head? := by
      rw [← hrest]
      exact List.head?_append_of_ne_nil _ (List.ne_nil_of_length_pos hlength)
    have hne : jsTrim s ≠ [] := List.ne_nil_of_length_pos hlength
    have hnot := List.head?_dropWhile_not isJsWhitespace s
    rw [hhead, List.head?_eq_getElem?, List.getElem?_eq_getElem hlength] at hnot
    simpa using hnot
  rw [jsTrim, hstart, jsTrim, List.rdropWhile_idempotent]

theorem isVttTimingLine_jsTrim (line : Text) : isVttTimingLine (jsTrim line) = isVttTimingLine line := by
  rw [isVttTimingLine, jsTrim_jsTrim, isVttTimingLine]

theorem starts_letters {w c : Char} (hc : c.toLower ≠ w) (word line : Text) :
    starts (letters (w :: word)) (c :: line) = false ∧ starts (keyword (w :: word)) (c :: line) = false := by
  have hrun : (letters (w :: word)).run isWord ⟨none, c :: line, []⟩ = [] := by
    simp [letters, letter, Regex.run, hc]
  constructor
  · rw [starts, hrun]
    rfl
  · rw [starts, keyword, Regex.run, hrun]
    rfl

/-- A timing line starts with a digit. -/
theorem CueBlock.exists_jsTrim_timing (cue : CueBlock) : ∃ c rest, jsTrim cue.timing = c :: rest ∧ c.isDigit = true := by
  have hdigit (value : Nat) : (Nat.digitChar (value % 10)).isDigit = true := (digitChar_of_lt (Nat.mod_lt _ (by decide))).1
  rw [cue.jsTrim_timing, Timestamp.text, clock]
  cases cue.start.hours
  · exact ⟨_, _, rfl, hdigit _⟩
  · exact ⟨_, _, rfl, hdigit _⟩

theorem toLower_of_isDigit {c : Char} (h : c.isDigit = true) : c.toLower = c := by
  refine toLower_of_not_isUpper fun hupper => ?_
  have hbounds : 48 ≤ c.toNat ∧ c.toNat ≤ 57 := by
    simpa [Char.isDigit, UInt32.le_iff_toNat_le] using h
  have hupper := isUpper_iff.mp hupper
  omega

theorem CueBlock.isVttTimingLine_timing (cue : CueBlock) : isVttTimingLine cue.timing = true := by
  have hsplit := splitOnce_timing cue.start (cue.stop.text ++ cue.settings.rdropWhile isJsWhitespace)
  rw [← List.append_assoc] at hsplit
  rw [isVttTimingLine, cue.jsTrim_timing, contains, hsplit]
  rfl

/-- The end of the file or a blank line. -/
def Ends (rest : List Text) : Prop := ∀ line ∈ rest.head?, isBlankLine line = true

theorem cueLines_append {lines rest : List Text} (h : ∀ line ∈ lines, isBlankLine line = false) (hrest : Ends rest) :
    cueLines (lines ++ rest) = lines ∧ afterCue (lines ++ rest) = rest := by
  have hall : ∀ line ∈ lines, (!isBlankLine line) = true := by simpa using h
  have hend : cueLines rest = [] ∧ afterCue rest = rest := by
    cases rest with
    | nil => exact ⟨rfl, rfl⟩
    | cons line rest => simp [cueLines, afterCue, hrest line rfl]
  rw [cueLines, afterCue, List.takeWhile_append_of_pos hall, List.dropWhile_append_of_pos hall]
  exact ⟨by rw [show rest.takeWhile _ = [] from hend.1, List.append_nil], hend.2⟩

section reading
variable (textContent : Text → Text)

theorem readLines_blank {line : Text} (h : isBlankLine line = true) (rest : List Text) :
    readLines textContent (line :: rest) = readLines textContent rest := by
  have hempty : (jsTrim line).isEmpty = true := h
  rw [readLines.eq_def]
  simp [hempty]

/-- A cue is read from its timing line on. -/
theorem readLines_timing (cue : CueBlock) {rest : List Text} (hrest : Ends rest) :
    readLines textContent (cue.timing :: (cue.lines ++ rest)) = cue.shown.toList ++ readLines textContent rest := by
  obtain ⟨c, tail, htrim, hdigit⟩ := cue.exists_jsTrim_timing
  have hne {w : Char} (hw : w.isDigit = false) : c.toLower ≠ w := by
    rintro rfl
    rw [toLower_of_isDigit hdigit, hdigit] at hw
    cases hw
  have hwebvtt := (starts_letters (hne (w := 'w') rfl) "ebvtt".toList tail).2
  have hstyle := (starts_letters (hne (w := 's') rfl) "tyle".toList tail).2
  have hnote := (starts_letters (hne (w := 'n') rfl) "ote".toList tail).2
  have hregion := (starts_letters (hne (w := 'r') rfl) "egion".toList tail).2
  have hmap := (starts_letters (hne (w := 'x') rfl) "-timestamp-map=".toList tail).1
  have harrow := cue.isVttTimingLine_timing
  rw [← isVttTimingLine_jsTrim, htrim] at harrow
  have hcue := cue.cueOf_lines textContent
  rw [htrim] at hcue
  obtain ⟨hlines, hafter⟩ := cueLines_append (fun line hline => (cue.text line hline).2.1) hrest
  rw [readLines.eq_def]
  dsimp only
  rw [htrim]
  have hkeywords : keyword "webvtt".toList = keyword ('w' :: "ebvtt".toList) ∧ keyword "style".toList = keyword ('s' :: "tyle".toList) ∧
      keyword "note".toList = keyword ('n' :: "ote".toList) ∧ keyword "region".toList = keyword ('r' :: "egion".toList) ∧
      letters "x-timestamp-map=".toList = letters ('x' :: "-timestamp-map=".toList) := ⟨rfl, rfl, rfl, rfl, rfl⟩
  rw [hkeywords.1, hkeywords.2.1, hkeywords.2.2.1, hkeywords.2.2.2.1, hkeywords.2.2.2.2, hwebvtt, hstyle, hnote, hregion, hmap, harrow,
    hlines, hafter, hcue]
  rfl

theorem skipBlock_timing (cue : CueBlock) (rest : List Text) : skipBlock (cue.timing :: rest) = cue.timing :: rest := by
  have harrow := cue.isVttTimingLine_timing
  rw [← isVttTimingLine_jsTrim] at harrow
  simp [skipBlock, harrow]

/-- An identifier makes no difference, whatever it begins with. -/
theorem readLines_cue (cue : CueBlock) {rest : List Text} (hrest : Ends rest) :
    readLines textContent (cue.identifier.toList ++ cue.timing :: cue.lines ++ rest) =
      cue.shown.toList ++ readLines textContent rest := by
  have htiming := readLines_timing textContent cue hrest
  cases hidentifier : cue.identifier with
  | none => exact htiming
  | some identifier =>
    have hfree := (cue.identifier_arrow identifier hidentifier).2
    rw [← isVttTimingLine_jsTrim] at hfree
    have harrow := cue.isVttTimingLine_timing
    rw [← isVttTimingLine_jsTrim] at harrow
    obtain ⟨hlines, hafter⟩ := cueLines_append (fun line hline => (cue.text line hline).2.1) hrest
    rw [Option.toList_some, List.singleton_append, List.cons_append, List.cons_append, readLines.eq_def]
    dsimp only
    rw [skipBlock_timing, hfree, harrow, htiming, hlines, hafter, cue.cueOf_lines]
    simp only [Bool.false_eq_true, if_false, ite_self]

/-- Neither a line without an arrow nor a blank one is a timing line. -/
theorem head_of_arrowless {lines rest : List Text} (h : ∀ line ∈ lines, isBlankLine line = false ∧ isVttTimingLine line = false)
    (hrest : Ends rest) : ∀ next ∈ (lines ++ rest).head?, isVttTimingLine (jsTrim next) = false := by
  intro next hnext
  rw [isVttTimingLine_jsTrim]
  cases lines with
  | nil =>
    have hempty : jsTrim next = [] := List.isEmpty_iff.mp (hrest next hnext)
    rw [isVttTimingLine, hempty]
    rfl
  | cons line lines =>
    rw [← Option.some.inj hnext]
    exact (h line List.mem_cons_self).2

theorem skipBlock_append {lines rest : List Text}
    (h : ∀ line ∈ lines, isBlankLine line = false ∧ isVttTimingLine line = false) (hrest : Ends rest) :
    skipBlock (lines ++ rest) = rest := by
  induction lines with
  | nil =>
    cases rest with
    | nil => rfl
    | cons line rest => simp [skipBlock, hrest line rfl]
  | cons line lines ih =>
    obtain ⟨hblank, harrow⟩ := h line List.mem_cons_self
    rw [← isVttTimingLine_jsTrim] at harrow
    have hlater : ∀ line ∈ lines, isBlankLine line = false ∧ isVttTimingLine line = false :=
      fun l hl => h l (List.mem_cons_of_mem line hl)
    have hnext : isVttTimingLine (jsTrim ((lines ++ rest).head?.getD [])) = false := by
      cases hhead : (lines ++ rest).head? with
      | none => rfl
      | some next => exact head_of_arrowless hlater hrest next hhead
    rw [isVttTimingLine_jsTrim] at hnext
    rw [List.cons_append, skipBlock, hblank, harrow, isVttTimingLine_jsTrim, hnext, ih hlater]
    simp

/-- Lines without an arrow hold no cue. -/
theorem readLines_comment {lines rest : List Text} (h : ∀ line ∈ lines, isBlankLine line = false ∧ isVttTimingLine line = false)
    (hrest : Ends rest) : readLines textContent (lines ++ rest) = readLines textContent rest := by
  induction lines with
  | nil => rfl
  | cons line lines ih =>
    obtain ⟨hblank, harrow⟩ := h line List.mem_cons_self
    rw [← isVttTimingLine_jsTrim] at harrow
    have hlater : ∀ line ∈ lines, isBlankLine line = false ∧ isVttTimingLine line = false :=
      fun l hl => h l (List.mem_cons_of_mem line hl)
    have hnext := head_of_arrowless hlater hrest
    have hrest' := ih hlater
    rw [List.cons_append, readLines.eq_def]
    dsimp only
    rw [skipBlock_append hlater hrest, harrow, hrest']
    simp only [Bool.false_eq_true, if_false]
    split_ifs with hfirst hskip hregion
    · rfl
    · rfl
    · rfl
    · cases hlines : lines ++ rest with
      | nil =>
        rw [hlines] at hrest'
        rw [← hrest', readLines]
      | cons next after =>
        rw [hlines] at hnext hrest'
        simp only [hnext next rfl, Bool.false_eq_true, if_false]
        exact hrest'

end reading

/-! The lines of a file. -/

theorem ends_cons {line : Text} (h : isBlankLine line = true) (lines : List Text) : Ends (line :: lines) := by
  intro first hfirst
  rw [← Option.some.inj hfirst]
  exact h

theorem readLines_block (textContent : Text → Text) (block : Block) {rest : List Text} (hrest : Ends rest) :
    readLines textContent (block.lines ++ rest) = block.shown.toList ++ readLines textContent rest := by
  cases block with
  | cue block => exact readLines_cue textContent block hrest
  | comment block => exact readLines_comment textContent (fun line hline => (block.arrowless line hline).2) hrest

/-- The cues of a file are read in their order, and nothing else. -/
theorem readLines_file (textContent : Text → Text) {blocks : List Block} {lines : List Text} (h : FileLines blocks lines) :
    readLines textContent lines = blocks.filterMap Block.shown := by
  have hcons (block : Block) (blocks : List Block) :
      (block :: blocks).filterMap Block.shown = block.shown.toList ++ blocks.filterMap Block.shown := by
    rw [List.filterMap_cons]
    cases block.shown <;> rfl
  induction h with
  | nil => rw [readLines]; rfl
  | blank _ hblank _ ih => rw [readLines_blank textContent hblank, ih]
  | last block =>
    have hblock := @readLines_block textContent block [] (by simp [Ends])
    rw [List.append_nil, readLines] at hblock
    rw [hblock, hcons]
    rfl
  | block block _ hblank _ ih =>
    rw [readLines_block textContent block (ends_cons hblank _), readLines_blank textContent hblank, ih, hcons]

theorem isOneLine_iff {line : Text} : isOneLine line = true ↔ '\n' ∉ line ∧ '\r' ∉ line := by
  simp [isOneLine]

theorem CueBlock.isOneLine_timing (cue : CueBlock) : isOneLine cue.timing = true := by
  have hsettings := isOneLine_iff.mp cue.settings_space.1
  have hclock {time : Timestamp} {c : Char} (hc : isJsWhitespace c = true) : c ∉ time.text := by
    intro hmem
    rw [time.text_free.2.2 c hmem] at hc
    cases hc
  have harrow : '\n' ∉ " --> ".toList ∧ '\r' ∉ " --> ".toList := by decide
  rw [isOneLine_iff, CueBlock.timing]
  simp only [List.mem_append, not_or]
  exact ⟨⟨⟨⟨hclock (by decide), harrow.1⟩, hclock (by decide)⟩, hsettings.1⟩,
    ⟨⟨⟨hclock (by decide), harrow.2⟩, hclock (by decide)⟩, hsettings.2⟩⟩

theorem Block.isOneLine_lines (block : Block) : ∀ line ∈ block.lines, isOneLine line = true := by
  cases block with
  | cue block =>
    intro line hline
    obtain hline | hline := List.mem_append.mp hline
    · exact (block.identifier_arrow line (Option.mem_toList.mp hline)).1
    · obtain rfl | hline := List.mem_cons.mp hline
      · exact block.isOneLine_timing
      · exact (block.text line hline).1
  | comment block => exact fun line hline => (block.arrowless line hline).1

theorem FileLines.oneLine {blocks : List Block} {lines : List Text} (h : FileLines blocks lines) :
    ∀ line ∈ lines, isOneLine line = true := by
  induction h with
  | nil => simp
  | blank hone _ _ ih => simpa [hone] using ih
  | last block => exact block.isOneLine_lines
  | block block hone _ _ ih =>
    intro line hline
    obtain hline | hline := List.mem_append.mp hline
    · exact block.isOneLine_lines line hline
    · obtain rfl | hline := List.mem_cons.mp hline
      · exact hone
      · exact ih line hline

/-! The text of a file. -/

theorem normalizeNewlines_line {line : Text} (h : '\n' ∉ line ∧ '\r' ∉ line) (rest : Text) :
    normalizeNewlines (line ++ rest) = line ++ normalizeNewlines rest := by
  induction line with
  | nil => rfl
  | cons c line ih =>
    have hc : c ≠ '\r' := fun heq => h.2 (heq ▸ List.mem_cons_self)
    have hreplace : Media.replaceCrLf (c :: (line ++ rest)) = c :: Media.replaceCrLf (line ++ rest) := by
      rw [Media.replaceCrLf]
      exact fun _ heq => absurd heq hc
    have ih := ih ⟨fun hmem => h.1 (List.mem_cons_of_mem c hmem), fun hmem => h.2 (List.mem_cons_of_mem c hmem)⟩
    unfold normalizeNewlines at ih ⊢
    rw [List.cons_append, hreplace, List.map_cons, ih, if_neg hc, List.cons_append]

/-- A carriage return on its own may not stand before a line feed. -/
theorem normalizeNewlines_lineEnd (lineEnd : LineEnd) {rest : Text} (h : lineEnd = .cr → ∀ c ∈ rest.head?, c ≠ '\n') :
    normalizeNewlines (lineEnd.text ++ rest) = '\n' :: normalizeNewlines rest := by
  have hcr (h : ∀ c ∈ rest.head?, c ≠ '\n') : Media.replaceCrLf ('\r' :: rest) = '\r' :: Media.replaceCrLf rest := by
    cases rest with
    | nil => rfl
    | cons c rest =>
      rw [Media.replaceCrLf]
      rintro s - heq
      exact h c rfl (List.cons.inj heq).1
  cases lineEnd with
  | lf => rfl
  | crlf => rfl
  | cr =>
    unfold normalizeNewlines
    rw [LineEnd.text, List.singleton_append, hcr (h rfl)]
    rfl

theorem normalizeNewlines_intercalate (lineEnd : LineEnd) {lines : List Text} (h : ∀ line ∈ lines, isOneLine line = true) :
    normalizeNewlines (lineEnd.text.intercalate lines) = join '\n' lines := by
  induction lines with
  | nil => rfl
  | cons line lines ih =>
    have hline := isOneLine_iff.mp (h line List.mem_cons_self)
    cases lines with
    | nil =>
      have hnil := normalizeNewlines_line hline []
      rw [List.append_nil] at hnil
      rw [List.intercalate_singleton, join_singleton, hnil]
      exact List.append_nil _
    | cons next lines =>
      have hrest := ih fun l hl => h l (List.mem_cons_of_mem line hl)
      have hhead : lineEnd = .cr → ∀ c ∈ (lineEnd.text.intercalate (next :: lines)).head?, c ≠ '\n' := by
        rintro rfl c hc rfl
        have hnext := isOneLine_iff.mp (h next (by simp))
        cases next with
        | nil =>
          cases lines with
          | nil => cases hc
          | cons last lines =>
            rw [List.intercalate_cons_of_ne_nil (by simp)] at hc
            exact absurd (Option.some.inj hc) (by decide)
        | cons c next =>
          have hfirst : (LineEnd.cr.text.intercalate ((c :: next) :: lines)).head? = some c := by
            cases lines with
            | nil => rfl
            | cons last lines =>
              rw [List.intercalate_cons_of_ne_nil (by simp)]
              rfl
          rw [hfirst] at hc
          exact hnext.1 (Option.some.inj hc ▸ List.mem_cons_self)
      rw [List.intercalate_cons_of_ne_nil (by simp), join_cons _ (by simp), List.append_assoc, normalizeNewlines_line hline,
        normalizeNewlines_lineEnd lineEnd hhead, hrest]

theorem readLines_congr (textContent : Text → Text) {line line' : Text} (h : jsTrim line = jsTrim line') (rest : List Text) :
    readLines textContent (line :: rest) = readLines textContent (line' :: rest) := by
  rw [readLines.eq_def, readLines.eq_def textContent (line' :: rest)]
  dsimp only
  rw [h]

theorem mem_join_lines {lines : List Text} {line : Text} (hline : line ∈ lines) {c : Char} (hc : c ∈ line) : c ∈ join '\n' lines := by
  induction lines with
  | nil => cases hline
  | cons first lines ih =>
    by_cases hnil : lines = []
    · rw [hnil, List.mem_singleton] at hline
      rw [hnil, join_singleton, ← hline]
      exact hc
    · rw [join_cons first hnil, List.mem_append, List.mem_cons]
      obtain rfl | hline := List.mem_cons.mp hline
      · exact .inl hc
      · exact .inr (.inr (ih hline))

/-- A text of nothing but white space has no cue. -/
theorem readLines_of_blank (textContent : Text → Text) {lines : List Text} (h : isBlankLine (join '\n' lines) = true) :
    readLines textContent lines = [] := by
  have hall : ∀ c ∈ join '\n' lines, isJsWhitespace c = true := by
    have hnil : jsTrim (join '\n' lines) = [] := List.isEmpty_iff.mp h
    rw [jsTrim, List.rdropWhile_eq_nil_iff] at hnil
    intro c hc
    rw [← List.takeWhile_append_dropWhile (p := isJsWhitespace) (l := join '\n' lines)] at hc
    obtain hc | hc := List.mem_append.mp hc
    · exact List.mem_takeWhile_imp hc
    · exact hnil c hc
  have hblank : ∀ line ∈ lines, isBlankLine line = true := by
    intro line hline
    have hline : ∀ c ∈ line, isJsWhitespace c = true := by
      intro c hc
      exact hall c (mem_join_lines hline hc)
    have hnil : line.dropWhile isJsWhitespace = [] := List.dropWhile_eq_nil_iff.mpr hline
    rw [isBlankLine, jsTrim, hnil]
    rfl
  clear h hall
  induction lines with
  | nil => rw [readLines]
  | cons line lines ih =>
    rw [readLines_blank textContent (hblank line List.mem_cons_self), ih fun l hl => hblank l (List.mem_cons_of_mem line hl)]

theorem parse_intercalate (textContent : Text → Text) (lineEnd : LineEnd) {rawText : Text} {lines : List Text}
    (hbom : withoutBom rawText = lineEnd.text.intercalate lines) (h : ∀ line ∈ lines, isOneLine line = true) :
    parseWebVttCues textContent rawText = readLines textContent lines := by
  rw [parseWebVttCues, hbom, normalizeNewlines_intercalate lineEnd h]
  split_ifs with hblank
  · rw [readLines_of_blank textContent hblank]
  · have hne : lines ≠ [] := by
      rintro rfl
      exact hblank rfl
    have hsplit : (join '\n' lines).splitOn '\n' = lines :=
      List.splitOn_intercalate '\n' (fun line hline => (isOneLine_iff.mp (h line hline)).1) hne
    rw [hsplit]

theorem withoutBom_cons {c : Char} (h : c ≠ '\uFEFF') (s : Text) : withoutBom (c :: s) = c :: s := by
  unfold withoutBom
  split
  · next heq => exact absurd (List.cons.inj heq).1 h
  · rfl

theorem withoutBom_intercalate (lineEnd : LineEnd) (line : Text) (lines : List Text) :
    withoutBom (lineEnd.text.intercalate (line :: lines)) = lineEnd.text.intercalate (withoutBom line :: lines) := by
  have hends : ∀ c ∈ lineEnd.text, c ≠ '\uFEFF' := by cases lineEnd <;> simp [LineEnd.text]
  have hcons (c : Char) (line : Text) : lineEnd.text.intercalate ((c :: line) :: lines) = c :: lineEnd.text.intercalate (line :: lines) := by
    cases lines with
    | nil => rfl
    | cons next lines =>
      have hne := List.cons_ne_nil next lines
      rw [List.intercalate_cons_of_ne_nil hne, List.intercalate_cons_of_ne_nil hne]
      rfl
  cases line with
  | nil =>
    cases lines with
    | nil => rfl
    | cons next lines =>
      have hfirst : withoutBom ([] : Text) = [] := rfl
      rw [hfirst, List.intercalate_cons_of_ne_nil (by simp), List.nil_append]
      cases hend : lineEnd.text with
      | nil => cases lineEnd <;> cases hend
      | cons c rest =>
        rw [hend] at hends
        exact withoutBom_cons (hends c List.mem_cons_self) _
  | cons c line =>
    rw [hcons]
    by_cases hc : c = '\uFEFF'
    · rw [hc]
      rfl
    · rw [withoutBom_cons hc, withoutBom_cons hc, hcons]

theorem jsTrim_withoutBom (line : Text) : jsTrim (withoutBom line) = jsTrim line := by
  cases line with
  | nil => rfl
  | cons c line =>
    by_cases hc : c = '\uFEFF'
    · have hspace : isJsWhitespace '\uFEFF' = true := by decide
      rw [hc, jsTrim, jsTrim, List.dropWhile_cons_of_pos hspace]
      rfl
    · rw [withoutBom_cons hc]

/-- A printed file gives its cues in their order, each with its times and its text, but for white space
at the ends of the text and zero width spaces. -/
theorem parse_printed (textContent : Text → Text) (bom : Bool) (lineEnd : LineEnd) {blocks : List Block} {lines : List Text}
    (h : FileLines blocks lines) :
    parseWebVttCues textContent (fileText bom lineEnd lines) = blocks.filterMap Block.shown := by
  rw [← readLines_file textContent h]
  have hone := h.oneLine
  cases bom with
  | true => exact parse_intercalate textContent lineEnd rfl hone
  | false =>
    cases lines with
    | nil => exact parse_intercalate textContent lineEnd rfl hone
    | cons line lines =>
      have hline : isOneLine (withoutBom line) = true := by
        have hparts := isOneLine_iff.mp (hone line List.mem_cons_self)
        cases line with
        | nil => rfl
        | cons c line =>
          by_cases hc : c = '\uFEFF'
          · rw [hc] at hparts ⊢
            rw [isOneLine_iff]
            simpa [withoutBom] using hparts
          · rw [withoutBom_cons hc]
            exact hone _ List.mem_cons_self
      rw [readLines_congr textContent (jsTrim_withoutBom line).symm]
      refine parse_intercalate textContent lineEnd (withoutBom_intercalate lineEnd line lines) fun l hl => ?_
      obtain rfl | hl := List.mem_cons.mp hl
      · exact hline
      · exact hone l (List.mem_cons_of_mem line hl)

/-- A cue of the first second. -/
def firstSecond (line : Text) (h : isOneLine line = true ∧ isBlankLine line = false ∧ '<' ∉ line ∧ '&' ∉ line) : CueBlock where
  identifier := none
  start := ⟨0, false, by decide⟩
  stop := ⟨1000, false, by decide⟩
  settings := []
  lines := [line]
  ordered := by decide
  identifier_arrow := by simp
  settings_space := ⟨rfl, by simp⟩
  lines_ne_nil := by simp
  text := by simpa using h

def header : CommentBlock where
  lines := ["WEBVTT".toList]
  arrowless := by
    intro line hline
    rw [List.mem_singleton.mp hline]
    decide

def greeting : CueBlock := firstSecond "Hello".toList (by decide)

theorem parse_greeting : parseWebVttCues id (fileText true .crlf ["WEBVTT".toList, [], greeting.timing, "Hello".toList]) =
    [⟨0, 1, "Hello".toList⟩] := by
  have hfile : FileLines [.comment header, .cue greeting] ["WEBVTT".toList, [], greeting.timing, "Hello".toList] :=
    .block (.comment header) rfl rfl (.last (.cue greeting))
  exact (parse_printed id true .crlf hfile).trans (by decide +kernel)

/-- The cue as it was printed. -/
def Block.printed : Block → Option Cue
  | .cue block => some ⟨block.start.seconds, block.stop.seconds, join '\n' block.lines⟩
  | .comment _ => none

def indented : CueBlock := firstSecond " Hello".toList (by decide)

theorem leading_space_lost : ¬∀ (textContent : Text → Text) (bom : Bool) (lineEnd : LineEnd) (blocks : List Block) (lines : List Text),
    FileLines blocks lines → parseWebVttCues textContent (fileText bom lineEnd lines) = blocks.filterMap Block.printed := by
  intro h
  have hfile : FileLines [.cue indented] (Block.cue indented).lines := .last _
  have hprinted := h id true .lf _ _ hfile
  have hshown : parseWebVttCues id (fileText true .lf (Block.cue indented).lines) = _ :=
    (parse_intercalate id .lf rfl hfile.oneLine).trans (readLines_file id hfile)
  rw [hshown] at hprinted
  exact absurd hprinted (by decide +kernel)

end StreamArena.WebPlayer.SubtitleCues
