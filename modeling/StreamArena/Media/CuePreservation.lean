import Mathlib
import StreamArena.Media.Cues

/-! When a subtitle text keeps its cues as it is normalized. -/
namespace StreamArena.Media
open AsciiText Words Regexes Regexes.Regex Separated TextLines

/-- Where a line stands: in no cue, in the text of one, or in a style block. -/
inductive Place where
  | outside
  | dialogue
  | style
  deriving DecidableEq

/-- A line as the sanitizer gets it. -/
def shownLine (digits : Digits) (rawText line : Text) : Text :=
  if isWebVtt rawText = true then line else normalizeSrtTimestamps digits line

/-- A line of dialogue that is not white space and holds no SubRip timestamp, is not the word
that opens style blocks, and, when no keyword stands at its start, holds no arrow, more than
markup, and no markup that shows up when other markup is removed. -/
def dialogueSafe (shown : Text → Text) (line : Text) : Bool :=
  shown line == line && !isStyle line && !isBlank line && (isKeyword line ||
    (!contains (trim line) arrowText && !(stripCueMarkup line).isEmpty && stripCueMarkup (stripCueMarkup line) == stripCueMarkup line))

/-- The dialogue is safe, no timing line stands in a style block, and no line that stands
outside of cues becomes a timing line. -/
def linesSafe (marks : List Char) (shown : Text → Text) : Place → List Text → Bool
  | _, [] => true
  | .outside, line :: rest =>
    if (cueTimes marks line).isSome then linesSafe marks shown .dialogue rest
    else if isStyle (shown line) = true then linesSafe marks shown .style rest
    else (cueTimes ['.'] (sanitizeLine (shown line))).isNone && linesSafe marks shown .outside rest
  | .dialogue, line :: rest =>
    if line = [] then linesSafe marks shown .outside rest else dialogueSafe shown line && linesSafe marks shown .dialogue rest
  | .style, line :: rest =>
    (cueTimes marks line).isNone && linesSafe marks shown (if isBlank (shown line) = true then .outside else .style) rest

/-- What stands behind the signature on the first line. -/
def headerTail : List Text → Text
  | [] => []
  | first :: _ => (stripPrefix first signature).getD []

/-- The texts whose lines are safe, with a header that is no timing line and white space at the
end of no dialogue that stands last. -/
structure CuesSafe (digits : Digits) (rawText : Text) : Prop where
  lines : linesSafe (marksOf rawText) (shownLine digits rawText) .outside (trimLines (textLines rawText)) = true
  header : cueTimes ['.'] (headerTail (trimLines (textLines rawText))) = none
  ending : endsClean (marksOf rawText) false (textLines rawText) = true
  sanitizedEnding : endsClean ['.'] false
    (sanitizeLines false ((trimLines (textLines rawText)).map (shownLine digits rawText))) = true

section
variable {marks : List Char} {shown : Text → Text}

theorem sanitizeLine_dialogue {line : Text} (h : dialogueSafe shown line = true) : shown line = line ∧ isStyle line = false ∧
    sanitizeLine line ≠ [] ∧ stripCueMarkup (sanitizeLine line) = stripCueMarkup line := by
  simp only [dialogueSafe, Bool.and_eq_true, Bool.or_eq_true, beq_iff_eq, Bool.not_eq_true'] at h
  obtain ⟨⟨⟨hshown, hstyle⟩, hblank⟩, hkind⟩ := h
  have hempty : ¬ (trim line).isEmpty = true := by
    rw [isEmpty_trim, hblank]
    exact Bool.false_ne_true
  refine ⟨hshown, hstyle, ?_⟩
  rw [sanitizeLine, if_neg hempty]
  by_cases hkeyword : isKeyword line = true
  · rw [if_pos hkeyword]
    refine ⟨fun hnil => ?_, rfl⟩
    rw [hnil] at hblank
    cases hblank
  · obtain ⟨⟨harrow, hmarkup⟩, hstable⟩ := hkind.resolve_left hkeyword
    rw [if_neg hkeyword, harrow, if_neg Bool.false_ne_true]
    refine ⟨fun hnil => ?_, hstable⟩
    rw [hnil] at hmarkup
    cases hmarkup

theorem sanitizeLines_styled (line : Text) (rest : List Text) :
    sanitizeLines true (line :: rest) = sanitizeLines (!isBlank line) rest := by
  rw [sanitizeLines, isEmpty_trim]

theorem sanitizeLines_style {line : Text} (h : isStyle line = true) (rest : List Text) :
    sanitizeLines false (line :: rest) = sanitizeLines true rest := by
  rw [sanitizeLines, if_pos h]

theorem sanitizeLines_line {line : Text} (h : isStyle line = false) (rest : List Text) :
    sanitizeLines false (line :: rest) = sanitizeLine line :: sanitizeLines false rest := by
  rw [sanitizeLines, h, if_neg Bool.false_ne_true]

/-- Safe lines are sanitized with the cues that they hold. -/
theorem readCues_sanitizeLines (hempty : shown [] = [])
    (htiming : ∀ line times, cueTimes marks line = some times → cueTimes ['.'] (shown line) = some times) (text : List Text) :
    (linesSafe marks shown .outside text = true →
      readCues ['.'] none (sanitizeLines false (text.map shown)) = readCues marks none text) ∧
    (linesSafe marks shown .dialogue text = true → ∀ cue,
      readCues ['.'] (some cue) (sanitizeLines false (text.map shown)) = readCues marks (some cue) text) ∧
    (linesSafe marks shown .style text = true →
      readCues ['.'] none (sanitizeLines true (text.map shown)) = readCues marks none text) := by
  induction text with
  | nil => exact ⟨fun _ => rfl, fun _ _ => rfl, fun _ => rfl⟩
  | cons line rest ih =>
    obtain ⟨hout, hdialogue, hstyled⟩ := ih
    rw [List.map_cons]
    refine ⟨fun h => ?_, fun h cue => ?_, fun h => ?_⟩
    · rw [linesSafe] at h
      cases htimes : cueTimes marks line with
      | some times =>
        rw [htimes, Option.isSome_some, if_pos rfl] at h
        obtain ⟨hstyle, hkept⟩ := cueTimes_sanitizeLine (htiming line times htimes)
        rw [sanitizeLines_line hstyle, readCues_timing hkept, readCues_timing htimes]
        exact hdialogue h _
      | none =>
        rw [htimes, Option.isSome_none, if_neg Bool.false_ne_true] at h
        rw [readCues_none_cons htimes]
        by_cases hstyle : isStyle (shown line) = true
        · rw [if_pos hstyle] at h
          rw [sanitizeLines_style hstyle]
          exact hstyled h
        · rw [if_neg hstyle, Bool.and_eq_true, Option.isNone_iff_eq_none] at h
          rw [sanitizeLines_line (Bool.eq_false_iff.mpr hstyle), readCues_none_cons h.1]
          exact hout h.2
    · rw [linesSafe] at h
      rcases eq_or_ne line [] with rfl | hline
      · rw [if_pos rfl] at h
        have hnil : sanitizeLine [] = [] := rfl
        rw [hempty, sanitizeLines_line rfl, hnil, readCues_close, readCues_close, hout h]
      · rw [if_neg hline, Bool.and_eq_true] at h
        obtain ⟨hshown, hstyle, hne, hmarkup⟩ := sanitizeLine_dialogue h.1
        have hpush : cue.push (sanitizeLine line) = cue.push line := by rw [Cue.push, Cue.push, hmarkup]
        rw [hshown, sanitizeLines_line hstyle, readCues_push cue hne, readCues_push cue hline, hpush]
        exact hdialogue h.2 _
    · rw [linesSafe, Bool.and_eq_true, Option.isNone_iff_eq_none] at h
      rw [sanitizeLines_styled, readCues_none_cons h.1]
      by_cases hblank : isBlank (shown line) = true
      · rw [if_pos hblank] at h
        rw [hblank]
        exact hout h.2
      · rw [if_neg hblank] at h
        rw [Bool.eq_false_iff.mpr hblank]
        exact hstyled h.2

end

section
variable {digits : Digits}

/-- A line without line ends. -/
def OneLine (line : Text) : Prop := '\n' ∉ line ∧ '\r' ∉ line

theorem notMem_normalizeNewlines (s : Text) : '\r' ∉ normalizeNewlines s := by
  rw [normalizeNewlines, List.mem_map]
  rintro ⟨c, -, hc⟩
  split at hc
  · exact absurd hc (by decide)
  · next hne => exact hne hc

theorem oneLine_textLines {rawText line : Text} (h : line ∈ textLines rawText) : OneLine line := by
  constructor
  · exact Separated.notMem_of_mem_splitOn h
  · exact fun hmem => notMem_normalizeNewlines _ (of_mem_splitOnP h hmem).1

theorem OneLine.of_subset {line line' : Text} (h : OneLine line) (hsub : line' ⊆ line) : OneLine line' :=
  ⟨fun hmem => h.1 (hsub hmem), fun hmem => h.2 (hsub hmem)⟩

theorem oneLine_trimLines {rawText line : Text} (h : line ∈ trimLines (textLines rawText)) : OneLine line := by
  obtain ⟨l, hl, hsub⟩ := mem_trimLines h
  exact (oneLine_textLines hl).of_subset hsub

theorem subset_removeAll (r : Regex) (s : Text) : removeAll r s ⊆ s := fun _ hc =>
  mem_replaceAll hc fun _ _ hmem => absurd hmem List.not_mem_nil

theorem subset_stripCueMarkup (line : Text) : stripCueMarkup line ⊆ line := by
  intro c hc
  rw [stripCueMarkup] at hc
  have hvoice := subset_removeAll _ _ (subset_removeAll _ _ hc)
  have hcue := subset_removeAll _ _ (subset_removeAll _ _ hvoice)
  exact subset_removeAll _ _ (subset_removeAll _ _ hcue)

theorem oneLine_applyCueDisplaySettings (line : Text) : OneLine (applyCueDisplaySettings line) := by
  have hwords : ∀ c ∈ join ' ' ((splitWhitespace line).filter keepsToken), c = ' ' ∨ isWhitespace c = false := by
    intro c hc
    rcases mem_join hc with ⟨word, hword, hmem⟩ | hspace
    · exact .inr (of_mem_splitWhitespace (List.mem_filter.mp hword).1 hmem).2
    · exact .inl hspace
  have htrim : ∀ c ∈ trim (join ' ' ((splitWhitespace line).filter keepsToken)), c = ' ' ∨ isWhitespace c = false := by
    intro c hc
    exact hwords c ((List.dropWhile_sublist isWhitespace).subset ((List.rdropWhile_prefix isWhitespace _).subset hc))
  have hfree (c : Char) (hspace : isWhitespace c = true) (hne : c ≠ ' ') (hsettings : c ∉ displaySettings) :
      c ∉ applyCueDisplaySettings line := by
    intro hmem
    have hnot : c ∉ trim (join ' ' ((splitWhitespace line).filter keepsToken)) := by
      intro hc
      rcases htrim c hc with heq | hword
      · exact hne heq
      · rw [hspace] at hword
        cases hword
    rw [applyCueDisplaySettings] at hmem
    split at hmem
    · rcases List.mem_append.mp hmem with hmem | hmem
      · exact hnot hmem
      · exact hsettings hmem
    · exact hnot hmem
  exact ⟨hfree '\n' (by decide) (by decide) (by decide), hfree '\r' (by decide) (by decide) (by decide)⟩

theorem oneLine_nil : OneLine [] := ⟨List.not_mem_nil, List.not_mem_nil⟩

theorem oneLine_sanitizeLine {line : Text} (h : OneLine line) : OneLine (sanitizeLine line) := by
  rw [sanitizeLine]
  split
  · exact oneLine_nil
  · split
    · exact h
    · split
      · exact oneLine_applyCueDisplaySettings line
      · exact h.of_subset (subset_stripCueMarkup line)

theorem oneLine_sanitizeLines {inStyle : Bool} {text : List Text} (h : ∀ line ∈ text, OneLine line) :
    ∀ line ∈ sanitizeLines inStyle text, OneLine line := by
  induction text generalizing inStyle with
  | nil =>
    intro line hline
    cases inStyle <;> cases hline
  | cons first rest ih =>
    have hrest : ∀ line ∈ rest, OneLine line := fun line hline => h line (List.mem_cons_of_mem first hline)
    cases inStyle with
    | true => exact ih hrest
    | false =>
      rw [sanitizeLines]
      split
      · exact ih hrest
      · intro line hline
        rcases List.mem_cons.mp hline with rfl | hline
        · exact oneLine_sanitizeLine (h first List.mem_cons_self)
        · exact ih hrest line hline

/-- The two groups of a SubRip timestamp. -/
theorem groups_srtTimestamp {c d : Cursor} (h : d ∈ (srtTimestamp digits).run noWords c) :
    ∃ clock fraction, d.groups = c.groups ++ [clock, fraction] := by
  obtain ⟨m, hm, hd⟩ := List.mem_flatMap.mp h
  obtain ⟨b, hb, rfl⟩ := List.mem_map.mp hm
  obtain ⟨comma, hcomma, hd⟩ := List.mem_flatMap.mp hd
  obtain ⟨e, he, rfl⟩ := List.mem_map.mp hd
  rw [groups_of_groupless (by rfl) he, groups_of_groupless (by rfl) hcomma]
  have hbase := groups_of_groupless (by rfl) hb
  refine ⟨c.rest.take (c.rest.length - b.rest.length), comma.rest.take (comma.rest.length - e.rest.length), ?_⟩
  simp [hbase]

theorem normalizeSrt_ne_nil {line : Text} (h : line ≠ []) : normalizeSrtTimestamps digits line ≠ [] := by
  cases line with
  | nil => exact absurd rfl h
  | cons c rest =>
    rw [normalizeSrtTimestamps, replaceAll_cons (avoids_srtTimestamp digits)]
    cases hfound : (srtTimestamp digits).matchAt noWords none (c :: rest) with
    | none => exact List.cons_ne_nil _ _
    | some found =>
      rw [matchAt, Option.filter_eq_some_iff] at hfound
      obtain ⟨clock, fraction, hgroups⟩ := groups_srtTimestamp (List.mem_of_mem_head? hfound.1)
      simp [hgroups, pointed]

theorem oneLine_normalizeSrt {line : Text} (h : OneLine line) : OneLine (normalizeSrtTimestamps digits line) := by
  have hkeep (x : Char) (hx : x ≠ '.') (hfree : x ∉ line) : x ∉ normalizeSrtTimestamps digits line := by
    intro hmem
    refine hfree (mem_replaceAll hmem fun groups hgroups hpointed => ?_)
    unfold pointed at hpointed
    split at hpointed
    · rcases List.mem_append.mp hpointed with hclock | hfraction
      · exact hgroups _ List.mem_cons_self hclock
      · rcases List.mem_cons.mp hfraction with heq | hfraction
        · exact hx heq
        · exact hgroups _ (List.mem_cons_of_mem _ List.mem_cons_self) hfraction
    · cases hpointed
  exact ⟨hkeep '\n' (by decide) h.1, hkeep '\r' (by decide) h.2⟩

theorem oneLine_shownLine {rawText line : Text} (h : OneLine line) : OneLine (shownLine digits rawText line) := by
  rw [shownLine]
  split
  · exact h
  · exact oneLine_normalizeSrt h

/-- The timestamps of a text are those of its lines. -/
theorem normalizeSrt_join (text : List Text) :
    normalizeSrtTimestamps digits (join '\n' text) = join '\n' (text.map (normalizeSrtTimestamps digits)) := by
  induction text with
  | nil => rfl
  | cons line rest ih =>
    cases rest with
    | nil => rw [List.map_singleton, join_singleton, join_singleton]
    | cons next rest =>
      have hne : (next :: rest).map (normalizeSrtTimestamps digits) ≠ [] := List.cons_ne_nil _ _
      rw [List.map_cons, join_cons line (List.cons_ne_nil next rest), join_cons _ hne, ← ih]
      exact replaceAll_append (avoids_srtTimestamp digits) line (join '\n' (next :: rest))

end

theorem normalizeNewlines_of_notMem {s : Text} (h : '\r' ∉ s) : normalizeNewlines s = s := by
  have hkeep : replaceCrLf s = s := by
    induction s with
    | nil => rfl
    | cons c s ih =>
      have hne : c ≠ '\r' := fun heq => h (heq ▸ List.mem_cons_self)
      rw [replaceCrLf, ih fun hmem => h (List.mem_cons_of_mem c hmem)]
      exact fun _ heq _ => hne heq
  rw [normalizeNewlines, hkeep]
  refine (List.map_congr_left ?_).trans (List.map_id s)
  intro c hc
  have hne : c ≠ '\r' := fun heq => h (heq ▸ hc)
  exact if_neg hne

theorem normalizeNewlines_signature {more : Text} (h : '\r' ∉ more) :
    normalizeNewlines (withoutBom (signature ++ more)) = signature ++ more := by
  have hbom : withoutBom (signature ++ more) = signature ++ more := rfl
  rw [hbom]
  apply normalizeNewlines_of_notMem
  rw [List.mem_append, not_or]
  exact ⟨by decide, h⟩

theorem trim_signature (more : Text) : trim (signature ++ more) = signature ++ trimEnd more := by
  have hword : ∀ c ∈ signature, isWhitespace c = false := by
    have hall : signature.all (fun c => !isWhitespace c) = true := by decide
    intro c hc
    simpa using List.all_eq_true.mp hall c hc
  have hne : signature ≠ [] := by decide
  rw [trim_eq, trimStart_word hne hword]
  exact trimEnd_word [] hne hword more

/-- The lines before the body of what is sent. -/
def headLines : List Text := signature :: [] :: transparentCueStyle.dropLast

theorem sent_eq (rest : Text) :
    signature ++ '\n' :: '\n' :: (transparentCueStyleBlock ++ rest) = join '\n' (headLines ++ [[]]) ++ rest := by
  have hlines : headLines ++ [[]] = signature :: [] :: transparentCueStyle := rfl
  rw [hlines, join_cons_cons, join_cons [] (by simp [transparentCueStyle]), transparentCueStyleBlock]
  simp

/-- The cues of what is sent are those of the body. -/
theorem cuesOf_sent {rest : Text} (h : '\r' ∉ rest) :
    cuesOf (signature ++ '\n' :: '\n' :: (transparentCueStyleBlock ++ rest)) = readCues ['.'] none (rest.splitOn '\n') := by
  have hcr : '\r' ∉ '\n' :: '\n' :: (transparentCueStyleBlock ++ rest) := by
    have hblock : '\r' ∉ transparentCueStyleBlock := by decide
    simp [hblock, h]
  have hvtt : isWebVtt (signature ++ '\n' :: '\n' :: (transparentCueStyleBlock ++ rest)) = true := by
    rw [isWebVtt, normalizeNewlines_signature hcr, trim_signature, startsWith_iff]
    exact List.prefix_append _ _
  have hfree : ∀ line ∈ headLines, '\n' ∉ line ∧ '>' ∉ line := by
    have hall : headLines.all (fun line => !line.contains '\n' && !line.contains '>') = true := by decide
    intro line hline
    simpa using List.all_eq_true.mp hall line hline
  rw [cuesOf, marksOf, if_pos hvtt, textLines, normalizeNewlines_signature hcr, sent_eq,
    splitOn_join_append fun line hline => (hfree line hline).1]
  exact readCues_none_append (fun line hline => cueTimes_of_notMem (hfree line hline).2) _

theorem readCues_body {marks : List Char} {text : List Text} (h : ∀ line ∈ text, '\n' ∉ line) :
    readCues marks none ((join '\n' text ++ ['\n']).splitOn '\n') = readCues marks none text := by
  rcases eq_or_ne text [] with rfl | hne
  · have hlines : (join '\n' ([] : List Text) ++ ['\n']).splitOn '\n' = [[], []] := by decide
    rw [hlines]
    exact (readCues_concat none [[]]).trans (readCues_concat none [])
  · have hsplit := splitOn_join_append h []
    rw [List.append_nil, join_concat hne] at hsplit
    rw [hsplit]
    exact readCues_concat none text

theorem sanitizeVttBody_join {text : List Text} (h : ∀ line ∈ text, OneLine line)
    (hlast : ∀ line, text.getLast? = some line → line ≠ []) :
    sanitizeVttBody (join '\n' text) = join '\n' (sanitizeLines false text) := by
  rw [sanitizeVttBody, lines_join h hlast]

/-- The cues of a body that is sent as it is left by trimming. -/
theorem cuesOf_trimmed {text : List Text} (h : ∀ line ∈ text, OneLine line) (hends : endsClean ['.'] false text = true) :
    cuesOf (signature ++ '\n' :: '\n' :: (transparentCueStyleBlock ++ (trim (join '\n' text) ++ ['\n']))) =
      readCues ['.'] none text := by
  have hone : ∀ line ∈ trimLines text, OneLine line := by
    intro line hline
    obtain ⟨l, hl, hsub⟩ := mem_trimLines hline
    exact (h l hl).of_subset hsub
  have hcr : '\r' ∉ join '\n' (trimLines text) ++ ['\n'] := by
    intro hmem
    rcases List.mem_append.mp hmem with hmem | hmem
    · rcases mem_join hmem with ⟨line, hline, hc⟩ | hc
      · exact (hone line hline).2 hc
      · exact absurd hc (by decide)
    · exact absurd hmem (by decide)
  rw [trim_join, cuesOf_sent hcr, readCues_body fun line hline => (hone line hline).1]
  exact readCues_trimLines plain_point hends

theorem exists_tail {first : Text} {rest : List Text} (h : startsWith (join '\n' (first :: rest)) signature = true) :
    ∃ tail, first = signature ++ tail := by
  rw [startsWith_iff] at h
  cases rest with
  | nil =>
    rw [join_singleton] at h
    exact ⟨_, List.prefix_append_drop h⟩
  | cons next rest =>
    rw [join_cons_cons] at h
    rcases List.prefix_or_prefix_of_prefix h (List.prefix_append first ('\n' :: join '\n' (next :: rest))) with hpre | hpre
    · obtain ⟨tail, htail⟩ := hpre
      exact ⟨tail, htail.symm⟩
    · obtain ⟨t, ht⟩ := hpre
      rw [← ht, List.prefix_append_right_inj] at h
      cases t with
      | nil => exact ⟨[], by rw [List.append_nil, ← ht, List.append_nil]⟩
      | cons c t =>
        have hc : c = '\n' := (List.cons_prefix_cons.mp h).1
        have hmem : '\n' ∈ signature := by
          rw [← ht, hc]
          simp
        exact absurd hmem (by decide)

theorem sanitizeLines_signature (tail : Text) (rest : List Text) :
    sanitizeLines false ((signature ++ tail) :: rest) = (signature ++ tail) :: sanitizeLines false rest := by
  have hempty : ¬ (trim (signature ++ tail)).isEmpty = true := by
    rw [trim_signature]
    exact Bool.false_ne_true
  have hstyle : isStyle (signature ++ tail) = false := by
    rw [isStyle, trim_signature]
    rfl
  have hkeyword : isKeyword (signature ++ tail) = true := by
    rw [isKeyword, trim_signature]
    have hstarts : startsWith (signature ++ trimEnd tail) signature = true := startsWith_iff.mpr (List.prefix_append _ _)
    exact List.any_eq_true.mpr ⟨signature, List.mem_cons_self, hstarts⟩
  rw [sanitizeLines_line hstyle, sanitizeLine, if_neg hempty, if_pos hkeyword]

/-- A safe text has the cues that it had once it is normalized. -/
theorem cues_preserved {digits : Digits} {rawText : Text} (h : CuesSafe digits rawText) :
    cuesOf (normalizeSubtitleTextToVtt digits rawText) = cuesOf rawText := by
  have hnormalized : trim (normalizeNewlines (withoutBom rawText)) = join '\n' (trimLines (textLines rawText)) := by
    have hjoin : join '\n' (textLines rawText) = normalizeNewlines (withoutBom rawText) := List.intercalate_splitOn '\n'
    rw [← trim_join, hjoin]
  have hraw : cuesOf rawText = readCues (marksOf rawText) none (trimLines (textLines rawText)) :=
    (readCues_trimLines (plain_marksOf rawText) h.ending).symm
  have hshownNil : shownLine digits rawText [] = [] := by
    rw [shownLine]
    split <;> rfl
  have htiming : ∀ line times, cueTimes (marksOf rawText) line = some times →
      cueTimes ['.'] (shownLine digits rawText line) = some times := by
    intro line times htimes
    rw [marksOf] at htimes
    rw [shownLine]
    split
    · next hvtt => rwa [if_pos hvtt] at htimes
    · next hvtt =>
      rw [if_neg hvtt] at htimes
      exact cueTimes_normalizeSrt htimes
  have hkept := (readCues_sanitizeLines hshownNil htiming (trimLines (textLines rawText))).1 h.lines
  have hone : ∀ line ∈ (trimLines (textLines rawText)).map (shownLine digits rawText), OneLine line := by
    intro line hline
    obtain ⟨l, hl, rfl⟩ := List.mem_map.mp hline
    exact oneLine_shownLine (oneLine_trimLines hl)
  have hsanitizedOne := @oneLine_sanitizeLines false _ hone
  have hlast : ∀ line, ((trimLines (textLines rawText)).map (shownLine digits rawText)).getLast? = some line → line ≠ [] := by
    intro line hline
    rw [List.getLast?_map, Option.map_eq_some_iff] at hline
    obtain ⟨l, hl, rfl⟩ := hline
    have hne := getLast_trimEndLines hl
    rw [shownLine]
    split
    · exact hne
    · exact normalizeSrt_ne_nil hne
  have hbody := sanitizeVttBody_join hone hlast
  have hsafe := h.sanitizedEnding
  rw [hraw, normalizeSubtitleTextToVtt]
  simp only [hnormalized]
  by_cases hempty : trimLines (textLines rawText) = []
  · have hsent := @cuesOf_sent [] List.not_mem_nil
    rw [List.append_nil] at hsent
    have hnil : (join '\n' ([] : List Text)).isEmpty = true := rfl
    rw [hempty, if_pos hnil, hsent]
    exact readCues_concat none []
  · have hne : ¬ (join '\n' (trimLines (textLines rawText))).isEmpty = true := by
      rw [List.isEmpty_iff]
      exact fun hnil => hempty (join_trimEndLines_eq_nil hnil)
    rw [if_neg hne]
    by_cases hvtt : isWebVtt rawText = true
    · have hsame : (trimLines (textLines rawText)).map (shownLine digits rawText) = trimLines (textLines rawText) := by
        refine (List.map_congr_left ?_).trans (List.map_id _)
        intro line _
        exact if_pos hvtt
      have hstarts : startsWith (join '\n' (trimLines (textLines rawText))) signature = true := by
        rw [isWebVtt, hnormalized] at hvtt
        exact hvtt
      have hheader := h.header
      rw [hsame] at hbody hkept hsafe hsanitizedOne
      rw [if_pos hstarts, hbody, ← hkept]
      obtain ⟨first, rest, hlines⟩ := List.exists_cons_of_ne_nil hempty
      rw [hlines] at hstarts hheader hsafe hsanitizedOne ⊢
      obtain ⟨tail, rfl⟩ := exists_tail hstarts
      rw [sanitizeLines_signature] at hsafe hsanitizedOne ⊢
      have hstrip (s : Text) : stripPrefix (signature ++ s) signature = some s := stripPrefix_eq_some.mpr rfl
      rw [headerTail, hstrip, Option.getD_some] at hheader
      have hjoin : join '\n' ((signature ++ tail) :: sanitizeLines false rest) =
          signature ++ join '\n' (tail :: sanitizeLines false rest) := by
        rcases eq_or_ne (sanitizeLines false rest) [] with hnil | hne
        · rw [hnil, join_singleton, join_singleton]
        · rw [join_cons _ hne, join_cons _ hne, List.append_assoc]
      have hdrop (s : Text) : trim (s.dropWhile fun c => ['\n', ' ', '\t'].contains c) = trim s := by
        have hblank : isBlank (s.takeWhile fun c => ['\n', ' ', '\t'].contains c) = true := by
          refine List.all_eq_true.mpr fun c hc => ?_
          have hmem := List.mem_takeWhile_imp hc
          simp only [List.contains_iff_mem, List.mem_cons, List.not_mem_nil, or_false] at hmem
          rcases hmem with rfl | rfl | rfl <;> decide
        rw [trim_eq, trim_eq, ← trimStart_blank hblank, List.takeWhile_append_dropWhile]
      have hrestOne : ∀ line ∈ tail :: sanitizeLines false rest, OneLine line := by
        intro line hline
        rcases List.mem_cons.mp hline with rfl | hline
        · exact (hsanitizedOne _ List.mem_cons_self).of_subset (List.subset_append_right _ _)
        · exact hsanitizedOne line (List.mem_cons_of_mem _ hline)
      rw [endsClean, cueTimes_signature] at hsafe
      have hends : endsClean ['.'] false (tail :: sanitizeLines false rest) = true := by
        rw [endsClean, hheader]
        exact hsafe
      rw [hjoin, hstrip, Option.getD_some, hdrop, cuesOf_trimmed hrestOne hends, readCues_none_cons hheader,
        readCues_none_cons (cueTimes_signature tail)]
    · have hsame : (trimLines (textLines rawText)).map (shownLine digits rawText) =
          (trimLines (textLines rawText)).map (normalizeSrtTimestamps digits) := by
        refine List.map_congr_left ?_
        intro line _
        exact if_neg hvtt
      have hstarts : ¬ startsWith (join '\n' (trimLines (textLines rawText))) signature = true := by
        rw [isWebVtt, hnormalized] at hvtt
        exact hvtt
      rw [if_neg hstarts, normalizeSrt_join, ← hsame, hbody, cuesOf_trimmed hsanitizedOne hsafe, hkept]

def asciiDigits : Digits where
  isDigit := Char.isDigit
  ascii _ _ := rfl
  whitespace c h := by
    rw [Bool.eq_false_iff]
    intro hdigit
    simp only [Char.isDigit, Bool.and_eq_true, decide_eq_true_eq] at hdigit
    have hlow : 48 ≤ c.toNat := hdigit.1
    have hhigh : c.toNat ≤ 57 := hdigit.2
    simp only [isWhitespace, Bool.or_eq_true, Bool.and_eq_true, decide_eq_true_eq, beq_iff_eq] at h
    omega

def shownSubtitles : Text := "\uFEFF1\r\n00:00:01,000 --> 00:00:02,500 \r\n<font color=red>Hi</font>, you\r\n\r\n2\r\n00:00:03,000 --> 00:00:04,000\r\nNOTE the time\r\n".toList

/-- Its lines, as they are shown. -/
theorem shownSubtitles_lines : isWebVtt shownSubtitles = false ∧
    textLines shownSubtitles = ["1".toList, "00:00:01,000 --> 00:00:02,500 ".toList, "<font color=red>Hi</font>, you".toList, [],
      ['2'], "00:00:03,000 --> 00:00:04,000".toList, "NOTE the time".toList, []] := by
  decide +kernel

theorem shownSubtitles_preserved :
    cuesOf (normalizeSubtitleTextToVtt asciiDigits shownSubtitles) = [⟨1000, 2500, ["Hi, you".toList]⟩, ⟨3000, 4000, ["NOTE the time".toList]⟩] := by
  obtain ⟨hvtt, htext⟩ := shownSubtitles_lines
  have hmarks : marksOf shownSubtitles = [',', '.'] := by rw [marksOf, hvtt, if_neg Bool.false_ne_true]
  have hshown : shownLine asciiDigits shownSubtitles = normalizeSrtTimestamps asciiDigits := by
    funext line
    rw [shownLine, hvtt, if_neg Bool.false_ne_true]
  have hlines : linesSafe (marksOf shownSubtitles) (shownLine asciiDigits shownSubtitles) .outside (trimLines (textLines shownSubtitles)) = true := by
    rw [hmarks, hshown, htext]
    decide +kernel
  have hheader : cueTimes ['.'] (headerTail (trimLines (textLines shownSubtitles))) = none := by
    rw [htext]
    decide +kernel
  have hending : endsClean (marksOf shownSubtitles) false (textLines shownSubtitles) = true := by
    rw [hmarks, htext]
    decide +kernel
  have hsanitized : endsClean ['.'] false
      (sanitizeLines false ((trimLines (textLines shownSubtitles)).map (shownLine asciiDigits shownSubtitles))) = true := by
    rw [hshown, htext]
    decide +kernel
  have hcues : cuesOf shownSubtitles = [⟨1000, 2500, ["Hi, you".toList]⟩, ⟨3000, 4000, ["NOTE the time".toList]⟩] := by
    rw [cuesOf, hmarks, htext]
    decide +kernel
  exact (cues_preserved ⟨hlines, hheader, hending, hsanitized⟩).trans hcues

def spokenStyle : Text := "1\n00:00:01,000 --> 00:00:02,000\nStyle\n".toList

def sentBefore : Text := normalizeSubtitleTextToVtt asciiDigits "00:00:01,000 --> 00:00:02,000\nHi".toList

/-- The dialogue `Style` opens a style block and is lost, and so is the first cue of what was
normalized before: no empty line stands between it and the style block that it was sent with. -/
theorem style_blocks_lose_cues :
    cuesOf (normalizeSubtitleTextToVtt asciiDigits spokenStyle) ≠ cuesOf spokenStyle ∧
      cuesOf (normalizeSubtitleTextToVtt asciiDigits sentBefore) ≠ cuesOf sentBefore := by
  constructor
  · decide +kernel
  · decide +kernel

end StreamArena.Media
