import StreamArena.LiveHls.Playlist

/-! What cutting a live window does to the segments it keeps: they read as before exactly
if the first of them needs nothing from the segments that were dropped. -/
namespace StreamArena.LiveHls
open AsciiText Decimal MediaPlaylist Separated

def isUriLine (line : Text) : Bool := !startsWith line ['#']

/-- A tag of the front of a playlist that goes into the header. -/
def isHeaderLine (line : Text) : Bool := startsWith line ['#'] && !staysWithSegment line

/-- The tags of the first block that the scan puts into the header. -/
def goesToHeader (sawSegment : Bool) (line : Text) : Bool := !sawSegment && isHeaderLine line

/-- A line the scan of a live playlist does not write anew or leave out. -/
def survives (line : Text) : Bool :=
  (sequenceTag line).isNone &&
    !startsWith line "#EXT-X-ENDLIST".toList

section lines

theorem trimEnd_trimEnd (s : Text) : trimEnd (trimEnd s) = trimEnd s := List.rdropWhile_idempotent _ _

theorem trim_trimEnd_isEmpty (s : Text) : (trim (trimEnd s)).isEmpty = (trimEnd s).isEmpty := by
  rw [Bool.eq_iff_iff, List.isEmpty_iff, List.isEmpty_iff]
  constructor
  · intro h
    have hdrop : (trimEnd s).dropWhile isWhitespace = [] := by
      by_contra hne
      have hwhite := List.rdropWhile_eq_nil_iff.mp h _ (List.head_mem hne)
      rw [List.head_dropWhile_not isWhitespace hne] at hwhite
      cases hwhite
    have hall := List.dropWhile_eq_nil_iff.mp hdrop
    by_contra hne
    exact List.rdropWhile_last_not isWhitespace s hne (hall _ (List.getLast_mem hne))
  · intro h
    rw [h]
    rfl

theorem mem_contents {lines : List Text} {line : Text} (h : line ∈ contents lines) :
    trimEnd line = line ∧ line ≠ [] := by
  obtain ⟨hmem, hne⟩ := List.mem_filter.mp h
  obtain ⟨raw, -, rfl⟩ := List.mem_map.mp hmem
  exact ⟨trimEnd_trimEnd raw, by simpa using hne⟩

theorem contents_eq_self {lines : List Text} (h : ∀ line ∈ lines, trimEnd line = line ∧ line ≠ []) :
    contents lines = lines := by
  have hmap : lines.map trimEnd = lines :=
    (List.map_congr_left fun line hl => (h line hl).1).trans (List.map_id lines)
  rw [contents, hmap, List.filter_eq_self]
  intro line hl
  simpa using (h line hl).2

theorem contents_map_trimEnd (lines : List Text) : contents (lines.map trimEnd) = contents lines := by
  rw [contents, List.map_map]
  exact congrArg _ (List.map_congr_left fun line _ => trimEnd_trimEnd line)

theorem isInert_of_not_survives {line : Text} (h : survives line = false) :
    (Line.ofText line).isInert = true := by
  rw [survives, Bool.and_eq_false_iff] at h
  cases h with
  | inl hsequence =>
    obtain ⟨value, hvalue⟩ := Option.isSome_iff_exists.mp (by simpa using hsequence)
    rw [stripPrefix_eq_some.mp hvalue]
    rfl
  | inr hend =>
    obtain ⟨rest, hrest⟩ := startsWith_iff.mp (by simpa using hend)
    rw [← hrest]
    rfl

/-- Of the tags in the header only byte ranges say something of a segment. -/
theorem isInert_or_byteRange_of_header {line : Text} (h : isHeaderLine line = true) :
    (Line.ofText line).isInert = true ∨ (Line.ofText line).range.isSome = true := by
  obtain ⟨htag, hstays⟩ := Bool.and_eq_true_iff.mp h
  have hnot (pre : Text) (hpre : ∀ rest, staysWithSegment (pre ++ rest) = true) :
      stripPrefix line pre = none := by
    cases hs : stripPrefix line pre with
    | none => rfl
    | some rest =>
      rw [stripPrefix_eq_some.mp hs, hpre] at hstays
      cases hstays
  have hdiscontinuity : line ≠ "#EXT-X-DISCONTINUITY".toList := by
    rintro rfl
    exact absurd hstays (by decide)
  have hduration := hnot "#EXTINF:".toList fun _ => rfl
  have hkey := hnot "#EXT-X-KEY:".toList fun _ => rfl
  have hmap := hnot "#EXT-X-MAP:".toList fun _ => rfl
  have hsequence := hnot "#EXT-X-DISCONTINUITY-SEQUENCE:".toList fun _ => rfl
  simp only [Line.ofText, if_pos htag, Line.ofTag, if_neg hdiscontinuity, hduration, hkey, hmap,
    hsequence, byteRangeLine]
  repeat' split
  all_goals simp [Line.isInert, Line.range]

/-- A tag that stays with its segment is no byte range. -/
theorem range_of_stays {line : Text} (htag : startsWith line ['#'] = true)
    (h : isHeaderLine line = false) : (Line.ofText line).range = none := by
  have hstays : staysWithSegment line = true := by simpa [isHeaderLine, htag] using h
  have hrange : stripPrefix line "#EXT-X-BYTERANGE:".toList = none := by
    cases hs : stripPrefix line "#EXT-X-BYTERANGE:".toList with
    | none => rfl
    | some rest =>
      rw [stripPrefix_eq_some.mp hs] at hstays
      cases hstays
  simp only [Line.ofText, if_pos htag, Line.ofTag, hrange]
  repeat' split
  all_goals first | rfl | (cases decimalInteger _ <;> rfl)

end lines

section scan
variable {floats : Floats}

/-- The scan reads the lines that are not blank, without their trailing white space. -/
theorem foldl_step_contents (rewriteTag rewriteUri : Text → Text) (lines : List Text)
    (scan : MediaScan floats) :
    lines.foldl (MediaScan.step rewriteTag rewriteUri) scan =
      (contents lines).foldl (MediaScan.step rewriteTag rewriteUri) scan := by
  induction lines generalizing scan with
  | nil => rfl
  | cons line lines ih =>
    have hcontents : contents (line :: lines) =
        (trimEnd line :: lines.map trimEnd).filter fun line => !line.isEmpty := rfl
    rw [List.foldl_cons, ih, hcontents]
    cases hblank : (trimEnd line).isEmpty with
    | true =>
      rw [List.filter_cons_of_neg (by simp [hblank]), MediaScan.step]
      simp only [trim_trimEnd_isEmpty, hblank, ↓reduceIte]
      rfl
    | false =>
      rw [List.filter_cons_of_pos (by simp [hblank]), List.foldl_cons]
      congr 1
      simp only [MediaScan.step, trimEnd_trimEnd]

variable {scan : MediaScan floats} {line : Text}

theorem trim_isEmpty_of_content (hline : trimEnd line = line ∧ line ≠ []) :
    (trim line).isEmpty = false := by
  rw [← hline.1, trim_trimEnd_isEmpty, hline.1]
  exact List.isEmpty_eq_false_iff.mpr hline.2

theorem step_of_not_survives (hline : trimEnd line = line ∧ line ≠ []) (h : survives line = false) :
    ∃ sequence, scan.step id id line = { scan with originalMediaSequence := sequence } := by
  have hblank := trim_isEmpty_of_content hline
  simp only [MediaScan.step, hline.1, hblank, Bool.false_eq_true, ↓reduceIte]
  cases hsequence : sequenceTag line with
  | some value => exact ⟨_, rfl⟩
  | none =>
    have hend : startsWith line "#EXT-X-ENDLIST".toList = true := by
      simpa only [survives, hsequence, Option.isNone_none, Bool.true_and, Bool.not_eq_false'] using h
    exact ⟨scan.originalMediaSequence, by simp only [hend, ↓reduceIte]⟩

theorem step_of_uri (hline : trimEnd line = line ∧ line ≠ []) (h : survives line = true) (huri : isUriLine line = true) :
    scan.step id id line =
      { scan with
        sawSegment := true
        segmentBlocks := scan.segmentBlocks ++ [scan.pendingBlock ++ [line]]
        segmentDurations := scan.segmentDurations ++ [scan.pendingDuration]
        pendingBlock := []
        pendingDuration := floats.ofNat 0 } := by
  have hblank := trim_isEmpty_of_content hline
  obtain ⟨hsequence, hend⟩ := Bool.and_eq_true_iff.mp h
  rw [Option.isNone_iff_eq_none] at hsequence
  rw [Bool.not_eq_true'] at hend
  have htag : startsWith line ['#'] = false := by simpa [isUriLine] using huri
  simp only [MediaScan.step, hline.1, hblank, hsequence, hend, htag, Bool.false_eq_true,
    ↓reduceIte, id]

theorem step_of_tag (hline : trimEnd line = line ∧ line ≠ []) (h : survives line = true) (htag : isUriLine line = false) :
    ∃ duration, scan.step id id line =
      if goesToHeader scan.sawSegment line then
        { scan with header := scan.header ++ [line], pendingDuration := duration }
      else { scan with pendingBlock := scan.pendingBlock ++ [line], pendingDuration := duration } := by
  have hblank := trim_isEmpty_of_content hline
  obtain ⟨hsequence, hend⟩ := Bool.and_eq_true_iff.mp h
  rw [Option.isNone_iff_eq_none] at hsequence
  rw [Bool.not_eq_true'] at hend
  have htag : startsWith line ['#'] = true := by simpa [isUriLine] using htag
  refine ⟨(extinfDuration floats line).getD scan.pendingDuration, ?_⟩
  simp only [MediaScan.step, goesToHeader, isHeaderLine, hline.1, hblank, hsequence,
    hend, htag, Bool.false_eq_true, ↓reduceIte, id, Bool.true_and]

theorem step_sequence (hline : trimEnd line = line ∧ line ≠ []) :
    (scan.step id id line).originalMediaSequence =
      (sequenceTag line).elim scan.originalMediaSequence fun value =>
        (parseI64 (trim value)).getD 0 := by
  simp only [MediaScan.step, hline.1, trim_isEmpty_of_content hline, Bool.false_eq_true, ↓reduceIte]
  cases sequenceTag line with
  | some value => rfl
  | none =>
    dsimp only [Option.elim_none]
    repeat' split
    all_goals rfl

/-- The blocks a scan ends with are those of the lines it keeps, but for the header's. -/
theorem scan_blocks {lines : List Text} (hlines : ∀ line ∈ lines, trimEnd line = line ∧ line ≠ [])
    (scan : MediaScan floats) :
    match blocks isUriLine (lines.filter survives) with
    | [] => (lines.foldl (MediaScan.step id id) scan).segmentBlocks = scan.segmentBlocks ∧
        (scan.sawSegment = true → (lines.foldl (MediaScan.step id id) scan).header = scan.header)
    | block :: rest =>
      (lines.foldl (MediaScan.step id id) scan).segmentBlocks = scan.segmentBlocks ++
          (scan.pendingBlock ++ block.filter fun line => !goesToHeader scan.sawSegment line) ::
            rest ∧
        (lines.foldl (MediaScan.step id id) scan).header =
          scan.header ++ block.filter (goesToHeader scan.sawSegment) := by
  induction lines generalizing scan with
  | nil => exact ⟨rfl, fun _ => rfl⟩
  | cons line lines ih =>
    have hline := hlines line List.mem_cons_self
    have ih := ih fun l hl => hlines l (List.mem_cons_of_mem line hl)
    rw [List.foldl_cons]
    cases hsurvives : survives line with
    | false =>
      obtain ⟨sequence, hstep⟩ := @step_of_not_survives _ scan line hline hsurvives
      rw [List.filter_cons_of_neg (by simp [hsurvives]), hstep]
      exact ih _
    | true =>
      rw [List.filter_cons_of_pos hsurvives]
      cases huri : isUriLine line with
      | true =>
        have hheader : goesToHeader scan.sawSegment line = false := by
          have htag : startsWith line ['#'] = false := by simpa [isUriLine] using huri
          rw [goesToHeader, isHeaderLine, htag, Bool.false_and, Bool.and_false]
        have hafter : ∀ block : List Text, (block.filter (goesToHeader true) = []) ∧
            (block.filter fun line => !goesToHeader true line) = block := fun block =>
          ⟨List.filter_eq_nil_iff.mpr fun _ _ => Bool.false_ne_true, List.filter_eq_self.mpr fun _ _ => rfl⟩
        rw [blocks_cons_of_end huri, step_of_uri hline hsurvives huri]
        simp only [List.filter_cons_of_neg, hheader, Bool.not_false, List.filter_cons_of_pos,
          List.filter_nil, Bool.false_eq_true, not_false_eq_true, List.append_nil]
        have hrest := ih
          { scan with
            sawSegment := true
            segmentBlocks := scan.segmentBlocks ++ [scan.pendingBlock ++ [line]]
            segmentDurations := scan.segmentDurations ++ [scan.pendingDuration]
            pendingBlock := []
            pendingDuration := floats.ofNat 0 }
        cases hb : blocks isUriLine (lines.filter survives) with
        | nil =>
          rw [hb] at hrest
          exact ⟨hrest.1, hrest.2 rfl⟩
        | cons block rest =>
          rw [hb] at hrest
          obtain ⟨hblocks, hhead⟩ := hrest
          rw [(hafter block).2, List.nil_append, List.append_assoc, List.singleton_append] at hblocks
          rw [(hafter block).1, List.append_nil] at hhead
          exact ⟨hblocks, hhead⟩
      | false =>
        obtain ⟨duration, hstep⟩ := @step_of_tag _ scan line hline hsurvives huri
        rw [blocks_cons_of_not_end huri, hstep]
        cases hheader : goesToHeader scan.sawSegment line with
        | true =>
          have hrest := ih { scan with header := scan.header ++ [line], pendingDuration := duration }
          cases hb : blocks isUriLine (lines.filter survives) with
          | nil =>
            rw [hb] at hrest
            refine ⟨hrest.1, fun hsaw => ?_⟩
            rw [hsaw] at hheader
            cases hheader
          | cons block rest =>
            rw [hb] at hrest
            obtain ⟨hblocks, hhead⟩ := hrest
            rw [List.append_assoc, List.singleton_append] at hhead
            rw [List.modifyHead_cons]
            simp only [List.filter_cons, hheader, Bool.not_true, Bool.false_eq_true, ↓reduceIte]
            exact ⟨hblocks, hhead⟩
        | false =>
          have hrest := ih { scan with
            pendingBlock := scan.pendingBlock ++ [line], pendingDuration := duration }
          cases hb : blocks isUriLine (lines.filter survives) with
          | nil =>
            rw [hb] at hrest
            exact hrest
          | cons block rest =>
            rw [hb] at hrest
            obtain ⟨hblocks, hhead⟩ := hrest
            rw [List.append_assoc, List.singleton_append] at hblocks
            rw [List.modifyHead_cons]
            simp only [List.filter_cons, hheader, Bool.not_false, Bool.false_eq_true, ↓reduceIte]
            exact ⟨hblocks, hhead⟩

/-- The last sequence tag is the one that counts. -/
theorem scan_sequence {lines : List Text} (hlines : ∀ line ∈ lines, trimEnd line = line ∧ line ≠ [])
    (scan : MediaScan floats) :
    (lines.foldl (MediaScan.step id id) scan).originalMediaSequence =
      ((lines.filterMap sequenceTag).getLast?).elim
        scan.originalMediaSequence fun value => (parseI64 (trim value)).getD 0 := by
  induction lines generalizing scan with
  | nil => rfl
  | cons line lines ih =>
    have hline := hlines line List.mem_cons_self
    have ih := ih fun l hl => hlines l (List.mem_cons_of_mem line hl)
    rw [List.foldl_cons, ih, step_sequence hline]
    cases hsequence : sequenceTag line with
    | none => rw [List.filterMap_cons_none hsequence, Option.elim_none]
    | some value =>
      rw [List.filterMap_cons_some hsequence, List.getLast?_cons]
      cases (lines.filterMap sequenceTag).getLast? <;> rfl

end scan

/-- The blocks of a playlist's lines, a block to a segment. -/
def segmentLines (lines : List Text) : List (List Text) := blocks isUriLine (contents lines)

def droppedCount (lines : List Text) : Nat := (segmentLines lines).length - liveHlsEdgeSegmentCount

/-- A live playlist with segments: its window is cut. -/
def IsLiveWindow (lines : List Text) : Prop := isVodPlaylist lines = false ∧ segmentLines lines ≠ []

def readingAfter (blocks : List (List Text)) : Reading := run .initial (blocks.flatten.map Line.ofText)

/-- The byte range of the first segment, which goes into the header. -/
def headerRange (lines : List Text) : Option (Nat × Option Nat) :=
  ((((segmentLines lines).headD []).map Line.ofText).filterMap Line.range).getLast?

/-- The first kept segment needs nothing of the dropped ones: every key in force is declared
again, a map too if there is one, the discontinuities begin anew at zero or by number, and its
byte range is its own and has an offset unless none could be meant. -/
def StandsAlone (lines : List Text) : Prop :=
  ∀ front uri, (segmentLines lines)[droppedCount lines]? = some (front ++ [uri]) →
    Independent (readingAfter ((segmentLines lines).take (droppedCount lines))) (headerRange lines)
      (front.map Line.ofText) uri

/-- The value of the last sequence tag, zero without one or when it does not fit. -/
def originalSequence (lines : List Text) : Int :=
  (((contents lines).filterMap sequenceTag).getLast?).elim 0 fun value =>
    (parseI64 (trim value)).getD 0

/-- The scan before any URI is rewritten. -/
def sourceScan (floats : Floats) (lines : List Text) : MediaScan floats := scanMedia id id lines

/-- The lines of the output before their URIs are rewritten. -/
def sourceWindow (floats : Floats) (lines : List Text) : List Text :=
  if isVodPlaylist lines then lines.map trimEnd
  else if (sourceScan floats lines).segmentBlocks.isEmpty then lines
  else (sourceScan floats lines).window

/-- Every kept segment reads as before, they are the last ones in their order, and the sum
behind the first sequence number fits its register. -/
structure KeepsMeaning (floats : Floats) (lines : List Text) : Prop where
  suffix : ∀ input, read lines = some input →
    ∃ output, read (sourceWindow floats lines) = some output ∧ output <:+ input
  inRange : IsLiveWindow lines → (sourceScan floats lines).nextMediaSequence ≤ i64Max

section spec
variable {floats : Floats} {lines : List Text}

theorem isUri_eq_isUriLine (line : Text) : (Line.ofText line).isUri = isUriLine line := isUri_ofText line

theorem survives_of_uri {line : Text} (h : isUriLine line = true) : survives line = true := by
  rw [← Bool.not_eq_false]
  intro hnot
  have hinert := isInert_of_not_survives hnot
  rw [← isUri_eq_isUriLine] at h
  cases hline : Line.ofText line with
  | uri text => rw [hline] at hinert; cases hinert
  | _ => rw [hline] at h; cases h

/-- The scan's blocks and header in terms of the playlist's. -/
theorem sourceScan_blocks {block : List Text} {rest : List (List Text)}
    (h : segmentLines lines = block :: rest) :
    (sourceScan floats lines).segmentBlocks =
        ((block.filter survives).filter fun line => !isHeaderLine line) ::
          rest.map (List.filter survives) ∧
      (sourceScan floats lines).header = (block.filter survives).filter isHeaderLine := by
  have hscan := scan_blocks (fun line (hline : line ∈ contents lines) => mem_contents hline)
    (MediaScan.empty floats)
  rw [blocks_filter fun line => survives_of_uri, ← segmentLines, h] at hscan
  rw [sourceScan, scanMedia, foldl_step_contents]
  exact hscan

theorem sourceScan_blocks_nil (h : segmentLines lines = []) :
    (sourceScan floats lines).segmentBlocks = [] := by
  have hscan := scan_blocks (fun line (hline : line ∈ contents lines) => mem_contents hline)
    (MediaScan.empty floats)
  rw [blocks_filter fun line => survives_of_uri, ← segmentLines, h] at hscan
  rw [sourceScan, scanMedia, foldl_step_contents]
  exact hscan.1

theorem length_sourceScan_blocks :
    (sourceScan floats lines).segmentBlocks.length = (segmentLines lines).length := by
  cases h : segmentLines lines with
  | nil => rw [sourceScan_blocks_nil h]
  | cons block rest => rw [(sourceScan_blocks h).1, List.length_cons, List.length_map, List.length_cons]

theorem droppedSegments_sourceScan : (sourceScan floats lines).droppedSegments = droppedCount lines := by
  rw [MediaScan.droppedSegments, length_sourceScan_blocks, droppedCount]

/-- The segments of a playlist are those of its blocks. -/
theorem segments_contents (r : Reading) :
    segments r ((contents lines).map Line.ofText) =
      segments r ((segmentLines lines).flatten.map Line.ofText) := by
  obtain ⟨tail, hlines, htail⟩ := blocks_append_tail isUriLine (contents lines)
  have htags : ∀ line ∈ tail.map Line.ofText, line.isUri = false := by
    intro line hline
    obtain ⟨text, htext, rfl⟩ := List.mem_map.mp hline
    rw [isUri_eq_isUriLine, htail text htext]
  have hmap : (contents lines).map Line.ofText =
      (segmentLines lines).flatten.map Line.ofText ++ tail.map Line.ofText := by
    rw [segmentLines, ← List.map_append, ← hlines]
  rw [hmap, segments_append, segments_of_tags htags, List.append_nil]

/-- The tags that end up in the header leave the byte range they end with. -/
theorem run_header {block : List Text} {rest : List (List Text)} (h : segmentLines lines = block :: rest) :
    run .initial (((block.filter survives).filter isHeaderLine).map Line.ofText) =
      { Reading.initial with byteRange := headerRange lines } := by
  have hinert : ∀ line ∈ ((block.filter survives).filter isHeaderLine).map Line.ofText,
      line.isInert = true ∨ line.range.isSome = true := by
    intro line hline
    obtain ⟨text, htext, rfl⟩ := List.mem_map.mp hline
    exact isInert_or_byteRange_of_header (List.mem_filter.mp htext).2
  have hrange : (((block.filter survives).filter isHeaderLine).map Line.ofText).filterMap Line.range =
      (block.map Line.ofText).filterMap Line.range := by
    simp only [List.filterMap_map, List.filterMap_filter]
    refine List.filterMap_congr fun text _ => ?_
    cases hsurvives : survives text with
    | false =>
      have hline := isInert_of_not_survives hsurvives
      have hnone : (Line.ofText text).range = none := by
        cases ht : Line.ofText text with
        | byteRange length offset => rw [ht] at hline; cases hline
        | _ => rfl
      rw [if_neg Bool.false_ne_true, Function.comp_apply, hnone]
    | true =>
      rw [if_pos rfl]
      cases hheader : isHeaderLine text with
      | true => rw [if_pos rfl]
      | false =>
        have hnone : (Line.ofText text).range = none := by
          cases htag : startsWith text ['#'] with
          | true => exact range_of_stays htag hheader
          | false => rw [Line.ofText, htag]; rfl
        rw [if_neg Bool.false_ne_true, Function.comp_apply, hnone]
  rw [run_of_ranges hinert, hrange, Reading.initial, Option.or_none, headerRange, h, List.headD_cons]

theorem ofText_of_uri {line : Text} (h : isUriLine line = true) : Line.ofText line = .uri line :=
  if_neg (by simpa [isUriLine] using h)

/-- A block is a URI after its tags. -/
theorem eq_of_mem_segmentLines {block : List Text} (h : block ∈ segmentLines lines) :
    ∃ front uri, block = front ++ [uri] ∧ isUriLine uri = true ∧
      ∀ line ∈ front.map Line.ofText, line.isUri = false := by
  obtain ⟨front, uri, hblock, huri, hfront⟩ := eq_of_mem_blocks isUriLine h
  refine ⟨front, uri, hblock, huri, fun line hline => ?_⟩
  obtain ⟨text, htext, rfl⟩ := List.mem_map.mp hline
  rw [isUri_eq_isUriLine, hfront text htext]

/-- After whole blocks nothing is pending. -/
theorem readingAfter_blocks {bs : List (List Text)} (hne : bs ≠ [])
    (h : ∀ block ∈ bs, block ∈ segmentLines lines) :
    (readingAfter bs).duration = none ∧ (readingAfter bs).byteRange = none := by
  obtain ⟨front, uri, hlast, huri, -⟩ := eq_of_mem_segmentLines (h _ (List.getLast_mem hne))
  have hbs : bs.flatten = (bs.dropLast.flatten ++ front) ++ [uri] := by
    rw [← List.dropLast_append_getLast hne, List.flatten_append, hlast]
    simp
  rw [readingAfter, hbs, List.map_append, run_append, List.map_singleton, ofText_of_uri huri]
  exact ⟨rfl, rfl⟩

/-- A window that drops some blocks reads what is left from the header on. -/
theorem segments_kept {bs : List (List Text)} (r : Reading) :
    segments r ((bs.map (List.filter survives)).flatten.map Line.ofText) =
      segments r (bs.flatten.map Line.ofText) := by
  rw [← List.filter_flatten]
  exact (read_filter (fun line _ => isInert_of_not_survives) r).1

/-- A window that drops nothing reads as the playlist does. -/
theorem segments_whole {block : List Text} {rest : List (List Text)}
    (h : segmentLines lines = block :: rest) :
    segments (run .initial (((block.filter survives).filter isHeaderLine).map Line.ofText))
        (((((block.filter survives).filter fun line => !isHeaderLine line) ::
          rest.map (List.filter survives)).flatten).map Line.ofText) =
      segments .initial ((segmentLines lines).flatten.map Line.ofText) := by
  obtain ⟨front, uri, hblock, huri, hfront⟩ :=
    eq_of_mem_segmentLines (h ▸ List.mem_cons_self : block ∈ segmentLines lines)
  have hsurvives := survives_of_uri huri
  have hnoHeader : isHeaderLine uri = false := by
    have htag : startsWith uri ['#'] = false := by simpa [isUriLine] using huri
    rw [isHeaderLine, htag, Bool.false_and]
  have hheader : (block.filter survives).filter isHeaderLine =
      (front.filter survives).filter isHeaderLine := by
    rw [hblock, List.filter_append, List.filter_append, List.filter_cons_of_pos hsurvives,
      List.filter_nil, List.filter_cons_of_neg (by simp [hnoHeader]), List.filter_nil, List.append_nil]
  have hrest : ((block.filter survives).filter fun line => !isHeaderLine line) =
      ((front.filter survives).filter fun line => !isHeaderLine line) ++ [uri] := by
    rw [hblock, List.filter_append, List.filter_append, List.filter_cons_of_pos hsurvives,
      List.filter_nil, List.filter_cons_of_pos (by simp [hnoHeader]), List.filter_nil]
  have htags : ∀ line ∈ ((front.filter survives).filter fun line => !isHeaderLine line).map Line.ofText,
      line.isUri = false := by
    intro line hline
    obtain ⟨text, htext, rfl⟩ := List.mem_map.mp hline
    exact hfront _ (List.mem_map_of_mem (List.mem_filter.mp (List.mem_filter.mp htext).1).1)
  -- of the first block's tags the header's come first, and only byte ranges among them matter
  have hrun : run .initial (((front.filter survives).filter isHeaderLine ++
      (front.filter survives).filter fun line => !isHeaderLine line).map Line.ofText) =
        run .initial (front.map Line.ofText) := by
    rw [run_partition, (read_filter fun line _ => isInert_of_not_survives) .initial |>.2]
    intro a _ ha b hb hnb r
    have htag : startsWith b ['#'] = true := by
      have hnot := hfront _ (List.mem_map_of_mem (List.mem_filter.mp hb).1)
      rw [isUri_eq_isUriLine] at hnot
      simpa [isUriLine] using hnot
    have hrangeb := range_of_stays htag hnb
    cases isInert_or_byteRange_of_header ha with
    | inl hinert => rw [step_of_isInert hinert, step_of_isInert hinert]
    | inr hrangea =>
      cases hla : Line.ofText a with
      | byteRange length offset =>
        cases hlb : Line.ofText b with
        | uri text =>
          have hnot := hfront _ (List.mem_map_of_mem (List.mem_filter.mp hb).1)
          rw [hlb] at hnot
          cases hnot
        | byteRange length offset => rw [hlb] at hrangeb; cases hrangeb
        | _ => rfl
      | _ => rw [hla] at hrangea; cases hrangea
  have hlist : (((front.filter survives).filter fun line => !isHeaderLine line) ++ [uri]) ++
      (rest.map (List.filter survives)).flatten =
        ((front.filter survives).filter fun line => !isHeaderLine line) ++
          (([uri] :: rest).map (List.filter survives)).flatten := by
    rw [List.append_assoc, List.map_cons, List.flatten_cons, List.filter_cons_of_pos hsurvives,
      List.filter_nil]
  have hinput : (segmentLines lines).flatten = front ++ ([uri] :: rest).flatten := by
    rw [h, hblock, List.flatten_cons, List.flatten_cons, List.append_assoc]
  rw [hheader, hrest, List.flatten_cons, hlist, hinput, List.map_append, List.map_append,
    segments_append, segments_append, segments_of_tags htags, segments_of_tags hfront, List.nil_append,
    List.nil_append, ← run_append, ← List.map_append, hrun, segments_kept]

theorem sourceScan_sequence : (sourceScan floats lines).originalMediaSequence = originalSequence lines := by
  rw [sourceScan, scanMedia, foldl_step_contents]
  exact scan_sequence (fun line (hline : line ∈ contents lines) => mem_contents hline)
    (MediaScan.empty floats)

theorem mediaSequence_contents :
    mediaSequence ((contents lines).map Line.ofText) =
      (((contents lines).filterMap sequenceTag).getLast?).elim (some 0) fun value =>
        decimalInteger (trim value) := by
  have htexts : ((contents lines).map Line.ofText).filterMap Line.sequenceText =
      (contents lines).filterMap sequenceTag := by
    rw [List.filterMap_map]
    exact List.filterMap_congr fun line _ => sequenceText_ofText line
  rw [mediaSequence, htexts]

/-- A sequence number of the format is the scan's unless it is too large for it. -/
theorem originalSequence_eq {n : Nat} (h : mediaSequence ((contents lines).map Line.ofText) = some n) :
    originalSequence lines = if (n : Int) ≤ i64Max then (n : Int) else 0 := by
  rw [mediaSequence_contents] at h
  rw [originalSequence]
  cases hlast : ((contents lines).filterMap sequenceTag).getLast? with
  | none =>
    rw [hlast] at h
    obtain rfl := Option.some.inj h
    rfl
  | some value =>
    rw [hlast] at h
    obtain ⟨hdigits, -⟩ := Option.filter_eq_some_iff.mp h
    rw [Option.elim_some, parseI64_of_parseDigits hdigits]
    split <;> rfl

theorem trimEnd_append {s t : Text} (hne : t ≠ []) (h : ∀ c ∈ t, isWhitespace c = false) :
    trimEnd (s ++ t) = s ++ t := by
  have hlast : t = t.dropLast ++ [t.getLast hne] := (List.dropLast_append_getLast hne).symm
  rw [hlast, ← List.append_assoc]
  exact List.rdropWhile_concat_neg _ _ _ (by simp [h _ (List.getLast_mem hne)])

/-- The line a window starts to number its segments with. -/
def sequenceLine (n : Int) : Text := "#EXT-X-MEDIA-SEQUENCE:".toList ++ decimalText n

theorem mem_block_of_scan {block : List Text} {rest : List (List Text)}
    (h : segmentLines lines = block :: rest) {line : Text}
    (hline : line ∈ (sourceScan floats lines).header ∨
      line ∈ (sourceScan floats lines).segmentBlocks.flatten) :
    line ∈ contents lines ∧ survives line = true := by
  have hmem {block : List Text} (hb : block ∈ segmentLines lines) {line : Text} (hl : line ∈ block) :
      line ∈ contents lines := mem_of_mem_blocks isUriLine hb hl
  obtain ⟨hblocks, hheader⟩ := @sourceScan_blocks floats lines block rest h
  rw [hblocks, hheader, List.flatten_cons, List.mem_append, ← List.filter_flatten] at hline
  have hfirst : block ∈ segmentLines lines := h ▸ List.mem_cons_self
  rcases hline with hl | hl | hl
  · obtain ⟨hb, hs⟩ := List.mem_filter.mp (List.mem_filter.mp hl).1
    exact ⟨hmem hfirst hb, hs⟩
  · obtain ⟨hb, hs⟩ := List.mem_filter.mp (List.mem_filter.mp hl).1
    exact ⟨hmem hfirst hb, hs⟩
  · obtain ⟨hb, hs⟩ := List.mem_filter.mp hl
    obtain ⟨other, hother, hb⟩ := List.mem_flatten.mp hb
    exact ⟨hmem (h ▸ List.mem_cons_of_mem block hother) hb, hs⟩

theorem decimalText_ne_nil (n : Int) : decimalText n ≠ [] := by
  intro hnil
  rw [decimalText, Int.toString_eq_repr, Int.repr_eq_if] at hnil
  split at hnil
  · rw [Nat.toList_repr] at hnil
    exact Nat.toDigits_ne_nil hnil
  · rw [String.toList_append] at hnil
    cases (List.append_eq_nil_iff.mp hnil).1

theorem sequenceLine_content (n : Int) :
    trimEnd (sequenceLine n) = sequenceLine n ∧ sequenceLine n ≠ [] :=
  ⟨trimEnd_append (decimalText_ne_nil n) fun _ hc => not_isWhitespace_of_mem_decimalText hc,
    List.append_ne_nil_of_right_ne_nil _ (decimalText_ne_nil n)⟩

theorem sequenceTag_sequenceLine (n : Int) : sequenceTag (sequenceLine n) = some (decimalText n) :=
  stripPrefix_eq_some.mpr (by unfold sequenceLine; with_reducible rfl)

theorem sequenceLine_inert (n : Int) : (Line.ofText (sequenceLine n)).isInert = true := by
  have hline : (Line.ofText (sequenceLine n)).sequenceText = some (decimalText n) := by
    rw [sequenceText_ofText]
    exact sequenceTag_sequenceLine n
  cases hl : Line.ofText (sequenceLine n) with
  | mediaSequence text => rfl
  | _ => rw [hl] at hline; cases hline

/-- The front lines a window has besides the header. -/
def MediaScan.openingLine (scan : MediaScan floats) : List Text :=
  if scan.header.contains "#EXTM3U".toList then [] else ["#EXTM3U".toList]

theorem window_eq (scan : MediaScan floats) :
    scan.window = (scan.openingLine ++ scan.header ++ scan.startTag scan.droppedSegments ++
      [sequenceLine (wrapI64 scan.nextMediaSequence)]) ++
        (scan.segmentBlocks.drop scan.droppedSegments).flatten := by
  unfold MediaScan.window MediaScan.openingLine sequenceLine
  split <;> rfl

theorem openingLine_inert (scan : MediaScan floats) : ∀ line ∈ scan.openingLine,
    (trimEnd line = line ∧ line ≠ []) ∧ (Line.ofText line).isInert = true ∧ sequenceTag line = none := by
  intro line hline
  unfold MediaScan.openingLine at hline
  split at hline
  · cases hline
  · obtain rfl := List.mem_singleton.mp hline
    decide

theorem startTag_inert (scan : MediaScan floats) (dropped : Nat) : ∀ line ∈ scan.startTag dropped,
    (trimEnd line = line ∧ line ≠ []) ∧ (Line.ofText line).isInert = true ∧ sequenceTag line = none := by
  intro line hline
  unfold MediaScan.startTag at hline
  dsimp only at hline
  split at hline
  · obtain rfl := List.mem_singleton.mp hline
    have hwhite : ∀ c ∈ ",PRECISE=NO".toList, isWhitespace c = false := by simp [isWhitespace]
    exact ⟨⟨trimEnd_append (List.cons_ne_nil _ _) hwhite, by simp⟩, rfl, rfl⟩
  · cases hline

theorem isUri_of_isInert {line : Line} (h : line.isInert = true) : line.isUri = false := by
  cases line with
  | uri text => cases h
  | _ => rfl

/-- What a window of a live playlist reads as. -/
theorem read_window {block : List Text} {rest : List (List Text)}
    (h : segmentLines lines = block :: rest) :
    read (sourceScan floats lines).window =
      (decimalInteger (trim (decimalText (wrapI64 (sourceScan floats lines).nextMediaSequence)))).map
        fun m => (segments (run .initial ((sourceScan floats lines).header.map Line.ofText))
          ((((sourceScan floats lines).segmentBlocks.drop (droppedCount lines)).flatten).map
            Line.ofText)).zipIdx m := by
  have hscan := fun line => @mem_block_of_scan floats lines block rest h line
  have hheaderTags : ∀ line ∈ (sourceScan floats lines).header, (Line.ofText line).isUri = false := by
    intro line hline
    rw [(@sourceScan_blocks floats lines block rest h).2] at hline
    have htag := (Bool.and_eq_true_iff.mp (List.mem_filter.mp hline).2).1
    rw [isUri_eq_isUriLine, isUriLine, htag]
    rfl
  have hdropped := @droppedSegments_sourceScan floats lines
  generalize sourceScan floats lines = scan at hscan hheaderTags hdropped ⊢
  have hopening := openingLine_inert scan
  have hstart := startTag_inert scan scan.droppedSegments
  have hkept : ∀ line ∈ (scan.segmentBlocks.drop scan.droppedSegments).flatten,
      line ∈ contents lines ∧ survives line = true := by
    intro line hline
    obtain ⟨b, hb, hl⟩ := List.mem_flatten.mp hline
    exact hscan line (Or.inr (List.mem_flatten.mpr ⟨b, List.mem_of_mem_drop hb, hl⟩))
  have hsequenceInert : (Line.ofText (sequenceLine (wrapI64 scan.nextMediaSequence))).isInert = true :=
    sequenceLine_inert _
  have hsurvives : ∀ line, survives line = true → sequenceTag line = none := fun line hs =>
    Option.isNone_iff_eq_none.mp (Bool.and_eq_true_iff.mp hs).1
  have hcontents : contents scan.window = scan.window := by
    refine contents_eq_self fun line hline => ?_
    rw [window_eq] at hline
    simp only [List.mem_append, List.mem_singleton] at hline
    rcases hline with (((hl | hl) | hl) | rfl) | hl
    · exact (hopening line hl).1
    · exact mem_contents (hscan line (Or.inl hl)).1
    · exact (hstart line hl).1
    · exact sequenceLine_content (wrapI64 scan.nextMediaSequence)
    · exact mem_contents (hkept line hl).1
  have hnumbers : scan.window.filterMap sequenceTag =
      [decimalText (wrapI64 scan.nextMediaSequence)] := by
    have hnone {l : List Text} (hl : ∀ line ∈ l, sequenceTag line = none) :
        l.filterMap sequenceTag = [] := List.filterMap_eq_nil_iff.mpr hl
    have hone : sequenceTag (sequenceLine (wrapI64 scan.nextMediaSequence)) =
        some (decimalText (wrapI64 scan.nextMediaSequence)) := sequenceTag_sequenceLine _
    rw [window_eq, List.filterMap_append, List.filterMap_append, List.filterMap_append,
      List.filterMap_append, hnone fun line hl => (hopening line hl).2.2,
      hnone fun line hl => hsurvives line (hscan line (Or.inl hl)).2,
      hnone fun line hl => (hstart line hl).2.2,
      hnone fun line hl => hsurvives line (hkept line hl).2, List.filterMap_cons_some hone]
    rfl
  have hfront : ∀ line ∈ (scan.openingLine ++ scan.header ++ scan.startTag scan.droppedSegments ++
      [sequenceLine (wrapI64 scan.nextMediaSequence)]).map Line.ofText, line.isUri = false := by
    intro line hline
    obtain ⟨text, htext, rfl⟩ := List.mem_map.mp hline
    simp only [List.mem_append, List.mem_singleton] at htext
    rcases htext with ((ht | ht) | ht) | rfl
    · exact isUri_of_isInert (hopening text ht).2.1
    · exact hheaderTags text ht
    · exact isUri_of_isInert (hstart text ht).2.1
    · exact isUri_of_isInert hsequenceInert
  have hrun : run .initial ((scan.openingLine ++ scan.header ++ scan.startTag scan.droppedSegments ++
      [sequenceLine (wrapI64 scan.nextMediaSequence)]).map Line.ofText) =
        run .initial (scan.header.map Line.ofText) := by
    have hinert {l : List Text} (hl : ∀ line ∈ l, (Line.ofText line).isInert = true) (r : Reading) :
        run r (l.map Line.ofText) = r := by
      refine run_of_isInert (fun line hline => ?_) r
      obtain ⟨text, htext, rfl⟩ := List.mem_map.mp hline
      exact hl text htext
    rw [List.map_append, List.map_append, List.map_append, run_append, run_append, run_append,
      hinert fun line hl => (hopening line hl).2.1, hinert fun line hl => (hstart line hl).2.1,
      hinert fun line hl => by rw [List.mem_singleton.mp hl]; exact hsequenceInert]
  have hmedia := @mediaSequence_contents scan.window
  rw [hcontents, hnumbers] at hmedia
  have hsegments : segments .initial (scan.window.map Line.ofText) =
      segments (run .initial (scan.header.map Line.ofText))
        ((scan.segmentBlocks.drop (droppedCount lines)).flatten.map Line.ofText) := by
    rw [window_eq, List.map_append, segments_append, segments_of_tags hfront, List.nil_append, hrun,
      hdropped]
  rw [MediaPlaylist.read, hcontents, hmedia, hsegments]
  rfl

end spec

section rewritten
variable {floats : Floats} {libs : Libraries}

/-- The scan with every line of the playlist it copied written anew. -/
def MediaScan.mapLines (f : Text → Text) (scan : MediaScan floats) : MediaScan floats :=
  { scan with
    header := scan.header.map f
    pendingBlock := scan.pendingBlock.map f
    segmentBlocks := scan.segmentBlocks.map (List.map f) }

/-- A line that goes into a live window with its URIs rewritten. -/
def Rewrite.liveLine (rewrite : Rewrite libs) (line : Text) : Text :=
  if startsWith line ['#'] then rewrite.tag rewrite.liveUrl line else rewrite.uri rewrite.liveUrl line

theorem step_mapLines (rewrite : Rewrite libs) (scan : MediaScan floats) (line : Text) :
    (scan.mapLines rewrite.liveLine).step (rewrite.tag rewrite.liveUrl) (rewrite.uri rewrite.liveUrl)
      line = (scan.step id id line).mapLines rewrite.liveLine := by
  unfold MediaScan.step
  dsimp only
  split
  · rfl
  · split
    · rfl
    · split
      · rfl
      · split
        · next htag =>
          have hline : rewrite.liveLine (trimEnd line) = rewrite.tag rewrite.liveUrl (trimEnd line) :=
            if_pos htag
          have hsaw : (scan.mapLines rewrite.liveLine).sawSegment = scan.sawSegment := rfl
          rw [hsaw]
          split
          · simp only [MediaScan.mapLines, List.map_append, List.map_singleton, id, hline]
          · simp only [MediaScan.mapLines, List.map_append, List.map_singleton, id, hline]
        · next htag =>
          have hline : rewrite.liveLine (trimEnd line) = rewrite.uri rewrite.liveUrl (trimEnd line) :=
            if_neg htag
          simp only [MediaScan.mapLines, List.map_append, List.map_singleton, List.map_nil, id, hline]

theorem scanMedia_mapLines (rewrite : Rewrite libs) (lines : List Text) :
    (scanMedia (rewrite.tag rewrite.liveUrl) (rewrite.uri rewrite.liveUrl) lines : MediaScan floats) =
      (sourceScan floats lines).mapLines rewrite.liveLine := by
  have hfold (scan : MediaScan floats) :
      lines.foldl (MediaScan.step (rewrite.tag rewrite.liveUrl) (rewrite.uri rewrite.liveUrl))
        (scan.mapLines rewrite.liveLine) =
          (lines.foldl (MediaScan.step id id) scan).mapLines rewrite.liveLine := by
    induction lines generalizing scan with
    | nil => rfl
    | cons line lines ih => rw [List.foldl_cons, List.foldl_cons, step_mapLines, ih]
  exact hfold (MediaScan.empty floats)

/-- A rewritten tag is the opening line only if it was. -/
theorem tag_eq_opening {rewrite : Rewrite libs} {proxyUrlBuilder : Text → Option Text → Text}
    {line : Text} : rewrite.tag proxyUrlBuilder line = "#EXTM3U".toList ↔ line = "#EXTM3U".toList := by
  constructor
  · intro h
    unfold Rewrite.tag rewriteHlsUriAttribute at h
    split at h
    · exact h
    · split at h
      · exact h
      · split at h
        · exact h
        · have hquote : '"' ∈ "#EXTM3U".toList := by
            rw [← h]
            simp
          exact absurd hquote (by decide)
  · rintro rfl
    rfl

/-- An output line is its source line or that with its URIs rewritten. -/
def RewrittenFrom (rewrite : Rewrite libs) (source out : Text) : Prop :=
  out = source ∨ out = rewrite.liveLine source ∨ out = rewrite.vodLine source

theorem forall₂_window (rewrite : Rewrite libs) {scan : MediaScan floats}
    (h : ∀ line ∈ scan.header, startsWith line ['#'] = true) :
    List.Forall₂ (RewrittenFrom rewrite) scan.window (scan.mapLines rewrite.liveLine).window := by
  have hopening : (scan.mapLines rewrite.liveLine).openingLine = scan.openingLine := by
    have hcontains : ((scan.mapLines rewrite.liveLine).header.contains "#EXTM3U".toList) =
        (scan.header.contains "#EXTM3U".toList) := by
      rw [Bool.eq_iff_iff, List.contains_iff_mem, List.contains_iff_mem, MediaScan.mapLines,
        List.mem_map]
      constructor
      · rintro ⟨line, hline, heq⟩
        rw [Rewrite.liveLine, if_pos (h line hline), tag_eq_opening] at heq
        rwa [← heq]
      · intro hmem
        exact ⟨_, hmem, by rw [Rewrite.liveLine, if_pos (h _ hmem), tag_eq_opening]⟩
    rw [MediaScan.openingLine, MediaScan.openingLine, hcontains]
  have hdropped : (scan.mapLines rewrite.liveLine).droppedSegments = scan.droppedSegments := by
    rw [MediaScan.droppedSegments, MediaScan.droppedSegments, MediaScan.mapLines, List.length_map]
  have hstart : (scan.mapLines rewrite.liveLine).startTag scan.droppedSegments =
      scan.startTag scan.droppedSegments := rfl
  have hnext : (scan.mapLines rewrite.liveLine).nextMediaSequence = scan.nextMediaSequence := by
    rw [MediaScan.nextMediaSequence, MediaScan.nextMediaSequence, hdropped]
    rfl
  have hsame (l : List Text) : List.Forall₂ (RewrittenFrom rewrite) l l :=
    List.forall₂_same.mpr fun line _ => Or.inl rfl
  have hmapped (l : List Text) : List.Forall₂ (RewrittenFrom rewrite) l (l.map rewrite.liveLine) :=
    List.forall₂_map_right_iff.mpr (List.forall₂_same.mpr fun line _ => Or.inr (Or.inl rfl))
  have hblocks : ((scan.mapLines rewrite.liveLine).segmentBlocks.drop scan.droppedSegments).flatten =
      ((scan.segmentBlocks.drop scan.droppedSegments).flatten).map rewrite.liveLine := by
    rw [MediaScan.mapLines, ← List.map_drop, List.map_flatten]
  rw [window_eq, window_eq, hopening, hdropped, hstart, hnext, hblocks]
  exact List.rel_append (List.rel_append (List.rel_append (List.rel_append (hsame _) (hmapped _))
    (hsame _)) (hsame _)) (hmapped _)

/-- The output is the window of the playlist's own lines, with their URIs rewritten. -/
theorem rewriteLiveHlsMediaPlaylist_window (rewrite : Rewrite libs) (lines : List Text) :
    ∃ output, rewriteLiveHlsMediaPlaylist floats rewrite lines = join '\n' output ∧
      List.Forall₂ (RewrittenFrom rewrite) (sourceWindow floats lines) output := by
  have hsame (l : List Text) : List.Forall₂ (RewrittenFrom rewrite) l l :=
    List.forall₂_same.mpr fun line _ => Or.inl rfl
  unfold rewriteLiveHlsMediaPlaylist sourceWindow
  dsimp only
  rw [scanMedia_mapLines]
  split
  · refine ⟨_, rfl, ?_⟩
    rw [List.forall₂_map_left_iff, List.forall₂_map_right_iff]
    refine List.forall₂_same.mpr fun line _ => Or.inr (Or.inr ?_)
    simp only [Rewrite.vodLine, trimEnd_trimEnd]
  · have hempty : ((sourceScan floats lines).mapLines rewrite.liveLine).segmentBlocks.isEmpty =
        (sourceScan floats lines).segmentBlocks.isEmpty := by
      rw [MediaScan.mapLines]
      cases (sourceScan floats lines).segmentBlocks <;> rfl
    rw [hempty]
    split
    · exact ⟨_, rfl, hsame _⟩
    · next hne =>
      refine ⟨_, rfl, forall₂_window rewrite fun line hline => ?_⟩
      cases hb : segmentLines lines with
      | nil => exact absurd (sourceScan_blocks_nil hb) (by simpa using hne)
      | cons block rest =>
        rw [(@sourceScan_blocks floats lines block rest hb).2] at hline
        exact (Bool.and_eq_true_iff.mp (List.mem_filter.mp hline).2).1

end rewritten

section main
variable {floats : Floats} {lines : List Text}

theorem isLiveWindow_window (h : IsLiveWindow lines) :
    sourceWindow floats lines = (sourceScan floats lines).window := by
  have hlen := @length_sourceScan_blocks floats lines
  have hne : (sourceScan floats lines).segmentBlocks.isEmpty = false := by
    rw [List.isEmpty_eq_false_iff, ← List.length_pos_iff, hlen, List.length_pos_iff]
    exact h.2
  rw [sourceWindow, h.1, if_neg Bool.false_ne_true, hne, if_neg Bool.false_ne_true]

/-- Outside a live window every line reads as before. -/
theorem read_window_of_not_live (h : ¬IsLiveWindow lines) :
    read (sourceWindow floats lines) = read lines := by
  have hread : read (lines.map trimEnd) = read lines := by
    rw [MediaPlaylist.read, MediaPlaylist.read, contents_map_trimEnd]
  rw [sourceWindow]
  split
  · exact hread
  · next hvod =>
    have hnil : segmentLines lines = [] := by
      by_contra hne
      exact h ⟨by simpa using hvod, hne⟩
    rw [sourceScan_blocks_nil hnil]
    rfl

theorem length_segments_blocks {bs : List (List Text)} (h : ∀ block ∈ bs, block ∈ segmentLines lines)
    (r : Reading) : (segments r (bs.flatten.map Line.ofText)).length = bs.length := by
  induction bs generalizing r with
  | nil => rfl
  | cons block bs ih =>
    obtain ⟨front, uri, hblock, huri, hfront⟩ := eq_of_mem_segmentLines (h block List.mem_cons_self)
    rw [List.flatten_cons, hblock, List.append_assoc, List.map_append, List.singleton_append,
      List.map_cons, ofText_of_uri huri, segments_block hfront, List.length_cons, List.length_cons,
      ih fun b hb => h b (List.mem_cons_of_mem block hb)]

theorem droppedCount_lt (h : segmentLines lines ≠ []) :
    droppedCount lines < (segmentLines lines).length := by
  have hpos := List.length_pos_iff.mpr h
  simp only [droppedCount, liveHlsEdgeSegmentCount]
  omega

/-- Which segments a window keeps, and when they read as the playlist's own. -/
theorem window_segments {block : List Text} {rest : List (List Text)}
    (h : segmentLines lines = block :: rest) :
    let output := segments (run .initial ((sourceScan floats lines).header.map Line.ofText))
      ((((sourceScan floats lines).segmentBlocks.drop (droppedCount lines)).flatten).map Line.ofText)
    let kept := (segmentLines lines).drop (droppedCount lines)
    output.length = kept.length ∧
      (output = segments (readingAfter ((segmentLines lines).take (droppedCount lines)))
        (kept.flatten.map Line.ofText) ↔ (droppedCount lines ≠ 0 → StandsAlone lines)) := by
  dsimp only
  obtain ⟨hblocks, hheader⟩ := @sourceScan_blocks floats lines block rest h
  rw [hblocks, hheader]
  cases hd : droppedCount lines with
  | zero =>
    rw [List.drop_zero, List.drop_zero, List.take_zero, segments_whole h]
    refine ⟨length_segments_blocks (fun b hb => hb) _, ?_⟩
    exact iff_of_true rfl fun hne => absurd rfl hne
  | succ d =>
    have hkept : (segmentLines lines).drop (d + 1) = rest.drop d := by rw [h, List.drop_succ_cons]
    have hlt : d + 1 < (segmentLines lines).length := by
      have hlt := droppedCount_lt (h ▸ List.cons_ne_nil block rest : segmentLines lines ≠ [])
      rwa [hd] at hlt
    have hmem : ∀ b ∈ (segmentLines lines).drop (d + 1), b ∈ segmentLines lines := fun b hb =>
      List.mem_of_mem_drop hb
    rw [List.drop_succ_cons, ← List.map_drop, segments_kept, ← hkept]
    refine ⟨length_segments_blocks hmem _, ?_⟩
    have hget : (segmentLines lines)[d + 1]? = some (segmentLines lines)[d + 1] :=
      List.getElem?_eq_getElem hlt
    obtain ⟨front, uri, hblock, huri, hfront⟩ :=
      eq_of_mem_segmentLines (List.getElem_mem hlt : (segmentLines lines)[d + 1] ∈ segmentLines lines)
    have htake : (segmentLines lines).take (d + 1) ≠ [] := by
      rw [h, List.take_succ_cons]
      exact List.cons_ne_nil _ _
    obtain ⟨hduration, hrange⟩ := readingAfter_blocks htake fun b hb => List.mem_of_mem_take hb
    rw [List.drop_eq_getElem_cons hlt, List.flatten_cons, hblock, List.append_assoc, List.map_append,
      List.singleton_append, List.map_cons, ofText_of_uri huri, segments_block_eq_iff hfront,
      run_header h, segment_eq_iff hfront hduration hrange]
    rw [hblock] at hget
    constructor
    · rintro hind - front' uri' hget'
      rw [hd, hget, Option.some.injEq] at hget'
      obtain ⟨rfl, huri'⟩ := List.append_inj' hget' rfl
      obtain rfl := List.singleton_inj.mp huri'
      rw [hd]
      exact hind
    · intro halone
      have hind := halone (Nat.succ_ne_zero d) front uri (by rw [hd]; exact hget)
      rwa [hd] at hind

theorem keepsMeaning_iff :
    KeepsMeaning floats lines ↔ (IsLiveWindow lines →
      originalSequence lines + droppedCount lines ≤ i64Max ∧
        ∀ n, mediaSequence ((contents lines).map Line.ofText) = some n → (n : Int) ≤ i64Max ∧
          (droppedCount lines ≠ 0 → StandsAlone lines)) := by
  by_cases hlive : IsLiveWindow lines
  · obtain ⟨block, rest, hblocks⟩ := List.exists_cons_of_ne_nil hlive.2
    have hnext : (sourceScan floats lines).nextMediaSequence =
        originalSequence lines + droppedCount lines := by
      rw [MediaScan.nextMediaSequence, sourceScan_sequence, droppedSegments_sourceScan]
    have hwindow := @isLiveWindow_window floats lines hlive
    have hread := @read_window floats lines block rest hblocks
    obtain ⟨hlen, hkeeps⟩ := @window_segments floats lines block rest hblocks
    have hinput : ∀ n, mediaSequence ((contents lines).map Line.ofText) = some n →
        read lines = some ((segments .initial (((segmentLines lines).take
          (droppedCount lines)).flatten.map Line.ofText) ++
            segments (readingAfter ((segmentLines lines).take (droppedCount lines)))
              (((segmentLines lines).drop (droppedCount lines)).flatten.map Line.ofText)).zipIdx n) := by
      intro n hn
      rw [MediaPlaylist.read]
      simp only [hn, Option.map_some, segments_contents, readingAfter, ← segments_append,
        ← List.map_append, ← List.flatten_append, List.take_append_drop]
    have hdropped : (segments .initial (((segmentLines lines).take
        (droppedCount lines)).flatten.map Line.ofText)).length = droppedCount lines := by
      rw [length_segments_blocks fun b hb => List.mem_of_mem_take hb, List.length_take]
      exact min_eq_left (droppedCount_lt hlive.2).le
    have hlenTail : (segments (readingAfter ((segmentLines lines).take (droppedCount lines)))
        (((segmentLines lines).drop (droppedCount lines)).flatten.map Line.ofText)).length =
          ((segmentLines lines).drop (droppedCount lines)).length :=
      length_segments_blocks (fun b hb => List.mem_of_mem_drop hb) _
    have hpos : 0 < ((segmentLines lines).drop (droppedCount lines)).length := by
      have hlt := droppedCount_lt hlive.2
      rw [List.length_drop]
      omega
    have hnonneg : ∀ n, mediaSequence ((contents lines).map Line.ofText) = some n →
        0 ≤ originalSequence lines := by
      intro n hn
      rw [originalSequence_eq hn]
      split <;> omega
    rw [hnext, decimalInteger_decimalText] at hread
    generalize segments (run .initial ((sourceScan floats lines).header.map Line.ofText))
      ((((sourceScan floats lines).segmentBlocks.drop (droppedCount lines)).flatten).map Line.ofText) =
        output at hread hlen hkeeps
    generalize segments (readingAfter ((segmentLines lines).take (droppedCount lines)))
      (((segmentLines lines).drop (droppedCount lines)).flatten.map Line.ofText) = tail
        at hkeeps hinput hlenTail
    generalize segments .initial (((segmentLines lines).take (droppedCount lines)).flatten.map
      Line.ofText) = front at hinput hdropped
    have hsame : output.length = tail.length := hlen.trans hlenTail.symm
    have hne : output ≠ [] := by
      rw [← List.length_pos_iff, hlen]
      exact hpos
    have hsuffix {m n : Nat} : output.zipIdx m <:+ (front ++ tail).zipIdx n ↔
        m = n + droppedCount lines ∧ output = tail := by
      rw [zipIdx_suffix_iff hsame hne, hdropped]
    have hfits {n : Nat} (hn : mediaSequence ((contents lines).map Line.ofText) = some n)
        (hsum : originalSequence lines + droppedCount lines ≤ i64Max) :
        read (sourceWindow floats lines) =
          some (output.zipIdx (originalSequence lines + droppedCount lines).toNat) := by
      have h0 := hnonneg n hn
      have hwrap := @wrapI64_eq_self (originalSequence lines + droppedCount lines)
        ⟨by simp only [i64Min]; omega, hsum⟩
      have hrange : 0 ≤ originalSequence lines + droppedCount lines ∧
          originalSequence lines + droppedCount lines < 2 ^ 64 := by
        simp only [i64Max] at hsum
        omega
      rw [hwindow, hread, hwrap, if_pos hrange, Option.map_some]
    constructor
    · intro hkeepsMeaning _
      have hsum := hkeepsMeaning.inRange hlive
      rw [hnext] at hsum
      refine ⟨hsum, fun n hn => ?_⟩
      obtain ⟨out, hout, hsuff⟩ := hkeepsMeaning.suffix _ (hinput n hn)
      rw [hfits hn hsum, Option.some.injEq] at hout
      rw [← hout, hsuffix] at hsuff
      obtain ⟨hnumber, hsegments⟩ := hsuff
      have horiginal := originalSequence_eq hn
      have h0 := hnonneg n hn
      refine ⟨?_, hkeeps.mp hsegments⟩
      by_contra hlarge
      rw [if_neg hlarge] at horiginal
      simp only [i64Max] at hlarge
      omega
    · intro hcondition
      obtain ⟨hsum, hall⟩ := hcondition hlive
      refine ⟨fun input hin => ?_, fun _ => by rw [hnext]; exact hsum⟩
      obtain ⟨n, hn, -⟩ := Option.map_eq_some_iff.mp (hin : (mediaSequence _).map _ = some input)
      obtain ⟨hsmall, halone⟩ := hall n hn
      have horiginal := originalSequence_eq hn
      rw [if_pos hsmall] at horiginal
      rw [hinput n hn, Option.some.injEq] at hin
      refine ⟨_, hfits hn hsum, ?_⟩
      rw [← hin, hsuffix]
      exact ⟨by omega, hkeeps.mpr halone⟩
  · exact iff_of_true ⟨fun input hinput => ⟨input, by rw [read_window_of_not_live hlive, hinput],
      List.suffix_refl input⟩, fun h => absurd h hlive⟩ fun h => absurd h hlive

end main

/-- An encrypted window of nine segments under one key. -/
def encryptedWindow : List Text :=
  "#EXTM3U".toList :: "#EXT-X-KEY:METHOD=AES-128,URI=\"key.bin\"".toList ::
    (["1.ts", "2.ts", "3.ts", "4.ts", "5.ts", "6.ts", "7.ts", "8.ts", "9.ts"].flatMap fun uri =>
      ["#EXTINF:6.0,".toList, uri.toList])

/-- Doubles as far as whole numbers of seconds go. -/
def wholeSeconds : Floats where
  Value := Nat
  parse text := parseDigits (text.takeWhile Char.isDigit)
  ofNat n := n
  sum values := values.sum
  half n := n / 2
  min a b := Nat.min a b
  ge a b := decide (b ≤ a)
  fixed3 n := decimalText n ++ ".000".toList

end StreamArena.LiveHls
