import StreamArena.Library.Decimal

/-! What a media playlist says of each of its segments: a tag holds for the segments after
it, and a byte range without an offset goes on where the one before it ended. -/
namespace MediaPlaylist
open AsciiText Decimal

inductive Line where
  | uri (text : Text)
  | key (format text : Text)
  | map (text : Text)
  | discontinuity
  | discontinuitySequence (n : Nat)
  | duration (text : Text)
  | byteRange (length : Nat) (offset : Option Nat)
  | mediaSequence (text : Text)
  | other
  deriving DecidableEq

/-- A decimal integer of the format, below two to the 64. -/
def decimalInteger (text : Text) : Option Nat :=
  (parseDigits text).filter fun n => decide (n < 2 ^ 64)

/-- The parts of an attribute list: separators between quotes are text. -/
def splitUnquoted (sep : Char) : Bool → Text → List Text
  | _, [] => [[]]
  | quoted, c :: s =>
    if c == sep && !quoted then [] :: splitUnquoted sep false s
    else (splitUnquoted sep (quoted != (c == '"')) s).modifyHead (List.cons c)

/-- The format of a key, which is the identity unless the tag names another. -/
def keyFormat (attributes : Text) : Text :=
  ((splitUnquoted ',' false attributes).findSome? fun part =>
    stripPrefix (trim part) "KEYFORMAT=".toList).getD "\"identity\"".toList

def byteRangeLine (value : Text) : Line :=
  match splitOnce ['@'] value with
  | some (length, offset) =>
    match decimalInteger length, decimalInteger offset with
    | some length, some offset => .byteRange length (some offset)
    | _, _ => .other
  | none =>
    match decimalInteger value with
    | some length => .byteRange length none
    | none => .other

def Line.ofTag (line : Text) : Line :=
  if line = "#EXT-X-DISCONTINUITY".toList then .discontinuity
  else
    match stripPrefix line "#EXTINF:".toList with
    | some value => .duration (trim (value.takeWhile (· != ',')))
    | none =>
    match stripPrefix line "#EXT-X-KEY:".toList with
    | some attributes => .key (keyFormat attributes) line
    | none =>
    match stripPrefix line "#EXT-X-MAP:".toList with
    | some _ => .map line
    | none =>
    match stripPrefix line "#EXT-X-BYTERANGE:".toList with
    | some value => byteRangeLine value
    | none =>
    match stripPrefix line "#EXT-X-DISCONTINUITY-SEQUENCE:".toList with
    | some value => ((decimalInteger value).map .discontinuitySequence).getD .other
    | none =>
    match stripPrefix line "#EXT-X-MEDIA-SEQUENCE:".toList with
    | some value => .mediaSequence value
    | none => .other

def Line.ofText (line : Text) : Line :=
  if startsWith line ['#'] then .ofTag line else .uri line

/-- The lines of a playlist, without trailing white space and blank lines. -/
def contents (lines : List Text) : List Text := (lines.map trimEnd).filter fun line => !line.isEmpty

/-- What the tags up to a place say; `previous` is the resource of the last byte range and
where it ended. -/
structure Reading where
  keys : List (Text × Text)
  map : Option Text
  discontinuity : Nat
  duration : Option Text
  byteRange : Option (Nat × Option Nat)
  previous : Option (Text × Nat)
  deriving DecidableEq

structure Segment where
  uri : Text
  keys : List (Text × Text)
  map : Option Text
  discontinuity : Nat
  duration : Option Text
  byteRange : Option (Nat × Option Nat)
  deriving DecidableEq

def Reading.initial : Reading := ⟨[], none, 0, none, none, none⟩

/-- Where a byte range without an offset starts. -/
def Reading.resumeAt (r : Reading) (uri : Text) : Option Nat :=
  r.previous.bind fun previous => if previous.1 = uri then some previous.2 else none

def Reading.segment (r : Reading) (uri : Text) : Segment :=
  ⟨uri, r.keys, r.map, r.discontinuity, r.duration,
    r.byteRange.map fun range => (range.1, range.2.or (r.resumeAt uri))⟩

/-- What holds after a segment follows from what holds for it. -/
def Segment.after (s : Segment) : Reading :=
  ⟨s.keys, s.map, s.discontinuity, none, none,
    s.byteRange.bind fun range => range.2.map fun offset => (s.uri, offset + range.1)⟩

def Reading.step (r : Reading) : Line → Reading
  | .uri text => (r.segment text).after
  | .key format text => { r with keys := r.keys.filter (·.1 != format) ++ [(format, text)] }
  | .map text => { r with map := some text }
  | .discontinuity => { r with discontinuity := r.discontinuity + 1 }
  | .discontinuitySequence n => { r with discontinuity := n }
  | .duration text => { r with duration := some text }
  | .byteRange length offset => { r with byteRange := some (length, offset) }
  | .mediaSequence _ => r
  | .other => r

def run (r : Reading) (lines : List Line) : Reading := lines.foldl Reading.step r

def segments : Reading → List Line → List Segment
  | _, [] => []
  | r, .uri text :: lines => r.segment text :: segments (r.step (.uri text)) lines
  | r, line :: lines => segments (r.step line) lines

def Line.sequenceText : Line → Option Text
  | .mediaSequence text => some text
  | _ => none

/-- The sequence number of the first segment. -/
def mediaSequence (lines : List Line) : Option Nat :=
  ((lines.filterMap Line.sequenceText).getLast?).elim (some 0) fun text => decimalInteger (trim text)

/-- The segments of a playlist with their sequence numbers. -/
def read (lines : List Text) : Option (List (Segment × Nat)) :=
  let lines := (contents lines).map Line.ofText
  (mediaSequence lines).map fun n => (segments .initial lines).zipIdx n

def Line.isUri : Line → Bool
  | .uri _ => true
  | _ => false

/-- The lines that say nothing of any segment. -/
def Line.isInert : Line → Bool
  | .mediaSequence _ => true
  | .other => true
  | _ => false

theorem isUri_ofText (line : Text) : (Line.ofText line).isUri = !startsWith line ['#'] := by
  unfold Line.ofText
  split
  · next htag =>
    rw [htag]
    unfold Line.ofTag byteRangeLine
    repeat' split
    all_goals first | rfl | (cases decimalInteger _ <;> rfl)
  · next huri => simpa [Line.isUri] using huri

theorem sequenceText_ofText (line : Text) :
    (Line.ofText line).sequenceText = stripPrefix line "#EXT-X-MEDIA-SEQUENCE:".toList := by
  cases hsequence : stripPrefix line "#EXT-X-MEDIA-SEQUENCE:".toList with
  | some value =>
    rw [stripPrefix_eq_some.mp hsequence]
    rfl
  | none =>
    unfold Line.ofText
    split
    · unfold Line.ofTag byteRangeLine
      simp only [hsequence]
      repeat' split
      all_goals first | rfl | (cases decimalInteger _ <;> rfl)
    · rfl

theorem step_of_isInert {line : Line} (h : line.isInert = true) (r : Reading) : r.step line = r := by
  cases line with
  | mediaSequence text => rfl
  | other => rfl
  | _ => cases h

theorem segments_cons_of_not_isUri {line : Line} (h : line.isUri = false) (r : Reading)
    (lines : List Line) : segments r (line :: lines) = segments (r.step line) lines := by
  cases line with
  | uri text => cases h
  | _ => rfl

theorem segments_append (r : Reading) (lines rest : List Line) :
    segments r (lines ++ rest) = segments r lines ++ segments (run r lines) rest := by
  induction lines generalizing r with
  | nil => rfl
  | cons line lines ih =>
    cases hl : line.isUri with
    | true =>
      cases line with
      | uri text => exact congrArg (List.cons (r.segment text)) (ih _)
      | _ => cases hl
    | false =>
      rw [List.cons_append, segments_cons_of_not_isUri hl, segments_cons_of_not_isUri hl, ih]
      rfl

theorem run_append (r : Reading) (lines rest : List Line) :
    run r (lines ++ rest) = run (run r lines) rest := List.foldl_append

/-- Tags are no segments. -/
theorem segments_of_tags {lines : List Line} (h : ∀ line ∈ lines, line.isUri = false) (r : Reading) :
    segments r lines = [] := by
  induction lines generalizing r with
  | nil => rfl
  | cons line lines ih =>
    rw [segments_cons_of_not_isUri (h line List.mem_cons_self)]
    exact ih (fun l hl => h l (List.mem_cons_of_mem line hl)) _

theorem run_of_isInert {lines : List Line} (h : ∀ line ∈ lines, line.isInert = true) (r : Reading) :
    run r lines = r := by
  induction lines with
  | nil => rfl
  | cons line lines ih =>
    rw [run, List.foldl_cons, step_of_isInert (h line List.mem_cons_self)]
    exact ih fun l hl => h l (List.mem_cons_of_mem line hl)

/-- Leaving out lines that say nothing changes no reading. -/
theorem read_filter {α : Type*} {f : α → Line} {p : α → Bool} {l : List α}
    (h : ∀ a ∈ l, p a = false → (f a).isInert = true) (r : Reading) :
    segments r ((l.filter p).map f) = segments r (l.map f) ∧
      run r ((l.filter p).map f) = run r (l.map f) := by
  induction l generalizing r with
  | nil => exact ⟨rfl, rfl⟩
  | cons a l ih =>
    have hrest := fun b hb => h b (List.mem_cons_of_mem a hb)
    cases hp : p a with
    | true =>
      obtain ⟨hsegments, hrun⟩ := ih hrest (r.step (f a))
      rw [List.filter_cons_of_pos hp, List.map_cons, List.map_cons]
      refine ⟨?_, hrun⟩
      cases hl : (f a).isUri with
      | true =>
        cases hf : f a with
        | uri text =>
          rw [hf] at hsegments
          exact congrArg (List.cons (r.segment text)) hsegments
        | _ => rw [hf] at hl; cases hl
      | false => rw [segments_cons_of_not_isUri hl, segments_cons_of_not_isUri hl, hsegments]
    | false =>
      have hinert := h a List.mem_cons_self hp
      have huri : (f a).isUri = false := by
        cases hf : f a with
        | uri text => rw [hf] at hinert; cases hinert
        | _ => rfl
      rw [List.filter_cons_of_neg (by simp [hp]), List.map_cons, segments_cons_of_not_isUri huri, run,
        run, List.foldl_cons, step_of_isInert hinert]
      exact ih hrest r

/-- Lines that commute with the others may be read before them. -/
theorem run_partition {α : Type*} {f : α → Line} {p : α → Bool} {l : List α}
    (h : ∀ a ∈ l, p a = true → ∀ b ∈ l, p b = false → ∀ r : Reading,
      (r.step (f b)).step (f a) = (r.step (f a)).step (f b)) (r : Reading) :
    run r ((l.filter p ++ l.filter fun a => !p a).map f) = run r (l.map f) := by
  induction l generalizing r with
  | nil => rfl
  | cons c l ih =>
    have hrest := ih fun a ha hpa b hb hpb => h a (List.mem_cons_of_mem c ha) hpa b
      (List.mem_cons_of_mem c hb) hpb
    cases hp : p c with
    | true =>
      rw [List.filter_cons_of_pos hp, List.filter_cons_of_neg (by simp [hp])]
      exact hrest (r.step (f c))
    | false =>
      have hfront : ∀ front : List α, (∀ a ∈ front, a ∈ l ∧ p a = true) → ∀ r : Reading,
          (run r (front.map f)).step (f c) = run (r.step (f c)) (front.map f) := by
        intro front hfront
        induction front with
        | nil => exact fun r => rfl
        | cons a front ihf =>
          intro r
          obtain ⟨hmem, hpa⟩ := hfront a List.mem_cons_self
          calc (run r ((a :: front).map f)).step (f c)
              = run ((r.step (f a)).step (f c)) (front.map f) :=
                ihf (fun b hb => hfront b (List.mem_cons_of_mem a hb)) (r.step (f a))
            _ = run ((r.step (f c)).step (f a)) (front.map f) := by
                rw [h a (List.mem_cons_of_mem c hmem) hpa c List.mem_cons_self hp r]
      rw [List.filter_cons_of_neg (by simp [hp]), List.filter_cons_of_pos (by simp [hp]),
        List.map_append, run_append]
      have hmove := hfront (l.filter p) (fun a ha => List.mem_filter.mp ha) r
      calc run (run r ((l.filter p).map f)) ((c :: l.filter fun a => !p a).map f)
          = run ((run r ((l.filter p).map f)).step (f c)) ((l.filter fun a => !p a).map f) := rfl
        _ = run (r.step (f c)) (l.map f) := by
            rw [hmove, ← run_append, ← List.map_append, hrest]

/-- A block of tags and a URI is one segment, and what follows is read after it. -/
theorem segments_block {tags : List Line} (h : ∀ line ∈ tags, line.isUri = false) (r : Reading)
    (uri : Text) (rest : List Line) :
    segments r (tags ++ .uri uri :: rest) =
      (run r tags).segment uri :: segments ((run r tags).segment uri).after rest := by
  rw [segments_append, segments_of_tags h, List.nil_append]
  rfl

/-- Two readings of one block and what follows agree when they agree on its segment. -/
theorem segments_block_eq_iff {tags : List Line} (h : ∀ line ∈ tags, line.isUri = false)
    (r r' : Reading) (uri : Text) (rest : List Line) :
    segments r (tags ++ .uri uri :: rest) = segments r' (tags ++ .uri uri :: rest) ↔
      (run r tags).segment uri = (run r' tags).segment uri := by
  rw [segments_block h, segments_block h]
  constructor
  · intro heq
    exact (List.cons_eq_cons.mp heq).1
  · intro heq
    rw [heq]

def Line.format : Line → Option Text
  | .key format _ => some format
  | _ => none

def Line.mapText : Line → Option Text
  | .map text => some text
  | _ => none

def Line.durationText : Line → Option Text
  | .duration text => some text
  | _ => none

def Line.range : Line → Option (Nat × Option Nat)
  | .byteRange length offset => some (length, offset)
  | _ => none

def Line.isDiscontinuitySequence : Line → Bool
  | .discontinuitySequence _ => true
  | _ => false

/-- A field that tags set is as the last of them says, or as it was. -/
theorem run_field {β : Type*} (field : Reading → Option β) (set : Line → Option β)
    {lines : List Line} (h : ∀ line ∈ lines, ∀ r : Reading, field (r.step line) = (set line).or (field r))
    (r : Reading) : field (run r lines) = ((lines.filterMap set).getLast?).or (field r) := by
  induction lines generalizing r with
  | nil => rfl
  | cons line lines ih =>
    have hline := h line List.mem_cons_self r
    have hrest : field (run r (line :: lines)) =
        ((lines.filterMap set).getLast?).or (field (r.step line)) :=
      ih (fun l hl => h l (List.mem_cons_of_mem line hl)) (r.step line)
    rw [hrest, hline]
    cases hset : set line with
    | none => rw [List.filterMap_cons_none hset, Option.none_or]
    | some value =>
      rw [List.filterMap_cons_some hset, List.getLast?_cons, Option.some_or, Option.some_or]
      cases (lines.filterMap set).getLast? <;> rfl

theorem run_map (lines : List Line) (r : Reading) :
    (run r lines).map = ((lines.filterMap Line.mapText).getLast?).or r.map :=
  run_field Reading.map Line.mapText (fun line _ r => by cases line <;> rfl) r

/-- Within a block every field but the keys and the discontinuities is set by tags only. -/
theorem run_tags {tags : List Line} (h : ∀ line ∈ tags, line.isUri = false) (r : Reading) :
    (run r tags).duration = ((tags.filterMap Line.durationText).getLast?).or r.duration ∧
      (run r tags).byteRange = ((tags.filterMap Line.range).getLast?).or r.byteRange ∧
      (run r tags).previous = r.previous := by
  refine ⟨run_field _ _ (fun line hline r => ?_) r, run_field _ _ (fun line hline r => ?_) r, ?_⟩
  · have huri := h line hline
    cases line with
    | uri text => cases huri
    | _ => rfl
  · have huri := h line hline
    cases line with
    | uri text => cases huri
    | _ => rfl
  · have hfield := run_field Reading.previous (fun _ => none) (fun line hline r => by
      have huri := h line hline
      cases line with
      | uri text => cases huri
      | _ => rfl) r
    rwa [List.filterMap_none] at hfield

/-- Keys of other formats than the declared ones stay in force. -/
theorem run_keys (lines : List Line) (r : Reading) :
    (run r lines).keys = r.keys.filter (fun key => !(lines.filterMap Line.format).contains key.1) ++
      (run .initial lines).keys := by
  induction lines generalizing r with
  | nil => simp [run, Reading.initial]
  | cons line lines ih =>
    have hrun (r : Reading) : run r (line :: lines) = run (r.step line) lines := rfl
    rw [hrun, hrun, ih, ih (Reading.initial.step line)]
    cases line with
    | key format text =>
      have hformat : (Line.key format text).format = some format := rfl
      simp only [Reading.step, Reading.initial, List.filter_append, List.filter_nil, List.nil_append,
        List.filter_filter, List.filterMap_cons_some hformat, ← List.append_assoc]
      congr 2
      refine List.filter_congr fun key _ => ?_
      rw [List.contains_cons, Bool.not_or, Bool.and_comm]
      rfl
    | _ => simp [Reading.step, Reading.initial, Line.format, Reading.segment, Segment.after]

theorem run_discontinuity (lines : List Line) (r : Reading) :
    (run r lines).discontinuity =
      (if lines.any Line.isDiscontinuitySequence then 0 else r.discontinuity) +
        (run .initial lines).discontinuity := by
  induction lines generalizing r with
  | nil => simp [run, Reading.initial]
  | cons line lines ih =>
    have hrun (r : Reading) : run r (line :: lines) = run (r.step line) lines := rfl
    rw [hrun, hrun, ih, ih (Reading.initial.step line)]
    cases line with
    | discontinuity =>
      simp only [Reading.step, Reading.initial, Line.isDiscontinuitySequence, List.any_cons,
        Bool.false_or]
      split <;> omega
    | discontinuitySequence n =>
      simp [Reading.step, Reading.initial, Line.isDiscontinuitySequence]
    | _ =>
      simp [Reading.step, Reading.initial, Line.isDiscontinuitySequence, Reading.segment,
        Segment.after]

/-- The first segment of `tags` needs nothing of what `r` knows, and nothing is left over
for it from the lines before. -/
structure Independent (r : Reading) (left : Option (Nat × Option Nat)) (tags : List Line)
    (uri : Text) : Prop where
  keys : ∀ key ∈ r.keys, key.1 ∈ tags.filterMap Line.format
  map : r.map = none ∨ tags.filterMap Line.mapText ≠ []
  discontinuity : r.discontinuity = 0 ∨ tags.any Line.isDiscontinuitySequence = true
  byteRange : match (tags.filterMap Line.range).getLast? with
    | none => left = none
    | some (_, none) => r.resumeAt uri = none
    | some (_, some _) => True

theorem keys_eq_iff (tags : List Line) {fresh r : Reading} (h : fresh.keys = []) :
    (run fresh tags).keys = (run r tags).keys ↔ ∀ key ∈ r.keys, key.1 ∈ tags.filterMap Line.format := by
  rw [run_keys tags fresh, run_keys tags r, h, List.filter_nil, List.nil_append,
    List.self_eq_append_left, List.filter_eq_nil_iff]
  simp only [Bool.not_eq_true', Bool.not_eq_false, List.contains_iff_mem]

theorem map_eq_iff (tags : List Line) {fresh r : Reading} (h : fresh.map = none) :
    (run fresh tags).map = (run r tags).map ↔ r.map = none ∨ tags.filterMap Line.mapText ≠ [] := by
  rw [run_map, run_map, h]
  cases hlast : (tags.filterMap Line.mapText).getLast? with
  | none => simp [List.getLast?_eq_none_iff.mp hlast, eq_comm]
  | some text =>
    have hne : tags.filterMap Line.mapText ≠ [] := by
      rintro hnil
      rw [hnil] at hlast
      cases hlast
    simp [hne]

theorem discontinuity_eq_iff (tags : List Line) {fresh r : Reading} (h : fresh.discontinuity = 0) :
    (run fresh tags).discontinuity = (run r tags).discontinuity ↔
      r.discontinuity = 0 ∨ tags.any Line.isDiscontinuitySequence = true := by
  rw [run_discontinuity tags fresh, run_discontinuity tags r, h]
  cases tags.any Line.isDiscontinuitySequence with
  | true => simp
  | false =>
    simp only [Bool.false_eq_true, ↓reduceIte, or_false]
    omega

/-- Exactly an independent segment is read without what came before it. -/
theorem segment_eq_iff {r : Reading} {tags : List Line} (h : ∀ line ∈ tags, line.isUri = false)
    (hduration : r.duration = none) (hrange : r.byteRange = none) (left : Option (Nat × Option Nat))
    (uri : Text) :
    (run { Reading.initial with byteRange := left } tags).segment uri = (run r tags).segment uri ↔
      Independent r left tags uri := by
  obtain ⟨hfreshDuration, hfreshRange, hfreshPrevious⟩ :=
    run_tags h { Reading.initial with byteRange := left }
  obtain ⟨hrunDuration, hrunRange, hrunPrevious⟩ := run_tags h r
  have hkeys := @keys_eq_iff tags { Reading.initial with byteRange := left } r rfl
  have hmap := @map_eq_iff tags { Reading.initial with byteRange := left } r rfl
  have hdiscontinuity := @discontinuity_eq_iff tags { Reading.initial with byteRange := left } r rfl
  generalize run { Reading.initial with byteRange := left } tags = fresh at *
  have hsame : fresh.duration = (run r tags).duration := by
    rw [hfreshDuration, hrunDuration, hduration]
    rfl
  have hresume : (run r tags).resumeAt uri = r.resumeAt uri := by
    rw [Reading.resumeAt, hrunPrevious, Reading.resumeAt]
  have hnone : fresh.resumeAt uri = none := by
    rw [Reading.resumeAt, hfreshPrevious]
    rfl
  have hbyteRange : (fresh.segment uri).byteRange = ((run r tags).segment uri).byteRange ↔
      match (tags.filterMap Line.range).getLast? with
      | none => left = none
      | some (_, none) => r.resumeAt uri = none
      | some (_, some _) => True := by
    simp only [Reading.segment, hfreshRange, hrunRange, hresume, hnone, hrange, Option.or_none]
    cases (tags.filterMap Line.range).getLast? with
    | none => simp
    | some range =>
      obtain ⟨length, offset⟩ := range
      cases offset with
      | none => simp [eq_comm]
      | some offset => simp
  constructor
  · intro heq
    exact ⟨hkeys.mp (congrArg Segment.keys heq), hmap.mp (congrArg Segment.map heq),
      hdiscontinuity.mp (congrArg Segment.discontinuity heq),
      hbyteRange.mp (congrArg Segment.byteRange heq)⟩
  · intro hind
    have hk := hkeys.mpr hind.keys
    have hm := hmap.mpr hind.map
    have hd := hdiscontinuity.mpr hind.discontinuity
    have hb := hbyteRange.mpr hind.byteRange
    simp only [Reading.segment] at hb ⊢
    rw [Segment.mk.injEq]
    exact ⟨rfl, hk, hm, hd, hsame, hb⟩

/-- Lines of which only byte ranges say something leave the last of them. -/
theorem run_of_ranges {lines : List Line} (h : ∀ line ∈ lines, line.isInert = true ∨
    line.range.isSome = true) (r : Reading) :
    run r lines = { r with byteRange := ((lines.filterMap Line.range).getLast?).or r.byteRange } := by
  induction lines generalizing r with
  | nil => rfl
  | cons line lines ih =>
    have hrest := ih fun l hl => h l (List.mem_cons_of_mem line hl)
    have hrun : run r (line :: lines) = run (r.step line) lines := rfl
    rw [hrun, hrest]
    cases line with
    | byteRange length offset =>
      have hrange : (Line.byteRange length offset).range = some (length, offset) := rfl
      rw [List.filterMap_cons_some hrange, List.getLast?_cons]
      cases (lines.filterMap Line.range).getLast? <;> rfl
    | mediaSequence text => rfl
    | other => rfl
    | _ => cases h _ List.mem_cons_self with
      | inl hinert => cases hinert
      | inr hrange => cases hrange

theorem decimalInteger_decimalText (n : Int) :
    decimalInteger (trim (decimalText n)) =
      if 0 ≤ n ∧ n < 2 ^ 64 then some n.toNat else none := by
  rw [trim_eq_self fun _ hc => not_isWhitespace_of_mem_decimalText hc, decimalInteger]
  by_cases hn : 0 ≤ n
  · obtain ⟨m, rfl⟩ := Int.eq_ofNat_of_zero_le hn
    rw [decimalText_natCast, parseDigits_toDigits, Option.filter_some, Int.toNat_natCast]
    by_cases hm : m < 2 ^ 64
    · rw [if_pos (decide_eq_true hm), if_pos ⟨hn, by omega⟩]
    · rw [if_neg (by simpa using hm), if_neg (by omega)]
  · have hminus : decimalText n = '-' :: (n.natAbs.repr).toList := by
      rw [decimalText, Int.toString_eq_repr, Int.repr_eq_if, if_neg hn, String.toList_append]
      have habs : (-n).toNat = n.natAbs := by omega
      rw [habs]
      rfl
    have hnone : parseDigits ('-' :: (n.natAbs.repr).toList) = none := by
      rw [parseDigits, if_neg]
      simp
    rw [hminus, hnone, if_neg (by omega)]
    rfl

section blocks
variable {α : Type*} (isEnd : α → Bool)

/-- The blocks of a list, each up to an end; what follows the last end is left out. -/
def blocks : List α → List (List α)
  | [] => []
  | a :: l => if isEnd a then [a] :: blocks l else (blocks l).modifyHead (List.cons a)

theorem blocks_cons_of_end {isEnd : α → Bool} {a : α} (h : isEnd a = true) (l : List α) :
    blocks isEnd (a :: l) = [a] :: blocks isEnd l := if_pos h

theorem blocks_cons_of_not_end {isEnd : α → Bool} {a : α} (h : isEnd a = false) (l : List α) :
    blocks isEnd (a :: l) = (blocks isEnd l).modifyHead (List.cons a) := if_neg (by simp [h])

theorem blocks_append_tail (l : List α) :
    ∃ tail, l = (blocks isEnd l).flatten ++ tail ∧ ∀ a ∈ tail, isEnd a = false := by
  induction l with
  | nil => exact ⟨[], rfl, fun a ha => absurd ha List.not_mem_nil⟩
  | cons a l ih =>
    obtain ⟨tail, hl, htail⟩ := ih
    cases ha : isEnd a with
    | true =>
      refine ⟨tail, ?_, htail⟩
      rw [blocks_cons_of_end ha, List.flatten_cons, List.singleton_append, List.cons_append, ← hl]
    | false =>
      rw [blocks_cons_of_not_end ha]
      cases hb : blocks isEnd l with
      | nil =>
        rw [hb] at hl
        refine ⟨a :: tail, by rw [hl]; rfl, fun b hb => ?_⟩
        cases List.mem_cons.mp hb with
        | inl heq => rw [heq, ha]
        | inr hmem => exact htail b hmem
      | cons b bs =>
        rw [hb] at hl
        exact ⟨tail, by rw [hl]; rfl, htail⟩

/-- A block is its end after elements that are none. -/
theorem eq_of_mem_blocks {l b : List α} (h : b ∈ blocks isEnd l) :
    ∃ front last, b = front ++ [last] ∧ isEnd last = true ∧ ∀ a ∈ front, isEnd a = false := by
  induction l generalizing b with
  | nil => exact absurd h List.not_mem_nil
  | cons a l ih =>
    cases ha : isEnd a with
    | true =>
      rw [blocks_cons_of_end ha, List.mem_cons] at h
      cases h with
      | inl heq => exact ⟨[], a, heq, ha, fun c hc => absurd hc List.not_mem_nil⟩
      | inr hmem => exact ih hmem
    | false =>
      rw [blocks_cons_of_not_end ha] at h
      cases hb : blocks isEnd l with
      | nil =>
        rw [hb] at h
        exact absurd h List.not_mem_nil
      | cons c bs =>
        rw [hb, List.modifyHead_cons, List.mem_cons] at h
        cases h with
        | inl heq =>
          obtain ⟨front, last, hc, hlast, hfront⟩ := ih (hb ▸ List.mem_cons_self)
          refine ⟨a :: front, last, by rw [heq, hc]; rfl, hlast, fun d hd => ?_⟩
          cases List.mem_cons.mp hd with
          | inl heq => rw [heq, ha]
          | inr hmem => exact hfront d hmem
        | inr hmem => exact ih (hb ▸ List.mem_cons_of_mem c hmem)

theorem mem_of_mem_blocks {l b : List α} {a : α} (hb : b ∈ blocks isEnd l) (ha : a ∈ b) : a ∈ l := by
  obtain ⟨tail, hl, -⟩ := blocks_append_tail isEnd l
  rw [hl]
  exact List.mem_append_left _ (List.mem_flatten.mpr ⟨b, hb, ha⟩)

/-- A filter that keeps the ends filters the blocks. -/
theorem blocks_filter {isEnd p : α → Bool} (h : ∀ a, isEnd a = true → p a = true) (l : List α) :
    blocks isEnd (l.filter p) = (blocks isEnd l).map (List.filter p) := by
  induction l with
  | nil => rfl
  | cons a l ih =>
    cases ha : isEnd a with
    | true =>
      rw [List.filter_cons_of_pos (h a ha), blocks_cons_of_end ha, blocks_cons_of_end ha, ih,
        List.map_cons, List.filter_cons_of_pos (h a ha), List.filter_nil]
    | false =>
      rw [blocks_cons_of_not_end ha]
      cases hp : p a with
      | true =>
        rw [List.filter_cons_of_pos hp, blocks_cons_of_not_end ha, ih]
        cases blocks isEnd l with
        | nil => rfl
        | cons b bs => simp [List.filter_cons_of_pos hp]
      | false =>
        rw [List.filter_cons_of_neg (by simp [hp]), ih]
        cases blocks isEnd l with
        | nil => rfl
        | cons b bs => simp [List.filter_cons_of_neg, hp]

end blocks

theorem length_segments (r : Reading) (lines : List Line) :
    (segments r lines).length = lines.countP Line.isUri := by
  induction lines generalizing r with
  | nil => rfl
  | cons line lines ih =>
    cases hl : line.isUri with
    | true =>
      cases line with
      | uri text => rw [List.countP_cons_of_pos hl, ← ih]; rfl
      | _ => cases hl
    | false => rw [segments_cons_of_not_isUri hl, ih, List.countP_cons_of_neg (by simp [hl])]

/-- A numbered list ends in another exactly if that one goes on at its place. -/
theorem zipIdx_suffix_iff {α : Type*} {xs ys zs : List α} {m n : Nat} (hlen : ys.length = zs.length)
    (hne : ys ≠ []) : ys.zipIdx m <:+ (xs ++ zs).zipIdx n ↔ m = n + xs.length ∧ ys = zs := by
  rw [List.zipIdx_append]
  constructor
  · intro hsuffix
    have heq : ys.zipIdx m = zs.zipIdx (n + xs.length) := by
      refine List.IsSuffix.eq_of_length (List.suffix_of_suffix_length_le hsuffix
        (List.suffix_append _ _) (by simp [hlen])) (by simp [hlen])
    refine ⟨?_, by rw [← List.zipIdx_map_fst m ys, heq, List.zipIdx_map_fst]⟩
    have hhead := congrArg List.head? heq
    rw [List.head?_zipIdx, List.head?_zipIdx] at hhead
    obtain ⟨y, ys', rfl⟩ := List.exists_cons_of_ne_nil hne
    cases zs with
    | nil => cases hlen
    | cons z zs => exact (Prod.ext_iff.mp (Option.some.inj hhead)).2
  · rintro ⟨rfl, rfl⟩
    exact List.suffix_append _ _

end MediaPlaylist
