import Mathlib
import StreamArena.Library.Decimal

/-! Byte ranges of local bytes: `parse_range` (src/src/static_files.rs), `parse_stream_range`
(src/src/local_torrent.rs) and the responses made of them. -/
namespace StreamArena.Streaming
open AsciiText Decimal

def rangeUnit : Text := ['b', 'y', 't', 'e', 's', '=']

/-- Digits as a header has them, leading zeros included. -/
structure Digits where
  text : Text
  ne_nil : text ≠ []
  all_isDigit : text.all Char.isDigit = true

def Digits.value (digits : Digits) : Nat := Nat.ofDigitChars 10 digits.text 0

/-- A single byte range. -/
inductive ByteRange where
  | closed (first last : Digits)
  | onward (first : Digits)
  | suffix (count : Digits)

def ByteRange.header : ByteRange → Text
  | closed first last => rangeUnit ++ first.text ++ '-' :: last.text
  | onward first => rangeUnit ++ first.text ++ ['-']
  | suffix count => rangeUnit ++ '-' :: count.text

def saturatingSub (a b : UInt64) : UInt64 := if b ≤ a then a - b else 0

def checkedSub (a b : UInt64) : Option UInt64 := if b ≤ a then some (a - b) else none

/-- The text of both parsers. -/
def readRange (header : Text) (fileSize : UInt64) : Option (UInt64 × UInt64) := do
  let value ← stripPrefix (trim header) rangeUnit
  let (rawStart, rawEnd) ← splitOnce ['-'] value
  let start ←
    if (trim rawStart).isEmpty then (parseU64 (trim rawEnd)).map fun suffix => saturatingSub fileSize suffix
    else parseU64 (trim rawStart)
  let last ←
    if (trim rawStart).isEmpty || (trim rawEnd).isEmpty then checkedSub fileSize 1
    else parseU64 (trim rawEnd)
  if start > last || last ≥ fileSize then none else some (start, last)

def parseRange := readRange
def parseStreamRange := readRange

/-- Bytes that a 64-bit register counts. -/
structure Contents where
  bytes : List UInt8
  length_lt : bytes.length < 2 ^ 64

def Contents.len (contents : Contents) : UInt64 := .ofNat contents.bytes.length

/-- What answers a range: a static file, a torrent's file as the session streams it beside the length that its
cache entry has for it, or a file of the direct cache. -/
inductive Source where
  | staticFile (file : Contents)
  | torrentStream (stream : Contents) (fileLength : UInt64)
  | directFile (file : Contents)

namespace Source

def contents : Source → Contents
  | staticFile file => file
  | torrentStream stream _ => stream
  | directFile file => file

def fileSize : Source → UInt64
  | staticFile file => file.len
  | torrentStream stream fileLength => max stream.len fileLength
  | directFile file => file.len

def parse : Source → Text → UInt64 → Option (UInt64 × UInt64)
  | staticFile _ => parseRange
  | torrentStream _ _ => parseStreamRange
  | directFile _ => parseStreamRange

end Source

inductive RangeResponse where
  | rangeNotSatisfiable (contentRange : Text)
  | partialContent (contentRange : Text) (contentLength : UInt64) (body : List UInt8)

def decimal (n : UInt64) : Text := decimalText n.toNat

def contentRange (start last fileSize : UInt64) : Text :=
  "bytes ".toList ++ decimal start ++ '-' :: decimal last ++ '/' :: decimal fileSize

/-- The answer to a request with a range: a HEAD request gets no body. -/
def Source.respond (source : Source) (head : Bool) (rangeHeader : Text) : RangeResponse :=
  match source.parse rangeHeader source.fileSize with
  | none => .rangeNotSatisfiable ("bytes */".toList ++ decimal source.fileSize)
  | some (start, last) =>
    let len := last - start + 1
    .partialContent (contentRange start last source.fileSize) len
      (if head then [] else (source.contents.bytes.drop start.toNat).take len.toNat)

/-- What a range resolves to: its first and last position. -/
def Source.span (source : Source) (range : ByteRange) : Option (Nat × Nat) :=
  (source.parse range.header source.fileSize).map fun span => (span.1.toNat, span.2.toNat)

/-- What a range of a file of some size ought to resolve to. -/
def Resolved (size : Nat) : ByteRange → Option (Nat × Nat) → Prop
  | .closed first last, span =>
    (first.value < size → first.value ≤ last.value → span = some (first.value, min last.value (size - 1))) ∧
      (span = none → size ≤ first.value)
  | .onward first, span =>
    (first.value < size → span = some (first.value, size - 1)) ∧ (span = none → size ≤ first.value)
  | .suffix count, span =>
    (0 < count.value → ∃ start last, span = some (start, last) ∧ last + 1 = size ∧ last + 1 - start = min count.value size) ∧
      (span = none → count.value = 0)

/-- A part of a file is answered with exactly the bytes of its span, whose positions are in order. -/
def Source.Carried (source : Source) (range : ByteRange) : Prop :=
  ∀ start last, source.span range = some (start, last) → start ≤ last ∧ last < source.fileSize.toNat ∧
    ∃ description contentLength body, source.respond false range.header = .partialContent description contentLength body ∧
      contentLength.toNat = last - start + 1 ∧ body.length = last - start + 1 ∧
        body = (source.contents.bytes.drop start).take (last - start + 1)

def Source.Met (source : Source) (range : ByteRange) : Prop :=
  Resolved source.fileSize.toNat range (source.span range) ∧ source.Carried range

/-- The ranges of a file of some size, of which so many bytes can be had, that are answered as they ought to be. -/
def InReach (size available : Nat) : ByteRange → Prop
  | .closed first last => size ≤ first.value ∨ (first.value ≤ last.value ∧ last.value < size ∧ last.value < available)
  | .onward first => size ≤ first.value ∨ size ≤ available
  | .suffix count => count.value = 0 ∨ (0 < size ∧ size ≤ available ∧ count.value < 2 ^ 64)

section
variable {digits first last count : Digits} {size : UInt64}

theorem Digits.not_isWhitespace (digits : Digits) : ∀ c ∈ digits.text, isWhitespace c = false := by
  intro c hc
  exact not_isWhitespace_of_isDigit (List.all_eq_true.mp digits.all_isDigit c hc)

theorem Digits.notMem_minus (digits : Digits) : '-' ∉ digits.text := by
  intro hmem
  have hdigit := List.all_eq_true.mp digits.all_isDigit '-' hmem
  exact absurd hdigit (by decide)

@[simp] theorem Digits.trim_text (digits : Digits) : trim digits.text = digits.text :=
  trim_eq_self digits.not_isWhitespace

@[simp] theorem Digits.text_ne_nil (digits : Digits) : ¬ digits.text = [] := digits.ne_nil

theorem Digits.parseU64_text (digits : Digits) :
    parseU64 digits.text = if digits.value < 2 ^ 64 then some (.ofNat digits.value) else none :=
  parseU64_of_digits digits.ne_nil digits.all_isDigit

/-- A header has no white space, so that trimming leaves it. -/
theorem stripPrefix_header {before after : Text} (hbefore : ∀ c ∈ before, isWhitespace c = false)
    (hafter : ∀ c ∈ after, isWhitespace c = false) :
    stripPrefix (trim (rangeUnit ++ before ++ '-' :: after)) rangeUnit = some (before ++ '-' :: after) := by
  have hunit : rangeUnit.all (fun c => !isWhitespace c) = true := by decide
  have hfree : ∀ c ∈ rangeUnit ++ before ++ '-' :: after, isWhitespace c = false := by
    intro c hc
    simp only [List.mem_append, List.mem_cons] at hc
    rcases hc with (hc | hc) | rfl | hc
    · simpa using List.all_eq_true.mp hunit c hc
    · exact hbefore c hc
    · decide
    · exact hafter c hc
  rw [trim_eq_self hfree, stripPrefix_eq_some, List.append_assoc]

theorem readRange_closed : readRange (ByteRange.closed first last).header size =
    (parseU64 first.text).bind fun start => (parseU64 last.text).bind fun end' =>
      if start > end' || end' ≥ size then none else some (start, end') := by
  rw [readRange, ByteRange.header, stripPrefix_header first.not_isWhitespace last.not_isWhitespace]
  simp [splitOnce_append first.notMem_minus]

theorem readRange_onward : readRange (ByteRange.onward first).header size =
    (parseU64 first.text).bind fun start => (checkedSub size 1).bind fun end' =>
      if start > end' || end' ≥ size then none else some (start, end') := by
  rw [readRange, ByteRange.header, stripPrefix_header first.not_isWhitespace (by simp)]
  simp [splitOnce_append first.notMem_minus, trim_nil]

theorem readRange_suffix : readRange (ByteRange.suffix count).header size =
    (parseU64 count.text).bind fun suffix => (checkedSub size 1).bind fun end' =>
      if saturatingSub size suffix > end' || end' ≥ size then none else some (saturatingSub size suffix, end') := by
  have hstrip := @stripPrefix_header [] count.text (List.forall_mem_nil _) count.not_isWhitespace
  rw [List.append_nil, List.nil_append] at hstrip
  rw [readRange, ByteRange.header, hstrip]
  have hsplit : splitOnce ['-'] ('-' :: count.text) = some ([], count.text) :=
    splitOnce_append (List.not_mem_nil) count.text
  simp [hsplit, trim_nil, Option.bind_map]

theorem checkedSub_one : checkedSub size 1 = if 0 < size.toNat then some (.ofNat (size.toNat - 1)) else none := by
  have hone : (1 : UInt64) ≤ size ↔ 0 < size.toNat := UInt64.le_iff_toNat_le
  rw [checkedSub]
  simp only [hone]
  split
  next h =>
    rw [UInt64.ofNat_sub (by omega)]
    simp
  next => rfl

theorem toNat_saturatingSub (a b : UInt64) : (saturatingSub a b).toNat = a.toNat - b.toNat := by
  rw [saturatingSub]
  split
  next h => rw [UInt64.toNat_sub_of_le _ _ h]
  next h =>
    rw [UInt64.le_iff_toNat_le] at h
    rw [UInt64.toNat_zero]
    omega

end

namespace Source
variable (source : Source) (first last count : Digits)

theorem parse_eq (header : Text) (size : UInt64) : source.parse header size = readRange header size := by
  cases source <;> rfl

/-- The check at the end of the parser, on numbers. -/
theorem map_ends (start last' size : UInt64) :
    (if start > last' || last' ≥ size then none else some (start, last')).map
        (fun span : UInt64 × UInt64 => (span.1.toNat, span.2.toNat)) =
      if start.toNat ≤ last'.toNat ∧ last'.toNat < size.toNat then some (start.toNat, last'.toNat) else none := by
  simp only [gt_iff_lt, ge_iff_le, Bool.or_eq_true, decide_eq_true_eq, UInt64.lt_iff_toNat_lt, UInt64.le_iff_toNat_le]
  by_cases h : start.toNat ≤ last'.toNat ∧ last'.toNat < size.toNat
  · rw [if_neg (by omega), if_pos h]
    rfl
  · rw [if_pos (by omega), if_neg h]
    rfl

/-- A closed range is resolved when it ends inside the file. -/
theorem span_closed : source.span (.closed first last) =
    if first.value ≤ last.value ∧ last.value < source.fileSize.toNat then some (first.value, last.value) else none := by
  have hsize := source.fileSize.toNat_lt
  rw [span, parse_eq, readRange_closed, first.parseU64_text, last.parseU64_text]
  by_cases hlast : last.value < 2 ^ 64
  · by_cases hfirst : first.value < 2 ^ 64
    · rw [if_pos hfirst, if_pos hlast, Option.bind_some, Option.bind_some, map_ends, UInt64.toNat_ofNat_of_lt' hfirst,
        UInt64.toNat_ofNat_of_lt' hlast]
    · have hnot : ¬(first.value ≤ last.value ∧ last.value < source.fileSize.toNat) := by omega
      rw [if_neg hfirst, if_neg hnot]
      rfl
  · have hnot : ¬(first.value ≤ last.value ∧ last.value < source.fileSize.toNat) := by omega
    rw [if_neg hlast, if_neg hnot]
    split <;> rfl

theorem span_onward : source.span (.onward first) =
    if first.value < source.fileSize.toNat then some (first.value, source.fileSize.toNat - 1) else none := by
  have hsize := source.fileSize.toNat_lt
  rw [span, parse_eq, readRange_onward, first.parseU64_text, checkedSub_one]
  by_cases hfirst : first.value < 2 ^ 64
  · by_cases hempty : 0 < source.fileSize.toNat
    · have hfinal : source.fileSize.toNat - 1 < 2 ^ 64 := by omega
      rw [if_pos hfirst, if_pos hempty, Option.bind_some, Option.bind_some, map_ends, UInt64.toNat_ofNat_of_lt' hfirst,
        UInt64.toNat_ofNat_of_lt' hfinal]
      have hsame : (first.value ≤ source.fileSize.toNat - 1 ∧ source.fileSize.toNat - 1 < source.fileSize.toNat) ↔
          first.value < source.fileSize.toNat := by omega
      simp only [hsame]
    · have hnot : ¬ first.value < source.fileSize.toNat := by omega
      rw [if_pos hfirst, if_neg hempty, if_neg hnot]
      rfl
  · have hnot : ¬ first.value < source.fileSize.toNat := by omega
    rw [if_neg hfirst, if_neg hnot]
    rfl

theorem span_suffix : source.span (.suffix count) =
    if 0 < count.value ∧ 0 < source.fileSize.toNat ∧ count.value < 2 ^ 64 then
      some (source.fileSize.toNat - count.value, source.fileSize.toNat - 1)
    else none := by
  have hsize := source.fileSize.toNat_lt
  rw [span, parse_eq, readRange_suffix, count.parseU64_text, checkedSub_one]
  by_cases hcount : count.value < 2 ^ 64
  · by_cases hempty : 0 < source.fileSize.toNat
    · have hfinal : source.fileSize.toNat - 1 < 2 ^ 64 := by omega
      rw [if_pos hcount, if_pos hempty, Option.bind_some, Option.bind_some, map_ends, toNat_saturatingSub,
        UInt64.toNat_ofNat_of_lt' hcount, UInt64.toNat_ofNat_of_lt' hfinal]
      have hsame : (source.fileSize.toNat - count.value ≤ source.fileSize.toNat - 1 ∧
          source.fileSize.toNat - 1 < source.fileSize.toNat) ↔
            (0 < count.value ∧ 0 < source.fileSize.toNat ∧ count.value < 2 ^ 64) := by omega
      simp only [hsame]
    · have hnot : ¬(0 < count.value ∧ 0 < source.fileSize.toNat ∧ count.value < 2 ^ 64) := by omega
      rw [if_pos hcount, if_neg hempty, if_neg hnot]
      rfl
  · have hnot : ¬(0 < count.value ∧ 0 < source.fileSize.toNat ∧ count.value < 2 ^ 64) := by omega
    rw [if_neg hcount, if_neg hnot]
    rfl

/-- The positions of a span are in order, so that neither its length nor the count of its bytes underflows. -/
theorem ordered_of_span {range : ByteRange} {start last' : Nat} (h : source.span range = some (start, last')) :
    start ≤ last' ∧ last' < source.fileSize.toNat := by
  cases range with
  | closed first last =>
    rw [span_closed] at h
    split at h
    next hin =>
      cases h
      exact hin
    next => cases h
  | onward first =>
    rw [span_onward] at h
    split at h
    next hin =>
      cases h
      omega
    next => cases h
  | suffix count =>
    rw [span_suffix] at h
    split at h
    next hin =>
      cases h
      omega
    next => cases h

theorem respond_of_span {range : ByteRange} {start last' : Nat} (h : source.span range = some (start, last')) :
    ∃ description contentLength, source.respond false range.header =
      .partialContent description contentLength ((source.contents.bytes.drop start).take (last' - start + 1)) ∧
        contentLength.toNat = last' - start + 1 := by
  have hordered := source.ordered_of_span h
  obtain ⟨⟨first, final⟩, hparse, hspan⟩ := Option.map_eq_some_iff.mp h
  obtain ⟨rfl, rfl⟩ := Prod.mk.inj hspan
  dsimp only at hordered ⊢
  have hlast := final.toNat_lt
  have hsize := source.fileSize.toNat_lt
  have hlen : (final - first + 1).toNat = final.toNat - first.toNat + 1 := by
    rw [UInt64.toNat_add, UInt64.toNat_sub_of_le _ _ (UInt64.le_iff_toNat_le.mpr hordered.1), UInt64.toNat_one]
    omega
  refine ⟨contentRange first final source.fileSize, final - first + 1, ?_, hlen⟩
  rw [respond, hparse]
  simp only [Bool.false_eq_true, if_false, hlen]

/-- A part is carried when the bytes reach to its end. -/
theorem carried_iff {range : ByteRange} {start last' : Nat} (h : source.span range = some (start, last')) :
    source.Carried range ↔ last' < source.contents.bytes.length := by
  obtain ⟨hle, hlt⟩ := source.ordered_of_span h
  obtain ⟨description, contentLength, hrespond, hlength⟩ := source.respond_of_span h
  have hlen : ((source.contents.bytes.drop start).take (last' - start + 1)).length = last' - start + 1 ↔
      last' < source.contents.bytes.length := by
    rw [List.length_take, List.length_drop]
    omega
  constructor
  · intro hcarried
    obtain ⟨-, -, _, _, body, -, -, hbody, rfl⟩ := hcarried start last' h
    exact hlen.mp hbody
  · intro hreach start' last'' h'
    obtain ⟨rfl, rfl⟩ := Prod.mk.inj (Option.some.inj (h.symm.trans h'))
    exact ⟨hle, hlt, description, contentLength, _, hrespond, hlength, hlen.mpr hreach, rfl⟩

theorem carried_of_none {range : ByteRange} (h : source.span range = none) : source.Carried range := by
  intro start last' h'
  cases h.symm.trans h'

/-- A single range is answered as it ought to be unless it is closed and ends beyond the file or before its own
start, takes the end of an empty file or more of it than a register holds, or reaches to where no bytes are. -/
theorem met_iff (range : ByteRange) :
    source.Met range ↔ InReach source.fileSize.toNat source.contents.bytes.length range := by
  cases range with
  | closed first last =>
    have hspan := source.span_closed first last
    rw [Met, Resolved, InReach]
    split at hspan
    next hin =>
      rw [source.carried_iff hspan, hspan]
      simp
      omega
    next hout =>
      simp only [hspan, source.carried_of_none hspan]
      simp
      omega
  | onward first =>
    have hspan := source.span_onward first
    rw [Met, Resolved, InReach]
    split at hspan
    next hin =>
      rw [source.carried_iff hspan, hspan]
      simp
      omega
    next hout =>
      simp only [hspan, source.carried_of_none hspan]
      simp
      omega
  | suffix count =>
    have hspan := source.span_suffix count
    rw [Met, Resolved, InReach]
    split at hspan
    next hin =>
      rw [source.carried_iff hspan, hspan]
      simp
      omega
    next hout =>
      simp only [hspan, source.carried_of_none hspan]
      simp
      omega

end Source

/-- One hundred bytes. -/
def hundredBytes : Contents := ⟨List.replicate 100 7, by decide⟩

/-- `bytes=90-199`. -/
def pastTheEnd : ByteRange := .closed ⟨['9', '0'], by decide, by decide⟩ ⟨['1', '9', '9'], by decide, by decide⟩

theorem range_past_end_refused : ¬ ∀ (source : Source) (range : ByteRange), source.Met range := by
  intro h
  have hrefused : (Source.staticFile hundredBytes).span pastTheEnd = none := by decide +kernel
  have hbeyond : (Source.staticFile hundredBytes).fileSize.toNat ≤ Nat.ofDigitChars 10 ['9', '0'] 0 :=
    (h (.staticFile hundredBytes) pastTheEnd).1.2 hrefused
  exact absurd hbeyond (by decide +kernel)

end StreamArena.Streaming
