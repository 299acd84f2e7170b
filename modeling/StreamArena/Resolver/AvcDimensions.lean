import Mathlib
import StreamArena.Library.Mac
import StreamArena.Library.Outcome
import StreamArena.Resolver.TransportStream

/-! The size of the picture that the sample entries of an MP4 file give: `avc_dimensions`
(src/src/resolver/hls_quality.rs). -/
namespace StreamArena.Resolver.AvcDimensions
open Mac (bigEndian)

abbrev Size := Nat × Nat

def fourcc (a b c d : Char) : Bytes := [a, b, c, d].map fun c => .ofNat c.toNat

inductive Sample where
  | avc1 | avc3
  deriving DecidableEq

def Sample.kind : Sample → Bytes
  | avc1 => fourcc 'a' 'v' 'c' '1'
  | avc3 => fourcc 'a' 'v' 'c' '3'

inductive Container where
  | moov | trak | mdia | minf | stbl
  deriving DecidableEq

def Container.kind : Container → Bytes
  | moov => fourcc 'm' 'o' 'o' 'v'
  | trak => fourcc 't' 'r' 'a' 'k'
  | mdia => fourcc 'm' 'd' 'i' 'a'
  | minf => fourcc 'm' 'i' 'n' 'f'
  | stbl => fourcc 's' 't' 'b' 'l'

def sampleKinds : List Bytes := [Sample.avc1, .avc3].map Sample.kind
def containerKinds : List Bytes := [Container.moov, .trak, .mdia, .minf, .stbl].map Container.kind
def stsd : Bytes := fourcc 's' 't' 's' 'd'

def fromBeBytes (bytes : Bytes) : Nat := bytes.foldl (fun n b => n * 256 + b.toNat) 0

/-- `data[start..stop]`, which the machine checks. -/
def slice (data : Bytes) (start stop : Nat) : Outcome Bytes :=
  .guarded (start ≤ stop ∧ stop ≤ data.length) (.value ((data.take stop).drop start))

/-- `data.get(start..stop)?`. -/
def getSlice (data : Bytes) (start stop : Nat) : Outcome Bytes :=
  if start ≤ stop ∧ stop ≤ data.length then .value ((data.take stop).drop start) else .nothing

/-- The size of the first box, and that of its header. -/
def boxSize (data : Bytes) : Outcome (Nat × Nat) := do
  let size ← slice data 0 4
  if fromBeBytes size = 0 then .value (data.length, 8)
  else if fromBeBytes size = 1 then
    let large ← getSlice data 8 16
    .value (fromBeBytes large, 16)
  else .value (fromBeBytes size, 8)

def shown (size : Size) : Bool := decide (0 < size.1) && decide (0 < size.2)

/-- What a box gives. The payload of a container is read by `inner`, and what that does not find is looked for
in the boxes that follow. -/
def boxDimensions (inner : Bytes → Outcome Size) (kind payload : Bytes) : Outcome (Option Size) :=
  if kind ∈ sampleKinds then do
    let width ← getSlice payload 24 26
    let height ← getSlice payload 26 28
    .value (some (fromBeBytes width, fromBeBytes height) |>.filter shown)
  else if kind ∈ containerKinds then (inner payload).optional
  else if kind = stsd then do
    let entries ← getSlice payload 8 payload.length
    (inner entries).optional
  else .value none

def boxLoop (inner : Bytes → Outcome Size) : Nat → Bytes → Outcome Size
  | 0, _ => .panic
  | turns + 1, data =>
    if data.length < 8 then .nothing
    else do
      let (size, header) ← boxSize data
      if size < header ∨ data.length < size then .nothing
      else
        let payload ← slice data header size
        let kind ← slice data 4 8
        match ← boxDimensions inner kind payload with
        | some dimensions => .value dimensions
        | none =>
          let rest ← slice data size data.length
          boxLoop inner turns rest

/-- The first argument is how many calls may still stand inside this one. -/
def avcDimensions : Nat → Bytes → Nat → Outcome Size
  | 0, data, depth => if 8 < depth then .nothing else boxLoop (fun _ => .panic) (data.length + 1) data
  | calls + 1, data, depth =>
    if 8 < depth then .nothing
    else boxLoop (fun payload => avcDimensions calls payload (depth + 1)) (data.length + 1) data

/-! The boxes of a file -/

/-- How a box gives its size: in 32 bits, in 64 bits, or as all that is left. -/
inductive Form where
  | short | long | toEnd
  deriving DecidableEq

def Form.headerLength : Form → Nat
  | short => 8
  | long => 16
  | toEnd => 8

def Form.header : Form → Bytes → Nat → Bytes
  | short, kind, length => bigEndian 4 (length + 8) ++ kind
  | long, kind, length => bigEndian 4 1 ++ kind ++ bigEndian 8 (length + 16)
  | toEnd, kind, _ => bigEndian 4 0 ++ kind

def Form.Fits : Form → Nat → Bytes → Prop
  | short, length, _ => length + 8 < 2 ^ 32
  | long, length, _ => length + 16 < 2 ^ 64
  | toEnd, _, rest => rest = []

def box (form : Form) (kind payload : Bytes) : Bytes := form.header kind payload.length ++ payload

/-- Boxes one after another, in the order of the document. -/
inductive Boxes where
  | done
  | container (form : Form) (kind : Container) (children rest : Boxes)
  | descriptions (form : Form) (head : Bytes) (entries rest : Boxes)
  | sample (form : Form) (kind : Sample) (before : Bytes) (width height : UInt16) (after : Bytes) (rest : Boxes)
  | other (form : Form) (kind payload : Bytes) (rest : Boxes)

namespace Boxes

def samplePayload (before : Bytes) (width height : UInt16) (after : Bytes) : Bytes :=
  before ++ bigEndian 2 width.toNat ++ (bigEndian 2 height.toNat ++ after)

def bytes : Boxes → Bytes
  | done => []
  | container form kind children rest => box form kind.kind children.bytes ++ rest.bytes
  | descriptions form head entries rest => box form stsd (head ++ entries.bytes) ++ rest.bytes
  | sample form kind before width height after rest =>
    box form kind.kind (samplePayload before width height after) ++ rest.bytes
  | other form kind payload rest => box form kind payload ++ rest.bytes

def WellFormed : Boxes → Prop
  | done => True
  | container form _ children rest =>
    form.Fits children.bytes.length rest.bytes ∧ children.WellFormed ∧ rest.WellFormed
  | descriptions form head entries rest =>
    head.length = 8 ∧ form.Fits (head ++ entries.bytes).length rest.bytes ∧ entries.WellFormed ∧ rest.WellFormed
  | sample form _ before width height after rest =>
    before.length = 24 ∧ form.Fits (samplePayload before width height after).length rest.bytes ∧ rest.WellFormed
  | other form kind payload rest =>
    kind.length = 4 ∧ kind ∉ sampleKinds ∧ kind ∉ containerKinds ∧ kind ≠ stsd ∧
      form.Fits payload.length rest.bytes ∧ rest.WellFormed

/-- How deep the boxes stand inside each other. -/
def levels : Boxes → Nat
  | done => 1
  | container _ _ children rest => max (children.levels + 1) rest.levels
  | descriptions _ _ entries rest => max (entries.levels + 1) rest.levels
  | sample _ _ _ _ _ _ rest => rest.levels
  | other _ _ _ rest => rest.levels

def samples : Boxes → List Size
  | done => []
  | container _ _ children rest => children.samples ++ rest.samples
  | descriptions _ _ entries rest => entries.samples ++ rest.samples
  | sample _ _ _ width height _ rest => (width.toNat, height.toNat) :: rest.samples
  | other _ _ _ rest => rest.samples

end Boxes

/-- A well-formed file that is not too deep for the reader. -/
structure BoxTree where
  boxes : Boxes
  wellFormed : boxes.WellFormed
  levels_le : boxes.levels ≤ 9

/-! Slices and headers -/

theorem foldl_bigEndian (width n start : Nat) :
    (bigEndian width n).foldl (fun n b => n * 256 + b.toNat) start = start * 256 ^ width + n % 256 ^ width := by
  induction width generalizing start with
  | zero => simp [bigEndian, Nat.mod_one]
  | succ width ih =>
    have hcons : bigEndian (width + 1) n = UInt8.ofNat (n / 256 ^ width) :: bigEndian width n := by
      rw [bigEndian, bigEndian, List.range_succ_eq_map]
      simp [Function.comp_def, Nat.sub_sub, Nat.add_comm]
    have hbyte : (UInt8.ofNat (n / 256 ^ width)).toNat = n / 256 ^ width % 256 := by simp
    calc
      _ = (start * 256 + n / 256 ^ width % 256) * 256 ^ width + n % 256 ^ width := by
        rw [hcons, List.foldl_cons, ih, hbyte]
      _ = start * 256 ^ (width + 1) + (n % 256 ^ width + 256 ^ width * (n / 256 ^ width % 256)) := by ring
      _ = start * 256 ^ (width + 1) + n % 256 ^ (width + 1) := by rw [Nat.pow_succ, Nat.mod_mul]

theorem fromBeBytes_bigEndian {width n : Nat} (h : n < 256 ^ width) : fromBeBytes (bigEndian width n) = n := by
  rw [fromBeBytes, foldl_bigEndian, Nat.zero_mul, Nat.zero_add, Nat.mod_eq_of_lt h]

theorem drop_take_append {before middle after : Bytes} {start stop : Nat} (hstart : start = before.length)
    (hstop : stop = before.length + middle.length) :
    ((before ++ middle ++ after).take stop).drop start = middle := by
  rw [hstop, ← List.length_append, List.take_left, hstart, List.drop_left]

theorem slice_append {before middle after : Bytes} {start stop : Nat} (hstart : start = before.length)
    (hstop : stop = before.length + middle.length) : slice (before ++ middle ++ after) start stop = .value middle := by
  rw [slice, drop_take_append hstart hstop, Outcome.guarded_eq_value]
  simp
  omega

theorem getSlice_append {before middle after : Bytes} {start stop : Nat} (hstart : start = before.length)
    (hstop : stop = before.length + middle.length) : getSlice (before ++ middle ++ after) start stop = .value middle := by
  rw [getSlice, drop_take_append hstart hstop, if_pos]
  simp
  omega

theorem safe_slice {data : Bytes} {start stop : Nat} (h : start ≤ stop) (h' : stop ≤ data.length) : (slice data start stop).Safe :=
  Outcome.safe_guarded.mpr ⟨⟨h, h'⟩, Outcome.safe_value _⟩

theorem safe_getSlice (data : Bytes) (start stop : Nat) : (getSlice data start stop).Safe := by
  rw [getSlice]
  split <;> simp

theorem length_box (form : Form) {kind : Bytes} (hkind : kind.length = 4) (payload : Bytes) :
    (box form kind payload).length = form.headerLength + payload.length := by
  cases form <;> simp [box, Form.header, Form.headerLength, Mac.length_bigEndian, hkind] <;> omega

/-- The second four bytes of a box say what it is. -/
theorem slice_kind (form : Form) {kind : Bytes} (hkind : kind.length = 4) (payload rest : Bytes) :
    slice (box form kind payload ++ rest) 4 8 = .value kind := by
  have hlength (n : Nat) : 4 = (bigEndian 4 n).length := (Mac.length_bigEndian 4 n).symm
  have hstop (n : Nat) : 8 = (bigEndian 4 n).length + kind.length := by rw [Mac.length_bigEndian, hkind]
  cases form with
  | short =>
    rw [box, Form.header, List.append_assoc]
    exact slice_append (hlength _) (hstop _)
  | long =>
    rw [box, Form.header, List.append_assoc, List.append_assoc]
    exact slice_append (hlength _) (hstop _)
  | toEnd =>
    rw [box, Form.header, List.append_assoc]
    exact slice_append (hlength _) (hstop _)

theorem slice_payload (form : Form) {kind : Bytes} (hkind : kind.length = 4) (payload rest : Bytes) :
    slice (box form kind payload ++ rest) form.headerLength (form.headerLength + payload.length) = .value payload := by
  have hheader : form.headerLength = (form.header kind payload.length).length := by
    cases form <;> simp [Form.header, Form.headerLength, Mac.length_bigEndian, hkind]
  rw [box]
  exact slice_append hheader (by rw [hheader])

theorem slice_rest (form : Form) {kind : Bytes} (hkind : kind.length = 4) (payload rest : Bytes) :
    slice (box form kind payload ++ rest) (form.headerLength + payload.length) (box form kind payload ++ rest).length = .value rest := by
  have h := @slice_append (box form kind payload) rest [] _ _ (length_box form hkind payload).symm rfl
  rwa [List.append_nil, ← List.length_append] at h

/-- The first four bytes of a box. -/
def Form.word : Form → Nat → Nat
  | short, length => length + 8
  | long, _ => 1
  | toEnd, _ => 0

theorem slice_word (form : Form) (kind payload rest : Bytes) :
    slice (box form kind payload ++ rest) 0 4 = .value (bigEndian 4 (form.word payload.length)) := by
  have hlength (n : Nat) : 4 = ([] : Bytes).length + (bigEndian 4 n).length := by simp [Mac.length_bigEndian]
  cases form with
  | short =>
    rw [box, Form.header, List.append_assoc, List.append_assoc]
    exact @slice_append [] _ _ _ _ rfl (hlength _)
  | long =>
    rw [box, Form.header, List.append_assoc, List.append_assoc, List.append_assoc]
    exact @slice_append [] _ _ _ _ rfl (hlength _)
  | toEnd =>
    rw [box, Form.header, List.append_assoc, List.append_assoc]
    exact @slice_append [] _ _ _ _ rfl (hlength _)

theorem boxSize_box (form : Form) {kind payload rest : Bytes} (hkind : kind.length = 4) (h : form.Fits payload.length rest) :
    boxSize (box form kind payload ++ rest) = .value (form.headerLength + payload.length, form.headerLength) := by
  have hword : form.word payload.length < 256 ^ 4 := by
    cases form with
    | short => simpa [Form.word, Form.Fits] using h
    | long => simp [Form.word]
    | toEnd => simp [Form.word]
  rw [boxSize, slice_word, Outcome.bind_def, Outcome.value_bind, fromBeBytes_bigEndian hword]
  cases form with
  | short => simp [Form.word, Form.headerLength, Nat.add_comm]
  | long =>
    have hlarge : getSlice (box .long kind payload ++ rest) 8 16 = .value (bigEndian 8 (payload.length + 16)) := by
      rw [box, Form.header, List.append_assoc]
      exact getSlice_append (by simp [Mac.length_bigEndian, hkind]) (by simp [Mac.length_bigEndian, hkind])
    have hsize : payload.length + 16 < 256 ^ 8 := by simpa [Form.Fits] using h
    simp [Form.word, Form.headerLength, hlarge, Outcome.bind_def, fromBeBytes_bigEndian hsize, Nat.add_comm]
  | toEnd =>
    obtain rfl : rest = [] := h
    simp [Form.word, Form.headerLength, length_box .toEnd hkind]

/-- One turn of the loop: what the first box gives, and what follows it where that is nothing. -/
theorem boxLoop_box (inner : Bytes → Outcome Size) (turns : Nat) (form : Form) {kind payload rest : Bytes} (hkind : kind.length = 4)
    (h : form.Fits payload.length rest) :
    boxLoop inner (turns + 1) (box form kind payload ++ rest) =
      (boxDimensions inner kind payload).bind fun found =>
        match found with
        | some dimensions => .value dimensions
        | none => boxLoop inner turns rest := by
  have hheader : 8 ≤ form.headerLength := by cases form <;> simp [Form.headerLength]
  have hlength : (box form kind payload ++ rest).length = form.headerLength + payload.length + rest.length := by
    rw [List.length_append, length_box form hkind]
  rw [boxLoop, if_neg (by omega), boxSize_box form hkind h]
  simp only [Outcome.bind_def, Outcome.value_bind]
  rw [if_neg (by omega), slice_payload form hkind, slice_kind form hkind, slice_rest form hkind]
  simp only [Outcome.value_bind]

/-! What the reader finds -/

def nested : Nat → Nat → Bytes → Outcome Size
  | 0, _, _ => .panic
  | calls + 1, depth, payload => avcDimensions calls payload (depth + 1)

theorem avcDimensions_eq {calls depth : Nat} (h : depth ≤ 8) (data : Bytes) :
    avcDimensions calls data depth = boxLoop (nested calls depth) (data.length + 1) data := by
  cases calls with
  | zero => exact if_neg (by omega)
  | succ calls => exact if_neg (by omega)

theorem optional_ofOption {α : Type} (x : Option α) : (Outcome.ofOption x).optional = .value x := by
  cases x <;> rfl

theorem boxDimensions_sample (inner : Bytes → Outcome Size) (kind : Sample) {before : Bytes} (width height : UInt16) (after : Bytes)
    (h : before.length = 24) :
    boxDimensions inner kind.kind (Boxes.samplePayload before width height after) =
      .value (some (width.toNat, height.toNat) |>.filter shown) := by
  have hkind : kind.kind ∈ sampleKinds := by cases kind <;> decide
  have hwidth : getSlice (Boxes.samplePayload before width height after) 24 26 = .value (bigEndian 2 width.toNat) :=
    getSlice_append h.symm (by rw [h, Mac.length_bigEndian])
  have hheight : getSlice (Boxes.samplePayload before width height after) 26 28 = .value (bigEndian 2 height.toNat) := by
    rw [Boxes.samplePayload, ← List.append_assoc]
    exact getSlice_append (by simp [h, Mac.length_bigEndian]) (by simp [h, Mac.length_bigEndian])
  rw [boxDimensions, if_pos hkind, hwidth, hheight]
  simp only [Outcome.bind_def, Outcome.value_bind]
  rw [fromBeBytes_bigEndian width.toNat_lt, fromBeBytes_bigEndian height.toNat_lt]

theorem boxDimensions_container (inner : Bytes → Outcome Size) (kind : Container) (payload : Bytes) :
    boxDimensions inner kind.kind payload = (inner payload).optional := by
  have hother : kind.kind ∉ sampleKinds := by cases kind <;> decide
  have hkind : kind.kind ∈ containerKinds := by cases kind <;> decide
  rw [boxDimensions, if_neg hother, if_pos hkind]

theorem boxDimensions_stsd (inner : Bytes → Outcome Size) {head : Bytes} (entries : Bytes) (h : head.length = 8) :
    boxDimensions inner stsd (head ++ entries) = (inner entries).optional := by
  have hentries : getSlice (head ++ entries) 8 (head ++ entries).length = .value entries := by
    have := @getSlice_append head entries [] 8 (head ++ entries).length h.symm (by simp)
    rwa [List.append_nil] at this
  rw [boxDimensions, if_neg (by decide), if_neg (by decide), if_pos rfl, hentries]
  rfl

/-- What is found in one box comes before what is found behind it. -/
theorem bind_found {first second : List Size} {after : Outcome Size} (h : after = .ofOption (second.find? shown)) :
    ((Outcome.value (first.find? shown)).bind fun found =>
      match found with
      | some dimensions => .value dimensions
      | none => after) = .ofOption ((first ++ second).find? shown) := by
  rw [Outcome.value_bind, List.find?_append]
  cases first.find? shown with
  | none => exact h
  | some dimensions => rfl

/-- The boxes are read to their first sample of which there is something to show. -/
def Found (boxes : Boxes) : Prop :=
  ∀ calls depth turns, boxes.levels ≤ calls → depth + calls = 9 → boxes.bytes.length < turns →
    boxLoop (nested calls depth) turns boxes.bytes = .ofOption (boxes.samples.find? shown)

theorem avcDimensions_found {calls depth : Nat} {boxes : Boxes} (h : Found boxes) (hlevels : boxes.levels ≤ calls)
    (hdepth : depth + calls = 9) (hpositive : 0 < calls) :
    avcDimensions calls boxes.bytes depth = .ofOption (boxes.samples.find? shown) := by
  rw [avcDimensions_eq (by omega)]
  exact h calls depth _ hlevels hdepth (Nat.lt_succ_self _)

theorem nested_found {calls depth : Nat} {boxes : Boxes} (h : Found boxes) (hlevels : boxes.levels + 1 ≤ calls)
    (hdepth : depth + calls = 9) (hpositive : 0 < boxes.levels) :
    nested calls depth boxes.bytes = .ofOption (boxes.samples.find? shown) := by
  cases calls with
  | zero => omega
  | succ calls => exact avcDimensions_found h (by omega) (by omega) (by omega)

theorem boxLoop_found {calls depth turns : Nat} {form : Form} {kind payload : Bytes} {first : List Size} {rest : Boxes}
    (hkind : kind.length = 4) (hfits : form.Fits payload.length rest.bytes)
    (hfirst : boxDimensions (nested calls depth) kind payload = .value (first.find? shown)) (hrest : Found rest)
    (hlevels : rest.levels ≤ calls) (hdepth : depth + calls = 9)
    (hturns : (box form kind payload ++ rest.bytes).length < turns) :
    boxLoop (nested calls depth) turns (box form kind payload ++ rest.bytes) =
      .ofOption ((first ++ rest.samples).find? shown) := by
  have hheader : 8 ≤ form.headerLength := by cases form <;> simp [Form.headerLength]
  rw [List.length_append, length_box form hkind] at hturns
  obtain ⟨turns, rfl⟩ : ∃ n, turns = n + 1 := Nat.exists_eq_succ_of_ne_zero (by omega)
  rw [boxLoop_box _ turns form hkind hfits, hfirst]
  exact bind_found (hrest calls depth turns hlevels hdepth (by omega))

theorem levels_pos (boxes : Boxes) : 0 < boxes.levels := by
  induction boxes with
  | done => exact Nat.one_pos
  | container form kind children rest _ ih => exact lt_max_of_lt_right ih
  | descriptions form head entries rest _ ih => exact lt_max_of_lt_right ih
  | sample form kind before width height after rest ih => exact ih
  | other form kind payload rest ih => exact ih

theorem found_of_wellFormed {boxes : Boxes} (h : boxes.WellFormed) : Found boxes := by
  induction boxes with
  | done =>
    intro calls depth turns _ _ hturns
    obtain ⟨turns, rfl⟩ := Nat.exists_eq_succ_of_ne_zero (Nat.ne_zero_of_lt hturns)
    rfl
  | container form kind children rest ihchildren ihrest =>
    intro calls depth turns hlevels hdepth hturns
    obtain ⟨hfits, hchildren, hrest⟩ := h
    have hkind : kind.kind.length = 4 := by cases kind <;> rfl
    obtain ⟨hin, hafter⟩ := max_le_iff.mp hlevels
    have hfirst : boxDimensions (nested calls depth) kind.kind children.bytes = .value (children.samples.find? shown) := by
      rw [boxDimensions_container, nested_found (ihchildren hchildren) hin hdepth (levels_pos children), optional_ofOption]
    exact boxLoop_found hkind hfits hfirst (ihrest hrest) hafter hdepth hturns
  | descriptions form head entries rest ihentries ihrest =>
    intro calls depth turns hlevels hdepth hturns
    obtain ⟨hhead, hfits, hentries, hrest⟩ := h
    obtain ⟨hin, hafter⟩ := max_le_iff.mp hlevels
    have hfirst : boxDimensions (nested calls depth) stsd (head ++ entries.bytes) = .value (entries.samples.find? shown) := by
      rw [boxDimensions_stsd _ _ hhead, nested_found (ihentries hentries) hin hdepth (levels_pos entries), optional_ofOption]
    exact boxLoop_found rfl hfits hfirst (ihrest hrest) hafter hdepth hturns
  | sample form kind before width height after rest ih =>
    intro calls depth turns hlevels hdepth hturns
    obtain ⟨hbefore, hfits, hrest⟩ := h
    have hkind : kind.kind.length = 4 := by cases kind <;> rfl
    have hfirst : boxDimensions (nested calls depth) kind.kind (Boxes.samplePayload before width height after) =
        .value ([(width.toNat, height.toNat)].find? shown) := by
      rw [boxDimensions_sample _ kind width height after hbefore, Option.filter_some, List.find?_singleton]
    exact boxLoop_found hkind hfits hfirst (ih hrest) hlevels hdepth hturns
  | other form kind payload rest ih =>
    intro calls depth turns hlevels hdepth hturns
    obtain ⟨hkind, hsample, hcontainer, hstsd, hfits, hrest⟩ := h
    have hfirst : boxDimensions (nested calls depth) kind payload = .value (([] : List Size).find? shown) := by
      rw [boxDimensions, if_neg hsample, if_neg hcontainer, if_neg hstsd, List.find?_nil]
    exact boxLoop_found hkind hfits hfirst (ih hrest) hlevels hdepth hturns

/-! Arbitrary bytes -/

theorem boxSize_value {data : Bytes} {size header : Nat} (h : boxSize data = .value (size, header)) : 8 ≤ header := by
  obtain ⟨word, _, h⟩ := Outcome.bind_eq_value.mp h
  split at h
  · cases h
    exact le_rfl
  · split at h
    · obtain ⟨large, _, h⟩ := Outcome.bind_eq_value.mp h
      cases h
      decide
    · cases h
      exact le_rfl

theorem safe_boxSize {data : Bytes} (h : 8 ≤ data.length) : (boxSize data).Safe := by
  refine Outcome.safe_bind.mpr ⟨safe_slice (by omega) (by omega), fun size _ => ?_⟩
  split
  · exact Outcome.safe_value _
  · split
    · exact Outcome.safe_bind.mpr ⟨safe_getSlice _ _ _, fun large _ => Outcome.safe_value _⟩
    · exact Outcome.safe_value _

theorem safe_boxDimensions {inner : Bytes → Outcome Size} (h : ∀ payload, (inner payload).Safe) (kind payload : Bytes) :
    (boxDimensions inner kind payload).Safe := by
  rw [boxDimensions]
  split
  · exact Outcome.safe_bind.mpr ⟨safe_getSlice _ _ _, fun width _ =>
      Outcome.safe_bind.mpr ⟨safe_getSlice _ _ _, fun height _ => Outcome.safe_value _⟩⟩
  · split
    · exact Outcome.safe_optional.mpr (h payload)
    · split
      · exact Outcome.safe_bind.mpr ⟨safe_getSlice _ _ _, fun entries _ => Outcome.safe_optional.mpr (h entries)⟩
      · exact Outcome.safe_value _

/-- Every turn takes eight bytes at least. -/
theorem safe_boxLoop {inner : Bytes → Outcome Size} (h : ∀ payload, (inner payload).Safe) {turns : Nat} {data : Bytes}
    (hturns : data.length < turns) : (boxLoop inner turns data).Safe := by
  induction turns generalizing data with
  | zero => omega
  | succ turns ih =>
    rw [boxLoop]
    split
    · exact Outcome.safe_nothing
    · next hlength =>
      refine Outcome.safe_bind.mpr ⟨safe_boxSize (by omega), ?_⟩
      rintro ⟨size, header⟩ hsize
      have hheader := boxSize_value hsize
      show (ite _ _ _ : Outcome Size).Safe
      split
      · exact Outcome.safe_nothing
      · next hfits =>
        refine Outcome.safe_bind.mpr ⟨safe_slice (by omega) (by omega), fun payload _ => ?_⟩
        refine Outcome.safe_bind.mpr ⟨safe_slice (by omega) (by omega), fun kind _ => ?_⟩
        refine Outcome.safe_bind.mpr ⟨safe_boxDimensions h kind payload, fun found _ => ?_⟩
        cases found with
        | some dimensions => exact Outcome.safe_value _
        | none =>
          refine Outcome.safe_bind.mpr ⟨safe_slice (by omega) le_rfl, fun rest hrest => ih ?_⟩
          have hlengthRest : rest.length = data.length - size := by
            obtain ⟨_, hvalue⟩ := Outcome.guarded_eq_value.mp hrest
            cases hvalue
            simp
          omega

theorem safe_avcDimensions {calls depth : Nat} (h : 9 ≤ depth + calls) (data : Bytes) : (avcDimensions calls data depth).Safe := by
  induction calls generalizing depth data with
  | zero =>
    rw [avcDimensions, if_pos (by omega)]
    exact Outcome.safe_nothing
  | succ calls ih =>
    rw [avcDimensions]
    split
    · exact Outcome.safe_nothing
    · exact safe_boxLoop (fun payload => ih (by omega) payload) (Nat.lt_succ_self _)

/-! The first sample -/

/-- The size of the first sample of which there is something to show; over all bytes, no slice lies out of bounds,
the loops end, and no more than nine calls stand inside the first. -/
theorem avcDimensions_tree : (∀ tree : BoxTree,
      avcDimensions 9 tree.boxes.bytes 0 = .ofOption (tree.boxes.samples.find? shown)) ∧
    ∀ data, (avcDimensions 9 data 0).Safe :=
  ⟨fun tree => avcDimensions_found (found_of_wellFormed tree.wellFormed) tree.levels_le rfl (by decide),
    fun data => safe_avcDimensions le_rfl data⟩

/-- A track whose first sample entry leaves its size open. -/
def unsizedFirst : BoxTree where
  boxes :=
    let entry (width height : UInt16) := Boxes.sample .short .avc1 (List.replicate 24 0) width height (List.replicate 50 0)
    let within (kind : Container) (children : Boxes) := Boxes.container .short kind children .done
    within .moov (within .trak (within .mdia (within .minf (within .stbl
      (.descriptions .short [0, 0, 0, 0, 0, 0, 0, 2] (entry 0 0 (entry 640 360 .done)) .done)))))
  wellFormed := by
    simp [Boxes.WellFormed, Form.Fits, Boxes.bytes, Boxes.samplePayload, box, Form.header, Mac.length_bigEndian,
      Container.kind, Sample.kind, stsd, fourcc]
  levels_le := by decide

theorem unsized_entry_skipped : ¬ ∀ tree : BoxTree, avcDimensions 9 tree.boxes.bytes 0 = .ofOption tree.boxes.samples.head? := by
  intro h
  have hfound := avcDimensions_found (found_of_wellFormed unsizedFirst.wellFormed) unsizedFirst.levels_le (Nat.zero_add 9) (by decide)
  have heq := hfound.symm.trans (h unsizedFirst)
  exact absurd heq (by decide)

end StreamArena.Resolver.AvcDimensions
