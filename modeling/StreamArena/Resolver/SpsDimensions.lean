import Mathlib
import StreamArena.Library.BitCodes
import StreamArena.Library.Readers
import StreamArena.Resolver.AnnexB

/-! The size of the picture that a sequence parameter set gives (src/src/resolver/vidzee.rs). -/
namespace StreamArena.Resolver
open BitCodes Reader

structure BitReader where
  bytes : Bytes
  position : Nat

def BitReader.new (nal : Bytes) : BitReader := ⟨withoutPrevention 0 nal, 0⟩

abbrev Read (α : Type) := Reader BitReader α

/-- Results that are checked against the range of their register. -/
def u32 (n : Nat) : Outcome Nat := .guarded (n < 2 ^ 32) (.value n)
def u64 (n : Nat) : Outcome Nat := .guarded (n < 2 ^ 64) (.value n)
def i64 (n : Int) : Outcome Int := .guarded (-2 ^ 63 ≤ n ∧ n < 2 ^ 63) (.value n)

namespace BitReader

def bit : Read Nat := fun reader =>
  (Outcome.ofOption reader.bytes[reader.position / 8]?).bind fun byte =>
    .value (byte.toNat / 2 ^ (7 - reader.position % 8) % 2, { reader with position := reader.position + 1 })

def bitsOnto : Nat → Nat → Read Nat
  | 0, value => pure value
  | count + 1, value => do
    let bit ← bit
    bitsOnto count (value * 2 % 2 ^ 32 ||| bit)

def bits (count : Nat) : Read Nat := bitsOnto count 0

/-- The zeros before a one, of which so many more may come. -/
def leadingZeros : Nat → Read Nat
  | 0 => do
    if (← bit) = 0 then liftM (.nothing : Outcome Nat) else pure 0
  | more + 1 => do
    if (← bit) = 0 then
      let leading ← leadingZeros more
      pure (leading + 1)
    else pure 0

def ue : Read Nat := do
  let leading ← leadingZeros 31
  let power ← (.guarded (leading < 32) (.value (2 ^ leading)) : Outcome Nat)
  let low ← bits leading
  u32 (power - 1 + low)

def se : Read Int := do
  let value ← ue
  if value % 2 = 0 then do
    let negated ← i64 (-value)
    pure (negated.tdiv 2)
  else do
    let next ← i64 (value + 1)
    pure (next.tdiv 2)

def nextScale (last next : Int) : Read Int :=
  if next ≠ 0 then do
    let delta ← se
    let sum ← i64 (last + delta)
    let sum ← i64 (sum + 256)
    pure (sum.tmod 256)
  else pure next

def scalingTurns : Nat → Int → Int → Read Unit
  | 0, _, _ => pure ()
  | turns + 1, last, next => do
    let next ← nextScale last next
    scalingTurns turns (if next = 0 then last else next) next

def scalingLists : Nat → Nat → Read Unit
  | 0, _ => pure ()
  | more + 1, list => do
    if (← bit) = 1 then
      scalingTurns (if list < 6 then 16 else 64) 8 8
    scalingLists more (list + 1)

def skipSe : Nat → Read Unit
  | 0 => pure ()
  | more + 1 => do
    let _ ← se
    skipSe more

end BitReader

open BitReader

def highProfiles : List Nat := [100, 110, 122, 244, 44, 83, 86, 118, 128, 138, 139, 134, 135]

def readSeparatePlanes (chromaFormat : Nat) : Read Bool :=
  if chromaFormat = 3 then do
    let flag ← bit
    pure (flag == 1)
  else pure false

/-- The chroma format, and whether the planes are separate. -/
def readChroma (profile : Nat) : Read (Nat × Bool) :=
  if profile ∈ highProfiles then do
    let chromaFormat ← ue
    let separatePlanes ← readSeparatePlanes chromaFormat
    let _ ← ue
    let _ ← ue
    let _ ← bit
    if (← bit) = 1 then
      scalingLists (if chromaFormat = 3 then 12 else 8) 0
    pure (chromaFormat, separatePlanes)
  else pure (1, false)

def readPicOrderCnt : Read Unit := do
  match ← ue with
  | 0 => do
    let _ ← ue
    pure ()
  | 1 => do
    let _ ← bit
    let _ ← se
    let _ ← se
    let count ← ue
    skipSe count
  | _ => pure ()

/-- How many samples one step of cropping is, across and along. -/
def cropUnits (chromaArray frameMbsOnly : Nat) : Nat × Nat :=
  match chromaArray with
  | 1 => (2, 2 * (2 - frameMbsOnly))
  | 2 => (2, 2 - frameMbsOnly)
  | _ => (1, 2 - frameMbsOnly)

def readCropping (chromaFormat : Nat) (separatePlanes : Bool) (frameMbsOnly : Nat) : Read (Nat × Nat) := do
  if (← bit) = 1 then
    let left ← ue
    let right ← ue
    let top ← ue
    let bottom ← ue
    let chromaArray := if separatePlanes = true then 0 else chromaFormat
    let (unitX, unitY) := cropUnits chromaArray frameMbsOnly
    let across ← u64 (left + right)
    let cropX ← u64 (unitX * across)
    let along ← u64 (top + bottom)
    let cropY ← u64 (unitY * along)
    pure (cropX, cropY)
  else pure (0, 0)

structure SpsFields where
  widthMbs : Nat
  heightMapUnits : Nat
  frameMbsOnly : Nat
  cropX : Nat
  cropY : Nat

def readSps : Read SpsFields := do
  let header ← bits 8
  if field header 0 5 ≠ 7 then liftM (.nothing : Outcome SpsFields)
  else do
    let profile ← bits 8
    let _ ← bits 16
    let _ ← ue
    let (chromaFormat, separatePlanes) ← readChroma profile
    let _ ← ue
    readPicOrderCnt
    let _ ← ue
    let _ ← bit
    let width ← ue
    let widthMbs ← u64 (width + 1)
    let height ← ue
    let heightMapUnits ← u64 (height + 1)
    let frameMbsOnly ← bit
    if frameMbsOnly = 0 then
      let _ ← bit
    let _ ← bit
    let (cropX, cropY) ← readCropping chromaFormat separatePlanes frameMbsOnly
    pure { widthMbs, heightMapUnits, frameMbsOnly, cropX, cropY }

/-- What is left of a length, if not less than nothing. -/
def checkedSub (n m : Nat) : Outcome Nat := if m ≤ n then .value (n - m) else .nothing

def u32TryFrom (n : Nat) : Outcome Nat := if n < 2 ^ 32 then .value n else .nothing

def SpsFields.dimensions (fields : SpsFields) : Outcome (Nat × Nat) := do
  let coded ← u64 (fields.widthMbs * 16)
  let width ← checkedSub coded fields.cropX
  let rows ← u64 ((2 - fields.frameMbsOnly) * fields.heightMapUnits)
  let codedRows ← u64 (rows * 16)
  let height ← checkedSub codedRows fields.cropY
  let width32 ← u32TryFrom width
  let height32 ← u32TryFrom height
  if 0 < width ∧ 0 < height then .value (width32, height32) else .nothing

def h264SpsDimensions (nal : Bytes) : Outcome (Nat × Nat) :=
  (readSps (BitReader.new nal)).bind fun read => read.1.dimensions

/-- The size of the picture of a video, from its first sequence parameter set. -/
def videoDimensions (video : Bytes) : Outcome (Nat × Nat) := do
  let units ← annexBNalUnits video
  let sps ← .ofOption (units.find? fun nal => nal.head?.any fun byte => field byte.toNat 0 5 == 7)
  h264SpsDimensions sps

def tsH264Dimensions (bytes : Bytes) : Outcome (Nat × Nat) := (tsH264ElementaryStream bytes).bind videoDimensions

namespace BitReader

/-- The bits that are still to be read. -/
def remaining (reader : BitReader) : List Bool := (reader.bytes.flatMap byteBits).drop reader.position

theorem remaining_new (nal : Bytes) : (BitReader.new nal).remaining = (withoutPrevention 0 nal).flatMap byteBits := rfl

theorem decodes_bit (b : Bool) : Decodes remaining bit [b] b.toNat := by
  intro reader rest hrest
  have hfirst : (reader.bytes.flatMap byteBits)[reader.position]? = some b := by
    have hget := congrArg (·[0]?) hrest
    simpa [remaining] using hget
  rw [getElem?_flatMap_byteBits, Option.map_eq_some_iff] at hfirst
  obtain ⟨byte, hbyte, hvalue⟩ := hfirst
  refine ⟨{ reader with position := reader.position + 1 }, ?_, ?_⟩
  · rw [bit, hbyte, Outcome.ofOption_some, Outcome.value_bind, ← Nat.toNat_testBit, hvalue]
  · have htail := congrArg List.tail hrest
    rwa [remaining, List.tail_drop] at htail

theorem decodes_bitsOnto {code : List Bool} {count value : Nat} (hlength : code.length = count)
    (hfits : (value + 1) * 2 ^ count ≤ 2 ^ 32) :
    Decodes remaining (bitsOnto count value) code (value * 2 ^ count + ofBits code) := by
  induction code generalizing count value with
  | nil =>
    subst hlength
    simpa [bitsOnto, ofBits] using @decodes_pure _ _ _ remaining value
  | cons b code ih =>
    subst hlength
    rw [List.length_cons, Nat.pow_succ] at hfits
    have hb := b.toNat_lt
    have hpow := Nat.two_pow_pos code.length
    have hsmall : (value + 1) * 2 ≤ 2 ^ 32 := by
      have hle : (value + 1) * 2 * 1 ≤ (value + 1) * 2 * 2 ^ code.length := Nat.mul_le_mul_left _ hpow
      have hcomm : (value + 1) * 2 * 2 ^ code.length = (value + 1) * (2 ^ code.length * 2) := by ring
      omega
    have hstep : value * 2 % 2 ^ 32 ||| b.toNat = value * 2 + b.toNat := by
      have hor := Nat.two_pow_add_eq_or_of_lt (i := 1) (b := b.toNat) (by simpa using hb) value
      rw [Nat.mod_eq_of_lt (by omega), Nat.mul_comm]
      simpa using hor.symm
    have hnext : (value * 2 + b.toNat + 1) * 2 ^ code.length ≤ 2 ^ 32 := by
      have hle : (value * 2 + b.toNat + 1) * 2 ^ code.length ≤ (value * 2 + 2) * 2 ^ code.length :=
        Nat.mul_le_mul_right _ (by omega)
      have hring : (value * 2 + 2) * 2 ^ code.length = (value + 1) * (2 ^ code.length * 2) := by ring
      omega
    have hvalue : value * 2 ^ (b :: code).length + ofBits (b :: code) =
        (value * 2 + b.toNat) * 2 ^ code.length + ofBits code := by
      rw [ofBits, List.length_cons, Nat.pow_succ]
      ring
    rw [hvalue, List.length_cons, bitsOnto]
    show Decodes remaining (bit >>= _) ([b] ++ code) _
    refine decodes_bind (decodes_bit b) ?_
    rw [hstep]
    exact ih rfl hnext

theorem decodes_bits {count n : Nat} (hcount : count ≤ 32) (hn : n < 2 ^ count) :
    Decodes remaining (bits count) (binary count n) n := by
  have hpow : (0 + 1) * 2 ^ count ≤ 2 ^ 32 := by
    rw [Nat.zero_add, Nat.one_mul]
    exact Nat.pow_le_pow_right (by decide) hcount
  have hread := @decodes_bitsOnto _ count 0 (length_binary count n) hpow
  rwa [ofBits_binary hn, Nat.zero_mul, Nat.zero_add] at hread

theorem decodes_leadingZeros {zeros more : Nat} (h : zeros ≤ more) :
    Decodes remaining (leadingZeros more) (List.replicate zeros false ++ [true]) zeros := by
  induction zeros generalizing more with
  | zero => cases more <;> exact decodes_bind_last (decodes_bit true) (decodes_pure 0)
  | succ zeros ih =>
    obtain ⟨more, rfl⟩ := Nat.exists_eq_add_of_lt h
    rw [List.replicate_succ, List.cons_append, leadingZeros]
    show Decodes remaining (bit >>= _) ([false] ++ (List.replicate zeros false ++ [true])) _
    refine decodes_bind (decodes_bit false) ?_
    exact decodes_bind_last (ih (by omega)) (decodes_pure (zeros + 1))

/-- A code of Golomb's kind is read as its number. -/
theorem decodes_ue {n : Nat} (h : n < 2 ^ 32 - 1) : Decodes remaining ue (unsigned n) n := by
  have hlog : (n + 1).log2 < 32 := log2_lt (by omega)
  have hle : 2 ^ (n + 1).log2 ≤ n + 1 := Nat.log2_self_le (Nat.succ_ne_zero n)
  have hlt : n + 1 < 2 ^ (n + 1).log2 * 2 := by
    rw [← Nat.pow_succ]
    exact Nat.lt_log2_self
  have hsplit : unsigned n = (List.replicate (n + 1).log2 false ++ [true]) ++ binary (n + 1).log2 (n + 1 - 2 ^ (n + 1).log2) := by
    rw [unsigned_eq, List.append_assoc]
    rfl
  have hsum : 2 ^ (n + 1).log2 - 1 + (n + 1 - 2 ^ (n + 1).log2) = n := by
    have hpos := Nat.two_pow_pos (n + 1).log2
    omega
  rw [hsplit, ue]
  refine decodes_bind (decodes_leadingZeros (by omega)) (decodes_bind_nil (decodes_lift (a := 2 ^ (n + 1).log2) ?_) ?_)
  · rw [Outcome.guarded, if_pos hlog]
  · refine decodes_bind_last (decodes_bits (by omega) (by omega)) (decodes_lift ?_)
    rw [hsum, u32, Outcome.guarded, if_pos (by omega)]

theorem decodes_se {v : Int} (h : v.natAbs < 2 ^ 31) : Decodes remaining se (signed v) v := by
  rw [signed, se]
  split
  · next hpos =>
    refine decodes_bind_last (decodes_ue (by omega)) ?_
    have hodd : ¬ (2 * v.toNat - 1) % 2 = 0 := by omega
    rw [if_neg hodd]
    have hcheck : i64 (((2 * v.toNat - 1 : Nat) : Int) + 1) = .value (2 * v) := by
      have hvalue : ((2 * v.toNat - 1 : Nat) : Int) + 1 = 2 * v := by omega
      rw [hvalue, i64, Outcome.guarded, if_pos (by omega)]
    refine decodes_bind_nil (decodes_lift hcheck) ?_
    have hhalf : (2 * v).tdiv 2 = v := Int.mul_tdiv_cancel_left v (by decide)
    rw [hhalf]
    exact decodes_pure v
  · next hneg =>
    refine decodes_bind_last (decodes_ue (by omega)) ?_
    have heven : (2 * (-v).toNat) % 2 = 0 := by omega
    rw [if_pos heven]
    have hcheck : i64 (-((2 * (-v).toNat : Nat) : Int)) = .value (2 * v) := by
      have hvalue : -((2 * (-v).toNat : Nat) : Int) = 2 * v := by omega
      rw [hvalue, i64, Outcome.guarded, if_pos (by omega)]
    refine decodes_bind_nil (decodes_lift hcheck) ?_
    have hhalf : (2 * v).tdiv 2 = v := Int.mul_tdiv_cancel_left v (by decide)
    rw [hhalf]
    exact decodes_pure v

theorem ensures_bit : Ensures bit (· < 2) := by
  intro reader
  rw [bit]
  refine ⟨?_, fun a s' ha => ?_⟩
  · rw [Outcome.safe_bind]
    exact ⟨Outcome.safe_ofOption _, fun byte _ => Outcome.safe_value _⟩
  · rw [Outcome.bind_eq_value] at ha
    obtain ⟨byte, -, hbyte⟩ := ha
    cases hbyte
    exact Nat.mod_lt _ (by decide)

theorem ensures_bitsOnto {count value : Nat} (hfits : (value + 1) * 2 ^ count ≤ 2 ^ 32) :
    Ensures (bitsOnto count value) (· < (value + 1) * 2 ^ count) := by
  induction count generalizing value with
  | zero =>
    refine ensures_pure ?_
    omega
  | succ count ih =>
    have hpow := Nat.two_pow_pos count
    rw [Nat.pow_succ] at hfits ⊢
    have hsmall : (value + 1) * 2 ≤ 2 ^ 32 := by
      have hle : (value + 1) * 2 * 1 ≤ (value + 1) * 2 * 2 ^ count := Nat.mul_le_mul_left _ hpow
      have hcomm : (value + 1) * 2 * 2 ^ count = (value + 1) * (2 ^ count * 2) := by ring
      omega
    refine ensures_bind ensures_bit fun b hb => ?_
    have hstep : value * 2 % 2 ^ 32 ||| b = value * 2 + b := by
      have hor := Nat.two_pow_add_eq_or_of_lt (i := 1) (b := b) (by simpa using hb) value
      rw [Nat.mod_eq_of_lt (by omega), Nat.mul_comm]
      simpa using hor.symm
    have hle : (value * 2 + b + 1) * 2 ^ count ≤ (value + 1) * (2 ^ count * 2) := by
      calc (value * 2 + b + 1) * 2 ^ count ≤ (value * 2 + 2) * 2 ^ count := Nat.mul_le_mul_right _ (by omega)
        _ = (value + 1) * (2 ^ count * 2) := by ring
    rw [hstep]
    exact ensures_weaken (ih (hle.trans hfits)) fun n hn => Nat.lt_of_lt_of_le hn hle

theorem ensures_bits {count : Nat} (h : count ≤ 32) : Ensures (bits count) (· < 2 ^ count) := by
  have hpow : (0 + 1) * 2 ^ count ≤ 2 ^ 32 := by
    rw [Nat.zero_add, Nat.one_mul]
    exact Nat.pow_le_pow_right (by decide) h
  have hread := ensures_bitsOnto hpow
  rwa [Nat.zero_add, Nat.one_mul] at hread

theorem ensures_leadingZeros (more : Nat) : Ensures (leadingZeros more) (· ≤ more) := by
  induction more with
  | zero =>
    refine ensures_bind ensures_bit fun b _ => ?_
    split
    · exact ensures_lift Outcome.safe_nothing fun a ha => by cases ha
    · exact ensures_pure le_rfl
  | succ more ih =>
    refine ensures_bind ensures_bit fun b _ => ?_
    split
    · exact ensures_bind ih fun leading hleading => ensures_pure (Nat.succ_le_succ hleading)
    · exact ensures_pure (Nat.zero_le _)

theorem ensures_u32 {n : Nat} (h : n < 2 ^ 32) : Ensures (liftM (u32 n) : Read Nat) (· = n) := by
  rw [u32, Outcome.guarded, if_pos h]
  exact ensures_pure rfl

theorem ensures_u64 {n : Nat} (h : n < 2 ^ 64) : Ensures (liftM (u64 n) : Read Nat) (· = n) := by
  rw [u64, Outcome.guarded, if_pos h]
  exact ensures_pure rfl

theorem ensures_i64 {n : Int} (h : -2 ^ 63 ≤ n ∧ n < 2 ^ 63) : Ensures (liftM (i64 n) : Read Int) (· = n) := by
  rw [i64, Outcome.guarded, if_pos h]
  exact ensures_pure rfl

/-- A number of 32 bits is read, whatever is there. -/
theorem ensures_ue : Ensures ue (· < 2 ^ 32) := by
  refine ensures_bind (ensures_leadingZeros 31) fun leading hleading => ?_
  have hpower : 2 ^ leading ≤ 2 ^ 31 := Nat.pow_le_pow_right (by decide) hleading
  have hlift : Ensures (liftM (Outcome.guarded (leading < 32) (.value (2 ^ leading))) : Read Nat) (· = 2 ^ leading) := by
    rw [Outcome.guarded, if_pos (by omega)]
    exact ensures_pure rfl
  refine ensures_bind hlift fun power hvalue => ?_
  subst hvalue
  refine ensures_bind (ensures_bits (by omega)) fun low hlow => ?_
  have hsum : 2 ^ leading - 1 + low < 2 ^ 32 := by omega
  exact ensures_weaken (ensures_u32 hsum) fun n hn => hn ▸ hsum

theorem ensures_se : Ensures se fun v => -2 ^ 32 ≤ v ∧ v ≤ 2 ^ 32 := by
  refine ensures_bind ensures_ue fun value hvalue => ?_
  split
  · refine ensures_bind (ensures_i64 (by omega)) fun negated hnegated => ensures_pure ?_
    have hhalf : (negated.tdiv 2).natAbs = negated.natAbs / 2 := Int.natAbs_tdiv negated 2
    subst hnegated
    omega
  · refine ensures_bind (ensures_i64 (by omega)) fun next hnext => ensures_pure ?_
    have hhalf : (next.tdiv 2).natAbs = next.natAbs / 2 := Int.natAbs_tdiv next 2
    subst hnext
    omega

theorem ensures_nextScale {last next : Int} (hlast : last.natAbs < 256) (hnext : next.natAbs < 256) :
    Ensures (nextScale last next) fun n => n.natAbs < 256 := by
  rw [nextScale]
  split
  · refine ensures_bind ensures_se fun delta hdelta => ?_
    refine ensures_bind (ensures_i64 (by omega)) fun sum hsum => ?_
    refine ensures_bind (ensures_i64 (by omega)) fun sum' hsum' => ensures_pure ?_
    have hrest : (sum'.tmod 256).natAbs = sum'.natAbs % 256 := Int.natAbs_tmod sum' 256
    omega
  · exact ensures_pure hnext

theorem ensures_scalingTurns {turns : Nat} {last next : Int} (hlast : last.natAbs < 256) (hnext : next.natAbs < 256) :
    Ensures (scalingTurns turns last next) fun _ => True := by
  induction turns generalizing last next with
  | zero => exact ensures_pure trivial
  | succ turns ih =>
    refine ensures_bind (ensures_nextScale hlast hnext) fun n hn => ih ?_ hn
    split
    · exact hlast
    · exact hn

theorem ensures_scalingLists (more list : Nat) : Ensures (scalingLists more list) fun _ => True := by
  induction more generalizing list with
  | zero => exact ensures_pure trivial
  | succ more ih =>
    refine ensures_bind ensures_bit fun b _ => ?_
    split
    · exact ensures_bind (ensures_scalingTurns (by decide) (by decide)) fun _ _ => ih (list + 1)
    · exact ih (list + 1)

theorem ensures_skipSe (more : Nat) : Ensures (skipSe more) fun _ => True := by
  induction more with
  | zero => exact ensures_pure trivial
  | succ more ih => exact ensures_bind ensures_se fun _ _ => ih

end BitReader

theorem ensures_readSeparatePlanes (chromaFormat : Nat) : Ensures (readSeparatePlanes chromaFormat) fun _ => True := by
  rw [readSeparatePlanes]
  split
  · exact ensures_bind ensures_bit fun _ _ => ensures_pure trivial
  · exact ensures_pure trivial

theorem ensures_readChroma (profile : Nat) : Ensures (readChroma profile) fun _ => True := by
  rw [readChroma]
  split
  · refine ensures_bind ensures_ue fun chromaFormat _ => ensures_bind (ensures_readSeparatePlanes _) fun _ _ =>
      ensures_bind ensures_ue fun _ _ => ensures_bind ensures_ue fun _ _ => ensures_bind ensures_bit fun _ _ =>
        ensures_bind ensures_bit fun _ _ => ?_
    split
    · exact ensures_bind (ensures_scalingLists _ _) fun _ _ => ensures_pure trivial
    · exact ensures_pure trivial
  · exact ensures_pure trivial

theorem ensures_readPicOrderCnt : Ensures readPicOrderCnt fun _ => True := by
  refine ensures_bind ensures_ue fun picOrderCntType _ => ?_
  split
  · exact ensures_bind ensures_ue fun _ _ => ensures_pure trivial
  · exact ensures_bind ensures_bit fun _ _ => ensures_bind ensures_se fun _ _ => ensures_bind ensures_se fun _ _ =>
      ensures_bind ensures_ue fun count _ => ensures_skipSe count
  · exact ensures_pure trivial

theorem cropUnits_le (chromaArray frameMbsOnly : Nat) :
    (cropUnits chromaArray frameMbsOnly).1 ≤ 2 ∧ (cropUnits chromaArray frameMbsOnly).2 ≤ 4 := by
  unfold cropUnits
  split <;> simp only <;> omega

theorem ensures_readCropping (chromaFormat : Nat) (separatePlanes : Bool) (frameMbsOnly : Nat) :
    Ensures (readCropping chromaFormat separatePlanes frameMbsOnly) fun _ => True := by
  refine ensures_bind ensures_bit fun flag _ => ?_
  split
  · refine ensures_bind ensures_ue fun left hleft => ensures_bind ensures_ue fun right hright =>
      ensures_bind ensures_ue fun top htop => ensures_bind ensures_ue fun bottom hbottom => ?_
    have hunits := cropUnits_le (if separatePlanes = true then 0 else chromaFormat) frameMbsOnly
    have hacross := Nat.mul_le_mul hunits.1 (show left + right ≤ 2 ^ 33 by omega)
    have halong := Nat.mul_le_mul hunits.2 (show top + bottom ≤ 2 ^ 33 by omega)
    refine ensures_bind (ensures_u64 (by omega)) fun across heq => ?_
    subst heq
    refine ensures_bind (ensures_u64 (Nat.lt_of_le_of_lt hacross (by decide))) fun cropX _ => ?_
    refine ensures_bind (ensures_u64 (by omega)) fun along heq => ?_
    subst heq
    exact ensures_bind (ensures_u64 (Nat.lt_of_le_of_lt halong (by decide))) fun cropY _ => ensures_pure trivial
  · exact ensures_pure trivial

/-- Whatever is read, the sizes in macroblocks are those of registers of 32 bits. -/
theorem ensures_readSps : Ensures readSps fun fields => fields.widthMbs ≤ 2 ^ 32 ∧ fields.heightMapUnits ≤ 2 ^ 32 := by
  refine ensures_bind (ensures_bits (by decide)) fun header _ => ?_
  split
  · exact ensures_lift Outcome.safe_nothing fun a ha => by cases ha
  · refine ensures_bind (ensures_bits (by decide)) fun profile _ => ensures_bind (ensures_bits (by decide)) fun _ _ =>
      ensures_bind ensures_ue fun _ _ => ensures_bind (ensures_readChroma profile) fun chroma _ =>
        ensures_bind ensures_ue fun _ _ => ensures_bind ensures_readPicOrderCnt fun _ _ => ensures_bind ensures_ue fun _ _ =>
          ensures_bind ensures_bit fun _ _ => ensures_bind ensures_ue fun width hwidth => ?_
    refine ensures_bind (ensures_u64 (by omega)) fun widthMbs hwidthMbs => ensures_bind ensures_ue fun height hheight => ?_
    refine ensures_bind (ensures_u64 (by omega)) fun heightMapUnits hheightMapUnits => ?_
    have hsizes : widthMbs ≤ 2 ^ 32 ∧ heightMapUnits ≤ 2 ^ 32 := by omega
    have hrest (frameMbsOnly : Nat) : Ensures (do
        let _ ← bit
        let (cropX, cropY) ← readCropping chroma.1 chroma.2 frameMbsOnly
        pure { widthMbs, heightMapUnits, frameMbsOnly, cropX, cropY } : Read SpsFields) fun fields =>
          fields.widthMbs ≤ 2 ^ 32 ∧ fields.heightMapUnits ≤ 2 ^ 32 :=
      ensures_bind ensures_bit fun _ _ => ensures_bind (ensures_readCropping _ _ _) fun _ _ => ensures_pure hsizes
    refine ensures_bind ensures_bit fun frameMbsOnly _ => ?_
    split
    · exact ensures_bind ensures_bit fun _ _ => hrest frameMbsOnly
    · exact hrest frameMbsOnly

theorem safe_u32TryFrom (n : Nat) : (u32TryFrom n).Safe := by
  rw [u32TryFrom]
  split
  · exact Outcome.safe_value n
  · exact Outcome.safe_nothing

theorem safe_checkedSub (n m : Nat) : (checkedSub n m).Safe := by
  rw [checkedSub]
  split
  · exact Outcome.safe_value _
  · exact Outcome.safe_nothing

theorem u64_eq {n : Nat} (h : n < 2 ^ 64) : u64 n = .value n := by
  rw [u64, Outcome.guarded, if_pos h]

theorem SpsFields.dimensions_eq {fields : SpsFields} (hwidth : fields.widthMbs ≤ 2 ^ 32) (hheight : fields.heightMapUnits ≤ 2 ^ 32) :
    fields.dimensions = (checkedSub (fields.widthMbs * 16) fields.cropX).bind fun width =>
      (checkedSub ((2 - fields.frameMbsOnly) * fields.heightMapUnits * 16) fields.cropY).bind fun height =>
        (u32TryFrom width).bind fun width32 => (u32TryFrom height).bind fun height32 =>
          if 0 < width ∧ 0 < height then .value (width32, height32) else .nothing := by
  have hrows : (2 - fields.frameMbsOnly) * fields.heightMapUnits ≤ 2 * 2 ^ 32 := Nat.mul_le_mul (by omega) hheight
  rw [dimensions, u64_eq (by omega), u64_eq (by omega)]
  simp only [Outcome.bind_def, Outcome.value_bind]
  rw [u64_eq (by omega)]
  rfl

theorem safe_dimensions {fields : SpsFields} (hwidth : fields.widthMbs ≤ 2 ^ 32) (hheight : fields.heightMapUnits ≤ 2 ^ 32) :
    fields.dimensions.Safe := by
  rw [SpsFields.dimensions_eq hwidth hheight]
  simp only [Outcome.safe_bind]
  refine ⟨safe_checkedSub _ _, fun _ _ => ⟨safe_checkedSub _ _, fun _ _ => ⟨safe_u32TryFrom _, fun _ _ =>
    ⟨safe_u32TryFrom _, fun _ _ => ?_⟩⟩⟩⟩
  split
  · exact Outcome.safe_value _
  · exact Outcome.safe_nothing

/-- No unit, whatever its bytes, stops the machine. -/
theorem safe_h264SpsDimensions (nal : Bytes) : (h264SpsDimensions nal).Safe := by
  rw [h264SpsDimensions, Outcome.safe_bind]
  refine ⟨(ensures_readSps _).1, fun read hread => ?_⟩
  obtain ⟨hwidth, hheight⟩ := (ensures_readSps _).2 read.1 read.2 hread
  exact safe_dimensions hwidth hheight

theorem safe_videoDimensions (video : Bytes) : (videoDimensions video).Safe := by
  simp only [videoDimensions, Outcome.bind_def, Outcome.safe_bind, annexBNalUnits_eq]
  exact ⟨Outcome.safe_value _, fun _ _ => ⟨Outcome.safe_ofOption _, fun sps _ => safe_h264SpsDimensions sps⟩⟩

end StreamArena.Resolver
