import Mathlib
import StreamArena.Resolver.SpsDimensions

/-! How a sequence parameter set is written (H.264, 7.3.2.1.1), the picture it stands for, and that this picture is
what is read from it. -/
namespace StreamArena.Resolver
open BitCodes Reader BitReader

abbrev Ue := { n : Nat // n < 2 ^ 32 - 1 }
abbrev Se := { v : Int // v.natAbs < 2 ^ 31 }
abbrev DeltaScale := { v : Int // -128 ≤ v ∧ v ≤ 127 }

inductive PicOrderCnt where
  | type0 (log2MaxLsb : Ue)
  | type1 (deltaAlwaysZero : Bool) (offsetForNonRefPic offsetForTopToBottomField : Se) (offsetForRefFrame : List Se)
      (length_lt : offsetForRefFrame.length < 2 ^ 32 - 1)
  | type2

structure FrameCrop where
  left : Ue
  right : Ue
  top : Ue
  bottom : Ue

/-- The syntax elements. Those that a profile or another element leaves out are not written. -/
structure SpsElements where
  refIdc : Fin 4
  profile : UInt8
  flagsAndLevel : Fin 65536
  id : Ue
  chromaFormat : Fin 4
  separatePlanes : Bool
  bitDepthLuma : Ue
  bitDepthChroma : Ue
  transformBypass : Bool
  scalingMatrix : Option (Nat → Option (Nat → DeltaScale))
  log2MaxFrameNum : Ue
  picOrderCnt : PicOrderCnt
  maxNumRefFrames : Ue
  gapsAllowed : Bool
  picWidthInMbsMinus1 : Ue
  picHeightInMapUnitsMinus1 : Ue
  frameMbsOnly : Bool
  mbAdaptive : Bool
  direct8x8 : Bool
  crop : Option FrameCrop
  vui : List Bool

/-- The bits of a scaling list, whose elements are written while the next scale is not zero. -/
def scalingListBits : Int → Int → List DeltaScale → List Bool
  | _, _, [] => []
  | lastScale, nextScale, delta :: deltas =>
    if nextScale ≠ 0 then
      signed delta.val ++ scalingListBits
        (if (lastScale + delta.val + 256) % 256 = 0 then lastScale else (lastScale + delta.val + 256) % 256)
        ((lastScale + delta.val + 256) % 256) deltas
    else scalingListBits lastScale nextScale deltas

def scalingMatrixBits (lists : Nat → Option (Nat → DeltaScale)) : Nat → Nat → List Bool
  | 0, _ => []
  | more + 1, list =>
    (match lists list with
      | none => [false]
      | some deltas => true :: scalingListBits 8 8 ((List.range (if list < 6 then 16 else 64)).map deltas)) ++
      scalingMatrixBits lists more (list + 1)

def PicOrderCnt.bits : PicOrderCnt → List Bool
  | type0 log2MaxLsb => unsigned 0 ++ unsigned log2MaxLsb.val
  | type1 deltaAlwaysZero offsetForNonRefPic offsetForTopToBottomField offsetForRefFrame _ =>
    unsigned 1 ++ (deltaAlwaysZero :: (signed offsetForNonRefPic.val ++ (signed offsetForTopToBottomField.val ++
      (unsigned offsetForRefFrame.length ++ offsetForRefFrame.flatMap fun offset => signed offset.val))))
  | type2 => unsigned 2

def FrameCrop.bits (crop : FrameCrop) : List Bool :=
  unsigned crop.left.val ++ (unsigned crop.right.val ++ (unsigned crop.top.val ++ unsigned crop.bottom.val))

namespace SpsElements
variable (sps : SpsElements)

def hasChromaFormat : Bool := [100, 110, 122, 244, 44, 83, 86, 118, 128, 138, 139, 134, 135].contains sps.profile.toNat

def chromaBits : List Bool :=
  if sps.hasChromaFormat = true then
    unsigned sps.chromaFormat.val ++ ((if sps.chromaFormat = 3 then [sps.separatePlanes] else []) ++
      (unsigned sps.bitDepthLuma.val ++ (unsigned sps.bitDepthChroma.val ++ (sps.transformBypass ::
        match sps.scalingMatrix with
        | none => [false]
        | some lists => true :: scalingMatrixBits lists (if sps.chromaFormat = 3 then 12 else 8) 0))))
  else []

/-- What is written up to the cropping, and all of it. -/
def sizeBits : List Bool :=
  binary 8 sps.profile.toNat ++ (binary 16 sps.flagsAndLevel.val ++ (unsigned sps.id.val ++ (sps.chromaBits ++
    (unsigned sps.log2MaxFrameNum.val ++ (sps.picOrderCnt.bits ++ (unsigned sps.maxNumRefFrames.val ++ (sps.gapsAllowed ::
      (unsigned sps.picWidthInMbsMinus1.val ++ (unsigned sps.picHeightInMapUnitsMinus1.val ++ (sps.frameMbsOnly ::
        ((if sps.frameMbsOnly = true then [] else [sps.mbAdaptive]) ++ (sps.direct8x8 ::
          match sps.crop with
          | none => [false]
          | some crop => true :: crop.bits))))))))))))

def bits : List Bool := sps.sizeBits ++ sps.vui

def payload : Bytes := pack (sps.bits ++ true :: List.replicate (7 - sps.bits.length % 8) false)

def header : UInt8 := .ofNat (sps.refIdc.val * 32 + 7)

def nal : Bytes := sps.header :: withPrevention 0 sps.payload

/-! The picture, in the words of the standard. -/

def chromaArrayType : Nat :=
  if sps.hasChromaFormat = true then
    if sps.chromaFormat = 3 ∧ sps.separatePlanes = true then 0 else sps.chromaFormat.val
  else 1

def subWidthC : Nat := if sps.chromaArrayType = 3 then 1 else 2
def subHeightC : Nat := if sps.chromaArrayType = 1 then 2 else 1

def cropUnitX : Nat := if sps.chromaArrayType = 0 then 1 else sps.subWidthC

def cropUnitY : Nat :=
  if sps.chromaArrayType = 0 then 2 - sps.frameMbsOnly.toNat else sps.subHeightC * (2 - sps.frameMbsOnly.toNat)

def picWidthInSamples : Nat := (sps.picWidthInMbsMinus1.val + 1) * 16
def frameHeightInSamples : Nat := (2 - sps.frameMbsOnly.toNat) * (sps.picHeightInMapUnitsMinus1.val + 1) * 16

def cropX : Nat := (sps.crop.elim 0 fun crop => sps.cropUnitX * (crop.left.val + crop.right.val))
def cropY : Nat := (sps.crop.elim 0 fun crop => sps.cropUnitY * (crop.top.val + crop.bottom.val))

def croppedWidth : Nat := sps.picWidthInSamples - sps.cropX
def croppedHeight : Nat := sps.frameHeightInSamples - sps.cropY

end SpsElements

/-- A set whose cropping leaves something of the picture. -/
structure Sps extends SpsElements where
  cropX_lt : toSpsElements.cropX < toSpsElements.picWidthInSamples
  cropY_lt : toSpsElements.cropY < toSpsElements.frameHeightInSamples

namespace BitReader

theorem decodes_flag {α : Type} {f : Nat → Read α} {code : List Bool} {a : α} (b : Bool)
    (hf : Decodes remaining (f b.toNat) code a) : Decodes remaining (bit >>= f) (b :: code) a :=
  (decodes_bind (decodes_bit b) hf : Decodes remaining (bit >>= fun b => f b) ([b] ++ code) a)

theorem decodes_nextScale {last next : Int} (hnext : next ≠ 0) (hlast : 0 ≤ last ∧ last < 256) (delta : DeltaScale) :
    Decodes remaining (nextScale last next) (signed delta.val) ((last + delta.val + 256) % 256) := by
  obtain ⟨delta, hlow, hhigh⟩ := delta
  have hsum : i64 (last + delta) = .value (last + delta) := by rw [i64, Outcome.guarded, if_pos (by omega)]
  have hsum' : i64 (last + delta + 256) = .value (last + delta + 256) := by rw [i64, Outcome.guarded, if_pos (by omega)]
  have hmod : (last + delta + 256).tmod 256 = (last + delta + 256) % 256 := Int.tmod_eq_emod_of_nonneg (by omega)
  rw [nextScale, if_pos hnext]
  have hdelta : delta.natAbs < 2 ^ 31 := by omega
  refine decodes_bind_last (decodes_se (v := delta) hdelta) (decodes_bind_nil (decodes_lift hsum) (decodes_bind_nil (decodes_lift hsum') ?_))
  rw [hmod]
  exact decodes_pure _

/-- The elements of a scaling list are read as long as they are written. -/
theorem decodes_scalingTurns (deltas : List DeltaScale) {last next : Int} (hlast : 0 ≤ last ∧ last < 256) :
    Decodes remaining (scalingTurns deltas.length last next) (scalingListBits last next deltas) () := by
  induction deltas generalizing last next with
  | nil => exact decodes_pure ()
  | cons delta deltas ih =>
    rw [scalingListBits, List.length_cons, scalingTurns]
    split
    · next hnext =>
      refine decodes_bind (decodes_nextScale hnext hlast delta) (ih ?_)
      split <;> omega
    · next hnext =>
      have hzero : next = 0 := not_not.mp hnext
      refine decodes_bind_nil (a := next) ?_ ?_
      · rw [nextScale, if_neg hnext]
        exact decodes_pure next
      · rw [if_pos hzero]
        exact ih hlast

theorem decodes_scalingLists (lists : Nat → Option (Nat → DeltaScale)) (more list : Nat) :
    Decodes remaining (scalingLists more list) (scalingMatrixBits lists more list) () := by
  induction more generalizing list with
  | zero => exact decodes_pure ()
  | succ more ih =>
    rw [scalingMatrixBits, scalingLists]
    cases lists list with
    | none => exact decodes_flag false (ih (list + 1))
    | some deltas =>
      have hturns := @decodes_scalingTurns ((List.range (if list < 6 then 16 else 64)).map deltas) 8 8 (by decide)
      rw [List.length_map, List.length_range] at hturns
      exact decodes_flag true (decodes_bind hturns (ih (list + 1)))

theorem decodes_skipSe (offsets : List Se) :
    Decodes remaining (skipSe offsets.length) (offsets.flatMap fun offset => signed offset.val) () := by
  induction offsets with
  | nil => exact decodes_pure ()
  | cons offset offsets ih =>
    rw [List.flatMap_cons, List.length_cons, skipSe]
    exact decodes_bind (decodes_se offset.2) ih

end BitReader

theorem decodes_readPicOrderCnt (picOrderCnt : PicOrderCnt) :
    Decodes remaining readPicOrderCnt picOrderCnt.bits () := by
  cases picOrderCnt with
  | type0 log2MaxLsb =>
    exact decodes_bind (decodes_ue (by decide)) (decodes_bind_last (decodes_ue log2MaxLsb.2) (decodes_pure ()))
  | type1 deltaAlwaysZero nonRef topToBottom offsets hlength =>
    exact decodes_bind (decodes_ue (by decide)) (decodes_flag deltaAlwaysZero (decodes_bind (decodes_se nonRef.2)
      (decodes_bind (decodes_se topToBottom.2) (decodes_bind (decodes_ue hlength) (decodes_skipSe offsets)))))
  | type2 => exact decodes_bind_last (decodes_ue (by decide)) (decodes_pure ())

section
variable (sps : SpsElements)

/-- What the reader takes the chroma format and the separate planes for. -/
def SpsElements.chroma : Nat × Bool :=
  if sps.hasChromaFormat = true then (sps.chromaFormat.val, decide (sps.chromaFormat = 3) && sps.separatePlanes) else (1, false)

theorem decodes_readChroma : Decodes remaining (readChroma sps.profile.toNat) sps.chromaBits sps.chroma := by
  have hprofile : sps.profile.toNat ∈ highProfiles ↔ sps.hasChromaFormat = true := by
    rw [SpsElements.hasChromaFormat, List.contains_iff_mem, highProfiles]
  rw [readChroma, SpsElements.chromaBits, SpsElements.chroma]
  by_cases hhigh : sps.hasChromaFormat = true
  · have hformat : sps.chromaFormat.val < 2 ^ 32 - 1 := sps.chromaFormat.isLt.trans (by decide)
    have hthree : sps.chromaFormat.val = 3 ↔ sps.chromaFormat = 3 := ⟨fun h => Fin.ext h, fun h => by rw [h]; rfl⟩
    have hplanes : Decodes remaining (readSeparatePlanes sps.chromaFormat.val)
        (if sps.chromaFormat = 3 then [sps.separatePlanes] else []) (decide (sps.chromaFormat = 3) && sps.separatePlanes) := by
      rw [readSeparatePlanes]
      by_cases h3 : sps.chromaFormat = 3
      · rw [if_pos (hthree.mpr h3), if_pos h3, decide_eq_true h3, Bool.true_and]
        refine decodes_flag sps.separatePlanes ?_
        cases sps.separatePlanes <;> exact decodes_pure _
      · rw [if_neg (fun h => h3 (hthree.mp h)), if_neg h3, decide_eq_false h3, Bool.false_and]
        exact decodes_pure false
    rw [if_pos (hprofile.mpr hhigh), if_pos hhigh, if_pos hhigh]
    refine decodes_bind (decodes_ue hformat) (decodes_bind hplanes (decodes_bind (decodes_ue sps.bitDepthLuma.2)
      (decodes_bind (decodes_ue sps.bitDepthChroma.2) (decodes_flag sps.transformBypass ?_))))
    simp only [hthree]
    cases sps.scalingMatrix with
    | none => exact decodes_flag false (decodes_pure _)
    | some lists => exact decodes_flag true (decodes_bind_last (decodes_scalingLists lists _ 0) (decodes_pure _))
  · rw [if_neg (fun h => hhigh (hprofile.mp h)), if_neg hhigh, if_neg hhigh]
    exact decodes_pure (1, false)

theorem cropUnits_eq : cropUnits (if sps.chroma.2 = true then 0 else sps.chroma.1) sps.frameMbsOnly.toNat =
    (sps.cropUnitX, sps.cropUnitY) := by
  have harray : (if sps.chroma.2 = true then 0 else sps.chroma.1) = sps.chromaArrayType := by
    rw [SpsElements.chroma, SpsElements.chromaArrayType]
    split
    · simp
    · rfl
  have hle : sps.chromaArrayType < 4 := by
    rw [SpsElements.chromaArrayType]
    split
    · split
      · decide
      · exact sps.chromaFormat.isLt
    · decide
  rw [harray, SpsElements.cropUnitX, SpsElements.cropUnitY, SpsElements.subWidthC, SpsElements.subHeightC]
  interval_cases sps.chromaArrayType <;> simp [cropUnits]

theorem cropUnitX_le : sps.cropUnitX ≤ 2 := by
  have hle := (cropUnits_le (if sps.chroma.2 = true then 0 else sps.chroma.1) sps.frameMbsOnly.toNat).1
  rwa [cropUnits_eq] at hle

theorem cropUnitY_le : sps.cropUnitY ≤ 4 := by
  have hle := (cropUnits_le (if sps.chroma.2 = true then 0 else sps.chroma.1) sps.frameMbsOnly.toNat).2
  rwa [cropUnits_eq] at hle

theorem decodes_readCropping : Decodes remaining (readCropping sps.chroma.1 sps.chroma.2 sps.frameMbsOnly.toNat)
    (match sps.crop with
      | none => [false]
      | some crop => true :: crop.bits) (sps.cropX, sps.cropY) := by
  have hunits := cropUnits_eq sps
  have hunitX := cropUnitX_le sps
  have hunitY := cropUnitY_le sps
  rw [SpsElements.cropX, SpsElements.cropY]
  cases hcrop : sps.crop with
  | none => exact decodes_flag false (decodes_pure (0, 0))
  | some crop =>
    have hleft := crop.left.2
    have hright := crop.right.2
    have htop := crop.top.2
    have hbottom := crop.bottom.2
    have hacross := Nat.mul_le_mul hunitX (show crop.left.val + crop.right.val ≤ 2 ^ 33 by omega)
    have halong := Nat.mul_le_mul hunitY (show crop.top.val + crop.bottom.val ≤ 2 ^ 33 by omega)
    refine decodes_flag true ?_
    refine decodes_bind (decodes_ue hleft) (decodes_bind (decodes_ue hright) (decodes_bind (decodes_ue htop)
      (decodes_bind_last (decodes_ue hbottom) ?_)))
    simp only [hunits]
    refine decodes_bind_nil (decodes_lift (u64_eq (by omega))) ?_
    refine decodes_bind_nil (decodes_lift (u64_eq (Nat.lt_of_le_of_lt hacross (by decide)))) ?_
    refine decodes_bind_nil (decodes_lift (u64_eq (by omega))) ?_
    exact decodes_bind_nil (decodes_lift (u64_eq (Nat.lt_of_le_of_lt halong (by decide)))) (decodes_pure _)

/-- What the reader makes of the elements. -/
def SpsElements.fields : SpsFields where
  widthMbs := sps.picWidthInMbsMinus1.val + 1
  heightMapUnits := sps.picHeightInMapUnitsMinus1.val + 1
  frameMbsOnly := sps.frameMbsOnly.toNat
  cropX := sps.cropX
  cropY := sps.cropY

theorem field_header : field sps.header.toNat 0 5 = 7 := by
  have hrefIdc := sps.refIdc.isLt
  have hheader : sps.refIdc.val * 32 + 7 < 256 := by omega
  rw [SpsElements.header, UInt8.toNat_ofNat_of_lt' hheader, field]
  omega

/-- The elements are read one after another as they were written. -/
theorem decodes_readSps : Decodes remaining readSps (binary 8 sps.header.toNat ++ sps.sizeBits) sps.fields := by
  have hwidth := sps.picWidthInMbsMinus1.2
  have hheight := sps.picHeightInMapUnitsMinus1.2
  have hheader : ¬ field sps.header.toNat 0 5 ≠ 7 := fun h => h (field_header sps)
  have hrest : Decodes remaining (do
      let _ ← bit
      let crop ← readCropping sps.chroma.1 sps.chroma.2 sps.frameMbsOnly.toNat
      pure ⟨sps.picWidthInMbsMinus1.val + 1, sps.picHeightInMapUnitsMinus1.val + 1, sps.frameMbsOnly.toNat, crop.1, crop.2⟩ :
        Read SpsFields)
      (sps.direct8x8 :: match sps.crop with
        | none => [false]
        | some crop => true :: crop.bits) sps.fields :=
    decodes_flag sps.direct8x8 (decodes_bind_last (decodes_readCropping sps) (decodes_pure _))
  rw [readSps, SpsElements.sizeBits]
  refine decodes_bind (decodes_bits (by decide) (UInt8.toNat_lt _)) ?_
  rw [if_neg hheader]
  refine decodes_bind (decodes_bits (by decide) (UInt8.toNat_lt _)) (decodes_bind (decodes_bits (by decide) sps.flagsAndLevel.isLt)
    (decodes_bind (decodes_ue sps.id.2) (decodes_bind (decodes_readChroma sps) (decodes_bind (decodes_ue sps.log2MaxFrameNum.2)
      (decodes_bind (decodes_readPicOrderCnt sps.picOrderCnt) (decodes_bind (decodes_ue sps.maxNumRefFrames.2)
        (decodes_flag sps.gapsAllowed (decodes_bind (decodes_ue hwidth) ?_))))))))
  refine decodes_bind_nil (decodes_lift (u64_eq (by omega))) (decodes_bind (decodes_ue hheight) ?_)
  refine decodes_bind_nil (decodes_lift (u64_eq (by omega))) (decodes_flag sps.frameMbsOnly ?_)
  cases hframe : sps.frameMbsOnly with
  | false =>
    rw [hframe] at hrest
    exact decodes_flag sps.mbAdaptive hrest
  | true =>
    rw [hframe] at hrest
    exact hrest

theorem flatMap_payload : sps.payload.flatMap byteBits = sps.bits ++ true :: List.replicate (7 - sps.bits.length % 8) false := by
  apply flatMap_pack
  rw [List.length_append, List.length_cons, List.length_replicate]
  omega

/-- The stop bit is in the last byte, so this is not zero. -/
theorem payload_ends : ∃ front last, sps.payload = front ++ [last] ∧ last ≠ 0 := by
  have hbits := flatMap_payload sps
  have hlength := congrArg List.length hbits
  rw [length_flatMap_byteBits, List.length_append, List.length_cons, List.length_replicate] at hlength
  rcases List.eq_nil_or_concat' sps.payload with hnil | ⟨front, last, heq⟩
  · rw [hnil, List.length_nil] at hlength
    omega
  · refine ⟨front, last, heq, fun hzero => ?_⟩
    rw [heq, List.length_append, List.length_singleton] at hlength
    have hstop : (sps.payload.flatMap byteBits)[sps.bits.length]? = some true := by
      rw [hbits, List.getElem?_append_right le_rfl, Nat.sub_self]
      rfl
    have hpast : (front.flatMap byteBits).length ≤ sps.bits.length := by
      rw [length_flatMap_byteBits]
      omega
    have hlast : byteBits 0 = List.replicate 8 false := by decide
    rw [heq, hzero, List.flatMap_append, List.flatMap_singleton, List.getElem?_append_right hpast, hlast,
      List.getElem?_replicate] at hstop
    split at hstop <;> cases hstop

theorem header_ne : sps.header ≠ 0 := by
  intro hzero
  have hfield := field_header sps
  rw [hzero] at hfield
  cases hfield

/-- The set as a unit of a stream. -/
def SpsElements.nalUnit : NalUnit where
  bytes := sps.nal
  ends := by
    obtain ⟨front, last, heq, hlast⟩ := @withPrevention_ends 0 _ (payload_ends sps)
    exact ⟨sps.header :: front, last, by rw [SpsElements.nal, heq]; rfl, hlast⟩
  noStartCode := not_infix_cons (header_ne sps) (noStartCode_withPrevention (Nat.zero_le 2) sps.payload)

theorem remaining_nal : (BitReader.new sps.nal).remaining = (binary 8 sps.header.toNat ++ sps.sizeBits) ++
    (sps.vui ++ true :: List.replicate (7 - sps.bits.length % 8) false) := by
  have hread : withoutPrevention 0 sps.nal = sps.header :: sps.payload := by
    have hfirst : ¬(2 ≤ 0 ∧ sps.header = 3) := by simp
    rw [SpsElements.nal, withoutPrevention, if_neg hfirst, if_neg (header_ne sps),
      withoutPrevention_withPrevention (Nat.zero_le 2)]
  rw [remaining_new, hread, List.flatMap_cons, flatMap_payload, SpsElements.bits]
  simp [byteBits]

end

theorem checkedSub_eq {n m : Nat} (h : m < n) : checkedSub n m = .value (n - m) := by
  rw [checkedSub, if_pos h.le]

theorem Sps.dimensions_fields (sps : Sps) : sps.fields.dimensions =
    if sps.croppedWidth < 2 ^ 32 ∧ sps.croppedHeight < 2 ^ 32 then .value (sps.croppedWidth, sps.croppedHeight) else .nothing := by
  have hwidth : sps.fields.widthMbs ≤ 2 ^ 32 := by
    have hlt := sps.picWidthInMbsMinus1.2
    simp only [SpsElements.fields]
    omega
  have hheight : sps.fields.heightMapUnits ≤ 2 ^ 32 := by
    have hlt := sps.picHeightInMapUnitsMinus1.2
    simp only [SpsElements.fields]
    omega
  have hleft : 0 < sps.croppedWidth ∧ 0 < sps.croppedHeight := ⟨Nat.sub_pos_of_lt sps.cropX_lt, Nat.sub_pos_of_lt sps.cropY_lt⟩
  have hacross : checkedSub (sps.fields.widthMbs * 16) sps.fields.cropX = .value sps.croppedWidth := checkedSub_eq sps.cropX_lt
  have halong : checkedSub ((2 - sps.fields.frameMbsOnly) * sps.fields.heightMapUnits * 16) sps.fields.cropY =
      .value sps.croppedHeight := checkedSub_eq sps.cropY_lt
  rw [SpsFields.dimensions_eq hwidth hheight, hacross, halong, Outcome.value_bind, Outcome.value_bind, u32TryFrom, u32TryFrom]
  simp only [if_pos hleft]
  by_cases hw : sps.croppedWidth < 2 ^ 32 <;> by_cases hh : sps.croppedHeight < 2 ^ 32 <;> simp only [hw, hh, if_true, if_false,
    and_self, and_true, and_false, Outcome.value_bind, Outcome.nothing_bind]

theorem h264SpsDimensions_nal (sps : Sps) : h264SpsDimensions sps.nal =
    if sps.croppedWidth < 2 ^ 32 ∧ sps.croppedHeight < 2 ^ 32 then .value (sps.croppedWidth, sps.croppedHeight) else .nothing := by
  obtain ⟨reader, hread, -⟩ := decodes_readSps sps.toSpsElements (BitReader.new sps.nal) _ (remaining_nal sps.toSpsElements)
  rw [h264SpsDimensions, hread, Outcome.value_bind, sps.dimensions_fields]

def NalUnit.unitType (unit : NalUnit) : Nat := unit.bytes.head?.elim 0 fun byte => field byte.toNat 0 5

theorem any_isSps (unit : NalUnit) : (unit.bytes.head?.any fun byte => field byte.toNat 0 5 == 7) = (unit.unitType == 7) := by
  rw [NalUnit.unitType]
  cases unit.bytes.head? <;> rfl

/-- The first set of a stream is found. -/
theorem videoDimensions_annexB {before after : List (Nat × NalUnit)} (hbefore : ∀ unit ∈ before, unit.2.unitType ≠ 7)
    (zeros trailing : Nat) (sps : SpsElements) : videoDimensions (annexB (before ++ (zeros, sps.nalUnit) :: after) trailing) =
      h264SpsDimensions sps.nal := by
  have hfind : ((before ++ (zeros, sps.nalUnit) :: after).map fun unit => unit.2.bytes).find?
      (fun nal => nal.head?.any fun byte => field byte.toNat 0 5 == 7) = some sps.nal := by
    have htype : (sps.nalUnit.unitType == 7) = true := by
      have hheader := field_header sps
      simpa [NalUnit.unitType, SpsElements.nalUnit, SpsElements.nal] using hheader
    induction before with
    | nil =>
      rw [List.nil_append, List.map_cons, List.find?_cons_of_pos]
      · rfl
      · rw [any_isSps, htype]
    | cons unit before ih =>
      have hother := hbefore unit List.mem_cons_self
      rw [List.cons_append, List.map_cons, List.find?_cons_of_neg]
      · exact ih fun u hu => hbefore u (List.mem_cons_of_mem _ hu)
      · rw [any_isSps]
        simpa using hother
  rw [videoDimensions, annexBNalUnits_annexB]
  simp only [Outcome.bind_def, Outcome.value_bind]
  rw [hfind]
  rfl

section

private def wideSps : Sps where
  refIdc := 3
  profile := 66
  flagsAndLevel := 40
  id := ⟨0, by decide⟩
  chromaFormat := 1
  separatePlanes := false
  bitDepthLuma := ⟨0, by decide⟩
  bitDepthChroma := ⟨0, by decide⟩
  transformBypass := false
  scalingMatrix := none
  log2MaxFrameNum := ⟨0, by decide⟩
  picOrderCnt := .type2
  maxNumRefFrames := ⟨1, by decide⟩
  gapsAllowed := false
  picWidthInMbsMinus1 := ⟨2 ^ 28 - 1, by decide⟩
  picHeightInMapUnitsMinus1 := ⟨0, by decide⟩
  frameMbsOnly := true
  mbAdaptive := false
  direct8x8 := true
  crop := none
  vui := [false]
  cropX_lt := by decide
  cropY_lt := by decide

end

end StreamArena.Resolver
