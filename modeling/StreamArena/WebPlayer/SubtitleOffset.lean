import Mathlib.Algebra.Order.Floor.Ring
import Mathlib.Data.Rat.Floor
import StreamArena.Library.Runs

/-! The subtitle offset of the web player, and the native cues it shifts in place
(src/src-ui/player/subtitle-offset.js). -/
namespace StreamArena.WebPlayer.SubtitleOffset
open Runs

def subtitleOffsetMinMs : Int := -30000
def subtitleOffsetMaxMs : Int := 30000

/-- A value as a number, none when it is not a finite one. -/
def normalizeSubtitleOffsetMs (value : Option Rat) : Int :=
  match value with
  | none => 0
  | some parsed => max subtitleOffsetMinMs (min subtitleOffsetMaxMs ⌊parsed + 1 / 2⌋)

structure Times where
  startTime : Rat
  endTime : Rat
  deriving DecidableEq

/-- A native cue: its times, and those it had when it was first shifted. -/
structure Cue where
  times : Times
  base : Option Times
  deriving DecidableEq

/-- The times of a cue under an offset. -/
def Times.shift (base : Times) (offsetSeconds : Rat) : Times where
  startTime := max 0 (base.startTime + offsetSeconds)
  endTime := max (max 0 (base.startTime + offsetSeconds) + 1 / 20) (base.endTime + offsetSeconds)

def Cue.shift (cue : Cue) (offsetSeconds : Rat) : Cue where
  times := (cue.base.getD cue.times).shift offsetSeconds
  base := some (cue.base.getD cue.times)

/-- A track exposes its cues, none while it is disabled; an entry of the list may be empty. -/
abbrev Track (ι : Type*) := Option (List (Option ι))

/-- The cues that a list of tracks exposes. -/
def exposed {ι : Type*} (textTracks : List (Track ι)) : List ι :=
  (textTracks.flatMap fun cues => cues.getD []).filterMap id

/-- The controller, with all the cues there are or will be. -/
structure State (ι : Type*) where
  offsetMs : Int
  hasShiftedNativeCues : Bool
  cue : ι → Cue

namespace State
variable {ι : Type*}

def offsetSeconds (s : State ι) : Rat := s.offsetMs / 1000

/-- Cues are loaded with their own times. -/
def initial (original : ι → Times) : State ι := ⟨0, false, fun i => ⟨original i, none⟩⟩

def markNativeDirtyIfNeeded (s : State ι) : State ι :=
  if s.offsetMs ≠ 0 then { s with hasShiftedNativeCues := true } else s

def applyForSource (s : State ι) (stored : Option Rat) : State ι :=
  { s with offsetMs := normalizeSubtitleOffsetMs stored }.markNativeDirtyIfNeeded

def adjust (s : State ι) (deltaMs : Option Rat) : State ι :=
  let next := normalizeSubtitleOffsetMs (deltaMs.map fun delta => s.offsetMs + delta)
  if next = s.offsetMs then s else { s with offsetMs := next }.markNativeDirtyIfNeeded

def reset (s : State ι) : State ι := if s.offsetMs = 0 then s else { s with offsetMs := 0 }

def applyToNativeTracks [DecidableEq ι] (s : State ι) (textTracks : List (Track ι)) : State ι :=
  if s.offsetMs = 0 ∧ s.hasShiftedNativeCues = false then s
  else
    { s with
      cue := (exposed textTracks).foldl (fun cue i => Function.update cue i ((cue i).shift s.offsetSeconds)) s.cue
      hasShiftedNativeCues := if s.offsetMs = 0 then false else s.hasShiftedNativeCues }

end State

inductive Event (ι : Type*) where
  | applyForSource (stored : Option Rat)
  | adjust (deltaMs : Option Rat)
  | reset
  | applyToNativeTracks (textTracks : List (Track ι))

section cues
variable {ι : Type*} [DecidableEq ι]

def step (s : State ι) : Event ι → State ι
  | .applyForSource stored => s.applyForSource stored
  | .adjust deltaMs => s.adjust deltaMs
  | .reset => s.reset
  | .applyToNativeTracks textTracks => s.applyToNativeTracks textTracks

theorem shift_shift (cue : Cue) (offsetSeconds : Rat) :
    (cue.shift offsetSeconds).shift offsetSeconds = cue.shift offsetSeconds := rfl

/-- A pass shifts every exposed cue, once or more, and no other. -/
theorem foldl_shift (exposed : List ι) (offsetSeconds : Rat) (cue : ι → Cue) (i : ι) :
    exposed.foldl (fun cue i => Function.update cue i ((cue i).shift offsetSeconds)) cue i =
      if i ∈ exposed then (cue i).shift offsetSeconds else cue i := by
  induction exposed generalizing cue with
  | nil => rfl
  | cons j exposed ih =>
    rw [List.foldl_cons, ih]
    by_cases hij : i = j
    · rw [hij, Function.update_self]
      simp [shift_shift]
    · rw [Function.update_of_ne hij]
      simp [hij]

/-- A cue that begins after the start and lasts as long as the shortest shifted one. -/
def Plain (times : Times) : Prop := 0 ≤ times.startTime ∧ times.startTime + 1 / 20 ≤ times.endTime

theorem shift_zero {times : Times} (h : Plain times) : times.shift 0 = times := by
  simp only [Times.shift, add_zero, max_eq_right h.1, max_eq_right h.2]

/-- What the controller knows of the cues. -/
structure Inv (original : ι → Times) (s : State ι) : Prop where
  unshifted : ∀ i, (s.cue i).base = none → (s.cue i).times = original i
  base : ∀ i times, (s.cue i).base = some times → times = original i
  clean : s.hasShiftedNativeCues = false → s.offsetMs = 0 ∧ ∀ i, (s.cue i).times = original i

variable {original : ι → Times} {s : State ι}

omit [DecidableEq ι] in
theorem Inv.getD (hs : Inv original s) (i : ι) : (s.cue i).base.getD (s.cue i).times = original i := by
  cases hbase : (s.cue i).base with
  | none => exact hs.unshifted i hbase
  | some times => exact hs.base i times hbase

/-- A pass that restores the cues sees all that are shifted, and those it sees are plain. -/
def Restores (original : ι → Times) (s : State ι) : Event ι → Prop
  | .applyToNativeTracks textTracks => s.offsetMs = 0 →
      (∀ i ∈ exposed textTracks, Plain (original i)) ∧ ∀ i, i ∉ exposed textTracks → (s.cue i).times = original i
  | _ => True

/-- After a pass the exposed cues have their own times under the current offset, and without
an offset just their own. -/
def Applied (original : ι → Times) (s : State ι) (event : Event ι) : Prop :=
  ∀ textTracks, event = .applyToNativeTracks textTracks → ∀ i ∈ exposed textTracks,
    ((step s event).cue i).times = (original i).shift (step s event).offsetSeconds ∧
      ((step s event).offsetMs = 0 → ((step s event).cue i).times = original i)

omit [DecidableEq ι] in
theorem Inv.mark {offsetMs : Int} (hs : Inv original s) :
    Inv original (State.markNativeDirtyIfNeeded { s with offsetMs }) := by
  unfold State.markNativeDirtyIfNeeded
  split
  · exact ⟨hs.unshifted, hs.base, fun h => by cases h⟩
  · next hzero => exact ⟨hs.unshifted, hs.base, fun h => ⟨not_not.mp hzero, (hs.clean h).2⟩⟩

/-- The times after a pass that is not skipped. -/
theorem Inv.times_apply (hs : Inv original s) (i : ι) {textTracks : List (Track ι)}
    (hruns : ¬(s.offsetMs = 0 ∧ s.hasShiftedNativeCues = false)) :
    (s.applyToNativeTracks textTracks).cue i =
      if i ∈ exposed textTracks then ⟨(original i).shift s.offsetSeconds, some (original i)⟩ else s.cue i := by
  rw [State.applyToNativeTracks, if_neg hruns]
  dsimp only
  rw [foldl_shift, Cue.shift, hs.getD]

theorem Inv.step (hs : Inv original s) {event : Event ι} (hrestores : Restores original s event) :
    Inv original (step s event) := by
  cases event with
  | applyForSource stored => exact hs.mark
  | adjust deltaMs =>
    simp only [SubtitleOffset.step, State.adjust]
    split
    · exact hs
    · exact hs.mark
  | reset =>
    simp only [SubtitleOffset.step, State.reset]
    split
    · exact hs
    · exact ⟨hs.unshifted, hs.base, fun h => ⟨rfl, (hs.clean h).2⟩⟩
  | applyToNativeTracks textTracks =>
    by_cases hskips : s.offsetMs = 0 ∧ s.hasShiftedNativeCues = false
    · simp only [SubtitleOffset.step, State.applyToNativeTracks, if_pos hskips]
      exact hs
    · have htimes := fun i => @Inv.times_apply ι _ original s hs i textTracks hskips
      refine ⟨fun i => ?_, fun i times => ?_, fun hclean => ?_⟩ <;> simp only [SubtitleOffset.step] at *
      · rw [htimes i]
        split
        · exact fun h => by cases h
        · exact hs.unshifted i
      · rw [htimes i]
        split
        · exact fun h => (Option.some.inj h).symm
        · exact hs.base i times
      · have hzero : s.offsetMs = 0 := by
          by_contra hne
          rw [State.applyToNativeTracks, if_neg hskips] at hclean
          simp only [hne, if_false] at hclean
          exact hne (hs.clean hclean).1
        have hoffset : s.offsetSeconds = 0 := by simp [State.offsetSeconds, hzero]
        obtain ⟨hplain, hhidden⟩ := hrestores hzero
        refine ⟨?_, fun i => ?_⟩
        · rw [State.applyToNativeTracks, if_neg hskips]
          exact hzero
        · rw [htimes i]
          split
          · next hin => rw [hoffset, shift_zero (hplain i hin)]
          · next hout => exact hhidden i hout

theorem Inv.applied (hs : Inv original s) {event : Event ι} (hrestores : Restores original s event) : Applied original s event := by
  rintro textTracks rfl i hin
  have hoffset : (SubtitleOffset.step s (.applyToNativeTracks textTracks)).offsetMs = s.offsetMs := by
    simp only [SubtitleOffset.step, State.applyToNativeTracks]
    split <;> rfl
  have hseconds : (SubtitleOffset.step s (.applyToNativeTracks textTracks)).offsetSeconds = s.offsetSeconds := by
    rw [State.offsetSeconds, State.offsetSeconds, hoffset]
  have hnone (hzero : s.offsetMs = 0) : (original i).shift s.offsetSeconds = original i := by
    have hsecondsZero : s.offsetSeconds = 0 := by simp [State.offsetSeconds, hzero]
    rw [hsecondsZero, shift_zero ((hrestores hzero).1 i hin)]
  rw [hseconds, hoffset]
  have htimes : ((SubtitleOffset.step s (.applyToNativeTracks textTracks)).cue i).times = (original i).shift s.offsetSeconds := by
    by_cases hskips : s.offsetMs = 0 ∧ s.hasShiftedNativeCues = false
    · simp only [SubtitleOffset.step, State.applyToNativeTracks, if_pos hskips]
      rw [hnone hskips.1, (hs.clean hskips.2).2]
    · simp only [SubtitleOffset.step]
      rw [hs.times_apply i hskips, if_pos hin]
  exact ⟨htimes, fun hzero => htimes.trans (hnone hzero)⟩

/-- Where every restoring pass sees what is shifted, each pass leaves its cues where the
current offset puts them, whatever happened before. -/
theorem applied_of_restores (original : ι → Times) (events : List (Event ι))
    (heach : Each step (Restores original) (.initial original) events) :
    Each step (Applied original) (.initial original) events := by
  have hinitial : Inv original (State.initial original) :=
    { unshifted := fun _ _ => rfl, base := fun _ _ h => (nomatch h), clean := fun _ => ⟨rfl, fun _ => rfl⟩ }
  have hstep : ∀ (s : State ι) (event : Event ι), Restores original s event → Inv original s → Inv original (step s event) :=
    fun s event hrestores hs => hs.step hrestores
  exact each_imp hstep (fun s event hrestores hs => hs.applied hrestores) hinitial heach

end cues

/-- One cue, from the first second to the second. -/
def oneCue (_ : Fin 1) : Times := ⟨1, 2⟩

theorem applied_oneCue : Each step (Applied oneCue) (.initial oneCue)
    [.adjust (some 250), .applyToNativeTracks [some [some 0]], .reset, .applyToNativeTracks [some [some 0]]] := by
  have hfirst (s : State (Fin 1)) (hoffset : s.offsetMs ≠ 0) : Restores oneCue s (.applyToNativeTracks [some [some 0]]) :=
    fun hzero => absurd hzero hoffset
  have hlast (s : State (Fin 1)) : Restores oneCue s (.applyToNativeTracks [some [some 0]]) := by
    refine fun _ => ⟨fun i _ => ?_, fun i hout => ?_⟩
    · norm_num [Plain, oneCue]
    · rw [Subsingleton.elim i 0] at hout
      exact absurd (by decide) hout
  exact applied_of_restores oneCue _ ⟨trivial, hfirst _ (by decide +kernel), trivial, hlast _, trivial⟩

/-- A cue that is hidden while the offset is taken back keeps it. -/
theorem hidden_cue_keeps_offset :
    ¬∀ (original : Fin 1 → Times) events, Each step (Applied original) (.initial original) events := by
  intro h
  have hlast := h oneCue [.adjust (some 1000), .applyToNativeTracks [some [some 0]], .reset, .applyToNativeTracks [none],
    .applyToNativeTracks [some [some 0]]]
  have hrestored := (hlast.2.2.2.2.1 [some [some 0]] rfl 0 (by decide)).2 (by decide +kernel)
  exact absurd hrestored (by decide +kernel)

end StreamArena.WebPlayer.SubtitleOffset
