import Mathlib
import StreamArena.Library.AsciiText
import StreamArena.Library.GreedyMatching
import StreamArena.Library.KeyedTable

/-! Whether two subtitles were timed alike, and what the subtitles timed alike say of each other's quality:
`subtitle_contents_have_compatible_timing` and `build_english_subtitle_qualities` (src/src/media.rs). -/
namespace StreamArena.Media
open AsciiText KeyedTable

structure EnglishSubtitleCue where
  startMs : UInt64
  endMs : UInt64
  normalizedText : Text
  englishAnchorCount : Nat
  hasSpokenLanguageMarker : Bool
  looksPhonetic : Bool
  deriving DecidableEq

structure EnglishSubtitleContent where
  cues : List EnglishSubtitleCue
  deriving DecidableEq

structure EnglishSubtitleQuality where
  translatedDialogueCues : Nat
  untranslatedDialogueCues : Nat
  cueCount : Nat
  deriving DecidableEq

def alignmentToleranceMs : UInt64 := 2000

def saturatingAdd (a b : UInt64) : UInt64 := if a.toNat + b.toNat < 2 ^ 64 then a + b else .ofNat (2 ^ 64 - 1)

def subtitleCuesAlign (left right : EnglishSubtitleCue) : Bool :=
  left.startMs ≤ saturatingAdd right.endMs alignmentToleranceMs &&
    right.startMs ≤ saturatingAdd left.endMs alignmentToleranceMs

/-- The cues that may be matched: of the same text, which is not too short, at the same time. -/
def cuesMatch (left right : EnglishSubtitleCue) : Bool :=
  4 ≤ byteLength left.normalizedText && left.normalizedText == right.normalizedText && subtitleCuesAlign left right

/-- The loop over the cues on the left, with the cues on the right beside whether they are used. -/
def matchCues (requiredMatches : Nat) : List EnglishSubtitleCue → List (EnglishSubtitleCue × Bool) → Nat → Bool
  | [], _, _ => false
  | leftCue :: leftCues, rightCues, found =>
    match rightCues.findIdx? fun slot => !slot.2 && cuesMatch leftCue slot.1 with
    | none => matchCues requiredMatches leftCues rightCues found
    | some index =>
      if requiredMatches ≤ found + 1 then true
      else matchCues requiredMatches leftCues (rightCues.modify index fun slot => (slot.1, true)) (found + 1)

def subtitleContentsHaveCompatibleTiming (left right : EnglishSubtitleContent) : Bool :=
  let shorterCueCount := min left.cues.length right.cues.length
  if shorterCueCount ≤ 3 then true
  else matchCues (max 3 (min 24 (shorterCueCount / 20))) left.cues (right.cues.map fun cue => (cue, false)) 0

/-- The pairs that are timed alike, each of them both ways, from the entries in the order they come in. -/
def compatiblePairs : List (Int × EnglishSubtitleContent) → List (Int × Int)
  | [] => []
  | left :: rest =>
    (rest.flatMap fun right =>
      if subtitleContentsHaveCompatibleTiming left.2 right.2 = true then [(left.1, right.1), (right.1, left.1)] else []) ++
        compatiblePairs rest

section
variable (entries : List (Int × EnglishSubtitleContent)) (subtitleId : Int)

def alignedCues (cue : EnglishSubtitleCue) : List EnglishSubtitleCue :=
  ((entries.filter fun other => (compatiblePairs entries).contains (subtitleId, other.1)).flatMap fun other => other.2.cues).filter
    fun otherCue => subtitleCuesAlign cue otherCue

def countCue (quality : EnglishSubtitleQuality) (cue : EnglishSubtitleCue) : EnglishSubtitleQuality :=
  if cue.hasSpokenLanguageMarker = true then
    if 2 ≤ cue.englishAnchorCount then { quality with translatedDialogueCues := quality.translatedDialogueCues + 1 }
    else { quality with untranslatedDialogueCues := quality.untranslatedDialogueCues + 1 }
  else if (2 ≤ cue.englishAnchorCount && (alignedCues entries subtitleId cue).any fun otherCue => otherCue.looksPhonetic) = true then
    { quality with translatedDialogueCues := quality.translatedDialogueCues + 1 }
  else if (cue.looksPhonetic && (alignedCues entries subtitleId cue).any fun otherCue => 2 ≤ otherCue.englishAnchorCount) = true then
    { quality with untranslatedDialogueCues := quality.untranslatedDialogueCues + 1 }
  else quality

def qualityOf (content : EnglishSubtitleContent) : EnglishSubtitleQuality :=
  content.cues.foldl (countCue entries subtitleId) ⟨0, 0, content.cues.length⟩

end

/-- The contents as their hash map iterates over them. -/
abbrev Contents := Table Int EnglishSubtitleContent

def buildEnglishSubtitleQualities (contents : Contents) : List (Int × EnglishSubtitleQuality) :=
  contents.rows.map fun entry => (entry.1, qualityOf contents.rows entry.1 entry.2)

theorem subtitleCuesAlign_comm (left right : EnglishSubtitleCue) :
    subtitleCuesAlign left right = subtitleCuesAlign right left := Bool.and_comm _ _

theorem cuesMatch_comm (left right : EnglishSubtitleCue) : cuesMatch left right = cuesMatch right left := by
  rw [cuesMatch, cuesMatch, subtitleCuesAlign_comm, Bool.beq_comm]
  by_cases htext : right.normalizedText = left.normalizedText
  · rw [htext]
  · rw [beq_false_of_ne htext, Bool.and_false, Bool.and_false]

/-- The cues that are still free. -/
def freeCues (slots : List (EnglishSubtitleCue × Bool)) : List EnglishSubtitleCue :=
  (slots.filter fun slot => !slot.2).map Prod.fst

@[simp] theorem freeCues_nil : freeCues [] = [] := rfl

@[simp] theorem freeCues_cons_used (cue : EnglishSubtitleCue) (slots : List (EnglishSubtitleCue × Bool)) :
    freeCues ((cue, true) :: slots) = freeCues slots := rfl

@[simp] theorem freeCues_cons_free (cue : EnglishSubtitleCue) (slots : List (EnglishSubtitleCue × Bool)) :
    freeCues ((cue, false) :: slots) = cue :: freeCues slots := rfl

theorem freeCues_all (cues : List EnglishSubtitleCue) : freeCues (cues.map fun cue => (cue, false)) = cues := by
  induction cues with
  | nil => rfl
  | cons cue cues ih => rw [List.map_cons, freeCues_cons_free, ih]

/-- Using the first free cue that matches takes it out of the free ones. -/
theorem takeOut_freeCues (leftCue : EnglishSubtitleCue) (slots : List (EnglishSubtitleCue × Bool)) :
    GreedyMatching.takeOut (cuesMatch leftCue) (freeCues slots) =
      (slots.findIdx? fun slot => !slot.2 && cuesMatch leftCue slot.1).map fun index =>
        freeCues (slots.modify index fun slot => (slot.1, true)) := by
  induction slots with
  | nil => rfl
  | cons slot slots ih =>
    obtain ⟨cue, used⟩ := slot
    rw [List.findIdx?_cons]
    cases used with
    | true => simp [ih, Function.comp_def]
    | false =>
      rw [freeCues_cons_free, GreedyMatching.takeOut, ih]
      by_cases hmatch : cuesMatch leftCue cue = true
      · simp [hmatch]
      · simp [hmatch, Function.comp_def]

/-- The loop finds out whether the greedy matching is large enough. -/
theorem matchCues_iff {requiredMatches : Nat} (leftCues : List EnglishSubtitleCue) (slots : List (EnglishSubtitleCue × Bool))
    {found : Nat} (h : found < requiredMatches) : matchCues requiredMatches leftCues slots found = true ↔
      requiredMatches ≤ found + GreedyMatching.matched cuesMatch leftCues (freeCues slots) := by
  induction leftCues generalizing slots found with
  | nil =>
    simp [matchCues, GreedyMatching.matched]
    omega
  | cons leftCue leftCues ih =>
    rw [matchCues, GreedyMatching.matched, takeOut_freeCues]
    cases slots.findIdx? fun slot => !slot.2 && cuesMatch leftCue slot.1 with
    | none => exact ih slots h
    | some index =>
      rw [Option.map_some]
      dsimp only
      split
      · simp only [true_iff]
        omega
      · rw [ih _ (by omega), Nat.add_assoc, Nat.add_comm 1]

theorem compatibleTiming_iff (left right : EnglishSubtitleContent) :
    subtitleContentsHaveCompatibleTiming left right = true ↔ min left.cues.length right.cues.length ≤ 3 ∨
      max 3 (min 24 (min left.cues.length right.cues.length / 20)) ≤
        GreedyMatching.matched cuesMatch left.cues right.cues := by
  rw [subtitleContentsHaveCompatibleTiming]
  split
  next h => simp [h]
  next h =>
    rw [matchCues_iff _ _ (by omega), freeCues_all, Nat.zero_add]
    simp [h]

/-- Timing is compared alike from both sides, for the two matchings are of one size. -/
theorem compatibleTiming_comm (left right : EnglishSubtitleContent) :
    subtitleContentsHaveCompatibleTiming left right = subtitleContentsHaveCompatibleTiming right left := by
  have hsize : GreedyMatching.matched cuesMatch left.cues right.cues = GreedyMatching.matched cuesMatch right.cues left.cues := by
    rw [GreedyMatching.matched_comm]
    exact congrArg (GreedyMatching.matched · right.cues left.cues) (funext fun b => funext fun a => cuesMatch_comm a b)
  rw [Bool.eq_iff_iff, compatibleTiming_iff, compatibleTiming_iff, hsize, Nat.min_comm]

/-- The pairs are those of different subtitles timed alike, whatever the order of the entries. -/
theorem mem_compatiblePairs {entries : List (Int × EnglishSubtitleContent)} (h : (entries.map Prod.fst).Nodup) {a b : Int} :
    (a, b) ∈ compatiblePairs entries ↔ a ≠ b ∧ ∃ left right, (a, left) ∈ entries ∧ (b, right) ∈ entries ∧
      subtitleContentsHaveCompatibleTiming left right = true := by
  induction entries with
  | nil => simp [compatiblePairs]
  | cons entry rest ih =>
    obtain ⟨id, content⟩ := entry
    rw [List.map_cons, List.nodup_cons] at h
    have hfresh {other : EnglishSubtitleContent} : (id, other) ∉ rest :=
      fun hmem => h.1 (List.mem_map.mpr ⟨_, hmem, rfl⟩)
    rw [compatiblePairs, List.mem_append, ih h.2, List.mem_flatMap]
    constructor
    · rintro (⟨⟨other, right⟩, hmem, hpair⟩ | ⟨hne, left, right, hleft, hright, htiming⟩)
      · have hne : id ≠ other := fun heq => hfresh (heq ▸ hmem)
        split at hpair
        next htiming =>
          simp only [List.mem_cons, Prod.mk.injEq, List.not_mem_nil, or_false] at hpair
          rcases hpair with ⟨rfl, rfl⟩ | ⟨rfl, rfl⟩
          · exact ⟨hne, content, right, List.mem_cons_self, List.mem_cons_of_mem _ hmem, htiming⟩
          · refine ⟨hne.symm, right, content, List.mem_cons_of_mem _ hmem, List.mem_cons_self, ?_⟩
            rwa [compatibleTiming_comm]
        next => cases hpair
      · exact ⟨hne, left, right, List.mem_cons_of_mem _ hleft, List.mem_cons_of_mem _ hright, htiming⟩
    · rintro ⟨hne, left, right, hleft, hright, htiming⟩
      rcases List.mem_cons.mp hleft with hfirst | hfirst <;> rcases List.mem_cons.mp hright with hsecond | hsecond
      · exact absurd ((congrArg Prod.fst hfirst).trans (congrArg Prod.fst hsecond).symm) hne
      · cases hfirst
        refine .inl ⟨(b, right), hsecond, ?_⟩
        simp [htiming]
      · cases hsecond
        refine .inl ⟨(a, left), hfirst, ?_⟩
        rw [compatibleTiming_comm] at htiming
        simp [htiming]
      · exact .inr ⟨hne, left, right, hfirst, hsecond, htiming⟩

section
variable {entries entries' : List (Int × EnglishSubtitleContent)}

theorem any_alignedCues {subtitleId : Int} {cue : EnglishSubtitleCue} {p : EnglishSubtitleCue → Bool} :
    (alignedCues entries subtitleId cue).any p = true ↔ ∃ other ∈ entries, (subtitleId, other.1) ∈ compatiblePairs entries ∧
      ∃ otherCue ∈ other.2.cues, subtitleCuesAlign cue otherCue = true ∧ p otherCue = true := by
  simp only [alignedCues, List.any_eq_true, List.mem_filter, List.mem_flatMap, List.contains_iff_mem]
  constructor
  · rintro ⟨otherCue, ⟨⟨other, ⟨hmem, hpair⟩, hcue⟩, halign⟩, hp⟩
    exact ⟨other, hmem, hpair, otherCue, hcue, halign, hp⟩
  · rintro ⟨other, hmem, hpair, otherCue, hcue, halign, hp⟩
    exact ⟨otherCue, ⟨⟨other, ⟨hmem, hpair⟩, hcue⟩, halign⟩, hp⟩

theorem any_alignedCues_perm (hperm : entries.Perm entries') (h : (entries.map Prod.fst).Nodup) (subtitleId : Int)
    (cue : EnglishSubtitleCue) (p : EnglishSubtitleCue → Bool) :
    (alignedCues entries subtitleId cue).any p = (alignedCues entries' subtitleId cue).any p := by
  have h' : (entries'.map Prod.fst).Nodup := (hperm.map _).nodup_iff.mp h
  rw [Bool.eq_iff_iff]
  simp only [any_alignedCues, mem_compatiblePairs h, mem_compatiblePairs h', hperm.mem_iff]

theorem qualityOf_perm (hperm : entries.Perm entries') (h : (entries.map Prod.fst).Nodup) (subtitleId : Int)
    (content : EnglishSubtitleContent) : qualityOf entries subtitleId content = qualityOf entries' subtitleId content := by
  have hcount : countCue entries subtitleId = countCue entries' subtitleId := by
    funext quality cue
    simp only [countCue, any_alignedCues_perm hperm h]
  rw [qualityOf, qualityOf, hcount]

end

theorem map_fst_qualities (contents : Contents) :
    (buildEnglishSubtitleQualities contents).map Prod.fst = contents.rows.map Prod.fst := by
  rw [buildEnglishSubtitleQualities, List.map_map]
  rfl

/-- Timing is compared alike from both sides, so that the qualities are the same in every order of the contents. -/
theorem qualities_unordered :
    (∀ left right, subtitleContentsHaveCompatibleTiming left right = subtitleContentsHaveCompatibleTiming right left) ∧
      ∀ contents contents' : Contents, contents.rows.Perm contents'.rows → ∀ subtitleId,
        (buildEnglishSubtitleQualities contents).lookup subtitleId =
          (buildEnglishSubtitleQualities contents').lookup subtitleId := by
  refine ⟨compatibleTiming_comm, fun contents contents' hperm subtitleId => ?_⟩
  have hsame : (buildEnglishSubtitleQualities contents).Perm (buildEnglishSubtitleQualities contents') := by
    have hquality (entry : Int × EnglishSubtitleContent) :
        (entry.1, qualityOf contents.rows entry.1 entry.2) = (entry.1, qualityOf contents'.rows entry.1 entry.2) := by
      rw [qualityOf_perm hperm contents.nodup]
    rw [buildEnglishSubtitleQualities, funext hquality]
    exact hperm.map _
  have hnodup : ((buildEnglishSubtitleQualities contents).map Prod.fst).Nodup := by
    rw [map_fst_qualities]
    exact contents.nodup
  have hnodup' : ((buildEnglishSubtitleQualities contents').map Prod.fst).Nodup := by
    rw [map_fst_qualities]
    exact contents'.nodup
  apply Option.ext
  intro quality
  rw [lookup_eq_some_iff hnodup, lookup_eq_some_iff hnodup', hsame.mem_iff]

end StreamArena.Media
