import Mathlib
import StreamArena.LiveHls.Playlist

/-! What the cap at 1080p leaves of a master playlist, as a player pairs its lines. -/
namespace StreamArena.LiveHls.HeightCap
open AsciiText

inductive LineKind where
  | streamInf | iFrame | uri | other
  deriving DecidableEq

/-- What a line of a master playlist is to a player: a blank line or a comment is neither tag nor URI. -/
def lineKind (line : Text) : LineKind :=
  if startsWith (trimStart line) "#EXT-X-STREAM-INF".toList then .streamInf
  else if startsWith (trimStart line) "#EXT-X-I-FRAME-STREAM-INF".toList then .iFrame
  else if !(trimStart line).isEmpty && !startsWith (trimStart line) ['#'] then .uri
  else .other

abbrev tall (line : Text) : Bool := capExternalEmbedMasterTo1080p.tooHigh line

/-- Some variant is not known to be above 1080p. -/
def hasKeepable (lines : List Text) : Bool := lines.any fun line => lineKind line == .streamInf && !tall line

/-- The variants as a player pairs them: a tag and the next line that is a URI. -/
def variants : Option Text → List Text → List (Text × Text)
  | _, [] => []
  | pending, line :: rest =>
    match lineKind line with
    | .streamInf => variants (some line) rest
    | .uri => (pending.map fun tag => (tag, line)).toList ++ variants none rest
    | .iFrame | .other => variants pending rest

def fitting (pairs : List (Text × Text)) : List (Text × Text) := pairs.filter fun pair => !tall pair.1

def iFrames (lines : List Text) : List Text := lines.filter fun line => lineKind line == .iFrame

/-- The lines without the variants above 1080p, a tag and its URI each. -/
def lessTall : Bool → List Text → List Text
  | _, [] => []
  | tallPending, line :: rest =>
    match lineKind line with
    | .streamInf => if tall line then lessTall true rest else line :: lessTall false rest
    | .iFrame => if tall line then lessTall tallPending rest else line :: lessTall tallPending rest
    | .uri => if tallPending then lessTall false rest else line :: lessTall false rest
    | .other => line :: lessTall tallPending rest

/-- What the cap promises: the variants that fit unless none does, the I-frame lines that fit, and every
other line where it was. -/
structure Capped (lines out : List Text) : Prop where
  variants : variants none out =
    if fitting (variants none lines) = [] then HeightCap.variants none lines else fitting (HeightCap.variants none lines)
  iFrames : iFrames out =
    if hasKeepable lines then (HeightCap.iFrames lines).filter fun line => !tall line else HeightCap.iFrames lines
  others : out = if hasKeepable lines then lessTall false lines else lines

/-- Between the tag of a variant above 1080p and its URI stands a blank line or a comment: after it
the code no longer drops the URI. -/
def parted : Bool → Bool → List Text → Bool
  | _, _, [] => false
  | tallPending, dropNextUri, line :: rest =>
    match lineKind line with
    | .streamInf => parted (tall line) (tall line) rest
    | .iFrame => parted tallPending dropNextUri rest
    | .uri => tallPending && !dropNextUri || parted false false rest
    | .other => parted tallPending false rest

/-- How many URIs without a tag of their own come after a tag without a URI of its own, once only variants above
1080p stood between them. -/
def adopted : Bool → Option Text → List Text → Nat
  | _, _, [] => 0
  | stale, pending, line :: rest =>
    match lineKind line with
    | .streamInf =>
      if tall line then adopted (stale || pending.any fun tag => !tall tag) (some line) rest
      else adopted false (some line) rest
    | .uri =>
      match pending with
      | some tag => adopted (stale && tall tag) none rest
      | none => (if stale then 1 else 0) + adopted false none rest
    | .iFrame | .other => adopted stale pending rest

attribute [local simp] lessTall parted variants

theorem adopted_cons (stale : Bool) (pending : Option Text) (line : Text) (rest : List Text) :
    adopted stale pending (line :: rest) =
      match lineKind line with
      | .streamInf =>
        if tall line then adopted (stale || pending.any fun tag => !tall tag) (some line) rest
        else adopted false (some line) rest
      | .uri =>
        match pending with
        | some tag => adopted (stale && tall tag) none rest
        | none => (if stale then 1 else 0) + adopted false none rest
      | .iFrame | .other => adopted stale pending rest := rfl

theorem keep_cons (dropNextUri : Bool) (line : Text) (rest : List Text) :
    capExternalEmbedMasterTo1080p.keep dropNextUri (line :: rest) =
      match lineKind line with
      | .streamInf =>
        if tall line then capExternalEmbedMasterTo1080p.keep true rest
        else line :: capExternalEmbedMasterTo1080p.keep false rest
      | .iFrame =>
        if tall line then capExternalEmbedMasterTo1080p.keep dropNextUri rest
        else line :: capExternalEmbedMasterTo1080p.keep dropNextUri rest
      | .uri =>
        if dropNextUri then capExternalEmbedMasterTo1080p.keep false rest
        else line :: capExternalEmbedMasterTo1080p.keep false rest
      | .other => line :: capExternalEmbedMasterTo1080p.keep false rest := by
  rw [capExternalEmbedMasterTo1080p.keep, lineKind]
  split
  · rfl
  · split
    · rfl
    · cases huri : !(trimStart line).isEmpty && !startsWith (trimStart line) ['#'] <;> cases dropNextUri <;> rfl

theorem cap_eq (lines : List Text) : capExternalEmbedMasterTo1080p lines =
    if hasKeepable lines then capExternalEmbedMasterTo1080p.keep false lines else lines := by
  have hkind (line : Text) : (lineKind line == .streamInf) = startsWith (trimStart line) "#EXT-X-STREAM-INF".toList := by
    rw [lineKind]
    split
    · next h => rw [h]; rfl
    · next h =>
      rw [Bool.not_eq_true] at h
      rw [h]
      split
      · rfl
      · split <;> rfl
  rw [capExternalEmbedMasterTo1080p, hasKeepable]
  simp only [hkind]

/-- The code drops no more than the variants above 1080p. -/
theorem length_lessTall_le (lines : List Text) {tallPending dropNextUri : Bool}
    (himp : dropNextUri = true → tallPending = true) :
    (lessTall tallPending lines).length ≤ (capExternalEmbedMasterTo1080p.keep dropNextUri lines).length := by
  induction lines generalizing tallPending dropNextUri with
  | nil => simp [lessTall, capExternalEmbedMasterTo1080p.keep]
  | cons line rest ih =>
    rw [keep_cons, lessTall]
    cases lineKind line with
    | streamInf =>
      dsimp only
      split
      · exact ih fun h => h
      · exact Nat.succ_le_succ (ih fun h => h)
    | iFrame =>
      dsimp only
      split
      · exact ih himp
      · exact Nat.succ_le_succ (ih himp)
    | uri =>
      have hrest : (lessTall false rest).length ≤ (capExternalEmbedMasterTo1080p.keep false rest).length := ih fun h => h
      cases dropNextUri with
      | true =>
        rw [himp rfl]
        exact hrest
      | false =>
        cases tallPending with
        | true => exact hrest.trans (Nat.le_succ _)
        | false => exact Nat.succ_le_succ hrest
    | other => exact Nat.succ_le_succ (ih fun h => by cases h)

theorem keep_eq_iff (lines : List Text) {tallPending dropNextUri : Bool}
    (himp : dropNextUri = true → tallPending = true) :
    capExternalEmbedMasterTo1080p.keep dropNextUri lines = lessTall tallPending lines ↔
      parted tallPending dropNextUri lines = false := by
  induction lines generalizing tallPending dropNextUri with
  | nil => simp [lessTall, capExternalEmbedMasterTo1080p.keep, parted]
  | cons line rest ih =>
    rw [keep_cons, lessTall, parted]
    cases lineKind line with
    | streamInf =>
      dsimp only
      cases tall line with
      | true => exact ih fun h => h
      | false => exact List.cons_inj_right line |>.trans (ih fun h => h)
    | iFrame =>
      dsimp only
      cases tall line with
      | true => exact ih himp
      | false => exact List.cons_inj_right line |>.trans (ih himp)
    | uri =>
      have hrest : capExternalEmbedMasterTo1080p.keep false rest = lessTall false rest ↔ parted false false rest = false :=
        ih fun h => h
      cases dropNextUri with
      | true =>
        rw [himp rfl]
        exact hrest
      | false =>
        cases tallPending with
        | true =>
          have hle : (lessTall false rest).length ≤ (capExternalEmbedMasterTo1080p.keep false rest).length :=
            length_lessTall_le rest fun h => h
          refine iff_of_false (fun heq => ?_) (by simp)
          have hlength : (capExternalEmbedMasterTo1080p.keep false rest).length + 1 = (lessTall false rest).length :=
            congrArg List.length heq
          omega
        | false => exact List.cons_inj_right line |>.trans hrest
    | other => exact List.cons_inj_right line |>.trans (ih fun h => by cases h)

theorem iFrames_cons_self {line : Text} (h : lineKind line = .iFrame) (rest : List Text) :
    iFrames (line :: rest) = line :: iFrames rest :=
  List.filter_cons_of_pos (beq_iff_eq.mpr h)

theorem iFrames_cons_of_ne {line : Text} (h : lineKind line ≠ .iFrame) (rest : List Text) :
    iFrames (line :: rest) = iFrames rest :=
  List.filter_cons_of_neg fun heq => h (beq_iff_eq.mp heq)

theorem iFrames_lessTall (lines : List Text) (tallPending : Bool) :
    iFrames (lessTall tallPending lines) = (iFrames lines).filter fun line => !tall line := by
  induction lines generalizing tallPending with
  | nil => rfl
  | cons line rest ih =>
    rw [lessTall]
    cases hkind : lineKind line with
    | iFrame =>
      dsimp only
      rw [iFrames_cons_self hkind, List.filter_cons]
      cases htall : tall line with
      | true => exact ih tallPending
      | false =>
        rw [if_neg Bool.false_ne_true, iFrames_cons_self hkind, ih]
        rfl
    | streamInf =>
      have hne : lineKind line ≠ .iFrame := by simp [hkind]
      dsimp only
      rw [iFrames_cons_of_ne hne]
      split
      · exact ih true
      · rw [iFrames_cons_of_ne hne, ih]
    | uri =>
      have hne : lineKind line ≠ .iFrame := by simp [hkind]
      dsimp only
      rw [iFrames_cons_of_ne hne]
      split
      · exact ih false
      · rw [iFrames_cons_of_ne hne, ih]
    | other =>
      have hne : lineKind line ≠ .iFrame := by simp [hkind]
      dsimp only
      rw [iFrames_cons_of_ne hne, iFrames_cons_of_ne hne, ih]

/-- The tag that waits for a URI in what is left, beside the one that does so in the playlist: the same if it fits,
else the last one that fitted and had none. -/
structure Waits (stale : Bool) (pending left : Option Text) : Prop where
  fits : ∀ tag, left = some tag → tall tag = false
  same : ∀ tag, pending = some tag → tall tag = false → left = some tag ∧ stale = false
  stale : (∀ tag, pending = some tag → tall tag = true) → left.isSome = stale

theorem waits_none : Waits false none none where
  fits _ hnone := by cases hnone
  same _ hnone := by cases hnone
  stale _ := rfl

theorem variants_lessTall (lines : List Text) {stale : Bool} {pending left : Option Text} (h : Waits stale pending left) :
    (variants left (lessTall (pending.any tall) lines)).length =
        (fitting (variants pending lines)).length + adopted stale pending lines ∧
      (adopted stale pending lines = 0 →
        variants left (lessTall (pending.any tall) lines) = fitting (variants pending lines)) := by
  induction lines generalizing stale pending left with
  | nil => exact ⟨rfl, fun _ => rfl⟩
  | cons line rest ih =>
    rw [lessTall, variants, adopted_cons]
    cases hkind : lineKind line with
    | streamInf =>
      dsimp only
      cases htall : tall line with
      | true =>
        have hnext : Waits (stale || pending.any fun tag => !tall tag) (some line) left := by
          refine ⟨h.fits, fun tag htag hfits => ?_, fun _ => ?_⟩
          · rw [← Option.some.inj htag, htall] at hfits
            cases hfits
          · cases pending with
            | none =>
              rw [Option.any_none, Bool.or_false]
              exact h.stale fun _ hnone => by cases hnone
            | some tag =>
              cases htag : tall tag with
              | true =>
                rw [Option.any_some, htag, Bool.not_true, Bool.or_false]
                exact h.stale fun other hother => Option.some.inj hother ▸ htag
              | false =>
                rw [Option.any_some, htag, Bool.not_false, Bool.or_true, (h.same tag rfl htag).1]
                rfl
        have hrest := ih hnext
        rw [Option.any_some, htall] at hrest
        exact hrest
      | false =>
        have hnext : Waits false (some line) (some line) := by
          refine ⟨fun tag htag => Option.some.inj htag ▸ htall, fun tag htag _ => ⟨htag, rfl⟩, fun hall => ?_⟩
          cases htall.symm.trans (hall line rfl)
        have hrest := ih hnext
        rw [Option.any_some, htall] at hrest
        rw [if_neg Bool.false_ne_true, if_neg Bool.false_ne_true, variants, hkind]
        exact hrest
    | iFrame =>
      dsimp only
      split
      · exact ih h
      · rw [variants, hkind]
        exact ih h
    | uri =>
      dsimp only
      cases pending with
      | none =>
        have hrest := ih waits_none
        have hleft := h.stale fun _ hnone => by cases hnone
        rw [Option.any_none, if_neg Bool.false_ne_true, variants, hkind]
        rw [Option.any_none] at hrest
        cases left with
        | none =>
          rw [← hleft]
          simpa using hrest
        | some tag =>
          rw [← hleft]
          have hlength := hrest.1
          refine ⟨?_, fun hzero => ?_⟩
          · change (variants none _).length + 1 = (fitting (variants none rest)).length + (1 + adopted false none rest)
            omega
          · change 1 + adopted false none rest = 0 at hzero
            omega
      | some tag =>
        rw [Option.any_some]
        cases htag : tall tag with
        | true =>
          have hnext : Waits stale none left :=
            ⟨h.fits, (fun _ hnone => by cases hnone), fun _ => h.stale fun other hother => Option.some.inj hother ▸ htag⟩
          have hrest := ih hnext
          simpa [fitting, htag] using hrest
        | false =>
          obtain ⟨rfl, rfl⟩ := h.same tag rfl htag
          have hrest := ih waits_none
          rw [if_neg Bool.false_ne_true, variants, hkind]
          have hfitting (pairs : List (Text × Text)) : fitting ((tag, line) :: pairs) = (tag, line) :: fitting pairs := by
            simp [fitting, htag]
          change ((tag, line) :: variants none (lessTall false rest)).length =
              (fitting ((tag, line) :: variants none rest)).length + adopted false none rest ∧
            (adopted false none rest = 0 → (tag, line) :: variants none (lessTall false rest) =
              fitting ((tag, line) :: variants none rest))
          rw [hfitting]
          refine ⟨?_, fun hzero => congrArg _ (hrest.2 hzero)⟩
          have hlength := hrest.1
          rw [Option.any_none] at hlength
          rw [List.length_cons, List.length_cons]
          omega
    | other =>
      dsimp only
      rw [variants, hkind]
      exact ih h

theorem fitting_eq_nil_of_not_hasKeepable (lines : List Text) (pending : Option Text)
    (hpending : ∀ tag, pending = some tag → tall tag = true) (h : hasKeepable lines = false) :
    fitting (variants pending lines) = [] := by
  induction lines generalizing pending with
  | nil => rfl
  | cons line rest ih =>
    rw [hasKeepable, List.any_cons, Bool.or_eq_false_iff] at h
    rw [variants]
    cases hkind : lineKind line with
    | streamInf =>
      refine ih (some line) (fun tag htag => ?_) h.2
      have hline := h.1
      rw [hkind] at hline
      rw [← Option.some.inj htag]
      simpa using hline
    | iFrame => exact ih pending hpending h.2
    | other => exact ih pending hpending h.2
    | uri =>
      have hrest := ih none (fun _ hnone => by cases hnone) h.2
      cases pending with
      | none => exact hrest
      | some tag =>
        change fitting ((tag, line) :: variants none rest) = []
        rw [fitting, List.filter_cons_of_neg (by simp [hpending tag rfl])]
        exact hrest

/-- Without the variants above 1080p only tags that fit are left to pair. -/
theorem fits_of_mem_lessTall (lines : List Text) {tallPending : Bool} {left : Option Text}
    (hleft : ∀ tag, left = some tag → tall tag = false) {pair : Text × Text}
    (h : pair ∈ variants left (lessTall tallPending lines)) : tall pair.1 = false := by
  induction lines generalizing tallPending left with
  | nil => cases h
  | cons line rest ih =>
    rw [lessTall] at h
    cases hkind : lineKind line with
    | streamInf =>
      rw [hkind] at h
      dsimp only at h
      cases htall : tall line with
      | true =>
        rw [htall] at h
        exact ih hleft h
      | false =>
        rw [htall, if_neg Bool.false_ne_true, variants, hkind] at h
        exact ih (fun tag htag => Option.some.inj htag ▸ htall) h
    | iFrame =>
      rw [hkind] at h
      dsimp only at h
      split at h
      · exact ih hleft h
      · rw [variants, hkind] at h
        exact ih hleft h
    | other =>
      rw [hkind] at h
      dsimp only at h
      rw [variants, hkind] at h
      exact ih hleft h
    | uri =>
      rw [hkind] at h
      dsimp only at h
      split at h
      · exact ih hleft h
      · rw [variants, hkind] at h
        obtain hpair | hrest := List.mem_append.mp h
        · cases left with
          | none => cases hpair
          | some tag =>
            rw [List.mem_singleton.mp hpair]
            exact hleft tag rfl
        · exact ih (fun _ hnone => by cases hnone) hrest

/-- The cap keeps its promise unless it lets a variant's URI stay, or its removals leave a tag that has no URI
of its own with another one or with nothing that fits. -/
theorem capped_iff (lines : List Text) : Capped lines (capExternalEmbedMasterTo1080p lines) ↔
    (hasKeepable lines = true → parted false false lines = false ∧ adopted false none lines = 0 ∧
      (fitting (variants none lines) = [] → variants none lines = [])) := by
  rw [cap_eq]
  cases hkeepable : hasKeepable lines with
  | false =>
    rw [if_neg Bool.false_ne_true]
    refine iff_of_true ⟨?_, ?_, ?_⟩ fun h => absurd h Bool.false_ne_true
    · rw [if_pos (fitting_eq_nil_of_not_hasKeepable lines none (fun _ hnone => by cases hnone) hkeepable)]
    · rw [hkeepable, if_neg Bool.false_ne_true]
    · rw [hkeepable, if_neg Bool.false_ne_true]
  | true =>
    rw [if_pos rfl, imp_iff_right rfl]
    have hleft := variants_lessTall lines waits_none
    rw [Option.any_none] at hleft
    have hkeep : capExternalEmbedMasterTo1080p.keep false lines = lessTall false lines ↔ parted false false lines = false :=
      keep_eq_iff lines fun h => h
    constructor
    · intro h
      have hothers := h.others
      rw [hkeepable, if_pos rfl] at hothers
      have hvariants := h.variants
      rw [hothers] at hvariants
      have hnone (hnil : fitting (variants none lines) = []) : variants none lines = [] := by
        rw [if_pos hnil] at hvariants
        rw [List.eq_nil_iff_forall_not_mem]
        intro pair hpair
        have hfits := fits_of_mem_lessTall lines (fun _ hnone => by cases hnone) (hvariants ▸ hpair)
        have hmem : pair ∈ fitting (variants none lines) := List.mem_filter.mpr ⟨hpair, by simp [hfits]⟩
        rw [hnil] at hmem
        cases hmem
      refine ⟨hkeep.mp hothers, ?_, hnone⟩
      have hlength := hleft.1
      rw [hvariants] at hlength
      split at hlength
      next hnil =>
        rw [hnil, hnone hnil] at hlength
        simpa using hlength.symm
      next => omega
    · intro ⟨hparted, hadopted, hnone⟩
      have hout := hkeep.mpr hparted
      refine ⟨?_, ?_, ?_⟩
      · rw [hout, hleft.2 hadopted]
        split
        next hnil => rw [hnil, hnone hnil]
        next => rfl
      · rw [hkeepable, if_pos rfl, hout]
        exact iFrames_lessTall lines false
      · rw [hkeepable, if_pos rfl]
        exact hout

/-- A ladder whose tallest variant has a comment between its tag and its URI, after a tag without a URI. -/
def commentedLadder : List Text :=
  ["#EXTM3U".toList, "#EXT-X-STREAM-INF:RESOLUTION=1920x1080".toList,
    "#EXT-X-STREAM-INF:RESOLUTION=3840x2160".toList, "# 4K".toList, "/2160.m3u8".toList,
    "#EXT-X-STREAM-INF:RESOLUTION=960x540".toList, "/540.m3u8".toList]

theorem uri_paired_with_other_variant :
    ¬ (∀ lines, Capped lines (capExternalEmbedMasterTo1080p lines)) ∧
      ("#EXT-X-STREAM-INF:RESOLUTION=1920x1080".toList, "/2160.m3u8".toList) ∈
        variants none (capExternalEmbedMasterTo1080p commentedLadder) := by
  refine ⟨fun h => ?_, by decide +kernel⟩
  have hothers := (h commentedLadder).others
  have hne : capExternalEmbedMasterTo1080p commentedLadder ≠
      if hasKeepable commentedLadder then lessTall false commentedLadder else commentedLadder := by decide +kernel
  exact hne hothers

end StreamArena.LiveHls.HeightCap
