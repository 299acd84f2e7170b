import StreamArena.UserState.ReplayConvergence

/-! Versions of mutations: the client's high-water clock
(src-ui/lib/replay-safe-state.js) and the server's clamp
(`normalize_user_updated_at`, src/routes.rs), up to what a replay can change. -/
namespace StreamArena.UserState
open AsciiText

def maxFutureSkewMs : Int := 24 * 60 * 60 * 1000

/-- The argument is the JSON field read as an integer, if it is one. -/
def normalizeUserUpdatedAt (now : Int) (value : Option Int) : Int :=
  let candidate := value.getD now
  if candidate ≤ 0 then now else min candidate (now + maxFutureSkewMs)

def isSafeInteger (n : Int) : Bool := decide (-2 ^ 53 < n) && decide (n < 2 ^ 53)

/-- The stored item read as a number, if there is one. -/
def readStoredClock (storage : Option Int) : Int :=
  match storage with
  | some value => if isSafeInteger value && decide (value > 0) then value else 0
  | none => 0

/-- `dateNow` is the reading taken when the caller's own is not usable. -/
def nextUserStateMutationTimestamp (storage : Option Int) (now dateNow : Int) : Int :=
  let wallClock := if isSafeInteger now && decide (now > 0) then now else dateNow
  max wallClock (readStoredClock storage + 1)

/-- One device's mutations under a list of wall clock readings; each is stored as the new mark. -/
def clientTimestamps (storage : Option Int) : List (Int × Int) → List Int
  | [] => []
  | (now, dateNow) :: readings =>
    let timestamp := nextUserStateMutationTimestamp storage now dateNow
    timestamp :: clientTimestamps (some timestamp) readings

theorem stored_lt_next {stored : Int} (h : isSafeInteger stored = true) (hp : 0 < stored)
    (now dateNow : Int) : stored < nextUserStateMutationTimestamp (some stored) now dateNow := by
  have hr : readStoredClock (some stored) = stored := by simp [readStoredClock, h, hp]
  simp only [nextUserStateMutationTimestamp, hr]
  omega

theorem next_pos {storage : Option Int} {now dateNow : Int} :
    0 < nextUserStateMutationTimestamp storage now dateNow := by
  have hr : 0 ≤ readStoredClock storage := by
    unfold readStoredClock
    split
    · split
      · next h => simp at h; omega
      · exact le_rfl
    · exact le_rfl
  simp only [nextUserStateMutationTimestamp]
  omega

/-- While the mark stays a safe integer, a device's versions strictly increase,
whatever its wall clock does. -/
theorem clientTimestamps_increasing (storage : Option Int) (readings : List (Int × Int))
    (h : ∀ t ∈ clientTimestamps storage readings, isSafeInteger t = true) :
    (clientTimestamps storage readings).Pairwise (· < ·) := by
  induction readings generalizing storage with
  | nil => exact List.Pairwise.nil
  | cons r readings ih =>
    obtain ⟨now, dateNow⟩ := r
    have hrest := fun t ht => h t (List.mem_cons_of_mem _ ht)
    have ih := ih _ hrest
    refine List.pairwise_cons.mpr ⟨?_, ih⟩
    intro t ht
    cases readings with
    | nil => simp [clientTimestamps] at ht
    | cons r' readings =>
      have hfirst := stored_lt_next (h _ List.mem_cons_self) next_pos r'.1 r'.2
      rcases List.mem_cons.mp ht with rfl | ht
      · exact hfirst
      · exact hfirst.trans (List.rel_of_pairwise_cons ih ht)

theorem normalize_of_pos {now t : Int} (h : 0 < t) :
    normalizeUserUpdatedAt now (some t) = min t (now + maxFutureSkewMs) := by
  simp [normalizeUserUpdatedAt, not_le.mpr h]

/-- The clamp keeps the order of two versions unless both are clamped and the later
mutation arrives no later. -/
theorem normalized_lt_iff {t₁ t₂ n₁ n₂ : Int} (h₁ : 0 < t₁) (h : t₁ < t₂) :
    normalizeUserUpdatedAt n₁ (some t₁) < normalizeUserUpdatedAt n₂ (some t₂) ↔
      t₁ < n₂ + maxFutureSkewMs ∨ n₁ < n₂ := by
  rw [normalize_of_pos h₁, normalize_of_pos (h₁.trans h)]
  omega

def ProgressMutation.isOf (userId : Int) (identity : Text) (updatedAt : Int) : ProgressMutation → Prop
  | .upsert u x _ t => u = userId ∧ x = identity ∧ t = updatedAt
  | .delete u x d => u = userId ∧ x = identity ∧ d = updatedAt

/-- A run through a mutation of one version leaves the identity at least at that rank. -/
theorem rank_after_mutation {before between : List ProgressMutation} {newer : ProgressMutation}
    {userId : Int} {identity : Text} {t : Int} (hn : newer.isOf userId identity t) :
    (LastWriter.stamp t false : WithBot (Int ×ₗ Bool)) ≤
      (watchCell (runProgress (before ++ newer :: between) {}) userId identity).version := by
  have hcoh := coherent_runProgress before userId identity
  rw [runProgress, List.foldl_append, List.foldl_cons, ← runProgress, ← runProgress,
    watchCell_runProgress]
  refine le_trans ?_ (LastWriter.version_le_run _ _)
  rw [watchCell_apply]
  cases newer with
  | upsert u x r t' =>
    obtain ⟨rfl, rfl, rfl⟩ := hn
    simp only [ProgressMutation.at, ↓reduceIte, Option.elim, LastWriter.version_apply hcoh]
    exact le_max_right _ _
  | delete u x d =>
    obtain ⟨rfl, rfl, rfl⟩ := hn
    simp only [ProgressMutation.at, ↓reduceIte, Option.elim, LastWriter.version_apply hcoh]
    exact le_max_of_le_right (WithBot.coe_le_coe.mpr (LastWriter.stamp_put_le_delete.mpr le_rfl))

theorem watchProgress_get_congr {db db' : UserStateDb} {userId : Int} {identity : Text}
    (h : (watchCell db userId identity).row = (watchCell db' userId identity).row) :
    db.watchProgress.get (userId, identity) = db'.watchProgress.get (userId, identity) := by
  refine Option.map_injective (fun a b hab => ?_) h
  obtain ⟨ht, hr⟩ := Prod.mk.inj hab
  cases a; cases b
  simp_all

/-- Replaying a smaller version after a larger one changes no visible row. -/
theorem stale_replay {before between : List ProgressMutation} {newer : ProgressMutation}
    {userId : Int} {identity : Text} {t₁ t₂ : Int} (hn : newer.isOf userId identity t₂)
    (h : t₁ < t₂) (resumeSeconds : ℚ) (u : Int) (x : Text) :
    (upsertWatchProgress (runProgress (before ++ newer :: between) {}) userId identity
        resumeSeconds t₁).1.watchProgress.get (u, x) =
      (runProgress (before ++ newer :: between) {}).watchProgress.get (u, x) := by
  refine watchProgress_get_congr ?_
  rw [watchCell_upsertWatchProgress]
  split
  · next hk =>
    obtain ⟨rfl, rfl⟩ := Prod.mk.inj hk
    refine LastWriter.put_stale (lt_of_lt_of_le ?_ (rank_after_mutation hn)) resumeSeconds
    exact WithBot.coe_lt_coe.mpr (LastWriter.stamp_lt.mpr (.inl h))
  · rfl

/-- What the clamp promises for two versions of one device's clock, and for replays where
it keeps their order. -/
theorem replay_order (t₁ t₂ n₁ n₂ : Int) (h₁ : 0 < t₁) (h : t₁ < t₂) :
    (normalizeUserUpdatedAt n₁ (some t₁) < normalizeUserUpdatedAt n₂ (some t₂) ↔
      t₁ < n₂ + maxFutureSkewMs ∨ n₁ < n₂) ∧
    (t₁ < n₂ + maxFutureSkewMs ∨ n₁ < n₂ →
      ∀ (userId : Int) (identity : Text) (newer : ProgressMutation)
        (before between : List ProgressMutation) (resumeSeconds : ℚ) (u : Int) (x : Text),
        newer.isOf userId identity (normalizeUserUpdatedAt n₂ (some t₂)) →
        (upsertWatchProgress (runProgress (before ++ newer :: between) {}) userId identity
            resumeSeconds (normalizeUserUpdatedAt n₁ (some t₁))).1.watchProgress.get (u, x) =
          (runProgress (before ++ newer :: between) {}).watchProgress.get (u, x)) := by
  refine ⟨normalized_lt_iff h₁ h, fun hc userId identity newer before between r u x hn => ?_⟩
  exact stale_replay hn ((normalized_lt_iff h₁ h).mpr hc) r u x

/-- A save of a device with a right clock, replayed after the delete that followed it. -/
theorem replay_order_right_clock :
    (upsertWatchProgress (runProgress [.upsert 1 "movie:1".toList 30 1000,
        .delete 1 "movie:1".toList 2000] {}) 1 "movie:1".toList 30 1000).1.watchProgress.get
        (1, "movie:1".toList) =
      (runProgress [.upsert 1 "movie:1".toList 30 1000,
        .delete 1 "movie:1".toList 2000] {}).watchProgress.get (1, "movie:1".toList) := by
  exact (replay_order 1000 2000 5000 2500 (by decide) (by decide)).2 (.inl (by decide)) 1
    "movie:1".toList (.delete 1 "movie:1".toList 2000) [.upsert 1 "movie:1".toList 30 1000] [] 30 1
    "movie:1".toList ⟨rfl, rfl, by decide⟩

/-- A device three years ahead emits two versions; the later mutation arrives first, and
the older save, arriving after the newer delete, brings its row back. -/
theorem clamped_replay_reappears :
    ∃ t₁ t₂ n₁ n₂ : Int, [t₁, t₂] = clientTimestamps none
        [(1800000000000, 0), (1800000000000, 0)] ∧ n₁ = 1700000000001 ∧ n₂ = 1700000000000 ∧
      normalizeUserUpdatedAt n₂ (some t₂) < normalizeUserUpdatedAt n₁ (some t₁) ∧
      (runProgress [.delete 1 "movie:1".toList (normalizeUserUpdatedAt n₂ (some t₂))]
        {}).watchProgress.get (1, "movie:1".toList) = none ∧
      (upsertWatchProgress (runProgress [.delete 1 "movie:1".toList
          (normalizeUserUpdatedAt n₂ (some t₂))] {}) 1 "movie:1".toList 30
        (normalizeUserUpdatedAt n₁ (some t₁))).1.watchProgress.get (1, "movie:1".toList) =
          some ⟨30, normalizeUserUpdatedAt n₁ (some t₁)⟩ :=
  ⟨1800000000000, 1800000000001, _, _, by decide +kernel, rfl, rfl, by decide +kernel,
    by decide +kernel, by decide +kernel⟩

end StreamArena.UserState
