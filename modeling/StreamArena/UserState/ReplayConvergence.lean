import StreamArena.UserState.Tombstones

/-! Replays of single-item watch-progress mutations: any arrival order, any
repetition, any other identities and users in between. -/
namespace StreamArena.UserState
open AsciiText

/-- One atomic single-item mutation of the watch-progress tables. -/
inductive ProgressMutation where
  | upsert (userId : Int) (identity : Text) (resumeSeconds : ℚ) (updatedAt : Int)
  | delete (userId : Int) (identity : Text) (deletedAt : Int)
  deriving DecidableEq

def ProgressMutation.apply (db : UserStateDb) : ProgressMutation → UserStateDb
  | .upsert userId identity resumeSeconds updatedAt =>
    (upsertWatchProgress db userId identity resumeSeconds updatedAt).1
  | .delete userId identity deletedAt => deleteItem db userId .watchProgress identity deletedAt

def runProgress (ms : List ProgressMutation) (db : UserStateDb) : UserStateDb :=
  ms.foldl ProgressMutation.apply db

/-- The part of a mutation one cell sees. -/
def ProgressMutation.at (userId : Int) (identity : Text) :
    ProgressMutation → Option (LastWriter.Mutation Int ℚ)
  | .upsert u x r t => if (u, x) = (userId, identity) then some (.put t r) else none
  | .delete u x d => if (u, x) = (userId, identity) then some (.delete d) else none

theorem watchCell_apply (db : UserStateDb) (m : ProgressMutation) (userId : Int) (identity : Text) :
    watchCell (m.apply db) userId identity =
      (m.at userId identity).elim (watchCell db userId identity)
        (LastWriter.Mutation.apply (watchCell db userId identity)) := by
  cases m with
  | upsert u x r t =>
    by_cases he : (u, x) = (userId, identity)
    · obtain ⟨rfl, rfl⟩ := Prod.mk.inj he
      simp [ProgressMutation.apply, ProgressMutation.at, watchCell_upsertWatchProgress,
        LastWriter.Mutation.apply]
    · have he' : ¬ (userId, identity) = (u, x) := fun h => he h.symm
      simp only [ProgressMutation.apply, ProgressMutation.at, watchCell_upsertWatchProgress, he, he',
        ↓reduceIte, Option.elim]
  | delete u x d =>
    by_cases he : (u, x) = (userId, identity)
    · obtain ⟨rfl, rfl⟩ := Prod.mk.inj he
      simp [ProgressMutation.apply, ProgressMutation.at, watchCell_deleteItem,
        LastWriter.Mutation.apply]
    · have he' : ¬ (userId, identity) = (u, x) := fun h => he h.symm
      simp only [ProgressMutation.apply, ProgressMutation.at, watchCell_deleteItem, he, he',
        ↓reduceIte, Option.elim]

/-- The tables refine independent last-writer-wins cells. -/
theorem watchCell_runProgress (ms : List ProgressMutation) (db : UserStateDb) (userId : Int)
    (identity : Text) :
    watchCell (runProgress ms db) userId identity =
      LastWriter.run (ms.filterMap (ProgressMutation.at userId identity))
        (watchCell db userId identity) := by
  induction ms generalizing db with
  | nil => rfl
  | cons m ms ih =>
    rw [runProgress, List.foldl_cons]
    refine (ih (m.apply db)).trans ?_
    rw [watchCell_apply]
    cases hm : m.at userId identity <;> simp [hm]

theorem watchCell_empty (userId : Int) (identity : Text) :
    watchCell {} userId identity = LastWriter.Cell.empty := rfl

theorem mem_at_put {ms : List ProgressMutation} {userId : Int} {identity : Text} {t : Int} {r : ℚ} :
    .put t r ∈ ms.filterMap (ProgressMutation.at userId identity) ↔
      .upsert userId identity r t ∈ ms := by
  rw [List.mem_filterMap]
  constructor
  · rintro ⟨m, hm, he⟩
    cases m <;> simp only [ProgressMutation.at, Option.ite_none_right_eq_some, Prod.mk.injEq,
      Option.some.injEq, LastWriter.Mutation.put.injEq, reduceCtorEq, and_false] at he
    obtain ⟨⟨rfl, rfl⟩, rfl, rfl⟩ := he
    exact hm
  · intro hm
    exact ⟨_, hm, by simp [ProgressMutation.at]⟩

theorem mem_at_delete {ms : List ProgressMutation} {userId : Int} {identity : Text} {d : Int} :
    .delete d ∈ ms.filterMap (ProgressMutation.at userId identity) ↔
      .delete userId identity d ∈ ms := by
  rw [List.mem_filterMap]
  constructor
  · rintro ⟨m, hm, he⟩
    cases m <;> simp only [ProgressMutation.at, Option.ite_none_right_eq_some, Prod.mk.injEq,
      Option.some.injEq, LastWriter.Mutation.delete.injEq, reduceCtorEq, and_false] at he
    obtain ⟨⟨rfl, rfl⟩, rfl⟩ := he
    exact hm
  · intro hm
    exact ⟨_, hm, by simp [ProgressMutation.at]⟩

/-- The upsert of a set that must stay visible. -/
def NewestUpsert (s : List ProgressMutation) (userId : Int) (identity : Text)
    (row : WatchProgressRow) : Prop :=
  .upsert userId identity row.resumeSeconds row.updatedAt ∈ s ∧
  (∀ r t, .upsert userId identity r t ∈ s → t ≤ row.updatedAt) ∧
  ∀ d, .delete userId identity d ∈ s → d < row.updatedAt

theorem get_runProgress_iff {s arrivals : List ProgressMutation} {userId : Int} {identity : Text}
    (hs : ∀ r r' t, .upsert userId identity r t ∈ s → .upsert userId identity r' t ∈ s → r = r')
    (harr : ∀ m, (m.at userId identity).isSome → (m ∈ arrivals ↔ m ∈ s)) (row : WatchProgressRow) :
    (runProgress arrivals {}).watchProgress.get (userId, identity) = some row ↔
      NewestUpsert s userId identity row := by
  have hput (r : ℚ) (t : Int) :
      .upsert userId identity r t ∈ arrivals ↔ .upsert userId identity r t ∈ s :=
    harr _ (by simp [ProgressMutation.at])
  have hdel (d : Int) : .delete userId identity d ∈ arrivals ↔ .delete userId identity d ∈ s :=
    harr _ (by simp [ProgressMutation.at])
  have hd : LastWriter.Distinct (arrivals.filterMap (ProgressMutation.at userId identity)) := by
    intro t r r' h h'
    rw [mem_at_put, hput] at h h'
    exact hs r r' t h h'
  have hcell := LastWriter.run_row_iff hd (t := row.updatedAt) (v := row.resumeSeconds)
  rw [← watchCell_empty userId identity, ← watchCell_runProgress] at hcell
  simp only [watchCell, LastWriter.Newest, mem_at_put, mem_at_delete, hput, hdel] at hcell
  rw [NewestUpsert]
  constructor
  · intro h
    obtain ⟨h₁, h₂, h₃⟩ := hcell.mp (by simp [h])
    exact ⟨h₁, fun r t => h₂ t r, h₃⟩
  · rintro ⟨h₁, h₂, h₃⟩
    obtain ⟨row', hr, he⟩ := Option.map_eq_some_iff.mp (hcell.mpr ⟨h₁, fun t r => h₂ r t, h₃⟩)
    obtain ⟨ht, hv⟩ := Prod.mk.inj he
    rw [hr]
    cases row; cases row'
    simp_all

theorem coherent_runProgress (ms : List ProgressMutation) (userId : Int) (identity : Text) :
    (watchCell (runProgress ms {}) userId identity).Coherent := by
  rw [watchCell_runProgress]
  exact LastWriter.coherent_run _ LastWriter.coherent_empty

/-- Replay convergence of single-item state, and what coexists in every state on the way. -/
theorem replay_convergence (userId : Int) (identity : Text) (s arrivals : List ProgressMutation)
    (hs : ∀ r r' t, .upsert userId identity r t ∈ s → .upsert userId identity r' t ∈ s → r = r')
    (harr : ∀ m, (m.at userId identity).isSome → (m ∈ arrivals ↔ m ∈ s)) :
    (∀ row, (runProgress arrivals {}).watchProgress.get (userId, identity) = some row ↔
      NewestUpsert s userId identity row) ∧
    ∀ (ms : List ProgressMutation) (u : Int) (x : Text) (row : WatchProgressRow) (deletedAt : Int),
      (runProgress ms {}).watchProgress.get (u, x) = some row →
      (runProgress ms {}).tombstone u .watchProgress x = some deletedAt →
      row.updatedAt > deletedAt := by
  refine ⟨get_runProgress_iff hs harr, fun ms u x row deletedAt hrow htomb => ?_⟩
  exact coherent_runProgress ms u x row.updatedAt row.resumeSeconds deletedAt
    (by simp [watchCell, hrow]) htomb

/-- A repeated delete around a newer save: the save stays. -/
theorem replay_convergence_delete_around_save :
    ∃ arrivals : List ProgressMutation,
      arrivals = [.delete 1 "movie:1".toList 200, .upsert 1 "movie:1".toList 30 300,
        .delete 1 "movie:1".toList 200, .upsert 1 "movie:1".toList 5 100] ∧
      (runProgress arrivals {}).watchProgress.get (1, "movie:1".toList) = some ⟨30, 300⟩ := by
  refine ⟨_, rfl, ?_⟩
  refine ((replay_convergence 1 "movie:1".toList _ _ ?_ fun m _ => Iff.rfl).1 ⟨30, 300⟩).mpr ?_
  · intro r r' t h h'
    simp only [List.mem_cons, ProgressMutation.upsert.injEq, reduceCtorEq, List.not_mem_nil,
      true_and, false_or, or_false] at h h'
    grind
  · refine ⟨by decide +kernel, fun r t h => ?_, fun d h => ?_⟩
    · simp only [List.mem_cons, ProgressMutation.upsert.injEq, reduceCtorEq, List.not_mem_nil,
        true_and, false_or, or_false] at h
      show t ≤ 300
      omega
    · simp only [List.mem_cons, ProgressMutation.delete.injEq, reduceCtorEq, List.not_mem_nil,
        true_and, false_or, or_false] at h
      show d < 300
      omega

end StreamArena.UserState
