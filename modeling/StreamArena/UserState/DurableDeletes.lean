import StreamArena.Library.Runs
import StreamArena.UserState.Requests

/-! Whether an acknowledged deletion outlives every older replay: exactly when
its identity ranks as high as the deletion afterwards, a rank no later request
lowers unless it removes the row without a tombstone. -/
namespace StreamArena.UserState
open AsciiText KeyedTable JsonValue Routes

/-- A series deletion removes the row of the identity only with a tombstone. -/
def KeepsWatch (u : Int) (x : Text) (db : UserStateDb) : Transaction → Prop
  | .deleteWatchProgressForSeries userId seriesId deletedAt =>
    userId = u → ∀ row, db.watchProgress.get (u, x) = some row → row.updatedAt ≤ deletedAt →
      identitySelected (normalizeSeriesId seriesId)
        (tmdbTvIdFromSeriesId (normalizeSeriesId seriesId)) x = true →
      identityMatches (normalizeSeriesId seriesId)
        (tmdbTvIdFromSeriesId (normalizeSeriesId seriesId)) x = true
  | _ => True

/-- So does it here, and so does the collapse of an accepted entry. -/
def KeepsContinue (u : Int) (x : Text) (db : UserStateDb) : Transaction → Prop
  | .deleteContinueWatchingForSeries userId seriesId deletedAt =>
    userId = u → ∀ row, db.continueWatching.get (u, x) = some row → row.updatedAt ≤ deletedAt →
      continueSelected (normalizeSeriesId seriesId)
        (tmdbTvIdFromSeriesId (normalizeSeriesId seriesId)) x row = true →
      continueMatches (normalizeSeriesId seriesId)
        (tmdbTvIdFromSeriesId (normalizeSeriesId seriesId)) x row = true
  | .upsertContinueWatching userId e _ =>
    userId = u → supersededBySeries db userId e = false →
      mutationIsBlockedByTombstone db userId .continueWatching e.sourceIdentity e.updatedAt = false →
      ∀ row, db.continueWatching.get (u, x) = some row → x ≠ e.sourceIdentity →
        e.removes x row = true → e.tombs x row = true
  | _ => True

/-- Every step of a run keeps to a condition on the state before it. -/
def RunKeeps (keeps : UserStateDb → Transaction → Prop) (txs : List Transaction)
    (db : UserStateDb) : Prop :=
  Runs.Each Transaction.apply keeps db txs

variable {db : UserStateDb} {u : Int} {x : Text}

attribute [local simp] KeepsWatch KeepsContinue

theorem watchCell_congr {db' : UserStateDb} (hrows : db'.watchProgress = db.watchProgress)
    (htombs : db'.tombstone u .watchProgress x = db.tombstone u .watchProgress x) :
    watchCell db' u x = watchCell db u x := by
  simp only [watchCell, hrows, htombs]

theorem continueCell_congr {db' : UserStateDb} (hrows : db'.continueWatching = db.continueWatching)
    (htombs : db'.tombstone u .continueWatching x = db.tombstone u .continueWatching x) :
    continueCell db' u x = continueCell db u x := by
  simp only [continueCell, hrows, htombs]

theorem watchCell_row_series (userId : Int) (seriesId : Text) (deletedAt : Int) :
    (watchCell (deleteUserWatchProgressForSeries db userId seriesId deletedAt) u x).row =
      (watchCell db u x).row.filter fun r => !((decide (u = userId) &&
        identitySelected (normalizeSeriesId seriesId)
          (tmdbTvIdFromSeriesId (normalizeSeriesId seriesId)) x) && decide (r.1 ≤ deletedAt)) := by
  simp only [watchCell, get_deleteUserWatchProgressForSeries, Option.filter_map, Function.comp_def]

theorem continueCell_row_series (userId : Int) (seriesId : Text) (deletedAt : Int) :
    (continueCell (deleteUserContinueWatchingForSeries db userId seriesId deletedAt) u x).row =
      (continueCell db u x).row.filter fun r => !((decide (u = userId) &&
        continueSelected (normalizeSeriesId seriesId)
          (tmdbTvIdFromSeriesId (normalizeSeriesId seriesId)) x r.2) &&
            decide (r.1 ≤ deletedAt)) := by
  simp only [continueCell, get_deleteUserContinueWatchingForSeries, Option.filter_map,
    Function.comp_def]

theorem watch_version_le_step {tx : Transaction} (h : KeepsWatch u x db tx) :
    (watchCell db u x).version ≤ (watchCell (tx.apply db) u x).version := by
  cases tx with
  | upsertWatchProgress userId identity resumeSeconds updatedAt =>
    rw [Transaction.apply, watchCell_upsertWatchProgress]
    split
    · next hk =>
      obtain ⟨rfl, rfl⟩ := Prod.mk.inj hk
      exact LastWriter.version_le_apply _ (.put updatedAt resumeSeconds)
    · exact le_rfl
  | deleteWatchProgress userId identity deletedAt =>
    rw [Transaction.apply, watchCell_deleteItem]
    split
    · next hk =>
      obtain ⟨rfl, rfl⟩ := Prod.mk.inj hk
      exact LastWriter.version_le_apply _ (.delete deletedAt)
    · exact le_rfl
  | deleteWatchProgressForSeries userId seriesId deletedAt =>
    refine LastWriter.version_le_of_swept (watchCell_row_series userId seriesId deletedAt)
      (tombstone_deleteUserWatchProgressForSeries ..) (fun r hr hp hle => ?_) ?_
    · obtain ⟨row, hg, rfl⟩ := Option.map_eq_some_iff.mp hr
      rw [Bool.and_eq_true, decide_eq_true_eq] at hp
      obtain ⟨rfl, hs⟩ := hp
      exact ⟨rfl, rfl, mem_watchProgressOfSeries.mpr ⟨row, hg, hle, h rfl row hg hle hs⟩⟩
    · rintro ⟨rfl, -, hm⟩ hr
      obtain ⟨row, hg, -⟩ := mem_watchProgressOfSeries.mp hm
      simp [watchCell, hg] at hr
  | upsertContinueWatching userId e reconciled =>
    exact (congrArg _ (watchCell_congr watchProgress_upsertUserContinueWatching
      (tombstone_watch_upsertUserContinueWatching u x))).ge
  | deleteContinueWatching userId identity deletedAt =>
    rw [Transaction.apply, watchCell_deleteItem_continueWatching]
  | deleteContinueWatchingForSeries userId seriesId deletedAt =>
    refine (congrArg _ (watchCell_congr (recordAll_watchProgress _) ?_)).ge
    exact (tombstone_deleteUserContinueWatchingForSeries ..).trans (if_neg (by simp))

theorem continue_version_le_step {tx : Transaction} (h : KeepsContinue u x db tx) :
    (continueCell db u x).version ≤ (continueCell (tx.apply db) u x).version := by
  cases tx with
  | upsertWatchProgress userId identity resumeSeconds updatedAt =>
    rw [Transaction.apply, continueCell_upsertWatchProgress]
  | deleteWatchProgress userId identity deletedAt =>
    rw [Transaction.apply, continueCell_deleteItem_watchProgress]
  | deleteWatchProgressForSeries userId seriesId deletedAt =>
    refine (congrArg _ (continueCell_congr (recordAll_continueWatching _) ?_)).ge
    exact (tombstone_deleteUserWatchProgressForSeries ..).trans (if_neg (by simp))
  | upsertContinueWatching userId e reconciled =>
    cases hs : supersededBySeries db userId e with
    | true => rw [Transaction.apply, upsert_refused (.inl hs)]
    | false =>
      cases hb : mutationIsBlockedByTombstone db userId .continueWatching e.sourceIdentity
          e.updatedAt with
      | true => rw [Transaction.apply, upsert_refused (.inr hb)]
      | false =>
        exact version_le_upsert u x fun row hu hg hx hr => h hu.symm hs hb row hg hx hr
  | deleteContinueWatching userId identity deletedAt =>
    rw [Transaction.apply, continueCell_deleteItem]
    split
    · next hk =>
      obtain ⟨rfl, rfl⟩ := Prod.mk.inj hk
      exact LastWriter.version_le_apply _ (.delete deletedAt)
    · exact le_rfl
  | deleteContinueWatchingForSeries userId seriesId deletedAt =>
    refine LastWriter.version_le_of_swept (continueCell_row_series userId seriesId deletedAt)
      (tombstone_deleteUserContinueWatchingForSeries ..) (fun r hr hp hle => ?_) ?_
    · obtain ⟨row, hg, rfl⟩ := Option.map_eq_some_iff.mp hr
      rw [Bool.and_eq_true, decide_eq_true_eq] at hp
      obtain ⟨rfl, hs⟩ := hp
      exact ⟨rfl, rfl, mem_continueOfSeries.mpr
        ⟨by simp, row, hg, hle, h rfl row hg hle hs⟩⟩
    · rintro ⟨rfl, -, hm⟩ hr
      obtain ⟨-, row, hg, -⟩ := mem_continueOfSeries.mp hm
      simp [continueCell, hg] at hr

/-- A rank that each kept step does not lower is not lowered by the run. -/
theorem rank_run {keeps : UserStateDb → Transaction → Prop}
    (rank : UserStateDb → WithBot (Int ×ₗ Bool))
    (hstep : ∀ db tx, keeps db tx → rank db ≤ rank (tx.apply db)) {txs : List Transaction}
    (h : RunKeeps keeps txs db) : rank db ≤ rank (run txs db) := by
  let P (next : UserStateDb) : Prop := rank db ≤ rank next
  have hkeeps (next : UserStateDb) (tx : Transaction) (hk : keeps next tx) (hle : P next) :
      P (tx.apply next) := le_trans hle (hstep next tx hk)
  exact Runs.foldl_of_each hkeeps le_rfl h

section request
variable (request : DeleteRequest) (db : UserStateDb) (userId : Int)

/-- The single-item branch, or a series branch that finds the identity's row and both
removes and tombstones it, or something at least as new as the deletion already there. -/
def DeleteRequest.MarksWatch : Prop :=
  request.seriesId = [] ∨
    let seriesId := normalizeSeriesId request.seriesId
    let tmdbId := tmdbTvIdFromSeriesId seriesId
    (∀ row, db.watchProgress.get (userId, request.sourceIdentity) = some row →
      request.deletedAt < row.updatedAt ∨
        identitySelected seriesId tmdbId request.sourceIdentity = true) ∧
    ((∃ row, db.watchProgress.get (userId, request.sourceIdentity) = some row ∧
        (request.deletedAt < row.updatedAt ∨
          identityMatches seriesId tmdbId request.sourceIdentity = true)) ∨
      mutationIsBlockedByTombstone db userId .watchProgress request.sourceIdentity
        request.deletedAt = true)

def DeleteRequest.MarksContinue : Prop :=
  request.seriesId = [] ∨
    let seriesId := normalizeSeriesId request.seriesId
    let tmdbId := tmdbTvIdFromSeriesId seriesId
    (∀ row, db.continueWatching.get (userId, request.sourceIdentity) = some row →
      request.deletedAt < row.updatedAt ∨
        continueSelected seriesId tmdbId request.sourceIdentity row = true) ∧
    ((∃ row, db.continueWatching.get (userId, request.sourceIdentity) = some row ∧
        (request.deletedAt < row.updatedAt ∨
          continueMatches seriesId tmdbId request.sourceIdentity row = true)) ∨
      mutationIsBlockedByTombstone db userId .continueWatching request.sourceIdentity
        request.deletedAt = true)

end request

variable {request : DeleteRequest} {userId : Int}

/-- The rank after a deletion, read off the state before it. -/
theorem watch_rank_iff :
    (LastWriter.stamp request.deletedAt true : WithBot (Int ×ₗ Bool)) ≤
        (watchCell ((request.watchProgress userId).apply db) userId
          request.sourceIdentity).version ↔
      request.MarksWatch db userId := by
  by_cases hs : request.seriesId = []
  · refine iff_of_true ?_ (.inl hs)
    rw [DeleteRequest.watchProgress, if_pos (by simp [hs]), Transaction.apply,
      watchCell_deleteItem, if_pos rfl]
    exact (le_max_right _ _).trans (LastWriter.version_delete_le _ _)
  · rw [DeleteRequest.watchProgress, if_neg (by simpa using hs), Transaction.apply,
      LastWriter.delete_le_version_swept_iff (watchCell_row_series userId _ _)
        (tombstone_deleteUserWatchProgressForSeries ..)
        (q := fun _ => identityMatches (normalizeSeriesId request.seriesId)
          (tmdbTvIdFromSeriesId (normalizeSeriesId request.seriesId))
            request.sourceIdentity = true) ?_]
    · simp only [DeleteRequest.MarksWatch, hs, false_or, ← blocked_watchCell]
      cases hg : db.watchProgress.get (userId, request.sourceIdentity) <;> simp [watchCell, hg]
    · simp only [true_and, mem_watchProgressOfSeries]
      cases hg : db.watchProgress.get (userId, request.sourceIdentity) <;> simp [watchCell, hg]

theorem continue_rank_iff :
    (LastWriter.stamp request.deletedAt true : WithBot (Int ×ₗ Bool)) ≤
        (continueCell ((request.continueWatching userId).apply db) userId
          request.sourceIdentity).version ↔
      request.MarksContinue db userId := by
  by_cases hs : request.seriesId = []
  · refine iff_of_true ?_ (.inl hs)
    rw [DeleteRequest.continueWatching, if_pos (by simp [hs]), Transaction.apply,
      continueCell_deleteItem, if_pos rfl]
    exact (le_max_right _ _).trans (LastWriter.version_delete_le _ _)
  · rw [DeleteRequest.continueWatching, if_neg (by simpa using hs), Transaction.apply,
      LastWriter.delete_le_version_swept_iff (continueCell_row_series userId _ _)
        (tombstone_deleteUserContinueWatchingForSeries ..)
        (q := fun r => continueMatches (normalizeSeriesId request.seriesId)
          (tmdbTvIdFromSeriesId (normalizeSeriesId request.seriesId))
            request.sourceIdentity r.2 = true) ?_]
    · simp only [DeleteRequest.MarksContinue, hs, false_or, ← blocked_continueCell]
      cases hg : db.continueWatching.get (userId, request.sourceIdentity) <;>
        simp [continueCell, hg]
    · simp only [true_and, mem_continueOfSeries]
      cases hg : db.continueWatching.get (userId, request.sourceIdentity) <;>
        simp [continueCell, hg]

/-- A replay of exactly the deletion's version gets in when the rank is lower. -/
theorem watch_resurrects {d : Int} (resumeSeconds : ℚ)
    (hgone : db.watchProgress.get (userId, x) = none)
    (hopen : ¬ (watchCell db userId x).blocked d) :
    (run [.upsertWatchProgress userId x resumeSeconds d] db).watchProgress.get (userId, x) =
      some ⟨resumeSeconds, d⟩ := by
  rw [blocked_watchCell, Bool.not_eq_true] at hopen
  simp [Transaction.apply, upsertWatchProgress, hopen, hgone]

theorem continue_resurrects {e : ContinueWatchingEntry} (hseries : e.seriesId = [])
    (hmedia : e.mediaType = []) (hgone : db.continueWatching.get (userId, e.sourceIdentity) = none)
    (hopen : ¬ (continueCell db userId e.sourceIdentity).blocked e.updatedAt) :
    (run [.upsertContinueWatching userId e none] db).continueWatching.get (userId, e.sourceIdentity) =
      some (e.row none) := by
  have hs : e.normalizedSeriesId = [] := by
    rw [ContinueWatchingEntry.normalizedSeriesId, hseries]
    rfl
  have ho : e.ownTmdbId = none := by
    have hm : e.normalizedMediaType = [] := by
      rw [ContinueWatchingEntry.normalizedMediaType, hmedia]
      rfl
    rw [ContinueWatchingEntry.ownTmdbId, hm]
    rfl
  have hd : e.derivedTmdbId = none := by
    rw [ContinueWatchingEntry.derivedTmdbId, hs]
    rfl
  have hguard : supersededBySeries db userId e = false := by
    simp [supersededBySeries, hs, ContinueWatchingEntry.canonicalTmdbId, ho, hd]
  rw [blocked_continueCell, Bool.not_eq_true] at hopen
  rw [run_cons, run_nil, Transaction.apply, get_upsertUserContinueWatching hguard hopen, if_pos rfl,
    hgone]
  rfl

/-- Nothing as old as the deletion is in view of an identity whose rank it reaches. -/
theorem watch_durable {keeps : List Transaction} {d : Int} (h : RunKeeps (KeepsWatch u x) keeps db)
    (hrank : (LastWriter.stamp d true : WithBot (Int ×ₗ Bool)) ≤ (watchCell db u x).version)
    {row : WatchProgressRow} (hg : (run keeps db).watchProgress.get (u, x) = some row) :
    d < row.updatedAt := by
  have hrun := rank_run (fun db => (watchCell db u x).version)
    (fun db tx => watch_version_le_step) h
  have hrow := (LastWriter.delete_le_version_iff.mp (hrank.trans hrun)).1
  exact hrow row.updatedAt row.resumeSeconds (by simp [watchCell, hg])

theorem continue_durable {keeps : List Transaction} {d : Int}
    (h : RunKeeps (KeepsContinue u x) keeps db)
    (hrank : (LastWriter.stamp d true : WithBot (Int ×ₗ Bool)) ≤ (continueCell db u x).version)
    {row : ContinueWatchingRow} (hg : (run keeps db).continueWatching.get (u, x) = some row) :
    d < row.updatedAt := by
  have hrun := rank_run (fun db => (continueCell db u x).version)
    (fun db tx => continue_version_le_step) h
  have hrow := (LastWriter.delete_le_version_iff.mp (hrank.trans hrun)).1
  exact hrow row.updatedAt row (by simp [continueCell, hg])

/-- An acknowledged deletion lasts over every run of kept steps that requests commit iff
it marks its identity. -/
theorem delete_durable_iff (now : Nat) (payload : Value) (request : DeleteRequest)
    (h : parseDelete now payload = .ok request) (db : UserStateDb) (userId : Int) :
    ((∀ after, (∀ tx ∈ after, Issued tx) →
      RunKeeps (KeepsWatch userId request.sourceIdentity) after
        ((request.watchProgress userId).apply db) →
      ∀ row, (run after ((request.watchProgress userId).apply db)).watchProgress.get
        (userId, request.sourceIdentity) = some row → request.deletedAt < row.updatedAt) ↔
      request.MarksWatch db userId) ∧
    ((∀ after, (∀ tx ∈ after, Issued tx) →
      RunKeeps (KeepsContinue userId request.sourceIdentity) after
        ((request.continueWatching userId).apply db) →
      ∀ row, (run after ((request.continueWatching userId).apply db)).continueWatching.get
        (userId, request.sourceIdentity) = some row → request.deletedAt < row.updatedAt) ↔
      request.MarksContinue db userId) := by
  constructor
  · constructor
    · intro hall
      rw [← watch_rank_iff, LastWriter.delete_le_version_iff]
      refine ⟨fun t v hr => ?_, fun hr => ?_⟩
      · obtain ⟨row, hg, he⟩ := Option.map_eq_some_iff.mp hr
        obtain ⟨rfl, -⟩ := Prod.mk.inj he
        exact hall [] (by simp) trivial row hg
      · by_contra hopen
        obtain ⟨resumeSeconds, hissued⟩ := issued_upsertWatchProgress h userId
        have hg := watch_resurrects resumeSeconds (Option.map_eq_none_iff.mp hr) hopen
        have hlt := hall [.upsertWatchProgress userId _ resumeSeconds _] (by simpa using hissued)
          ⟨trivial, trivial⟩ _ hg
        exact lt_irrefl _ hlt
    · intro hm after _ hkeeps row hg
      exact watch_durable hkeeps (watch_rank_iff.mpr hm) hg
  · constructor
    · intro hall
      rw [← continue_rank_iff, LastWriter.delete_le_version_iff]
      refine ⟨fun t v hr => ?_, fun hr => ?_⟩
      · obtain ⟨row, hg, he⟩ := Option.map_eq_some_iff.mp hr
        obtain ⟨rfl, -⟩ := Prod.mk.inj he
        exact hall [] (by simp) trivial row hg
      · by_contra hopen
        obtain ⟨e, hissued, hid, hmedia, hseries, hat⟩ := issued_upsertContinueWatching h userId
        rw [← hid] at hr hopen hall
        rw [← hat] at hopen hall
        have hg := continue_resurrects hseries hmedia (Option.map_eq_none_iff.mp hr) hopen
        have hlt := hall [.upsertContinueWatching userId e none] (by simpa using hissued)
          ⟨fun _ _ _ row _ hx => absurd rfl hx, trivial⟩ _ hg
        exact lt_irrefl _ hlt
    · intro hm after _ hkeeps row hg
      exact continue_durable hkeeps (continue_rank_iff.mpr hm) hg

/-- `{"sourceIdentity": …, "updatedAt": …}`. -/
def mutationPayload (identity : Text) (updatedAt : Int) : Value :=
  .object [("sourceIdentity".toList, .string identity), ("updatedAt".toList, .int updatedAt)]

/-- A movie's deletion lasts in both tables: the replay of an older save is refused. -/
theorem delete_durable_movie :
    ∃ progress entry,
      userWatchProgressPut 1 6000 (mutationPayload "movie:1".toList 300) = .ok progress ∧
      userContinueWatchingPut 1 6000 (mutationPayload "movie:1".toList 300) none = .ok entry ∧
      (∀ row, (run progress (Transaction.apply {}
        (.deleteWatchProgress 1 "movie:1".toList 400))).watchProgress.get
          (1, "movie:1".toList) = some row → 400 < row.updatedAt) ∧
      ∀ row, (run entry (Transaction.apply {}
        (.deleteContinueWatching 1 "movie:1".toList 400))).continueWatching.get
          (1, "movie:1".toList) = some row → 400 < row.updatedAt := by
  have hparse : parseDelete 5000 (mutationPayload "movie:1".toList 400) =
      .ok ⟨"movie:1".toList, [], 400⟩ := by rfl
  obtain ⟨hwatch, hcontinue⟩ := delete_durable_iff 5000 _ _ hparse {} 1
  refine ⟨_, _, rfl, rfl, hwatch.mpr (.inl rfl) _ (fun tx hm => ?_) ⟨trivial, trivial⟩,
    hcontinue.mpr (.inl rfl) _ (fun tx hm => ?_) ⟨fun _ _ _ row _ hne => absurd rfl hne, trivial⟩⟩
  · exact ⟨.putWatchProgress (mutationPayload "movie:1".toList 300), 1, 6000, _, rfl, hm⟩
  · exact ⟨.putContinueWatching (mutationPayload "movie:1".toList 300) none, 1, 6000, _, rfl, hm⟩

/-- The deletion of an episode whose checkpoint has not arrived yet is acknowledged, and
the older checkpoint then comes into view. -/
theorem deleted_episode_resurrected :
    ∃ deletion save, userWatchProgressDelete 1 5000
        (mutationPayload "series:show:episode:3".toList 200) = .ok deletion ∧
      userWatchProgressPut 1 6000 (mutationPayload "series:show:episode:3".toList 100) = .ok save ∧
      (run (deletion ++ save) {}).watchProgress.get (1, "series:show:episode:3".toList) =
        some ⟨0, 100⟩ :=
  ⟨_, _, rfl, rfl, by decide +kernel⟩

end StreamArena.UserState
