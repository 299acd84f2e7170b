import StreamArena.UserState.ContinueWatching

/-! Upserts of one series and item deletes of its identities, in any order.
At most the newest accepted entry is visible; whether every order agrees turns
on which entries a delete covers. -/
namespace StreamArena.UserState
open AsciiText KeyedTable

/-- One continue-watching mutation, with what the cache database said at the time. -/
inductive ContinueOp where
  | upsert (e : ContinueWatchingEntry) (reconciled : Option ContinueWatchingSourceMetadata)
  | delete (identity : Text) (deletedAt : Int)

def ContinueOp.apply (userId : Int) (db : UserStateDb) : ContinueOp → UserStateDb
  | .upsert e reconciled => (upsertUserContinueWatching db userId e reconciled).1
  | .delete identity deletedAt => deleteItem db userId .continueWatching identity deletedAt

def runContinue (userId : Int) (ops : List ContinueOp) (db : UserStateDb) : UserStateDb :=
  ops.foldl (ContinueOp.apply userId) db

/-- Entries of one non-empty series id with pairwise distinct versions. -/
structure OneSeries (seriesId : Text) (ops : List ContinueOp) : Prop where
  nonempty : seriesId ≠ []
  series : ∀ e r, .upsert e r ∈ ops → e.normalizedSeriesId = seriesId
  distinct : ∀ e r e' r', .upsert e r ∈ ops → .upsert e' r' ∈ ops → e.updatedAt = e'.updatedAt →
    e = e' ∧ r = r'

/-- Every visible row of the user is an entry of the list. -/
def RowsFrom (ops : List ContinueOp) (userId : Int) (db : UserStateDb) : Prop :=
  ∀ x row, db.continueWatching.get (userId, x) = some row →
    ∃ e r, .upsert e r ∈ ops ∧ x = e.sourceIdentity ∧ row = e.row r

/-- The user sees one row and no other. -/
def ShowsOnly (userId : Int) (db : UserStateDb) (x : Text) (row : ContinueWatchingRow) : Prop :=
  ∀ y row', db.continueWatching.get (userId, y) = some row' ↔ y = x ∧ row' = row

def TombstonesBelow (userId : Int) (db : UserStateDb) (x : Text) (t : Int) : Prop :=
  ∀ d, db.tombstone userId .continueWatching x = some d → d < t

variable {seriesId : Text} {ops : List ContinueOp} {userId : Int} {db : UserStateDb}
  {e : ContinueWatchingEntry} {reconciled : Option ContinueWatchingSourceMetadata}

theorem lower_row_seriesId (e : ContinueWatchingEntry)
    (reconciled : Option ContinueWatchingSourceMetadata) :
    toAsciiLowercase (e.row reconciled).seriesId = e.normalizedSeriesId := by
  show toAsciiLowercase e.seriesId = normalizeSeriesId e.seriesId
  rw [normalizeSeriesId, e.seriesId_trimmed]

theorem inSeries_of_rowsFrom (h : OneSeries seriesId ops) (hr : RowsFrom ops userId db) {x : Text}
    {row : ContinueWatchingRow} (hg : db.continueWatching.get (userId, x) = some row) :
    toAsciiLowercase row.seriesId = seriesId := by
  obtain ⟨e, r, hm, -, rfl⟩ := hr x row hg
  rw [lower_row_seriesId, h.series e r hm]

theorem superseded_in_series (h : OneSeries seriesId ops) (hr : RowsFrom ops userId db)
    (he : .upsert e reconciled ∈ ops) :
    supersededBySeries db userId e = true ↔
      ∃ x row, db.continueWatching.get (userId, x) = some row ∧ row.updatedAt > e.updatedAt := by
  have hs := h.series e reconciled he
  rw [supersededBySeries_iff, hs]
  constructor
  · rintro ⟨-, x, row, hg, -, ht⟩
    exact ⟨x, row, hg, ht⟩
  · rintro ⟨x, row, hg, ht⟩
    refine ⟨.inl h.nonempty, x, row, hg, ?_, ht⟩
    simp [continueMatches, inSeries_of_rowsFrom h hr hg]

theorem removes_in_series (h : OneSeries seriesId ops) (hr : RowsFrom ops userId db)
    (he : .upsert e reconciled ∈ ops) {x : Text} {row : ContinueWatchingRow}
    (hg : db.continueWatching.get (userId, x) = some row) : e.removes x row = true := by
  have hs := h.series e reconciled he
  refine removes_iff.mpr (.inl ⟨hs ▸ h.nonempty, ?_⟩)
  simp [continueSelected, hs, inSeries_of_rowsFrom h hr hg]

theorem tombs_in_series (h : OneSeries seriesId ops) (hr : RowsFrom ops userId db)
    (he : .upsert e reconciled ∈ ops) {x : Text} {row : ContinueWatchingRow}
    (hg : db.continueWatching.get (userId, x) = some row) (ht : row.updatedAt ≤ e.updatedAt) :
    e.tombs x row = true := by
  have hs := h.series e reconciled he
  refine tombs_iff.mpr ⟨ht, .inl ⟨hs ▸ h.nonempty, ?_⟩⟩
  simp [continueMatches, hs, inSeries_of_rowsFrom h hr hg]

/-- An upsert of the series is refused and changes nothing, or leaves its row alone in view. -/
theorem upsert_series_cases (h : OneSeries seriesId ops) (hr : RowsFrom ops userId db)
    (he : .upsert e reconciled ∈ ops) :
    (upsertUserContinueWatching db userId e reconciled).1 = db ∧
        (supersededBySeries db userId e = true ∨ mutationIsBlockedByTombstone db userId
          .continueWatching e.sourceIdentity e.updatedAt = true) ∨
      supersededBySeries db userId e = false ∧ mutationIsBlockedByTombstone db userId
          .continueWatching e.sourceIdentity e.updatedAt = false ∧
        ShowsOnly userId (upsertUserContinueWatching db userId e reconciled).1 e.sourceIdentity
          (e.row reconciled) := by
  cases hs : supersededBySeries db userId e with
  | true => exact .inl ⟨by rw [upsert_refused (.inl hs)], .inl rfl⟩
  | false =>
    cases hb : mutationIsBlockedByTombstone db userId .continueWatching e.sourceIdentity
        e.updatedAt with
    | true => exact .inl ⟨by rw [upsert_refused (.inr hb)], .inr rfl⟩
    | false =>
      refine .inr ⟨rfl, rfl, fun y row' => ?_⟩
      rw [get_upsertUserContinueWatching hs hb]
      by_cases hy : y = e.sourceIdentity
      · subst hy
        rw [if_pos rfl]
        have hnew : (db.continueWatching.get (userId, e.sourceIdentity)).elim (e.row reconciled)
            (fun row => if e.updatedAt ≥ row.updatedAt then e.row reconciled else row) =
              e.row reconciled := by
          cases hg : db.continueWatching.get (userId, e.sourceIdentity) with
          | none => rfl
          | some row =>
            rw [← Bool.not_eq_true, superseded_in_series h hr he] at hs
            have hle : row.updatedAt ≤ e.updatedAt := not_lt.mp fun ht => hs ⟨_, row, hg, ht⟩
            simp [hle]
        rw [hnew, Option.some.injEq, eq_comm, and_iff_right rfl]
      · rw [if_neg (by simpa using hy)]
        have hgone : (db.continueWatching.get (userId, y)).filter (fun row =>
            !(decide (userId = userId) && e.removes y row)) = none := by
          rw [Option.filter_eq_none_iff]
          intro row hg
          simp [removes_in_series h hr he hg]
        rw [hgone]
        simp [hy]

theorem get_deleteItem (x y : Text) (d : Int) :
    (deleteItem db userId .continueWatching x d).continueWatching.get (userId, y) =
      if y = x then (db.continueWatching.get (userId, y)).filter fun row => d < row.updatedAt
      else db.continueWatching.get (userId, y) := by
  simp only [deleteItem, recordTombstone_continueWatching, get_deleteWhere]
  by_cases hy : y = x
  · rw [if_pos hy]
    congr 1
    funext row
    simp only [hy, decide_true, Bool.true_and, ← decide_not, not_le]
  · rw [if_neg hy, filter_keep fun row _ => by simp [hy]]

theorem rowsFrom_apply (h : OneSeries seriesId ops) (hr : RowsFrom ops userId db) {op : ContinueOp}
    (hop : op ∈ ops) : RowsFrom ops userId (op.apply userId db) := by
  cases op with
  | upsert e r =>
    obtain ⟨hsame, -⟩ | ⟨-, -, hshow⟩ := upsert_series_cases h hr hop
    · exact fun x row hg => hr x row (hsame ▸ hg)
    · intro x row hg
      obtain ⟨rfl, rfl⟩ := (hshow x row).mp hg
      exact ⟨e, r, hop, rfl, rfl⟩
  | delete y d =>
    intro x row hg
    rw [ContinueOp.apply, get_deleteItem] at hg
    split at hg
    · exact hr x row (Option.filter_eq_some_iff.mp hg).1
    · exact hr x row hg

theorem rowsFrom_run (h : OneSeries seriesId ops) {arrivals : List ContinueOp}
    (hsub : ∀ op ∈ arrivals, op ∈ ops) (hr : RowsFrom ops userId db) :
    RowsFrom ops userId (runContinue userId arrivals db) :=
  List.foldlRecOn arrivals (ContinueOp.apply userId) hr fun _ hr op hop =>
    rowsFrom_apply h hr (hsub op hop)

/-- Until an entry newer than all others arrives, nothing marks its identity as late as itself. -/
theorem tombstonesBelow_apply (h : OneSeries seriesId ops) (hr : RowsFrom ops userId db)
    (he : .upsert e reconciled ∈ ops)
    (hnewest : ∀ e' r', .upsert e' r' ∈ ops → e'.updatedAt ≤ e.updatedAt)
    (hlive : ∀ d, .delete e.sourceIdentity d ∈ ops → d < e.updatedAt) {op : ContinueOp}
    (hop : op ∈ ops) (hb : TombstonesBelow userId db e.sourceIdentity e.updatedAt) :
    TombstonesBelow userId (op.apply userId db) e.sourceIdentity e.updatedAt := by
  cases op with
  | upsert e' r' =>
    obtain ⟨hsame, -⟩ | ⟨hs, hbl, -⟩ := upsert_series_cases h hr hop
    · rw [ContinueOp.apply, hsame]
      exact hb
    · intro d hd
      rw [ContinueOp.apply, tombstone_upsertUserContinueWatching hs hbl] at hd
      by_cases hx : e.sourceIdentity = e'.sourceIdentity
      · simp [hx] at hd
      · have hlt : e'.updatedAt < e.updatedAt := by
          refine lt_of_le_of_ne (hnewest e' r' hop) fun ht => hx ?_
          rw [(h.distinct e' r' e reconciled hop he ht).1]
        rw [if_neg (by simpa using hx)] at hd
        split at hd
        · rcases marker_of_raised hd with rfl | hold
          · exact hlt
          · exact hb d hold
        · exact hb d hd
  | delete y d' =>
    intro d hd
    rw [ContinueOp.apply, deleteItem] at hd
    have hd := (tombstone_recordTombstone userId .continueWatching e.sourceIdentity d').symm.trans hd
    by_cases hy : e.sourceIdentity = y
    · have hlt := hlive d' (hy ▸ hop)
      rw [if_pos (by rw [hy])] at hd
      rcases marker_of_raised hd with rfl | hold
      · exact hlt
      · exact hb d (hy ▸ hold)
    · rw [if_neg (by simpa using hy)] at hd
      exact hb d hd

/-- The newest entry, not covered by a delete, comes into view when it arrives. -/
theorem showsOnly_arrival (h : OneSeries seriesId ops) (hr : RowsFrom ops userId db)
    (he : .upsert e reconciled ∈ ops)
    (hnewest : ∀ e' r', .upsert e' r' ∈ ops → e'.updatedAt ≤ e.updatedAt)
    (hb : TombstonesBelow userId db e.sourceIdentity e.updatedAt) :
    ShowsOnly userId (ContinueOp.apply userId db (.upsert e reconciled)) e.sourceIdentity
      (e.row reconciled) := by
  obtain ⟨-, hs | hbl⟩ | ⟨-, -, hshow⟩ := upsert_series_cases h hr he
  · obtain ⟨x, row, hg, ht⟩ := (superseded_in_series h hr he).mp hs
    obtain ⟨e', r', hm, -, rfl⟩ := hr x row hg
    have hle := hnewest e' r' hm
    exact absurd ht (not_lt.mpr hle)
  · obtain ⟨d, hd, hle⟩ := mutationIsBlockedByTombstone_iff.mp hbl
    have hlt := hb d hd
    omega
  · exact hshow

/-- In view, the newest live entry stays in view. -/
theorem showsOnly_apply (h : OneSeries seriesId ops) (hr : RowsFrom ops userId db)
    (he : .upsert e reconciled ∈ ops)
    (hlive : ∀ d, .delete e.sourceIdentity d ∈ ops → d < e.updatedAt)
    (hnewest : ∀ e' r', .upsert e' r' ∈ ops → e'.updatedAt ≤ e.updatedAt)
    {op : ContinueOp} (hop : op ∈ ops)
    (hshow : ShowsOnly userId db e.sourceIdentity (e.row reconciled)) :
    ShowsOnly userId (op.apply userId db) e.sourceIdentity (e.row reconciled) := by
  have hg := (hshow e.sourceIdentity (e.row reconciled)).mpr ⟨rfl, rfl⟩
  cases op with
  | upsert e' r' =>
    obtain ⟨hsame, -⟩ | ⟨hs, -, hshow'⟩ := upsert_series_cases h hr hop
    · rw [ContinueOp.apply, hsame]
      exact hshow
    · have hge : e.updatedAt ≤ e'.updatedAt := by
        rw [← Bool.not_eq_true, superseded_in_series h hr hop] at hs
        exact not_lt.mp fun ht => hs ⟨_, _, hg, ht⟩
      have heq := le_antisymm hge (hnewest e' r' hop)
      obtain ⟨rfl, rfl⟩ := h.distinct e reconciled e' r' he hop heq
      exact hshow'
  | delete y d =>
    intro z row'
    rw [ContinueOp.apply, get_deleteItem]
    by_cases hz : z = y
    · rw [if_pos hz, Option.filter_eq_some_iff, hshow]
      constructor
      · exact fun hp => hp.1
      · rintro ⟨rfl, rfl⟩
        exact ⟨⟨rfl, rfl⟩, decide_eq_true (hlive d (hz ▸ hop))⟩
    · rw [if_neg hz]
      exact hshow z row'

/-- Whatever the order, a newest entry that no delete covers is all that remains. -/
theorem showsOnly_run (h : OneSeries seriesId ops) (he : .upsert e reconciled ∈ ops)
    (hlive : ∀ d, .delete e.sourceIdentity d ∈ ops → d < e.updatedAt)
    (hnewest : ∀ e' r', .upsert e' r' ∈ ops → e'.updatedAt ≤ e.updatedAt)
    {arrivals : List ContinueOp} (hsub : ∀ op ∈ arrivals, op ∈ ops)
    (hr : RowsFrom ops userId db)
    (hstart : ShowsOnly userId db e.sourceIdentity (e.row reconciled) ∨
      .upsert e reconciled ∈ arrivals ∧ TombstonesBelow userId db e.sourceIdentity e.updatedAt) :
    ShowsOnly userId (runContinue userId arrivals db) e.sourceIdentity (e.row reconciled) := by
  induction arrivals generalizing db with
  | nil => exact hstart.resolve_right (by simp)
  | cons op arrivals ih =>
    have hop := hsub op List.mem_cons_self
    refine ih (fun op' hop' => hsub op' (List.mem_cons_of_mem op hop')) (rowsFrom_apply h hr hop) ?_
    rcases hstart with hshow | ⟨hm, hb⟩
    · exact .inl (showsOnly_apply h hr he hlive hnewest hop hshow)
    · rcases List.mem_cons.mp hm with rfl | hm
      · exact .inl (showsOnly_arrival h hr he hnewest hb)
      · exact .inr ⟨hm, tombstonesBelow_apply h hr he hnewest hlive hop hb⟩

/-- No mutation of the series lowers the rank of an identity. -/
theorem version_le_continueOp (h : OneSeries seriesId ops) (hr : RowsFrom ops userId db)
    {op : ContinueOp} (hop : op ∈ ops) (x : Text) :
    (continueCell db userId x).version ≤ (continueCell (op.apply userId db) userId x).version := by
  cases op with
  | upsert e r =>
    cases hs : supersededBySeries db userId e with
    | true => rw [ContinueOp.apply, upsert_refused (.inl hs)]
    | false =>
      refine version_le_upsert userId x fun row _ hg _ _ => tombs_in_series h hr hop hg ?_
      rw [← Bool.not_eq_true, superseded_in_series h hr hop] at hs
      exact not_lt.mp fun ht => hs ⟨x, row, hg, ht⟩
  | delete y d =>
    rw [ContinueOp.apply, continueCell_deleteItem]
    by_cases hx : x = y
    · subst hx
      rw [if_pos rfl]
      exact (le_max_left _ _).trans (LastWriter.version_delete_le _ d)
    · rw [if_neg (by simpa using hx)]

/-- After any order, an identity ranks at least as high as each of its deletes. -/
theorem delete_le_version_run (h : OneSeries seriesId ops) {arrivals : List ContinueOp}
    (hsub : ∀ op ∈ arrivals, op ∈ ops) (hr : RowsFrom ops userId db) {x : Text} {d : Int}
    (hd : .delete x d ∈ arrivals ∨
      (LastWriter.stamp d true : WithBot (Int ×ₗ Bool)) ≤ (continueCell db userId x).version) :
    (LastWriter.stamp d true : WithBot (Int ×ₗ Bool)) ≤
      (continueCell (runContinue userId arrivals db) userId x).version := by
  induction arrivals generalizing db with
  | nil => exact hd.resolve_left (by simp)
  | cons op arrivals ih =>
    have hop := hsub op List.mem_cons_self
    refine ih (fun op' hop' => hsub op' (List.mem_cons_of_mem op hop')) (rowsFrom_apply h hr hop) ?_
    rcases hd with hm | hle
    · rcases List.mem_cons.mp hm with rfl | hm
      · refine .inr ?_
        rw [ContinueOp.apply, continueCell_deleteItem, if_pos rfl]
        exact (le_max_right _ _).trans (LastWriter.version_delete_le _ d)
      · exact .inl hm
    · exact .inr (hle.trans (version_le_continueOp h hr hop x))

def Covered (ops : List ContinueOp) (e : ContinueWatchingEntry) : Prop :=
  ∃ d, .delete e.sourceIdentity d ∈ ops ∧ e.updatedAt ≤ d

/-- Whatever the order, a covered entry is not in view at the end. -/
theorem covered_not_shown (h : OneSeries seriesId ops) {arrivals : List ContinueOp}
    (hmem : ∀ op, op ∈ arrivals ↔ op ∈ ops) {x : Text} {row : ContinueWatchingRow}
    (hg : (runContinue userId arrivals {}).continueWatching.get (userId, x) = some row) :
    ∃ e r, .upsert e r ∈ ops ∧ x = e.sourceIdentity ∧ row = e.row r ∧ ¬ Covered ops e := by
  have hr : RowsFrom ops userId {} := fun x row hg => by simp at hg
  have hsub := fun op (hop : op ∈ arrivals) => (hmem op).mp hop
  obtain ⟨e, r, hm, rfl, rfl⟩ := rowsFrom_run h hsub hr x row hg
  refine ⟨e, r, hm, rfl, rfl, ?_⟩
  rintro ⟨d, hd, hle⟩
  have hv := delete_le_version_run h hsub hr (.inl ((hmem _).mpr hd))
  have hlt := (LastWriter.delete_le_version_iff.mp hv).1 e.updatedAt (e.row r) (by
    simp [continueCell, hg])
  omega

variable (userId db) in
/-- Deletes on an empty table leave it empty, with their own times as markers. -/
theorem run_deletes {ds : List ContinueOp} (hds : ∀ e r, .upsert e r ∉ ds)
    (hempty : ∀ x, db.continueWatching.get (userId, x) = none) :
    (∀ x, (runContinue userId ds db).continueWatching.get (userId, x) = none) ∧
    ∀ x d, (runContinue userId ds db).tombstone userId .continueWatching x = some d →
      .delete x d ∈ ds ∨ db.tombstone userId .continueWatching x = some d := by
  induction ds generalizing db with
  | nil => exact ⟨hempty, fun x d hd => .inr hd⟩
  | cons op ds ih =>
    cases op with
    | upsert e r => exact absurd List.mem_cons_self (hds e r)
    | delete y d' =>
      have hempty' (x : Text) : (ContinueOp.apply userId db (.delete y d')).continueWatching.get
          (userId, x) = none := by
        rw [ContinueOp.apply, get_deleteItem, hempty, Option.filter_none, ite_self]
      obtain ⟨hrows, htombs⟩ := ih _ (fun e r hm => hds e r (List.mem_cons_of_mem _ hm)) hempty'
      refine ⟨hrows, fun x d hd => ?_⟩
      rcases htombs x d hd with hm | ho
      · exact .inl (List.mem_cons_of_mem _ hm)
      · have ho := (tombstone_recordTombstone userId .continueWatching x d').symm.trans ho
        by_cases hx : x = y
        · subst hx
          rw [if_pos rfl] at ho
          rcases marker_of_raised ho with rfl | hold
          · exact .inl List.mem_cons_self
          · exact .inr hold
        · rw [if_neg (by simpa using hx)] at ho
          exact .inr ho

/-- Entries blocked by the markers already there pass without a trace. -/
theorem run_blocked {us : List ContinueOp} (hus : ∀ op ∈ us, ∃ e r, op = .upsert e r ∧
      mutationIsBlockedByTombstone db userId .continueWatching e.sourceIdentity e.updatedAt = true) :
    runContinue userId us db = db := by
  induction us with
  | nil => rfl
  | cons op us ih =>
    obtain ⟨e, r, rfl, hb⟩ := hus op List.mem_cons_self
    rw [runContinue, List.foldl_cons, ContinueOp.apply, upsert_refused (.inr hb)]
    exact ih fun op hop => hus op (List.mem_cons_of_mem _ hop)

theorem runContinue_append (as bs : List ContinueOp) :
    runContinue userId (as ++ bs) db = runContinue userId bs (runContinue userId as db) :=
  List.foldl_append

def IsNewest (ops : List ContinueOp) (e : ContinueWatchingEntry)
    (reconciled : Option ContinueWatchingSourceMetadata) : Prop :=
  .upsert e reconciled ∈ ops ∧ ∀ e' r', .upsert e' r' ∈ ops → e'.updatedAt ≤ e.updatedAt

theorem exists_newest (h : ∃ e r, .upsert e r ∈ ops) : ∃ e r, IsNewest ops e r := by
  induction ops with
  | nil => simp at h
  | cons op ops ih =>
    by_cases hrest : ∃ e r, .upsert e r ∈ ops
    · obtain ⟨e, r, hm, hmax⟩ := ih hrest
      cases op with
      | delete y d =>
        exact ⟨e, r, List.mem_cons_of_mem _ hm, fun e' r' hm' => hmax e' r' (by simpa using hm')⟩
      | upsert a b =>
        rcases le_total a.updatedAt e.updatedAt with hle | hle
        · refine ⟨e, r, List.mem_cons_of_mem _ hm, fun e' r' hm' => ?_⟩
          rcases List.mem_cons.mp hm' with he | hm'
          · obtain ⟨rfl, rfl⟩ := ContinueOp.upsert.inj he
            exact hle
          · exact hmax e' r' hm'
        · refine ⟨a, b, List.mem_cons_self, fun e' r' hm' => ?_⟩
          rcases List.mem_cons.mp hm' with he | hm'
          · obtain ⟨rfl, rfl⟩ := ContinueOp.upsert.inj he
            exact le_rfl
          · exact (hmax e' r' hm').trans hle
    · obtain ⟨e, r, hm⟩ := h
      refine ⟨e, r, hm, fun e' r' hm' => ?_⟩
      rcases List.mem_cons.mp hm with rfl | hm
      · rcases List.mem_cons.mp hm' with he | hm'
        · obtain ⟨rfl, rfl⟩ := ContinueOp.upsert.inj he
          exact le_rfl
        · exact absurd ⟨e', r', hm'⟩ hrest
      · exact absurd ⟨e, r, hm⟩ hrest

def ContinueOp.isDelete : ContinueOp → Bool
  | .upsert .. => false
  | .delete .. => true

open Classical in
/-- Deletes first, then the entries they cover, then the rest. -/
noncomputable def deletesFirst (ops : List ContinueOp) : List ContinueOp :=
  let covered : ContinueOp → Bool
    | .upsert e _ => decide (Covered ops e)
    | .delete .. => false
  let upserts := ops.filter fun op => !op.isDelete
  ops.filter ContinueOp.isDelete ++
    (upserts.filter covered ++ upserts.filter fun op => !covered op)

theorem deletesFirst_perm (ops : List ContinueOp) : (deletesFirst ops).Perm ops :=
  ((List.filter_append_perm _ _).append_left _).trans (List.filter_append_perm _ _)

variable (userId) in
/-- Deletes first, and the newest entry they leave uncovered is in view. -/
theorem deletesFirst_shows (h : OneSeries seriesId ops)
    (hlive : ∃ e r, .upsert e r ∈ ops ∧ ¬ Covered ops e) :
    ∃ e r, .upsert e r ∈ ops ∧ ¬ Covered ops e ∧
      ShowsOnly userId (runContinue userId (deletesFirst ops) {}) e.sourceIdentity (e.row r) := by
  classical
  let covered : ContinueOp → Bool
    | .upsert e _ => decide (Covered ops e)
    | .delete .. => false
  let deletes := ops.filter ContinueOp.isDelete
  let upserts := ops.filter fun op => !op.isDelete
  let live := upserts.filter fun op => !covered op
  have hmem_live (e : ContinueWatchingEntry) (r : Option ContinueWatchingSourceMetadata) :
      .upsert e r ∈ live ↔ .upsert e r ∈ ops ∧ ¬ Covered ops e := by
    simp [live, upserts, covered, ContinueOp.isDelete]
  have hdel_live (y : Text) (d : Int) : .delete y d ∉ live := by
    simp [live, upserts, ContinueOp.isDelete]
  have hmem_deletes (y : Text) (d : Int) : .delete y d ∈ deletes ↔ .delete y d ∈ ops := by
    simp [deletes, ContinueOp.isDelete]
  -- the markers after the deletes, and nothing in view
  obtain ⟨hrows, htombs⟩ := run_deletes userId {}
    (show ∀ e r, .upsert e r ∉ deletes by simp [deletes, ContinueOp.isDelete]) fun x => by simp
  have hr : RowsFrom ops userId {} := fun x row hg => by simp at hg
  have hsub : ∀ op ∈ deletes, op ∈ ops := fun op hop => (List.mem_filter.mp hop).1
  -- the covered entries are all blocked
  have hcovered : runContinue userId (upserts.filter covered) (runContinue userId deletes {}) =
      runContinue userId deletes {} := by
    refine run_blocked fun op hop => ?_
    obtain ⟨hup, hc⟩ := List.mem_filter.mp hop
    cases op with
    | delete y d => simp [covered] at hc
    | upsert e r =>
      obtain ⟨d, hd, hle⟩ : Covered ops e := by simpa [covered] using hc
      have hv := delete_le_version_run h hsub hr (.inl ((hmem_deletes _ d).mpr hd))
      obtain ⟨d', hd', hle'⟩ := (LastWriter.delete_le_version_iff.mp hv).2 (by
        simp [continueCell, hrows])
      exact ⟨e, r, rfl, mutationIsBlockedByTombstone_iff.mpr ⟨d', hd', hle.trans hle'⟩⟩
  -- what is left runs as a series of its own
  have hone : OneSeries seriesId live :=
    ⟨h.nonempty, fun e r hm => h.series e r ((hmem_live e r).mp hm).1,
      fun e r e' r' hm hm' => h.distinct e r e' r' ((hmem_live e r).mp hm).1
        ((hmem_live e' r').mp hm').1⟩
  obtain ⟨e, r, hm, hmax⟩ : ∃ e r, IsNewest live e r := by
    obtain ⟨e, r, hm⟩ := hlive
    exact exists_newest ⟨e, r, (hmem_live e r).mpr hm⟩
  have hops := (hmem_live e r).mp hm
  refine ⟨e, r, hops.1, hops.2, ?_⟩
  have hrun : runContinue userId (deletesFirst ops) {} =
      runContinue userId live (runContinue userId deletes {}) := by
    rw [show deletesFirst ops = deletes ++ (upserts.filter covered ++ live) from rfl,
      runContinue_append, runContinue_append, hcovered]
  rw [hrun]
  refine showsOnly_run hone hm (fun d hd => absurd hd (hdel_live _ d)) hmax (fun op hop => hop)
    (fun x row hg => by simp [hrows] at hg) (.inr ⟨hm, fun d hd => ?_⟩)
  have hd := (htombs _ d hd).resolve_right (by simp [UserStateDb.tombstone])
  exact not_le.mp fun hle => hops.2 ⟨d, (hmem_deletes _ d).mp hd, hle⟩

/-- A newest entry that is not covered is what every order ends with. -/
theorem newest_shown (h : OneSeries seriesId ops) {arrivals : List ContinueOp}
    (hmem : ∀ op, op ∈ arrivals ↔ op ∈ ops) (hnew : IsNewest ops e reconciled)
    (hc : ¬ Covered ops e) :
    ShowsOnly userId (runContinue userId arrivals {}) e.sourceIdentity (e.row reconciled) := by
  have hlive : ∀ d, .delete e.sourceIdentity d ∈ ops → d < e.updatedAt :=
    fun d hd => not_le.mp fun hle => hc ⟨d, hd, hle⟩
  refine showsOnly_run h hnew.1 hlive hnew.2 (fun op hop => (hmem op).mp hop)
    (fun x row hg => by simp at hg) (.inr ⟨(hmem _).mpr hnew.1, fun d hd => ?_⟩)
  simp [UserStateDb.tombstone] at hd

/-- The result every arrival order should give. -/
def Collapsed (ops : List ContinueOp) (userId : Int) (db : UserStateDb) : Prop :=
  ∀ x row, db.continueWatching.get (userId, x) = some row ↔
    ∃ e r, IsNewest ops e r ∧ ¬ Covered ops e ∧ x = e.sourceIdentity ∧ row = e.row r

/-- Every order gives the newest entry, or nothing when it is covered, iff a newest
entry that is covered leaves no uncovered entry behind. -/
theorem series_collapse_iff {seriesId : Text} {ops : List ContinueOp} (h : OneSeries seriesId ops)
    (userId : Int) :
    (∀ arrivals, arrivals.Perm ops → Collapsed ops userId (runContinue userId arrivals {})) ↔
      ((∃ e r, .upsert e r ∈ ops ∧ ¬ Covered ops e) → ∃ e r, IsNewest ops e r ∧ ¬ Covered ops e) := by
  constructor
  · intro hall hlive
    obtain ⟨e, r, -, -, hshow⟩ := deletesFirst_shows userId h hlive
    have hg := (hshow e.sourceIdentity (e.row r)).mpr ⟨rfl, rfl⟩
    obtain ⟨e', r', hnew, hc, -⟩ := (hall _ (deletesFirst_perm ops) _ _).mp hg
    exact ⟨e', r', hnew, hc⟩
  · intro hcond arrivals hperm x row
    have hmem (op : ContinueOp) : op ∈ arrivals ↔ op ∈ ops := hperm.mem_iff
    constructor
    · intro hg
      obtain ⟨e₀, r₀, hm₀, -, -, hc₀⟩ := covered_not_shown h hmem hg
      obtain ⟨e, r, hnew, hc⟩ := hcond ⟨e₀, r₀, hm₀, hc₀⟩
      obtain ⟨hx, hrow⟩ := (newest_shown h hmem hnew hc _ _).mp hg
      exact ⟨e, r, hnew, hc, hx, hrow⟩
    · rintro ⟨e, r, hnew, hc, rfl, rfl⟩
      exact (newest_shown h hmem hnew hc _ _).mpr ⟨rfl, rfl⟩

def episodeEntry (number : Char) (updatedAt : Int) (h : 0 ≤ updatedAt) : ContinueWatchingEntry where
  sourceIdentity := "series:show:episode:".toList ++ [number]
  sourceIdentity_ne := by simp
  tmdbId_trimmed := trim_nil
  mediaType_trimmed := trim_nil
  seriesId := "show".toList
  updatedAt := updatedAt
  updatedAt_nonneg := h

def olderEpisode : ContinueWatchingEntry := episodeEntry '0' 100 (by decide)

def newerEpisode : ContinueWatchingEntry := episodeEntry '1' 200 (by decide)

/-- Two episodes of one show and a delete of the newer one. -/
def episodeOps (deletedAt : Int) : List ContinueOp :=
  [.upsert olderEpisode none, .upsert newerEpisode none,
    .delete newerEpisode.sourceIdentity deletedAt]

theorem mem_episodeOps {deletedAt : Int} {e : ContinueWatchingEntry}
    {r : Option ContinueWatchingSourceMetadata} :
    .upsert e r ∈ episodeOps deletedAt ↔ (e = olderEpisode ∨ e = newerEpisode) ∧ r = none := by
  simp only [episodeOps, List.mem_cons, ContinueOp.upsert.injEq, reduceCtorEq, List.not_mem_nil,
    or_false, or_and_right]

theorem oneSeries_episodeOps (deletedAt : Int) : OneSeries "show".toList (episodeOps deletedAt) where
  nonempty := by decide
  series e r hm := by
    obtain ⟨rfl | rfl, -⟩ := mem_episodeOps.mp hm
    · decide
    · decide
  distinct e r e' r' hm hm' ht := by
    obtain ⟨he, rfl⟩ := mem_episodeOps.mp hm
    obtain ⟨he', rfl⟩ := mem_episodeOps.mp hm'
    refine ⟨?_, rfl⟩
    have hne : olderEpisode.updatedAt ≠ newerEpisode.updatedAt := by decide
    rcases he with rfl | rfl
    · rcases he' with rfl | rfl
      · rfl
      · exact absurd ht hne
    · rcases he' with rfl | rfl
      · exact absurd ht.symm hne
      · rfl

theorem newest_episodeOps {deletedAt : Int} : IsNewest (episodeOps deletedAt) newerEpisode none := by
  refine ⟨mem_episodeOps.mpr ⟨.inr rfl, rfl⟩, fun e r hm => ?_⟩
  obtain ⟨rfl | rfl, -⟩ := mem_episodeOps.mp hm
  · decide
  · exact le_rfl

/-- The newer episode survives an older delete in every order. -/
theorem series_collapse_newer_episode :
    OneSeries "show".toList (episodeOps 150) ∧ ∀ arrivals, arrivals.Perm (episodeOps 150) →
      Collapsed (episodeOps 150) 1 (runContinue 1 arrivals {}) := by
  refine ⟨oneSeries_episodeOps 150, (series_collapse_iff (oneSeries_episodeOps 150) 1).mpr
    fun _ => ⟨newerEpisode, none, newest_episodeOps, ?_⟩⟩
  rintro ⟨d, hd, hle⟩
  simp only [episodeOps, List.mem_cons, ContinueOp.delete.injEq, reduceCtorEq, List.not_mem_nil,
    or_false, false_or, true_and] at hd
  subst hd
  exact absurd hle (by decide)

/-- The delete of the newer episode arrives first: the older one stays in view. -/
theorem older_episode_reappears :
    ¬ ∀ arrivals, arrivals.Perm (episodeOps 300) →
      Collapsed (episodeOps 300) 1 (runContinue 1 arrivals {}) := by
  intro hall
  have hperm : ([.delete newerEpisode.sourceIdentity 300, .upsert olderEpisode none,
      .upsert newerEpisode none] : List ContinueOp).Perm (episodeOps 300) :=
    (List.perm_append_comm : ([_] ++ [_, _]).Perm ([_, _] ++ [_]))
  have hg : (runContinue 1 [.delete newerEpisode.sourceIdentity 300, .upsert olderEpisode none,
      .upsert newerEpisode none] {}).continueWatching.get (1, olderEpisode.sourceIdentity) =
        some (olderEpisode.row none) := by decide +kernel
  obtain ⟨e, r, hnew, hc, -⟩ := (hall _ hperm _ _).mp hg
  have hle := hnew.2 newerEpisode none newest_episodeOps.1
  obtain ⟨rfl | rfl, -⟩ := mem_episodeOps.mp hnew.1
  · exact absurd hle (by decide)
  · exact hc ⟨300, by simp [episodeOps], by decide⟩

end StreamArena.UserState
