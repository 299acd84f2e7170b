import StreamArena.UserState.ContinueWatching

/-! The frame of a continue-watching upsert: which rows and tombstones it may
read and write, and the two ways a row of another title gets in between. -/
namespace StreamArena.UserState
open AsciiText KeyedTable SqlLike

instance (seriesId : Text) (tmdbId : Option Text) (identity : Text) :
    Decidable (InFamily seriesId tmdbId identity) :=
  match tmdbId with
  | none => decidable_of_iff (HasPrefix (seriesPrefix seriesId) identity) (by simp [InFamily])
  | some value =>
    decidable_of_iff (HasPrefix (seriesPrefix seriesId) identity ∨
      eqIgnoreAsciiCase identity (tmdbSource value) = true ∨
      HasPrefix (tmdbSource value ++ ":".toList) identity) (by simp only [InFamily,
        Option.some.injEq, exists_eq_left'])

instance (seriesId : Text) (tmdbId : Option Text) (identity : Text) (row : ContinueWatchingRow) :
    Decidable (ContinueInSeries seriesId tmdbId identity row) :=
  match tmdbId with
  | none => decidable_of_iff (toAsciiLowercase row.seriesId = seriesId ∨
      InFamily seriesId none identity) (by simp [ContinueInSeries])
  | some value => decidable_of_iff (toAsciiLowercase row.seriesId = seriesId ∨
      rowIsShow value row = true ∨ InFamily seriesId (some value) identity)
      (by simp only [ContinueInSeries, Option.some.injEq, exists_eq_left'])

/-- The row has the entry's identity, its series id or its show id, or an identity of their families. -/
def SameTitle (e : ContinueWatchingEntry) (identity : Text) (row : ContinueWatchingRow) : Prop :=
  identity = e.sourceIdentity ∨
  (e.normalizedSeriesId ≠ [] ∧
    ContinueInSeries e.normalizedSeriesId e.derivedTmdbId identity row) ∨
  ∃ tmdbId, e.ownTmdbId = some tmdbId ∧
    ContinueInSeries (showSeriesId tmdbId) (some tmdbId) identity row

instance (e : ContinueWatchingEntry) (identity : Text) (row : ContinueWatchingRow) :
    Decidable (SameTitle e identity row) :=
  match h : e.ownTmdbId with
  | none => decidable_of_iff (identity = e.sourceIdentity ∨ (e.normalizedSeriesId ≠ [] ∧
      ContinueInSeries e.normalizedSeriesId e.derivedTmdbId identity row)) (by simp [SameTitle, h])
  | some value => decidable_of_iff (identity = e.sourceIdentity ∨ (e.normalizedSeriesId ≠ [] ∧
      ContinueInSeries e.normalizedSeriesId e.derivedTmdbId identity row) ∨
      ContinueInSeries (showSeriesId value) (some value) identity row)
      (by simp only [SameTitle, h, Option.some.injEq, exists_eq_left'])

/-- The key holds the entry's own state or a row of its title. -/
def OfTitle (db : UserStateDb) (userId : Int) (e : ContinueWatchingEntry) (u : Int) (x : Text) : Prop :=
  u = userId ∧ (x = e.sourceIdentity ∨
    ∃ row, db.continueWatching.get (userId, x) = some row ∧ SameTitle e x row)

/-- The database with nothing in it but what the entry's title owns. -/
def titleOnly (db : UserStateDb) (userId : Int) (e : ContinueWatchingEntry) : UserStateDb where
  continueWatching := db.continueWatching.deleteWhere fun key row =>
    !(decide (key.1 = userId) && decide (SameTitle e key.2 row))
  tombstones := db.tombstones.deleteWhere fun key _ =>
    !(decide (key.1 = userId) && decide (key.2.1 = .continueWatching) &&
      (decide (key.2.2 = e.sourceIdentity) || (db.continueWatching.get (userId, key.2.2)).any
        fun row => decide (SameTitle e key.2.2 row)))

/-- Nothing outside the title decides, and nothing outside the title changes. -/
structure KeepsToTitle (db : UserStateDb) (userId : Int) (e : ContinueWatchingEntry)
    (reconciled : Option ContinueWatchingSourceMetadata) (after : UserStateDb × Bool) : Prop where
  outcome : after.2 = (upsertUserContinueWatching (titleOnly db userId e) userId e reconciled).2
  title : ∀ x, OfTitle db userId e userId x →
    after.1.continueWatching.get (userId, x) = (upsertUserContinueWatching (titleOnly db userId e)
      userId e reconciled).1.continueWatching.get (userId, x) ∧
    after.1.tombstone userId .continueWatching x = (upsertUserContinueWatching
      (titleOnly db userId e) userId e reconciled).1.tombstone userId .continueWatching x
  others : ∀ u x, ¬ OfTitle db userId e u x →
    after.1.continueWatching.get (u, x) = db.continueWatching.get (u, x) ∧
    after.1.tombstone u .continueWatching x = db.tombstone u .continueWatching x
  watch : after.1.watchProgress = db.watchProgress ∧
    ∀ u x, after.1.tombstone u .watchProgress x = db.tombstone u .watchProgress x

variable {db : UserStateDb} {userId : Int} {e : ContinueWatchingEntry}
  {reconciled : Option ContinueWatchingSourceMetadata} {x : Text} {row : ContinueWatchingRow}

theorem get_titleOnly (x : Text) :
    (titleOnly db userId e).continueWatching.get (userId, x) =
      (db.continueWatching.get (userId, x)).filter fun row => decide (SameTitle e x row) := by
  simp [titleOnly, get_deleteWhere]

theorem get_titleOnly_of_title (h : OfTitle db userId e userId x) :
    (titleOnly db userId e).continueWatching.get (userId, x) =
      db.continueWatching.get (userId, x) := by
  rw [get_titleOnly]
  refine filter_keep fun row hg => ?_
  rw [decide_eq_true_eq]
  obtain ⟨-, rfl | ⟨row', hg', hs⟩⟩ := h
  · exact .inl rfl
  · rw [hg, Option.some.injEq] at hg'
    exact hg' ▸ hs

theorem tombstone_titleOnly (h : OfTitle db userId e userId x) :
    (titleOnly db userId e).tombstone userId .continueWatching x =
      db.tombstone userId .continueWatching x := by
  refine get_deleteWhere_of_not fun d _ => ?_
  obtain ⟨-, rfl | ⟨row, hg, hs⟩⟩ := h
  · simp
  · simp [hg, hs]

theorem blocked_titleOnly {t : Int} :
    mutationIsBlockedByTombstone (titleOnly db userId e) userId .continueWatching
        e.sourceIdentity t =
      mutationIsBlockedByTombstone db userId .continueWatching e.sourceIdentity t := by
  rw [mutationIsBlockedByTombstone, tombstone_titleOnly ⟨rfl, .inl rfl⟩]
  rfl

/-- One row that makes the recency guard refuse the entry. -/
def Supersedes (e : ContinueWatchingEntry) (identity : Text) (row : ContinueWatchingRow) : Prop :=
  (e.normalizedSeriesId ≠ [] ∨ e.canonicalTmdbId.isSome) ∧
    continueMatches e.normalizedSeriesId e.canonicalTmdbId identity row = true ∧
    row.updatedAt > e.updatedAt

theorem superseded_iff : supersededBySeries db userId e = true ↔
    ∃ x row, db.continueWatching.get (userId, x) = some row ∧ Supersedes e x row := by
  rw [supersededBySeries_iff]
  constructor
  · rintro ⟨hs, x, row, hg, hm, ht⟩
    exact ⟨x, row, hg, hs, hm, ht⟩
  · rintro ⟨x, row, hg, hs, hm, ht⟩
    exact ⟨hs, x, row, hg, hm, ht⟩

theorem superseded_titleOnly : supersededBySeries (titleOnly db userId e) userId e = true ↔
    ∃ x row, db.continueWatching.get (userId, x) = some row ∧ SameTitle e x row ∧
      Supersedes e x row := by
  rw [superseded_iff]
  constructor
  · rintro ⟨x, row, hg, hs⟩
    rw [get_titleOnly, Option.filter_eq_some_iff, decide_eq_true_eq] at hg
    exact ⟨x, row, hg.1, hg.2, hs⟩
  · rintro ⟨x, row, hg, ht, hs⟩
    refine ⟨x, row, ?_, hs⟩
    rw [get_titleOnly, Option.filter_eq_some_iff, decide_eq_true_eq]
    exact ⟨hg, ht⟩

/-- An entry without a series id compares the empty text with the series ids of other rows. -/
def StrayGuard (e : ContinueWatchingEntry) (identity : Text) (row : ContinueWatchingRow) : Prop :=
  e.normalizedSeriesId = [] ∧ e.ownTmdbId.isSome ∧
    (row.seriesId = [] ∨ isSeries [] identity = true) ∧ row.updatedAt > e.updatedAt

/-- A statement reads a `_` or `%` of the entry's ids as a wildcard. -/
def StrayDelete (e : ContinueWatchingEntry) (identity : Text) : Prop :=
  (e.normalizedSeriesId ≠ [] ∧ WildcardOnly (seriesPrefix e.normalizedSeriesId) identity) ∨
    ∃ tmdbId, e.ownTmdbId = some tmdbId ∧ WildcardOnly (tmdbSource tmdbId ++ ":".toList) identity

theorem normalized_normalizedSeriesId (e : ContinueWatchingEntry) :
    normalizeSeriesId e.normalizedSeriesId = e.normalizedSeriesId :=
  normalizeSeriesId_idem _

theorem continueInSeries_of_show {tmdbId : Text}
    (h : rowIsShow tmdbId row = true ∨ isTmdb tmdbId x = true) (seriesId : Text) :
    ContinueInSeries seriesId (some tmdbId) x row := by
  rcases h with h | h
  · exact .inr (.inl ⟨tmdbId, rfl, h⟩)
  · exact .inr (.inr (.inr ⟨tmdbId, rfl, isTmdb_iff.mp h⟩))

theorem continueMatches_cases {seriesId : Text} {tmdbId : Option Text} :
    continueMatches seriesId tmdbId x row = true ↔
      toAsciiLowercase row.seriesId = seriesId ∨ isSeries seriesId x = true ∨
        ∃ value, tmdbId = some value ∧ (rowIsShow value row = true ∨ isTmdb value x = true) := by
  simp only [continueMatches, Bool.or_eq_true, beq_iff_eq, Option.any_eq_true, or_assoc]

theorem not_show_of_stranger (h : ¬ SameTitle e x row) {tmdbId : Text}
    (ht : e.ownTmdbId = some tmdbId) : rowIsShow tmdbId row = false ∧ isTmdb tmdbId x = false := by
  have hs : ¬ (rowIsShow tmdbId row = true ∨ isTmdb tmdbId x = true) :=
    fun hs => h (.inr (.inr ⟨tmdbId, ht, continueInSeries_of_show hs _⟩))
  simpa using hs

/-- A row of another title meets the recency guard only when the entry has no series id. -/
theorem supersedes_stranger_iff (h : ¬ SameTitle e x row) : Supersedes e x row ↔ StrayGuard e x row := by
  have hl := lower_of_normalized (normalized_normalizedSeriesId e)
  rw [Supersedes, continueMatches_cases, StrayGuard]
  by_cases hs : e.normalizedSeriesId = []
  · have hd : e.derivedTmdbId = none := by
      rw [ContinueWatchingEntry.derivedTmdbId, hs]
      rfl
    have hc : e.canonicalTmdbId = e.ownTmdbId := by
      simp [ContinueWatchingEntry.canonicalTmdbId, hd]
    rw [hs, hc]
    constructor
    · rintro ⟨ho, hr | hr | ⟨value, hv, hr⟩, ht⟩
      · exact ⟨rfl, by simpa using ho, .inl (by simpa [toAsciiLowercase] using hr), ht⟩
      · exact ⟨rfl, by simpa using ho, .inr hr, ht⟩
      · simp [not_show_of_stranger h hv] at hr
    · rintro ⟨-, ho, hr | hr, ht⟩
      · exact ⟨.inr ho, .inl (by rw [hr]; rfl), ht⟩
      · exact ⟨.inr ho, .inr (.inl hr), ht⟩
  · constructor
    · rintro ⟨-, hr, -⟩
      refine (h ?_).elim
      rcases hr with hr | hr | ⟨value, hv, hr⟩
      · exact .inr (.inl ⟨hs, .inl hr⟩)
      · exact .inr (.inl ⟨hs, .inr (.inr (.inl ((isSeries_iff hl).mp hr)))⟩)
      · cases ho : e.ownTmdbId with
        | some own =>
          rw [ContinueWatchingEntry.canonicalTmdbId, ho, Option.some_or] at hv
          exact .inr (.inr ⟨value, ho.trans hv, continueInSeries_of_show hr _⟩)
        | none =>
          rw [ContinueWatchingEntry.canonicalTmdbId, ho, Option.none_or] at hv
          exact .inr (.inl ⟨hs, hv ▸ continueInSeries_of_show hr _⟩)
    · rintro ⟨hn, -⟩
      exact (hs hn).elim

/-- A row of another title is removed only through a wildcard. -/
theorem removes_stranger_iff (h : ¬ SameTitle e x row) :
    e.removes x row = true ↔ StrayDelete e x := by
  have hn := normalized_normalizedSeriesId e
  have hl := lower_of_normalized hn
  rw [removes_iff, StrayDelete]
  refine or_congr (and_congr_right fun hs => ?_) ?_
  · have hout : ¬ ContinueInSeries e.normalizedSeriesId e.derivedTmdbId x row :=
      fun hc => h (.inr (.inl ⟨hs, hc⟩))
    have hm : continueMatches e.normalizedSeriesId e.derivedTmdbId x row = false := by
      rw [← Bool.not_eq_true, continueMatches_iff hl]
      exact hout
    constructor
    · intro hsel
      have hne : continueSelected e.normalizedSeriesId e.derivedTmdbId x row ≠
          continueMatches e.normalizedSeriesId e.derivedTmdbId x row := by
        rw [hsel, hm]
        simp
      obtain ⟨hd, -⟩ := (continueDiverges_iff hn).mpr hne
      obtain hw | ⟨value, hv, hc⟩ := hd
      · exact hw
      · exact (hout (.inr (.inr (.inr ⟨value, hv, .inl hc.1⟩)))).elim
    · intro hw
      simp [continueSelected, (likeSeries_iff hl).mpr (.inr hw)]
  · refine exists_congr fun tmdbId => and_congr_right fun ht => ?_
    obtain ⟨hr, hi⟩ := not_show_of_stranger h ht
    simp [hr, likeTmdb_iff, hi]

/-- The passes tombstone nothing of another title. -/
theorem sameTitle_of_tombs (h : e.tombs x row = true) : SameTitle e x row := by
  obtain ⟨-, ⟨hs, hm⟩ | ⟨-, tmdbId, ht, hm⟩⟩ := tombs_iff.mp h
  · have hl := lower_of_normalized (normalized_normalizedSeriesId e)
    exact .inr (.inl ⟨hs, (continueMatches_iff hl).mp hm⟩)
  · refine .inr (.inr ⟨tmdbId, ht, ?_⟩)
    rcases continueMatches_cases.mp hm with hr | hr | ⟨value, hv, hr⟩
    · exact .inl hr
    · refine .inr (.inr (.inl ?_))
      rw [isSeries, startsWith_iff] at hr
      have hlow := hr.map Char.toLower
      rwa [← toAsciiLowercase, ← toAsciiLowercase, toAsciiLowercase_idem] at hlow
    · exact hv ▸ continueInSeries_of_show hr _

theorem keepsToTitle_of_refused
    (h : (upsertUserContinueWatching db userId e reconciled) = (db, false))
    (h' : upsertUserContinueWatching (titleOnly db userId e) userId e reconciled =
      (titleOnly db userId e, false)) :
    KeepsToTitle db userId e reconciled (upsertUserContinueWatching db userId e reconciled) := by
  rw [h]
  exact ⟨by rw [h'], fun x hx => by rw [h']; exact ⟨(get_titleOnly_of_title hx).symm,
    (tombstone_titleOnly hx).symm⟩, fun u x _ => ⟨rfl, rfl⟩, rfl, fun u x => rfl⟩

theorem keepsToTitle_of_accepted (hs : supersededBySeries db userId e = false)
    (hs' : supersededBySeries (titleOnly db userId e) userId e = false)
    (hb : mutationIsBlockedByTombstone db userId .continueWatching e.sourceIdentity e.updatedAt = false)
    (hstray : ∀ x row, db.continueWatching.get (userId, x) = some row → ¬ SameTitle e x row →
      ¬ StrayDelete e x) :
    KeepsToTitle db userId e reconciled (upsertUserContinueWatching db userId e reconciled) := by
  have hb' := blocked_titleOnly.trans hb
  refine ⟨?_, fun x hx => ?_, fun u x hx => ?_, watchProgress_upsertUserContinueWatching,
    tombstone_watch_upsertUserContinueWatching⟩
  · simp [upsertUserContinueWatching, hs, hs', hb, hb']
  · rw [get_upsertUserContinueWatching hs hb, get_upsertUserContinueWatching hs' hb',
      tombstone_upsertUserContinueWatching hs hb, tombstone_upsertUserContinueWatching hs' hb',
      get_titleOnly_of_title hx, get_titleOnly_of_title ⟨rfl, .inl rfl⟩, tombstone_titleOnly hx]
    exact ⟨rfl, rfl⟩
  · have hk : (u, x) ≠ (userId, e.sourceIdentity) := by
      intro hk
      rw [Prod.mk.injEq] at hk
      exact hx ⟨hk.1, .inl hk.2⟩
    have hk' : (u, StateDomain.continueWatching, x) ≠ (userId, .continueWatching, e.sourceIdentity) := by
      simpa using hk
    have hnone (row : ContinueWatchingRow) (hu : u = userId)
        (hg : db.continueWatching.get (userId, x) = some row) : ¬ SameTitle e x row :=
      fun ht => hx ⟨hu, .inr ⟨row, hg, ht⟩⟩
    rw [get_upsertUserContinueWatching hs hb, tombstone_upsertUserContinueWatching hs hb,
      if_neg hk, if_neg hk']
    constructor
    · refine filter_keep fun row hg => ?_
      by_cases hu : u = userId
      · subst hu
        have hn := hnone row rfl hg
        have hr : e.removes x row = false := by
          rw [← Bool.not_eq_true, removes_stranger_iff hn]
          exact hstray x row hg hn
        simp [hr]
      · simp [hu]
    · rw [if_neg]
      rintro ⟨hu, -, row, hg, ht⟩
      exact hnone row hu hg (sameTitle_of_tombs ht)

/-- The upsert keeps to its title iff the title itself refuses the entry, or no row of
another title meets the guard of an entry without series id or a wildcard of its ids. -/
theorem upsert_keepsToTitle_iff (db : UserStateDb) (userId : Int) (e : ContinueWatchingEntry)
    (reconciled : Option ContinueWatchingSourceMetadata) :
    KeepsToTitle db userId e reconciled (upsertUserContinueWatching db userId e reconciled) ↔
      (∃ x row, db.continueWatching.get (userId, x) = some row ∧ SameTitle e x row ∧
        Supersedes e x row) ∨
      mutationIsBlockedByTombstone db userId .continueWatching e.sourceIdentity e.updatedAt = true ∨
      ∀ x row, db.continueWatching.get (userId, x) = some row → ¬ SameTitle e x row →
        ¬ StrayGuard e x row ∧ ¬ StrayDelete e x := by
  by_cases htitle : ∃ x row, db.continueWatching.get (userId, x) = some row ∧ SameTitle e x row ∧
      Supersedes e x row
  · obtain ⟨x, row, hg, ht, hs⟩ := htitle
    refine iff_of_true ?_ (.inl ⟨x, row, hg, ht, hs⟩)
    exact keepsToTitle_of_refused (upsert_refused (.inl (superseded_iff.mpr ⟨x, row, hg, hs⟩)))
      (upsert_refused (.inl (superseded_titleOnly.mpr ⟨x, row, hg, ht, hs⟩)))
  · have hs' : supersededBySeries (titleOnly db userId e) userId e = false := by
      rw [← Bool.not_eq_true, superseded_titleOnly]
      exact htitle
    cases hb : mutationIsBlockedByTombstone db userId .continueWatching e.sourceIdentity
        e.updatedAt with
    | true =>
      refine iff_of_true ?_ (.inr (.inl rfl))
      exact keepsToTitle_of_refused (upsert_refused (.inr hb))
        (upsert_refused (.inr (blocked_titleOnly.trans hb)))
    | false =>
      simp only [htitle, Bool.false_eq_true, false_or]
      constructor
      · intro hk x row hg hn
        have haccept : (upsertUserContinueWatching db userId e reconciled).2 = true := by
          rw [hk.outcome]
          simp [upsertUserContinueWatching, hs', blocked_titleOnly.trans hb]
        have hs : supersededBySeries db userId e = false := by
          by_contra hs
          rw [Bool.not_eq_false] at hs
          rw [upsert_refused (.inl hs)] at haccept
          simp at haccept
        constructor
        · intro hg'
          rw [← Bool.not_eq_true, superseded_iff] at hs
          exact hs ⟨x, row, hg, (supersedes_stranger_iff hn).mpr hg'⟩
        · intro hd
          have hout : ¬ OfTitle db userId e userId x := by
            rintro ⟨-, rfl | ⟨row', hg', ht⟩⟩
            · exact hn (.inl rfl)
            · rw [hg, Option.some.injEq] at hg'
              exact hn (hg' ▸ ht)
          have hsame := (hk.others userId x hout).1
          have hx : x ≠ e.sourceIdentity := fun hx => hn (.inl hx)
          rw [get_upsertUserContinueWatching hs hb, if_neg (by simpa using hx), hg] at hsame
          simp [(removes_stranger_iff hn).mpr hd] at hsame
      · intro hstray
        have hs : supersededBySeries db userId e = false := by
          rw [← Bool.not_eq_true, superseded_iff]
          rintro ⟨x, row, hg, hs⟩
          by_cases ht : SameTitle e x row
          · exact htitle ⟨x, row, hg, ht, hs⟩
          · exact (hstray x row hg ht).1 ((supersedes_stranger_iff ht).mp hs)
        exact keepsToTitle_of_accepted hs hs' hb fun x row hg ht => (hstray x row hg ht).2

def movieEntry : ContinueWatchingEntry where
  sourceIdentity := "movie:1".toList
  mediaType := "movie".toList
  tmdbId_trimmed := trim_nil
  seriesId_trimmed := trim_nil
  updatedAt := 300

def showEntry : ContinueWatchingEntry where
  sourceIdentity := "tmdb:tv:7:s1:e1".toList
  tmdbId := "7".toList
  mediaType := "tv".toList
  seriesId_trimmed := trim_nil
  updatedAt := 250

/-- A newer movie without series id makes an unrelated show be dropped. -/
theorem movie_drops_show :
    ¬ KeepsToTitle (upsertUserContinueWatching {} 1 movieEntry none).1 1 showEntry none
      (upsertUserContinueWatching (upsertUserContinueWatching {} 1 movieEntry none).1 1 showEntry
        none) := by
  intro h
  have hdropped : (upsertUserContinueWatching (upsertUserContinueWatching {} 1 movieEntry none).1 1
      showEntry none).2 = false := by decide +kernel
  have halone : (upsertUserContinueWatching (titleOnly
      (upsertUserContinueWatching {} 1 movieEntry none).1 1 showEntry) 1 showEntry none).2 = true := by
    decide +kernel
  have hout := h.outcome
  rw [hdropped, halone] at hout
  simp at hout

end StreamArena.UserState
