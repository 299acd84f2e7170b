import StreamArena.Library.SqlLike

/-! Which identities belong to a series, once as the tombstone passes decide it
in Rust (src/persistence/user_state.rs) and once as the `DELETE` statements
decide it in SQL (src/persistence.rs), and where the two part. -/
namespace StreamArena.UserState
open AsciiText SqlLike

def normalizeSeriesId (seriesId : Text) : Text := toAsciiLowercase (trim seriesId)

def isAsciiDigit (c : Char) : Bool := c.isDigit

def tmdbTvIdFromSeriesId (seriesId : Text) : Option Text :=
  match stripPrefix (toAsciiLowercase (trim seriesId)) "tmdb-tv-".toList with
  | none => none
  | some tmdbId => if tmdbId.all isAsciiDigit && !tmdbId.isEmpty then some tmdbId else none

def seriesPrefix (seriesId : Text) : Text := "series:".toList ++ seriesId ++ ":episode:".toList

def tmdbSource (tmdbId : Text) : Text := "tmdb:tv:".toList ++ tmdbId

/-- `is_series` of the tombstone passes. -/
def isSeries (seriesId identity : Text) : Bool :=
  startsWith (toAsciiLowercase identity) (seriesPrefix seriesId)

/-- The identity half of `is_tmdb` of the tombstone passes. -/
def isTmdb (tmdbId identity : Text) : Bool :=
  eqIgnoreAsciiCase identity (tmdbSource tmdbId) ||
    startsWith (toAsciiLowercase identity) (toAsciiLowercase (tmdbSource tmdbId) ++ ":".toList)

def identityMatches (seriesId : Text) (tmdbId : Option Text) (identity : Text) : Bool :=
  isSeries seriesId identity || tmdbId.any fun value => isTmdb value identity

/-- `source_identity LIKE 'series:<id>:episode:%'`. -/
def likeSeries (seriesId identity : Text) : Bool := like (seriesPrefix seriesId ++ "%".toList) identity

/-- `source_identity = 'tmdb:tv:<id>' OR source_identity LIKE 'tmdb:tv:<id>:%'`. -/
def likeTmdb (tmdbId identity : Text) : Bool :=
  identity == tmdbSource tmdbId || like (tmdbSource tmdbId ++ ":".toList ++ "%".toList) identity

def identitySelected (seriesId : Text) (tmdbId : Option Text) (identity : Text) : Bool :=
  likeSeries seriesId identity || tmdbId.any fun value => likeTmdb value identity

/-- The bare show identity in another letter case than the statement compares with. -/
def CaseVariant (tmdbId identity : Text) : Prop :=
  eqIgnoreAsciiCase identity (tmdbSource tmdbId) = true ∧ identity ≠ tmdbSource tmdbId

instance (tmdbId identity : Text) : Decidable (CaseVariant tmdbId identity) :=
  inferInstanceAs (Decidable (_ ∧ _))

/-- The fixed parts of the identities and patterns are in lower case and hold no wildcard. -/
theorem fixedParts : (toAsciiLowercase "series:".toList = "series:".toList ∧
    toAsciiLowercase ":episode:".toList = ":episode:".toList ∧ toAsciiLowercase ":".toList = ":".toList) ∧
    WildcardFree "series:".toList ∧ WildcardFree ":episode:".toList ∧ WildcardFree "tmdb:tv:".toList ∧
    WildcardFree ":".toList ∧ WildcardFree "tmdb-tv-".toList := by
  decide

theorem normalizeSeriesId_idem (seriesId : Text) :
    normalizeSeriesId (normalizeSeriesId seriesId) = normalizeSeriesId seriesId := by
  simp [normalizeSeriesId, trim_toAsciiLowercase]

theorem lower_of_normalized {seriesId : Text} (h : normalizeSeriesId seriesId = seriesId) :
    toAsciiLowercase seriesId = seriesId := by
  rw [← h, normalizeSeriesId, toAsciiLowercase_idem]

theorem tmdbTvId_eq_some {seriesId tmdbId : Text} (hn : normalizeSeriesId seriesId = seriesId) :
    tmdbTvIdFromSeriesId seriesId = some tmdbId ↔
      seriesId = "tmdb-tv-".toList ++ tmdbId ∧ (∀ c ∈ tmdbId, isAsciiDigit c = true) ∧ tmdbId ≠ [] := by
  have hs : toAsciiLowercase (trim seriesId) = seriesId := hn
  rw [tmdbTvIdFromSeriesId, hs]
  cases h : stripPrefix seriesId "tmdb-tv-".toList with
  | none =>
    constructor
    · intro he
      simp at he
    · rintro ⟨he, -⟩
      rw [stripPrefix_eq_some.mpr he] at h
      simp at h
  | some t =>
    rw [stripPrefix_eq_some] at h
    subst h
    simp only [Option.ite_none_right_eq_some, Bool.and_eq_true, List.all_eq_true,
      Bool.not_eq_true', List.isEmpty_eq_false_iff, Option.some.injEq, List.append_cancel_left_eq]
    constructor
    · rintro ⟨⟨hd, hne⟩, rfl⟩
      exact ⟨rfl, hd, hne⟩
    · rintro ⟨rfl, hd, hne⟩
      exact ⟨⟨hd, hne⟩, rfl⟩

theorem isDigit_iff {c : Char} : isAsciiDigit c = true ↔ 48 ≤ c.toNat ∧ c.toNat ≤ 57 := by
  simp [isAsciiDigit, Char.isDigit, UInt32.le_iff_toNat_le]

theorem digits_wildcardFree {t : Text} (h : ∀ c ∈ t, isAsciiDigit c = true) : WildcardFree t := by
  intro c hc
  have hb := isDigit_iff.mp (h c hc)
  constructor
  · rintro rfl
    simp at hb
  · rintro rfl
    simp at hb

theorem hasPrefix_iff {lit s : Text} (h : toAsciiLowercase lit = lit) :
    HasPrefix lit s ↔ startsWith (toAsciiLowercase s) lit = true := by
  rw [HasPrefix, h, startsWith_iff]

theorem lower_seriesPrefix {seriesId : Text} (h : toAsciiLowercase seriesId = seriesId) :
    toAsciiLowercase (seriesPrefix seriesId) = seriesPrefix seriesId := by
  obtain ⟨⟨hs, he, -⟩, -⟩ := fixedParts
  unfold seriesPrefix
  rw [toAsciiLowercase_append, toAsciiLowercase_append, h]
  exact congrArg₂ _ (congrArg₂ _ hs rfl) he

theorem isSeries_iff {seriesId identity : Text} (h : toAsciiLowercase seriesId = seriesId) :
    isSeries seriesId identity = true ↔ HasPrefix (seriesPrefix seriesId) identity :=
  (hasPrefix_iff (lower_seriesPrefix h)).symm

theorem isTmdb_iff {tmdbId identity : Text} :
    isTmdb tmdbId identity = true ↔
      eqIgnoreAsciiCase identity (tmdbSource tmdbId) = true ∨
        HasPrefix (tmdbSource tmdbId ++ ":".toList) identity := by
  have hc := fixedParts.1.2.2
  rw [isTmdb, Bool.or_eq_true, startsWith_iff, HasPrefix, toAsciiLowercase_append, hc]

/-- The series pattern selects the literal family and whatever a wildcard adds. -/
theorem likeSeries_iff {seriesId identity : Text} (h : toAsciiLowercase seriesId = seriesId) :
    likeSeries seriesId identity = true ↔
      isSeries seriesId identity = true ∨ WildcardOnly (seriesPrefix seriesId) identity := by
  rw [isSeries_iff h]
  exact like_iff

theorem not_caseVariant_of_hasPrefix {tmdbId identity : Text}
    (h : HasPrefix (tmdbSource tmdbId ++ ":".toList) identity) : ¬ CaseVariant tmdbId identity := by
  rintro ⟨he, -⟩
  have hlen := h.length_le
  rw [eqIgnoreAsciiCase_iff] at he
  rw [he, toAsciiLowercase_append, List.length_append] at hlen
  simp only [toAsciiLowercase, List.length_map, List.length_singleton,
    show ":".toList = [':'] from rfl] at hlen
  omega

/-- The show statement compares the bare identity with its case, the pass without. -/
theorem likeTmdb_iff {tmdbId identity : Text} :
    likeTmdb tmdbId identity = true ↔
      (isTmdb tmdbId identity = true ∧ ¬ CaseVariant tmdbId identity) ∨
        WildcardOnly (tmdbSource tmdbId ++ ":".toList) identity := by
  have hl : like (tmdbSource tmdbId ++ ":".toList ++ "%".toList) identity = true ↔ _ := like_iff
  rw [likeTmdb, Bool.or_eq_true, beq_iff_eq, hl, isTmdb_iff]
  constructor
  · rintro (rfl | h | h)
    · exact .inl ⟨.inl (by simp [eqIgnoreAsciiCase]), fun hc => hc.2 rfl⟩
    · exact .inl ⟨.inr h, not_caseVariant_of_hasPrefix h⟩
    · exact .inr h
  · rintro (⟨he | hp, hc⟩ | h)
    · exact .inl (not_not.mp fun hne => hc ⟨he, hne⟩)
    · exact .inr (.inl hp)
    · exact .inr (.inr h)

theorem not_startsWith_tmdbSource (seriesId tmdbId : Text) :
    startsWith (toAsciiLowercase (tmdbSource tmdbId)) (seriesPrefix seriesId) = false := rfl

theorem tmdbSource_wildcardFree {tmdbId : Text} (h : WildcardFree tmdbId) :
    WildcardFree (tmdbSource tmdbId ++ ":".toList) := by
  obtain ⟨-, -, -, h₁, h₂, -⟩ := fixedParts
  exact wildcardFree_append.mpr ⟨wildcardFree_append.mpr ⟨h₁, h⟩, h₂⟩

theorem seriesPrefix_wildcardFree {seriesId : Text} :
    WildcardFree (seriesPrefix seriesId) ↔ WildcardFree seriesId := by
  obtain ⟨-, h₁, h₂, -⟩ := fixedParts
  constructor
  · intro h
    exact (wildcardFree_append.mp (wildcardFree_append.mp h).1).2
  · intro h
    exact wildcardFree_append.mpr ⟨wildcardFree_append.mpr ⟨h₁, h⟩, h₂⟩

/-- A show id carries no wildcard, so neither does anything built from it. -/
theorem wildcardFree_of_tmdbTvId {seriesId tmdbId : Text}
    (hn : normalizeSeriesId seriesId = seriesId)
    (h : tmdbTvIdFromSeriesId seriesId = some tmdbId) :
    WildcardFree seriesId ∧ WildcardFree tmdbId := by
  obtain ⟨rfl, hd, -⟩ := (tmdbTvId_eq_some hn).mp h
  have hw := digits_wildcardFree hd
  exact ⟨wildcardFree_append.mpr ⟨fixedParts.2.2.2.2.2, hw⟩, hw⟩

/-- Where the two selections of one series differ. -/
def Diverges (seriesId identity : Text) : Prop :=
  WildcardOnly (seriesPrefix seriesId) identity ∨
    ∃ tmdbId, tmdbTvIdFromSeriesId seriesId = some tmdbId ∧ CaseVariant tmdbId identity

theorem wildcardOnly_not_matches {seriesId identity : Text}
    (hn : normalizeSeriesId seriesId = seriesId)
    (h : WildcardOnly (seriesPrefix seriesId) identity) :
    identitySelected seriesId (tmdbTvIdFromSeriesId seriesId) identity = true ∧
      identityMatches seriesId (tmdbTvIdFromSeriesId seriesId) identity = false := by
  have hl := lower_of_normalized hn
  cases ht : tmdbTvIdFromSeriesId seriesId with
  | none =>
    have hs : isSeries seriesId identity = false := by
      rw [Bool.eq_false_iff]
      exact mt (isSeries_iff hl).mp h.2
    simp [identitySelected, identityMatches, (likeSeries_iff hl).mpr (.inr h), hs]
  | some tmdbId =>
    have hw := (wildcardFree_of_tmdbTvId hn ht).1
    exact (not_wildcardOnly (seriesPrefix_wildcardFree.mpr hw) identity h).elim

theorem caseVariant_not_selected {seriesId tmdbId identity : Text}
    (hn : normalizeSeriesId seriesId = seriesId)
    (ht : tmdbTvIdFromSeriesId seriesId = some tmdbId) (hc : CaseVariant tmdbId identity) :
    identitySelected seriesId (tmdbTvIdFromSeriesId seriesId) identity = false ∧
      identityMatches seriesId (tmdbTvIdFromSeriesId seriesId) identity = true := by
  obtain ⟨hw, hwt⟩ := wildcardFree_of_tmdbTvId hn ht
  have hnt := not_wildcardOnly (tmdbSource_wildcardFree hwt) identity
  have hns := not_wildcardOnly (seriesPrefix_wildcardFree.mpr hw) identity
  have hlower := eqIgnoreAsciiCase_iff.mp hc.1
  have hs : isSeries seriesId identity = false := by
    rw [isSeries, hlower]
    exact not_startsWith_tmdbSource seriesId tmdbId
  constructor
  · rw [identitySelected, Bool.or_eq_false_iff]
    constructor
    · rw [Bool.eq_false_iff, ne_eq, likeSeries_iff (lower_of_normalized hn)]
      simp [hs, hns]
    · rw [ht, Option.any_some, Bool.eq_false_iff, ne_eq, likeTmdb_iff]
      tauto
  · simp [identityMatches, ht, isTmdb_iff.mpr (.inl hc.1)]

/-- Away from the divergence the two selections are one. -/
theorem selected_iff_matches {seriesId identity : Text}
    (hn : normalizeSeriesId seriesId = seriesId) (h : ¬ Diverges seriesId identity) :
    identitySelected seriesId (tmdbTvIdFromSeriesId seriesId) identity =
      identityMatches seriesId (tmdbTvIdFromSeriesId seriesId) identity := by
  have hl := lower_of_normalized hn
  obtain ⟨hw, hc⟩ := not_or.mp h
  have hs : likeSeries seriesId identity = isSeries seriesId identity := by
    rw [Bool.eq_iff_iff, likeSeries_iff hl]
    tauto
  cases ht : tmdbTvIdFromSeriesId seriesId with
  | none => simp [identitySelected, identityMatches, hs]
  | some tmdbId =>
    have hwt := (wildcardFree_of_tmdbTvId hn ht).2
    have htm : likeTmdb tmdbId identity = isTmdb tmdbId identity := by
      have hnt := not_wildcardOnly (tmdbSource_wildcardFree hwt) identity
      have hnc : ¬ CaseVariant tmdbId identity := fun hv => hc ⟨tmdbId, ht, hv⟩
      rw [Bool.eq_iff_iff, likeTmdb_iff]
      tauto
    simp [identitySelected, identityMatches, hs, htm]

end StreamArena.UserState
