import Mathlib.Data.Prod.Lex
import Mathlib.Data.Rat.Floor
import StreamArena.Library.NewestFirst
import StreamArena.WebPlayer.SubtitleCues

/-! The titles to continue (src/src-ui/lib/continue-watching.js): rows of the server, of the browser and of its resume
positions are merged into one list, one entry a title, the newest twelve. -/
namespace KeyedTable
variable {κ ρ : Type*} [DecidableEq κ] {t : Table κ ρ} {k : κ} {new old : ρ} {f g : ρ → ρ}

/-- What a conflict is answered with matters for the row that is there. -/
theorem upsert_congr (h : ∀ old, t.get k = some old → f old = g old) : t.upsert k new f = t.upsert k new g := by
  by_cases hk : k ∈ t.rows.map Prod.fst
  · simp only [Table.upsert, hk, ↓reduceDIte, Table.mk.injEq]
    refine List.map_congr_left fun row hrow => ?_
    split
    · next heq =>
      have hget : t.get k = some row.2 := t.mem_rows_iff.mp (heq ▸ hrow)
      rw [h row.2 hget]
    · rfl
  · simp only [Table.upsert, hk, ↓reduceDIte]

theorem upsert_kept (hget : t.get k = some old) (hf : f old = old) : t.upsert k new f = t := by
  have hk : k ∈ t.rows.map Prod.fst := List.mem_map_of_mem (t.mem_rows_iff.mpr hget)
  refine Table.ext ?_
  simp only [Table.upsert, hk, ↓reduceDIte]
  refine (List.map_congr_left fun row hrow => ?_).trans (List.map_id _)
  split
  · next heq =>
    have hrow' : t.get k = some row.2 := t.mem_rows_iff.mp (heq ▸ hrow)
    obtain rfl := Option.some.inj (hget.symm.trans hrow')
    rw [hf]
    rfl
  · rfl

end KeyedTable

namespace StreamArena.WebPlayer.ContinueMerge
open AsciiText KeyedTable NewestFirst LiveHls.Worker

/-- Numbers that `Number(…)` does not read, or reads as no finite number, are `none`. -/
structure Entry where
  sourceIdentity : Text
  seriesId : Text
  mediaType : Text
  episodeIndex : Option ℚ
  seasonNumber : Option ℚ
  episodeNumber : Option ℚ
  sourceHash : Text
  sessionKey : Text
  resolverProvider : Text
  sourceInput : Text
  filename : Text
  updatedAt : ℚ
  resumeSeconds : Option ℚ
  deriving DecidableEq

structure TmdbSource where
  tmdbId : Text := []
  mediaType : Text := []
  seasonNumber : Nat := 0
  episodeNumber : Nat := 0

def isDigits (text : Text) : Bool := !text.isEmpty && text.all Char.isDigit

def ifEmpty (text other : Text) : Text := if text.isEmpty then other else text

variable (toLowerCase : Text → Text)

/-- `/^series:([^:]+):episode:(\d+)$/i`, by the parts between colons. -/
def extractSeriesIdFromSourceIdentity (sourceIdentity : Text) : Text :=
  match (jsTrim sourceIdentity).splitOn ':' with
  | [series, seriesId, episode, index] =>
    if toAsciiLowercase series = "series".toList ∧ seriesId ≠ [] ∧ toAsciiLowercase episode = "episode".toList ∧
        isDigits index = true then
      toLowerCase (jsTrim seriesId)
    else []
  | _ => []

/-- The number after one letter. -/
def numbered (letter : Char) : Text → Option Nat
  | c :: number => if c.toLower = letter ∧ isDigits number = true then some (Nat.ofDigitChars 10 number 0) else none
  | [] => none

/-- `/^tmdb:(movie|tv):(\d+)(?::s(\d+):e(\d+))?$/i`, by the parts between colons. -/
def typedMatch (normalizedSource : Text) : Option TmdbSource :=
  let typed (tmdb mediaType tmdbId : Text) : Bool :=
    toAsciiLowercase tmdb = "tmdb".toList ∧
      (toAsciiLowercase mediaType = "movie".toList ∨ toAsciiLowercase mediaType = "tv".toList) ∧ isDigits tmdbId = true
  match normalizedSource.splitOn ':' with
  | [tmdb, mediaType, tmdbId] =>
    if typed tmdb mediaType tmdbId then some ⟨tmdbId, toLowerCase mediaType, 0, 0⟩ else none
  | [tmdb, mediaType, tmdbId, season, episode] =>
    match numbered 's' season, numbered 'e' episode with
    | some seasonNumber, some episodeNumber =>
      if typed tmdb mediaType tmdbId then some ⟨tmdbId, toLowerCase mediaType, seasonNumber, episodeNumber⟩ else none
    | _, _ => none
  | _ => none

def parseTmdbSourceIdentity (sourceIdentity : Text) : TmdbSource :=
  let normalizedSource := jsTrim sourceIdentity
  if startsWith (toLowerCase normalizedSource) "tmdb:".toList then (typedMatch toLowerCase normalizedSource).getD {}
  else {}

def getContinueDedupeKey (sourceIdentity explicitSeriesId : Text) : Text :=
  let normalizedSeriesId :=
    ifEmpty (toLowerCase (jsTrim explicitSeriesId)) (extractSeriesIdFromSourceIdentity toLowerCase sourceIdentity)
  if normalizedSeriesId ≠ [] then "series:".toList ++ normalizedSeriesId
  else
    let parsedSource := parseTmdbSourceIdentity toLowerCase sourceIdentity
    if parsedSource.mediaType = "tv".toList ∧ parsedSource.tmdbId ≠ [] then "tmdb:tv:".toList ++ parsedSource.tmdbId
    else jsTrim sourceIdentity

def normalizeContinueSourceHash (value : Text) : Text := toLowerCase (jsTrim value)

def normalizeMediaType (value : Text) : Text :=
  let mediaType := toLowerCase (jsTrim value)
  if mediaType = "movie".toList ∨ mediaType = "tv".toList then mediaType else []

def wholeNumber (value : Option ℚ) (missing : ℚ) : ℚ :=
  match value with
  | some number => max 0 (⌊number⌋ : ℚ)
  | none => missing

def normalizeLocalContinueEntry (entry : Entry) : Entry :=
  { entry with
    mediaType := normalizeMediaType toLowerCase entry.mediaType
    seriesId := jsTrim entry.seriesId
    episodeIndex := some (wholeNumber entry.episodeIndex (-1))
    seasonNumber := some (wholeNumber entry.seasonNumber 0)
    episodeNumber := some (wholeNumber entry.episodeNumber 0)
    sourceHash := normalizeContinueSourceHash toLowerCase entry.sourceHash
    sessionKey := jsTrim entry.sessionKey
    resolverProvider := jsTrim entry.resolverProvider
    sourceInput := jsTrim entry.sourceInput
    filename := jsTrim entry.filename }

def addContinueEntryToMap (entriesBySource : Table Text Entry) (entry : Entry) : Table Text Entry :=
  let normalizedEntry := normalizeLocalContinueEntry toLowerCase entry
  let normalizedSource := jsTrim normalizedEntry.sourceIdentity
  match normalizedEntry.resumeSeconds with
  | none => entriesBySource
  | some resumeSeconds =>
    if normalizedSource = [] ∨ resumeSeconds < 1 then entriesBySource
    else
      let dedupeKey := getContinueDedupeKey toLowerCase normalizedSource normalizedEntry.seriesId
      match entriesBySource.get dedupeKey with
      | none => entriesBySource.set dedupeKey normalizedEntry
      | some existingEntry =>
        if existingEntry.updatedAt < normalizedEntry.updatedAt ∨ normalizedEntry.updatedAt = existingEntry.updatedAt ∧
            existingEntry.resumeSeconds.getD 0 ≤ resumeSeconds then
          entriesBySource.set dedupeKey normalizedEntry
        else entriesBySource

/-- Whether the comparison leaves `left` before `right`. -/
def comesFirst (left right : Entry) : Bool :=
  if right.updatedAt ≠ left.updatedAt then right.updatedAt - left.updatedAt ≤ 0
  else right.resumeSeconds.getD 0 - left.resumeSeconds.getD 0 ≤ 0

def sortAndLimitContinueEntries (entries : List Entry) : List Entry := (entries.mergeSort comesFirst).take 12

def mergeContinueWatchingEntries (entryLists : List (List Entry)) : List Entry :=
  sortAndLimitContinueEntries (entryLists.flatten.foldl (addContinueEntryToMap toLowerCase) Table.empty).values

/-- How titles are told apart and ordered. -/
def titles : Scale Entry Text (ℚ ×ₗ ℚ) where
  key entry := getContinueDedupeKey toLowerCase (jsTrim entry.sourceIdentity) entry.seriesId
  rank entry := toLex (entry.updatedAt, entry.resumeSeconds.getD 0)

/-- An entry as it is entered, where it says what is to be continued. -/
def entered (entry : Entry) : Option Entry :=
  if jsTrim entry.sourceIdentity ≠ [] ∧ 1 ≤ entry.resumeSeconds.getD 0 then some (normalizeLocalContinueEntry toLowerCase entry)
  else none

/-- The titles that come in, with the time and the position of each entry. -/
def incoming (entryLists : List (List Entry)) : List (Text × (ℚ ×ₗ ℚ)) :=
  (entryLists.flatten.filterMap (entered toLowerCase)).map (titles toLowerCase).tag

def shown (entries : List Entry) : List (Text × (ℚ ×ₗ ℚ)) := entries.map (titles toLowerCase).tag

variable {toLowerCase} {entry : Entry}

theorem comesFirst_eq (left right : Entry) :
    comesFirst left right = decide ((titles toLowerCase).rank right ≤ (titles toLowerCase).rank left) := by
  rw [comesFirst, Bool.eq_iff_iff]
  simp only [titles, decide_eq_true_iff, Prod.Lex.toLex_le_toLex]
  by_cases heq : right.updatedAt = left.updatedAt
  · simp [heq]
  · simp [heq, lt_iff_le_and_ne]

theorem addContinueEntryToMap_eq (entriesBySource : Table Text Entry) (entry : Entry) :
    addContinueEntryToMap toLowerCase entriesBySource entry =
      (entered toLowerCase entry).elim entriesBySource ((titles toLowerCase).add entriesBySource) := by
  rw [addContinueEntryToMap, entered]
  have hresume : (normalizeLocalContinueEntry toLowerCase entry).resumeSeconds = entry.resumeSeconds := rfl
  have hsource : (normalizeLocalContinueEntry toLowerCase entry).sourceIdentity = entry.sourceIdentity := rfl
  dsimp only
  rw [hresume, hsource]
  cases hcase : entry.resumeSeconds with
  | none =>
    rw [if_neg (by simp)]
    rfl
  | some resumeSeconds =>
    dsimp only
    by_cases hcounts : jsTrim entry.sourceIdentity ≠ [] ∧ 1 ≤ resumeSeconds
    · have hnot : ¬(jsTrim entry.sourceIdentity = [] ∨ resumeSeconds < 1) := by
        rintro (hempty | hlt)
        · exact hcounts.1 hempty
        · exact absurd hlt (not_lt.mpr hcounts.2)
      rw [if_neg hnot, Option.getD_some, if_pos hcounts, Option.elim_some, Scale.add]
      have hkey : (titles toLowerCase).key (normalizeLocalContinueEntry toLowerCase entry) =
          getContinueDedupeKey toLowerCase (jsTrim entry.sourceIdentity)
            (normalizeLocalContinueEntry toLowerCase entry).seriesId := rfl
      rw [hkey]
      split
      · next hnone =>
        rw [Table.set]
        refine upsert_congr fun old hold => ?_
        rw [hnone] at hold
        cases hold
      · next existingEntry hexisting =>
        have hrank : (titles toLowerCase).rank existingEntry ≤
              (titles toLowerCase).rank (normalizeLocalContinueEntry toLowerCase entry) ↔
            existingEntry.updatedAt < (normalizeLocalContinueEntry toLowerCase entry).updatedAt ∨
              (normalizeLocalContinueEntry toLowerCase entry).updatedAt = existingEntry.updatedAt ∧
                existingEntry.resumeSeconds.getD 0 ≤ resumeSeconds := by
          simp only [titles, Prod.Lex.toLex_le_toLex, hresume, hcase, Option.getD_some]
          exact or_congr_right (and_congr_left' eq_comm)
        by_cases hnewer : (titles toLowerCase).rank existingEntry ≤
            (titles toLowerCase).rank (normalizeLocalContinueEntry toLowerCase entry)
        · rw [if_pos (hrank.mp hnewer), Table.set]
          refine upsert_congr fun old hold => ?_
          obtain rfl := Option.some.inj (hexisting.symm.trans hold)
          rw [Scale.keep, if_pos hnewer]
        · rw [if_neg fun h => hnewer (hrank.mpr h)]
          have hkept : (titles toLowerCase).keep existingEntry (normalizeLocalContinueEntry toLowerCase entry) = existingEntry :=
            if_neg hnewer
          exact (upsert_kept (f := fun old => (titles toLowerCase).keep old _) hexisting hkept).symm
    · have hskip : jsTrim entry.sourceIdentity = [] ∨ resumeSeconds < 1 := by
        by_contra hnot
        obtain ⟨hne, hge⟩ := not_or.mp hnot
        exact hcounts ⟨hne, not_lt.mp hge⟩
      rw [if_pos hskip, Option.getD_some, if_neg hcounts]
      rfl

theorem foldl_addContinueEntryToMap (entries : List Entry) (entriesBySource : Table Text Entry) :
    entries.foldl (addContinueEntryToMap toLowerCase) entriesBySource =
      (entries.filterMap (entered toLowerCase)).foldl (titles toLowerCase).add entriesBySource := by
  induction entries generalizing entriesBySource with
  | nil => rfl
  | cons entry entries ih =>
    rw [List.foldl_cons, ih, addContinueEntryToMap_eq, List.filterMap_cons]
    cases entered toLowerCase entry <;> rfl

/-- The list is the listing of the twelve newest. -/
theorem mergeContinueWatchingEntries_eq (entryLists : List (List Entry)) : mergeContinueWatchingEntries toLowerCase entryLists =
    (titles toLowerCase).listing 12 (entryLists.flatten.filterMap (entered toLowerCase)) := by
  have hfirst : comesFirst = fun left right => decide ((titles toLowerCase).rank right ≤ (titles toLowerCase).rank left) :=
    funext fun left => funext fun right => comesFirst_eq left right
  rw [mergeContinueWatchingEntries, foldl_addContinueEntryToMap, sortAndLimitContinueEntries, hfirst]
  rfl

/-- What was entered is entered again as the same title, with its time and position. -/
theorem entered_entered {result : Entry} (h : entered toLowerCase entry = some result) :
    ∃ again, entered toLowerCase result = some again ∧ (titles toLowerCase).tag again = (titles toLowerCase).tag result := by
  rw [entered] at h
  split at h
  · next hcounts =>
    obtain rfl := Option.some.inj h
    refine ⟨_, if_pos hcounts, ?_⟩
    simp only [Scale.tag, titles, normalizeLocalContinueEntry, SubtitleCues.jsTrim_jsTrim]
  · cases h

theorem mem_incoming {entryLists : List (List Entry)} {tag : Text × (ℚ ×ₗ ℚ)} : tag ∈ incoming toLowerCase entryLists ↔
    ∃ entries ∈ entryLists, ∃ entry ∈ entries, ∃ result, entered toLowerCase entry = some result ∧
      (titles toLowerCase).tag result = tag := by
  simp only [incoming, List.mem_map, List.mem_filterMap, List.mem_flatten]
  constructor
  · rintro ⟨result, ⟨entry, ⟨entries, hentries, hentry⟩, hresult⟩, rfl⟩
    exact ⟨entries, hentries, entry, hentry, result, hresult, rfl⟩
  · rintro ⟨entries, hentries, entry, hentry, result, hresult, rfl⟩
    exact ⟨result, ⟨entry, ⟨entries, hentries, hentry⟩, hresult⟩, rfl⟩

theorem incoming_mono {entryLists more : List (List Entry)} (h : entryLists ⊆ more) :
    incoming toLowerCase entryLists ⊆ incoming toLowerCase more := by
  intro tag htag
  obtain ⟨entries, hentries, hrest⟩ := mem_incoming.mp htag
  exact mem_incoming.mpr ⟨entries, h hentries, hrest⟩

/-- Of a list that was merged the same titles come in again. -/
theorem incoming_merged (entryLists : List (List Entry)) :
    ∀ tag, tag ∈ incoming toLowerCase [mergeContinueWatchingEntries toLowerCase entryLists] ↔
      tag ∈ shown toLowerCase (mergeContinueWatchingEntries toLowerCase entryLists) := by
  have hentered : ∀ entry ∈ mergeContinueWatchingEntries toLowerCase entryLists, ∃ again,
      entered toLowerCase entry = some again ∧ (titles toLowerCase).tag again = (titles toLowerCase).tag entry := by
    intro entry hentry
    rw [mergeContinueWatchingEntries_eq] at hentry
    obtain ⟨source, -, hsource⟩ := List.mem_filterMap.mp (mem_of_mem_listing hentry)
    exact entered_entered hsource
  intro tag
  rw [mem_incoming, shown, List.mem_map]
  constructor
  · rintro ⟨entries, hentries, entry, hentry, result, hresult, rfl⟩
    obtain rfl := List.mem_singleton.mp hentries
    obtain ⟨again, hagain, htag⟩ := hentered entry hentry
    obtain rfl := Option.some.inj (hagain.symm.trans hresult)
    exact ⟨entry, hentry, htag.symm⟩
  · rintro ⟨entry, hentry, rfl⟩
    obtain ⟨again, hagain, htag⟩ := hentered entry hentry
    exact ⟨_, List.mem_singleton.mpr rfl, entry, hentry, again, hagain, htag⟩

theorem shown_subset (entryLists : List (List Entry)) :
    shown toLowerCase (mergeContinueWatchingEntries toLowerCase entryLists) ⊆ incoming toLowerCase entryLists := by
  intro tag htag
  rw [shown, mergeContinueWatchingEntries_eq] at htag
  obtain ⟨entry, hentry, rfl⟩ := List.mem_map.mp htag
  exact List.mem_map_of_mem (mem_of_mem_listing hentry)

theorem shown_eq {entryLists more : List (List Entry)} (hapart : Apart (incoming toLowerCase entryLists))
    (hsub : incoming toLowerCase more ⊆ incoming toLowerCase entryLists)
    (htop : shown toLowerCase (mergeContinueWatchingEntries toLowerCase entryLists) ⊆ incoming toLowerCase more) :
    shown toLowerCase (mergeContinueWatchingEntries toLowerCase more) =
      shown toLowerCase (mergeContinueWatchingEntries toLowerCase entryLists) := by
  rw [mergeContinueWatchingEntries_eq] at htop
  rw [mergeContinueWatchingEntries_eq, mergeContinueWatchingEntries_eq]
  exact listing_eq hapart hsub htop

/-- What the merge of some lists shows. -/
structure Merged (toLowerCase : Text → Text) (entryLists : List (List Entry)) : Prop where
  newest : ∀ tag ∈ incoming toLowerCase entryLists,
    (∃ top ∈ shown toLowerCase (mergeContinueWatchingEntries toLowerCase entryLists), top.1 = tag.1 ∧ tag.2 ≤ top.2) ∨
      (mergeContinueWatchingEntries toLowerCase entryLists).length = 12 ∧
        ∀ top ∈ shown toLowerCase (mergeContinueWatchingEntries toLowerCase entryLists), tag.2 ≤ top.2
  distinct : ((shown toLowerCase (mergeContinueWatchingEntries toLowerCase entryLists)).map Prod.fst).Nodup
  sorted : (shown toLowerCase (mergeContinueWatchingEntries toLowerCase entryLists)).Pairwise fun left right => right.2 ≤ left.2
  limited : (mergeContinueWatchingEntries toLowerCase entryLists).length ≤ 12
  stable : ∀ more, (∀ tag, tag ∈ incoming toLowerCase more ↔ tag ∈ incoming toLowerCase entryLists) →
    shown toLowerCase (mergeContinueWatchingEntries toLowerCase more) =
      shown toLowerCase (mergeContinueWatchingEntries toLowerCase entryLists)
  absorbing : ∀ more ⊆ entryLists,
    shown toLowerCase (mergeContinueWatchingEntries toLowerCase
        (mergeContinueWatchingEntries toLowerCase entryLists :: more)) =
      shown toLowerCase (mergeContinueWatchingEntries toLowerCase entryLists)

theorem merged_limited (entryLists : List (List Entry)) : (mergeContinueWatchingEntries toLowerCase entryLists).length ≤ 12 := by
  rw [mergeContinueWatchingEntries_eq]
  exact length_listing_le _ _

theorem ranks_merged (toLowerCase : Text → Text) (entryLists : List (List Entry)) :
    ∃ listed, Ranks (incoming toLowerCase entryLists) listed ∧ shown toLowerCase (mergeContinueWatchingEntries toLowerCase entryLists) = listed.take 12 := by
  refine ⟨_, ranks_sort (titles toLowerCase) _, ?_⟩
  rw [shown, mergeContinueWatchingEntries_eq, map_listing]

/-- A film and two episodes of one show, of which the later one is kept. -/
def evening : List (List Entry) :=
  let row (sourceIdentity : String) (updatedAt resumeSeconds : ℚ) : Entry :=
    ⟨sourceIdentity.toList, [], [], none, none, none, [], [], [], [], [], updatedAt, some resumeSeconds⟩
  [[row "tmdb:movie:155" 100 60, row "tmdb:tv:1399:s1:e1" 300 1200], [row "TMDB:tv:1399:S1:E2" 400 30, row "tmdb:movie:680" 500 0]]

end StreamArena.WebPlayer.ContinueMerge
