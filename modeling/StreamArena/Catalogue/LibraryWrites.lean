import Mathlib
import StreamArena.Catalogue.NormalForm

/-! What is written to the library file and read back, and what a change of one entry leaves of the others. -/
namespace StreamArena.Catalogue
open AsciiText Decimal JsonValue

/-- A document whose arrays of episodes fit the memory. -/
structure Payload where
  value : Value
  fits : ∀ series ∈ items (value.get "series".toList), (items (series.get "episodes".toList)).length < 2 ^ 63

structure Library.Normal (libs : Libs) (library : Library) : Prop where
  movies : ∀ movie ∈ library.movies, movie.Normal
  series : ∀ series ∈ library.series, series.Normal libs

/-- No episode has a number past 999. -/
def Library.InReach (library : Library) : Prop :=
  ∀ series ∈ library.series, ∀ episode ∈ series.episodes, episode.episodeNumber ≤ 999

/-- From the thousandth place on, no entry that is kept has a number that is zero or negative. -/
def Numbered (libs : Libs) (value : Value) : Prop :=
  ∀ series ∈ items (value.get "series".toList), field libs series "title" ≠ [] →
    ∀ index entry, (items (series.get "episodes".toList))[index]? = some entry → 999 ≤ index → field libs entry "src" ≠ [] →
      ∀ n, valueI64 (entry.get "episodeNumber".toList) = some n → 0 < n

section
variable (libs : Libs) (now : Int64) (payload : Payload)

/-- Normalization is idempotent, what is written is read back, and a change of one movie, one
episode or one series leaves the others as they were. -/
structure Stable : Prop where
  idempotent : ∀ later, normalizeLocalLibrary libs later (normalizeLocalLibrary libs now payload.value).toValue =
    normalizeLocalLibrary libs now payload.value
  readBack : ∀ later file, readLocalLibrary libs later (writeLocalLibrary libs now true file payload.value).2 =
    .ok (normalizeLocalLibrary libs now payload.value)
  oneMovie : ∀ {α : Type} (readNow writeNow : Int64) (mutate : Library → Except LibraryError (α × Library)) (read library : Library)
    (output : α) (front back : List MovieEntry) (old new : Option MovieEntry),
      normalizeLocalLibrary libs now payload.value = library →
      readLocalLibrary libs readNow (.holds library.toValue) = .ok read →
      read.movies = front ++ (old.toList ++ back) →
      mutate read = .ok (output, { read with movies := front ++ (new.toList ++ back) }) →
        library.movies = front ++ (old.toList ++ back) ∧ ∃ kept : Option MovieEntry,
          mutateLocalLibrary libs readNow writeNow true (.holds library.toValue) mutate =
            (.ok output, .holds { library with movies := front ++ (kept.toList ++ back) }.toValue)
  oneSeries : ∀ {α : Type} (readNow writeNow : Int64) (mutate : Library → Except LibraryError (α × Library)) (read library : Library)
    (output : α) (front back : List SeriesEntry) (old new : Option SeriesEntry),
      normalizeLocalLibrary libs now payload.value = library →
      readLocalLibrary libs readNow (.holds library.toValue) = .ok read →
      read.series = front ++ (old.toList ++ back) →
      mutate read = .ok (output, { read with series := front ++ (new.toList ++ back) }) →
        library.series = front ++ (old.toList ++ back) ∧ ∃ kept : Option SeriesEntry,
          mutateLocalLibrary libs readNow writeNow true (.holds library.toValue) mutate =
            (.ok output, .holds { library with series := front ++ (kept.toList ++ back) }.toValue)
  oneEpisode : ∀ {α : Type} (readNow writeNow : Int64) (mutate : Library → Except LibraryError (α × Library)) (read library : Library)
    (output : α) (front back : List SeriesEntry) (series : SeriesEntry) (before after : List SeriesEpisodeEntry)
    (old new : Option SeriesEpisodeEntry),
      normalizeLocalLibrary libs now payload.value = library →
      readLocalLibrary libs readNow (.holds library.toValue) = .ok read →
      read.series = front ++ (series :: back) →
      series.episodes = before ++ (old.toList ++ after) →
      mutate read = .ok (output,
        { read with series := front ++ ({ series with episodes := before ++ (new.toList ++ after) } :: back) }) →
        library.series = front ++ (series :: back) ∧ ∃ kept : Option SeriesEntry,
          mutateLocalLibrary libs readNow writeNow true (.holds library.toValue) mutate =
            (.ok output, .holds { library with series := front ++ (kept.toList ++ back) }.toValue) ∧
          (kept = none → before ++ after = []) ∧
          ∀ entry ∈ kept, entry = { series with episodes := entry.episodes } ∧ (before ++ after).Sublist entry.episodes ∧
            entry.episodes.length ≤ (before ++ after).length + 1

end

section
variable {libs : Libs} {now : Int64}

theorem normalizeLocalLibrary_normal (payload : Payload) : (normalizeLocalLibrary libs now payload.value).Normal libs := by
  constructor
  · intro movie hmovie
    obtain ⟨value, -, hnormalized⟩ := List.mem_filterMap.mp hmovie
    exact normalizeLocalMovieEntry_normal hnormalized
  · intro series hseries
    obtain ⟨value, hvalue, hnormalized⟩ := List.mem_filterMap.mp hseries
    exact normalizeLocalSeriesEntry_normal (payload.fits value hvalue) hnormalized

theorem filterMap_movies {movies : List MovieEntry} (h : ∀ movie ∈ movies, movie.Normal) :
    (movies.map MovieEntry.toValue).filterMap (normalizeLocalMovieEntry libs now) = movies := by
  induction movies with
  | nil => rfl
  | cons movie movies ih =>
    rw [List.map_cons, List.filterMap_cons_some (h movie List.mem_cons_self).normalize,
      ih fun m hm => h m (List.mem_cons_of_mem movie hm)]

theorem filterMap_series {series : List SeriesEntry} (h : ∀ entry ∈ series, entry.Complete) :
    (series.map SeriesEntry.toValue).filterMap (normalizeLocalSeriesEntry libs now) = series.map (SeriesEntry.stored libs) := by
  induction series with
  | nil => rfl
  | cons entry series ih =>
    rw [List.map_cons, List.filterMap_cons_some (h entry List.mem_cons_self).normalize,
      ih fun e he => h e (List.mem_cons_of_mem entry he), List.map_cons]

/-- Normal series whose numbers are in reach are kept as they are. -/
theorem filterMap_series_inReach {series : List SeriesEntry} (h : ∀ entry ∈ series, entry.Normal libs)
    (hreach : ∀ entry ∈ series, ∀ episode ∈ entry.episodes, episode.episodeNumber ≤ 999) :
    (series.map SeriesEntry.toValue).filterMap (normalizeLocalSeriesEntry libs now) = series := by
  rw [filterMap_series fun entry he => (h entry he).complete]
  exact (List.map_congr_left fun entry he => (h entry he).stored_of_inReach (hreach entry he)).trans (List.map_id _)

theorem normalizeLocalLibrary_toValue (library : Library) : normalizeLocalLibrary libs now library.toValue =
    ⟨(library.movies.map MovieEntry.toValue).filterMap (normalizeLocalMovieEntry libs now),
      (library.series.map SeriesEntry.toValue).filterMap (normalizeLocalSeriesEntry libs now)⟩ := rfl

/-- The libraries of which every entry is kept. -/
structure Library.Complete (library : Library) : Prop where
  movies : ∀ movie ∈ library.movies, movie.Normal
  series : ∀ series ∈ library.series, series.Complete

def Library.stored (libs : Libs) (library : Library) : Library :=
  { library with series := library.series.map (SeriesEntry.stored libs) }

theorem Library.Complete.normalize {library : Library} (h : library.Complete) :
    normalizeLocalLibrary libs now library.toValue = library.stored libs := by
  rw [normalizeLocalLibrary_toValue, filterMap_movies h.movies, filterMap_series h.series, Library.stored]

theorem Library.Complete.stored_normal {library : Library} (h : library.Complete) : (library.stored libs).Normal libs where
  movies := h.movies
  series entry hentry := by
    obtain ⟨source, hsource, rfl⟩ := List.mem_map.mp hentry
    exact (h.series source hsource).stored_normal

theorem Library.Complete.stored_inReach {library : Library} (h : library.Complete) : (library.stored libs).InReach := by
  intro entry hentry
  obtain ⟨source, hsource, rfl⟩ := List.mem_map.mp hentry
  exact (h.series source hsource).stored_inReach

theorem Library.Normal.complete {library : Library} (h : library.Normal libs) : library.Complete where
  movies := h.movies
  series entry hentry := (h.series entry hentry).complete

/-- A normal library whose numbers are in reach is normalized to itself. -/
theorem Library.Normal.normalize {library : Library} (h : library.Normal libs) (hreach : library.InReach) :
    normalizeLocalLibrary libs now library.toValue = library := by
  rw [normalizeLocalLibrary_toValue, filterMap_movies h.movies, filterMap_series_inReach h.series hreach]

theorem field_of_get_none {entry : Value} (name : String) (h : entry.get name.toList = none) : field libs entry name = [] := by
  rw [field, h]
  rfl

theorem asObject_of_field {entry : Value} {name : String} (h : field libs entry name ≠ []) : ∃ fields, entry.asObject = some fields := by
  cases entry with
  | object fields => exact ⟨fields, rfl⟩
  | _ => exact absurd (field_of_get_none name rfl) h

/-- The number that a kept entry gets at its place. -/
def numberAt (entry : Value) (index : Nat) : Int64 :=
  normalizeUploadEpisodeOrdinal ((valueI64 (entry.get "episodeNumber".toList)).getD (Int64.ofNat (index + 1))) (Int64.ofNat (index + 1))

theorem normalizeEpisode_eq_some {value : Value} {index : Nat} {kind : Text} {entry : SeriesEpisodeEntry}
    (h : normalizeLocalSeriesEpisodeEntry libs now value index kind = some entry) :
    field libs value "src" ≠ [] ∧ entry.episodeNumber = numberAt value index := by
  rw [normalizeLocalSeriesEpisodeEntry] at h
  cases hobject : value.asObject with
  | none =>
    rw [hobject] at h
    cases h
  | some fields =>
    simp only [hobject, Option.bind_eq_bind, Option.bind_some] at h
    split at h
    · cases h
    · next hne =>
      rw [List.isEmpty_iff] at hne
      rw [← Option.some.inj h]
      exact ⟨hne, rfl⟩

theorem exists_normalizeEpisode {value : Value} (h : field libs value "src" ≠ []) (index : Nat) (kind : Text) :
    ∃ entry, normalizeLocalSeriesEpisodeEntry libs now value index kind = some entry ∧ entry.episodeNumber = numberAt value index := by
  obtain ⟨fields, hobject⟩ := asObject_of_field h
  have hne : ¬ (field libs value "src").isEmpty = true := by
    rw [List.isEmpty_iff]
    exact h
  rw [normalizeLocalSeriesEpisodeEntry]
  simp only [hobject, Option.bind_eq_bind, Option.bind_some, if_neg hne]
  exact ⟨_, rfl, rfl⟩

theorem numberAt_le_iff {value : Value} {index : Nat} (hindex : index + 1 < 2 ^ 63) : numberAt value index ≤ 999 ↔
    index < 999 ∨ ∀ n, valueI64 (value.get "episodeNumber".toList) = some n → 0 < n := by
  have hfallback : Int64.ofNat (index + 1) ≤ 999 ↔ index < 999 := by
    rw [Int64.le_iff_toInt_le, Int64.toInt_ofNat_of_lt hindex]
    have hlimit : (999 : Int64).toInt = 999 := rfl
    omega
  have hpos : 0 < Int64.ofNat (index + 1) := by
    rw [Int64.lt_iff_toInt_lt, Int64.toInt_ofNat_of_lt hindex]
    have hzero : (0 : Int64).toInt = 0 := rfl
    omega
  rw [numberAt]
  cases valueI64 (value.get "episodeNumber".toList) with
  | none => simpa using (ordinal_of_pos hpos).2
  | some n =>
    rw [Option.getD_some]
    by_cases hn : 0 < n
    · simpa [hn] using (ordinal_of_pos hn).2
    · rw [ordinal_of_nonpos hn, hfallback]
      simp [hn]

theorem mem_keptEpisodes {values : List Value} {kind : Text} {entry : SeriesEpisodeEntry} (h : entry ∈ keptEpisodes libs now values kind) :
    ∃ index value, values[index]? = some value ∧ field libs value "src" ≠ [] ∧ entry.episodeNumber = numberAt value index := by
  obtain ⟨⟨value, index⟩, hmem, hnormalized⟩ := List.mem_filterMap.mp h
  obtain ⟨hsrc, hnumber⟩ := normalizeEpisode_eq_some hnormalized
  exact ⟨index, value, List.mem_zipIdx_iff_getElem?.mp hmem, hsrc, hnumber⟩

theorem exists_mem_keptEpisodes {values : List Value} (kind : Text) {index : Nat} {value : Value} (h : values[index]? = some value)
    (hsrc : field libs value "src" ≠ []) :
    ∃ entry ∈ keptEpisodes libs now values kind, entry.episodeNumber = numberAt value index := by
  obtain ⟨entry, hnormalized, hnumber⟩ := @exists_normalizeEpisode _ now _ hsrc index kind
  exact ⟨entry, List.mem_filterMap.mpr ⟨(value, index), List.mem_zipIdx_iff_getElem?.mpr h, hnormalized⟩, hnumber⟩

theorem normalizeSeries_eq_some {value : Value} {series : SeriesEntry} (h : normalizeLocalSeriesEntry libs now value = some series) :
    field libs value "title" ≠ [] ∧ ∃ kind, ∀ episode, episode ∈ series.episodes ↔
      episode ∈ keptEpisodes libs now (items (value.get "episodes".toList)) kind := by
  rw [normalizeLocalSeriesEntry] at h
  cases hobject : value.asObject with
  | none =>
    rw [hobject] at h
    cases h
  | some fields =>
    simp only [hobject, Option.bind_eq_bind, Option.bind_some] at h
    split at h
    · cases h
    · next hne =>
      split at h
      · cases h
      · simp only [Bool.or_eq_true, List.isEmpty_iff, not_or] at hne
        rw [← Option.some.inj h]
        exact ⟨hne.2, _, fun episode => List.mem_mergeSort⟩

theorem exists_normalizeSeries {value : Value} (htitle : field libs value "title" ≠ []) {index : Nat} {entry : Value}
    (h : (items (value.get "episodes".toList))[index]? = some entry) (hsrc : field libs entry "src" ≠ []) :
    ∃ series, normalizeLocalSeriesEntry libs now value = some series ∧
      ∃ episode ∈ series.episodes, episode.episodeNumber = numberAt entry index := by
  obtain ⟨fields, hobject⟩ := asObject_of_field htitle
  have hid : seriesId libs value ≠ [] := (slug_slugify slug_seriesKind libs _).ne_nil
  have hne : ¬ ((seriesId libs value).isEmpty || (field libs value "title").isEmpty) = true := by
    simp [hid, htitle]
  obtain ⟨episode, hepisode, hnumber⟩ := @exists_mem_keptEpisodes _ now _
    (seriesContentKind libs value (seriesId libs value) (field libs value "title")) _ _ h hsrc
  have hkept : ¬ (keptEpisodes libs now (items (value.get "episodes".toList))
      (seriesContentKind libs value (seriesId libs value) (field libs value "title"))).isEmpty = true := by
    rw [List.isEmpty_iff]
    exact List.ne_nil_of_mem hepisode
  rw [normalizeLocalSeriesEntry]
  simp only [hobject, Option.bind_eq_bind, Option.bind_some, if_neg hne, if_neg hkept]
  exact ⟨_, rfl, episode, List.mem_mergeSort.mpr hepisode, hnumber⟩

/-- The numbers are in reach exactly when no kept entry past the thousandth has one that is not positive. -/
theorem inReach_iff (payload : Payload) : (normalizeLocalLibrary libs now payload.value).InReach ↔ Numbered libs payload.value := by
  have hindex {value entry : Value} {index : Nat} (hvalue : value ∈ items (payload.value.get "series".toList))
      (hentry : (items (value.get "episodes".toList))[index]? = some entry) : index + 1 < 2 ^ 63 := by
    have hfits := payload.fits value hvalue
    have hplace := (List.getElem?_eq_some_iff.mp hentry).1
    omega
  constructor
  · intro h value hvalue htitle index entry hentry hlate hsrc
    obtain ⟨series, hnormalized, episode, hepisode, hnumber⟩ := @exists_normalizeSeries _ now _ htitle _ _ hentry hsrc
    have hreach := h series (List.mem_filterMap.mpr ⟨value, hvalue, hnormalized⟩) episode hepisode
    rw [hnumber, numberAt_le_iff (hindex hvalue hentry)] at hreach
    exact hreach.resolve_left (by omega)
  · intro h series hseries episode hepisode
    obtain ⟨value, hvalue, hnormalized⟩ := List.mem_filterMap.mp hseries
    obtain ⟨htitle, kind, hmem⟩ := normalizeSeries_eq_some hnormalized
    obtain ⟨index, entry, hentry, hsrc, hnumber⟩ := mem_keptEpisodes ((hmem episode).mp hepisode)
    rw [hnumber, numberAt_le_iff (hindex hvalue hentry)]
    by_cases hearly : index < 999
    · exact .inl hearly
    · exact .inr (h value hvalue htitle index entry hentry (by omega) hsrc)

/-- The second normalization brings every number in reach. -/
theorem Library.Normal.inReach_normalize {library : Library} (h : library.Normal libs) :
    (normalizeLocalLibrary libs now library.toValue).InReach := by
  rw [h.complete.normalize]
  exact h.complete.stored_inReach

theorem filterMap_toList {α β : Type*} (f : α → Option β) (one : Option α) : one.toList.filterMap f = (one.bind f).toList := by
  cases one with
  | none => rfl
  | some value => simp [List.filterMap_cons, List.filterMap_nil, Option.toList]; cases f value <;> rfl

/-- One entry among entries that are kept is kept or left out. -/
theorem keptEpisodes_middle {before after : List SeriesEpisodeEntry} (kind : Text) (new : Option SeriesEpisodeEntry)
    (hbefore : ∀ entry ∈ before, entry.Draft) (hafter : ∀ entry ∈ after, entry.Draft) : ∃ kept : Option SeriesEpisodeEntry,
      keptEpisodes libs now ((before ++ (new.toList ++ after)).map SeriesEpisodeEntry.toValue) kind =
        before.map (SeriesEpisodeEntry.stored kind) ++ (kept.toList ++ after.map (SeriesEpisodeEntry.stored kind)) := by
  rw [keptEpisodes, List.map_append, List.map_append, List.zipIdx_append, List.zipIdx_append, List.filterMap_append,
    List.filterMap_append, filterMap_zipIdx 0 hbefore, filterMap_zipIdx _ hafter]
  cases new with
  | none => exact ⟨none, rfl⟩
  | some entry =>
    refine ⟨normalizeLocalSeriesEpisodeEntry libs now entry.toValue (0 + (before.map SeriesEpisodeEntry.toValue).length) kind, ?_⟩
    refine congrArg (fun middle => before.map (SeriesEpisodeEntry.stored kind) ++ (middle ++ after.map (SeriesEpisodeEntry.stored kind))) ?_
    exact filterMap_toList (fun entry => normalizeLocalSeriesEpisodeEntry libs now entry.1 entry.2 kind)
      (some (entry.toValue, 0 + (before.map SeriesEpisodeEntry.toValue).length))

theorem mutateLocalLibrary_ok {α : Type} {readNow writeNow : Int64} {file : LibraryFile}
    {mutate : Library → Except LibraryError (α × Library)} {read changed : Library} {output : α}
    (hread : readLocalLibrary libs readNow file = .ok read) (hmutate : mutate read = .ok (output, changed)) :
    mutateLocalLibrary libs readNow writeNow true file mutate =
      (.ok output, .holds (normalizeLocalLibrary libs writeNow changed.toValue).toValue) := by
  rw [mutateLocalLibrary, hread]
  simp only [hmutate, writeLocalLibrary, if_true]

/-- Libraries in reach are stable. -/
theorem stable_of_inReach {payload : Payload} (h : (normalizeLocalLibrary libs now payload.value).InReach) : Stable libs now payload := by
  have hnormal := @normalizeLocalLibrary_normal libs now payload
  have hread {library read : Library} {readNow : Int64} (heq : normalizeLocalLibrary libs now payload.value = library)
      (hok : readLocalLibrary libs readNow (.holds library.toValue) = .ok read) : read = library ∧ library.Normal libs ∧ library.InReach := by
    rw [heq] at h hnormal
    rw [readLocalLibrary, hnormal.normalize h] at hok
    exact ⟨(Except.ok.inj hok).symm, hnormal, h⟩
  refine ⟨fun later => hnormal.normalize h, fun later file => ?_, ?_, ?_, ?_⟩
  · exact congrArg Except.ok (hnormal.normalize h)
  · intro α readNow writeNow mutate read library output front back old new heq hok hmovies hmutate
    obtain ⟨rfl, hlibrary, hreach⟩ := hread heq hok
    refine ⟨hmovies, new.bind fun movie => normalizeLocalMovieEntry libs writeNow movie.toValue, ?_⟩
    have hmem {movie : MovieEntry} (hmovie : movie ∈ front ∨ movie ∈ back) : movie.Normal := by
      refine hlibrary.movies movie ?_
      rw [hmovies]
      rcases hmovie with hmovie | hmovie <;> simp [hmovie]
    have hkept : ((front ++ (new.toList ++ back)).map MovieEntry.toValue).filterMap (normalizeLocalMovieEntry libs writeNow) =
        front ++ ((new.bind fun movie => normalizeLocalMovieEntry libs writeNow movie.toValue).toList ++ back) := by
      rw [List.map_append, List.map_append, List.filterMap_append, List.filterMap_append, filterMap_movies fun movie hm => hmem (.inl hm),
        filterMap_movies fun movie hm => hmem (.inr hm), List.filterMap_map, filterMap_toList]
      rfl
    rw [mutateLocalLibrary_ok hok hmutate, normalizeLocalLibrary_toValue, hkept, filterMap_series_inReach hlibrary.series hreach]
  · intro α readNow writeNow mutate read library output front back old new heq hok hseries hmutate
    obtain ⟨rfl, hlibrary, hreach⟩ := hread heq hok
    refine ⟨hseries, new.bind fun entry => normalizeLocalSeriesEntry libs writeNow entry.toValue, ?_⟩
    have hmem {entry : SeriesEntry} (hentry : entry ∈ front ∨ entry ∈ back) : entry ∈ read.series := by
      rw [hseries]
      rcases hentry with hentry | hentry <;> simp [hentry]
    have hkept : ((front ++ (new.toList ++ back)).map SeriesEntry.toValue).filterMap (normalizeLocalSeriesEntry libs writeNow) =
        front ++ ((new.bind fun entry => normalizeLocalSeriesEntry libs writeNow entry.toValue).toList ++ back) := by
      rw [List.map_append, List.map_append, List.filterMap_append, List.filterMap_append,
        filterMap_series_inReach (fun entry he => hlibrary.series entry (hmem (.inl he))) fun entry he => hreach entry (hmem (.inl he)),
        filterMap_series_inReach (fun entry he => hlibrary.series entry (hmem (.inr he))) fun entry he => hreach entry (hmem (.inr he)),
        List.filterMap_map, filterMap_toList]
      rfl
    rw [mutateLocalLibrary_ok hok hmutate, normalizeLocalLibrary_toValue, hkept, filterMap_movies hlibrary.movies]
  · intro α readNow writeNow mutate read library output front back series before after old new heq hok hseries hepisodes hmutate
    obtain ⟨rfl, hlibrary, hreach⟩ := hread heq hok
    have hmem {entry : SeriesEntry} (hentry : entry ∈ front ∨ entry = series ∨ entry ∈ back) : entry ∈ read.series := by
      rw [hseries]
      rcases hentry with hentry | rfl | hentry
      · simp [hentry]
      · simp
      · simp [hentry]
    have hentry := hlibrary.series series (hmem (.inr (.inl rfl)))
    have hin {episode : SeriesEpisodeEntry} (hepisode : episode ∈ before ∨ episode ∈ after) : episode ∈ series.episodes := by
      rw [hepisodes]
      rcases hepisode with hepisode | hepisode <;> simp [hepisode]
    have hsame {part : List SeriesEpisodeEntry} (hpart : ∀ episode ∈ part, episode ∈ series.episodes) :
        part.map (SeriesEpisodeEntry.stored series.contentKind) = part := by
      refine (List.map_congr_left fun episode he => ?_).trans (List.map_id part)
      exact (hentry.episodes episode (hpart episode he)).stored_of_inReach
        (hreach series (hmem (.inr (.inl rfl))) episode (hpart episode he))
    obtain ⟨one, hone⟩ := @keptEpisodes_middle libs writeNow _ _ series.contentKind new
      (fun episode he => hentry.complete.episodes episode (hin (.inl he))) (fun episode he => hentry.complete.episodes episode (hin (.inr he)))
    rw [hsame fun episode he => hin (.inl he), hsame fun episode he => hin (.inr he)] at hone
    have hwith : normalizeLocalSeriesEntry libs writeNow
        ({ series with episodes := before ++ (new.toList ++ after) } : SeriesEntry).toValue =
          if before ++ (one.toList ++ after) = [] then none
          else some { series with episodes := (before ++ (one.toList ++ after)).mergeSort ordinalLe } := by
      have hstored := @SeriesEntry.Draft.normalize libs writeNow _ (hentry.complete.with_episodes (before ++ (new.toList ++ after)))
      have hkind : ({ series with episodes := before ++ (new.toList ++ after) } : SeriesEntry).storedKind libs = series.contentKind :=
        hentry.storedKind_eq
      have hid : ({ series with episodes := before ++ (new.toList ++ after) } : SeriesEntry).storedId libs = series.id :=
        storedId_of_slug hentry.id
      rw [hkind, hone, SeriesEntry.storedWith, hid, hkind] at hstored
      exact hstored
    refine ⟨hseries, if before ++ (one.toList ++ after) = [] then none
      else some { series with episodes := (before ++ (one.toList ++ after)).mergeSort ordinalLe }, ?_, ?_, ?_⟩
    · have hkept : ((front ++ ({ series with episodes := before ++ (new.toList ++ after) } :: back)).map SeriesEntry.toValue).filterMap
          (normalizeLocalSeriesEntry libs writeNow) = front ++ ((if before ++ (one.toList ++ after) = [] then none
            else some { series with episodes := (before ++ (one.toList ++ after)).mergeSort ordinalLe }).toList ++ back) := by
        rw [List.map_append, List.map_cons, List.filterMap_append, List.filterMap_cons, hwith,
          filterMap_series_inReach (fun entry he => hlibrary.series entry (hmem (.inl he))) fun entry he => hreach entry (hmem (.inl he)),
          filterMap_series_inReach (fun entry he => hlibrary.series entry (hmem (.inr (.inr he))))
            fun entry he => hreach entry (hmem (.inr (.inr he)))]
        split
        · next hnone => rw [hnone]; rfl
        · next entry hsome => rw [hsome]; rfl
      rw [mutateLocalLibrary_ok hok hmutate, normalizeLocalLibrary_toValue, hkept, filterMap_movies hlibrary.movies]
    · intro hnone
      split at hnone
      · next hnil =>
        rw [List.append_eq_nil_iff, List.append_eq_nil_iff] at hnil
        rw [hnil.1, hnil.2.2]
        rfl
      · cases hnone
    · intro entry hkept
      split at hkept
      · cases hkept
      · rw [← Option.some.inj hkept]
        have hsub : (before ++ after).Sublist (before ++ (one.toList ++ after)) :=
          (List.Sublist.refl before).append (List.sublist_append_right one.toList after)
        have hsorted : (before ++ after).Pairwise fun a b => ordinalLe a b = true := by
          refine hentry.sorted.sublist ?_
          rw [hepisodes]
          exact (List.Sublist.refl before).append (List.sublist_append_right old.toList after)
        refine ⟨rfl, List.sublist_mergeSort ordinalLe_trans ordinalLe_total hsorted hsub, ?_⟩
        rw [List.length_mergeSort]
        cases one <;> simp <;> omega

/-- A library is stable exactly when, from the thousandth place of a series on, no episode
that is kept has a number that is zero or negative. -/
theorem stable_iff (libs : Libs) (now : Int64) (payload : Payload) : Stable libs now payload ↔ Numbered libs payload.value := by
  rw [← @inReach_iff _ now]
  constructor
  · intro h
    have hsecond := @Library.Normal.inReach_normalize _ now _ (@normalizeLocalLibrary_normal libs now payload)
    rwa [h.idempotent now] at hsecond
  · exact stable_of_inReach

end

def asciiLibs : Libs where
  toLowercase text := text.map Char.toLower
  toLowercase_ascii _ _ := rfl
  toAsciiLowercase_toLowercase := toAsciiLowercase_idem
  render _ := []

def lateEpisode : Value := .object [("src".toList, .string ['a']), ("episodeNumber".toList, .int 0)]

def lateSeries : Value :=
  .object [("title".toList, .string ['S']), ("episodes".toList, .array (List.replicate 999 .null ++ [lateEpisode]))]

def lateLibrary : Payload where
  value := .object [("series".toList, .array [lateSeries])]
  fits series hseries := by
    have hsame : series = lateSeries := List.mem_singleton.mp hseries
    have hlength : (items (lateSeries.get "episodes".toList)).length = (List.replicate 999 Value.null ++ [lateEpisode]).length := rfl
    rw [hsame, hlength, List.length_append, List.length_replicate, List.length_singleton]
    norm_num

/-- An episode in the thousandth place with the number 0 becomes number 1000, and then number 999. -/
theorem late_episode_renumbered : ¬ Stable asciiLibs 0 lateLibrary := by
  intro h
  have hsecond := @Library.Normal.inReach_normalize _ 0 _ (@normalizeLocalLibrary_normal asciiLibs 0 lateLibrary)
  rw [h.idempotent 0, inReach_iff] at hsecond
  have hseries : lateSeries ∈ items (lateLibrary.value.get "series".toList) := List.mem_singleton.mpr rfl
  have htitle : field asciiLibs lateSeries "title" ≠ [] := by decide
  have hsrc : field asciiLibs lateEpisode "src" ≠ [] := by decide
  have hplace : (List.replicate 999 Value.null ++ [lateEpisode])[999]? = some lateEpisode := by
    rw [List.getElem?_append_right (by rw [List.length_replicate]), List.length_replicate]
    rfl
  have hnumber : valueI64 (lateEpisode.get "episodeNumber".toList) = some 0 := rfl
  have hpos := hsecond lateSeries hseries htitle 999 lateEpisode hplace (by omega) hsrc 0 hnumber
  exact absurd hpos (by decide)

end StreamArena.Catalogue
