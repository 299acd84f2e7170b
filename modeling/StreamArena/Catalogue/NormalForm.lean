import Mathlib
import StreamArena.Catalogue.LocalLibrary

/-! What normalized libraries look like, and that they are normalized to themselves. -/
namespace StreamArena.Catalogue
open AsciiText Decimal JsonValue

@[simp] theorem normalizeWhitespace_idem (value : Text) :
    normalizeWhitespace (normalizeWhitespace value) = normalizeWhitespace value := by
  rw [normalizeWhitespace, normalizeWhitespace, Words.trim_normalizeWhitespace, Words.trim_normalizeWhitespace,
    Words.normalizeWhitespace_idem]

theorem trim_of_normalizeWhitespace {value : Text} (h : normalizeWhitespace value = value) : trim value = value := by
  rw [← h, normalizeWhitespace, trim_trim]

theorem normalizeWhitespace_of_free {value : Text} (h : ∀ c ∈ value, isWhitespace c = false) : normalizeWhitespace value = value := by
  rcases eq_or_ne value [] with rfl | hne
  · rfl
  · have hwords : Words.splitWhitespace value = [value] := by
      have hword := @Words.splitWhitespace_word _ [] hne h (by simp [Words.Parted])
      rw [List.append_nil] at hword
      rw [hword]
      rfl
    rw [normalizeWhitespace, Words.normalizeWhitespace, hwords, Separated.join_singleton, trim_eq_self h]

theorem normalizeTmdbId_idem (value : Text) : normalizeTmdbId (normalizeTmdbId value) = normalizeTmdbId value := by
  by_cases h : (trim value).isEmpty = false ∧ (trim value).all Char.isDigit = true
  · have hkept : normalizeTmdbId value = trim value := if_pos h
    rw [hkept, normalizeTmdbId, trim_trim, if_pos h]
  · have hnone : normalizeTmdbId value = [] := if_neg h
    rw [hnone]
    rfl

theorem normalizeYear_idem (value : Text) : normalizeYear (normalizeYear value) = normalizeYear value := by
  have hnil : normalizeYear [] = [] := by decide
  by_cases hlength : byteLength (trim value) ≠ 4 ∨ (trim value).all Char.isDigit = false
  · have hnone : normalizeYear value = [] := if_pos hlength
    rw [hnone, hnil]
  · by_cases hrange : 1888 ≤ (parseDigits (trim value)).getD 0 ∧ (parseDigits (trim value)).getD 0 ≤ 2100
    · have hkept : normalizeYear value = trim value := (if_neg hlength).trans (if_pos hrange)
      rw [hkept, normalizeYear, trim_trim, if_neg hlength, if_pos hrange]
    · have hnone : normalizeYear value = [] := (if_neg hlength).trans (if_neg hrange)
      rw [hnone, hnil]

theorem ifEmptyThen_eq (value fallback : Text) : ifEmptyThen value fallback = if trim value = [] then fallback else value := by
  simp only [ifEmptyThen, List.isEmpty_iff]

theorem ifEmptyThen_of_normal {value : Text} (h : normalizeWhitespace value = value) (hne : value ≠ []) (fallback : Text) :
    ifEmptyThen value fallback = value := by
  rw [ifEmptyThen_eq, trim_of_normalizeWhitespace h, if_neg hne]

theorem ifEmptyThen_ne_nil {fallback : Text} (h : fallback ≠ []) (value : Text) : ifEmptyThen value fallback ≠ [] := by
  rw [ifEmptyThen_eq]
  split
  · exact h
  · next hne => exact fun hnil => hne (by rw [hnil, trim_nil])

/-- What a slug can be. -/
structure Slug (s : Text) : Prop where
  ne_nil : s ≠ []
  chars : ∀ c ∈ s, (c.isAlphanum = true ∨ c = '-') ∧ c.toLower = c
  squeezed : slugChars false s = s
  trimmed : trimMatches '-' s = s

theorem toNat_of_isAlphanum {c : Char} (h : c.isAlphanum = true ∨ c = '-') :
    c.toNat = 45 ∨ (48 ≤ c.toNat ∧ c.toNat ≤ 57) ∨ (65 ≤ c.toNat ∧ c.toNat ≤ 90) ∨ (97 ≤ c.toNat ∧ c.toNat ≤ 122) := by
  rcases h with h | rfl
  · simp only [Char.isAlphanum, Char.isAlpha, Bool.or_eq_true] at h
    rcases h with (hupper | hlower) | hdigit
    · have hrange := isUpper_iff.mp hupper
      omega
    · simp only [Char.isLower, Bool.and_eq_true, decide_eq_true_eq] at hlower
      have hlow : 97 ≤ c.toNat := hlower.1
      have hhigh : c.toNat ≤ 122 := hlower.2
      omega
    · simp only [Char.isDigit, Bool.and_eq_true, decide_eq_true_eq] at hdigit
      have hlow : 48 ≤ c.toNat := hdigit.1
      have hhigh : c.toNat ≤ 57 := hdigit.2
      omega
  · exact .inl rfl

theorem Slug.whitespace_free {s : Text} (h : Slug s) : ∀ c ∈ s, isWhitespace c = false := by
  intro c hc
  have hrange := toNat_of_isAlphanum (h.chars c hc).1
  rw [Bool.eq_false_iff]
  intro hspace
  simp only [isWhitespace, Bool.or_eq_true, Bool.and_eq_true, decide_eq_true_eq, beq_iff_eq] at hspace
  omega

theorem Slug.normalizeWhitespace_eq {s : Text} (h : Slug s) : normalizeWhitespace s = s :=
  normalizeWhitespace_of_free h.whitespace_free

theorem Slug.toLowercase_eq {s : Text} (h : Slug s) (libs : Libs) : libs.toLowercase s = s := by
  have hascii : ∀ c ∈ s, c.toNat < 128 := fun c hc => by
    have hrange := toNat_of_isAlphanum (h.chars c hc).1
    omega
  rw [libs.toLowercase_ascii s hascii]
  exact (List.map_congr_left fun c hc => (h.chars c hc).2).trans (List.map_id s)

/-- A slug is its own slug. -/
theorem Slug.slugify_eq {s : Text} (h : Slug s) (libs : Libs) (fallback : Text) : slugify libs s fallback = s := by
  simp only [slugify, h.normalizeWhitespace_eq, h.toLowercase_eq, h.squeezed, h.trimmed, List.isEmpty_iff, if_neg h.ne_nil]

theorem slugChars_cons_of_alphanum {c : Char} (h : c.isAlphanum = true) (lastDash : Bool) (s : Text) :
    slugChars lastDash (c :: s) = c :: slugChars false s := by
  rw [slugChars, if_pos h]

theorem slugChars_true_cons {c : Char} (h : ¬ c.isAlphanum = true) (s : Text) : slugChars true (c :: s) = slugChars true s := by
  rw [slugChars, if_neg h, if_pos rfl]

theorem slugChars_false_cons {c : Char} (h : ¬ c.isAlphanum = true) (s : Text) :
    slugChars false (c :: s) = '-' :: slugChars true s := by
  rw [slugChars, if_neg h, if_neg Bool.false_ne_true]

theorem dash_not_alphanum : ¬ ('-').isAlphanum = true := by decide

theorem slugChars_idem (lastDash : Bool) (s : Text) : slugChars lastDash (slugChars lastDash s) = slugChars lastDash s := by
  induction s generalizing lastDash with
  | nil => rfl
  | cons c s ih =>
    by_cases hc : c.isAlphanum = true
    · rw [slugChars_cons_of_alphanum hc, slugChars_cons_of_alphanum hc, ih]
    · cases lastDash with
      | true => rw [slugChars_true_cons hc, ih]
      | false => rw [slugChars_false_cons hc, slugChars_false_cons dash_not_alphanum, ih]

theorem mem_slugChars {lastDash : Bool} {s : Text} {c : Char} (h : c ∈ slugChars lastDash s) :
    c = '-' ∨ (c ∈ s ∧ c.isAlphanum = true) := by
  induction s generalizing lastDash with
  | nil => cases h
  | cons d s ih =>
    have hrest {b : Bool} (hmem : c ∈ slugChars b s) : c = '-' ∨ (c ∈ d :: s ∧ c.isAlphanum = true) :=
      (ih hmem).imp_right fun hboth => ⟨List.mem_cons_of_mem d hboth.1, hboth.2⟩
    by_cases hd : d.isAlphanum = true
    · rw [slugChars_cons_of_alphanum hd] at h
      rcases List.mem_cons.mp h with rfl | h
      · exact .inr ⟨List.mem_cons_self, hd⟩
      · exact hrest h
    · cases lastDash with
      | true =>
        rw [slugChars_true_cons hd] at h
        exact hrest h
      | false =>
        rw [slugChars_false_cons hd] at h
        rcases List.mem_cons.mp h with rfl | h
        · exact .inl rfl
        · exact hrest h

/-- No dash follows a dash. -/
theorem head_slugChars_true (s : Text) : ∀ c ∈ (slugChars true s).head?, c.isAlphanum = true := by
  induction s with
  | nil => simp [slugChars]
  | cons c s ih =>
    by_cases hc : c.isAlphanum = true
    · rw [slugChars_cons_of_alphanum hc]
      intro d hd
      rw [← Option.some.inj hd]
      exact hc
    · rw [slugChars_true_cons hc]
      exact ih

theorem slugChars_dropWhile {s : Text} (h : slugChars false s = s) :
    slugChars false (s.dropWhile (· == '-')) = s.dropWhile (· == '-') := by
  cases s with
  | nil => rfl
  | cons c s =>
    by_cases hdash : c = '-'
    · rw [hdash, slugChars_false_cons dash_not_alphanum, List.cons.injEq] at h
      have hhead := head_slugChars_true s
      rw [h.2] at hhead
      rw [hdash, List.dropWhile_cons, if_pos (beq_self_eq_true '-')]
      cases s with
      | nil => rfl
      | cons d s =>
        have hd : d.isAlphanum = true := hhead d rfl
        have hne : ¬ (d == '-') = true := by
          rw [beq_iff_eq]
          exact fun heq => dash_not_alphanum (heq ▸ hd)
        have hsame := h.2
        rw [slugChars_cons_of_alphanum hd] at hsame
        rw [List.dropWhile_cons, if_neg hne, slugChars_cons_of_alphanum hd, hsame]
    · rw [List.dropWhile_cons, if_neg (by simpa using hdash)]
      exact h

theorem slugChars_of_prefix {lastDash : Bool} {s t : Text} (h : slugChars lastDash (s ++ t) = s ++ t) : slugChars lastDash s = s := by
  induction s generalizing lastDash with
  | nil => rfl
  | cons c s ih =>
    rw [List.cons_append] at h
    by_cases hc : c.isAlphanum = true
    · rw [slugChars_cons_of_alphanum hc, List.cons.injEq] at h
      rw [slugChars_cons_of_alphanum hc, ih h.2]
    · cases lastDash with
      | true =>
        have hhead := head_slugChars_true (c :: (s ++ t))
        rw [h] at hhead
        exact absurd (hhead c rfl) hc
      | false =>
        rw [slugChars_false_cons hc, List.cons.injEq] at h
        rw [slugChars_false_cons hc, ← h.1, ih h.2]

theorem slugChars_trimMatches {s : Text} (h : slugChars false s = s) : slugChars false (trimMatches '-' s) = trimMatches '-' s := by
  obtain ⟨rest, hrest⟩ := List.rdropWhile_prefix (· == '-') (s.dropWhile (· == '-'))
  have hdrop := slugChars_dropWhile h
  rw [← hrest] at hdrop
  exact slugChars_of_prefix hdrop

theorem trimMatches_idem (c : Char) (s : Text) : trimMatches c (trimMatches c s) = trimMatches c s := by
  have hdrop : (trimMatches c s).dropWhile (· == c) = trimMatches c s :=
    dropWhile_eq_self_of_prefix (List.rdropWhile_prefix _ _) (List.dropWhile_idempotent _ _)
  calc trimMatches c (trimMatches c s) = (trimMatches c s).rdropWhile (· == c) := by rw [trimMatches, hdrop]
    _ = trimMatches c s := List.rdropWhile_idempotent _ _

theorem mem_trimMatches {c d : Char} {s : Text} (h : d ∈ trimMatches c s) : d ∈ s :=
  (List.dropWhile_sublist _).subset ((List.rdropWhile_prefix _ _).subset h)

/-- A slug or its fallback is a slug. -/
theorem slug_slugify {fallback : Text} (h : Slug fallback) (libs : Libs) (value : Text) : Slug (slugify libs value fallback) := by
  simp only [slugify, List.isEmpty_iff]
  split
  · exact h
  · next hne =>
    refine ⟨hne, fun c hc => ?_, slugChars_trimMatches (slugChars_idem false _), trimMatches_idem _ _⟩
    rcases mem_slugChars (mem_trimMatches hc) with rfl | ⟨hmem, halpha⟩
    · exact ⟨.inr rfl, rfl⟩
    · have hlower : (libs.toLowercase (normalizeWhitespace value)).map Char.toLower =
          (libs.toLowercase (normalizeWhitespace value)).map id := by
        rw [List.map_id]
        exact libs.toAsciiLowercase_toLowercase _
      exact ⟨.inl halpha, List.map_eq_map_iff.mp hlower c hmem⟩

theorem slug_of_decide {s : Text} (h : s ≠ [] ∧ s.all (fun c => (c.isAlphanum || c == '-') && c.toLower == c) = true ∧
    slugChars false s = s ∧ trimMatches '-' s = s) : Slug s := by
  obtain ⟨hne, hall, hsqueezed, htrimmed⟩ := h
  refine ⟨hne, fun c hc => ?_, hsqueezed, htrimmed⟩
  have hboth := List.all_eq_true.mp hall c hc
  simpa using hboth

theorem slug_seriesKind : Slug seriesKind := slug_of_decide (by decide)
theorem slug_courseKind : Slug courseKind := slug_of_decide (by decide)
theorem slug_title : Slug "title".toList := slug_of_decide (by decide)

theorem valueI64_toInt (n : Int64) : valueI64 (some (.int n.toInt)) = some n := by
  have hrange : -2 ^ 63 ≤ n.toInt ∧ n.toInt < 2 ^ 63 := ⟨n.le_toInt, n.toInt_lt⟩
  have hvalue : (Value.int n.toInt).asI64 = some n.toInt := if_pos hrange
  rw [valueI64, hvalue, Option.map_some, Int64.ofInt_toInt]
  simp

structure MovieEntry.Normal (entry : MovieEntry) : Prop where
  id : normalizeWhitespace entry.id = entry.id
  id_ne : entry.id ≠ []
  title : normalizeWhitespace entry.title = entry.title
  title_ne : entry.title ≠ []
  tmdbId : normalizeTmdbId entry.tmdbId = entry.tmdbId
  year : normalizeYear entry.year = entry.year
  src : normalizeWhitespace entry.src = entry.src
  src_ne : entry.src ≠ []
  thumb : normalizeWhitespace entry.thumb = entry.thumb
  thumb_ne : entry.thumb ≠ []
  description : normalizeWhitespace entry.description = entry.description

/-- The episodes of a series of some kind, with positive numbers. -/
structure SeriesEpisodeEntry.Normal (kind : Text) (entry : SeriesEpisodeEntry) : Prop where
  title : normalizeWhitespace entry.title = entry.title
  title_ne : entry.title ≠ []
  description : normalizeWhitespace entry.description = entry.description
  thumb : normalizeWhitespace entry.thumb = entry.thumb
  thumb_ne : entry.thumb ≠ []
  src : normalizeWhitespace entry.src = entry.src
  src_ne : entry.src ≠ []
  contentKind : entry.contentKind = courseKind ∨ entry.contentKind = kind
  seasonNumber : 0 < entry.seasonNumber ∧ entry.seasonNumber ≤ 999
  episodeNumber : 0 < entry.episodeNumber

structure SeriesEntry.Normal (libs : Libs) (entry : SeriesEntry) : Prop where
  id : Slug entry.id
  title : normalizeWhitespace entry.title = entry.title
  title_ne : entry.title ≠ []
  contentKind : entry.contentKind = courseKind ∨
    (entry.contentKind = seriesKind ∧ contains (libs.toLowercase (entry.id ++ ' ' :: entry.title)) courseKind = false)
  tmdbId : normalizeTmdbId entry.tmdbId = entry.tmdbId
  year : normalizeYear entry.year = entry.year
  preferredContainer : entry.preferredContainer = "mp4".toList
  requiresLocalEpisodeSources : entry.requiresLocalEpisodeSources = true
  episodes_ne : entry.episodes ≠ []
  episodes : ∀ episode ∈ entry.episodes, episode.Normal entry.contentKind
  sorted : entry.episodes.Pairwise fun a b => ordinalLe a b = true

section
variable {value fallback : Int64}

theorem ordinal_of_nonpos (h : ¬ 0 < value) : normalizeUploadEpisodeOrdinal value fallback = fallback :=
  if_pos (Int64.not_lt.mp h)

theorem ordinal_of_pos (h : 0 < value) :
    0 < normalizeUploadEpisodeOrdinal value fallback ∧ normalizeUploadEpisodeOrdinal value fallback ≤ 999 := by
  have hle : ¬ value ≤ 0 := Int64.not_le.mpr h
  rw [normalizeUploadEpisodeOrdinal, if_neg hle, clampI64]
  split
  · decide
  · split
    · decide
    · next hhigh => exact ⟨h, Int64.not_lt.mp hhigh⟩

theorem ordinal_fallback (h : 0 < value) (first second : Int64) :
    normalizeUploadEpisodeOrdinal value first = normalizeUploadEpisodeOrdinal value second := by
  have hle : ¬ value ≤ 0 := Int64.not_le.mpr h
  rw [normalizeUploadEpisodeOrdinal, normalizeUploadEpisodeOrdinal, if_neg hle, if_neg hle]

theorem ordinal_of_inReach (h : 0 < value) (h' : value ≤ 999) : normalizeUploadEpisodeOrdinal value fallback = value := by
  have hle : ¬ value ≤ 0 := Int64.not_le.mpr h
  have hlow : ¬ value < 1 := by
    rw [Int64.lt_iff_toInt_lt] at h ⊢
    have hone : (1 : Int64).toInt = 1 := rfl
    have hzero : (0 : Int64).toInt = 0 := rfl
    omega
  rw [normalizeUploadEpisodeOrdinal, if_neg hle, clampI64, if_neg hlow, if_neg (Int64.not_lt.mpr h')]

end

theorem ordinalLe_iff {a b : SeriesEpisodeEntry} : ordinalLe a b = true ↔ a.seasonNumber.toInt < b.seasonNumber.toInt ∨
    (a.seasonNumber.toInt = b.seasonNumber.toInt ∧ a.episodeNumber.toInt ≤ b.episodeNumber.toInt) := by
  simp only [ordinalLe, Bool.or_eq_true, Bool.and_eq_true, decide_eq_true_eq, beq_iff_eq, Int64.lt_iff_toInt_lt,
    Int64.le_iff_toInt_le, ← Int64.toInt_inj]

theorem ordinalLe_trans (a b c : SeriesEpisodeEntry) (hab : ordinalLe a b = true) (hbc : ordinalLe b c = true) :
    ordinalLe a c = true := by
  rw [ordinalLe_iff] at hab hbc ⊢
  omega

theorem ordinalLe_total (a b : SeriesEpisodeEntry) : (ordinalLe a b || ordinalLe b a) = true := by
  rw [Bool.or_eq_true, ordinalLe_iff, ordinalLe_iff]
  omega

section
variable {libs : Libs} {now : Int64}

theorem field_normal (entry : Value) (name : String) : normalizeWhitespace (field libs entry name) = field libs entry name :=
  normalizeWhitespace_idem _

theorem normal_ifEmptyThen {value fallback : Text} (h : normalizeWhitespace value = value)
    (h' : normalizeWhitespace fallback = fallback) :
    normalizeWhitespace (ifEmptyThen value fallback) = ifEmptyThen value fallback := by
  rw [ifEmptyThen_eq]
  split
  · exact h'
  · exact h

theorem normal_defaultThumb : normalizeWhitespace defaultThumb = defaultThumb := by decide

theorem defaultThumb_ne_nil : defaultThumb ≠ [] := by decide

theorem normalizeLocalMovieEntry_normal {value : Value} {entry : MovieEntry} (h : normalizeLocalMovieEntry libs now value = some entry) :
    entry.Normal := by
  rw [normalizeLocalMovieEntry] at h
  cases hobject : value.asObject with
  | none =>
    rw [hobject] at h
    cases h
  | some fields =>
    simp only [hobject, Option.bind_eq_bind, Option.bind_some] at h
    split at h
    · cases h
    · next hne =>
      simp only [Bool.or_eq_true, List.isEmpty_iff, not_or] at hne
      rw [← Option.some.inj h]
      have hid : trim (field libs value "id") = field libs value "id" := trim_of_normalizeWhitespace (field_normal value "id")
      have hslug := slug_slugify slug_title libs (field libs value "title")
      have hidNormal : normalizeWhitespace (ifEmptyThen (trim (field libs value "id")) (slugify libs (field libs value "title") "title".toList)) =
          ifEmptyThen (trim (field libs value "id")) (slugify libs (field libs value "title") "title".toList) := by
        rw [hid]
        exact normal_ifEmptyThen (field_normal value "id") hslug.normalizeWhitespace_eq
      have hidNe : ifEmptyThen (trim (field libs value "id")) (slugify libs (field libs value "title") "title".toList) ≠ [] :=
        ifEmptyThen_ne_nil hslug.ne_nil _
      have hthumb : normalizeWhitespace (ifEmptyThen (field libs value "thumb") defaultThumb) =
          ifEmptyThen (field libs value "thumb") defaultThumb := normal_ifEmptyThen (field_normal value "thumb") normal_defaultThumb
      have hthumbNe : ifEmptyThen (field libs value "thumb") defaultThumb ≠ [] := ifEmptyThen_ne_nil defaultThumb_ne_nil _
      generalize ifEmptyThen (trim (field libs value "id")) (slugify libs (field libs value "title") "title".toList) = id at hidNormal hidNe ⊢
      generalize ifEmptyThen (field libs value "thumb") defaultThumb = thumb at hthumb hthumbNe ⊢
      exact
        { id := hidNormal
          id_ne := hidNe
          title := field_normal value "title"
          title_ne := hne.1
          tmdbId := normalizeTmdbId_idem _
          year := normalizeYear_idem _
          src := field_normal value "src"
          src_ne := hne.2
          thumb := hthumb
          thumb_ne := hthumbNe
          description := field_normal value "description" }

/-- A normal movie is normalized to itself. -/
theorem MovieEntry.Normal.normalize {entry : MovieEntry} (h : entry.Normal) :
    normalizeLocalMovieEntry libs now entry.toValue = some entry := by
  have hobject : ∃ fields, entry.toValue.asObject = some fields := ⟨_, rfl⟩
  obtain ⟨fields, hobject⟩ := hobject
  have hid : field libs entry.toValue "id" = entry.id := h.id
  have htitle : field libs entry.toValue "title" = entry.title := h.title
  have hsrc : field libs entry.toValue "src" = entry.src := h.src
  have hthumb : field libs entry.toValue "thumb" = entry.thumb := h.thumb
  have hdescription : field libs entry.toValue "description" = entry.description := h.description
  have htmdbId : valueString libs (entry.toValue.get "tmdbId".toList) = entry.tmdbId := rfl
  have hyear : valueString libs (entry.toValue.get "year".toList) = entry.year := rfl
  have huploadedAt : valueI64 (entry.toValue.get "uploadedAt".toList) = some entry.uploadedAt := valueI64_toInt _
  have hne : ¬ (entry.title.isEmpty || entry.src.isEmpty) = true := by
    simp [h.title_ne, h.src_ne]
  rw [normalizeLocalMovieEntry]
  simp only [hobject, Option.bind_eq_bind, Option.bind_some, hid, htitle, hsrc, hthumb, hdescription, htmdbId, hyear,
    huploadedAt, Option.getD_some, if_neg hne, trim_of_normalizeWhitespace h.id, ifEmptyThen_of_normal h.id h.id_ne,
    ifEmptyThen_of_normal h.thumb h.thumb_ne, h.tmdbId, h.year]

theorem fallbackPrefix_word (kind : Text) : fallbackPrefix kind ≠ [] ∧ ∀ c ∈ fallbackPrefix kind, isWhitespace c = false := by
  have hlesson : "Lesson".toList ≠ [] ∧ "Lesson".toList.all (fun c => !isWhitespace c) = true := by decide
  have hepisode : "Episode".toList ≠ [] ∧ "Episode".toList.all (fun c => !isWhitespace c) = true := by decide
  rw [fallbackPrefix]
  split
  · exact ⟨hlesson.1, fun c hc => by simpa using List.all_eq_true.mp hlesson.2 c hc⟩
  · exact ⟨hepisode.1, fun c hc => by simpa using List.all_eq_true.mp hepisode.2 c hc⟩

theorem normal_numbered (kind : Text) (n : Int) :
    normalizeWhitespace (fallbackPrefix kind ++ ' ' :: decimalText n) = fallbackPrefix kind ++ ' ' :: decimalText n := by
  obtain ⟨hne, hfree⟩ := fallbackPrefix_word kind
  have hjoined : Separated.join ' ' [fallbackPrefix kind, decimalText n] = fallbackPrefix kind ++ ' ' :: decimalText n := by
    rw [Separated.join_cons _ (List.cons_ne_nil _ _), Separated.join_singleton]
  have hwords := @Words.splitWhitespace_join [fallbackPrefix kind, decimalText n] fun word hword => by
    rcases List.mem_cons.mp hword with rfl | hword
    · exact ⟨hne, hfree⟩
    · rw [List.mem_singleton.mp hword]
      exact ⟨decimalText_ne_nil n, fun c hc => not_isWhitespace_of_mem_decimalText hc⟩
  rw [hjoined] at hwords
  have hnormal : Words.normalizeWhitespace (fallbackPrefix kind ++ ' ' :: decimalText n) = fallbackPrefix kind ++ ' ' :: decimalText n := by
    rw [Words.normalizeWhitespace, hwords, hjoined]
  have htrim := Words.trim_normalizeWhitespace (fallbackPrefix kind ++ ' ' :: decimalText n)
  rw [normalizeWhitespace, htrim, hnormal]

/-- The kinds that an entry can have. -/
def Kind (kind : Text) : Prop := kind = courseKind ∨ kind = seriesKind

theorem isCourse_of_kind {entry : Value} {kind : Text} (h : entry.get "contentKind".toList = some (.string kind)) (hkind : Kind kind) :
    isCourse libs entry = true ↔ kind = courseKind := by
  have hne : seriesKind ≠ courseKind := by decide
  have hslug : Slug kind := by
    rcases hkind with rfl | rfl
    · exact slug_courseKind
    · exact slug_seriesKind
  have hfield : field libs entry "contentKind" = kind := by
    rw [field, h]
    exact hslug.normalizeWhitespace_eq
  rw [isCourse, hfield, hslug.toLowercase_eq, beq_iff_eq]

/-- An episode before it is normalized, with texts, a season and a kind that are kept. -/
structure SeriesEpisodeEntry.Draft (entry : SeriesEpisodeEntry) : Prop where
  title : normalizeWhitespace entry.title = entry.title
  title_ne : entry.title ≠ []
  description : normalizeWhitespace entry.description = entry.description
  thumb : normalizeWhitespace entry.thumb = entry.thumb
  thumb_ne : entry.thumb ≠ []
  src : normalizeWhitespace entry.src ≠ []
  contentKind : Kind entry.contentKind
  seasonNumber : 0 < entry.seasonNumber ∧ entry.seasonNumber ≤ 999
  episodeNumber : 0 < entry.episodeNumber

/-- What is stored of it in a series of some kind. -/
def SeriesEpisodeEntry.stored (kind : Text) (entry : SeriesEpisodeEntry) : SeriesEpisodeEntry :=
  { entry with
    src := normalizeWhitespace entry.src
    contentKind := if entry.contentKind = courseKind then courseKind else kind
    episodeNumber := normalizeUploadEpisodeOrdinal entry.episodeNumber 1 }

theorem SeriesEpisodeEntry.Draft.normalize {entry : SeriesEpisodeEntry} (h : entry.Draft) (kind : Text) (index : Nat) :
    normalizeLocalSeriesEpisodeEntry libs now entry.toValue index kind = some (entry.stored kind) := by
  obtain ⟨fields, hobject⟩ : ∃ fields, entry.toValue.asObject = some fields := ⟨_, rfl⟩
  have htitle : field libs entry.toValue "title" = entry.title := h.title
  have hsrc : field libs entry.toValue "src" = normalizeWhitespace entry.src := rfl
  have hthumb : field libs entry.toValue "thumb" = entry.thumb := h.thumb
  have hdescription : field libs entry.toValue "description" = entry.description := h.description
  have hseasonNumber : valueI64 (entry.toValue.get "seasonNumber".toList) = some entry.seasonNumber := valueI64_toInt _
  have hepisodeNumber : valueI64 (entry.toValue.get "episodeNumber".toList) = some entry.episodeNumber := valueI64_toInt _
  have huploadedAt : valueI64 (entry.toValue.get "uploadedAt".toList) = some entry.uploadedAt := valueI64_toInt _
  have hne : ¬ (normalizeWhitespace entry.src).isEmpty = true := by
    rw [List.isEmpty_iff]
    exact h.src
  have hcourse : isCourse libs entry.toValue = true ↔ entry.contentKind = courseKind := isCourse_of_kind rfl h.contentKind
  have hordinal : normalizeUploadEpisodeOrdinal entry.episodeNumber (Int64.ofNat (index + 1)) =
      normalizeUploadEpisodeOrdinal entry.episodeNumber 1 := ordinal_fallback h.episodeNumber _ _
  rw [normalizeLocalSeriesEpisodeEntry]
  simp only [hobject, Option.bind_eq_bind, Option.bind_some, htitle, hsrc, hthumb, hdescription, hseasonNumber, hepisodeNumber,
    huploadedAt, Option.getD_some, if_neg hne, hcourse, hordinal, ifEmptyThen_of_normal h.title h.title_ne,
    ifEmptyThen_of_normal h.thumb h.thumb_ne, ordinal_of_inReach h.seasonNumber.1 h.seasonNumber.2, SeriesEpisodeEntry.stored]

theorem SeriesEpisodeEntry.Normal.draft {entry : SeriesEpisodeEntry} {kind : Text} (h : entry.Normal kind) (hkind : Kind kind) :
    entry.Draft where
  title := h.title
  title_ne := h.title_ne
  description := h.description
  thumb := h.thumb
  thumb_ne := h.thumb_ne
  src := by
    rw [h.src]
    exact h.src_ne
  contentKind := h.contentKind.elim .inl fun hsame => hsame ▸ hkind
  seasonNumber := h.seasonNumber
  episodeNumber := h.episodeNumber

/-- A normal episode is stored with the number that is in reach. -/
theorem SeriesEpisodeEntry.Normal.stored_eq {entry : SeriesEpisodeEntry} {kind : Text} (h : entry.Normal kind) :
    entry.stored kind = { entry with episodeNumber := normalizeUploadEpisodeOrdinal entry.episodeNumber 1 } := by
  have hcontentKind : (if entry.contentKind = courseKind then courseKind else kind) = entry.contentKind := by
    split
    · next hcourse => exact hcourse.symm
    · next hcourse => exact (h.contentKind.resolve_left hcourse).symm
  rw [SeriesEpisodeEntry.stored, h.src, hcontentKind]

theorem SeriesEpisodeEntry.Normal.stored_of_inReach {entry : SeriesEpisodeEntry} {kind : Text} (h : entry.Normal kind)
    (hreach : entry.episodeNumber ≤ 999) : entry.stored kind = entry := by
  rw [h.stored_eq, ordinal_of_inReach h.episodeNumber hreach]

theorem SeriesEpisodeEntry.Draft.stored_normal {entry : SeriesEpisodeEntry} (h : entry.Draft) (kind : Text) :
    (entry.stored kind).Normal kind where
  title := h.title
  title_ne := h.title_ne
  description := h.description
  thumb := h.thumb
  thumb_ne := h.thumb_ne
  src := normalizeWhitespace_idem _
  src_ne := h.src
  contentKind := by
    rw [SeriesEpisodeEntry.stored]
    split
    · exact .inl rfl
    · exact .inr rfl
  seasonNumber := h.seasonNumber
  episodeNumber := (ordinal_of_pos h.episodeNumber).1

theorem normalizeEpisode_normal {value : Value} {index : Nat} {kind : Text} {entry : SeriesEpisodeEntry} (hindex : index + 1 < 2 ^ 63)
    (h : normalizeLocalSeriesEpisodeEntry libs now value index kind = some entry) : entry.Normal kind := by
  rw [normalizeLocalSeriesEpisodeEntry] at h
  cases hobject : value.asObject with
  | none =>
    rw [hobject] at h
    cases h
  | some fields =>
    simp only [hobject, Option.bind_eq_bind, Option.bind_some] at h
    split at h
    · cases h
    · next hne =>
      rw [List.isEmpty_iff] at hne
      rw [← Option.some.inj h]
      have hfallback : 0 < Int64.ofNat (index + 1) := by
        rw [Int64.lt_iff_toInt_lt, Int64.toInt_ofNat_of_lt hindex]
        have hzero : (0 : Int64).toInt = 0 := rfl
        omega
      have hnumber (n : Int64) : 0 < normalizeUploadEpisodeOrdinal n (Int64.ofNat (index + 1)) := by
        by_cases hpos : 0 < n
        · exact (ordinal_of_pos hpos).1
        · rw [ordinal_of_nonpos hpos]
          exact hfallback
      have hpositive := hnumber ((valueI64 (value.get "episodeNumber".toList)).getD (Int64.ofNat (index + 1)))
      have hseason (n : Int64) : 0 < normalizeUploadEpisodeOrdinal n 1 ∧ normalizeUploadEpisodeOrdinal n 1 ≤ 999 := by
        by_cases hpos : 0 < n
        · exact ordinal_of_pos hpos
        · rw [ordinal_of_nonpos hpos]
          decide
      have htitle (kind : Text) (n : Int) :
          normalizeWhitespace (ifEmptyThen (field libs value "title") (fallbackPrefix kind ++ ' ' :: decimalText n)) =
            ifEmptyThen (field libs value "title") (fallbackPrefix kind ++ ' ' :: decimalText n) :=
        normal_ifEmptyThen (field_normal value "title") (normal_numbered kind n)
      have hthumb : normalizeWhitespace (ifEmptyThen (field libs value "thumb") defaultThumb) =
          ifEmptyThen (field libs value "thumb") defaultThumb := normal_ifEmptyThen (field_normal value "thumb") normal_defaultThumb
      have htitleNe (kind : Text) (n : Int) : ifEmptyThen (field libs value "title") (fallbackPrefix kind ++ ' ' :: decimalText n) ≠ [] :=
        ifEmptyThen_ne_nil (List.append_ne_nil_of_left_ne_nil (fallbackPrefix_word kind).1 _) _
      have hthumbNe : ifEmptyThen (field libs value "thumb") defaultThumb ≠ [] := ifEmptyThen_ne_nil defaultThumb_ne_nil _
      generalize ifEmptyThen (field libs value "thumb") defaultThumb = thumb at hthumb hthumbNe ⊢
      generalize normalizeUploadEpisodeOrdinal ((valueI64 (value.get "episodeNumber".toList)).getD (Int64.ofNat (index + 1)))
        (Int64.ofNat (index + 1)) = number at hpositive ⊢
      generalize hkind : (if isCourse libs value = true then courseKind else kind) = contentKind
      have htitle := htitle contentKind number.toInt
      have htitleNe := htitleNe contentKind number.toInt
      generalize ifEmptyThen (field libs value "title") (fallbackPrefix contentKind ++ ' ' :: decimalText number.toInt) = title
        at htitle htitleNe ⊢
      exact
        { title := htitle
          title_ne := htitleNe
          description := field_normal value "description"
          thumb := hthumb
          thumb_ne := hthumbNe
          src := field_normal value "src"
          src_ne := hne
          contentKind := by
            rw [← hkind]
            split
            · exact .inl rfl
            · exact .inr rfl
          seasonNumber := hseason _
          episodeNumber := hpositive }

/-- Entries that are kept keep their place. -/
theorem filterMap_zipIdx {entries : List SeriesEpisodeEntry} {kind : Text} (start : Nat) (h : ∀ entry ∈ entries, entry.Draft) :
    (((entries.map SeriesEpisodeEntry.toValue).zipIdx start).filterMap fun (item, index) =>
      normalizeLocalSeriesEpisodeEntry libs now item index kind) = entries.map (SeriesEpisodeEntry.stored kind) := by
  induction entries generalizing start with
  | nil => rfl
  | cons entry entries ih =>
    have hfirst := @SeriesEpisodeEntry.Draft.normalize libs now _ (h entry List.mem_cons_self) kind start
    have hrest := ih (start + 1) fun e he => h e (List.mem_cons_of_mem entry he)
    rw [List.map_cons, List.zipIdx_cons]
    refine (List.filterMap_cons_some ?_).trans (congrArg (entry.stored kind :: ·) hrest)
    exact hfirst

theorem keptEpisodes_normal {values : List Value} {kind : Text} (hlength : values.length < 2 ^ 63) :
    ∀ entry ∈ keptEpisodes libs now values kind, entry.Normal kind := by
  intro entry hentry
  obtain ⟨⟨value, index⟩, hmem, hnormalized⟩ := List.mem_filterMap.mp hentry
  have hindex : index < values.length := by
    have hplace := List.mem_zipIdx_iff_getElem?.mp hmem
    exact (List.getElem?_eq_some_iff.mp hplace).1
  exact normalizeEpisode_normal (by omega) hnormalized

theorem seriesContentKind_cases (entry : Value) (id title : Text) : seriesContentKind libs entry id title = courseKind ∨
    (seriesContentKind libs entry id title = seriesKind ∧ contains (libs.toLowercase (id ++ ' ' :: title)) courseKind = false) := by
  rw [seriesContentKind]
  split
  · exact .inl rfl
  · split
    · exact .inl rfl
    · next h => exact .inr ⟨rfl, Bool.eq_false_iff.mpr h⟩

theorem normalizeLocalSeriesEntry_normal {value : Value} {entry : SeriesEntry}
    (hlength : (items (value.get "episodes".toList)).length < 2 ^ 63) (h : normalizeLocalSeriesEntry libs now value = some entry) :
    entry.Normal libs := by
  rw [normalizeLocalSeriesEntry] at h
  cases hobject : value.asObject with
  | none =>
    rw [hobject] at h
    cases h
  | some fields =>
    simp only [hobject, Option.bind_eq_bind, Option.bind_some] at h
    split at h
    · cases h
    · next hne =>
      split at h
      · cases h
      · next hepisodes =>
        simp only [Bool.or_eq_true, List.isEmpty_iff, not_or] at hne hepisodes
        rw [← Option.some.inj h]
        exact
          { id := slug_slugify slug_seriesKind libs _
            title := field_normal value "title"
            title_ne := hne.2
            contentKind := seriesContentKind_cases _ _ _
            tmdbId := normalizeTmdbId_idem _
            year := normalizeYear_idem _
            preferredContainer := rfl
            requiresLocalEpisodeSources := rfl
            episodes_ne := fun hnil => hepisodes (by
              rw [← List.length_eq_zero_iff, List.length_mergeSort] at hnil
              exact List.length_eq_zero_iff.mp hnil)
            episodes := fun episode hmem => keptEpisodes_normal hlength episode (List.mem_mergeSort.mp hmem)
            sorted := List.pairwise_mergeSort ordinalLe_trans ordinalLe_total _ }

/-- A series before it is normalized, with texts and a kind that are kept. -/
structure SeriesEntry.Draft (entry : SeriesEntry) : Prop where
  title : normalizeWhitespace entry.title = entry.title
  title_ne : entry.title ≠ []
  contentKind : Kind entry.contentKind
  tmdbId : normalizeTmdbId entry.tmdbId = entry.tmdbId
  year : normalizeYear entry.year = entry.year
  preferredContainer : entry.preferredContainer = "mp4".toList
  requiresLocalEpisodeSources : entry.requiresLocalEpisodeSources = true

theorem SeriesEntry.Draft.with_episodes {entry : SeriesEntry} (h : entry.Draft) (episodes : List SeriesEpisodeEntry) :
    ({ entry with episodes } : SeriesEntry).Draft :=
  ⟨h.title, h.title_ne, h.contentKind, h.tmdbId, h.year, h.preferredContainer, h.requiresLocalEpisodeSources⟩

def SeriesEntry.storedId (libs : Libs) (entry : SeriesEntry) : Text :=
  slugify libs (normalizeWhitespace (ifEmptyThen entry.id entry.title)) seriesKind

def SeriesEntry.storedKind (libs : Libs) (entry : SeriesEntry) : Text :=
  if entry.contentKind = courseKind then courseKind
  else if contains (libs.toLowercase (entry.storedId libs ++ ' ' :: entry.title)) courseKind = true then courseKind
  else seriesKind

/-- What is made of a series, given those of its episodes that are kept. -/
def SeriesEntry.storedWith (libs : Libs) (entry : SeriesEntry) (kept : List SeriesEpisodeEntry) : Option SeriesEntry :=
  if kept = [] then none
  else some { entry with
    id := entry.storedId libs
    contentKind := entry.storedKind libs
    episodes := kept.mergeSort ordinalLe }

theorem SeriesEntry.Draft.normalize {entry : SeriesEntry} (h : entry.Draft) : normalizeLocalSeriesEntry libs now entry.toValue =
    entry.storedWith libs (keptEpisodes libs now (entry.episodes.map SeriesEpisodeEntry.toValue) (entry.storedKind libs)) := by
  obtain ⟨fields, hobject⟩ : ∃ fields, entry.toValue.asObject = some fields := ⟨_, rfl⟩
  have htitle : field libs entry.toValue "title" = entry.title := h.title
  have hget : valueString libs (entry.toValue.get "id".toList) = entry.id := rfl
  have hid : seriesId libs entry.toValue = entry.storedId libs := by
    rw [seriesId, hget, htitle, SeriesEntry.storedId]
  have htmdbId : valueString libs (entry.toValue.get "tmdbId".toList) = entry.tmdbId := rfl
  have hyear : valueString libs (entry.toValue.get "year".toList) = entry.year := rfl
  have hitems : items (entry.toValue.get "episodes".toList) = entry.episodes.map SeriesEpisodeEntry.toValue := rfl
  have hcourse : isCourse libs entry.toValue = true ↔ entry.contentKind = courseKind := isCourse_of_kind rfl h.contentKind
  have hcontentKind : seriesContentKind libs entry.toValue (entry.storedId libs) entry.title = entry.storedKind libs := by
    simp only [seriesContentKind, SeriesEntry.storedKind, hcourse]
  have hne : ¬ ((entry.storedId libs).isEmpty || entry.title.isEmpty) = true := by
    have hidNe : entry.storedId libs ≠ [] := (slug_slugify slug_seriesKind libs _).ne_nil
    simp [hidNe, h.title_ne]
  rw [normalizeLocalSeriesEntry]
  simp only [hobject, Option.bind_eq_bind, Option.bind_some, htitle, hid, htmdbId, hyear, hitems, hcontentKind, if_neg hne,
    List.isEmpty_iff, h.tmdbId, h.year, h.preferredContainer, h.requiresLocalEpisodeSources, SeriesEntry.storedWith]

/-- A series before it is normalized, of which every episode is kept. -/
structure SeriesEntry.Complete (entry : SeriesEntry) : Prop extends SeriesEntry.Draft entry where
  episodes_ne : entry.episodes ≠ []
  episodes : ∀ episode ∈ entry.episodes, episode.Draft

/-- What is stored of it. -/
def SeriesEntry.stored (libs : Libs) (entry : SeriesEntry) : SeriesEntry :=
  { entry with
    id := entry.storedId libs
    contentKind := entry.storedKind libs
    episodes := (entry.episodes.map (SeriesEpisodeEntry.stored (entry.storedKind libs))).mergeSort ordinalLe }

theorem SeriesEntry.Complete.normalize {entry : SeriesEntry} (h : entry.Complete) :
    normalizeLocalSeriesEntry libs now entry.toValue = some (entry.stored libs) := by
  have hkept : keptEpisodes libs now (entry.episodes.map SeriesEpisodeEntry.toValue) (entry.storedKind libs) =
      entry.episodes.map (SeriesEpisodeEntry.stored (entry.storedKind libs)) := filterMap_zipIdx 0 h.episodes
  have hne : ¬ entry.episodes.map (SeriesEpisodeEntry.stored (entry.storedKind libs)) = [] := by
    rw [List.map_eq_nil_iff]
    exact h.episodes_ne
  rw [h.toDraft.normalize, hkept, SeriesEntry.storedWith, if_neg hne, SeriesEntry.stored]

theorem SeriesEntry.storedKind_cases (entry : SeriesEntry) : entry.storedKind libs = courseKind ∨ (entry.storedKind libs = seriesKind ∧
    contains (libs.toLowercase (entry.storedId libs ++ ' ' :: entry.title)) courseKind = false) := by
  rw [SeriesEntry.storedKind]
  split
  · exact .inl rfl
  · split
    · exact .inl rfl
    · next h => exact .inr ⟨rfl, Bool.eq_false_iff.mpr h⟩

/-- What is stored is normal. -/
theorem SeriesEntry.Complete.stored_normal {entry : SeriesEntry} (h : entry.Complete) : (entry.stored libs).Normal libs where
  id := slug_slugify slug_seriesKind libs _
  title := h.title
  title_ne := h.title_ne
  contentKind := entry.storedKind_cases
  tmdbId := h.tmdbId
  year := h.year
  preferredContainer := h.preferredContainer
  requiresLocalEpisodeSources := h.requiresLocalEpisodeSources
  episodes_ne := by
    rw [SeriesEntry.stored, ← List.length_pos_iff, List.length_mergeSort, List.length_map]
    exact List.length_pos_iff.mpr h.episodes_ne
  episodes := by
    intro episode hmem
    obtain ⟨source, hsource, rfl⟩ := List.mem_map.mp (List.mem_mergeSort.mp hmem)
    exact (h.episodes source hsource).stored_normal (entry.storedKind libs)
  sorted := List.pairwise_mergeSort ordinalLe_trans ordinalLe_total _

theorem SeriesEntry.Complete.stored_inReach {entry : SeriesEntry} (h : entry.Complete) :
    ∀ episode ∈ (entry.stored libs).episodes, episode.episodeNumber ≤ 999 := by
  intro episode hmem
  obtain ⟨source, hsource, rfl⟩ := List.mem_map.mp (List.mem_mergeSort.mp hmem)
  exact (ordinal_of_pos (h.episodes source hsource).episodeNumber).2

theorem SeriesEntry.Normal.kind {entry : SeriesEntry} (h : entry.Normal libs) : Kind entry.contentKind :=
  h.contentKind.imp_right fun hseries => hseries.1

theorem SeriesEntry.Normal.complete {entry : SeriesEntry} (h : entry.Normal libs) : entry.Complete where
  title := h.title
  title_ne := h.title_ne
  contentKind := h.kind
  tmdbId := h.tmdbId
  year := h.year
  preferredContainer := h.preferredContainer
  requiresLocalEpisodeSources := h.requiresLocalEpisodeSources
  episodes_ne := h.episodes_ne
  episodes episode hmem := (h.episodes episode hmem).draft h.kind

theorem storedId_of_slug {entry : SeriesEntry} (h : Slug entry.id) : entry.storedId libs = entry.id := by
  rw [SeriesEntry.storedId, ifEmptyThen_of_normal h.normalizeWhitespace_eq h.ne_nil, h.normalizeWhitespace_eq, h.slugify_eq]

theorem SeriesEntry.Normal.storedKind_eq {entry : SeriesEntry} (h : entry.Normal libs) : entry.storedKind libs = entry.contentKind := by
  rw [SeriesEntry.storedKind, storedId_of_slug h.id]
  rcases h.contentKind with hcourse | ⟨hseries, hfree⟩
  · rw [if_pos hcourse, hcourse]
  · have hne : seriesKind ≠ courseKind := by decide
    rw [hseries, if_neg hne, hfree, if_neg Bool.false_ne_true]

/-- A normal series whose episodes have numbers in reach is stored as it is. -/
theorem SeriesEntry.Normal.stored_of_inReach {entry : SeriesEntry} (h : entry.Normal libs)
    (hreach : ∀ episode ∈ entry.episodes, episode.episodeNumber ≤ 999) : entry.stored libs = entry := by
  have hsame : entry.episodes.map (SeriesEpisodeEntry.stored entry.contentKind) = entry.episodes :=
    (List.map_congr_left fun episode hmem => (h.episodes episode hmem).stored_of_inReach (hreach episode hmem)).trans (List.map_id _)
  rw [SeriesEntry.stored, storedId_of_slug h.id, h.storedKind_eq, hsame, List.mergeSort_of_pairwise h.sorted]

end

end StreamArena.Catalogue
