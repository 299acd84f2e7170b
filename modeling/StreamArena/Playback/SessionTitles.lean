import StreamArena.Playback.SessionReuse

/-! Which titles the sessions are of that a reuse takes up: a session is looked up by its
tmdb id, which films and series share, and only its name says what it is. -/
namespace StreamArena.Playback
open AsciiText KeyedTable JsonValue Runs Decimal

/-- A request that returned, changed or replaced a row, and the title the row was persisted for. -/
structure Use where
  request : Title
  found : Option Title
  deriving DecidableEq

/-- The sessions, with the title that each row was last persisted for. -/
structure ReuseStore where
  table : SessionTable
  titles : Int × Text → Option Title
  uses : List Use

/-- How a session fares that is taken up: the clock, the outcome of its validation if it comes
in time, and the prepared response, if one can be built. -/
structure Answer where
  now : Int
  verified : Option Bool
  prepared : Option PreparedSource

inductive Revalidation where
  | fresh | staleWhileRevalidate | invalid
  deriving DecidableEq

inductive Outcome where
  | skipped | returned | failed
  deriving DecidableEq

/-- A fresh resolve that persists its source, the two ways of reuse, and the other writes. -/
inductive ReuseEvent where
  | resolve (request : ResolveRequest) (resolved : ResolvedSource) (prepared : PreparedSource) (now : Int)
  | reuse (request : ResolveRequest) (answer : Answer)
  | reuseLatest (request : ResolveRequest) (answers : Text → Answer)
  | write (write : SessionWrite) (now : Int)

def SessionWrite.isPersist : SessionWrite → Bool
  | .persist _ _ => true
  | _ => false

namespace ReuseStore

def empty : ReuseStore := ⟨.empty, fun _ => none, []⟩

section step
variable (p : Platform)

def touch (s : ReuseStore) (request : ResolveRequest) (key : Int × Text) : ReuseStore :=
  { s with uses := ⟨request.title, s.titles key⟩ :: s.uses }

def touchRow (s : ReuseStore) (request : ResolveRequest) (key : Int × Text) : ReuseStore :=
  if (s.table.get key).isSome then s.touch request key else s

def persist (s : ReuseStore) (request : ResolveRequest) (resolved : ResolvedSource) (prepared : PreparedSource)
    (now : Int) : ReuseStore :=
  let toLowercase := p.libs.toLowercase
  let input := persistInput p request resolved prepared
  if p.playbackSessionsEnabled && input.isComplete then
    let existing := getPlaybackSessionInner toLowercase s.table input.userId (trim input.sessionKey)
    let autoSession := (input.autoSessionKey toLowercase).bind (getPlaybackSessionInner toLowercase s.table input.userId)
    let s := ((input.replacedKey toLowercase).elim s (s.touchRow request)).touchRow request input.key
    { s with
      table := commitPlaybackSession toLowercase s.table now input (persistedPosition existing autoSession)
      titles := Function.update s.titles input.key (some request.title) }
  else s

/-- Claims the validation of a session that is due. -/
def revalidate (s : ReuseStore) (request : ResolveRequest) (session : PlaybackSession) (now : Int)
    (verified : Option Bool) : ReuseStore × Revalidation :=
  if needsRevalidation p session now then
    match tryClaimPlaybackSessionValidation p.libs.toLowercase s.table now session with
    | (table, .claimed token) =>
      let s := { s.touch request session.key with table := table }
      let held := (s.table.get session.key).any (holdsClaim p.render session token.1 session.key)
      match verified with
      | none => (s, .staleWhileRevalidate)
      | some true =>
        ({ s with table := refreshPlaybackSessionValidationIfCurrent p.render s.table now session token.1 },
          if held then .fresh else .invalid)
      | some false =>
        ({ s with
            table := invalidatePlaybackSessionValidationIfCurrent p.render s.table now session token.1
              validationFailedReason }, .invalid)
    | (_, .fresh) | (_, .leased) => (s, .staleWhileRevalidate)
    | (_, .unavailable) => (s, .invalid)
  else (s, .fresh)

/-- A session that fits is validated and its payload rebuilt; a fresh one is persisted again. -/
def takeUp (s : ReuseStore) (request : ResolveRequest) (session : PlaybackSession) (answer : Answer) :
    ReuseStore × Outcome :=
  match s.revalidate p request session answer.now answer.verified with
  | (s, .invalid) => (s, .skipped)
  | (s, revalidation) =>
    match answer.prepared with
    | none => (s, .failed)
    | some prepared =>
      let s := s.touch request session.key
      (if revalidation = .fresh then s.persist p request (sessionSource session) prepared answer.now else s, .returned)

def invalidateMismatch (s : ReuseStore) (request : ResolveRequest) (session : PlaybackSession) (now : Int) :
    ReuseStore :=
  match getPlaybackSessionInner p.libs.toLowercase s.table session.userId session.sessionKey with
  | none => s
  | some existing =>
    { s.touch request session.key with
      table := updatePlaybackSessionProgress p.libs.toLowercase s.table now existing session.lastPositionSeconds
        "invalid".toList mismatchReason }

/-- A session that passes the filters: films invalidate those of another name. -/
def consider (s : ReuseStore) (request : ResolveRequest) (session : PlaybackSession) (answer : Answer) :
    ReuseStore × Outcome :=
  if isValidMatch p request session then s.takeUp p request session answer
  else if request.metadata.mediaType = .tv then (s, .skipped)
  else (s.invalidateMismatch p request session answer.now, .skipped)

def tryReusePlaybackSession (s : ReuseStore) (request : ResolveRequest) (answer : Answer) : ReuseStore :=
  if !p.playbackSessionsEnabled || shouldSkipPlaybackSessionReuse request.filters then s
  else
    match findSession p s.table request with
    | none => s
    | some session =>
      if session.healthState ≠ .invalid ∧ passesFilters p request session then
        (s.consider p request session answer).1
      else s

def considerEach (request : ResolveRequest) (answers : Text → Answer) (s : ReuseStore) :
    List PlaybackSession → ReuseStore
  | [] => s
  | session :: sessions =>
    if playbackSessionKeyAllowedForUser session.sessionKey request.resolverProvider request.userId &&
        passesFilters p request session then
      match s.consider p request session (answers session.sessionKey) with
      | (s, .skipped) => considerEach request answers s sessions
      | (s, _) => s
    else considerEach request answers s sessions

def tryReuseLatestHealthyPlaybackSession (s : ReuseStore) (request : ResolveRequest) (answers : Text → Answer) :
    ReuseStore :=
  if p.playbackSessionsEnabled then
    considerEach p request answers s (latestHealthyPlaybackSessions p s.table request.userId request.metadata.tmdbId)
  else s

def step (s : ReuseStore) : ReuseEvent → ReuseStore
  | .resolve request resolved prepared now => s.persist p request resolved prepared now
  | .reuse request answer => s.tryReusePlaybackSession p request answer
  | .reuseLatest request answers => s.tryReuseLatestHealthyPlaybackSession p request answers
  | .write write now =>
    if write.isPersist then s else { s with table := write.apply p.libs.toLowercase p.render s.table now }

end step

/-- All that requests return, change or replace was persisted for their own title. -/
def WithinTitle (s : ReuseStore) : Prop :=
  ∀ use ∈ s.uses, use.found = some use.request

/-- A session of another title passes the filters of an episode only under a name that is refused,
and those of a film not at all. -/
def ToldApart (p : Platform) (s : ReuseStore) (request : ResolveRequest) (session : PlaybackSession) : Prop :=
  passesFilters p request session = true → s.titles session.key = some request.title ∨
    request.metadata.mediaType = .tv ∧ isValidMatch p request session = false

/-- The session that a request finds under its keys, if it may still play, and each that it may
use of the latest of its tmdb id can be told apart. -/
def Unmistakable (p : Platform) (s : ReuseStore) : ReuseEvent → Prop
  | .reuse request _ => ∀ session, findSession p s.table request = some session → session.healthState ≠ .invalid →
      ToldApart p s request session
  | .reuseLatest request _ =>
      ∀ session ∈ latestHealthyPlaybackSessions p s.table request.userId request.metadata.tmdbId,
        playbackSessionKeyAllowedForUser session.sessionKey request.resolverProvider request.userId = true →
        ToldApart p s request session
  | _ => True

end ReuseStore

/-! Keys are made of parts without colons and white space, and tell titles apart. -/

def Plain (part : Text) : Prop := ∀ c ∈ part, c ≠ ':' ∧ isWhitespace c = false

theorem plain_of_all {part : Text} (h : (part.all fun c => c != ':' && !isWhitespace c) = true) : Plain part := by
  intro c hc
  have hboth := List.all_eq_true.mp h c hc
  simpa using hboth

theorem plain_digits {part : Text} (h : ∀ c ∈ part, c.isDigit = true) : Plain part := by
  intro c hc
  have hrange : 48 ≤ c.toNat ∧ c.toNat ≤ 57 := by
    simpa [Char.isDigit, UInt32.le_iff_toNat_le] using h c hc
  constructor
  · rintro rfl
    exact absurd hrange.2 (by decide)
  · simp only [isWhitespace, Bool.or_eq_false_iff, Bool.and_eq_false_iff, decide_eq_false_iff_not, beq_eq_false_iff_ne]
    omega

theorem plain_decimalText (n : Nat) : Plain (decimalText n) := by
  rw [decimalText_natCast]
  exact plain_digits (List.all_eq_true.mp (toDigits_all_isDigit n))

theorem plain_decimalText_max (n : Int) {least : Int} (h : 0 ≤ least) : Plain (decimalText (max n least)) := by
  obtain ⟨m, hm⟩ := Int.eq_ofNat_of_zero_le (h.trans (le_max_right n least))
  rw [hm]
  exact plain_decimalText m

theorem Plain.cons {c : Char} {part : Text} (hc : c ≠ ':' ∧ isWhitespace c = false) (h : Plain part) :
    Plain (c :: part) :=
  List.forall_mem_cons.mpr ⟨hc, h⟩

variable {p : Platform} {request request' : ResolveRequest}

theorem plain_normalizePreferredAudioLang (toLowercase : Lowercase) (value : Text) :
    Plain (normalizePreferredAudioLang toLowercase value) := by
  have hall : ∀ lang ∈ ["en".toList, "fr".toList, "es".toList, "de".toList, "it".toList, "pt".toList], Plain lang := by
    intro lang hlang
    apply plain_of_all
    revert lang
    decide
  rw [normalizePreferredAudioLang]
  split
  next h => exact hall _ (List.contains_iff_mem.mp h)
  next => exact plain_of_all (by decide)

theorem plain_normalizePreferredStreamQuality (toLowercase : Lowercase) (value : Text) :
    Plain (normalizePreferredStreamQuality toLowercase value) := by
  rw [normalizePreferredStreamQuality]
  repeat' split
  all_goals exact plain_of_all (by decide)

def scopeParts (request : ResolveRequest) : List Text :=
  if request.resolverProvider = .realDebrid then
    ["real-debrid".toList, "user".toList, decimalText (max request.userId 0)]
  else [request.resolverProvider.asStr]

def titleParts (title : Title) : List Text :=
  if title.mediaType = .tv then
    ["tv".toList, title.tmdbId, 's' :: decimalText (max title.seasonNumber 1),
      'e' :: decimalText (max title.episodeNumber 1)]
  else [title.tmdbId]

/-- The parts of the key that a request persists under. -/
def ownParts (p : Platform) (request : ResolveRequest) : List Text :=
  scopeParts request ++ (titleParts request.title ++
    [normalizePreferredAudioLang p.libs.toLowercase request.preferences.audioLang,
      normalizePreferredStreamQuality p.libs.toLowercase request.preferences.quality])

theorem plain_tmdbId (metadata : ResolveMetadata) : Plain metadata.tmdbId := plain_digits metadata.numeric.2

theorem trim_tmdbId (metadata : ResolveMetadata) : trim metadata.tmdbId = metadata.tmdbId :=
  trim_eq_self fun c hc => (plain_tmdbId metadata c hc).2

theorem scopeParts_ne_nil : scopeParts request ≠ [] := by
  rw [scopeParts]
  split <;> exact List.cons_ne_nil _ _

theorem ownParts_ne_nil : ownParts p request ≠ [] :=
  List.append_ne_nil_of_left_ne_nil scopeParts_ne_nil _

theorem titleParts_tv (h : request.metadata.mediaType = .tv) :
    titleParts request.title = ["tv".toList, request.metadata.tmdbId,
      's' :: decimalText (max request.metadata.seasonNumber 1),
      'e' :: decimalText (max request.metadata.episodeNumber 1)] := if_pos h

theorem titleParts_movie (h : request.metadata.mediaType ≠ .tv) :
    titleParts request.title = [request.metadata.tmdbId] := if_neg h

theorem ownKey_eq : request.ownKey p = Separated.join ':' (ownParts p request) := by
  have hbase : (if request.metadata.mediaType = .tv then
        buildTvPlaybackSessionKey p request.metadata.tmdbId request.metadata.seasonNumber
          request.metadata.episodeNumber request.preferences.audioLang request.preferences.quality
      else buildPlaybackSessionKey p.libs.toLowercase request.metadata.tmdbId request.preferences.audioLang
        request.preferences.quality) =
      Separated.join ':' (titleParts request.title ++
        [normalizePreferredAudioLang p.libs.toLowercase request.preferences.audioLang,
          normalizePreferredStreamQuality p.libs.toLowercase request.preferences.quality]) := by
    split
    next h =>
      rw [titleParts_tv h, buildTvPlaybackSessionKey, trim_tmdbId]
      rfl
    next h =>
      rw [titleParts_movie h, buildPlaybackSessionKey, trim_tmdbId]
      rfl
  rw [ownParts, Separated.join_append scopeParts_ne_nil (by simp), ResolveRequest.ownKey,
    buildUserScopedPlaybackSessionKeyForMetadata, buildPlaybackSessionKeyForMetadata, hbase, scopeParts]
  by_cases hprovider : request.resolverProvider = .realDebrid
  · have hscope : realDebridPlaybackSessionPrefix request.userId =
        Separated.join ':' ["real-debrid".toList, "user".toList, decimalText (max request.userId 0)] ++ [':'] := by
      rw [Separated.join_cons _ (by simp), Separated.join_cons _ (by simp), Separated.join_singleton]
      rfl
    simp only [if_pos hprovider]
    rw [hscope, List.append_assoc, List.singleton_append]
  · simp only [if_neg hprovider]
    rw [Separated.join_singleton]
    exact (Separated.join_cons _ (by simp)).trans (by rw [Separated.join_singleton])

theorem plain_ownParts : ∀ part ∈ ownParts p request, Plain part := by
  have hprovider (provider : ResolverProvider) : Plain provider.asStr := by
    cases provider <;> exact plain_of_all (by decide)
  have hlang := plain_normalizePreferredAudioLang p.libs.toLowercase request.preferences.audioLang
  have hquality := plain_normalizePreferredStreamQuality p.libs.toLowercase request.preferences.quality
  have hid := plain_tmdbId request.metadata
  have hordinal (mark : Char) (hmark : mark ≠ ':' ∧ isWhitespace mark = false) (n : Nat) :
      Plain (mark :: decimalText (max n 1)) := (plain_decimalText_max n Int.one_nonneg).cons hmark
  intro part hpart
  obtain hscope | hpart := List.mem_append.mp hpart
  · rw [scopeParts] at hscope
    split at hscope
    next =>
      simp only [List.mem_cons, List.not_mem_nil, or_false] at hscope
      obtain rfl | rfl | rfl := hscope
      · exact plain_of_all (by decide)
      · exact plain_of_all (by decide)
      · exact plain_decimalText_max _ le_rfl
    next =>
      rw [List.mem_singleton.mp hscope]
      exact hprovider _
  obtain htitle | hlast := List.mem_append.mp hpart
  · rw [titleParts] at htitle
    split at htitle
    next =>
      simp only [List.mem_cons, List.not_mem_nil, or_false] at htitle
      obtain rfl | rfl | rfl | rfl := htitle
      · exact plain_of_all (by decide)
      · exact hid
      · exact hordinal 's' (by decide) _
      · exact hordinal 'e' (by decide) _
    next =>
      rw [List.mem_singleton.mp htitle]
      exact hid
  · simp only [List.mem_cons, List.not_mem_nil, or_false] at hlast
    obtain rfl | rfl := hlast
    · exact hlang
    · exact hquality

theorem ordinal_injective {n m : Nat} (hn : 1 ≤ n) (hm : 1 ≤ m)
    (h : decimalText (max n 1) = decimalText (max m 1)) : n = m := by
  have hmax : max (n : Int) 1 = max (m : Int) 1 := decimal_injective h
  omega

theorem titleParts_injective (h : titleParts request.title = titleParts request'.title) :
    request.title = request'.title := by
  have hext (htype : request.metadata.mediaType = request'.metadata.mediaType)
      (hid : request.metadata.tmdbId = request'.metadata.tmdbId)
      (hseason : request.metadata.seasonNumber = request'.metadata.seasonNumber)
      (hepisode : request.metadata.episodeNumber = request'.metadata.episodeNumber) :
      request.title = request'.title := by
    calc request.title
        = ⟨request.metadata.mediaType, request.metadata.tmdbId, request.metadata.seasonNumber,
          request.metadata.episodeNumber⟩ := rfl
      _ = request'.title := by
          rw [htype, hid, hseason, hepisode]
          rfl
  obtain ⟨htv, hseason, hepisode⟩ | ⟨hmovie, hseason, hepisode⟩ := request.metadata.ordinals
  · obtain ⟨htv', hseason', hepisode'⟩ | ⟨hmovie', -, -⟩ := request'.metadata.ordinals
    · rw [titleParts_tv htv, titleParts_tv htv'] at h
      simp only [List.cons.injEq, and_true, true_and] at h
      obtain ⟨hid, hs, he⟩ := h
      exact hext (htv.trans htv'.symm) hid (ordinal_injective hseason hseason' hs)
        (ordinal_injective hepisode hepisode' he)
    · rw [titleParts_tv htv, titleParts_movie (by simp [hmovie'])] at h
      cases congrArg List.length h
  · obtain ⟨htv', -, -⟩ | ⟨hmovie', hseason', hepisode'⟩ := request'.metadata.ordinals
    · rw [titleParts_movie (by simp [hmovie]), titleParts_tv htv'] at h
      cases congrArg List.length h
    · rw [titleParts_movie (by simp [hmovie]), titleParts_movie (by simp [hmovie'])] at h
      exact hext (hmovie.trans hmovie'.symm) (List.head_eq_of_cons_eq h) (hseason.trans hseason'.symm)
        (hepisode.trans hepisode'.symm)

/-- Requests that persist under one key are for one title. -/
theorem title_eq_of_ownKey (h : request.ownKey p = request'.ownKey p) : request.title = request'.title := by
  rw [ownKey_eq, ownKey_eq] at h
  have hparts := Separated.join_injective ownParts_ne_nil ownParts_ne_nil
    (fun part hpart hcolon => (plain_ownParts part hpart ':' hcolon).1 rfl)
    (fun part hpart hcolon => (plain_ownParts part hpart ':' hcolon).1 rfl) h
  have hlen := congrArg List.length hparts
  have hscope (request : ResolveRequest) : (scopeParts request).length = 3 ∨ (scopeParts request).length = 1 := by
    rw [scopeParts]
    split
    · exact .inl rfl
    · exact .inr rfl
  have htitle (title : Title) : (titleParts title).length = 4 ∨ (titleParts title).length = 1 := by
    rw [titleParts]
    split
    · exact .inl rfl
    · exact .inr rfl
  simp only [ownParts, List.length_append, List.length_cons, List.length_nil] at hlen
  have hsame : (scopeParts request).length = (scopeParts request').length := by
    have := hscope request
    have := hscope request'
    have := htitle request.title
    have := htitle request'.title
    omega
  exact titleParts_injective (List.append_inj_left' (List.append_inj_right hparts hsame) rfl)

theorem colon_notMem_ownParts : ∀ part ∈ ownParts p request, ':' ∉ part :=
  fun part hpart hcolon => (plain_ownParts part hpart ':' hcolon).1 rfl

theorem trim_ownKey : trim (request.ownKey p) = request.ownKey p := by
  refine trim_eq_self fun c hc => ?_
  rw [ownKey_eq] at hc
  obtain ⟨part, hpart, hmem⟩ | rfl := Separated.mem_join hc
  · exact (plain_ownParts part hpart c hmem).2
  · decide

theorem four_le_length_ownParts : 4 ≤ (ownParts p request).length := by
  have hscope : 0 < (scopeParts request).length := List.length_pos_iff.mpr scopeParts_ne_nil
  have htitle : 0 < (titleParts request.title).length := by
    rw [titleParts]
    split <;> exact Nat.succ_pos _
  simp only [ownParts, List.length_append, List.length_cons, List.length_nil]
  omega

/-- The key of the auto-language session has three parts, for no key of a request is a bare one
of a series. -/
theorem buildRelated_ownKey (toLowercase : Lowercase) (tmdbId audioLang quality : Text) :
    buildRelatedPlaybackSessionKeyWithAudio toLowercase (request.ownKey p) tmdbId audioLang quality =
      buildPlaybackSessionKey toLowercase tmdbId audioLang quality := by
  have hsplit : (request.ownKey p).splitOn ':' = ownParts p request := by
    rw [ownKey_eq]
    exact List.splitOn_intercalate ':' colon_notMem_ownParts ownParts_ne_nil
  have hhead : ∀ kind rest, ownParts p request = kind :: rest → kind ≠ "tv".toList := by
    intro kind rest heq
    rw [ownParts, scopeParts] at heq
    split at heq
    · rw [← (List.cons.inj heq).1]
      decide
    · rw [← (List.cons.inj heq).1]
      cases request.resolverProvider <;> decide
  rw [buildRelatedPlaybackSessionKeyWithAudio, hsplit]
  split
  next kind show_ season episode a b heq => rw [if_neg fun h => hhead kind _ heq h.1]
  next => rfl

/-- Persisting replaces no session but that of its own key. -/
theorem replacedKey_ne_ownKey {resolved : ResolvedSource} {prepared : PreparedSource} {key : Int × Text}
    (h : (persistInput p request resolved prepared).replacedKey p.libs.toLowercase = some key) :
    key ≠ (request'.userId, request'.ownKey p) := by
  rintro rfl
  obtain ⟨autoKey, hauto, hkey⟩ := Option.map_eq_some_iff.mp h
  have hown : autoKey = request'.ownKey p := (Prod.mk.inj hkey).2
  rw [PersistPlaybackSessionInput.autoSessionKey, Option.ite_none_left_eq_some] at hauto
  obtain ⟨-, hauto⟩ := hauto
  dsimp only at hauto
  rw [Option.ite_none_left_eq_some, Option.some.injEq] at hauto
  have hbare := hauto.2
  rw [persistInput] at hbare
  dsimp only at hbare
  rw [trim_ownKey, buildRelated_ownKey, buildPlaybackSessionKey, hown, ownKey_eq] at hbare
  have hplain : ∀ part ∈ [trim request.metadata.tmdbId, normalizePreferredAudioLang p.libs.toLowercase "auto".toList,
      normalizePreferredStreamQuality p.libs.toLowercase
        (normalizePreferredStreamQuality p.libs.toLowercase request.preferences.quality)], Plain part := by
    intro part hpart
    simp only [List.mem_cons, List.not_mem_nil, or_false] at hpart
    obtain rfl | rfl | rfl := hpart
    · rw [trim_tmdbId]
      exact plain_tmdbId _
    · exact plain_normalizePreferredAudioLang _ _
    · exact plain_normalizePreferredStreamQuality _ _
  have hparts := Separated.join_injective (List.cons_ne_nil _ _) ownParts_ne_nil
    (fun part hpart hcolon => (hplain part hpart ':' hcolon).1 rfl) colon_notMem_ownParts hbare
  have hlen := congrArg List.length hparts
  have hfour : 4 ≤ (ownParts p request').length := four_le_length_ownParts
  simp only [List.length_cons, List.length_nil] at hlen
  omega

/-! What the writes leave. -/

variable {s : ReuseStore}

/-- Every row was persisted under the key of a request, for its title. -/
structure ReuseStore.Sound (p : Platform) (s : ReuseStore) : Prop where
  keyed : ∀ key, (s.table.get key).isSome → ∃ request : ResolveRequest,
    key = (request.userId, request.ownKey p) ∧ s.titles key = some request.title
  within : s.WithinTitle

theorem isSome_get_updateWhere (t : SessionTable) (q : Int × Text → PlaybackSessionRow → Bool)
    (f : PlaybackSessionRow → PlaybackSessionRow) (key : Int × Text) :
    ((t.updateWhere q f).get key).isSome = (t.get key).isSome := by
  rw [get_updateWhere, Option.isSome_map]

theorem isSome_of_get_deleteWhere {t : SessionTable} {q : Int × Text → PlaybackSessionRow → Bool} {key : Int × Text}
    (h : ((t.deleteWhere q).get key).isSome) : (t.get key).isSome := by
  rw [get_deleteWhere] at h
  cases hrow : t.get key with
  | none =>
    rw [hrow] at h
    cases h
  | some row => rfl

/-- The other writes make no rows. -/
theorem isSome_of_apply {toLowercase : Lowercase} {render : Value → Text} {t : SessionTable} {now : Int}
    {write : SessionWrite} {key : Int × Text} (hwrite : write.isPersist = false)
    (h : ((write.apply toLowercase render t now).get key).isSome) : (t.get key).isSome := by
  cases write with
  | updateProgress existing position healthState lastError =>
    exact (isSome_get_updateWhere ..).symm.trans h
  | invalidateBySourceHash userId sourceHash reason => exact (isSome_get_updateWhere ..).symm.trans h
  | claim session =>
    rw [SessionWrite.apply, tryClaimPlaybackSessionValidation] at h
    split at h
    next => exact h
    next =>
      split at h
      next => exact h
      next =>
        split at h
        next => exact h
        next =>
          split at h
          next => exact h
          next => exact (isSome_get_updateWhere ..).symm.trans h
  | refresh session token => exact (isSome_get_updateWhere ..).symm.trans h
  | invalidate session token reason => exact (isSome_get_updateWhere ..).symm.trans h
  | persist input position => cases hwrite
  | trimTable overflow => exact isSome_of_get_deleteWhere h

namespace ReuseStore

theorem Sound.table (h : s.Sound p) {t : SessionTable} (ht : ∀ key, (t.get key).isSome → (s.table.get key).isSome) :
    Sound p { s with table := t } where
  keyed key hkey := h.keyed key (ht key hkey)
  within := h.within

theorem Sound.touch (h : s.Sound p) {key : Int × Text} (hkey : s.titles key = some request.title) :
    (s.touch request key).Sound p where
  keyed := h.keyed
  within use huse := by
    obtain rfl | hold := List.mem_cons.mp huse
    · exact hkey
    · exact h.within use hold

/-- A row that is touched because its key is the request's own is of its title. -/
theorem Sound.touchRow (h : s.Sound p) {key : Int × Text}
    (hkey : (s.table.get key).isSome → s.titles key = some request.title) : (s.touchRow request key).Sound p := by
  rw [ReuseStore.touchRow]
  split
  next hrow => exact h.touch (hkey hrow)
  next => exact h

theorem touchRow_table (key : Int × Text) : (s.touchRow request key).table = s.table := by
  rw [touchRow]
  split <;> rfl

theorem touchRow_titles (key : Int × Text) : (s.touchRow request key).titles = s.titles := by
  rw [touchRow]
  split <;> rfl

theorem Sound.persist {resolved : ResolvedSource} {prepared : PreparedSource} {now : Int} (h : s.Sound p) :
    (s.persist p request resolved prepared now).Sound p := by
  have hkey : (persistInput p request resolved prepared).key = (request.userId, request.ownKey p) :=
    congrArg (Prod.mk request.userId) trim_ownKey
  have hown : (s.table.get (persistInput p request resolved prepared).key).isSome →
      s.titles (persistInput p request resolved prepared).key = some request.title := by
    intro hrow
    obtain ⟨request', heq, htitle⟩ := h.keyed _ hrow
    rw [htitle, title_eq_of_ownKey (Prod.mk.inj (hkey.symm.trans heq)).2]
  have hreplaced : (((persistInput p request resolved prepared).replacedKey p.libs.toLowercase).elim s
      (s.touchRow request)) = s := by
    cases hreplaced : (persistInput p request resolved prepared).replacedKey p.libs.toLowercase with
    | none => rfl
    | some key =>
      have hnone : ¬ (s.table.get key).isSome := by
        intro hrow
        obtain ⟨request', heq, -⟩ := h.keyed key hrow
        exact replacedKey_ne_ownKey hreplaced heq
      exact if_neg hnone
  rw [ReuseStore.persist]
  dsimp only
  split
  next =>
    rw [hreplaced]
    have htouched : (s.touchRow request (persistInput p request resolved prepared).key).Sound p := h.touchRow hown
    refine ⟨fun key hrow => ?_, htouched.within⟩
    by_cases heq : key = (persistInput p request resolved prepared).key
    · subst heq
      exact ⟨request, hkey, Function.update_self ..⟩
    · have hold : (s.table.get key).isSome := by
        rw [touchRow_table] at hrow
        have hget := get_commitPlaybackSession p.libs.toLowercase s.table (persistInput p request resolved prepared)
          now (persistedPosition
            (getPlaybackSessionInner p.libs.toLowercase s.table (persistInput p request resolved prepared).userId
              (trim (persistInput p request resolved prepared).sessionKey))
            (((persistInput p request resolved prepared).autoSessionKey p.libs.toLowercase).bind
              (getPlaybackSessionInner p.libs.toLowercase s.table (persistInput p request resolved prepared).userId))) key
        rw [if_neg heq] at hget
        rw [hget] at hrow
        split at hrow
        next => cases hrow
        next => exact hrow
      obtain ⟨request', hkey', htitle⟩ := h.keyed key hold
      refine ⟨request', hkey', ?_⟩
      rw [touchRow_titles]
      exact (Function.update_of_ne heq ..).trans htitle
  next => exact h

variable {session : PlaybackSession} {answer : Answer}

theorem revalidate_titles (now : Int) (verified : Option Bool) :
    (s.revalidate p request session now verified).1.titles = s.titles := by
  rw [revalidate]
  dsimp only
  split
  next =>
    split
    next => split <;> rfl
    all_goals rfl
  next => rfl

theorem Sound.revalidate (h : s.Sound p) (now : Int) (verified : Option Bool)
    (hsession : s.titles session.key = some request.title) :
    (s.revalidate p request session now verified).1.Sound p := by
  have hclaim (key : Int × Text) :
      ((tryClaimPlaybackSessionValidation p.libs.toLowercase s.table now session).1.get key).isSome →
        (s.table.get key).isSome :=
    fun hrow =>
      have hwrite : ((SessionWrite.claim session).apply p.libs.toLowercase p.render s.table now).get key |>.isSome := hrow
      isSome_of_apply rfl hwrite
  rw [ReuseStore.revalidate]
  dsimp only
  split
  next =>
    split
    next table token hclaimed =>
      rw [hclaimed] at hclaim
      have htouched := (h.touch hsession).table hclaim
      split
      next => exact htouched
      next => exact htouched.table fun key => (isSome_get_updateWhere ..).symm.trans
      next => exact htouched.table fun key => (isSome_get_updateWhere ..).symm.trans
    all_goals exact h
  next => exact h

theorem Sound.takeUp (h : s.Sound p) (hsession : s.titles session.key = some request.title) :
    (s.takeUp p request session answer).1.Sound p := by
  have hvalid := h.revalidate answer.now answer.verified hsession
  have htitle : (s.revalidate p request session answer.now answer.verified).1.titles session.key =
      some request.title := by
    rw [revalidate_titles]
    exact hsession
  rw [ReuseStore.takeUp]
  split
  next heq =>
    rw [heq] at hvalid
    exact hvalid
  next s' revalidation _ heq =>
    rw [heq] at hvalid htitle
    split
    next => exact hvalid
    next prepared _ =>
      dsimp only
      split
      next => exact (hvalid.touch htitle).persist
      next => exact hvalid.touch htitle

/-- A session that is skipped leaves the titles as they were. -/
theorem takeUp_titles (hskipped : (s.takeUp p request session answer).2 = .skipped) :
    (s.takeUp p request session answer).1.titles = s.titles := by
  have htitles : (s.revalidate p request session answer.now answer.verified).1.titles = s.titles :=
    revalidate_titles answer.now answer.verified
  rw [ReuseStore.takeUp] at hskipped ⊢
  cases heq : s.revalidate p request session answer.now answer.verified with
  | mk s' revalidation =>
    rw [heq] at htitles hskipped
    cases revalidation with
    | invalid => exact htitles
    | fresh | staleWhileRevalidate =>
      cases hprepared : answer.prepared with
      | none =>
        rw [hprepared] at hskipped
        cases hskipped
      | some prepared =>
        rw [hprepared] at hskipped
        cases hskipped

theorem Sound.invalidateMismatch (h : s.Sound p) (now : Int)
    (hsession : s.titles session.key = some request.title) : (s.invalidateMismatch p request session now).Sound p := by
  rw [ReuseStore.invalidateMismatch]
  split
  next => exact h
  next existing _ => exact (h.touch hsession).table fun key => (isSome_get_updateWhere ..).symm.trans

theorem invalidateMismatch_titles (now : Int) : (s.invalidateMismatch p request session now).titles = s.titles := by
  rw [invalidateMismatch]
  split <;> rfl

theorem Sound.consider (h : s.Sound p) (hpasses : passesFilters p request session = true)
    (htold : ToldApart p s request session) : (s.consider p request session answer).1.Sound p := by
  rw [ReuseStore.consider]
  obtain hsame | ⟨htv, hrefused⟩ := htold hpasses
  · split
    next => exact h.takeUp hsame
    next =>
      split
      next => exact h
      next => exact h.invalidateMismatch answer.now hsame
  · rw [if_neg (Bool.eq_false_iff.mp hrefused), if_pos htv]
    exact h

theorem consider_titles (hskipped : (s.consider p request session answer).2 = .skipped) :
    (s.consider p request session answer).1.titles = s.titles := by
  rw [ReuseStore.consider] at hskipped ⊢
  split
  next hmatch =>
    rw [if_pos hmatch] at hskipped
    exact takeUp_titles hskipped
  next =>
    split
    next => rfl
    next => exact invalidateMismatch_titles answer.now

theorem Sound.considerEach {answers : Text → Answer} {sessions : List PlaybackSession} (h : s.Sound p)
    (htold : ∀ session ∈ sessions,
      playbackSessionKeyAllowedForUser session.sessionKey request.resolverProvider request.userId = true →
      ToldApart p s request session) : (considerEach p request answers s sessions).Sound p := by
  induction sessions generalizing s with
  | nil => exact h
  | cons session sessions ih =>
    have hrest : ∀ other ∈ sessions,
        playbackSessionKeyAllowedForUser other.sessionKey request.resolverProvider request.userId = true →
        ToldApart p s request other := fun other hmem => htold other (List.mem_cons_of_mem _ hmem)
    rw [ReuseStore.considerEach]
    split
    next hallowed =>
      obtain ⟨hallowed, hpasses⟩ := Bool.and_eq_true_iff.mp hallowed
      have hconsidered : (s.consider p request session (answers session.sessionKey)).1.Sound p :=
        h.consider hpasses (htold session List.mem_cons_self hallowed)
      split
      next s' heq =>
        have htitles := consider_titles (congrArg Prod.snd heq)
        rw [heq] at hconsidered htitles
        refine ih hconsidered fun other hmem hother => ?_
        rw [ToldApart, htitles]
        exact hrest other hmem hother
      next s' _ _ heq =>
        rw [heq] at hconsidered
        exact hconsidered
    next => exact ih h hrest

theorem Sound.tryReusePlaybackSession (h : s.Sound p)
    (htold : ∀ session, findSession p s.table request = some session → session.healthState ≠ .invalid →
      ToldApart p s request session) : (s.tryReusePlaybackSession p request answer).Sound p := by
  rw [ReuseStore.tryReusePlaybackSession]
  split
  next => exact h
  next =>
    split
    next => exact h
    next session hfound =>
      split
      next hfit => exact h.consider hfit.2 (htold session hfound hfit.1)
      next => exact h

theorem Sound.step {event : ReuseEvent} (hevent : Unmistakable p s event) (h : s.Sound p) :
    (s.step p event).Sound p := by
  cases event with
  | resolve request resolved prepared now => exact h.persist
  | reuse request answer => exact h.tryReusePlaybackSession hevent
  | reuseLatest request answers =>
    rw [ReuseStore.step, tryReuseLatestHealthyPlaybackSession]
    split
    next => exact h.considerEach hevent
    next => exact h
  | write write now =>
    rw [ReuseStore.step]
    split
    next => exact h
    next hwrite => exact h.table fun key => isSome_of_apply (Bool.eq_false_iff.mpr hwrite)

theorem sound_empty : empty.Sound p where
  keyed _ h := by cases h
  within _ h := by cases h

end ReuseStore

/-- In every run in which no session of another title passes for one of the title asked for,
what requests return, change and replace is of their own title. -/
theorem reuse_within_title (p : Platform) (events : List ReuseEvent)
    (hevents : Each (ReuseStore.step p) (ReuseStore.Unmistakable p) .empty events) :
    Throughout (ReuseStore.step p) ReuseStore.WithinTitle .empty events :=
  (throughout_of_each (fun _ _ hevent hsound => ReuseStore.Sound.step hevent hsound) ReuseStore.sound_empty hevents).imp
    fun _ hsound => hsound.within

def plainPlatform : Platform where
  libs := Streaming.TranscodeInput.plainLibraries
  isWord c := c.isAlphanum || c == '_'
  render _ := []
  playbackSessionsEnabled := true

/-- The first episode of a series. -/
def seriesMetadata : ResolveMetadata where
  mediaType := .tv
  tmdbId := ['5']
  seasonNumber := 1
  episodeNumber := 1
  imdbId := "tt5".toList
  displayTitle := "Heat".toList
  displayYear := "1995".toList
  runtimeSeconds := 2700
  episodeTitle := "Pilot".toList
  numeric := ⟨List.cons_ne_nil _ _, by simp⟩
  ordinals := by decide

/-- A film with the number of the series. -/
def filmMetadata : ResolveMetadata where
  mediaType := .movie
  tmdbId := ['5']
  seasonNumber := 0
  episodeNumber := 0
  imdbId := "tt6".toList
  displayTitle := "Heat".toList
  displayYear := "1995".toList
  runtimeSeconds := 10200
  episodeTitle := []
  numeric := ⟨List.cons_ne_nil _ _, by simp⟩
  ordinals := by decide

def plainRequest (metadata : ResolveMetadata) (sessionKey : Text) : ResolveRequest where
  userId := 7
  metadata
  preferences := ⟨"auto".toList, "auto".toList⟩
  filters := ⟨[], [], ⟨0, [], sourceLanguageFilterDefault, sourceAudioProfileDefault⟩⟩
  resolverProvider := .realDebrid
  sessionKey
  realDebrid := some "scope".toList

def heatSource : ResolvedSource :=
  ⟨"https://cdn.example/heat.mkv".toList, [], "Heat.1995.mkv".toList, [], ['1'], [], false⟩

def heatPrepared : PreparedSource := ⟨heatSource.playableUrl, [], heatSource.filename⟩

theorem key_of_getPlaybackSessionInner {toLowercase : Lowercase} {t : SessionTable} {userId : Int} {sessionKey : Text}
    {session : PlaybackSession} (h : getPlaybackSessionInner toLowercase t userId sessionKey = some session) :
    session.key = (userId, sessionKey) := by
  obtain ⟨row, -, rfl⟩ := Option.map_eq_some_iff.mp h
  rfl

/-- The session of a series is reused for the series. -/
theorem reuse_within_title_series :
    Throughout (ReuseStore.step plainPlatform) ReuseStore.WithinTitle .empty
      [.resolve (plainRequest seriesMetadata []) heatSource heatPrepared 1000,
        .reuse (plainRequest seriesMetadata []) ⟨2000, none, some heatPrepared⟩] := by
  refine reuse_within_title plainPlatform _ ⟨trivial, fun session hfound _ _ => .inl ?_, trivial⟩
  obtain ⟨key, hmem, hget⟩ := List.exists_of_findSome?_eq_some hfound
  have hkeys : lookupKeys plainPlatform (plainRequest seriesMetadata []) =
      [(plainRequest seriesMetadata []).ownKey plainPlatform] := by decide +kernel
  rw [hkeys, List.mem_singleton] at hmem
  rw [key_of_getPlaybackSessionInner hget, hmem]
  decide +kernel

/-- A film is answered with the session of a series that has its number, title and year. -/
theorem series_session_reused :
    ¬ Throughout (ReuseStore.step plainPlatform) ReuseStore.WithinTitle .empty
      [.resolve (plainRequest seriesMetadata []) heatSource heatPrepared 1000,
        .reuse (plainRequest filmMetadata "real-debrid:user:7:tv:5:s1:e1:auto:auto".toList)
          ⟨2000, none, some heatPrepared⟩] := by
  intro h
  have huse := h.last ⟨filmMetadata.toTitle, some seriesMetadata.toTitle⟩ (by decide +kernel)
  exact absurd huse (by decide)

end StreamArena.Playback
