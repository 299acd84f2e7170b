import StreamArena.Library.KeyedTable
import StreamArena.Library.Runs
import StreamArena.Library.Separated
import StreamArena.Library.Decimal
import StreamArena.LiveHls.Requests

/-! The in-memory cache of rewritten playlists: its key joins the parts of a request
with a bar that a URL may hold, so two requests can meet at one key. -/
namespace StreamArena.LiveHls
open AsciiText Urls KeyedTable Runs Separated Decimal
variable {urls : Urls.Library}

def liveHlsImmutablePlaylistCacheTtlMs : Int := 120000
def liveHlsRollingPlaylistCacheTtlMs : Int := 1500
def liveHlsPlaylistCacheMaxEntries : Nat := 64
def liveHlsPlaylistCacheMaxTotalBytes : Nat := 48 * 1024 * 1024

structure CachedLivePlaylist (urls : Urls.Library) where
  body : Text
  storedAtMs : Int
  ttlMs : Int
  clientCacheControl : Text
  /-- The request the body was rewritten for: the code keeps only its key. -/
  rewrittenFor : LiveHlsRequest urls
  deriving DecidableEq

abbrev LiveHlsPlaylistCache (urls : Urls.Library) := Table Text (CachedLivePlaylist urls)

def flagText (flag : Bool) : Text := if flag then ['1'] else ['0']

/-- The parts a key ends in. -/
def flagParts (request : LiveHlsRequest urls) : List Text :=
  [flagText request.trustedExternalEmbed, decimalText (request.signatureExpiresAt.getD 0),
    flagText request.directSegments, bindingText request.privateSessionBinding]

def liveHlsPlaylistCacheKey (request : LiveHlsRequest urls) : Text :=
  join '|' ([urls.asStr request.sourceUrl, request.referer.getD []] ++ flagParts request)

def liveHlsPlaylistCachePolicy (immutable privateSessionBound : Bool) : Int × Text :=
  if privateSessionBound then
    (if immutable then liveHlsImmutablePlaylistCacheTtlMs else liveHlsRollingPlaylistCacheTtlMs,
      "private, no-store, max-age=0".toList)
  else if immutable then (liveHlsImmutablePlaylistCacheTtlMs, "public, max-age=300".toList)
  else (liveHlsRollingPlaylistCacheTtlMs, "no-store".toList)

def CachedLivePlaylist.isExpired (entry : CachedLivePlaylist urls) (now : Int) : Bool :=
  now - entry.storedAtMs > entry.ttlMs

def getFresh (cache : LiveHlsPlaylistCache urls) (key : Text) (now : Int) :
    Option (CachedLivePlaylist urls) :=
  (cache.get key).filter fun entry => !entry.isExpired now

/-- The removals of an eviction, oldest first until both budgets hold. -/
def evictOldest {V : Type} (maxEntries maxTotalBytes : Nat) :
    List (Text × Int × Nat) → Nat → Table Text V → Table Text V
  | [], _, entries => entries
  | (key, storedAt, len) :: live, totalBytes, entries =>
    if ((key, storedAt, len) :: live).length ≤ maxEntries ∧ totalBytes ≤ maxTotalBytes then entries
    else
      evictOldest maxEntries maxTotalBytes live (totalBytes - len)
        (entries.deleteWhere fun k _ => k == key)

def evictExpiredThenOldest {V : Type} (entries : Table Text V) (maxEntries maxTotalBytes : Nat)
    (isExpired : V → Int → Bool) (storedAtMs : V → Int) (byteLen : V → Nat) (now : Int) :
    Table Text V :=
  let entries := entries.deleteWhere fun _ value => isExpired value now
  let live := entries.rows.map fun entry => (entry.1, storedAtMs entry.2, byteLen entry.2)
  let totalBytes := (live.map fun entry => entry.2.2).sum
  if live.length ≤ maxEntries ∧ totalBytes ≤ maxTotalBytes then entries
  else
    evictOldest maxEntries maxTotalBytes (live.mergeSort fun a b => decide (a.2.1 ≤ b.2.1))
      totalBytes entries

/-- A store reads the clock for its entry and again for the eviction after it. -/
def store (cache : LiveHlsPlaylistCache urls) (request : LiveHlsRequest urls) (body : Text)
    (immutable : Bool) (now evictedAt : Int) : LiveHlsPlaylistCache urls :=
  let policy := liveHlsPlaylistCachePolicy immutable request.privateSessionBinding.isSome
  let entry : CachedLivePlaylist urls :=
    { body := body, storedAtMs := now, ttlMs := policy.1, clientCacheControl := policy.2,
      rewrittenFor := request }
  evictExpiredThenOldest
    (cache.upsert (liveHlsPlaylistCacheKey request) entry fun _ => entry)
    liveHlsPlaylistCacheMaxEntries liveHlsPlaylistCacheMaxTotalBytes
    CachedLivePlaylist.isExpired CachedLivePlaylist.storedAtMs
    (fun entry => byteLength entry.body) evictedAt

def prune (cache : LiveHlsPlaylistCache urls) (now : Int) : LiveHlsPlaylistCache urls :=
  cache.deleteWhere fun _ entry => entry.isExpired now

inductive CacheEvent (urls : Urls.Library) where
  | lookup (request : LiveHlsRequest urls) (now : Int)
  | store (request : LiveHlsRequest urls) (body : Text) (immutable : Bool) (now evictedAt : Int)
  | prune (now : Int)

/-- A playlist handed to a request. -/
structure Answer (urls : Urls.Library) where
  request : LiveHlsRequest urls
  playlist : CachedLivePlaylist urls
  deriving DecidableEq

structure CacheWorld (urls : Urls.Library) where
  cache : LiveHlsPlaylistCache urls
  answers : List (Answer urls) := []

def CacheWorld.empty : CacheWorld urls := { cache := .empty }

def cacheStep (w : CacheWorld urls) : CacheEvent urls → CacheWorld urls
  | .lookup request now =>
    { w with
      answers := ((getFresh w.cache (liveHlsPlaylistCacheKey request) now).map
        (Answer.mk request)).toList ++ w.answers }
  | .store request body immutable now evictedAt =>
    { w with cache := store w.cache request body immutable now evictedAt }
  | .prune now => { w with cache := prune w.cache now }

/-- Every playlist handed out was rewritten for the request it answers. -/
def Isolated (w : CacheWorld urls) : Prop :=
  ∀ answer ∈ w.answers, answer.playlist.rewrittenFor = answer.request

/-- The two first parts of a key are the same text, split at different bars perhaps. -/
def SharesText (source referer source' referer' : Text) : Prop :=
  source = source' ∧ referer = referer' ∨
    (∃ w, source' = source ++ '|' :: w ∧ referer = w ++ '|' :: referer') ∨
      ∃ w, source = source' ++ '|' :: w ∧ referer' = w ++ '|' :: referer

/-- Different requests that a key cannot tell apart: the bars of their URLs and referers
line up, or one leaves out what the other gives as its default. -/
structure Confusable (a b : LiveHlsRequest urls) : Prop where
  ne : a ≠ b
  trusted : a.trustedExternalEmbed = b.trustedExternalEmbed
  expiry : a.signatureExpiresAt.getD 0 = b.signatureExpiresAt.getD 0
  direct : a.directSegments = b.directSegments
  binding : a.privateSessionBinding = b.privateSessionBinding
  text : SharesText (urls.asStr a.sourceUrl) (a.referer.getD [])
    (urls.asStr b.sourceUrl) (b.referer.getD [])

/-- A lookup meets no entry in time that was stored for a request confusable with its own. -/
def MeetsNoConfusable (w : CacheWorld urls) : CacheEvent urls → Prop
  | .lookup request now => ∀ key entry, w.cache.get key = some entry →
      entry.isExpired now = false → ¬ Confusable entry.rewrittenFor request
  | _ => True

/-- Every entry stands at the key of the request it was stored for. -/
def KeyedByRequest (cache : LiveHlsPlaylistCache urls) : Prop :=
  ∀ key entry, cache.get key = some entry → key = liveHlsPlaylistCacheKey entry.rewrittenFor

theorem flagText_injective {a b : Bool} (h : flagText a = flagText b) : a = b := by
  cases a <;> cases b <;> first | rfl | cases h

theorem not_mem_flagParts (request : LiveHlsRequest urls) : ∀ part ∈ flagParts request, '|' ∉ part := by
  have hflag (flag : Bool) : '|' ∉ flagText flag := by cases flag <;> decide
  have hdecimal (n : Int) : '|' ∉ decimalText n := by
    intro hmem
    cases mem_decimal hmem with
    | inl hdigit => exact absurd hdigit (by decide)
    | inr hminus => exact absurd hminus (by decide)
  have hbinding : '|' ∉ bindingText request.privateSessionBinding := by
    cases request.privateSessionBinding with
    | none => exact List.not_mem_nil
    | some binding => exact binding.not_mem_text (by decide)
  intro part hpart
  simp only [flagParts, List.mem_cons, List.not_mem_nil, or_false] at hpart
  rcases hpart with rfl | rfl | rfl | rfl
  · exact hflag _
  · exact hdecimal _
  · exact hflag _
  · exact hbinding

theorem flagParts_eq_iff {a b : LiveHlsRequest urls} :
    flagParts a = flagParts b ↔ a.trustedExternalEmbed = b.trustedExternalEmbed ∧
      a.signatureExpiresAt.getD 0 = b.signatureExpiresAt.getD 0 ∧
        a.directSegments = b.directSegments ∧ a.privateSessionBinding = b.privateSessionBinding := by
  simp only [flagParts, List.cons.injEq, and_true]
  constructor
  · rintro ⟨htrusted, hexpiry, hdirect, hbinding⟩
    exact ⟨flagText_injective htrusted, decimal_injective hexpiry, flagText_injective hdirect,
      bindingText_injective hbinding⟩
  · rintro ⟨htrusted, hexpiry, hdirect, hbinding⟩
    rw [htrusted, hexpiry, hdirect, hbinding]
    exact ⟨rfl, rfl, rfl, rfl⟩

theorem join_pair (source referer : Text) : join '|' [source, referer] = source ++ '|' :: referer := by
  rw [join_cons source (List.cons_ne_nil referer []), join_singleton]

/-- What one key says of two requests. -/
theorem liveHlsPlaylistCacheKey_eq_iff {a b : LiveHlsRequest urls} :
    liveHlsPlaylistCacheKey a = liveHlsPlaylistCacheKey b ↔
      SharesText (urls.asStr a.sourceUrl) (a.referer.getD []) (urls.asStr b.sourceUrl)
        (b.referer.getD []) ∧ flagParts a = flagParts b := by
  rw [SharesText, ← append_cons_eq_iff, ← join_pair, ← join_pair]
  constructor
  · intro h
    exact join_append_injective (List.cons_ne_nil _ _) (List.cons_ne_nil _ _)
      (not_mem_flagParts a) (not_mem_flagParts b) rfl h
  · rintro ⟨htext, hparts⟩
    have hcons (r : LiveHlsRequest urls) : liveHlsPlaylistCacheKey r =
        join '|' [urls.asStr r.sourceUrl, r.referer.getD []] ++ '|' :: join '|' (flagParts r) := by
      have hne : flagParts r ≠ [] := List.cons_ne_nil _ _
      rw [liveHlsPlaylistCacheKey, List.cons_append, List.cons_append, List.nil_append,
        join_cons (urls.asStr r.sourceUrl) (List.cons_ne_nil _ _),
        join_cons (r.referer.getD []) hne, join_pair, List.append_assoc, List.cons_append]
    rw [hcons, hcons, htext, hparts]

theorem confusable_iff {a b : LiveHlsRequest urls} :
    Confusable a b ↔ a ≠ b ∧ liveHlsPlaylistCacheKey a = liveHlsPlaylistCacheKey b := by
  rw [liveHlsPlaylistCacheKey_eq_iff, flagParts_eq_iff]
  constructor
  · intro h
    exact ⟨h.ne, h.text, h.trusted, h.expiry, h.direct, h.binding⟩
  · rintro ⟨hne, htext, htrusted, hexpiry, hdirect, hbinding⟩
    exact ⟨hne, htrusted, hexpiry, hdirect, hbinding, htext⟩

/-- A removal shows nothing new at any key. -/
theorem get_of_get_deleteWhere {V : Type} {entries : Table Text V} {p : Text → V → Bool} {key : Text}
    {value : V} (h : (entries.deleteWhere p).get key = some value) : entries.get key = some value := by
  rw [get_deleteWhere] at h
  exact (Option.filter_eq_some_iff.mp h).1

theorem get_of_get_evictOldest {V : Type} {maxEntries maxTotalBytes totalBytes : Nat}
    {live : List (Text × Int × Nat)} {entries : Table Text V} {key : Text} {value : V}
    (h : (evictOldest maxEntries maxTotalBytes live totalBytes entries).get key = some value) :
    entries.get key = some value := by
  induction live generalizing totalBytes entries with
  | nil => exact h
  | cons a live ih =>
    rw [evictOldest] at h
    split at h
    · exact h
    · exact get_of_get_deleteWhere (ih h)

theorem get_of_get_evictExpiredThenOldest {V : Type} {entries : Table Text V}
    {maxEntries maxTotalBytes : Nat} {isExpired : V → Int → Bool} {storedAtMs : V → Int}
    {byteLen : V → Nat} {now : Int} {key : Text} {value : V}
    (h : (evictExpiredThenOldest entries maxEntries maxTotalBytes isExpired storedAtMs byteLen
      now).get key = some value) : entries.get key = some value := by
  unfold evictExpiredThenOldest at h
  dsimp only at h
  split at h
  · exact get_of_get_deleteWhere h
  · exact get_of_get_deleteWhere (get_of_get_evictOldest h)

/-- A store puts one entry at its own key and no other anywhere. -/
theorem KeyedByRequest.store {cache : LiveHlsPlaylistCache urls} (h : KeyedByRequest cache)
    (request : LiveHlsRequest urls) (body : Text) (immutable : Bool) (now evictedAt : Int) :
    KeyedByRequest (store cache request body immutable now evictedAt) := by
  intro key entry hentry
  have hget := get_of_get_evictExpiredThenOldest hentry
  rw [get_upsert] at hget
  split at hget
  · next hkey =>
    have hfor : entry.rewrittenFor = request := by
      cases hold : cache.get (liveHlsPlaylistCacheKey request) <;>
        rw [hold] at hget <;> rw [← Option.some.inj hget] <;> rfl
    rw [hkey, hfor]
  · exact h key entry hget

theorem keyedByRequest_step {w : CacheWorld urls} (h : KeyedByRequest w.cache) (e : CacheEvent urls) :
    KeyedByRequest (cacheStep w e).cache := by
  cases e with
  | lookup request now => exact h
  | store request body immutable now evictedAt => exact h.store request body immutable now evictedAt
  | prune now => exact fun key entry hentry => h key entry (get_of_get_deleteWhere hentry)

/-- A lookup answers right exactly when no entry in time confuses its key. -/
theorem isolated_step {w : CacheWorld urls} (e : CacheEvent urls) (hkeyed : KeyedByRequest w.cache)
    (hw : Isolated w) : Isolated (cacheStep w e) ↔ MeetsNoConfusable w e := by
  cases e with
  | store request body immutable now evictedAt => exact iff_of_true hw trivial
  | prune now => exact iff_of_true hw trivial
  | lookup request now =>
    constructor
    · intro h key entry hentry hfresh hconfusable
      obtain ⟨hne, hkey⟩ := confusable_iff.mp hconfusable
      have hget : getFresh w.cache (liveHlsPlaylistCacheKey request) now = some entry := by
        rw [getFresh, ← hkey, ← hkeyed key entry hentry, hentry]
        exact Option.filter_some_pos (by simp [hfresh])
      exact hne (h ⟨request, entry⟩ (by simp [cacheStep, hget]))
    · intro h answer hanswer
      rw [cacheStep, List.mem_append] at hanswer
      cases hanswer with
      | inr hold => exact hw answer hold
      | inl hnew =>
        obtain ⟨entry, hget, rfl⟩ := Option.map_eq_some_iff.mp (Option.mem_toList.mp hnew)
        obtain ⟨hentry, hfresh⟩ := Option.filter_eq_some_iff.mp hget
        have hkey := hkeyed _ entry hentry
        by_contra hne
        exact h _ entry hentry (by simpa using hfresh) (confusable_iff.mpr ⟨hne, hkey.symm⟩)

/-- The key tells two requests apart unless they are confusable, and a run of the cache
hands every request its own playlists exactly when no lookup meets a confusable entry. -/
theorem playlist_cache_isolated_iff :
    (∀ a b : LiveHlsRequest urls,
      (liveHlsPlaylistCacheKey a = liveHlsPlaylistCacheKey b → a = b) ↔ ¬ Confusable a b) ∧
    ∀ events : List (CacheEvent urls),
      Throughout cacheStep Isolated CacheWorld.empty events ↔
        Each cacheStep MeetsNoConfusable CacheWorld.empty events := by
  constructor
  · intro a b
    rw [confusable_iff]
    tauto
  · intro events
    have hempty : Isolated (CacheWorld.empty : CacheWorld urls) := by
      intro answer hanswer
      cases hanswer
    rw [throughout_iff_each (I := fun w : CacheWorld urls => KeyedByRequest w.cache)
      (fun w e h => keyedByRequest_step h e) (fun w e hkeyed hw => isolated_step e hkeyed hw)
      (fun key entry hentry => by cases hentry)]
    exact and_iff_right hempty

def barRefererRequest : LiveHlsRequest Urls.plain where
  sourceUrl := ⟨"https://jmp2.uk/".toList, by decide⟩
  referer := some "https://b.example/y|https://c.example/z".toList
  trustedExternalEmbed := false
  signatureExpiresAt := none
  directSegments := false
  privateSessionBinding := none

def barSourceRequest : LiveHlsRequest Urls.plain where
  sourceUrl := ⟨"https://jmp2.uk/|https://b.example/y".toList, by decide⟩
  referer := some "https://c.example/z".toList
  trustedExternalEmbed := false
  signatureExpiresAt := none
  directSegments := false
  privateSessionBinding := none

/-- A playlist of one page answers a request for another. -/
theorem bar_shares_playlist :
    liveHlsPlaylistCacheKey barRefererRequest = liveHlsPlaylistCacheKey barSourceRequest ∧
      barRefererRequest.sourceUrl ≠ barSourceRequest.sourceUrl ∧
      barRefererRequest.referer ≠ barSourceRequest.referer ∧
      ¬ Throughout cacheStep Isolated CacheWorld.empty
        [.store barRefererRequest "#EXTM3U".toList false 1000 1000, .lookup barSourceRequest 1500] := by
  refine ⟨by decide, by decide, by decide, fun h => ?_⟩
  have hlast := h.last
  have hanswer := hlast ⟨barSourceRequest, ⟨"#EXTM3U".toList, 1000, 1500, "no-store".toList,
    barRefererRequest⟩⟩ (by decide +kernel)
  exact absurd hanswer (by decide)

end StreamArena.LiveHls
