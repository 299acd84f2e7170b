import Mathlib
import StreamArena.LiveHls.PlaylistCache

/-! The cache of processed live segments beside the one of playlists, and the eviction that both share:
their budgets, and which entries a store evicts. -/
namespace StreamArena.LiveHls
open AsciiText KeyedTable Runs

def liveSegmentOutputCacheTtlMs : Int := 25000
def liveSegmentOutputCacheMaxEntries : Nat := 64
def liveSegmentOutputCacheMaxTotalBytes : Nat := 96 * 1024 * 1024

structure CachedLiveSegment where
  contentType : Text
  bytes : List UInt8
  storedAtMs : Int
  deriving DecidableEq

structure LiveSegmentOutputCache where
  entries : Table Text CachedLiveSegment
  maxEntries : Nat
  maxTotalBytes : Nat

namespace LiveSegmentOutputCache

def new (maxEntries maxTotalBytes : Nat) : LiveSegmentOutputCache := ⟨.empty, maxEntries, maxTotalBytes⟩

def isExpired (entry : CachedLiveSegment) (now : Int) : Bool := now - entry.storedAtMs > liveSegmentOutputCacheTtlMs

def getFresh (cache : LiveSegmentOutputCache) (key : Text) (now : Int) : Option CachedLiveSegment :=
  (cache.entries.get key).filter fun entry => !isExpired entry now

def insert (cache : LiveSegmentOutputCache) (key : Text) (entry : CachedLiveSegment) : Table Text CachedLiveSegment :=
  cache.entries.upsert key entry fun _ => entry

def store (cache : LiveSegmentOutputCache) (key contentType : Text) (bytes : List UInt8) (now evictedAt : Int) :
    LiveSegmentOutputCache :=
  if (bytes.isEmpty || decide (bytes.length > cache.maxTotalBytes)) = true then cache
  else
    { cache with
      entries := evictExpiredThenOldest (cache.insert key ⟨contentType, bytes, now⟩) cache.maxEntries cache.maxTotalBytes
        isExpired CachedLiveSegment.storedAtMs (fun entry => entry.bytes.length) evictedAt }

def prune (cache : LiveSegmentOutputCache) (now : Int) : LiveSegmentOutputCache :=
  { cache with entries := cache.entries.deleteWhere fun _ entry => isExpired entry now }

end LiveSegmentOutputCache

inductive SegmentEvent where
  | lookup (key : Text) (now : Int)
  | store (key contentType : Text) (bytes : List UInt8) (now evictedAt : Int)
  | prune (now : Int)

def segmentStep (cache : LiveSegmentOutputCache) : SegmentEvent → LiveSegmentOutputCache
  | .lookup _ _ => cache
  | .store key contentType bytes now evictedAt => cache.store key contentType bytes now evictedAt
  | .prune now => cache.prune now

section
variable {V : Type} (size : V → Nat)

def totalBytes (rows : List (Text × V)) : Nat := (rows.map fun row => size row.2).sum

variable {maxEntries maxBytes : Nat}

/-- Both budgets hold. -/
def Fits (maxEntries maxBytes : Nat) (rows : List (Text × V)) : Prop :=
  rows.length ≤ maxEntries ∧ totalBytes size rows ≤ maxBytes

/-- What an eviction does: of the entries that have not expired, in an order from the oldest to the newest,
it removes the shortest beginning without which the budgets hold. -/
structure Evicted (maxEntries maxBytes : Nat) (isExpired : V → Bool) (storedAtMs : V → Int) (before after : Table Text V) :
    Prop where
  fits : Fits size maxEntries maxBytes after.rows
  oldestFirst : ∃ (order : List (Text × V)) (evicted : Nat),
    order.Perm (before.rows.filter fun row => !isExpired row.2) ∧
      order.Pairwise (fun a b => storedAtMs a.2 ≤ storedAtMs b.2) ∧
        after.rows.Perm (order.drop evicted) ∧ ∀ fewer < evicted, ¬ Fits size maxEntries maxBytes (order.drop fewer)

/-- The states of the loop: the running counter and the map. -/
def evictSteps (maxEntries maxTotalBytes : Nat) : List (Text × Int × Nat) → Nat → Table Text V → List (Nat × Table Text V)
  | [], total, entries => [(total, entries)]
  | (key, storedAt, len) :: live, total, entries =>
    (total, entries) ::
      if ((key, storedAt, len) :: live).length ≤ maxEntries ∧ total ≤ maxTotalBytes then []
      else evictSteps maxEntries maxTotalBytes live (total - len) (entries.deleteWhere fun k _ => k == key)

/-- What the loop knows of an entry. -/
def facts (storedAtMs : V → Int) (row : Text × V) : Text × Int × Nat := (row.1, storedAtMs row.2, size row.2)

variable {size}

theorem totalBytes_cons (row : Text × V) (rows : List (Text × V)) :
    totalBytes size (row :: rows) = size row.2 + totalBytes size rows := by
  simp [totalBytes]

theorem totalBytes_of_perm {rows other : List (Text × V)} (h : rows.Perm other) : totalBytes size rows = totalBytes size other :=
  (h.map _).sum_eq

theorem Fits.of_perm {rows other : List (Text × V)} (h : rows.Perm other) (hfits : Fits size maxEntries maxBytes rows) :
    Fits size maxEntries maxBytes other := by
  rw [Fits, ← h.length_eq, ← totalBytes_of_perm h]
  exact hfits

/-- A row removed by its key leaves the other rows. -/
theorem rows_deleteWhere_perm {entries : Table Text V} {row : Text × V} {rest : List (Text × V)}
    (h : entries.rows.Perm (row :: rest)) : (entries.deleteWhere fun k _ => k == row.1).rows.Perm rest := by
  have hnodup : ((row :: rest).map Prod.fst).Nodup := (h.map Prod.fst).nodup_iff.mp entries.nodup
  rw [List.map_cons, List.nodup_cons] at hnodup
  have hfilter := h.filter fun a => !(a.1 == row.1)
  rw [List.filter_cons_of_neg (by simp)] at hfilter
  have hrest : rest.filter (fun a => !(a.1 == row.1)) = rest := by
    refine List.filter_eq_self.mpr fun other hother => ?_
    have hne : other.1 ≠ row.1 := fun heq => hnodup.1 (heq ▸ List.mem_map_of_mem hother)
    simpa using hne
  rw [hrest] at hfilter
  exact hfilter

/-- The loop removes the shortest beginning of its list. -/
theorem evictOldest_spec (storedAtMs : V → Int) (order : List (Text × V)) (entries : Table Text V)
    (h : entries.rows.Perm order) :
    ∃ evicted, (evictOldest maxEntries maxBytes (order.map (facts size storedAtMs)) (totalBytes size order) entries).rows.Perm
        (order.drop evicted) ∧ Fits size maxEntries maxBytes (order.drop evicted) ∧
      ∀ fewer < evicted, ¬ Fits size maxEntries maxBytes (order.drop fewer) := by
  induction order generalizing entries with
  | nil => exact ⟨0, h, ⟨Nat.zero_le _, Nat.zero_le _⟩, fun _ hlt => absurd hlt (Nat.not_lt_zero _)⟩
  | cons row rest ih =>
    rw [List.map_cons, facts, evictOldest]
    split
    next hfits =>
      refine ⟨0, h, ⟨?_, hfits.2⟩, fun _ hlt => absurd hlt (Nat.not_lt_zero _)⟩
      have hlength := hfits.1
      rw [List.length_cons, List.length_map] at hlength
      exact hlength
    next hfull =>
      have htotal : totalBytes size (row :: rest) - size row.2 = totalBytes size rest := by
        rw [totalBytes_cons]
        omega
      rw [htotal]
      obtain ⟨evicted, hperm, hfits, hleast⟩ := ih _ (rows_deleteWhere_perm h)
      refine ⟨evicted + 1, hperm, hfits, fun fewer hlt => ?_⟩
      cases fewer with
      | zero =>
        intro hall
        refine hfull ⟨?_, hall.2⟩
        have hlength := hall.1
        rw [List.length_cons, List.length_map]
        exact hlength
      | succ fewer => exact hleast fewer (by omega)

/-- The running counter is the sum of the sizes of the entries present. -/
theorem counter_eq (storedAtMs : V → Int) (order : List (Text × V)) (entries : Table Text V) (h : entries.rows.Perm order)
    {state : Nat × Table Text V}
    (hstate : state ∈ evictSteps maxEntries maxBytes (order.map (facts size storedAtMs)) (totalBytes size order) entries) :
    state.1 = totalBytes size state.2.rows := by
  induction order generalizing entries with
  | nil =>
    rw [List.mem_singleton.mp hstate]
    exact (totalBytes_of_perm h).symm
  | cons row rest ih =>
    rw [List.map_cons, facts, evictSteps] at hstate
    obtain rfl | hstate := List.mem_cons.mp hstate
    · exact (totalBytes_of_perm h).symm
    · split at hstate
      · cases hstate
      · have htotal : totalBytes size (row :: rest) - size row.2 = totalBytes size rest := by
          rw [totalBytes_cons]
          omega
        rw [htotal] at hstate
        exact ih _ (rows_deleteWhere_perm h) hstate

/-- The last state of the loop is what it returns. -/
theorem getLast_evictSteps (live : List (Text × Int × Nat)) (total : Nat) (entries : Table Text V) :
    (evictSteps maxEntries maxBytes live total entries).getLast?.map Prod.snd =
      some (evictOldest maxEntries maxBytes live total entries) := by
  induction live generalizing total entries with
  | nil => rfl
  | cons fact live ih =>
    obtain ⟨key, storedAt, len⟩ := fact
    rw [evictSteps, evictOldest]
    split
    · rfl
    · rw [← ih]
      cases hsteps : evictSteps maxEntries maxBytes live (total - len) (entries.deleteWhere fun k _ => k == key) with
      | nil => cases live <;> simp [evictSteps] at hsteps
      | cons state states => rw [List.getLast?_cons_cons]

/-- The entries that have not expired, the oldest first. -/
def ageOrder (isExpired : V → Int → Bool) (storedAtMs : V → Int) (entries : Table Text V) (now : Int) : List (Text × V) :=
  (entries.deleteWhere fun _ value => isExpired value now).rows.mergeSort fun a b => decide (storedAtMs a.2 ≤ storedAtMs b.2)

variable {isExpired : V → Int → Bool} {storedAtMs : V → Int} {now : Int}

theorem ageOrder_perm (entries : Table Text V) : (ageOrder isExpired storedAtMs entries now).Perm
    (entries.rows.filter fun row => !isExpired row.2 now) := List.mergeSort_perm ..

theorem ageOrder_pairwise (entries : Table Text V) :
    (ageOrder isExpired storedAtMs entries now).Pairwise fun a b => storedAtMs a.2 ≤ storedAtMs b.2 := by
  have htrans (a b c : Text × V) (hab : decide (storedAtMs a.2 ≤ storedAtMs b.2) = true)
      (hbc : decide (storedAtMs b.2 ≤ storedAtMs c.2) = true) : decide (storedAtMs a.2 ≤ storedAtMs c.2) = true := by
    simp only [decide_eq_true_eq] at hab hbc ⊢
    omega
  have htotal (a b : Text × V) : (decide (storedAtMs a.2 ≤ storedAtMs b.2) || decide (storedAtMs b.2 ≤ storedAtMs a.2)) = true := by
    simp only [Bool.or_eq_true, decide_eq_true_eq]
    omega
  exact (List.pairwise_mergeSort htrans htotal _).imp of_decide_eq_true

theorem totalBytes_ageOrder (entries : Table Text V) : totalBytes size (ageOrder isExpired storedAtMs entries now) =
    totalBytes size (entries.deleteWhere fun _ value => isExpired value now).rows :=
  totalBytes_of_perm (List.mergeSort_perm ..)

/-- The early return is what the loop does with entries that fit. -/
theorem evictExpiredThenOldest_eq (entries : Table Text V) :
    evictExpiredThenOldest entries maxEntries maxBytes isExpired storedAtMs size now =
      evictOldest maxEntries maxBytes ((ageOrder isExpired storedAtMs entries now).map (facts size storedAtMs))
        (totalBytes size (ageOrder isExpired storedAtMs entries now))
        (entries.deleteWhere fun _ value => isExpired value now) := by
  have hlive : (entries.deleteWhere fun _ value => isExpired value now).rows.map (facts size storedAtMs) =
      (entries.deleteWhere fun _ value => isExpired value now).rows.map
        fun entry => (entry.1, storedAtMs entry.2, size entry.2) := rfl
  have hsum : (((entries.deleteWhere fun _ value => isExpired value now).rows.map (facts size storedAtMs)).map
      fun entry => entry.2.2).sum = totalBytes size (ageOrder isExpired storedAtMs entries now) := by
    rw [totalBytes_ageOrder, List.map_map]
    rfl
  have hsorted : ((entries.deleteWhere fun _ value => isExpired value now).rows.map (facts size storedAtMs)).mergeSort
      (fun a b => decide (a.2.1 ≤ b.2.1)) = (ageOrder isExpired storedAtMs entries now).map (facts size storedAtMs) := by
    rw [ageOrder, List.map_mergeSort (s := fun a b : Text × Int × Nat => decide (a.2.1 ≤ b.2.1))]
    exact fun _ _ _ _ => rfl
  have hlength : (ageOrder isExpired storedAtMs entries now).length =
      (entries.deleteWhere fun _ value => isExpired value now).rows.length := List.length_mergeSort _
  rw [evictExpiredThenOldest]
  rw [← hlive, hsum, hsorted, List.length_map, ← hlength]
  split
  next hfits =>
    cases horder : ageOrder isExpired storedAtMs entries now with
    | nil => rfl
    | cons row rest =>
      rw [horder] at hfits
      rw [List.map_cons, facts, evictOldest, if_pos]
      rw [List.length_cons, List.length_map]
      exact hfits
  · rfl

theorem evicted_evictExpiredThenOldest (entries : Table Text V) :
    Evicted size maxEntries maxBytes (isExpired · now) storedAtMs entries
      (evictExpiredThenOldest entries maxEntries maxBytes isExpired storedAtMs size now) := by
  have hperm : (entries.deleteWhere fun _ value => isExpired value now).rows.Perm
      (ageOrder isExpired storedAtMs entries now) := (List.mergeSort_perm ..).symm
  obtain ⟨evicted, hleft, hfits, hleast⟩ := @evictOldest_spec _ size maxEntries maxBytes storedAtMs _ _ hperm
  rw [evictExpiredThenOldest_eq]
  exact ⟨hfits.of_perm hleft.symm, _, evicted, ageOrder_perm entries, ageOrder_pairwise entries, hleft, hleast⟩

/-- The row of a key and the rows of the other keys. -/
theorem rows_perm_of_get {entries : Table Text V} {key : Text} {value : V} (h : entries.get key = some value) :
    entries.rows.Perm ((key, value) :: (entries.deleteWhere fun k _ => k == key).rows) := by
  have hrest : (key, value) ∉ (entries.deleteWhere fun k _ => k == key).rows := by
    rw [Table.mem_rows_iff, get_deleteWhere, h]
    simp
  refine (List.perm_ext_iff_of_nodup entries.nodup.of_map (List.nodup_cons.mpr ⟨hrest, Table.nodup _ |>.of_map⟩)).mpr fun row => ?_
  obtain ⟨k, v⟩ := row
  rw [List.mem_cons, Table.mem_rows_iff, Table.mem_rows_iff, get_deleteWhere, Prod.mk.injEq]
  by_cases hk : k = key
  · subst hk
    rw [h]
    simp [eq_comm]
  · have hkeep : (entries.get k).filter (fun _ => !(k == key)) = entries.get k := filter_keep fun _ _ => by simpa using hk
    rw [hkeep]
    simp [hk]

theorem deleteWhere_upsert (entries : Table Text V) (key : Text) (value : V) :
    ((entries.upsert key value fun _ => value).deleteWhere fun k _ => k == key).rows.Perm
      (entries.deleteWhere fun k _ => k == key).rows := by
  refine (List.perm_ext_iff_of_nodup (Table.nodup _ |>.of_map) (Table.nodup _ |>.of_map)).mpr fun row => ?_
  obtain ⟨k, v⟩ := row
  rw [Table.mem_rows_iff, Table.mem_rows_iff, get_deleteWhere, get_deleteWhere, get_upsert]
  by_cases hk : k = key <;> simp [hk]

/-- A store counts the new entry, and no longer the one it replaces. -/
theorem totalBytes_upsert (entries : Table Text V) (key : Text) (value : V) :
    totalBytes size (entries.upsert key value fun _ => value).rows + ((entries.get key).map size).getD 0 =
      totalBytes size entries.rows + size value := by
  have hnew : (entries.upsert key value fun _ => value).get key = some value := by
    rw [get_upsert_self]
    cases entries.get key <;> rfl
  rw [totalBytes_of_perm (rows_perm_of_get hnew), totalBytes_cons, totalBytes_of_perm (deleteWhere_upsert entries key value)]
  cases hget : entries.get key with
  | some old =>
    rw [totalBytes_of_perm (rows_perm_of_get hget), totalBytes_cons, Option.map_some, Option.getD_some]
    dsimp only
    omega
  | none =>
    have hsame : (entries.deleteWhere fun k _ => k == key).rows = entries.rows := by
      refine List.filter_eq_self.mpr fun row hrow => ?_
      have hne : row.1 ≠ key := by
        rintro rfl
        rw [entries.mem_rows_iff.mp hrow] at hget
        cases hget
      simpa using hne
    rw [hsame, Option.map_none, Option.getD_none]
    dsimp only
    omega

theorem Fits.of_deleteWhere {entries : Table Text V} (h : Fits size maxEntries maxBytes entries.rows) (p : Text → V → Bool) :
    Fits size maxEntries maxBytes (entries.deleteWhere p).rows :=
  have hsub : (entries.deleteWhere p).rows.Sublist entries.rows := List.filter_sublist
  ⟨hsub.length_le.trans h.1, ((hsub.map _).sum_le_sum fun _ _ => Nat.zero_le _).trans h.2⟩

theorem fits_empty : Fits size maxEntries maxBytes (Table.empty : Table Text V).rows := ⟨Nat.zero_le _, Nat.zero_le _⟩

/-- What a store with its eviction leaves behind. -/
structure Stored (size : V → Nat) (maxEntries maxBytes : Nat) (isExpired : V → Int → Bool) (storedAtMs : V → Int) (now : Int)
    (before : Table Text V) (key : Text) (value : V) (after : Table Text V) : Prop where
  evicted : Evicted size maxEntries maxBytes (isExpired · now) storedAtMs (before.upsert key value fun _ => value) after
  countedOnce : totalBytes size (before.upsert key value fun _ => value).rows + ((before.get key).map size).getD 0 =
    totalBytes size before.rows + size value
  /-- The loop ends with `after`, and its counter is right on the way. -/
  counted : ∃ steps : List (Nat × Table Text V),
    steps = evictSteps maxEntries maxBytes
        ((ageOrder isExpired storedAtMs (before.upsert key value fun _ => value) now).map (facts size storedAtMs))
        (totalBytes size ((before.upsert key value fun _ => value).deleteWhere fun _ value => isExpired value now).rows)
        ((before.upsert key value fun _ => value).deleteWhere fun _ value => isExpired value now) ∧
      steps.getLast?.map Prod.snd = some after ∧ ∀ state ∈ steps, state.1 = totalBytes size state.2.rows

theorem stored_evictExpiredThenOldest (before : Table Text V) (key : Text) (value : V) :
    Stored size maxEntries maxBytes isExpired storedAtMs now before key value
      (evictExpiredThenOldest (before.upsert key value fun _ => value) maxEntries maxBytes isExpired storedAtMs size now) where
  evicted := evicted_evictExpiredThenOldest _
  countedOnce := totalBytes_upsert before key value
  counted := by
    refine ⟨_, rfl, ?_, fun state hstate => ?_⟩
    · rw [getLast_evictSteps, evictExpiredThenOldest_eq, totalBytes_ageOrder]
    · rw [← totalBytes_ageOrder] at hstate
      exact counter_eq storedAtMs _ _ (List.mergeSort_perm ..).symm hstate

end

variable {urls : Urls.Library}

def playlistSize (entry : CachedLivePlaylist urls) : Nat := byteLength entry.body

def segmentSize (entry : CachedLiveSegment) : Nat := entry.bytes.length

def PlaylistsFit (w : CacheWorld urls) : Prop :=
  Fits playlistSize liveHlsPlaylistCacheMaxEntries liveHlsPlaylistCacheMaxTotalBytes w.cache.rows

def LiveSegmentOutputCache.Within (maxEntries maxTotalBytes : Nat) (cache : LiveSegmentOutputCache) : Prop :=
  cache.maxEntries = maxEntries ∧ cache.maxTotalBytes = maxTotalBytes ∧ Fits segmentSize maxEntries maxTotalBytes cache.entries.rows

theorem store_stored (cache : LiveHlsPlaylistCache urls) (request : LiveHlsRequest urls) (body : Text) (immutable : Bool)
    (now evictedAt : Int) :
    ∃ entry : CachedLivePlaylist urls, entry.body = body ∧ entry.storedAtMs = now ∧
      Stored playlistSize liveHlsPlaylistCacheMaxEntries liveHlsPlaylistCacheMaxTotalBytes CachedLivePlaylist.isExpired
        CachedLivePlaylist.storedAtMs evictedAt cache (liveHlsPlaylistCacheKey request) entry
        (store cache request body immutable now evictedAt) :=
  ⟨_, rfl, rfl, stored_evictExpiredThenOldest cache (liveHlsPlaylistCacheKey request) _⟩

theorem LiveSegmentOutputCache.store_stored (cache : LiveSegmentOutputCache) (key contentType : Text) {bytes : List UInt8}
    (now evictedAt : Int) (hsome : bytes ≠ []) (hsize : bytes.length ≤ cache.maxTotalBytes) :
    (cache.store key contentType bytes now evictedAt).maxEntries = cache.maxEntries ∧
      (cache.store key contentType bytes now evictedAt).maxTotalBytes = cache.maxTotalBytes ∧
        Stored segmentSize cache.maxEntries cache.maxTotalBytes isExpired CachedLiveSegment.storedAtMs evictedAt cache.entries key
          ⟨contentType, bytes, now⟩ (cache.store key contentType bytes now evictedAt).entries := by
  have hkept : ¬ (bytes.isEmpty || decide (bytes.length > cache.maxTotalBytes)) = true := by
    simp only [Bool.or_eq_true, List.isEmpty_iff, decide_eq_true_eq, not_or, not_lt]
    exact ⟨hsome, hsize⟩
  rw [store, if_neg hkept]
  exact ⟨rfl, rfl, stored_evictExpiredThenOldest cache.entries key _⟩

theorem LiveSegmentOutputCache.store_refused (cache : LiveSegmentOutputCache) (key contentType : Text) {bytes : List UInt8}
    (now evictedAt : Int) (h : bytes = [] ∨ cache.maxTotalBytes < bytes.length) :
    cache.store key contentType bytes now evictedAt = cache := by
  rw [store, if_pos]
  simpa only [Bool.or_eq_true, List.isEmpty_iff, decide_eq_true_eq] using h

theorem playlistsFit_step {w : CacheWorld urls} (e : CacheEvent urls) (h : PlaylistsFit w) : PlaylistsFit (cacheStep w e) := by
  cases e with
  | lookup request now => exact h
  | store request body immutable now evictedAt =>
    obtain ⟨entry, -, -, hstored⟩ := store_stored w.cache request body immutable now evictedAt
    exact hstored.evicted.fits
  | prune now => exact Fits.of_deleteWhere h _

theorem within_step {maxEntries maxTotalBytes : Nat} {cache : LiveSegmentOutputCache} (e : SegmentEvent)
    (h : cache.Within maxEntries maxTotalBytes) : (segmentStep cache e).Within maxEntries maxTotalBytes := by
  obtain ⟨hentries, hbytes, hfits⟩ := h
  cases e with
  | lookup key now => exact ⟨hentries, hbytes, hfits⟩
  | prune now => exact ⟨hentries, hbytes, hfits.of_deleteWhere _⟩
  | store key contentType bytes now evictedAt =>
    rw [segmentStep]
    by_cases hrefused : bytes = [] ∨ cache.maxTotalBytes < bytes.length
    · rw [cache.store_refused key contentType now evictedAt hrefused]
      exact ⟨hentries, hbytes, hfits⟩
    · push Not at hrefused
      obtain ⟨hentries', hbytes', hstored⟩ := cache.store_stored key contentType now evictedAt hrefused.1 hrefused.2
      subst hentries hbytes
      exact ⟨hentries', hbytes', hstored.evicted.fits⟩

end StreamArena.LiveHls
