import Mathlib
import StreamArena.Library.AsciiText
import StreamArena.Library.Runs
import StreamArena.Library.TaskPool

/-! The cache of API reads of the mobile app (src/mobile/src/lib/api.ts) and its snapshots
(src/mobile/src/lib/offline-snapshots.ts). -/
namespace StreamArena.Mobile
open AsciiText Runs TaskPool

/-- What the platform's URL reader finds in an address: its path, and the text of its `auth`
parameter, if it has one. -/
structure ApiUrls where
  pathname : Text → Option Text
  auth : Text → Option (Option Text)

namespace ApiUrls
variable (p : ApiUrls)

def getApiPath (url : Text) : Text :=
  match p.pathname url with
  | some path => path
  | none =>
    let path := url.takeWhile (· != '?')
    if path.isEmpty then url else path

def getApiAuthScope (url : Text) : Text :=
  match p.auth url with
  | some (some auth) => if (trim auth).isEmpty then "legacy".toList else trim auth
  | _ => "legacy".toList

/-- `/^\/api\/[a-z-]+\/matches$/`. -/
def isMatchesPath (path : Text) : Bool :=
  match stripPrefix path "/api/".toList with
  | none => false
  | some rest =>
    let league := rest.takeWhile fun c => c.isLower || c == '-'
    !league.isEmpty && rest.drop league.length == "/matches".toList

def isPersistableApiUrl (url : Text) : Bool :=
  let path := p.getApiPath url
  path == "/api/home/bootstrap".toList || path == "/api/user/continue-watching".toList ||
    path == "/api/user/my-list".toList || path == "/api/user/preferences".toList || isMatchesPath path

end ApiUrls

def apiFetchTimeoutMs : Nat := 5000

def apiSnapshotReadTimeoutMs : Nat := 1000

def stalenessLimitMs : Nat := apiFetchTimeoutMs + apiSnapshotReadTimeoutMs + 1000

/-- A body that the server has sent, by the number of the request that it answered; what an
earlier run of the app has left has number 0. -/
structure SentBody (δ : Type*) where
  url : Text
  request : Nat
  data : δ
  etag : Option Text

/-- An entry of the cache, and for its data the request that got it and the one that wrote it. -/
structure ApiCacheEntry (δ : Type*) where
  data : Option δ
  etag : Option Text
  fetchedAt : Nat
  promise : Option Nat
  promiseStartedAt : Option Nat
  origin : Nat
  writer : Nat
  deriving DecidableEq

structure OfflineApiSnapshot (δ : Type*) where
  data : δ
  etag : Option Text
  fetchedAt : Nat
  origin : Nat

/-- A call that waits for its look into the cache: what it has found, whether that was a snapshot
that goes into the cache, and whether a request follows. -/
structure Lookup (δ : Type*) where
  url : Text
  cached : Option (ApiCacheEntry δ)
  stored : Bool
  fetching : Bool

/-- A request in flight, or one that has failed and whose entry has still to be settled. -/
structure ApiRequest (δ : Type*) where
  url : Text
  cached : Option (ApiCacheEntry δ)
  startedAt : Nat
  failed : Bool

/-- The last request of each address and what was sent before its last invalidation, the bodies
that the server has sent and those that were returned for an address; whether a request was sent
beside a young one of its address, and whether an answer replaced what a later request wrote. -/
structure ApiHistory (δ : Type*) where
  latest : Text → Nat
  invalidated : Text → Nat
  sent : List (SentBody δ)
  returned : List (Text × SentBody δ)
  crowded : Bool
  overtaken : Bool

structure ApiCache (δ : Type*) where
  clock : Nat
  memory : Text → Option (ApiCacheEntry δ)
  snapshots : Text → Option (OfflineApiSnapshot δ)
  lookups : Pool (Lookup δ)
  requests : Pool (ApiRequest δ)
  history : ApiHistory δ

inductive ApiAnswer (δ : Type*) where
  | ok (data : δ) (etag : Option Text)
  | notModified
  | failed

/-- Which addresses an invalidation is for. -/
inductive ApiMatch where
  | all
  | text (value : Text)
  | where (test : Text → Bool)

inductive ApiEvent (δ : Type*) where
  | tick (ms : Nat)
  | read (url : Text)
  | peek (url : Text)
  | fetch (url : Text)
  | lookedUp (task : Nat)
  | answered (task : Nat) (answer : ApiAnswer δ)
  | settled (task : Nat)
  | invalidate (matching : ApiMatch)

namespace ApiMatch

/-- The keys of the cache that are deleted. An empty text matches all. -/
def coversMemory : ApiMatch → Text → Bool
  | all, _ => true
  | text value, url => value.isEmpty || url == value || startsWith url value
  | .where test, url => test url

def coversSnapshot : ApiMatch → Text → Bool
  | all, _ => true
  | text value, url => value.isEmpty || contains url value
  | .where test, url => test url

end ApiMatch

namespace ApiCache
variable {δ : Type*} (p : ApiUrls)

/-- The app as it starts, with the snapshots of its last run. -/
def new (start : Nat) (snapshots : List (Text × OfflineApiSnapshot δ)) : ApiCache δ where
  clock := start + 1
  memory _ := none
  snapshots url := (snapshots.lookup url).map fun snapshot => { snapshot with origin := 0 }
  lookups := .empty
  requests := .empty
  history := ⟨fun _ => 0, fun _ => 0, snapshots.map fun s => ⟨s.1, 0, s.2.data, s.2.etag⟩, [], false, false⟩

def setMemory (c : ApiCache δ) (url : Text) (entry : ApiCacheEntry δ) : ApiCache δ :=
  { c with memory := Function.update c.memory url (some entry) }

/-- Notes the data of an entry as returned for an address. -/
def returns (c : ApiCache δ) (url : Text) (entry : ApiCacheEntry δ) : ApiCache δ :=
  match entry.data with
  | none => c
  | some data =>
    { c with history := { c.history with
      returned := (url, ⟨url, entry.origin, data, entry.etag⟩) :: c.history.returned } }

/-- An entry as `{ data, etag, fetchedAt }`. -/
def ended (entry : ApiCacheEntry δ) : ApiCacheEntry δ := { entry with promise := none, promiseStartedAt := none }

def isStale (c : ApiCache δ) (entry : ApiCacheEntry δ) : Bool :=
  let startedAt := entry.promiseStartedAt.getD entry.fetchedAt
  startedAt == 0 || decide (stalenessLimitMs < c.clock - startedAt)

/-- An entry whose request is too old loses it. -/
def getCacheEntry (c : ApiCache δ) (url : Text) : ApiCache δ × Option (ApiCacheEntry δ) :=
  match c.memory url with
  | none => (c, none)
  | some memory =>
    if memory.promise.isSome then
      if c.isStale memory then (c.setMemory url (ended memory), if memory.data.isSome then some (ended memory) else none)
      else (c, some memory)
    else (c, if memory.data.isSome then some memory else none)

def snapshotEntry (snapshot : OfflineApiSnapshot δ) : ApiCacheEntry δ :=
  ⟨some snapshot.data, snapshot.etag, snapshot.fetchedAt, none, none, snapshot.origin, 0⟩

def readStoredApiCache (c : ApiCache δ) (url : Text) : Option (ApiCacheEntry δ) :=
  if p.isPersistableApiUrl url then (c.snapshots url).map snapshotEntry else none

/-- `readCachedApiData`. -/
def read (c : ApiCache δ) (url : Text) : ApiCache δ :=
  let (c, entry) := c.getCacheEntry url
  match entry with
  | some entry => c.returns url entry
  | none =>
    if (c.memory url).isSome then c
    else
      match c.readStoredApiCache p url with
      | none => c
      | some stored => (c.setMemory url stored).returns url stored

/-- What a call waits with after its look into the cache, unless it needs to wait for nothing:
`getCacheEntryAsync`, and whether a request is to follow. -/
def look (c : ApiCache δ) (url : Text) (fetching : Bool) : Option (Lookup δ) :=
  match (c.getCacheEntry url).2 with
  | some entry => if fetching && entry.promise.isNone then some ⟨url, some entry, false, true⟩ else none
  | none =>
    match (c.getCacheEntry url).1.readStoredApiCache p url with
    | some stored => some ⟨url, some stored, true, fetching⟩
    | none => if fetching then some ⟨url, none, false, true⟩ else none

def begin (c : ApiCache δ) (url : Text) (fetching : Bool) : ApiCache δ :=
  let found := c.getCacheEntry url
  let after := { found.1 with
    lookups := match c.look p url fetching with
      | some lookup => c.lookups.add lookup
      | none => c.lookups }
  match found.2 with
  | some entry => after.returns url entry
  | none => after

/-- Whether a request of an address is in flight that was sent within the limit. -/
def hasYoungRequest (c : ApiCache δ) (url : Text) : Bool :=
  (List.range c.requests.next).any fun task => (c.requests.get task).any fun request =>
    request.url == url && !request.failed && decide (c.clock - request.startedAt ≤ stalenessLimitMs)

/-- What was cached, with the request that is sent for it. -/
def pending (cached : Option (ApiCacheEntry δ)) (task clock : Nat) : ApiCacheEntry δ :=
  { cached.getD ⟨none, none, 0, none, none, 0, 0⟩ with promise := some task, promiseStartedAt := some clock }

/-- Sends a request and registers it. -/
def send (c : ApiCache δ) (url : Text) (cached : Option (ApiCacheEntry δ)) : ApiCache δ :=
  { c with
    memory := Function.update c.memory url (some (pending cached c.requests.next c.clock))
    requests := c.requests.add ⟨url, cached, c.clock, false⟩
    history := { c.history with
      latest := Function.update c.history.latest url (c.requests.next + 1)
      crowded := c.history.crowded || c.hasYoungRequest url } }

def lookedUp (c : ApiCache δ) (task : Nat) : ApiCache δ :=
  match c.lookups.get task with
  | none => c
  | some lookup =>
    match lookup.stored, lookup.cached with
    | true, some stored =>
      -- the call goes on after another await
      { (c.setMemory lookup.url stored).returns lookup.url stored with
        lookups := c.lookups.change task fun _ => if lookup.fetching then some { lookup with stored := false } else none }
    | _, cached => { c with lookups := c.lookups.drop task }.send lookup.url cached

/-- `writeOfflineApiSnapshot`, for the addresses that are kept. -/
def writeSnapshot (c : ApiCache δ) (url : Text) (entry : ApiCacheEntry δ) : ApiCache δ :=
  match entry.data with
  | none => c
  | some data =>
    if p.isPersistableApiUrl url then
      { c with snapshots := Function.update c.snapshots url (some ⟨data, entry.etag, entry.fetchedAt, entry.origin⟩) }
    else c

def writeApiCache (c : ApiCache δ) (task : Nat) (url : Text) (data : δ) (etag : Option Text) (origin : Nat) :
    ApiCache δ :=
  let entry : ApiCacheEntry δ := ⟨some data, etag, c.clock, none, none, origin, task + 1⟩
  let written : ApiCache δ := { c.setMemory url entry with
    requests := c.requests.drop task
    history := { c.history with
      overtaken := c.history.overtaken || (c.memory url).any fun old => old.data.isSome && decide (task + 1 < old.writer) } }
  (written.writeSnapshot p url entry).returns url entry

def fail (c : ApiCache δ) (task : Nat) : ApiCache δ :=
  { c with requests := c.requests.change task fun request => some { request with failed := true } }

def answered (c : ApiCache δ) (task : Nat) (answer : ApiAnswer δ) : ApiCache δ :=
  match c.requests.get task with
  | none => c
  | some request =>
    if request.failed then c
    else
      match answer with
      | .ok data etag =>
        { c with history := { c.history with sent := ⟨request.url, task + 1, data, etag⟩ :: c.history.sent } }.writeApiCache
          p task request.url data etag (task + 1)
      | .notModified =>
        match request.cached with
        | none => c.fail task
        | some cached =>
          if cached.data.isNone then c.fail task
          else
            let current := ((c.memory request.url).filter fun live => live.data.isSome).getD cached
            match current.data with
            | none => c.fail task
            | some data => c.writeApiCache p task request.url data current.etag current.origin
      | .failed => c.fail task

/-- The `finally` of a request that has failed. -/
def settled (c : ApiCache δ) (task : Nat) : ApiCache δ :=
  match c.requests.get task with
  | none => c
  | some request =>
    if request.failed then
      let c := { c with requests := c.requests.drop task }
      match c.memory request.url with
      | none => c
      | some next =>
        if next.promise = some task then (c.setMemory request.url (ended next)).writeSnapshot p request.url next
        else c
    else c

def invalidate (c : ApiCache δ) (matching : ApiMatch) : ApiCache δ :=
  { c with
    memory := fun url => if matching.coversMemory url then none else c.memory url
    snapshots := fun url => if matching.coversSnapshot url then none else c.snapshots url
    history := { c.history with
      invalidated := fun url => if matching.coversMemory url then c.requests.next + 1 else c.history.invalidated url } }

def step (c : ApiCache δ) : ApiEvent δ → ApiCache δ
  | .tick ms => { c with clock := c.clock + ms }
  | .read url => c.read p url
  | .peek url => c.begin p url false
  | .fetch url => c.begin p url true
  | .lookedUp task => c.lookedUp task
  | .answered task answer => c.answered p task answer
  | .settled task => c.settled p task
  | .invalidate matching => c.invalidate matching

/-- What is cached of an address came by a request sent after its last invalidation, as a body that
the server sent for it with this tag; no request was sent beside a young one, no answer has
replaced a later one, and what is returned belongs to the account of the address. -/
structure Coherent (c : ApiCache δ) : Prop where
  memory : ∀ url entry data, c.memory url = some entry → entry.data = some data →
    c.history.invalidated url ≤ entry.origin ∧ ⟨url, entry.origin, data, entry.etag⟩ ∈ c.history.sent
  snapshots : ∀ url snapshot, c.snapshots url = some snapshot →
    c.history.invalidated url ≤ snapshot.origin ∧ ⟨url, snapshot.origin, snapshot.data, snapshot.etag⟩ ∈ c.history.sent
  crowded : c.history.crowded = false
  overtaken : c.history.overtaken = false
  returned : ∀ r ∈ c.history.returned, r.2 ∈ c.history.sent ∧ p.getApiAuthScope r.2.url = p.getApiAuthScope r.1

/-- A call looks into the cache when no other call of the address waits after its look; an
invalidation comes when no call of its addresses waits and no last request of one is in flight; and
only the last request of an address is answered with data. -/
def Apart (c : ApiCache δ) : ApiEvent δ → Prop
  | .peek url => (c.look p url false).isSome → ¬ c.lookups.Has fun lookup => lookup.url = url
  | .fetch url => (c.look p url true).isSome → ¬ c.lookups.Has fun lookup => lookup.url = url
  | .answered task (.ok _ _) | .answered task .notModified =>
    ∀ request, c.requests.get task = some request → task + 1 = c.history.latest request.url
  | .invalidate matching =>
    (∀ task lookup, c.lookups.get task = some lookup → matching.coversMemory lookup.url = false) ∧
      ∀ task request, c.requests.get task = some request → request.failed = false →
        task + 1 = c.history.latest request.url → matching.coversMemory request.url = false
  | .tick _ | .read _ | .lookedUp _ | .answered _ .failed | .settled _ => True

/-- What is known of an entry of an address. -/
def Known (h : ApiHistory δ) (url : Text) (entry : ApiCacheEntry δ) : Prop :=
  entry.writer ≤ h.latest url ∧ ∀ data, entry.data = some data →
    h.invalidated url ≤ entry.origin ∧ ⟨url, entry.origin, data, entry.etag⟩ ∈ h.sent

def Aged (c : ApiCache δ) (request : ApiRequest δ) : Prop := stalenessLimitMs < c.clock - request.startedAt

/-- Every request of an address that is in flight is too old to be waited for. -/
def AllAged (c : ApiCache δ) (url : Text) : Prop :=
  ∀ task request, c.requests.get task = some request → request.url = url → request.failed = false → c.Aged request

/-- The request that an entry waits for. -/
def Registered (c : ApiCache δ) (task : Nat) (request : ApiRequest δ) : Prop :=
  ∃ entry, c.memory request.url = some entry ∧ entry.promise = some task ∧
    entry.promiseStartedAt = some request.startedAt

/-- What holds of a request: the last one of its address is registered while it is young. -/
structure Sent (c : ApiCache δ) (task : Nat) (request : ApiRequest δ) : Prop where
  latest : task + 1 ≤ c.history.latest request.url
  started : 1 ≤ request.startedAt
  young : request.failed = false → c.Aged request ∨ task + 1 = c.history.latest request.url ∧ c.Registered task request
  known : request.failed = false → task + 1 = c.history.latest request.url →
    c.history.invalidated request.url ≤ task + 1 ∧ ∀ entry, request.cached = some entry → Known c.history request.url entry

structure Sound (c : ApiCache δ) : Prop where
  clock : 1 ≤ c.clock
  memory : ∀ url entry, c.memory url = some entry → Known c.history url entry
  snapshots : ∀ url snapshot, c.snapshots url = some snapshot → Known c.history url (snapshotEntry snapshot)
  lookups : ∀ task lookup, c.lookups.get task = some lookup →
    c.AllAged lookup.url ∧ ∀ entry, lookup.cached = some entry → entry.promise = none ∧ Known c.history lookup.url entry
  single : ∀ i j lookup other, c.lookups.get i = some lookup → c.lookups.get j = some other → lookup.url = other.url → i = j
  requests : ∀ task request, c.requests.get task = some request → c.Sent task request
  latest : ∀ url, c.history.latest url ≤ c.requests.next
  invalidated : ∀ url, c.history.invalidated url ≤ c.requests.next + 1
  crowded : c.history.crowded = false
  overtaken : c.history.overtaken = false
  returned : ∀ r ∈ c.history.returned, r.2 ∈ c.history.sent ∧ r.2.url = r.1

variable {c : ApiCache δ} {url : Text} {entry : ApiCacheEntry δ} {p : ApiUrls}

theorem Sound.coherent (h : c.Sound) : c.Coherent p where
  memory url entry data hentry := (h.memory url entry hentry).2 data
  snapshots url snapshot hsnapshot := (h.snapshots url snapshot hsnapshot).2 _ rfl
  crowded := h.crowded
  overtaken := h.overtaken
  returned r hr := ⟨(h.returned r hr).1, congrArg p.getApiAuthScope (h.returned r hr).2⟩

theorem sound_new (start : Nat) (snapshots : List (Text × OfflineApiSnapshot δ)) : (new start snapshots).Sound where
  clock := Nat.le_add_left 1 start
  memory _ _ h := by cases h
  snapshots url snapshot h := by
    obtain ⟨stored, hstored, rfl⟩ := Option.map_eq_some_iff.mp h
    refine ⟨Nat.le_refl _, fun data hdata => ⟨Nat.le_refl _, ?_⟩⟩
    rw [← Option.some.inj hdata]
    have hmem : (url, stored) ∈ snapshots := by
      obtain ⟨before, after, heq, -⟩ := List.lookup_eq_some_iff.mp hstored
      rw [heq]
      exact List.mem_append_right _ List.mem_cons_self
    exact List.mem_map.mpr ⟨(url, stored), hmem, rfl⟩
  lookups _ _ h := by cases h
  single _ _ _ _ h := by cases h
  requests _ _ h := by cases h
  latest _ := Nat.le_refl _
  invalidated _ := Nat.zero_le _
  crowded := rfl
  overtaken := rfl
  returned _ h := by cases h

theorem Sound.returns (h : c.Sound) (hknown : Known c.history url entry) : (c.returns url entry).Sound := by
  rw [ApiCache.returns]
  split
  next => exact h
  next data hdata =>
    exact {
      h with
      requests := fun task request hrequest => { h.requests task request hrequest with }
      returned := fun r hr => by
        obtain rfl | hold := List.mem_cons.mp hr
        · exact ⟨(hknown.2 data hdata).2, rfl⟩
        · exact h.returned r hold }

theorem returns_frame (c : ApiCache δ) (url : Text) (entry : ApiCacheEntry δ) :
    ∃ returned, c.returns url entry = { c with history := { c.history with returned } } := by
  rw [ApiCache.returns]
  split <;> exact ⟨_, rfl⟩

theorem Sound.setMemory (h : c.Sound) (hknown : Known c.history url entry) (haged : c.AllAged url) :
    (c.setMemory url entry).Sound := {
  h with
  memory := fun other e he => by
    rw [ApiCache.setMemory] at he
    dsimp only at he
    rw [Function.update_apply] at he
    split at he
    next heq =>
      rw [← Option.some.inj he, heq]
      exact hknown
    next => exact h.memory other e he
  requests := fun task request hrequest => {
    h.requests task request hrequest with
    young := fun hfailed => by
      obtain hold | ⟨hlatest, e, he, hpromise⟩ := (h.requests task request hrequest).young hfailed
      · exact .inl hold
      · by_cases heq : request.url = url
        · exact .inl (haged task request hrequest heq hfailed)
        · refine .inr ⟨hlatest, e, ?_, hpromise⟩
          rw [ApiCache.setMemory]
          dsimp only
          rw [Function.update_of_ne heq]
          exact he } }

theorem known_ended (h : Known c.history url entry) : Known c.history url (ended entry) := h

/-- What a look into the cache finds; where it is no entry that waits for a request, the requests
in flight are too old. -/
theorem Sound.getCacheEntry (h : c.Sound) (url : Text) :
    (c.getCacheEntry url).1.Sound ∧ (∀ entry, (c.getCacheEntry url).2 = some entry → Known c.history url entry) ∧
      ((∀ entry, (c.getCacheEntry url).2 = some entry → entry.promise = none) → c.AllAged url) := by
  rw [ApiCache.getCacheEntry]
  split
  next hnone =>
    refine ⟨h, (fun _ hf => by cases hf), fun _ task request hrequest heq hfailed => ?_⟩
    obtain hold | ⟨-, e, he, -⟩ := (h.requests task request hrequest).young hfailed
    · exact hold
    · rw [heq, hnone] at he
      cases he
  next memory hmemory =>
    have hknown := h.memory url memory hmemory
    split
    next hpromise =>
      split
      next hstale =>
        have haged : c.AllAged url := fun task request hrequest heq hfailed => by
          have hsent := h.requests task request hrequest
          obtain hold | ⟨-, e, he, -, hstarted⟩ := hsent.young hfailed
          · exact hold
          · rw [heq, hmemory, Option.some.injEq] at he
            rw [isStale, he, hstarted, Option.getD_some, Bool.or_eq_true, beq_iff_eq, decide_eq_true_eq] at hstale
            refine hstale.resolve_left fun hzero => ?_
            have hone := hsent.started
            omega
        refine ⟨h.setMemory (known_ended hknown) haged, fun e he => ?_, fun _ => haged⟩
        dsimp only at he
        split at he
        · rw [← Option.some.inj he]
          exact known_ended hknown
        · cases he
      next =>
        refine ⟨h, fun e he => Option.some.inj he ▸ hknown, fun hnone => ?_⟩
        rw [hnone memory rfl] at hpromise
        cases hpromise
    next hpromise =>
      refine ⟨h, fun e he => ?_, fun _ task request hrequest heq hfailed => ?_⟩
      · dsimp only at he
        split at he
        · exact Option.some.inj he ▸ hknown
        · cases he
      · obtain hold | ⟨-, e, he, hwaits, -⟩ := (h.requests task request hrequest).young hfailed
        · exact hold
        · rw [heq, hmemory, Option.some.injEq] at he
          rw [he, hwaits] at hpromise
          exact absurd rfl hpromise

theorem getCacheEntry_frame (c : ApiCache δ) (url : Text) :
    ∃ memory, (c.getCacheEntry url).1 = { c with memory } := by
  rw [ApiCache.getCacheEntry]
  repeat' split
  all_goals exact ⟨_, rfl⟩

theorem Sound.readStored (h : c.Sound) (hstored : c.readStoredApiCache p url = some entry) :
    entry.promise = none ∧ Known c.history url entry := by
  rw [readStoredApiCache, Option.ite_none_right_eq_some] at hstored
  obtain ⟨snapshot, hsnapshot, rfl⟩ := Option.map_eq_some_iff.mp hstored.2
  exact ⟨rfl, h.snapshots url snapshot hsnapshot⟩

theorem Sound.read (h : c.Sound) (url : Text) : (c.read p url).Sound := by
  obtain ⟨hsound, hknown, haged⟩ := h.getCacheEntry url
  obtain ⟨memory, hframe⟩ := getCacheEntry_frame c url
  rw [ApiCache.read]
  cases hfound : c.getCacheEntry url with
  | mk after found =>
    rw [hfound] at hsound hknown haged hframe
    dsimp only at hsound hknown haged hframe ⊢
    cases found with
    | some entry =>
      have hentry := hknown entry rfl
      subst hframe
      exact hsound.returns hentry
    | none =>
      have haged := haged fun _ hf => by cases hf
      dsimp only
      split
      next => exact hsound
      next =>
        split
        next => exact hsound
        next stored hstored =>
          obtain ⟨-, hstored⟩ := hsound.readStored hstored
          subst hframe
          exact (hsound.setMemory hstored haged).returns hstored

/-- What a call waits with. -/
theorem Sound.look (h : c.Sound) {fetching : Bool} {lookup : Lookup δ} (hlook : c.look p url fetching = some lookup) :
    lookup.url = url ∧ c.AllAged url ∧
      ∀ entry, lookup.cached = some entry → entry.promise = none ∧ Known c.history url entry := by
  obtain ⟨hsound, hknown, haged⟩ := h.getCacheEntry url
  obtain ⟨memory, hframe⟩ := getCacheEntry_frame c url
  rw [ApiCache.look] at hlook
  split at hlook
  next entry hfound =>
    rw [Option.ite_none_right_eq_some, Bool.and_eq_true, Option.isNone_iff_eq_none] at hlook
    obtain ⟨⟨-, hpromise⟩, hlook⟩ := hlook
    rw [← Option.some.inj hlook]
    refine ⟨rfl, haged fun e he => ?_, fun e he => ?_⟩
    · rw [hfound, Option.some.injEq] at he
      exact he ▸ hpromise
    · exact Option.some.inj he ▸ ⟨hpromise, hknown entry hfound⟩
  next hfound =>
    have haged := haged fun e he => by
      rw [hfound] at he
      cases he
    split at hlook
    next stored hstored =>
      rw [← Option.some.inj hlook]
      have hstored := hsound.readStored hstored
      rw [hframe] at hstored
      exact ⟨rfl, haged, fun e he => Option.some.inj he ▸ hstored⟩
    next =>
      rw [Option.ite_none_right_eq_some] at hlook
      rw [← Option.some.inj hlook.2]
      exact ⟨rfl, haged, fun _ he => by cases he⟩

theorem Sound.begin (h : c.Sound) {fetching : Bool}
    (hapart : (c.look p url fetching).isSome → ¬ c.lookups.Has fun lookup => lookup.url = url) :
    (c.begin p url fetching).Sound := by
  obtain ⟨hsound, hknown, haged⟩ := h.getCacheEntry url
  obtain ⟨memory, hframe⟩ := getCacheEntry_frame c url
  have hafter : ({ (c.getCacheEntry url).1 with
      lookups := match c.look p url fetching with
        | some lookup => c.lookups.add lookup
        | none => c.lookups } : ApiCache δ).Sound := by
    rw [hframe] at hsound ⊢
    cases hlook : c.look p url fetching with
    | none => exact hsound
    | some lookup =>
      obtain ⟨rfl, haged, hcached⟩ := h.look hlook
      have hnone := hapart (by rw [hlook]; rfl)
      exact {
        hsound with
        lookups := fun task other hother => by
          obtain ⟨-, rfl⟩ | hold := Pool.get_add_eq_some.mp hother
          · exact ⟨haged, hcached⟩
          · exact hsound.lookups task other hold
        single := fun i j a b hi hj heq => by
          obtain ⟨hi', rfl⟩ | hi := Pool.get_add_eq_some.mp hi
          · obtain ⟨hj', -⟩ | hj := Pool.get_add_eq_some.mp hj
            · exact hi'.trans hj'.symm
            · exact absurd ⟨j, b, hj, heq.symm⟩ hnone
          · obtain ⟨-, rfl⟩ | hj := Pool.get_add_eq_some.mp hj
            · exact absurd ⟨i, a, hi, heq⟩ hnone
            · exact h.single i j a b hi hj heq
        requests := fun task request hrequest => { hsound.requests task request hrequest with } }
  rw [ApiCache.begin]
  dsimp only
  split
  next entry hfound =>
    refine hafter.returns ?_
    dsimp only
    rw [hframe]
    exact hknown entry hfound
  next => exact hafter

theorem hasYoungRequest_eq_false (h : c.AllAged url) : c.hasYoungRequest url = false := by
  rw [hasYoungRequest, List.any_eq_false]
  intro task _
  rw [Bool.not_eq_true, Option.any_eq_false]
  intro request hrequest
  rw [Bool.and_eq_false_iff, Bool.and_eq_false_iff]
  by_cases heq : request.url = url
  · cases hfailed : request.failed with
    | true => exact .inl (.inr rfl)
    | false =>
      have haged : stalenessLimitMs < c.clock - request.startedAt := h task request hrequest heq hfailed
      exact .inr (decide_eq_false (by omega))
  · exact .inl (.inl (beq_false_of_ne heq))

theorem Sound.send {cached : Option (ApiCacheEntry δ)} (h : c.Sound)
    (hnone : ¬ c.lookups.Has fun lookup => lookup.url = url) (haged : c.AllAged url)
    (hcached : ∀ entry, cached = some entry → Known c.history url entry) : (c.send url cached).Sound := by
  have hknown : Known c.history url (pending cached c.requests.next c.clock) := by
    cases cached with
    | none => exact ⟨Nat.zero_le _, fun _ hf => by cases hf⟩
    | some entry => exact hcached entry rfl
  have hgrows (e : ApiCacheEntry δ) (other : Text) (he : Known c.history other e) :
      Known (c.send url cached).history other e := by
    refine ⟨?_, he.2⟩
    rw [ApiCache.send]
    dsimp only
    rw [Function.update_apply]
    split
    next heq =>
      have hle := heq ▸ he.1
      have hlatest := h.latest url
      omega
    next => exact he.1
  exact {
    clock := h.clock
    memory := fun other e he => by
      rw [ApiCache.send] at he
      dsimp only at he
      rw [Function.update_apply] at he
      split at he
      next heq =>
        rw [← Option.some.inj he, heq]
        exact hgrows _ url hknown
      next => exact hgrows e other (h.memory other e he)
    snapshots := fun other snapshot hsnapshot => hgrows _ other (h.snapshots other snapshot hsnapshot)
    lookups := fun task lookup hlookup => by
      obtain ⟨hold, hentry⟩ := h.lookups task lookup hlookup
      refine ⟨fun n request hrequest heq hfailed => ?_, fun e he => ⟨(hentry e he).1, hgrows e _ (hentry e he).2⟩⟩
      obtain ⟨-, rfl⟩ | hrequest := Pool.get_add_eq_some.mp hrequest
      · exact absurd ⟨task, lookup, hlookup, heq.symm⟩ hnone
      · exact hold n request hrequest heq hfailed
    single := h.single
    requests := fun task request hrequest => by
      obtain ⟨rfl, rfl⟩ | hrequest := Pool.get_add_eq_some.mp hrequest
      · exact {
          latest := by
            rw [ApiCache.send]
            dsimp only
            rw [Function.update_self]
          started := h.clock
          young := fun _ => by
            refine .inr ⟨?_, pending cached c.requests.next c.clock, ?_, rfl, rfl⟩
            · rw [ApiCache.send]
              dsimp only
              rw [Function.update_self]
            · rw [ApiCache.send]
              dsimp only
              rw [Function.update_self]
          known := fun _ _ => ⟨h.invalidated url, fun e he => hgrows e url (hcached e he)⟩ }
      · have hsent := h.requests task request hrequest
        have hlt := Pool.lt_next hrequest
        have hsame (hne : request.url ≠ url) : (c.send url cached).history.latest request.url = c.history.latest request.url := by
          rw [ApiCache.send]
          dsimp only
          rw [Function.update_of_ne hne]
        have hupdated : (c.send url cached).history.latest url = c.requests.next + 1 := by
          rw [ApiCache.send]
          dsimp only
          rw [Function.update_self]
        exact {
          latest := by
            by_cases heq : request.url = url
            · rw [heq, hupdated]
              omega
            · rw [hsame heq]
              exact hsent.latest
          started := hsent.started
          young := fun hfailed => by
            by_cases heq : request.url = url
            · exact .inl (haged task request hrequest heq hfailed)
            · refine (hsent.young hfailed).imp_right fun ⟨hlatest, e, he, hpromise⟩ => ⟨?_, e, ?_, hpromise⟩
              · rw [hsame heq]
                exact hlatest
              · rw [ApiCache.send]
                dsimp only
                rw [Function.update_of_ne heq]
                exact he
          known := fun hfailed hlatest => by
            by_cases heq : request.url = url
            · rw [heq, hupdated] at hlatest
              omega
            · rw [hsame heq] at hlatest
              obtain ⟨hinvalidated, hknown⟩ := hsent.known hfailed hlatest
              exact ⟨hinvalidated, fun e he => hgrows e _ (hknown e he)⟩ }
    latest := fun other => by
      rw [ApiCache.send]
      dsimp only
      rw [Function.update_apply]
      split
      · exact Nat.le_refl _
      · exact Nat.le_succ_of_le (h.latest other)
    invalidated := fun other => Nat.le_succ_of_le (h.invalidated other)
    crowded := by
      rw [ApiCache.send]
      dsimp only
      rw [h.crowded, hasYoungRequest_eq_false haged]
      rfl
    overtaken := h.overtaken
    returned := h.returned }

theorem Sound.lookedUp (h : c.Sound) (task : Nat) : (c.lookedUp task).Sound := by
  rw [ApiCache.lookedUp]
  split
  next => exact h
  next lookup hlookup =>
    obtain ⟨haged, hcached⟩ := h.lookups task lookup hlookup
    split
    next stored _ hstored =>
      obtain ⟨hpromise, hknown⟩ := hcached stored hstored
      have hset : ((c.setMemory lookup.url stored).returns lookup.url stored).Sound :=
        (h.setMemory hknown haged).returns hknown
      obtain ⟨returned, hframe⟩ := returns_frame (c.setMemory lookup.url stored) lookup.url stored
      rw [hframe] at hset ⊢
      have hold (n : Nat) (l : Lookup δ) (hl : (c.lookups.change task fun _ =>
          if lookup.fetching then some { lookup with stored := false } else none).get n = some l) :
          ∃ old, c.lookups.get n = some old ∧ old.url = l.url ∧ old.cached = l.cached := by
        obtain ⟨rfl, old, hold, hl⟩ | ⟨-, hl⟩ := Pool.get_change_eq_some.mp hl
        · rw [Option.ite_none_right_eq_some] at hl
          rw [← Option.some.inj hl.2]
          exact ⟨lookup, hlookup, rfl, rfl⟩
        · exact ⟨l, hl, rfl, rfl⟩
      exact {
        hset with
        lookups := fun n l hl => by
          obtain ⟨old, hget, hurl, hcached⟩ := hold n l hl
          rw [← hurl, ← hcached]
          exact h.lookups n old hget
        single := fun i j a b hi hj heq => by
          obtain ⟨a', ha, hurl, -⟩ := hold i a hi
          obtain ⟨b', hb, hurl', -⟩ := hold j b hj
          exact h.single i j a' b' ha hb (hurl.trans (heq.trans hurl'.symm))
        requests := fun n request hrequest => { hset.requests n request hrequest with } }
    next cached _ _ =>
      have hended : ({ c with lookups := c.lookups.drop task } : ApiCache δ).Sound := {
        h with
        lookups := fun n l hl => h.lookups n l (Pool.get_drop_eq_some.mp hl).2
        single := fun i j a b hi hj =>
          h.single i j a b (Pool.get_drop_eq_some.mp hi).2 (Pool.get_drop_eq_some.mp hj).2
        requests := fun n request hrequest => { h.requests n request hrequest with } }
      refine hended.send ?_ haged fun entry hentry => (hcached entry hentry).2
      intro ⟨n, other, hother, heq⟩
      obtain ⟨hne, hother⟩ := Pool.get_drop_eq_some.mp hother
      exact hne (h.single n task other lookup hother hlookup heq)

theorem writeSnapshot_history (c : ApiCache δ) (url : Text) (entry : ApiCacheEntry δ) :
    (c.writeSnapshot p url entry).history = c.history := by
  rw [writeSnapshot]
  repeat' split
  all_goals rfl

theorem Sound.writeSnapshot (h : c.Sound) (hknown : Known c.history url entry) : (c.writeSnapshot p url entry).Sound := by
  rw [ApiCache.writeSnapshot]
  split
  next => exact h
  next data hdata =>
    split
    next =>
      exact {
        h with
        snapshots := fun other snapshot hsnapshot => by
          dsimp only at hsnapshot
          rw [Function.update_apply] at hsnapshot
          split at hsnapshot
          next heq =>
            rw [← Option.some.inj hsnapshot, heq]
            exact ⟨Nat.zero_le _, fun _ hd => Option.some.inj hd ▸ hknown.2 data hdata⟩
          next => exact h.snapshots other snapshot hsnapshot
        requests := fun task request hrequest => { h.requests task request hrequest with } }
    next => exact h

/-- The last request of an address writes what it has got. -/
theorem Sound.writeApiCache {task origin : Nat} {request : ApiRequest δ} {data : δ} {etag : Option Text} (h : c.Sound)
    (hlatest : task + 1 = c.history.latest request.url)
    (hbody : c.history.invalidated request.url ≤ origin ∧ ⟨request.url, origin, data, etag⟩ ∈ c.history.sent) :
    (c.writeApiCache p task request.url data etag origin).Sound := by
  have hknown : Known c.history request.url ⟨some data, etag, c.clock, none, none, origin, task + 1⟩ :=
    ⟨Nat.le_of_eq hlatest, fun _ hdata => Option.some.inj hdata ▸ hbody⟩
  have hovertaken : ((c.memory request.url).any fun old => old.data.isSome && decide (task + 1 < old.writer)) = false := by
    rw [Option.any_eq_false]
    intro old hold
    have hle := (h.memory request.url old hold).1
    exact Bool.and_eq_false_iff.mpr (.inr (decide_eq_false (by omega)))
  rw [ApiCache.writeApiCache]
  dsimp only
  rw [hovertaken, Bool.or_false]
  have hwritten : ({ c.setMemory request.url ⟨some data, etag, c.clock, none, none, origin, task + 1⟩ with
      requests := c.requests.drop task
      history := c.history } : ApiCache δ).Sound := {
    h with
    memory := fun url e he => by
      rw [ApiCache.setMemory] at he
      dsimp only at he
      rw [Function.update_apply] at he
      split at he
      next heq =>
        rw [← Option.some.inj he, heq]
        exact hknown
      next => exact h.memory url e he
    lookups := fun n l hl =>
      ⟨fun n request hget => (h.lookups _ l hl).1 n request (Pool.get_drop_eq_some.mp hget).2, (h.lookups n l hl).2⟩
    requests := fun n other hother => by
      obtain ⟨hne, hother⟩ := Pool.get_drop_eq_some.mp hother
      have hsent := h.requests n other hother
      exact {
        hsent with
        young := fun hfailed => by
          refine (hsent.young hfailed).imp_right fun ⟨hlast, e, he, hpromise⟩ => ⟨hlast, e, ?_, hpromise⟩
          have hother : other.url ≠ request.url := fun heq => hne (by rw [heq] at hlast; omega)
          rw [ApiCache.setMemory]
          dsimp only
          rw [Function.update_of_ne hother]
          exact he } }
  refine (hwritten.writeSnapshot hknown).returns ?_
  rw [writeSnapshot_history]
  exact hknown

theorem Sound.fail (h : c.Sound) (task : Nat) : (c.fail task).Sound := {
  h with
  lookups := fun n l hl => by
    refine ⟨fun m request hget heq hfailed => ?_, (h.lookups n l hl).2⟩
    obtain ⟨-, old, -, hnew⟩ | ⟨-, hold⟩ := Pool.get_change_eq_some.mp hget
    · rw [← Option.some.inj hnew] at hfailed
      cases hfailed
    · exact (h.lookups n l hl).1 m request hold heq hfailed
  requests := fun n request hget => by
    obtain ⟨rfl, old, hold, hnew⟩ | ⟨-, hold⟩ := Pool.get_change_eq_some.mp hget
    · rw [← Option.some.inj hnew]
      exact {
        h.requests _ old hold with
        young := fun hfailed => by cases hfailed
        known := fun hfailed => by cases hfailed }
    · exact { h.requests n request hold with } }

theorem Known.receive {h : ApiHistory δ} (hknown : Known h url entry) (body : SentBody δ) :
    Known { h with sent := body :: h.sent } url entry :=
  ⟨hknown.1, fun data hdata => ⟨(hknown.2 data hdata).1, List.mem_cons_of_mem _ (hknown.2 data hdata).2⟩⟩

theorem Sound.receive (h : c.Sound) (body : SentBody δ) :
    ({ c with history := { c.history with sent := body :: c.history.sent } } : ApiCache δ).Sound := {
  h with
  memory := fun url entry hentry => (h.memory url entry hentry).receive body
  snapshots := fun url snapshot hsnapshot => (h.snapshots url snapshot hsnapshot).receive body
  lookups := fun task lookup hlookup => ⟨(h.lookups task lookup hlookup).1, fun entry hentry =>
    ⟨((h.lookups task lookup hlookup).2 entry hentry).1, ((h.lookups task lookup hlookup).2 entry hentry).2.receive body⟩⟩
  requests := fun task request hrequest => {
    h.requests task request hrequest with
    known := fun hfailed hlatest => by
      obtain ⟨hinvalidated, hknown⟩ := (h.requests task request hrequest).known hfailed hlatest
      exact ⟨hinvalidated, fun entry hentry => (hknown entry hentry).receive body⟩ }
  returned := fun r hr => ⟨List.mem_cons_of_mem _ (h.returned r hr).1, (h.returned r hr).2⟩ }

theorem Sound.answered (h : c.Sound) {task : Nat} {answer : ApiAnswer δ} (hapart : c.Apart p (.answered task answer)) :
    (c.answered p task answer).Sound := by
  rw [ApiCache.answered]
  split
  next => exact h
  next request hrequest =>
    split
    next => exact h
    next hfailed =>
      have hfailed : request.failed = false := Bool.not_eq_true _ ▸ hfailed
      split
      next data etag =>
        have hlatest := hapart request hrequest
        have hinvalidated := ((h.requests task request hrequest).known hfailed hlatest).1
        exact (h.receive _).writeApiCache hlatest ⟨hinvalidated, List.mem_cons_self⟩
      next =>
        have hlatest := hapart request hrequest
        have hcached := ((h.requests task request hrequest).known hfailed hlatest).2
        split
        next => exact h.fail task
        next cached hsome =>
          split
          next => exact h.fail task
          next =>
            have hcurrent : Known c.history request.url
                (((c.memory request.url).filter fun live => live.data.isSome).getD cached) := by
              cases hlive : (c.memory request.url).filter fun live => live.data.isSome with
              | none => exact hcached cached hsome
              | some live => exact h.memory _ live (Option.filter_eq_some_iff.mp hlive).1
            dsimp only
            split
            next => exact h.fail task
            next data hdata => exact h.writeApiCache hlatest (hcurrent.2 data hdata)
      next => exact h.fail task

theorem Sound.dropRequest (h : c.Sound) (task : Nat) : ({ c with requests := c.requests.drop task } : ApiCache δ).Sound := {
  h with
  lookups := fun n lookup hlookup => ⟨fun m request hget => (h.lookups n lookup hlookup).1 m request
    (Pool.get_drop_eq_some.mp hget).2, (h.lookups n lookup hlookup).2⟩
  requests := fun n request hget => { h.requests n request (Pool.get_drop_eq_some.mp hget).2 with } }

theorem Sound.settled (h : c.Sound) (task : Nat) : (c.settled p task).Sound := by
  rw [ApiCache.settled]
  split
  next => exact h
  next request hrequest =>
    split
    next hfailed =>
      have hdropped := h.dropRequest task
      dsimp only
      split
      next => exact hdropped
      next next hnext =>
        have hknown := h.memory request.url next hnext
        split
        next hpromise =>
          have haged : ({ c with requests := c.requests.drop task } : ApiCache δ).AllAged request.url :=
            fun n other hother heq hyoung => by
              obtain ⟨hne, hother⟩ := Pool.get_drop_eq_some.mp hother
              refine ((h.requests n other hother).young hyoung).resolve_right fun ⟨_, e, he, hwaits, _⟩ => ?_
              rw [heq, hnext, Option.some.injEq] at he
              rw [← he, hpromise, Option.some.injEq] at hwaits
              exact hne hwaits.symm
          exact (hdropped.setMemory (known_ended hknown) haged).writeSnapshot hknown
        next => exact hdropped
    next => exact h

theorem contains_of_isPrefixOf {url value : Text} (h : value.isPrefixOf url = true) : contains url value = true := by
  rw [contains]
  cases url with
  | nil => 
    rw [List.isPrefixOf_iff_prefix, List.prefix_nil] at h
    rw [h]
    rfl
  | cons a url =>
    rw [splitOnce, if_pos h]
    rfl

/-- Where the cache forgets an address, so do the snapshots. -/
theorem coversSnapshot_of_coversMemory {matching : ApiMatch} (h : matching.coversMemory url = true) :
    matching.coversSnapshot url = true := by
  cases matching with
  | all => rfl
  | text value =>
    rw [ApiMatch.coversMemory, Bool.or_eq_true, Bool.or_eq_true, beq_iff_eq] at h
    rw [ApiMatch.coversSnapshot, Bool.or_eq_true]
    obtain (hempty | rfl) | hstarts := h
    · exact .inl hempty
    · exact .inr (contains_of_isPrefixOf (List.isPrefixOf_iff_prefix.mpr (List.prefix_refl url)))
    · exact .inr (contains_of_isPrefixOf hstarts)
  | «where» test => exact h

theorem Sound.invalidate (h : c.Sound) {matching : ApiMatch} (hapart : c.Apart p (.invalidate matching)) :
    (c.invalidate matching).Sound := by
  have hother {url : Text} {entry : ApiCacheEntry δ} (hnot : matching.coversMemory url = false)
      (hknown : Known c.history url entry) : Known (c.invalidate matching).history url entry := by
    refine ⟨hknown.1, fun data hdata => ?_⟩
    rw [ApiCache.invalidate]
    dsimp only
    rw [if_neg (Bool.eq_false_iff.mp hnot)]
    exact hknown.2 data hdata
  exact {
    h with
    memory := fun url entry hentry => by
      rw [ApiCache.invalidate] at hentry
      dsimp only at hentry
      split at hentry
      next => cases hentry
      next hnot => exact hother (Bool.not_eq_true _ ▸ hnot) (h.memory url entry hentry)
    snapshots := fun url snapshot hsnapshot => by
      rw [ApiCache.invalidate] at hsnapshot
      dsimp only at hsnapshot
      split at hsnapshot
      next => cases hsnapshot
      next hnot =>
        refine hother (Bool.eq_false_iff.mpr fun hcovers => hnot ?_) (h.snapshots url snapshot hsnapshot)
        exact coversSnapshot_of_coversMemory hcovers
    lookups := fun task lookup hlookup => ⟨(h.lookups task lookup hlookup).1, fun entry hentry =>
      ⟨((h.lookups task lookup hlookup).2 entry hentry).1,
        hother (hapart.1 task lookup hlookup) ((h.lookups task lookup hlookup).2 entry hentry).2⟩⟩
    requests := fun task request hrequest => by
      have hsent := h.requests task request hrequest
      exact {
        hsent with
        young := fun hfailed => (hsent.young hfailed).imp_right fun ⟨hlatest, e, he, hpromise⟩ => by
          refine ⟨hlatest, e, ?_, hpromise⟩
          rw [ApiCache.invalidate]
          dsimp only
          rw [if_neg (Bool.eq_false_iff.mp (hapart.2 task request hrequest hfailed hlatest))]
          exact he
        known := fun hfailed hlatest => by
          have hnot := hapart.2 task request hrequest hfailed hlatest
          obtain ⟨hinvalidated, hknown⟩ := hsent.known hfailed hlatest
          refine ⟨?_, fun entry hentry => hother hnot (hknown entry hentry)⟩
          rw [ApiCache.invalidate]
          dsimp only
          rw [if_neg (Bool.eq_false_iff.mp hnot)]
          exact hinvalidated }
    invalidated := fun url => by
      rw [ApiCache.invalidate]
      dsimp only
      split
      · exact Nat.le_refl _
      · exact h.invalidated url }

theorem Sound.tick (h : c.Sound) (ms : Nat) : ({ c with clock := c.clock + ms } : ApiCache δ).Sound := by
  have haged (request : ApiRequest δ) (hold : c.Aged request) :
      ({ c with clock := c.clock + ms } : ApiCache δ).Aged request := by
    rw [Aged] at hold ⊢
    dsimp only
    omega
  exact {
    h with
    clock := Nat.le_add_right_of_le h.clock
    lookups := fun task lookup hlookup => ⟨fun n request hrequest heq hfailed =>
      haged request ((h.lookups task lookup hlookup).1 n request hrequest heq hfailed), (h.lookups task lookup hlookup).2⟩
    requests := fun task request hrequest => {
      h.requests task request hrequest with
      young := fun hfailed => ((h.requests task request hrequest).young hfailed).imp_left (haged request) } }

theorem Sound.step {event : ApiEvent δ} (hapart : c.Apart p event) (h : c.Sound) : (c.step p event).Sound := by
  cases event with
  | tick ms => exact h.tick ms
  | read url => exact h.read url
  | peek url => exact h.begin hapart
  | fetch url => exact h.begin hapart
  | lookedUp task => exact h.lookedUp task
  | answered task answer => exact h.answered hapart
  | settled task => exact h.settled task
  | invalidate matching => exact h.invalidate hapart

/-- Where calls, invalidations and answers of an address keep apart, the cache is coherent. -/
theorem cache_coherent (p : ApiUrls) (start : Nat) (snapshots : List (Text × OfflineApiSnapshot δ))
    (events : List (ApiEvent δ)) (hevents : Each (ApiCache.step p) (Apart p) (new start snapshots) events) :
    Throughout (ApiCache.step p) (Coherent p) (new start snapshots) events :=
  (throughout_of_each (fun _ _ hapart hsound => Sound.step hapart hsound) (sound_new start snapshots) hevents).imp
    fun _ hsound => hsound.coherent

/-- Reads addresses whose path ends at a question mark, without an `auth` parameter. -/
def plainUrls : ApiUrls where
  pathname url := some (url.takeWhile (· != '?'))
  auth _ := some none

def listUrl : Text := "/api/user/my-list".toList

/-- A list is read twice, and the second answer says that it has not changed. -/
theorem cache_coherent_unmodified :
    Throughout (ApiCache.step plainUrls) (Coherent plainUrls) (new 0 [])
      [.fetch listUrl, .lookedUp 0, .answered 0 (.ok true (some ['e'])), .fetch listUrl, .lookedUp 1,
        .answered 1 .notModified] := by
  refine cache_coherent plainUrls 0 [] _ ⟨fun _ => Pool.not_has_empty, trivial, fun request hrequest => ?_, fun _ => ?_,
    trivial, fun request hrequest => ?_, trivial⟩
  · cases hrequest
    rfl
  · intro ⟨n, lookup, hlookup, _⟩
    obtain ⟨hne, hadded⟩ := Pool.get_drop_eq_some.mp hlookup
    obtain ⟨hn, -⟩ | hnone := Pool.get_add_eq_some.mp hadded
    · exact hne hn
    · cases hnone
  · cases hrequest
    rfl

/-- The list is invalidated while it is read, and what was read is cached after that. -/
theorem invalidated_body_cached :
    ¬ Throughout (ApiCache.step plainUrls) (Coherent plainUrls) (new 0 [])
      [.fetch listUrl, .lookedUp 0, .invalidate .all, .answered 0 (.ok true (some ['e']))] := by
  intro h
  have hmemory := h.last.memory listUrl ⟨some true, some ['e'], 1, none, none, 1, 1⟩ true (by decide +kernel) rfl
  exact absurd hmemory.1 (by decide +kernel)

end ApiCache

end StreamArena.Mobile
