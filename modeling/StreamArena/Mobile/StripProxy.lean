import StreamArena.Library.Runs
import StreamArena.LiveHls.Worker

/-! The relay that a device plays through (mobile/src/video/strip-proxy.ts): ids that stand
for upstream addresses, a few cached segments, and the sessions that both belong to. -/
namespace StreamArena.Mobile.StripProxy
open AsciiText Runs
open LiveHls.Worker (jsTrim)

abbrev Bytes := List UInt8

structure Upstream where
  url : Text
  ref : Text
  deriving DecidableEq

/-- The kind of a path of the relay. -/
inductive Kind where
  | playlist | segment | other
  deriving DecidableEq

/-- A request with what its path names: an upstream address of its own, or the number in its
id, if it has one. -/
structure Request where
  kind : Kind
  u : Option Text
  ref : Text
  id : Option Int

/-- Bytes of an upstream, with the session they were fetched in. -/
structure Segment where
  bytes : Bytes
  generation : Nat

/-- An id that was given out for an upstream, and the session that it was given out in. -/
structure Minted where
  id : Int
  url : Text
  ref : Text
  generation : Nat
  deriving DecidableEq

inductive Effect where
  | playlist (text : Text)
  | segment (segment : Segment)
  | caches | mints | unavailable

def Effect.isReport : Effect → Bool
  | unavailable => true
  | playlist _ | segment _ | caches | mints => false

/-- What a call has done: its request, the session it came in and the one it was done in. -/
structure Act where
  request : Request
  arrival : Nat
  generation : Nat
  effect : Effect

/-- A call of `serve` between its awaits. -/
inductive Task where
  | idle
  | fetching (request : Request) (generation : Nat) (referer : Text)

structure Proxy where
  segTable : Int → Option Upstream
  segIndex : Text → Option Int
  segSeq : Nat
  segCache : List (Int × Segment)
  sessionGeneration : Nat
  unavailableGeneration : Option Nat
  serverPort : Option Nat
  tasks : Nat → Task
  minted : List Minted
  acts : List Act

def segCacheMax : Nat := 3

inductive Event where
  | begin
  | stop
  | listen (port : Nat)
  | mint (url ref : Text)
  | serve (task : Nat) (request : Request)
  | playlist (task : Nat) (text baseUrl : Text)
  | segment (task : Nat) (bytes : Bytes)
  | fails (task : Nat) (sourceUnavailable : Bool)

/-! Texts. -/

def segKey (url ref : Text) : Text := ref ++ '\n' :: url

/-- The lines of a text, with `\r\n` and `\n` between them. -/
def splitLines (text : Text) : List Text :=
  let pieces := text.splitOn '\n'
  pieces.dropLast.map (fun line => if line.getLast? = some '\r' then line.dropLast else line) ++
    pieces.getLast?.toList

/-- The first `URI="…"` of a line that is not empty: what is before, in and after the quotes. -/
def findUri : Text → Option (Text × Text × Text)
  | [] => none
  | c :: rest =>
    let inner := (c :: rest).drop 5
    let uri := inner.takeWhile (· != '"')
    if startsWith (c :: rest) "URI=\"".toList ∧ uri ≠ [] ∧ inner.dropWhile (· != '"') ≠ [] then
      some ("URI=\"".toList, uri, inner.dropWhile (· != '"'))
    else (findUri rest).map fun parts => (c :: parts.1, parts.2)

/-- `.m3u8` in any case, at the end of the address or before its query or fragment. -/
def isM3u8 : Text → Bool
  | [] => false
  | c :: rest =>
    (eqIgnoreAsciiCase ((c :: rest).take 5) ".m3u8".toList &&
      (((c :: rest).drop 5).head?.all fun d => d == '?' || d == '#')) || isM3u8 rest

def isTsSync (bytes : Bytes) (i : Nat) : Bool :=
  bytes[i]? == some 0x47 && bytes[i + 188]? == some 0x47 && bytes[i + 376]? == some 0x47

/-- Bytes behind a PNG signature start at the first sync byte that repeats. -/
def stripPngPrefix (bytes : Bytes) : Bytes :=
  if bytes.length < 8 ∨ bytes.take 4 ≠ [0x89, 0x50, 0x4e, 0x47] then bytes
  else
    let limit := min (bytes.length - 376) 65536
    match (List.range limit).find? fun i => 1 ≤ i && isTsSync bytes i with
    | some i => bytes.drop i
    | none => bytes

/-- The cache in the order of use, without an id. -/
def without (cache : List (Int × Segment)) (id : Int) : List (Int × Segment) :=
  cache.filter fun entry => entry.1 ≠ id

namespace Proxy

def initial : Proxy :=
  ⟨fun _ => none, fun _ => none, 0, [], 0, none, none, fun _ => .idle, [], []⟩

def segCacheGet (s : Proxy) (id : Int) : Option Segment × Proxy :=
  match s.segCache.lookup id with
  | some segment => (some segment, { s with segCache := without s.segCache id ++ [(id, segment)] })
  | none => (none, s)

def segCachePut (s : Proxy) (id : Int) (segment : Segment) : Proxy :=
  let cache := without s.segCache id ++ [(id, segment)]
  { s with segCache := cache.drop (cache.length - segCacheMax) }

def segId (s : Proxy) (url ref : Text) : Int × Proxy :=
  match s.segIndex (segKey url ref) with
  | some id => (id, { s with minted := ⟨id, url, ref, s.sessionGeneration⟩ :: s.minted })
  | none =>
    (s.segSeq, { s with
      segIndex := Function.update s.segIndex (segKey url ref) (some s.segSeq)
      segTable := Function.update s.segTable s.segSeq (some ⟨url, ref⟩)
      segSeq := s.segSeq + 1
      minted := ⟨s.segSeq, url, ref, s.sessionGeneration⟩ :: s.minted })

def resetSegState (s : Proxy) : Proxy :=
  { s with
    sessionGeneration := s.sessionGeneration + 1
    unavailableGeneration := none
    segTable := fun _ => none
    segIndex := fun _ => none
    segCache := [] }

def become (s : Proxy) (task : Nat) (state : Task) : Proxy :=
  { s with tasks := Function.update s.tasks task state }

def does (s : Proxy) (request : Request) (arrival : Nat) (effect : Effect) : Proxy :=
  { s with acts := ⟨request, arrival, s.sessionGeneration, effect⟩ :: s.acts }

def proxyUrl (s : Proxy) (port : Nat) (kind : Kind) (abs referer : Text) : Text × Proxy :=
  let (id, s) := s.segId abs referer
  ("http://127.0.0.1:".toList ++ (toString port).toList ++
    (if kind = .segment then "/s?id=".toList else "/m?mid=".toList) ++ (toString id).toList, s)

section playlist
variable (urls : Urls.Library)

def absolutize (u base : Text) : Text :=
  (((urls.parse base).bind fun base => urls.join base u).map urls.asStr).getD u

/-- A line of a playlist with its address sent through the relay, and whether the next address
is one of a playlist. -/
def rewriteLine (baseUrl referer : Text) (port : Nat) (s : Proxy) (nextIsPlaylist : Bool) (line : Text) :
    Text × Proxy × Bool :=
  let trimmed := jsTrim line
  if trimmed = [] then (line, s, nextIsPlaylist)
  else if startsWith trimmed ['#'] then
    let next := nextIsPlaylist || startsWith trimmed "#EXT-X-STREAM-INF".toList
    match findUri line with
    | some (before, uri, rest) =>
      let kind := if startsWith trimmed "#EXT-X-MEDIA".toList then .playlist else .segment
      let (url, s) := s.proxyUrl port kind (absolutize urls uri baseUrl) referer
      (before ++ url ++ rest, s, next)
    | none => (line, s, next)
  else
    let abs := absolutize urls trimmed baseUrl
    let kind := if nextIsPlaylist || isM3u8 abs then .playlist else .segment
    let (url, s) := s.proxyUrl port kind abs referer
    (url, s, false)

def rewriteLines (baseUrl referer : Text) (port : Nat) (s : Proxy) (nextIsPlaylist : Bool) :
    List Text → List Text × Proxy
  | [] => ([], s)
  | line :: lines =>
    let (out, s, next) := rewriteLine urls baseUrl referer port s nextIsPlaylist line
    let (outs, s) := rewriteLines baseUrl referer port s next lines
    (out :: outs, s)

def rewritePlaylist (s : Proxy) (text baseUrl referer : Text) (port : Nat) : Text × Proxy :=
  let (outs, s) := rewriteLines urls baseUrl referer port s false (splitLines text)
  (['\n'].intercalate outs, s)

/-- What a request stands for: the upstream of its id, or the one that it names. -/
def target (s : Proxy) (request : Request) : Option Upstream :=
  ((request.id.bind s.segTable).or (request.u.map fun u => ⟨u, request.ref⟩)).filter fun upstream =>
    upstream.url ≠ []

def serve (s : Proxy) (task : Nat) (request : Request) : Proxy :=
  match s.target request with
  | none => s
  | some upstream =>
    match request.kind with
    | .playlist => s.become task (.fetching request s.sessionGeneration upstream.ref)
    | .segment =>
      match (request.id.map s.segCacheGet).getD (none, s) with
      | (some segment, s) => s.does request s.sessionGeneration (.segment segment)
      | (none, s) => s.become task (.fetching request s.sessionGeneration upstream.ref)
    | .other => s

def servePlaylist (s : Proxy) (task : Nat) (request : Request) (generation : Nat)
    (referer text baseUrl : Text) : Proxy :=
  let s := s.become task .idle
  if generation ≠ s.sessionGeneration then s
  else
    let (playlist, s) := s.rewritePlaylist urls text baseUrl referer (s.serverPort.getD 0)
    (s.does request generation .mints).does request generation (.playlist playlist)

def serveSegment (s : Proxy) (task : Nat) (request : Request) (generation : Nat) (bytes : Bytes) : Proxy :=
  let s := s.become task .idle
  if generation ≠ s.sessionGeneration then s
  else
    let clean : Segment := ⟨stripPngPrefix bytes, generation⟩
    let s :=
      match request.id with
      | some id => (s.segCachePut id clean).does request generation .caches
      | none => s
    s.does request generation (.segment clean)

def serveFails (s : Proxy) (task : Nat) (request : Request) (generation : Nat) (sourceUnavailable : Bool) :
    Proxy :=
  let s := s.become task .idle
  if generation = s.sessionGeneration ∧ request.kind = .segment ∧ sourceUnavailable = true ∧
      s.unavailableGeneration ≠ some generation then
    { s.does request generation .unavailable with unavailableGeneration := some generation }
  else s

def step (s : Proxy) : Event → Proxy
  | .begin => s.resetSegState
  | .stop => { s.resetSegState with serverPort := none }
  | .listen port => { s with serverPort := some port }
  | .mint url ref => (s.segId url ref).2
  | .serve task request =>
    match s.tasks task with
    | .idle => s.serve task request
    | _ => s
  | .playlist task text baseUrl =>
    match s.tasks task with
    | .fetching request generation referer =>
      if request.kind = .playlist then s.servePlaylist urls task request generation referer text baseUrl
      else s
    | .idle => s
  | .segment task bytes =>
    match s.tasks task with
    | .fetching request generation _ =>
      if request.kind = .segment then s.serveSegment task request generation bytes else s
    | .idle => s
  | .fails task sourceUnavailable =>
    match s.tasks task with
    | .fetching request generation _ => s.serveFails task request generation sourceUnavailable
    | .idle => s

end playlist

/-- What is sent, cached, minted and reported belongs to the session that its request came in,
no id of an earlier session gets any of it, an id stands for one upstream, and a session is
reported at most once. -/
structure Isolated (s : Proxy) : Prop where
  acts : ∀ act ∈ s.acts, act.arrival = act.generation
  segments : ∀ act ∈ s.acts, ∀ segment, act.effect = .segment segment → segment.generation = act.generation
  requests : ∀ act ∈ s.acts, ∀ minted ∈ s.minted, act.request.id = some minted.id →
    act.generation ≤ minted.generation
  ids : ∀ minted ∈ s.minted, ∀ other ∈ s.minted, minted.id = other.id → minted.url = other.url
  once : ((s.acts.filter fun act => act.effect.isReport).map Act.generation).Nodup

/-- An address is given an id only if it is one, without line feeds, and a request that names
an upstream has no id that was given out in an earlier session. -/
def Apart (s : Proxy) : Event → Prop
  | .mint url _ => '\n' ∉ url
  | .serve _ request => request.u.isSome = true → ∀ id, request.id = some id → 0 ≤ id → id < s.segSeq →
      (s.segTable id).isSome = true
  | _ => True

/-- A request has no id of an earlier session. -/
def MayAct (s : Proxy) (request : Request) : Prop :=
  ∀ minted ∈ s.minted, request.id = some minted.id → s.sessionGeneration ≤ minted.generation

structure Sound (s : Proxy) : Prop where
  seq : ∀ minted ∈ s.minted, minted.id < s.segSeq ∧ 0 ≤ minted.id ∧ minted.generation ≤ s.sessionGeneration
  unique : ∀ minted ∈ s.minted, ∀ other ∈ s.minted, minted.id = other.id → minted = other
  table : ∀ id upstream, s.segTable id = some upstream →
    ⟨id, upstream.url, upstream.ref, s.sessionGeneration⟩ ∈ s.minted
  index : ∀ key id, s.segIndex key = some id → ∃ upstream, s.segTable id = some upstream ∧
    key = segKey upstream.url upstream.ref ∧ '\n' ∉ upstream.url
  cache : ∀ entry ∈ s.segCache, entry.2.generation = s.sessionGeneration
  tasks : ∀ task request generation referer, s.tasks task = .fetching request generation referer →
    generation ≤ s.sessionGeneration ∧ (generation = s.sessionGeneration → s.MayAct request)
  isolated : s.Isolated
  acts : ∀ act ∈ s.acts, act.generation ≤ s.sessionGeneration
  unavailable : ∀ act ∈ s.acts, act.effect = .unavailable → act.generation = s.sessionGeneration →
    s.unavailableGeneration = some s.sessionGeneration

variable {s : Proxy} {urls : Urls.Library}

theorem sound_initial : initial.Sound where
  seq _ h := by cases h
  unique _ h := by cases h
  table _ _ h := by cases h
  index _ _ h := by cases h
  cache _ h := by cases h
  tasks _ _ _ _ h := by cases h
  isolated := ⟨fun _ h => (by cases h), fun _ h => (by cases h), fun _ h => (by cases h),
    fun _ h => (by cases h), List.nodup_nil⟩
  acts _ h := by cases h
  unavailable _ h := by cases h

theorem Sound.reset (h : s.Sound) : s.resetSegState.Sound where
  seq minted hminted :=
    have hseq := h.seq minted hminted
    ⟨hseq.1, hseq.2.1, hseq.2.2.trans (Nat.le_succ _)⟩
  unique := h.unique
  table _ _ hnone := by cases hnone
  index _ _ hnone := by cases hnone
  cache _ hnone := by cases hnone
  tasks task request generation referer htask := by
    have hle := (h.tasks task request generation referer htask).1
    refine ⟨hle.trans (Nat.le_succ _), fun heq => ?_⟩
    have hnext : generation = s.sessionGeneration + 1 := heq
    omega
  isolated := ⟨h.isolated.acts, h.isolated.segments, h.isolated.requests, h.isolated.ids, h.isolated.once⟩
  acts act hact := (h.acts act hact).trans (Nat.le_succ _)
  unavailable act hact _ heq := by
    have hle := h.acts act hact
    have hnext : act.generation = s.sessionGeneration + 1 := heq
    omega

/-- Keys of addresses without line feeds tell the upstreams apart. -/
theorem segKey_injective {url url' ref ref' : Text} (hurl : '\n' ∉ url) (hurl' : '\n' ∉ url')
    (h : segKey url ref = segKey url' ref') : url = url' ∧ ref = ref' := by
  obtain ⟨hr, hu⟩ | ⟨w, -, hw⟩ | ⟨w, -, hw⟩ := Separated.append_cons_eq_iff.mp h
  · exact ⟨hu, hr⟩
  · exact absurd (hw ▸ List.mem_append_right w List.mem_cons_self) hurl
  · exact absurd (hw ▸ List.mem_append_right w List.mem_cons_self) hurl'

/-- Recording a new id, or an old one again. -/
theorem Sound.record {minted : Minted} {seq : Nat} (h : s.Sound) (hseq : s.segSeq ≤ seq)
    (hid : minted.id < seq ∧ 0 ≤ minted.id) (hgeneration : minted.generation = s.sessionGeneration)
    (hunique : ∀ other ∈ s.minted, minted.id = other.id → minted = other) {table : Int → Option Upstream}
    {index : Text → Option Int}
    (htable : ∀ id upstream, table id = some upstream →
      ⟨id, upstream.url, upstream.ref, s.sessionGeneration⟩ ∈ minted :: s.minted)
    (hindex : ∀ key id, index key = some id → ∃ upstream, table id = some upstream ∧
      key = segKey upstream.url upstream.ref ∧ '\n' ∉ upstream.url) :
    ({ s with segIndex := index, segTable := table, segSeq := seq, minted := minted :: s.minted } : Proxy).Sound where
  seq other hother := by
    obtain rfl | hother := List.mem_cons.mp hother
    · exact ⟨hid.1, hid.2, hgeneration.le⟩
    · have hold := h.seq other hother
      exact ⟨by dsimp only; omega, hold.2.1, hold.2.2⟩
  unique one hone other hother heq := by
    obtain rfl | hone' := List.mem_cons.mp hone
    · obtain rfl | hother' := List.mem_cons.mp hother
      · rfl
      · exact hunique other hother' heq
    · obtain rfl | hother' := List.mem_cons.mp hother
      · exact (hunique one hone' heq.symm).symm
      · exact h.unique one hone' other hother' heq
  table := htable
  index := hindex
  cache := h.cache
  tasks task request generation referer htask := by
    obtain ⟨hle, hmay⟩ := h.tasks task request generation referer htask
    refine ⟨hle, fun heq other hother hrequest => ?_⟩
    obtain rfl | hother := List.mem_cons.mp hother
    · exact hgeneration.ge
    · exact hmay heq other hother hrequest
  isolated := by
    refine ⟨h.isolated.acts, h.isolated.segments, fun act hact other hother hrequest => ?_,
      fun one hone other hother heq => ?_, h.isolated.once⟩
    · obtain rfl | hother := List.mem_cons.mp hother
      · exact (h.acts act hact).trans hgeneration.ge
      · exact h.isolated.requests act hact other hother hrequest
    · obtain rfl | hone' := List.mem_cons.mp hone
      · obtain rfl | hother' := List.mem_cons.mp hother
        · rfl
        · rw [hunique other hother' heq]
      · obtain rfl | hother' := List.mem_cons.mp hother
        · rw [hunique one hone' heq.symm]
        · exact h.isolated.ids one hone' other hother' heq
  acts := h.acts
  unavailable := h.unavailable

theorem Sound.segId {url ref : Text} (h : s.Sound) (hurl : '\n' ∉ url) : (s.segId url ref).2.Sound := by
  rw [Proxy.segId]
  split
  next id hid =>
    obtain ⟨upstream, hupstream, hkey, hfree⟩ := h.index _ id hid
    obtain ⟨rfl, rfl⟩ := segKey_injective hurl hfree hkey
    have hminted := h.table id upstream hupstream
    have hold := h.seq _ hminted
    exact h.record (Nat.le_refl _) ⟨hold.1, hold.2.1⟩ rfl (fun other hother heq => h.unique _ hminted other hother heq)
      (fun id' upstream' htable => List.mem_cons_of_mem _ (h.table id' upstream' htable)) h.index
  next hnone =>
    refine h.record (Nat.le_succ _) ⟨by simp, by simp⟩ rfl (fun other hother heq => ?_)
      (fun id upstream htable => ?_) fun key id hkey => ?_
    · have hold := h.seq other hother
      have hid : (s.segSeq : Int) = other.id := heq
      omega
    · by_cases hid : id = s.segSeq
      · subst hid
        rw [Function.update_self] at htable
        cases htable
        exact List.mem_cons_self
      · rw [Function.update_of_ne hid] at htable
        exact List.mem_cons_of_mem _ (h.table id upstream htable)
    · by_cases hsame : key = segKey url ref
      · subst hsame
        rw [Function.update_self] at hkey
        cases hkey
        exact ⟨⟨url, ref⟩, Function.update_self .., rfl, hurl⟩
      · rw [Function.update_of_ne hsame] at hkey
        obtain ⟨upstream, htable, hrest⟩ := h.index key id hkey
        have hold := h.seq _ (h.table id upstream htable)
        have hne : id ≠ s.segSeq := by
          have hlt : id < s.segSeq := hold.1
          omega
        exact ⟨upstream, (Function.update_of_ne hne ..).trans htable, hrest⟩

theorem MayAct.segId {request : Request} {url ref : Text} (h : s.MayAct request) :
    (s.segId url ref).2.MayAct request ∧ (s.segId url ref).2.sessionGeneration = s.sessionGeneration := by
  rw [Proxy.segId]
  split
  all_goals
    refine ⟨fun minted hminted hid => ?_, rfl⟩
    obtain rfl | hminted' := List.mem_cons.mp hminted
    · exact Nat.le_refl _
    · exact h minted hminted' hid

/-! Rewriting a playlist gives out ids, and nothing else. -/

theorem lineFeed_notMem_absolutize {u base : Text} (hu : '\n' ∉ u) : '\n' ∉ absolutize urls u base := by
  rw [absolutize]
  cases h : ((urls.parse base).bind fun base => urls.join base u).map urls.asStr with
  | none => exact hu
  | some abs =>
    obtain ⟨url, -, rfl⟩ := Option.map_eq_some_iff.mp h
    intro hmem
    exact absurd (urls.asStr_printable url _ hmem) (by decide)

theorem findUri_subset {line before uri rest : Text} (h : findUri line = some (before, uri, rest)) :
    uri ⊆ line := by
  induction line generalizing before with
  | nil => cases h
  | cons c line ih =>
    rw [findUri] at h
    split at h
    next =>
      cases h
      intro d hd
      exact List.mem_of_mem_drop ((List.takeWhile_sublist _).subset hd)
    next =>
      obtain ⟨⟨before', uri', rest'⟩, hparts, he⟩ := Option.map_eq_some_iff.mp h
      cases he
      exact fun d hd => List.mem_cons_of_mem c (ih hparts hd)

theorem jsTrim_subset (line : Text) : jsTrim line ⊆ line :=
  fun _ hd => (List.dropWhile_sublist _).subset ((List.rdropWhile_prefix _ _).subset hd)

theorem splitLines_lineFeed {text line : Text} (h : line ∈ splitLines text) : '\n' ∉ line := by
  have hpieces : ∀ piece ∈ text.splitOn '\n', '\n' ∉ piece := fun _ => Separated.notMem_of_mem_splitOn
  obtain h | h := List.mem_append.mp h
  · obtain ⟨piece, hpiece, rfl⟩ := List.mem_map.mp h
    have hfree := hpieces piece (List.dropLast_subset _ hpiece)
    split
    next => exact fun hmem => hfree (List.dropLast_subset _ hmem)
    next => exact hfree
  · exact hpieces line (List.mem_of_getLast? (Option.mem_toList.mp h))

/-- What giving out an id keeps, rewriting a playlist keeps. -/
theorem rewriteLines_induct {P : Proxy → Prop}
    (hsegId : ∀ s url ref, '\n' ∉ url → P s → P (s.segId url ref).2) {baseUrl referer : Text} {port : Nat}
    {lines : List Text} (hlines : ∀ line ∈ lines, '\n' ∉ line) {nextIsPlaylist : Bool} (hs : P s) :
    P (rewriteLines urls baseUrl referer port s nextIsPlaylist lines).2 := by
  induction lines generalizing s nextIsPlaylist with
  | nil => exact hs
  | cons line lines ih =>
    have hline := hlines line List.mem_cons_self
    have hrest : ∀ line ∈ lines, '\n' ∉ line := fun line hmem => hlines line (List.mem_cons_of_mem _ hmem)
    have hstep : P (rewriteLine urls baseUrl referer port s nextIsPlaylist line).2.1 := by
      rw [rewriteLine]
      dsimp only
      split
      next => exact hs
      next =>
        split
        next =>
          split
          next before uri rest huri =>
            have hfree : '\n' ∉ uri := fun hmem => hline (findUri_subset huri hmem)
            exact hsegId s _ _ (lineFeed_notMem_absolutize hfree) hs
          next => exact hs
        next =>
          have hfree : '\n' ∉ jsTrim line := fun hmem => hline (jsTrim_subset line hmem)
          exact hsegId s _ _ (lineFeed_notMem_absolutize hfree) hs
    exact ih hrest hstep

theorem eq_unavailable {effect : Effect} (h : effect.isReport = true) : effect = .unavailable := by
  cases effect with
  | unavailable => rfl
  | playlist _ | segment _ | caches | mints => cases h

/-- A request does what belongs to its session. -/
theorem Sound.does {request : Request} {effect : Effect} (h : s.Sound) (hmay : s.MayAct request)
    (heffect : effect ≠ .unavailable)
    (hsegment : ∀ segment, effect = .segment segment → segment.generation = s.sessionGeneration) :
    (s.does request s.sessionGeneration effect).Sound where
  seq := h.seq
  unique := h.unique
  table := h.table
  index := h.index
  cache := h.cache
  tasks := h.tasks
  isolated := by
    refine ⟨fun act hact => ?_, fun act hact segment hsome => ?_, fun act hact minted hminted hid => ?_,
      h.isolated.ids, ?_⟩
    · obtain rfl | hact := List.mem_cons.mp hact
      · rfl
      · exact h.isolated.acts act hact
    · obtain rfl | hact := List.mem_cons.mp hact
      · exact hsegment segment hsome
      · exact h.isolated.segments act hact segment hsome
    · obtain rfl | hact := List.mem_cons.mp hact
      · exact hmay minted hminted hid
      · exact h.isolated.requests act hact minted hminted hid
    · have hskip : ¬ effect.isReport = true := fun hreport => heffect (eq_unavailable hreport)
      have hacts : (s.does request s.sessionGeneration effect).acts.filter (fun act => act.effect.isReport) =
          s.acts.filter fun act => act.effect.isReport := List.filter_cons_of_neg hskip
      rw [hacts]
      exact h.isolated.once
  acts act hact := by
    obtain rfl | hact := List.mem_cons.mp hact
    · exact Nat.le_refl _
    · exact h.acts act hact
  unavailable act hact hunavailable := by
    obtain rfl | hact := List.mem_cons.mp hact
    · exact absurd hunavailable heffect
    · exact h.unavailable act hact hunavailable

theorem Sound.idle (h : s.Sound) (task : Nat) : (s.become task .idle).Sound where
  seq := h.seq
  unique := h.unique
  table := h.table
  index := h.index
  cache := h.cache
  tasks other request generation referer hother := by
    by_cases he : other = task
    · subst he
      have hidle : (s.become other .idle).tasks other = .idle := Function.update_self ..
      cases hidle.symm.trans hother
    · exact h.tasks other request generation referer ((Function.update_of_ne he ..).symm.trans hother)
  isolated := ⟨h.isolated.acts, h.isolated.segments, h.isolated.requests, h.isolated.ids, h.isolated.once⟩
  acts := h.acts
  unavailable := h.unavailable

theorem Sound.fetch {request : Request} (h : s.Sound) (task : Nat) (hmay : s.MayAct request) (referer : Text) :
    (s.become task (.fetching request s.sessionGeneration referer)).Sound where
  seq := h.seq
  unique := h.unique
  table := h.table
  index := h.index
  cache := h.cache
  tasks other request' generation referer' hother := by
    by_cases he : other = task
    · subst he
      have hfetching : (s.become other (.fetching request s.sessionGeneration referer)).tasks other =
          .fetching request s.sessionGeneration referer := Function.update_self ..
      cases hfetching.symm.trans hother
      exact ⟨Nat.le_refl _, fun _ => hmay⟩
    · exact h.tasks other request' generation referer' ((Function.update_of_ne he ..).symm.trans hother)
  isolated := ⟨h.isolated.acts, h.isolated.segments, h.isolated.requests, h.isolated.ids, h.isolated.once⟩
  acts := h.acts
  unavailable := h.unavailable

/-- The cache holds what was fetched in this session. -/
theorem Sound.setCache {cache : List (Int × Segment)} (h : s.Sound)
    (hcache : ∀ entry ∈ cache, entry.2.generation = s.sessionGeneration) :
    ({ s with segCache := cache } : Proxy).Sound where
  seq := h.seq
  unique := h.unique
  table := h.table
  index := h.index
  cache := hcache
  tasks := h.tasks
  isolated := ⟨h.isolated.acts, h.isolated.segments, h.isolated.requests, h.isolated.ids, h.isolated.once⟩
  acts := h.acts
  unavailable := h.unavailable

theorem Sound.cached {id : Int} {segment : Segment} (h : s.Sound)
    (hsegment : segment.generation = s.sessionGeneration) :
    ∀ entry ∈ without s.segCache id ++ [(id, segment)], entry.2.generation = s.sessionGeneration := by
  intro entry hentry
  obtain hentry | hentry := List.mem_append.mp hentry
  · exact h.cache entry (List.mem_filter.mp hentry).1
  · rw [List.mem_singleton.mp hentry]
    exact hsegment

/-- The report of a session that has none. -/
theorem Sound.report {request : Request} (h : s.Sound) (hmay : s.MayAct request)
    (hfirst : s.unavailableGeneration ≠ some s.sessionGeneration) :
    ({ s.does request s.sessionGeneration .unavailable with
        unavailableGeneration := some s.sessionGeneration } : Proxy).Sound where
  seq := h.seq
  unique := h.unique
  table := h.table
  index := h.index
  cache := h.cache
  tasks := h.tasks
  isolated := by
    refine ⟨fun act hact => ?_, fun act hact segment hsome => ?_, fun act hact minted hminted hid => ?_,
      h.isolated.ids, ?_⟩
    · obtain rfl | hact := List.mem_cons.mp hact
      · rfl
      · exact h.isolated.acts act hact
    · obtain rfl | hact := List.mem_cons.mp hact
      · cases hsome
      · exact h.isolated.segments act hact segment hsome
    · obtain rfl | hact := List.mem_cons.mp hact
      · exact hmay minted hminted hid
      · exact h.isolated.requests act hact minted hminted hid
    · refine List.nodup_cons.mpr ⟨fun hmem => ?_, h.isolated.once⟩
      obtain ⟨act, hact, heq⟩ := List.mem_map.mp hmem
      obtain ⟨hact, hreport⟩ := List.mem_filter.mp hact
      exact hfirst (h.unavailable act hact (eq_unavailable hreport) heq)
  acts act hact := by
    obtain rfl | hact := List.mem_cons.mp hact
    · exact Nat.le_refl _
    · exact h.acts act hact
  unavailable _ _ _ _ := rfl

/-! The steps. -/

theorem Sound.mayAct_of_target {request : Request} {upstream : Upstream} (h : s.Sound)
    (hapart : request.u.isSome = true → ∀ id, request.id = some id → 0 ≤ id → id < s.segSeq →
      (s.segTable id).isSome = true)
    (htarget : s.target request = some upstream) : s.MayAct request := by
  intro minted hminted hid
  obtain ⟨hlt, hnonneg, -⟩ := h.seq minted hminted
  have hsome : (s.segTable minted.id).isSome = true := by
    cases htable : s.segTable minted.id with
    | some _ => rfl
    | none =>
      have hor := (Option.filter_eq_some_iff.mp htarget).1
      rw [hid, Option.bind_some, htable, Option.none_or] at hor
      obtain ⟨u, hu, -⟩ := Option.map_eq_some_iff.mp hor
      have habsurd := hapart (by rw [hu]; rfl) minted.id hid hnonneg hlt
      rw [htable] at habsurd
      cases habsurd
  obtain ⟨upstream', htable⟩ := Option.isSome_iff_exists.mp hsome
  have hsame := h.unique _ (h.table minted.id upstream' htable) minted hminted rfl
  rw [← hsame]

theorem Sound.serve {task : Nat} {request : Request} (h : s.Sound)
    (hapart : s.Apart (.serve task request)) : (s.serve task request).Sound := by
  rw [Proxy.serve]
  split
  next => exact h
  next upstream htarget =>
    have hmay := h.mayAct_of_target hapart htarget
    split
    next => exact h.fetch task hmay _
    next =>
      cases hid : request.id with
      | none => exact h.fetch task hmay _
      | some id =>
        rw [Option.map_some, Option.getD_some, segCacheGet]
        cases hlookup : s.segCache.lookup id with
        | none => exact h.fetch task hmay _
        | some segment =>
          obtain ⟨before, after, hcache, -⟩ := List.lookup_eq_some_iff.mp hlookup
          have hsegment : segment.generation = s.sessionGeneration :=
            h.cache (id, segment) (by rw [hcache]; simp)
          refine (h.setCache (h.cached hsegment)).does hmay Effect.noConfusion fun other hother => ?_
          cases hother
          exact hsegment
    next => exact h

theorem Sound.rewritePlaylist {request : Request} (h : s.Sound) (hmay : s.MayAct request)
    (urls : Urls.Library) (text baseUrl referer : Text) (port : Nat) :
    (s.rewritePlaylist urls text baseUrl referer port).2.Sound ∧
      (s.rewritePlaylist urls text baseUrl referer port).2.MayAct request ∧
      (s.rewritePlaylist urls text baseUrl referer port).2.sessionGeneration = s.sessionGeneration :=
  rewriteLines_induct (P := fun t => t.Sound ∧ t.MayAct request ∧ t.sessionGeneration = s.sessionGeneration)
    (fun _ _ _ hurl ht => ⟨ht.1.segId hurl, ht.2.1.segId.1, ht.2.1.segId.2.trans ht.2.2⟩)
    (fun _ => splitLines_lineFeed) ⟨h, hmay, rfl⟩

theorem Sound.servePlaylist {task : Nat} {request : Request} {generation : Nat} {referer text baseUrl : Text}
    (h : s.Sound) (hmay : generation = s.sessionGeneration → s.MayAct request) :
    (s.servePlaylist urls task request generation referer text baseUrl).Sound := by
  have hidle := h.idle task
  rw [Proxy.servePlaylist]
  dsimp only
  split
  next => exact hidle
  next hsame =>
    have hgeneration : generation = s.sessionGeneration := not_not.mp hsame
    have hstill : (s.become task .idle).MayAct request := hmay hgeneration
    obtain ⟨hsound, hstill, hsession⟩ := hidle.rewritePlaylist hstill urls text baseUrl referer
      ((s.become task .idle).serverPort.getD 0)
    have hnow : generation = ((s.become task .idle).rewritePlaylist urls text baseUrl referer
        ((s.become task .idle).serverPort.getD 0)).2.sessionGeneration := hgeneration.trans hsession.symm
    rw [hnow]
    have hmints : (Proxy.does _ request _ .mints).Sound :=
      hsound.does hstill Effect.noConfusion fun _ hsegment => by cases hsegment
    exact hmints.does hstill Effect.noConfusion fun _ hsegment => by cases hsegment

theorem Sound.serveSegment {task : Nat} {request : Request} {generation : Nat} {bytes : Bytes}
    (h : s.Sound) (hmay : generation = s.sessionGeneration → s.MayAct request) :
    (s.serveSegment task request generation bytes).Sound := by
  have hidle := h.idle task
  rw [Proxy.serveSegment]
  dsimp only
  split
  next => exact hidle
  next hsame =>
    have hgeneration : generation = s.sessionGeneration := not_not.mp hsame
    subst hgeneration
    have hstill : (s.become task .idle).MayAct request := hmay rfl
    split
    next id hid =>
      have hput : ((s.become task .idle).segCachePut id ⟨stripPngPrefix bytes, s.sessionGeneration⟩).Sound :=
        hidle.setCache fun entry hentry => hidle.cached rfl entry (List.mem_of_mem_drop hentry)
      have hcaches : (Proxy.does _ request s.sessionGeneration .caches).Sound :=
        hput.does hstill Effect.noConfusion fun _ hsegment => by cases hsegment
      refine hcaches.does hstill Effect.noConfusion fun segment hsegment => ?_
      cases hsegment
      rfl
    next =>
      refine hidle.does hstill Effect.noConfusion fun segment hsegment => ?_
      cases hsegment
      rfl

theorem Sound.serveFails {task : Nat} {request : Request} {generation : Nat} {sourceUnavailable : Bool}
    (h : s.Sound) (hmay : generation = s.sessionGeneration → s.MayAct request) :
    (s.serveFails task request generation sourceUnavailable).Sound := by
  have hidle := h.idle task
  rw [Proxy.serveFails]
  dsimp only
  split
  next hreport =>
    obtain ⟨hgeneration, -, -, hfirst⟩ := hreport
    subst hgeneration
    exact hidle.report (hmay rfl) hfirst
  next => exact hidle

theorem Sound.step {event : Event} (hapart : s.Apart event) (h : s.Sound) : (s.step urls event).Sound := by
  cases event with
  | begin => exact h.reset
  | stop =>
    have hreset := h.reset
    exact ⟨hreset.seq, hreset.unique, hreset.table, hreset.index, hreset.cache, hreset.tasks,
      ⟨hreset.isolated.acts, hreset.isolated.segments, hreset.isolated.requests, hreset.isolated.ids,
        hreset.isolated.once⟩, hreset.acts, hreset.unavailable⟩
  | listen port =>
    exact ⟨h.seq, h.unique, h.table, h.index, h.cache, h.tasks,
      ⟨h.isolated.acts, h.isolated.segments, h.isolated.requests, h.isolated.ids, h.isolated.once⟩,
      h.acts, h.unavailable⟩
  | mint url ref => exact h.segId hapart
  | serve task request =>
    rw [Proxy.step]
    split
    next => exact h.serve hapart
    next => exact h
  | playlist task text baseUrl =>
    rw [Proxy.step]
    split
    next request generation referer htask =>
      split
      next => exact h.servePlaylist (h.tasks task request generation referer htask).2
      next => exact h
    next => exact h
  | segment task bytes =>
    rw [Proxy.step]
    split
    next request generation referer htask =>
      split
      next => exact h.serveSegment (h.tasks task request generation referer htask).2
      next => exact h
    next => exact h
  | fails task sourceUnavailable =>
    rw [Proxy.step]
    split
    next request generation referer htask =>
      exact h.serveFails (h.tasks task request generation referer htask).2
    next => exact h

end Proxy

/-- In every run in which no request names both an upstream and an id of an earlier session,
sessions stay apart. -/
theorem sessions_isolated (urls : Urls.Library) (events : List Event)
    (hapart : Each (Proxy.step urls) Proxy.Apart .initial events) :
    Throughout (Proxy.step urls) Proxy.Isolated .initial events :=
  (throughout_of_each (fun _ _ hevent hsound => Proxy.Sound.step hevent hsound) Proxy.sound_initial hapart).imp
    fun _ hsound => hsound.isolated

/-- A segment that arrives after a new session has begun. -/
theorem sessions_isolated_late :
    Throughout (Proxy.step Urls.plain) Proxy.Isolated .initial
      [.begin, .listen 8771, .mint "https://cdn.example/index.m3u8".toList [],
        .serve 0 ⟨.playlist, none, [], some 0⟩,
        .playlist 0 "#EXTM3U\n/one.ts".toList "https://cdn.example/index.m3u8".toList,
        .serve 1 ⟨.segment, none, [], some 1⟩, .begin, .segment 1 [0x47]] := by
  have hurl : '\n' ∉ "https://cdn.example/index.m3u8".toList := by decide
  exact sessions_isolated Urls.plain _ ⟨trivial, trivial, hurl, fun h => (by cases h), trivial,
    fun h => (by cases h), trivial, trivial, trivial⟩

/-- A request with an id of the first session names an upstream too: what it fetches is cached
and sent in the second. -/
theorem old_id_served :
    ¬ Throughout (Proxy.step Urls.plain) Proxy.Isolated .initial
      [.begin, .mint "https://cdn.example/one.ts".toList [], .begin,
        .serve 0 ⟨.segment, some "https://cdn.example/two.ts".toList, [], some 0⟩, .segment 0 [0x47]] := by
  intro h
  have hle := h.last.requests
    ⟨⟨.segment, some "https://cdn.example/two.ts".toList, [], some 0⟩, 2, 2, .caches⟩ (.tail _ (.head _))
    ⟨0, "https://cdn.example/one.ts".toList, [], 1⟩ (.head _) rfl
  exact absurd hle (by decide)

end StreamArena.Mobile.StripProxy
