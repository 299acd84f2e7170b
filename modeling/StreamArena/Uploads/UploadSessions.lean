import StreamArena.Library.AsciiText
import StreamArena.Library.Runs

/-! Chunked upload sessions (src/upload.rs): appends, finishes and sweeps of a session, each
under its lifecycle lock, and the file operations that an append may leave running when it is
dropped. -/
namespace StreamArena.Uploads
open AsciiText Runs

abbrev Bytes := List UInt8

def uploadSessionStaleMs : Int := 6 * 60 * 60 * 1000
def uploadSessionChunkMaxBytes : Nat := 32 * 1024 * 1024

/-- A session of the map. Its temp file is kept under its id, as both names are as new. -/
structure UploadSession where
  expectedBytes : Option Nat
  receivedBytes : Nat
  lastActivityAt : Int

inductive Operation where
  | append (sessionId : Text)
  | finish (sessionId : Text)
  | sweep (sessionId : Text) (now : Int)

def Operation.sessionId : Operation → Text
  | append id | finish id | sweep id _ => id

/-- An operation on a file that runs on a thread of its own, and is not stopped with the
request that has begun it. -/
inductive FileOp where
  | write (bytes : Bytes)
  | setLen (length : Nat)

def UploadSession.isStale (session : UploadSession) (now : Int) : Bool :=
  decide (session.lastActivityAt + uploadSessionStaleMs ≤ now)

def resize (file : Bytes) (length : Nat) : Bytes :=
  file.take length ++ List.replicate (length - file.length) 0

/-- What is written of an operation that stops after some bytes, or all of it. -/
def FileOp.apply (count : Nat) (file : Bytes) : FileOp → Bytes
  | write bytes => file ++ bytes.take count
  | setLen length => resize file length

def FileOp.ofInflight : Bytes → List FileOp
  | [] => []
  | bytes => [.write bytes]

/-- Where a request is: `queued` are bytes it has accepted and not handed to a write yet,
`inflight` those of the write under way. -/
inductive Task where
  | idle
  | waiting (operation : Operation)
  | locked (operation : Operation)
  | opening (sessionId : Text) (previousReceived maxFileBytes : Nat)
  | writing (sessionId : Text) (previousReceived maxFileBytes initialLen : Nat)
      (accepted queued inflight : Bytes)
  | failing (sessionId : Text) (initialLen : Nat) (inflight : Bytes)
  | truncating (sessionId : Text) (initialLen : Nat)
  | claimed (sessionId : Text) (expectedBytes : Option Nat)

/-- A file that a finish has handed over, with the size its session declared. -/
structure Handed where
  sessionId : Text
  expectedBytes : Option Nat
  content : Bytes

structure Service where
  sessions : Text → Option UploadSession
  files : Text → Option Bytes
  pending : List (Text × FileOp)
  owner : Text → Option Nat
  tasks : Nat → Task
  /-- The ids that were given out, with the sizes that were declared for them. -/
  started : List (Text × Option Nat)
  /-- The chunks that were acknowledged, in that order. -/
  acknowledged : Text → List Bytes
  handed : List Handed

inductive Event where
  | start (sessionId : Text) (expectedBytes : Option Nat) (now : Int)
  | call (task : Nat) (operation : Operation)
  | lock (task : Nat)
  | check (task : Nat) (readable : Bool)
  | opens (task : Nat) (opened : Bool)
  | chunk (task : Nat) (bytes : Bytes)
  | streamFails (task : Nat)
  | issue (task count : Nat)
  | lands (task : Nat)
  | landFails (task count : Nat)
  | acknowledge (task : Nat) (now : Int)
  | truncate (task : Nat)
  | truncated (task : Nat) (done : Bool)
  | process (task : Nat) (done : Bool)
  | cancel (task : Nat)
  | landsPending (index : Nat) (count : Nat)

namespace Service

def initial : Service :=
  ⟨fun _ => none, fun _ => none, [], fun _ => none, fun _ => .idle, [], fun _ => [], []⟩

/-- What has been acknowledged of a session. -/
def received (s : Service) (id : Text) : Bytes := (s.acknowledged id).flatten

/-- What the temp file of a session holds, if it is there. -/
def content (s : Service) (id : Text) : Bytes := (s.files id).getD []

def become (s : Service) (task : Nat) (state : Task) : Service :=
  { s with tasks := Function.update s.tasks task state }

/-- A request returns and lets go of the lock. -/
def leave (s : Service) (task : Nat) (id : Text) : Service :=
  { s.become task .idle with owner := Function.update s.owner id none }

def setFile (s : Service) (id : Text) (file : Option Bytes) : Service :=
  { s with files := Function.update s.files id file }

def setSession (s : Service) (id : Text) (session : Option UploadSession) : Service :=
  { s with sessions := Function.update s.sessions id session }

/-- A session goes, with its file. -/
def removeSession (s : Service) (id : Text) : Service := (s.setSession id none).setFile id none

/-- A request is dropped: what it has running on the file goes on. -/
def drop (s : Service) (task : Nat) (id : Text) (running : List FileOp) : Service :=
  { s.leave task id with pending := running.map (fun op => (id, op)) ++ s.pending }

/-- The length of the file under its session's lock, and what it has to be. -/
def checkAppend (maxUploadBytes : Nat) (s : Service) (task : Nat) (id : Text) (readable : Bool) : Service :=
  match s.sessions id with
  | none => s.leave task id
  | some session =>
    if readable = true ∧ (s.content id).length = session.receivedBytes then
      s.become task (.opening id session.receivedBytes
        (min (session.expectedBytes.getD maxUploadBytes) maxUploadBytes))
    else (s.removeSession id).leave task id

def checkFinish (maxUploadBytes : Nat) (s : Service) (task : Nat) (id : Text) (readable : Bool) : Service :=
  match s.sessions id with
  | none => s.leave task id
  | some session =>
    let onDiskBytes := (s.content id).length
    if readable = true ∧ onDiskBytes ≠ 0 ∧ onDiskBytes ≤ maxUploadBytes ∧
        onDiskBytes = session.receivedBytes ∧ session.expectedBytes.all (fun n => onDiskBytes == n) then
      { (s.setSession id none).become task (.claimed id session.expectedBytes) with
        owner := Function.update s.owner id none }
    else (s.removeSession id).leave task id

def checkSweep (s : Service) (task : Nat) (id : Text) (now : Int) : Service :=
  match s.sessions id with
  | none => s.leave task id
  | some session => if session.isStale now then (s.removeSession id).leave task id else s.leave task id

def step (maxUploadBytes : Nat) (s : Service) : Event → Service
  | .start id expectedBytes now =>
    if expectedBytes.all fun n => n ≠ 0 && decide (n ≤ maxUploadBytes) then
      { s.setSession id (some ⟨expectedBytes, 0, now⟩) with
        started := (id, expectedBytes) :: s.started }
    else s
  | .call task operation =>
    match s.tasks task, s.sessions operation.sessionId with
    | .idle, some _ => s.become task (.waiting operation)
    | _, _ => s
  | .lock task =>
    match s.tasks task with
    | .waiting operation =>
      match s.owner operation.sessionId with
      | none =>
        { s.become task (.locked operation) with
          owner := Function.update s.owner operation.sessionId (some task) }
      | some _ => s
    | _ => s
  | .check task readable =>
    match s.tasks task with
    | .locked (.append id) => s.checkAppend maxUploadBytes task id readable
    | .locked (.finish id) => s.checkFinish maxUploadBytes task id readable
    | .locked (.sweep id now) => s.checkSweep task id now
    | _ => s
  | .opens task opened =>
    match s.tasks task with
    | .opening id previous maxFileBytes =>
      if opened = true ∧ (s.content id).length ≤ maxFileBytes then
        (s.setFile id (some (s.content id))).become task
          (.writing id previous maxFileBytes (s.content id).length [] [] [])
      else if opened = true then (s.setFile id (some (s.content id))).leave task id
      else s.leave task id
    | _ => s
  | .chunk task bytes =>
    match s.tasks task with
    | .writing id previous maxFileBytes initialLen accepted [] inflight =>
      if (accepted ++ bytes).length > uploadSessionChunkMaxBytes ∨
          initialLen + (accepted ++ bytes).length > maxFileBytes then
        s.become task (.failing id initialLen inflight)
      else s.become task (.writing id previous maxFileBytes initialLen (accepted ++ bytes) bytes inflight)
    | _ => s
  | .streamFails task =>
    match s.tasks task with
    | .writing id _ _ initialLen _ [] inflight => s.become task (.failing id initialLen inflight)
    | _ => s
  | .issue task count =>
    match s.tasks task with
    | .writing id previous maxFileBytes initialLen accepted queued [] =>
      s.become task (.writing id previous maxFileBytes initialLen accepted (queued.drop count)
        (queued.take count))
    | _ => s
  | .lands task =>
    match s.tasks task with
    | .writing id previous maxFileBytes initialLen accepted queued inflight =>
      (s.setFile id (some (s.content id ++ inflight))).become task
        (.writing id previous maxFileBytes initialLen accepted queued [])
    | .failing id initialLen inflight =>
      (s.setFile id (some (s.content id ++ inflight))).become task (.failing id initialLen [])
    | _ => s
  | .landFails task count =>
    match s.tasks task with
    | .writing id _ _ initialLen _ _ inflight | .failing id initialLen inflight =>
      (s.setFile id (some (s.content id ++ inflight.take count))).become task (.failing id initialLen [])
    | _ => s
  | .acknowledge task now =>
    match s.tasks task with
    | .writing id previous _ _ accepted [] [] =>
      match s.sessions id with
      | some session =>
        if accepted = [] then s.leave task id
        else
          { (s.setSession id (some { session with
                receivedBytes := previous + accepted.length, lastActivityAt := now })).leave task id with
            acknowledged := Function.update s.acknowledged id (s.acknowledged id ++ [accepted]) }
      | none => s.leave task id
    | _ => s
  | .truncate task =>
    match s.tasks task with
    | .failing id initialLen [] => s.become task (.truncating id initialLen)
    | _ => s
  | .truncated task done =>
    match s.tasks task with
    | .truncating id initialLen =>
      if done then (s.setFile id (some (resize (s.content id) initialLen))).leave task id
      else s.leave task id
    | _ => s
  | .process task done =>
    match s.tasks task with
    | .claimed id expectedBytes =>
      let gone := (s.setFile id none).become task .idle
      if done then { gone with handed := ⟨id, expectedBytes, s.content id⟩ :: s.handed } else gone
    | _ => s
  | .cancel task =>
    match s.tasks task with
    | .waiting _ | .claimed _ _ => s.become task .idle
    | .locked operation => s.leave task operation.sessionId
    | .opening id _ _ => s.leave task id
    | .writing id _ _ _ _ _ inflight | .failing id _ inflight =>
      s.drop task id (FileOp.ofInflight inflight)
    | .truncating id initialLen => s.drop task id [.setLen initialLen]
    | .idle => s
  | .landsPending index count =>
    match s.pending[index]? with
    | some (id, op) =>
      { s.setFile id ((s.files id).map fun file => op.apply count file) with
        pending := s.pending.eraseIdx index }
    | none => s

/-- What was handed over is what was acknowledged, of the declared size and no more than the
maximum, and no session was handed over twice. -/
structure HandsOver (maxUploadBytes : Nat) (s : Service) : Prop where
  content : ∀ handed ∈ s.handed, handed.content = s.received handed.sessionId
  length : ∀ handed ∈ s.handed, handed.content.length ≤ maxUploadBytes
  declared : ∀ handed ∈ s.handed, (handed.sessionId, handed.expectedBytes) ∈ s.started ∧
    ∀ n, handed.expectedBytes = some n → handed.content.length = n
  once : (s.handed.map Handed.sessionId).Nodup

/-- Ids are new, and an append or a finish checks the length of a file only when no operation
that a dropped append has left on it is still running. -/
def Settled (s : Service) : Event → Prop
  | .start id _ _ => ∀ expectedBytes, (id, expectedBytes) ∉ s.started
  | .check task _ => ∀ id, s.tasks task = .locked (.append id) ∨ s.tasks task = .locked (.finish id) →
      ∀ op, (id, op) ∉ s.pending
  | _ => True

end Service

namespace Task

/-- The session whose lock a request has. -/
def holds : Task → Option Text
  | locked operation => some operation.sessionId
  | opening id _ _ | writing id _ _ _ _ _ _ | failing id _ _ | truncating id _ => some id
  | _ => none

/-- The session whose file a request has checked. -/
def checked : Task → Option Text
  | opening id _ _ | writing id _ _ _ _ _ _ | failing id _ _ | truncating id _ | claimed id _ => some id
  | _ => none

end Task

namespace Service

/-- A request that has checked the length of the file, for as long as it has the lock. -/
structure Owns (s : Service) (task : Nat) (id : Text) (length : Nat) : Prop where
  owner : s.owner id = some task
  quiet : ∀ op, (id, op) ∉ s.pending
  present : (s.sessions id).isSome = true
  length : length = (s.received id).length

/-- A finish that has taken its session out of the map. -/
structure Claims (maxUploadBytes : Nat) (s : Service) (task : Nat) (id : Text)
    (expectedBytes : Option Nat) : Prop where
  known : (id, expectedBytes) ∈ s.started
  quiet : ∀ op, (id, op) ∉ s.pending
  absent : s.sessions id = none
  content : s.content id = s.received id
  length : (s.content id).length ≤ maxUploadBytes
  expected : ∀ n, expectedBytes = some n → (s.content id).length = n
  new : id ∉ s.handed.map Handed.sessionId
  only : ∀ other expectedBytes, s.tasks other = .claimed id expectedBytes → other = task

/-- What a request has checked, and what it has written since, is so. -/
def Fits (maxUploadBytes : Nat) (s : Service) (task : Nat) : Task → Prop
  | .idle | .waiting _ => True
  | .locked operation => s.owner operation.sessionId = some task
  | .opening id previous _ => s.Owns task id previous ∧ s.content id = s.received id
  | .writing id previous _ initialLen accepted queued inflight =>
    s.Owns task id previous ∧ initialLen = previous ∧
      s.content id ++ inflight ++ queued = s.received id ++ accepted
  | .failing id initialLen _ | .truncating id initialLen => s.Owns task id initialLen
  | .claimed id expectedBytes => s.Claims maxUploadBytes task id expectedBytes

/-- The file of a session starts with what was acknowledged, and keeps it whatever runs on. -/
structure Starts (s : Service) (id : Text) (session : UploadSession) : Prop where
  known : (id, session.expectedBytes) ∈ s.started
  new : id ∉ s.handed.map Handed.sessionId
  received : session.receivedBytes = (s.received id).length
  starts : s.received id <+: s.content id
  pending : ∀ length, (id, .setLen length) ∈ s.pending → length = (s.received id).length

structure Sound (maxUploadBytes : Nat) (s : Service) : Prop where
  tasks : ∀ task, s.Fits maxUploadBytes task (s.tasks task)
  sessions : ∀ id session, s.sessions id = some session → s.Starts id session
  fresh : ∀ id, (∀ expectedBytes, (id, expectedBytes) ∉ s.started) → s.acknowledged id = [] ∧ (∀ op, (id, op) ∉ s.pending) ∧
    id ∉ s.handed.map Handed.sessionId
  handed : s.HandsOver maxUploadBytes

attribute [local simp] step Fits Settled

theorem sound_initial {maxUploadBytes : Nat} : initial.Sound maxUploadBytes where
  tasks _ := trivial
  sessions _ _ h := by cases h
  fresh _ _ := ⟨rfl, fun _ h => (by cases h), fun h => (by cases h)⟩
  handed := ⟨fun _ h => (by cases h), fun _ h => (by cases h), fun _ h => (by cases h), List.nodup_nil⟩

/-- All that is kept of a session is the same. -/
structure SameAt (s t : Service) (id : Text) : Prop where
  session : t.sessions id = s.sessions id
  file : t.files id = s.files id
  acknowledged : t.acknowledged id = s.acknowledged id
  pending : ∀ op, (id, op) ∈ t.pending → (id, op) ∈ s.pending
  handed : id ∈ t.handed.map Handed.sessionId → id ∈ s.handed.map Handed.sessionId

variable {maxUploadBytes : Nat} {s t : Service} {task : Nat} {id : Text}

theorem SameAt.content (h : SameAt s t id) : t.content id = s.content id := by
  rw [Service.content, h.file, Service.content]

theorem SameAt.received (h : SameAt s t id) : t.received id = s.received id := by
  rw [Service.received, h.acknowledged, Service.received]

theorem Owns.frame {length : Nat} (h : s.Owns task id length) (hsame : SameAt s t id)
    (howner : t.owner id = some task) : t.Owns task id length where
  owner := howner
  quiet op hop := h.quiet op (hsame.pending op hop)
  present := by rw [hsame.session]; exact h.present
  length := by rw [hsame.received]; exact h.length

theorem Starts.frame {session : UploadSession} (h : s.Starts id session) (hsame : SameAt s t id)
    (hstarted : ∀ x, x ∈ s.started → x ∈ t.started) : t.Starts id session where
  known := hstarted _ h.known
  new hmem := h.new (hsame.handed hmem)
  received := by rw [hsame.received]; exact h.received
  starts := by rw [hsame.received, hsame.content]; exact h.starts
  pending length hop := by rw [hsame.received]; exact h.pending length (hsame.pending _ hop)

theorem Fits.owner_of_holds {state : Task} (h : s.Fits maxUploadBytes task state) (hholds : state.holds = some id) :
    s.owner id = some task := by
  cases state with
  | idle | waiting _ | claimed _ _ => cases hholds
  | locked operation => cases hholds; exact h
  | opening _ _ _ => cases hholds; exact h.1.owner
  | writing _ _ _ _ _ _ _ => cases hholds; exact h.1.owner
  | failing _ _ _ | truncating _ _ => cases hholds; exact Owns.owner h

/-- A file that was checked has nothing running on it, and its session is there until a finish
takes it. -/
theorem Fits.checked {state : Task} (h : s.Fits maxUploadBytes task state) (hchecked : state.checked = some id) :
    (∀ op, (id, op) ∉ s.pending) ∧
      ((s.owner id = some task ∧ (s.sessions id).isSome = true) ∨
        ∃ expectedBytes, state = .claimed id expectedBytes) := by
  cases state with
  | idle | waiting _ | locked _ => cases hchecked
  | opening _ _ _ => cases hchecked; exact ⟨h.1.quiet, .inl ⟨h.1.owner, h.1.present⟩⟩
  | writing _ _ _ _ _ _ _ => cases hchecked; exact ⟨h.1.quiet, .inl ⟨h.1.owner, h.1.present⟩⟩
  | failing _ _ _ | truncating _ _ =>
    cases hchecked
    exact ⟨Owns.quiet h, .inl ⟨Owns.owner h, Owns.present h⟩⟩
  | claimed _ expectedBytes => cases hchecked; exact ⟨Claims.quiet h, .inr ⟨expectedBytes, rfl⟩⟩

/-- What a change elsewhere leaves as it is for a request. -/
theorem Fits.frame {state : Task} (h : s.Fits maxUploadBytes task state)
    (howner : ∀ id, state.holds = some id → t.owner id = s.owner id)
    (hsame : ∀ id, state.checked = some id → SameAt s t id)
    (hstarted : ∀ x, x ∈ s.started → x ∈ t.started)
    (hclaims : ∀ other id expectedBytes, state.checked = some id →
      t.tasks other = .claimed id expectedBytes → other = task ∨ s.tasks other = .claimed id expectedBytes) :
    t.Fits maxUploadBytes task state := by
  cases state with
  | idle | waiting _ => trivial
  | locked operation => exact (howner _ rfl).trans h
  | opening id previous _ =>
    have hat := hsame id rfl
    exact ⟨h.1.frame hat ((howner id rfl).trans h.1.owner), by rw [hat.content, hat.received]; exact h.2⟩
  | writing id previous _ initialLen accepted queued inflight =>
    have hat := hsame id rfl
    refine ⟨h.1.frame hat ((howner id rfl).trans h.1.owner), h.2.1, ?_⟩
    rw [hat.content, hat.received]
    exact h.2.2
  | failing id _ _ | truncating id _ => exact Owns.frame h (hsame id rfl) ((howner id rfl).trans h.owner)
  | claimed id expectedBytes =>
    have hat := hsame id rfl
    exact {
      known := hstarted _ h.known
      quiet := fun op hop => h.quiet op (hat.pending op hop)
      absent := hat.session.trans h.absent
      content := by rw [hat.content, hat.received]; exact h.content
      length := by rw [hat.content]; exact h.length
      expected := by rw [hat.content]; exact h.expected
      new := fun hmem => h.new (hat.handed hmem)
      only := fun other expected hother =>
        (hclaims other id expected rfl hother).elim (fun he => he) (h.only other expected) }

/-- No other request has checked the file of the session. -/
def Alone (s : Service) (task : Nat) (id : Text) : Prop :=
  ∀ other, other ≠ task → (s.tasks other).checked ≠ some id

/-- No other request has the lock of the session. -/
def Unheld (s : Service) (task : Nat) (id : Text) : Prop :=
  ∀ other, other ≠ task → (s.tasks other).holds ≠ some id

/-- One request does something to one session. -/
structure ChangesOnly (s t : Service) (task : Nat) (id : Text) : Prop where
  tasks : ∀ other, other ≠ task → t.tasks other = s.tasks other
  claims : ∀ other expectedBytes, t.tasks task = .claimed other expectedBytes → s.Alone task other
  others : ∀ other, other ≠ id → SameAt s t other
  owner : ∀ other, other ≠ id → t.owner other = s.owner other
  lock : t.owner id = s.owner id ∨ s.Unheld task id
  started : ∀ x, x ∈ s.started → x ∈ t.started

theorem Sound.unheld (h : s.Sound maxUploadBytes) (howner : ∀ other, s.owner id = some other → other = task) :
    s.Unheld task id :=
  fun other hne hholds => hne (howner other ((h.tasks other).owner_of_holds hholds))

theorem Sound.alone (h : s.Sound maxUploadBytes) (howner : s.owner id = some task)
    (hpresent : (s.sessions id).isSome = true) : s.Alone task id := by
  intro other hne hchecked
  obtain ⟨-, ⟨hother, -⟩ | ⟨expectedBytes, hclaimed⟩⟩ := (h.tasks other).checked hchecked
  · rw [howner] at hother
    exact hne (Option.some.inj hother).symm
  · have hfits := h.tasks other
    rw [hclaimed] at hfits
    rw [Claims.absent hfits] at hpresent
    cases hpresent

theorem Sound.alone_of_claims {expectedBytes : Option Nat} (h : s.Sound maxUploadBytes)
    (hclaims : s.Claims maxUploadBytes task id expectedBytes) : s.Alone task id := by
  intro other hne hchecked
  obtain ⟨-, ⟨-, hpresent⟩ | ⟨other', hclaimed⟩⟩ := (h.tasks other).checked hchecked
  · rw [hclaims.absent] at hpresent
    cases hpresent
  · exact hne (hclaims.only other other' hclaimed)

theorem Sound.alone_of_pending {op : FileOp} (h : s.Sound maxUploadBytes) (hop : (id, op) ∈ s.pending) :
    s.Alone task id :=
  fun other _ hchecked => ((h.tasks other).checked hchecked).1 op hop

/-- A request that the change is not about keeps what it has checked. -/
theorem Sound.others {other : Nat} (h : s.Sound maxUploadBytes) (hchange : ChangesOnly s t task id)
    (hat : SameAt s t id ∨ s.Alone task id) (hne : other ≠ task) :
    t.Fits maxUploadBytes other (t.tasks other) := by
  rw [hchange.tasks other hne]
  refine (h.tasks other).frame (fun id' hid => ?_) (fun id' hid => ?_) hchange.started
    fun third id' expectedBytes hid hthird => ?_
  · by_cases he : id' = id
    · subst he
      exact hchange.lock.resolve_right fun hunheld => hunheld other hne hid
    · exact hchange.owner id' he
  · by_cases he : id' = id
    · subst he
      exact hat.resolve_right fun halone => halone other hne hid
    · exact hchange.others id' he
  · by_cases ht : third = task
    · subst ht
      exact absurd hid (hchange.claims id' expectedBytes hthird other hne)
    · exact .inr ((hchange.tasks third ht).symm.trans hthird)

/-- What was handed over stays right where nothing more is acknowledged of it. -/
theorem HandsOver.frame (h : s.HandsOver maxUploadBytes) (hhanded : t.handed = s.handed)
    (hstarted : ∀ x, x ∈ s.started → x ∈ t.started)
    (hreceived : ∀ other, other ∈ s.handed.map Handed.sessionId → t.received other = s.received other) :
    t.HandsOver maxUploadBytes where
  content handed hmem := by
    rw [hhanded] at hmem
    rw [hreceived _ (List.mem_map_of_mem hmem)]
    exact h.content handed hmem
  length handed hmem := h.length handed (hhanded ▸ hmem)
  declared handed hmem :=
    have hdeclared := h.declared handed (hhanded ▸ hmem)
    ⟨hstarted _ hdeclared.1, hdeclared.2⟩
  once := by rw [hhanded]; exact h.once

/-- A request that changes nothing of a session's keeps the service sound. -/
theorem Sound.moves {state : Task} (h : s.Sound maxUploadBytes) (hchange : ChangesOnly s t task id)
    (hat : SameAt s t id) (hstarted : t.started = s.started) (hhanded : t.handed = s.handed)
    (hstate : t.tasks task = state) (hfits : t.Fits maxUploadBytes task state) :
    t.Sound maxUploadBytes := by
  have hsame : ∀ other, SameAt s t other := fun other =>
    if he : other = id then he ▸ hat else hchange.others other he
  refine ⟨fun other => ?_, fun other session hsession => ?_, fun other hother => ?_, ?_⟩
  · by_cases he : other = task
    · rw [he, hstate]; exact hfits
    · exact h.others hchange (.inl hat) he
  · rw [(hsame other).session] at hsession
    exact (h.sessions other session hsession).frame (hsame other) hchange.started
  · rw [hstarted] at hother
    obtain ⟨hnone, hquiet, hnew⟩ := h.fresh other hother
    exact ⟨(hsame other).acknowledged.trans hnone, fun op hop => hquiet op ((hsame other).pending op hop),
      fun hmem => hnew ((hsame other).handed hmem)⟩
  · exact h.handed.frame hhanded hchange.started fun other _ => (hsame other).received

/-- One that has the file of a session to itself does so when what it leaves fits. -/
theorem Sound.changes {state : Task} {expectedBytes : Option Nat} (h : s.Sound maxUploadBytes)
    (hchange : ChangesOnly s t task id) (halone : s.Alone task id) (hknown : (id, expectedBytes) ∈ t.started)
    (hsession : ∀ session, t.sessions id = some session → t.Starts id session)
    (hhanded : t.HandsOver maxUploadBytes) (hstate : t.tasks task = state)
    (hfits : t.Fits maxUploadBytes task state) : t.Sound maxUploadBytes := by
  refine ⟨fun other => ?_, fun other session hother => ?_, fun other hother => ?_, hhanded⟩
  · by_cases he : other = task
    · rw [he, hstate]; exact hfits
    · exact h.others hchange (.inr halone) he
  · by_cases he : other = id
    · subst he; exact hsession session hother
    · have hsame := hchange.others other he
      rw [hsame.session] at hother
      exact (h.sessions other session hother).frame hsame hchange.started
  · have hsame := hchange.others other fun he => hother expectedBytes (he ▸ hknown)
    obtain ⟨hnone, hquiet, hnew⟩ := h.fresh other fun size hmem => hother size (hchange.started _ hmem)
    exact ⟨hsame.acknowledged.trans hnone, fun op hop => hquiet op (hsame.pending op hop),
      fun hmem => hnew (hsame.handed hmem)⟩

theorem changesOnly_self (h : s.Sound maxUploadBytes) : ChangesOnly s s task id where
  tasks _ _ := rfl
  claims other expectedBytes hclaimed := by
    have hfits := h.tasks task
    rw [hclaimed] at hfits
    exact h.alone_of_claims hfits
  others _ _ := ⟨rfl, rfl, rfl, fun _ hop => hop, fun hmem => hmem⟩
  owner _ _ := rfl
  lock := .inl rfl
  started _ hx := hx

theorem changesOnly_become {state : Task}
    (hclaims : ∀ other expectedBytes, state = .claimed other expectedBytes → s.Alone task other) :
    ChangesOnly s (s.become task state) task id where
  tasks other hne := Function.update_of_ne hne ..
  claims other expectedBytes hclaimed := by
    have hself : (s.become task state).tasks task = state := Function.update_self ..
    exact hclaims other expectedBytes (hself.symm.trans hclaimed)
  others _ _ := ⟨rfl, rfl, rfl, fun _ hop => hop, fun hmem => hmem⟩
  owner _ _ := rfl
  lock := .inl rfl
  started _ hx := hx

/-- The lock of a session that no other request has goes to the request, or is let go of. -/
theorem ChangesOnly.setOwner (h : ChangesOnly s t task id) (hunheld : s.Unheld task id) (owner : Option Nat) :
    ChangesOnly s { t with owner := Function.update t.owner id owner } task id where
  tasks := h.tasks
  claims := h.claims
  others other hne :=
    have hsame := h.others other hne
    ⟨hsame.session, hsame.file, hsame.acknowledged, hsame.pending, hsame.handed⟩
  owner other hne := (Function.update_of_ne hne ..).trans (h.owner other hne)
  lock := .inr hunheld
  started := h.started

theorem ChangesOnly.setFile (h : ChangesOnly s t task id) (file : Option Bytes) :
    ChangesOnly s (t.setFile id file) task id where
  tasks := h.tasks
  claims := h.claims
  others other hne :=
    have hsame := h.others other hne
    ⟨hsame.session, (Function.update_of_ne hne ..).trans hsame.file, hsame.acknowledged, hsame.pending,
      hsame.handed⟩
  owner := h.owner
  lock := h.lock
  started := h.started

theorem ChangesOnly.setSession (h : ChangesOnly s t task id) (session : Option UploadSession) :
    ChangesOnly s (t.setSession id session) task id where
  tasks := h.tasks
  claims := h.claims
  others other hne :=
    have hsame := h.others other hne
    ⟨(Function.update_of_ne hne ..).trans hsame.session, hsame.file, hsame.acknowledged, hsame.pending,
      hsame.handed⟩
  owner := h.owner
  lock := h.lock
  started := h.started

theorem ChangesOnly.setAcknowledged (h : ChangesOnly s t task id) (chunks : List Bytes) :
    ChangesOnly s { t with acknowledged := Function.update t.acknowledged id chunks } task id where
  tasks := h.tasks
  claims := h.claims
  others other hne :=
    have hsame := h.others other hne
    ⟨hsame.session, hsame.file, (Function.update_of_ne hne ..).trans hsame.acknowledged, hsame.pending,
      hsame.handed⟩
  owner := h.owner
  lock := h.lock
  started := h.started

theorem ChangesOnly.setPending (h : ChangesOnly s t task id) {pending : List (Text × FileOp)}
    (hpending : ∀ other op, other ≠ id → (other, op) ∈ pending → (other, op) ∈ t.pending) :
    ChangesOnly s { t with pending } task id where
  tasks := h.tasks
  claims := h.claims
  others other hne :=
    have hsame := h.others other hne
    ⟨hsame.session, hsame.file, hsame.acknowledged,
      fun op hop => hsame.pending op (hpending other op hne hop), hsame.handed⟩
  owner := h.owner
  lock := h.lock
  started := h.started

theorem changesOnly_leave (hunheld : s.Unheld task id) : ChangesOnly s (s.leave task id) task id :=
  (changesOnly_become fun _ _ h => by cases h).setOwner hunheld none

theorem become_self {state : Task} : (s.become task state).tasks task = state := Function.update_self ..

/-! What each event does. -/

theorem Sound.leave (h : s.Sound maxUploadBytes) (howner : s.owner id = some task) :
    (s.leave task id).Sound maxUploadBytes := by
  have hunheld : s.Unheld task id := h.unheld fun other hother => by
    rw [howner] at hother
    exact (Option.some.inj hother).symm
  exact h.moves (changesOnly_leave hunheld) ⟨rfl, rfl, rfl, fun _ hop => hop, fun hmem => hmem⟩ rfl rfl
    become_self trivial

/-- A request that only goes on does not touch what is kept. -/
theorem Sound.become {state : Task} (h : s.Sound maxUploadBytes)
    (hclaims : ∀ other expectedBytes, state ≠ .claimed other expectedBytes)
    (hfits : (s.become task state).Fits maxUploadBytes task state) :
    (s.become task state).Sound maxUploadBytes :=
  have hsame : SameAt s (s.become task state) [] := ⟨rfl, rfl, rfl, fun _ hop => hop, fun hmem => hmem⟩
  h.moves (changesOnly_become fun other expectedBytes he => absurd he (hclaims other expectedBytes)) hsame
    rfl rfl become_self hfits

end Service

end StreamArena.Uploads
