import Mathlib
import StreamArena.Library.InsertionMap
import StreamArena.Library.JsonValue
import StreamArena.Library.Runs
import StreamArena.Library.TaskPool

/-! The queue of the web player that saves watch checkpoints
(src/src-ui/player/checkpoint-save.js). -/
namespace StreamArena.WebPlayer
open AsciiText JsonValue KeyedTable Runs TaskPool

/-- The endpoints of a checkpoint, `CHECKPOINT_PATHS`. -/
inductive CheckpointPath where
  | watchProgress
  | continueWatching
  deriving DecidableEq

def checkpointPaths : List CheckpointPath := [.watchProgress, .continueWatching]

theorem mem_checkpointPaths (path : CheckpointPath) : path ∈ checkpointPaths := by
  cases path <;> decide

def CheckpointPath.text : CheckpointPath → Text
  | .watchProgress => "/api/user/watch-progress".toList
  | .continueWatching => "/api/user/continue-watching".toList

inductive SaveMethod where
  | put
  | delete
  deriving DecidableEq

abbrev Fields := Table Text Value

/-- A payload with its mutation time, which it keeps if it has one. -/
def replaySafeMutationBody (timestamp : Int) (payload : Fields) : Fields :=
  payload.set "updatedAt".toList (.int (match payload.get "updatedAt".toList with
    | some (.int existing) => if 0 < existing ∧ existing ≤ 2 ^ 53 - 1 then existing else timestamp
    | _ => timestamp))

/-- A checkpoint as it was enqueued; the serial number stands for the object's identity. -/
structure Snapshot where
  serial : Nat
  sourceIdentity : Text
  method : SaveMethod
  progressBody : Fields
  metadataBody : Fields

def checkpoint (serial : Nat) (sourceIdentity : Text) (resumeSeconds : ℚ) (metadata : Fields) (remove : Bool)
    (timestamp : Int) : Snapshot :=
  let identity : Fields := Table.empty.set "sourceIdentity".toList (.string sourceIdentity)
  let progressBody := replaySafeMutationBody timestamp
    (if remove then identity else identity.set "resumeSeconds".toList (.float resumeSeconds))
  let updatedAt := (progressBody.get "updatedAt".toList).getD .null
  let metadataBody := replaySafeMutationBody timestamp
    (if remove then identity.set "updatedAt".toList updatedAt
    else
      ((metadata.set "sourceIdentity".toList (.string sourceIdentity)).set "resumeSeconds".toList
        (.float resumeSeconds)).set "updatedAt".toList updatedAt)
  ⟨serial, sourceIdentity, if remove then .delete else .put, progressBody, metadataBody⟩

/-- A request that was started, with the account that was signed in then. -/
structure SaveRequest where
  snapshot : Snapshot
  path : CheckpointPath
  keepalive : Bool
  owner : Text

def SaveRequest.body (r : SaveRequest) : Fields :=
  if r.path = .watchProgress then r.snapshot.progressBody else r.snapshot.metadataBody

/-- How a request ends: with a response of success, or with a status, 0 where there is none. -/
inductive Outcome where
  | ok
  | failed (status : Nat)

def Outcome.rejects : Outcome → Bool
  | .ok => false
  | .failed _ => true

def retryable (status : Nat) : Bool := status == 0 || status == 408 || status == 429 || decide (500 ≤ status)

/-- A call of `drain` that waits for the first of these requests. -/
structure DrainCall where
  snapshot : Snapshot
  startedGeneration : Nat
  paths : List CheckpointPath

/-- The requests of one checkpoint that a page exit has sent. -/
structure FlushCall where
  snapshot : Snapshot
  waiting : List CheckpointPath
  rejected : Bool

structure SaveOptions where
  owner : Text
  retryDelays : List Nat

/-- What has happened: the checkpoints made, the requests started (the last one first), their
answers, and the checkpoints that `retryPending` has yet to send. -/
structure SaveHistory where
  created : Nat
  newest : Text → Option Snapshot
  requests : List SaveRequest
  acknowledged : List (Nat × CheckpointPath)
  refused : List Nat
  owed : List Snapshot
  owned : Bool

structure SaveQueue where
  currentOwner : Text
  queued : Table Text Snapshot
  unsynced : Table Text Snapshot
  active : Option Snapshot
  retryTimer : Option Nat
  retryAttempt : Nat
  disposed : Bool
  generation : Nat
  drains : Pool DrainCall
  flushes : Pool FlushCall
  history : SaveHistory

inductive SaveEvent where
  | enqueue (sourceIdentity : Text) (resumeSeconds : ℚ) (metadata : Fields) (remove : Bool) (timestamp : Int)
  | answered (task : Nat) (outcome : Outcome)
  | flushAnswered (task : Nat) (path : CheckpointPath) (outcome : Outcome)
  | retryTimer
  | flushForExit
  | retryPending
  | dispose
  | signedIn (account : Text)

namespace SaveHistory

def start (h : SaveHistory) (requests : List SaveRequest) : SaveHistory :=
  { h with
    requests := requests.reverse ++ h.requests
    owed := h.owed.filter fun x => !requests.any fun r => r.snapshot.serial == x.serial }

def push (h : SaveHistory) (snapshot : Snapshot) : SaveHistory :=
  { h with
    created := h.created + 1
    newest := Function.update h.newest snapshot.sourceIdentity (some snapshot)
    owed := h.owed.filter fun x => x.sourceIdentity != snapshot.sourceIdentity }

def answer (h : SaveHistory) (snapshot : Snapshot) (path : CheckpointPath) : Outcome → SaveHistory
  | .ok => { h with acknowledged := (snapshot.serial, path) :: h.acknowledged }
  | .failed status => if retryable status then h else { h with refused := snapshot.serial :: h.refused }

/-- Both endpoints have acknowledged a checkpoint, or one has refused it. -/
def Settled (h : SaveHistory) (x : Snapshot) : Prop :=
  (∀ path ∈ checkpointPaths, (x.serial, path) ∈ h.acknowledged) ∨ x.serial ∈ h.refused

end SaveHistory

namespace SaveQueue

section step
variable (o : SaveOptions)

def ownsState (q : SaveQueue) : Bool := !o.owner.isEmpty && o.owner == q.currentOwner

def new : SaveQueue where
  currentOwner := o.owner
  queued := .empty
  unsynced := .empty
  active := none
  retryTimer := none
  retryAttempt := 0
  disposed := false
  generation := 0
  drains := .empty
  flushes := .empty
  history := ⟨0, fun _ => none, [], [], [], [], !o.owner.isEmpty⟩

def clear (q : SaveQueue) : SaveQueue :=
  { q with queued := .empty, unsynced := .empty, history := { q.history with owed := [] } }

def request (q : SaveQueue) (snapshot : Snapshot) (path : CheckpointPath) : SaveQueue :=
  { q with history := q.history.start [⟨snapshot, path, false, q.currentOwner⟩] }

def drain (q : SaveQueue) : SaveQueue :=
  if q.active.isSome || q.retryTimer.isSome || q.disposed then q
  else if !q.ownsState o then q.clear
  else
    match q.queued.rows.head? with
    | none => q
    | some (_, snapshot) =>
      -- the checks of the loop's first turn are those just made
      { q.request snapshot .watchProgress with
        queued := q.queued.delete snapshot.sourceIdentity
        active := some snapshot
        drains := q.drains.add ⟨snapshot, q.generation, checkpointPaths⟩ }

/-- The `finally` of `drain`. -/
def finish (q : SaveQueue) (task : Nat) : SaveQueue :=
  let q := { q with active := none, drains := q.drains.drop task }
  if !q.disposed && q.retryTimer.isNone then q.drain o else q

/-- Takes a checkpoint out of the unsynced ones, unless a newer one has its place. -/
def sync (q : SaveQueue) (snapshot : Snapshot) : SaveQueue :=
  if (q.unsynced.get snapshot.sourceIdentity).any (·.serial == snapshot.serial) then
    { q with unsynced := q.unsynced.delete snapshot.sourceIdentity }
  else q

/-- The loop of `drain` after one of its requests has succeeded. -/
def proceed (q : SaveQueue) (task : Nat) (call : DrainCall) : SaveQueue :=
  match call.paths.tail with
  | [] => ({ q.sync call.snapshot with retryAttempt := 0 } : SaveQueue).finish o task
  | path :: paths =>
    if q.disposed || !q.ownsState o then q.clear.finish o task
    else if q.generation ≠ call.startedGeneration then q.finish o task
    else { q.request call.snapshot path with drains := q.drains.put task { call with paths := path :: paths } }

/-- The `catch` of `drain`. -/
def fail (q : SaveQueue) (call : DrainCall) (status : Nat) : SaveQueue :=
  if !q.disposed && q.ownsState o && q.generation == call.startedGeneration then
    if retryable status then
      match o.retryDelays[q.retryAttempt]? with
      | some delay =>
        let key := call.snapshot.sourceIdentity
        { q with
          queued := if (q.queued.get key).isSome then q.queued else q.queued.set key call.snapshot
          retryAttempt := q.retryAttempt + 1
          retryTimer := some delay }
      | none => { q with retryAttempt := 0 }
    else { q.sync call.snapshot with retryAttempt := 0 }
  else q

def answered (q : SaveQueue) (task : Nat) (outcome : Outcome) : SaveQueue :=
  match q.drains.get task with
  | none => q
  | some call =>
    let q := { q with history := q.history.answer call.snapshot (call.paths.headD .watchProgress) outcome }
    match outcome with
    | .ok => q.proceed o task call
    | .failed status => (q.fail o call status).finish o task

/-- A page exit's pair is in sync once both of its requests have succeeded. -/
def flushAnswered (q : SaveQueue) (task : Nat) (path : CheckpointPath) (outcome : Outcome) : SaveQueue :=
  match q.flushes.get task with
  | none => q
  | some call =>
    if path ∈ call.waiting then
      let waiting := call.waiting.erase path
      let rejected := call.rejected || outcome.rejects
      let q := { q with
        history := q.history.answer call.snapshot path outcome
        flushes := q.flushes.change task fun _ => if waiting.isEmpty then none else some { call with waiting, rejected } }
      if waiting.isEmpty && !rejected then q.sync call.snapshot else q
    else q

def push (q : SaveQueue) (snapshot : Snapshot) : SaveQueue :=
  { q with
    unsynced := q.unsynced.set snapshot.sourceIdentity snapshot
    queued := q.queued.set snapshot.sourceIdentity snapshot
    history := q.history.push snapshot }

def enqueue (q : SaveQueue) (sourceIdentity : Text) (resumeSeconds : ℚ) (metadata : Fields) (remove : Bool)
    (timestamp : Int) : SaveQueue :=
  if !q.ownsState o then q.clear
  else if q.disposed || sourceIdentity.isEmpty || !remove && !decide (1 ≤ resumeSeconds) then q
  else (q.push (checkpoint q.history.created sourceIdentity resumeSeconds metadata remove timestamp)).drain o

def flushForExit (q : SaveQueue) : SaveQueue :=
  let q := { q with generation := q.generation + 1, retryTimer := none }
  if !q.ownsState o then q.clear
  else
    let snapshots := q.unsynced.values
    { q with
      queued := .empty
      flushes := snapshots.foldl (fun flushes snapshot => flushes.add ⟨snapshot, checkpointPaths, false⟩) q.flushes
      history := q.history.start
        (snapshots.flatMap fun snapshot => checkpointPaths.map fun path => ⟨snapshot, path, true, q.currentOwner⟩) }

def retryPending (q : SaveQueue) : SaveQueue :=
  if q.disposed then q
  else if !q.ownsState o then q.clear
  else
    let pending := q.unsynced.values.filter fun snapshot => !q.active.any (·.serial == snapshot.serial)
    ({ q with
      retryTimer := none
      retryAttempt := 0
      queued := pending.foldl (fun queued snapshot => queued.set snapshot.sourceIdentity snapshot) q.queued
      history := { q.history with owed := pending } } : SaveQueue).drain o

def signedIn (q : SaveQueue) (account : Text) : SaveQueue :=
  { q with currentOwner := account, history := { q.history with owned := q.history.owned && o.owner == account } }

def step (q : SaveQueue) : SaveEvent → SaveQueue
  | .enqueue sourceIdentity resumeSeconds metadata remove timestamp =>
    q.enqueue o sourceIdentity resumeSeconds metadata remove timestamp
  | .answered task outcome => q.answered o task outcome
  | .flushAnswered task path outcome => q.flushAnswered task path outcome
  | .retryTimer => if q.retryTimer.isSome then ({ q with retryTimer := none } : SaveQueue).drain o else q
  | .flushForExit => q.flushForExit o
  | .retryPending => q.retryPending o
  | .dispose => { q.clear with disposed := true, retryTimer := none }
  | .signedIn account => q.signedIn o account

end step

/-- What holds while the owner is the same: the maps have the newest checkpoints, and have all of
them that are not settled; no request of a checkpoint came after one of a newer one. -/
structure Keeping (h : SaveHistory) (queued unsynced : Table Text Snapshot) : Prop where
  identity : ∀ id x, h.newest id = some x → x.sourceIdentity = id ∧ x.serial < h.created
  newestUnsynced : ∀ id x, unsynced.get id = some x → h.newest id = some x
  newestQueued : ∀ id x, queued.get id = some x → h.newest id = some x
  retained : ∀ id x, h.newest id = some x → ¬ h.Settled x → unsynced.get id = some x
  newestOwed : ∀ x ∈ h.owed, h.newest x.sourceIdentity = some x
  owed : ∀ x ∈ h.owed, ¬ h.Settled x → queued.get x.sourceIdentity = some x
  inOrder : h.requests.Pairwise fun later earlier =>
    later.snapshot.sourceIdentity = earlier.snapshot.sourceIdentity → earlier.snapshot.serial ≤ later.snapshot.serial
  started : ∀ r ∈ h.requests, ∃ y, h.newest r.snapshot.sourceIdentity = some y ∧ r.snapshot.serial ≤ y.serial

/-- What holds of a drain that no page exit has overtaken. -/
structure Current (h : SaveHistory) (queued : Table Text Snapshot) (call : DrainCall) : Prop where
  newest : queued.get call.snapshot.sourceIdentity = none → h.newest call.snapshot.sourceIdentity = some call.snapshot
  begun : ∃ y, h.newest call.snapshot.sourceIdentity = some y ∧ call.snapshot.serial ≤ y.serial
  latest : ∀ r ∈ h.requests, r.snapshot.sourceIdentity = call.snapshot.sourceIdentity →
    r.snapshot.serial ≤ call.snapshot.serial

variable {o : SaveOptions} {q : SaveQueue} {h : SaveHistory} {queued unsynced : Table Text Snapshot}
  {call : DrainCall} {x y : Snapshot} {requests : List SaveRequest} {path : CheckpointPath} {outcome : Outcome}

/-- The answers that a call waiting for the first of its requests has had. -/
def Answered (h : SaveHistory) (call : DrainCall) : Prop :=
  call.paths = checkpointPaths ∨
    call.paths = [.continueWatching] ∧ (call.snapshot.serial, .watchProgress) ∈ h.acknowledged

def FlushAnswered (h : SaveHistory) (call : FlushCall) : Prop :=
  call.rejected = false → ∀ path, path ∉ call.waiting → (call.snapshot.serial, path) ∈ h.acknowledged

/-- An answer adds to what was acknowledged and refused, and changes nothing else. -/
theorem answer_spec (h : SaveHistory) (y : Snapshot) (path : CheckpointPath) (outcome : Outcome) :
    ∃ acknowledged refused, h.answer y path outcome = { h with acknowledged, refused } ∧
      h.acknowledged ⊆ acknowledged ∧ h.refused ⊆ refused := by
  cases outcome with
  | ok => exact ⟨_, _, rfl, List.subset_cons_self .., List.Subset.refl _⟩
  | failed status =>
    rw [SaveHistory.answer]
    split
    · exact ⟨_, _, rfl, List.Subset.refl _, List.Subset.refl _⟩
    · exact ⟨_, _, rfl, List.Subset.refl _, List.subset_cons_self ..⟩

theorem settled_mono {h' : SaveHistory} (hx : h.Settled x) (hacknowledged : h.acknowledged ⊆ h'.acknowledged)
    (hrefused : h.refused ⊆ h'.refused) : h'.Settled x :=
  hx.imp (fun hall path hpath => hacknowledged (hall path hpath)) fun hmem => hrefused hmem

theorem Keeping.answer (hk : Keeping h queued unsynced) : Keeping (h.answer y path outcome) queued unsynced := by
  obtain ⟨acknowledged, refused, heq, hacknowledged, hrefused⟩ := answer_spec h y path outcome
  rw [heq]
  exact {
    hk with
    retained := fun id x hx hnot =>
      hk.retained id x hx fun hsettled => hnot (settled_mono hsettled hacknowledged hrefused)
    owed := fun x hx hnot => hk.owed x hx fun hsettled => hnot (settled_mono hsettled hacknowledged hrefused) }

theorem Current.answer (hc : Current h queued call) : Current (h.answer y path outcome) queued call := by
  obtain ⟨acknowledged, refused, heq, -⟩ := answer_spec h y path outcome
  rw [heq]
  exact { hc with }

/-- Requests of newest checkpoints keep the order. -/
theorem Keeping.start (hk : Keeping h queued unsynced)
    (hnewest : ∀ r ∈ requests, h.newest r.snapshot.sourceIdentity = some r.snapshot) :
    Keeping (h.start requests) queued unsynced where
  identity := hk.identity
  newestUnsynced := hk.newestUnsynced
  newestQueued := hk.newestQueued
  retained := hk.retained
  newestOwed x hx := hk.newestOwed x (List.mem_filter.mp hx).1
  owed x hx := hk.owed x (List.mem_filter.mp hx).1
  inOrder := by
    rw [SaveHistory.start, List.pairwise_append]
    refine ⟨List.pairwise_of_forall_mem_list fun a ha b hb hab => ?_, hk.inOrder, fun a ha b hb hab => ?_⟩
    · have hsame := hnewest a (List.mem_reverse.mp ha)
      rw [hab, hnewest b (List.mem_reverse.mp hb), Option.some.injEq] at hsame
      rw [hsame]
    · obtain ⟨y, hy, hle⟩ := hk.started b hb
      rw [← hab, hnewest a (List.mem_reverse.mp ha), Option.some.injEq] at hy
      rw [hy]
      exact hle
  started r hr := by
    obtain hnew | hold := List.mem_append.mp hr
    · exact ⟨_, hnewest r (List.mem_reverse.mp hnew), Nat.le_refl _⟩
    · exact hk.started r hold

/-- So does the next request of a drain that no page exit has overtaken. -/
theorem Keeping.start_current {keepalive : Bool} {owner : Text} (hk : Keeping h queued unsynced)
    (hc : Current h queued call) : Keeping (h.start [⟨call.snapshot, path, keepalive, owner⟩]) queued unsynced where
  identity := hk.identity
  newestUnsynced := hk.newestUnsynced
  newestQueued := hk.newestQueued
  retained := hk.retained
  newestOwed x hx := hk.newestOwed x (List.mem_filter.mp hx).1
  owed x hx := hk.owed x (List.mem_filter.mp hx).1
  inOrder := List.pairwise_cons.mpr ⟨fun b hb hab => hc.latest b hb hab.symm, hk.inOrder⟩
  started r hr := by
    obtain rfl | hold := List.mem_cons.mp hr
    · exact hc.begun
    · exact hk.started r hold

/-- A settled checkpoint may leave the unsynced ones. -/
theorem Keeping.delete {key : Text} (hk : Keeping h queued unsynced) (hsettled : h.Settled y)
    (hx : unsynced.get key = some x) (hserial : x.serial = y.serial) : Keeping h queued (unsynced.delete key) := {
  hk with
  newestUnsynced := fun id z hz => by
    rw [get_delete] at hz
    split at hz
    · cases hz
    · exact hk.newestUnsynced id z hz
  retained := fun id z hz hnot => by
    rw [get_delete]
    split
    next heq =>
      rw [heq, hk.newestUnsynced key x hx, Option.some.injEq] at hz
      rw [← hz, SaveHistory.Settled, hserial] at hnot
      exact absurd hsettled hnot
    next => exact hk.retained id z hz hnot }

structure Steady (o : SaveOptions) (q : SaveQueue) : Prop where
  single : q.drains.Single
  active : ∀ task call, q.drains.get task = some call → q.active = some call.snapshot
  inFlight : q.active.isSome → ∃ task, (q.drains.get task).isSome
  owners : ∀ r ∈ q.history.requests, r.owner = o.owner
  answered : q.drains.All (Answered q.history)
  flushAnswered : q.flushes.All (FlushAnswered q.history)
  generation : q.drains.All fun call => call.startedGeneration ≤ q.generation
  owned : q.history.owned = true → q.ownsState o = true
  keeping : q.history.owned = true → q.disposed = false → Keeping q.history q.queued q.unsynced
  current : q.history.owned = true → q.disposed = false →
    q.drains.All fun call => call.startedGeneration = q.generation → Current q.history q.queued call

/-- What is queued is sent when a drain in flight ends, or when the timer fires. -/
def Moving (q : SaveQueue) : Prop :=
  q.disposed = false → q.queued.rows ≠ [] → q.active.isSome ∨ q.retryTimer.isSome

theorem owner_of_ownsState (h : q.ownsState o = true) : q.currentOwner = o.owner := by
  rw [ownsState, Bool.and_eq_true, beq_iff_eq] at h
  exact h.2.symm

theorem Steady.clear (h : q.Steady o) (hlost : q.disposed = true ∨ q.ownsState o = false) : q.clear.Steady o := {
  h with
  keeping := fun howned hdisposed => by
    obtain hd | ho := hlost
    · exact absurd (hdisposed.symm.trans hd) Bool.false_ne_true
    · exact absurd (ho.symm.trans (h.owned howned)) Bool.false_ne_true
  current := fun howned hdisposed => by
    obtain hd | ho := hlost
    · exact absurd (hdisposed.symm.trans hd) Bool.false_ne_true
    · exact absurd (ho.symm.trans (h.owned howned)) Bool.false_ne_true }

theorem Keeping.dequeue (hk : Keeping h queued unsynced) (hx : queued.get x.sourceIdentity = some x) {owner : Text} :
    Keeping (h.start [⟨x, path, false, owner⟩]) (queued.delete x.sourceIdentity) unsynced := by
  have hstart : Keeping (h.start [⟨x, path, false, owner⟩]) queued unsynced := hk.start fun r hr => by
    rw [List.mem_singleton.mp hr]
    exact hk.newestQueued _ x hx
  exact {
    hstart with
    newestQueued := fun id z hz => by
      rw [get_delete] at hz
      split at hz
      · cases hz
      · exact hk.newestQueued id z hz
    owed := fun z hz hnot => by
      obtain ⟨hmem, hserial⟩ := List.mem_filter.mp hz
      have hold := hk.owed z hmem hnot
      rw [get_delete]
      split
      next heq =>
        rw [heq, hx, Option.some.injEq] at hold
        simp [hold] at hserial
      next => exact hold }

/-- A checkpoint that failed is queued again, unless a newer one is. -/
theorem Keeping.requeue (hk : Keeping h queued unsynced) (hc : Current h queued call) :
    Keeping h (if (queued.get call.snapshot.sourceIdentity).isSome then queued
      else queued.set call.snapshot.sourceIdentity call.snapshot) unsynced := by
  split
  next => exact hk
  next hnone =>
    have hnewest := hc.newest (Option.not_isSome_iff_eq_none.mp hnone)
    exact {
      hk with
      newestQueued := fun id z hz => by
        rw [get_set] at hz
        split at hz
        next heq =>
          rw [heq, hnewest]
          exact hz
        next => exact hk.newestQueued id z hz
      owed := fun z hz hnot => by
        rw [get_set]
        split
        next heq =>
          rw [← hnewest, ← heq]
          exact hk.newestOwed z hz
        next => exact hk.owed z hz hnot }

theorem Current.requeue {other : DrainCall} (hc : Current h queued other) :
    Current h (if (queued.get call.snapshot.sourceIdentity).isSome then queued
      else queued.set call.snapshot.sourceIdentity call.snapshot) other := by
  split
  next => exact hc
  next => exact {
    hc with
    newest := fun hnone => by
      rw [get_set] at hnone
      split at hnone
      · cases hnone
      · exact hc.newest hnone }

theorem Steady.drain (h : q.Steady o) : (q.drain o).Steady o := by
  rw [SaveQueue.drain]
  split
  next => exact h
  next hidle =>
    rw [Bool.or_eq_true, Bool.or_eq_true, not_or, not_or] at hidle
    have hnone (task : Nat) : q.drains.get task = none := by
      cases hget : q.drains.get task with
      | none => rfl
      | some call =>
        rw [h.active task call hget] at hidle
        exact absurd rfl hidle.1.1
    split
    next hlost => exact h.clear (.inr (by simpa using hlost))
    next howns =>
      have howns : q.ownsState o = true := by simpa using howns
      split
      next => exact h
      next key x hhead =>
        exact {
          single := Pool.single_add hnone
          active := fun task call hcall => by
            obtain ⟨-, rfl⟩ | hold := Pool.get_add_eq_some.mp hcall
            · rfl
            · rw [hnone] at hold
              cases hold
          inFlight := fun _ => ⟨q.drains.next, by rw [Pool.get_add, if_pos rfl]; rfl⟩
          owners := fun r hr => by
            obtain rfl | hold := List.mem_cons.mp hr
            · exact owner_of_ownsState howns
            · exact h.owners r hold
          answered := (h.answered.imp fun _ hc => hc).add (.inl rfl)
          flushAnswered := h.flushAnswered
          generation := h.generation.add (Nat.le_refl _)
          owned := h.owned
          keeping := fun howned hdisposed => by
            have hk := h.keeping howned hdisposed
            have hx := get_of_head? hhead
            rw [← (hk.identity key x (hk.newestQueued key x hx)).1] at hx
            exact hk.dequeue hx
          current := fun howned hdisposed => by
            have hk := h.keeping howned hdisposed
            have hx := hk.newestQueued key x (get_of_head? hhead)
            rw [← (hk.identity key x hx).1] at hx
            refine Pool.All.add (fun task call hcall => by rw [hnone] at hcall; cases hcall) fun _ => ?_
            exact {
              newest := fun _ => hx
              begun := ⟨x, hx, Nat.le_refl _⟩
              latest := fun r hr hid => by
                obtain rfl | hold := List.mem_cons.mp hr
                · exact Nat.le_refl _
                · obtain ⟨y, hy, hle⟩ := hk.started r hold
                  rw [hid, hx, Option.some.injEq] at hy
                  rw [hy]
                  exact hle } }

theorem moving_drain : (q.drain o).Moving := by
  intro hdisposed hrows
  rw [SaveQueue.drain] at hdisposed hrows ⊢
  split
  next hbusy =>
    rw [if_pos hbusy] at hdisposed
    rw [Bool.or_eq_true, Bool.or_eq_true] at hbusy
    exact hbusy.resolve_right fun hd => absurd (hdisposed.symm.trans hd) Bool.false_ne_true
  next hidle =>
    rw [if_neg hidle] at hrows
    split
    next hlost =>
      rw [if_pos hlost] at hrows
      exact absurd rfl hrows
    next howns =>
      rw [if_neg howns] at hrows
      split
      next hhead =>
        rw [hhead] at hrows
        exact absurd (List.head?_eq_none_iff.mp hhead) hrows
      next => exact .inl rfl

theorem Steady.finish {task : Nat} (h : q.Steady o) (hcall : q.drains.get task = some call) :
    (q.finish o task).Steady o := by
  have hended : ({ q with active := none, drains := q.drains.drop task } : SaveQueue).Steady o := {
    h with
    single := h.single.drop
    active := fun other call' hget => by
      rw [h.single.get_drop hcall] at hget
      cases hget
    inFlight := fun hactive => by cases hactive
    answered := h.answered.drop
    generation := h.generation.drop
    current := fun howned hdisposed => (h.current howned hdisposed).drop }
  rw [SaveQueue.finish]
  split
  · exact hended.drain
  · exact hended

theorem moving_finish (task : Nat) : (q.finish o task).Moving := by
  rw [SaveQueue.finish]
  split
  next => exact moving_drain
  next hnot =>
    intro hdisposed _
    have hnot : ¬ (!q.disposed && q.retryTimer.isNone) = true := hnot
    have hdisposed : q.disposed = false := hdisposed
    rw [hdisposed, Bool.not_false, Bool.true_and, Option.isNone_iff_eq_none] at hnot
    exact .inr (Option.ne_none_iff_isSome.mp hnot)

theorem Steady.sync (h : q.Steady o) (hsettled : q.history.Settled x) : (q.sync x).Steady o := by
  rw [SaveQueue.sync]
  split
  next hany =>
    obtain ⟨y, hy, hserial⟩ := (Option.any_eq_true _ _).mp hany
    exact {
      h with
      keeping := fun howned hdisposed => (h.keeping howned hdisposed).delete hsettled hy (beq_iff_eq.mp hserial)
      current := h.current }
  next => exact h

theorem Steady.answer (h : q.Steady o) (x : Snapshot) (path : CheckpointPath) (outcome : Outcome) :
    ({ q with history := q.history.answer x path outcome } : SaveQueue).Steady o := by
  have hkeeping (hk : Keeping q.history q.queued q.unsynced) : Keeping (q.history.answer x path outcome) q.queued q.unsynced :=
    hk.answer
  have hcurrent (call : DrainCall) (hc : Current q.history q.queued call) :
      Current (q.history.answer x path outcome) q.queued call := hc.answer
  obtain ⟨acknowledged, refused, heq, hacknowledged, -⟩ := answer_spec q.history x path outcome
  rw [heq] at hkeeping hcurrent ⊢
  exact {
    h with
    answered := h.answered.imp fun call hc => hc.imp_right fun hc => ⟨hc.1, hacknowledged hc.2⟩
    flushAnswered := h.flushAnswered.imp fun call hc hrejected path hpath => hacknowledged (hc hrejected path hpath)
    keeping := fun howned hdisposed => hkeeping (h.keeping howned hdisposed)
    current := fun howned hdisposed => (h.current howned hdisposed).imp fun call hc hgen => hcurrent call (hc hgen) }

theorem get_drains_fail {task status : Nat} (hcall : q.drains.get task = some call) :
    (q.fail o call status).drains.get task = some call := by
  rw [← hcall, SaveQueue.fail, SaveQueue.sync]
  repeat' split
  all_goals rfl

theorem Steady.fail {task status : Nat} (h : q.Steady o) (hcall : q.drains.get task = some call)
    (hrefused : retryable status = false → call.snapshot.serial ∈ q.history.refused) :
    (q.fail o call status).Steady o := by
  rw [SaveQueue.fail]
  split
  next hguard =>
    rw [Bool.and_eq_true, Bool.and_eq_true, beq_iff_eq] at hguard
    split
    next =>
      split
      next delay =>
        refine { h with keeping := fun howned hdisposed => ?_, current := fun howned hdisposed => ?_ }
        · have hk := h.keeping howned hdisposed
          have hc := h.current howned hdisposed task call hcall hguard.2.symm
          exact hk.requeue hc
        · have hc := h.current howned hdisposed task call hcall hguard.2.symm
          exact (h.current howned hdisposed).imp fun other hother hgen => (hother hgen).requeue
      next => exact { h with }
    next hnot =>
      have hsync := h.sync (x := call.snapshot) (.inr (hrefused (Bool.not_eq_true _ ▸ hnot)))
      exact { hsync with }
  next => exact h

theorem Steady.proceed {task : Nat} {q' : SaveQueue} (h : q.Steady o) (hcall : q.drains.get task = some call)
    (hq : q' = { q with history := q.history.answer call.snapshot (call.paths.headD .watchProgress) .ok }) :
    (q'.proceed o task call).Steady o := by
  have hanswered := h.answered task call hcall
  have hsteady : q'.Steady o := hq ▸ h.answer _ _ _
  have hget : q'.drains.get task = some call := hq ▸ hcall
  rw [SaveQueue.proceed]
  split
  next htail =>
    have hsettled : q'.history.Settled call.snapshot := by
      obtain hpaths | ⟨hpaths, hfirst⟩ := hanswered
      · rw [hpaths] at htail
        cases htail
      · subst hq
        refine .inl fun path _ => ?_
        cases path with
        | watchProgress => exact List.mem_cons_of_mem _ hfirst
        | continueWatching =>
          rw [hpaths]
          exact List.mem_cons_self
    have hsync := hsteady.sync hsettled
    have hreset : ({ q'.sync call.snapshot with retryAttempt := 0 } : SaveQueue).Steady o := { hsync with }
    have hstill : (q'.sync call.snapshot).drains.get task = some call := by
      rw [← hget, SaveQueue.sync]
      split <;> rfl
    exact hreset.finish hstill
  next path paths htail =>
    split
    next hlost =>
      rw [Bool.or_eq_true, Bool.not_eq_true'] at hlost
      exact (hsteady.clear hlost).finish hget
    next howns =>
      rw [Bool.or_eq_true, Bool.not_eq_true', not_or, Bool.not_eq_false] at howns
      split
      next => exact hsteady.finish hget
      next hgen =>
        have hgen : call.startedGeneration = q'.generation := (not_not.mp hgen).symm
        exact {
          hsteady with
          single := hsteady.single.change _
          active := fun other call' hother => by
            obtain ⟨rfl, a, ha, hab⟩ | ⟨-, hold⟩ := Pool.get_change_eq_some.mp hother
            · rw [← Option.some.inj hab]
              exact hsteady.active _ call hget
            · exact hsteady.active other call' hold
          inFlight := fun hactive => ⟨task, by rw [Pool.put, Pool.get_change, if_pos rfl, hget]; rfl⟩
          owners := fun r hr => by
            obtain rfl | hold := List.mem_cons.mp hr
            · exact owner_of_ownsState howns.2
            · exact hsteady.owners r hold
          answered := by
            refine hsteady.answered.put (.inr ?_)
            obtain hpaths | ⟨hpaths, -⟩ := hanswered
            · rw [hpaths] at htail
              cases htail
              subst hq
              refine ⟨rfl, ?_⟩
              rw [hpaths]
              exact List.mem_cons_self
            · rw [hpaths] at htail
              cases htail
          generation := hsteady.generation.put (Nat.le_of_eq hgen)
          keeping := fun howned hdisposed =>
            (hsteady.keeping howned hdisposed).start_current (hsteady.current howned hdisposed task call hget hgen)
          current := fun howned hdisposed => by
            have hc := hsteady.current howned hdisposed task call hget hgen
            have hnext : Current (q'.request call.snapshot path).history q'.queued { call with paths := path :: paths } := {
              newest := hc.newest
              begun := hc.begun
              latest := fun r hr hid => by
                obtain rfl | hold := List.mem_cons.mp hr
                · exact Nat.le_refl _
                · exact hc.latest r hold hid }
            intro other call' hother hgen'
            obtain ⟨-, a, -, hab⟩ | ⟨hne, hold⟩ := Pool.get_change_eq_some.mp hother
            · exact Option.some.inj hab ▸ hnext
            · exact absurd (hsteady.single other task call' call hold hget) hne }

theorem moving_proceed {task : Nat} (hactive : q.active.isSome) : (q.proceed o task call).Moving := by
  rw [SaveQueue.proceed]
  split
  next => exact moving_finish task
  next =>
    split
    next => exact moving_finish task
    next =>
      split
      · exact moving_finish task
      · exact fun _ _ => .inl hactive

theorem Steady.answered_step (h : q.Steady o) (hmoving : q.Moving) (task : Nat) (outcome : Outcome) :
    (q.answered o task outcome).Steady o ∧ (q.answered o task outcome).Moving := by
  rw [SaveQueue.answered]
  split
  next => exact ⟨h, hmoving⟩
  next call hcall =>
    have hactive : q.active.isSome := by
      rw [h.active task call hcall]
      rfl
    cases outcome with
    | ok => exact ⟨h.proceed hcall rfl, moving_proceed hactive⟩
    | failed status =>
      have hanswer := h.answer call.snapshot (call.paths.headD .watchProgress) (.failed status)
      have hrefused (hnot : retryable status = false) : call.snapshot.serial ∈
          (q.history.answer call.snapshot (call.paths.headD .watchProgress) (.failed status)).refused := by
        rw [SaveHistory.answer, if_neg (Bool.eq_false_iff.mp hnot)]
        exact List.mem_cons_self
      have hfail := hanswer.fail hcall hrefused
      refine ⟨hfail.finish (get_drains_fail hcall), moving_finish task⟩

theorem Steady.flushAnswered_step (h : q.Steady o) (task : Nat) (path : CheckpointPath) (outcome : Outcome) :
    (q.flushAnswered task path outcome).Steady o := by
  rw [SaveQueue.flushAnswered]
  split
  next => exact h
  next call hcall =>
    split
    next hwaiting =>
      set waiting := call.waiting.erase path
      set rejected := call.rejected || outcome.rejects with hrejected
      have hanswer := h.answer call.snapshot path outcome
      have hall (hnot : rejected = false) (other : CheckpointPath) (hother : other ∉ waiting) :
          (call.snapshot.serial, other) ∈ (q.history.answer call.snapshot path outcome).acknowledged := by
        rw [hrejected, Bool.or_eq_false_iff] at hnot
        by_cases heq : other = path
        · subst heq
          cases outcome with
          | ok => exact List.mem_cons_self
          | failed status => cases hnot.2
        · have hbefore : other ∉ call.waiting := fun hmem => hother ((List.mem_erase_of_ne heq).mpr hmem)
          obtain ⟨acknowledged, refused, hspec, hsubset, -⟩ := answer_spec q.history call.snapshot path outcome
          rw [hspec]
          exact hsubset (h.flushAnswered task call hcall hnot.1 other hbefore)
      have hsteady : ({ q with
          history := q.history.answer call.snapshot path outcome
          flushes := q.flushes.change task fun _ =>
            if waiting.isEmpty then none else some { call with waiting, rejected } } : SaveQueue).Steady o := {
        hanswer with
        flushAnswered := hanswer.flushAnswered.change fun a b ha hab => by
          split at hab
          · cases hab
          · rw [← Option.some.inj hab]
            exact hall }
      dsimp only
      split
      next hdone =>
        rw [Bool.and_eq_true, List.isEmpty_iff, Bool.not_eq_true'] at hdone
        refine hsteady.sync (.inl fun other _ => hall hdone.2 other ?_)
        rw [hdone.1]
        exact List.not_mem_nil
      next => exact hsteady
    next => exact h

theorem moving_sync (hmoving : q.Moving) : (q.sync x).Moving := by
  rw [SaveQueue.sync]
  split <;> exact hmoving

theorem moving_flushAnswered (hmoving : q.Moving) (task : Nat) (path : CheckpointPath) (outcome : Outcome) :
    (q.flushAnswered task path outcome).Moving := by
  rw [SaveQueue.flushAnswered]
  split
  next => exact hmoving
  next =>
    split
    next =>
      dsimp only
      split
      next => exact moving_sync (q := { q with history := _, flushes := _ }) hmoving
      next => exact hmoving
    next => exact hmoving

theorem Keeping.push (hk : Keeping h queued unsynced) (hserial : x.serial = h.created) :
    Keeping (h.push x) (queued.set x.sourceIdentity x) (unsynced.set x.sourceIdentity x) where
  identity id z hz := by
    dsimp only [SaveHistory.push] at hz ⊢
    rw [Function.update_apply] at hz
    split at hz
    next heq =>
      rw [← Option.some.inj hz, heq]
      exact ⟨rfl, by omega⟩
    next =>
      have hold := hk.identity id z hz
      exact ⟨hold.1, by omega⟩
  newestUnsynced id z hz := by
    dsimp only [SaveHistory.push]
    rw [get_set] at hz
    rw [Function.update_apply]
    split
    next heq => rwa [if_pos heq] at hz
    next hne =>
      rw [if_neg hne] at hz
      exact hk.newestUnsynced id z hz
  newestQueued id z hz := by
    dsimp only [SaveHistory.push]
    rw [get_set] at hz
    rw [Function.update_apply]
    split
    next heq => rwa [if_pos heq] at hz
    next hne =>
      rw [if_neg hne] at hz
      exact hk.newestQueued id z hz
  retained id z hz hnot := by
    dsimp only [SaveHistory.push] at hz
    rw [Function.update_apply] at hz
    rw [get_set]
    split
    next heq => rwa [if_pos heq] at hz
    next hne =>
      rw [if_neg hne] at hz
      exact hk.retained id z hz hnot
  newestOwed z hz := by
    obtain ⟨hmem, hne⟩ := List.mem_filter.mp hz
    dsimp only [SaveHistory.push]
    rw [Function.update_of_ne (bne_iff_ne.mp hne)]
    exact hk.newestOwed z hmem
  owed z hz hnot := by
    obtain ⟨hmem, hne⟩ := List.mem_filter.mp hz
    rw [get_set, if_neg (bne_iff_ne.mp hne)]
    exact hk.owed z hmem hnot
  inOrder := hk.inOrder
  started r hr := by
    obtain ⟨y, hy, hle⟩ := hk.started r hr
    dsimp only [SaveHistory.push]
    rw [Function.update_apply]
    split
    next =>
      have hlt := (hk.identity _ y hy).2
      exact ⟨x, rfl, by omega⟩
    next => exact ⟨y, hy, hle⟩

theorem Current.push (hc : Current h queued call) (hk : Keeping h queued unsynced) (hserial : x.serial = h.created) :
    Current (h.push x) (queued.set x.sourceIdentity x) call where
  newest hnone := by
    rw [get_set] at hnone
    dsimp only [SaveHistory.push]
    split at hnone
    next => cases hnone
    next hne =>
      rw [Function.update_of_ne hne]
      exact hc.newest hnone
  begun := by
    obtain ⟨y, hy, hle⟩ := hc.begun
    dsimp only [SaveHistory.push]
    rw [Function.update_apply]
    split
    next =>
      have hlt := (hk.identity _ y hy).2
      exact ⟨x, rfl, by omega⟩
    next => exact ⟨y, hy, hle⟩
  latest := hc.latest

theorem Steady.enqueue (h : q.Steady o) (hmoving : q.Moving) (sourceIdentity : Text) (resumeSeconds : ℚ)
    (metadata : Fields) (remove : Bool) (timestamp : Int) :
    (q.enqueue o sourceIdentity resumeSeconds metadata remove timestamp).Steady o ∧
      (q.enqueue o sourceIdentity resumeSeconds metadata remove timestamp).Moving := by
  rw [SaveQueue.enqueue]
  split
  next hlost => exact ⟨h.clear (.inr (by simpa using hlost)), fun _ hrows => absurd rfl hrows⟩
  next =>
    split
    next => exact ⟨h, hmoving⟩
    next =>
      refine ⟨Steady.drain ?_, moving_drain⟩
      exact {
        h with
        keeping := fun howned hdisposed => (h.keeping howned hdisposed).push rfl
        current := fun howned hdisposed => (h.current howned hdisposed).imp fun call hc hgen =>
          (hc hgen).push (h.keeping howned hdisposed) rfl }

theorem Keeping.flush {owner : Text} {keepalive : Bool} (hk : Keeping h queued unsynced) :
    Keeping (h.start (unsynced.values.flatMap fun x => checkpointPaths.map fun path => ⟨x, path, keepalive, owner⟩))
      .empty unsynced := by
  have hstart : Keeping (h.start (unsynced.values.flatMap fun x =>
      checkpointPaths.map fun path => ⟨x, path, keepalive, owner⟩)) queued unsynced :=
    hk.start fun r hr => by
      obtain ⟨x, hx, hr⟩ := List.mem_flatMap.mp hr
      obtain ⟨path, -, rfl⟩ := List.mem_map.mp hr
      obtain ⟨key, hkey⟩ := mem_values.mp hx
      have hnewest := hk.newestUnsynced key x hkey
      rw [← (hk.identity key x hnewest).1] at hnewest
      exact hnewest
  exact {
    hstart with
    newestQueued := fun id z hz => by cases hz
    owed := fun z hz hnot => by
      obtain ⟨hmem, hsent⟩ := List.mem_filter.mp hz
      have hretained := hk.retained _ z (hk.newestOwed z hmem) hnot
      have hin : (⟨z, .watchProgress, keepalive, owner⟩ : SaveRequest) ∈
          unsynced.values.flatMap fun x => checkpointPaths.map fun path => ⟨x, path, keepalive, owner⟩ :=
        List.mem_flatMap.mpr ⟨z, mem_values.mpr ⟨_, hretained⟩, List.mem_cons_self⟩
      rw [Bool.not_eq_true', List.any_eq_false] at hsent
      exact absurd (beq_self_eq_true z.serial) (hsent _ hin) }

theorem Steady.flushForExit (h : q.Steady o) : (q.flushForExit o).Steady o ∧ (q.flushForExit o).Moving := by
  have hovertaken : ({ q with generation := q.generation + 1, retryTimer := none } : SaveQueue).Steady o := {
    h with
    generation := h.generation.imp fun _ hle => Nat.le_succ_of_le hle
    current := fun _ _ task call hcall hgen => by
      have hle := h.generation task call hcall
      dsimp only at hgen
      omega }
  rw [SaveQueue.flushForExit]
  dsimp only
  split
  next hlost => exact ⟨hovertaken.clear (.inr (by simpa using hlost)), fun _ hrows => absurd rfl hrows⟩
  next howns =>
    have howns : q.ownsState o = true := by
      rw [Bool.not_eq_true', Bool.not_eq_false] at howns
      exact howns
    refine ⟨?_, fun _ hrows => absurd rfl hrows⟩
    exact {
      hovertaken with
      owners := fun r hr => by
        obtain hnew | hold := List.mem_append.mp hr
        · obtain ⟨x, -, hr⟩ := List.mem_flatMap.mp (List.mem_reverse.mp hnew)
          obtain ⟨path, -, rfl⟩ := List.mem_map.mp hr
          exact owner_of_ownsState howns
        · exact h.owners r hold
      flushAnswered := h.flushAnswered.foldl_add fun _ _ _ path hpath => absurd (mem_checkpointPaths path) hpath
      keeping := fun howned hdisposed => (h.keeping howned hdisposed).flush
      current := fun howned hdisposed task call hcall hgen => by
        have hle := h.generation task call hcall
        dsimp only at hgen
        omega }

theorem Keeping.retry {keep : Snapshot → Bool} (hk : Keeping h queued unsynced) :
    Keeping { h with owed := unsynced.values.filter keep }
      ((unsynced.values.filter keep).foldl (fun queued x => queued.set x.sourceIdentity x) queued) unsynced := by
  have hnewest (x : Snapshot) (hx : x ∈ unsynced.values.filter keep) : h.newest x.sourceIdentity = some x := by
    obtain ⟨key, hkey⟩ := mem_values.mp (List.mem_filter.mp hx).1
    have hnewest := hk.newestUnsynced key x hkey
    rwa [← (hk.identity key x hnewest).1] at hnewest
  exact {
    hk with
    newestQueued := fun id z hz => by
      obtain ⟨hmem, rfl⟩ | hold := get_foldl_set_eq_some hz
      · exact hnewest z hmem
      · exact hk.newestQueued id z hold
    newestOwed := hnewest
    owed := fun z hz _ => get_foldl_set (f := Snapshot.sourceIdentity) (.inl hz) fun a ha heq => by
      have hsame := hnewest a ha
      rw [heq, hnewest z hz, Option.some.injEq] at hsame
      exact hsame.symm }

theorem Steady.retryPending (h : q.Steady o) (hmoving : q.Moving) :
    (q.retryPending o).Steady o ∧ (q.retryPending o).Moving := by
  rw [SaveQueue.retryPending]
  split
  next => exact ⟨h, hmoving⟩
  next =>
    split
    next hlost => exact ⟨h.clear (.inr (by simpa using hlost)), fun _ hrows => absurd rfl hrows⟩
    next =>
      refine ⟨Steady.drain ?_, moving_drain⟩
      exact {
        h with
        keeping := fun howned hdisposed => (h.keeping howned hdisposed).retry
        current := fun howned hdisposed => (h.current howned hdisposed).imp fun call hc hgen => {
          hc hgen with
          newest := fun hnone => (hc hgen).newest (by
            cases hget : q.queued.get call.snapshot.sourceIdentity with
            | none => rfl
            | some x =>
              have hsome := get_foldl_set_isSome (f := Snapshot.sourceIdentity)
                (l := q.unsynced.values.filter fun x => !q.active.any (·.serial == x.serial)) (by rw [hget]; rfl)
              dsimp only at hnone
              rw [hnone] at hsome
              cases hsome) } }

theorem Steady.signedIn (h : q.Steady o) (account : Text) : (q.signedIn o account).Steady o := by
  have hboth (howned : (q.signedIn o account).history.owned = true) :
      q.history.owned = true ∧ (o.owner == account) = true := (Bool.and_eq_true _ _).mp howned
  exact {
    h with
    owned := fun howned => by
      have howns := h.owned (hboth howned).1
      rw [ownsState, Bool.and_eq_true] at howns ⊢
      exact ⟨howns.1, (hboth howned).2⟩
    keeping := fun howned hdisposed => { h.keeping (hboth howned).1 hdisposed with }
    current := fun howned hdisposed => (h.current (hboth howned).1 hdisposed).imp fun _ hc hgen => { hc hgen with } }

structure Sound (o : SaveOptions) (q : SaveQueue) : Prop where
  steady : q.Steady o
  moving : q.Moving

theorem sound_new : (new o).Sound o where
  steady := {
    single := Pool.single_empty
    active := fun _ _ h => by cases h
    inFlight := fun h => by cases h
    owners := fun _ hr => by cases hr
    answered := Pool.all_empty
    flushAnswered := Pool.all_empty
    generation := Pool.all_empty
    owned := fun h => by
      rw [ownsState, Bool.and_eq_true]
      exact ⟨h, beq_self_eq_true _⟩
    keeping := fun _ _ => {
      identity := fun _ _ h => by cases h
      newestUnsynced := fun _ _ h => by cases h
      newestQueued := fun _ _ h => by cases h
      retained := fun _ _ h => by cases h
      newestOwed := fun _ h => by cases h
      owed := fun _ h => by cases h
      inOrder := List.Pairwise.nil
      started := fun _ h => by cases h }
    current := fun _ _ => Pool.all_empty }
  moving _ hrows := absurd rfl hrows

theorem Sound.step (h : q.Sound o) (event : SaveEvent) : (q.step o event).Sound o := by
  obtain ⟨hsteady, hmoving⟩ := h
  cases event with
  | enqueue sourceIdentity resumeSeconds metadata remove timestamp =>
    have hnext := hsteady.enqueue hmoving sourceIdentity resumeSeconds metadata remove timestamp
    exact ⟨hnext.1, hnext.2⟩
  | answered task outcome =>
    have hnext := hsteady.answered_step hmoving task outcome
    exact ⟨hnext.1, hnext.2⟩
  | flushAnswered task path outcome =>
    exact ⟨hsteady.flushAnswered_step task path outcome, moving_flushAnswered hmoving task path outcome⟩
  | retryTimer =>
    rw [SaveQueue.step]
    split
    · exact ⟨Steady.drain { hsteady with }, moving_drain⟩
    · exact ⟨hsteady, hmoving⟩
  | flushForExit =>
    have hnext := hsteady.flushForExit
    exact ⟨hnext.1, hnext.2⟩
  | retryPending =>
    have hnext := hsteady.retryPending hmoving
    exact ⟨hnext.1, hnext.2⟩
  | dispose =>
    refine ⟨?_, fun hdisposed => by cases hdisposed⟩
    exact {
      hsteady with
      keeping := fun _ hdisposed => by cases hdisposed
      current := fun _ hdisposed => by cases hdisposed }
  | signedIn account =>
    exact ⟨hsteady.signedIn account, hmoving⟩

/-- The queue loses and reorders nothing: at most one drain has requests in flight; as long as the
owner is the same and the queue is not disposed, the newest checkpoint of an identity is among the
unsynced ones until it is settled, and a retry queues those that no drain is sending, where they
stay until they are sent; a checkpoint is never sent after a newer one of its identity; and
requests are started only while the owner is signed in. -/
structure InSync (o : SaveOptions) (q : SaveQueue) : Prop where
  single : q.drains.Single
  retained : q.history.owned = true → q.disposed = false →
    ∀ id x, q.history.newest id = some x → ¬ q.history.Settled x → q.unsynced.get id = some x
  resent : q.history.owned = true → q.disposed = false →
    ∀ x ∈ q.history.owed, ¬ q.history.Settled x → q.queued.get x.sourceIdentity = some x
  moving : q.disposed = false → q.queued.rows ≠ [] → (∃ task, (q.drains.get task).isSome) ∨ q.retryTimer.isSome
  inOrder : q.history.owned = true → q.disposed = false → q.history.requests.Pairwise fun later earlier =>
    later.snapshot.sourceIdentity = earlier.snapshot.sourceIdentity → earlier.snapshot.serial ≤ later.snapshot.serial
  owners : ∀ r ∈ q.history.requests, r.owner = o.owner

theorem Sound.inSync (h : q.Sound o) : q.InSync o where
  single := h.steady.single
  retained howned hdisposed := (h.steady.keeping howned hdisposed).retained
  resent howned hdisposed := (h.steady.keeping howned hdisposed).owed
  moving hdisposed hrows := (h.moving hdisposed hrows).imp_left h.steady.inFlight
  inOrder howned hdisposed := (h.steady.keeping howned hdisposed).inOrder
  owners := h.steady.owners

end SaveQueue

end StreamArena.WebPlayer
