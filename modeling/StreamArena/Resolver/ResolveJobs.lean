import Mathlib
import StreamArena.Library.JsonValue
import StreamArena.Library.Runs
import StreamArena.Library.TaskPool

/-! The resolve jobs (src/src/resolve_jobs.rs): the store of the jobs, the calls under way on the
threads of the server, each between two of its atomic steps, and the futures that jobs have spawned. -/
namespace StreamArena.Resolver
open AsciiText JsonValue Runs TaskPool

def resolveJobTtlMs : Int := 15 * 60 * 1000
def resolveJobMaxEntries : Nat := 256

inductive ResolveJobState where
  | pending
  | done (result : Value)
  | failed (message : Text)
  | cancelled

def ResolveJobState.isPending : ResolveJobState → Bool
  | pending => true
  | _ => false

structure ResolveJobEntry where
  userId : Int
  createdAtMs : Int
  state : ResolveJobState
  cancellation : Bool

/-- The loops that evict: the one at the end of `prune`, which `create` may have called, and the one of `create`. -/
inductive EvictionLoop where
  | prune (creator : Option Int)
  | create (userId : Int)

/-- A call between two of its steps. -/
inductive JobCall where
  | retaining (creator : Option Int) (now : Int)
  | looping (next : EvictionLoop)
  | evicting (next : EvictionLoop) (oldest : Text)
  | removed (next : Option EvictionLoop) (job : Text)
  | inserting (userId : Int)
  | spawning (job : Text)
  | running (job : Text)
  | publishing (job : Text) (result : Except Text Value)
  | marking (job : Text)
  | marked (job : Text)
  | expiring (job : Text)
  | waiting (job : Text) (userId : Int)

inductive JobEvent where
  | create (userId now : Int)
  | prune (now : Int)
  | retain (call : Nat) (job : Text)
  | retained (call : Nat)
  | compare (call : Nat) (oldest : Text)
  | remove (call : Nat)
  | cancelToken (call : Nat)
  | insert (call : Nat) (job : Text) (now : Int)
  | spawn (job : Text)
  | start (call : Nat)
  | poll (call : Nat) (result : Option (Except Text Value))
  | publish (call : Nat)
  | settle (job : Text) (result : Except Text Value)
  | cancel (job : Text) (userId : Int)
  | mark (call : Nat)
  | snapshot (job : Text) (userId now : Int)
  | observe (call : Nat)

/-- Every entry that was created, the jobs that are in the store, who holds the creation lock, and who has
observed or cancelled which job. -/
structure JobWorld where
  entries : Text → Option ResolveJobEntry
  jobs : List Text
  calls : Pool JobCall
  creationLock : Option Nat
  observed : List (Text × Int × Value)
  cancelledBy : List (Text × Int)

namespace EvictionLoop

/-- The condition of the loop. -/
def exceeds : EvictionLoop → Nat → Bool
  | prune _, len => decide (len > resolveJobMaxEntries)
  | create _, len => decide (len ≥ resolveJobMaxEntries)

def holdsLock : EvictionLoop → Bool
  | prune creator => creator.isSome
  | create _ => true

end EvictionLoop

/-- Whether the call is one of `create`, from its lock to its insertion. -/
def JobCall.holdsLock : JobCall → Bool
  | retaining creator _ => creator.isSome
  | looping next => next.holdsLock
  | evicting next _ => next.holdsLock
  | removed next _ => next.any EvictionLoop.holdsLock
  | inserting _ => true
  | _ => false

def ResolveJobEntry.expired (entry : ResolveJobEntry) (now : Int) : Bool :=
  decide (now - entry.createdAtMs > resolveJobTtlMs)

/-- `send_if_modified` from `Pending`. -/
def ResolveJobEntry.leavePending (entry : ResolveJobEntry) (state : ResolveJobState) : ResolveJobEntry :=
  if entry.state.isPending then { entry with state } else entry

def ResolveJobState.ofResult : Except Text Value → ResolveJobState
  | .ok payload => .done payload
  | .error message => .failed message

def ResolveJobState.payload (jobId : Text) : ResolveJobState → Value
  | pending => .object [("jobId".toList, .string jobId), ("status".toList, .string "pending".toList)]
  | done result => .object [("jobId".toList, .string jobId), ("status".toList, .string "done".toList),
      ("result".toList, result)]
  | failed message => .object [("jobId".toList, .string jobId), ("status".toList, .string "error".toList),
      ("error".toList, .string message)]
  | cancelled => .object [("jobId".toList, .string jobId), ("status".toList, .string "cancelled".toList)]

namespace JobWorld

def new : JobWorld where
  entries _ := none
  jobs := []
  calls := .empty
  creationLock := none
  observed := []
  cancelledBy := []

/-- An entry as `jobs.get` finds it. -/
def get (w : JobWorld) (job : Text) : Option ResolveJobEntry :=
  if w.jobs.contains job then w.entries job else none

def change (w : JobWorld) (job : Text) (f : ResolveJobEntry → ResolveJobEntry) : JobWorld :=
  { w with entries := Function.update w.entries job ((w.entries job).map f) }

def cancelEntry (w : JobWorld) (job : Text) : JobWorld := w.change job fun entry => { entry with cancellation := true }

def removeJob (w : JobWorld) (job : Text) : JobWorld := { w with jobs := w.jobs.filter (· != job) }

def become (w : JobWorld) (call : Nat) (next : JobCall) : JobWorld := { w with calls := w.calls.put call next }

def finish (w : JobWorld) (call : Nat) : JobWorld := { w with calls := w.calls.drop call }

/-- `create` takes the lock and prunes. -/
def create (w : JobWorld) (userId now : Int) : JobWorld :=
  if w.creationLock.isNone then
    { w with calls := w.calls.add (.retaining (some userId) now), creationLock := some w.calls.next }
  else w

def prune (w : JobWorld) (now : Int) : JobWorld := { w with calls := w.calls.add (.retaining none now) }

/-- `retain` comes to an entry. -/
def retain (w : JobWorld) (call : Nat) (job : Text) : JobWorld :=
  match w.calls.get call, w.get job with
  | some (.retaining _ now), some entry => if entry.expired now then (w.cancelEntry job).removeJob job else w
  | _, _ => w

def retained (w : JobWorld) (call : Nat) : JobWorld :=
  match w.calls.get call with
  | some (.retaining creator _) => w.become call (.looping (.prune creator))
  | _ => w

/-- What follows the end of an eviction loop. -/
def leave (w : JobWorld) (call : Nat) : EvictionLoop → JobWorld
  | .prune none => w.finish call
  | .prune (some userId) => w.become call (.looping (.create userId))
  | .create userId => w.become call (.inserting userId)

def isOldest (w : JobWorld) (job : Text) : Bool :=
  match w.get job with
  | none => false
  | some entry => w.jobs.all fun other => (w.entries other).all fun e => decide (entry.createdAtMs ≤ e.createdAtMs)

/-- The condition of a loop, and `evict_oldest` up to the key it has chosen. -/
def compare (w : JobWorld) (call : Nat) (oldest : Text) : JobWorld :=
  match w.calls.get call with
  | some (.looping next) =>
    if next.exceeds w.jobs.length && !w.jobs.isEmpty then
      if w.isOldest oldest then w.become call (.evicting next oldest) else w
    else w.leave call next
  | _ => w

def remove (w : JobWorld) (call : Nat) : JobWorld :=
  match w.calls.get call with
  | some (.evicting next oldest) =>
    if w.jobs.contains oldest then (w.removeJob oldest).become call (.removed (some next) oldest)
    else w.leave call next
  | some (.expiring job) =>
    if w.jobs.contains job then (w.removeJob job).become call (.removed none job) else w.finish call
  | _ => w

def cancelToken (w : JobWorld) (call : Nat) : JobWorld :=
  match w.calls.get call with
  | some (.removed (some next) job) => (w.cancelEntry job).become call (.looping next)
  | some (.removed none job) => (w.cancelEntry job).finish call
  | some (.marked job) => (w.cancelEntry job).finish call
  | _ => w

def insert (w : JobWorld) (call : Nat) (job : Text) (now : Int) : JobWorld :=
  match w.calls.get call with
  | some (.inserting userId) =>
    { w.finish call with
      entries := Function.update w.entries job (some ⟨userId, now, .pending, false⟩)
      jobs := job :: w.jobs
      creationLock := none }
  | _ => w

def spawn (w : JobWorld) (job : Text) : JobWorld :=
  match w.get job with
  | none => w
  | some _ => { w with calls := w.calls.add (.spawning job) }

def start (w : JobWorld) (call : Nat) : JobWorld :=
  match w.calls.get call with
  | some (.spawning job) => w.become call (.running job)
  | _ => w

/-- The biased select: a cancelled token drops the future before it is polled. -/
def poll (w : JobWorld) (call : Nat) (result : Option (Except Text Value)) : JobWorld :=
  match w.calls.get call with
  | some (.running job) =>
    if (w.entries job).any ResolveJobEntry.cancellation then w.finish call
    else
      match result with
      | none => w
      | some result => w.become call (.publishing job result)
  | _ => w

/-- `complete` and `fail`, which hold the map's entry while they change its state. -/
def settle (w : JobWorld) (job : Text) (result : Except Text Value) : JobWorld :=
  if w.jobs.contains job then w.change job fun entry => entry.leavePending (.ofResult result) else w

def publish (w : JobWorld) (call : Nat) : JobWorld :=
  match w.calls.get call with
  | some (.publishing job result) => (w.settle job result).finish call
  | _ => w

def cancel (w : JobWorld) (job : Text) (userId : Int) : JobWorld :=
  match w.get job with
  | none => w
  | some entry =>
    if entry.userId = userId then
      { w with calls := w.calls.add (.marking job), cancelledBy := (job, userId) :: w.cancelledBy }
    else w

def mark (w : JobWorld) (call : Nat) : JobWorld :=
  match w.calls.get call with
  | some (.marking job) => (w.change job fun entry => entry.leavePending .cancelled).become call (.marked job)
  | _ => w

def snapshot (w : JobWorld) (job : Text) (userId now : Int) : JobWorld :=
  match w.get job with
  | none => w
  | some entry =>
    if entry.userId ≠ userId then w
    else if entry.expired now then { w with calls := w.calls.add (.expiring job) }
    else { w with calls := w.calls.add (.waiting job userId) }

/-- The wait of a snapshot is over. -/
def observe (w : JobWorld) (call : Nat) : JobWorld :=
  match w.calls.get call with
  | some (.waiting job userId) =>
    match w.entries job with
    | none => w
    | some entry => { w.finish call with observed := (job, userId, entry.state.payload job) :: w.observed }
  | _ => w

def step (w : JobWorld) : JobEvent → JobWorld
  | .create userId now => w.create userId now
  | .prune now => w.prune now
  | .retain call job => w.retain call job
  | .retained call => w.retained call
  | .compare call oldest => w.compare call oldest
  | .remove call => w.remove call
  | .cancelToken call => w.cancelToken call
  | .insert call job now => w.insert call job now
  | .spawn job => w.spawn job
  | .start call => w.start call
  | .poll call result => w.poll call result
  | .publish call => w.publish call
  | .settle job result => w.settle job result
  | .cancel job userId => w.cancel job userId
  | .mark call => w.mark call
  | .snapshot job userId now => w.snapshot job userId now
  | .observe call => w.observe call

/-- `new_job_id` gives an id that no job has had. -/
def Fresh (w : JobWorld) : JobEvent → Prop
  | .insert _ job _ => w.entries job = none
  | _ => True

/-- A call has taken the job out of the store and will cancel its token in its next step. -/
def Removing (w : JobWorld) (job : Text) : Prop := w.calls.Has fun call => ∃ next, call = .removed next job

def Owned (w : JobWorld) (job : Text) (userId : Int) : Prop := ∃ entry, w.entries job = some entry ∧ entry.userId = userId

/-- A call of `create` that is about to insert leaves room for it; one about to evict removes a job, or another call
has done so. -/
def Room (jobs : List Text) : JobCall → Prop
  | .inserting _ => jobs.length < resolveJobMaxEntries
  | .evicting (.create _) oldest => oldest ∈ jobs ∨ jobs.length < resolveJobMaxEntries
  | _ => True

/-- The job of a call has an entry, and one that waits to observe it is its user's. -/
def Named (w : JobWorld) : JobCall → Prop
  | .removed _ job | .spawning job | .running job | .publishing job _ | .marking job | .marked job | .expiring job =>
    (w.entries job).isSome
  | .waiting job userId => w.Owned job userId
  | _ => True

structure Sound (w : JobWorld) : Prop where
  known : ∀ job ∈ w.jobs, (w.entries job).isSome
  size : w.jobs.length ≤ resolveJobMaxEntries
  lock : ∀ n call, w.calls.get n = some call → call.holdsLock = true → w.creationLock = some n
  room : w.calls.All (Room w.jobs)
  named : w.calls.All w.Named
  dropped : ∀ job entry, w.entries job = some entry → job ∉ w.jobs → entry.cancellation = true ∨ w.Removing job
  observed : ∀ seen ∈ w.observed, w.Owned seen.1 seen.2.1
  cancelledBy : ∀ act ∈ w.cancelledBy, w.Owned act.1 act.2

variable {w : JobWorld} {n : Nat} {call old : JobCall} {job : Text} {userId : Int} {jobs : List Text}

attribute [local simp] step Named Room

theorem sound_new : new.Sound where
  known _ h := by cases h
  size := Nat.zero_le _
  lock _ _ h := by cases h
  room := Pool.all_empty
  named := Pool.all_empty
  dropped _ _ h := by cases h
  observed _ h := by cases h
  cancelledBy _ h := by cases h

theorem room_of_not_holdsLock (h : call.holdsLock = false) : Room jobs call := by
  cases call with
  | inserting _ => cases h
  | evicting next _ =>
    cases next with
    | create _ => cases h
    | prune _ => trivial
  | _ => trivial

/-- Without a job there is as much room as before. -/
theorem Room.filter (h : Room jobs call) (hsize : jobs.length ≤ resolveJobMaxEntries) (job : Text) :
    Room (jobs.filter (· != job)) call := by
  have hle : (jobs.filter (· != job)).length ≤ jobs.length := List.length_filter_le ..
  cases call with
  | inserting _ => exact Nat.lt_of_le_of_lt hle h
  | evicting next oldest =>
    cases next with
    | prune _ => trivial
    | create _ =>
      obtain hmem | hlt := h
      · by_cases heq : oldest = job
        · refine .inr (Nat.lt_of_lt_of_le ?_ hsize)
          exact List.length_filter_lt_length_iff_exists.mpr ⟨oldest, hmem, by simp [heq]⟩
        · exact .inl (List.mem_filter.mpr ⟨hmem, bne_iff_ne.mpr heq⟩)
      · exact .inr (Nat.lt_of_le_of_lt hle hlt)
  | _ => trivial

theorem get_eq_some {entry : ResolveJobEntry} (h : w.get job = some entry) : job ∈ w.jobs ∧ w.entries job = some entry := by
  rw [JobWorld.get] at h
  split at h
  · next hmem => exact ⟨List.contains_iff_mem.mp hmem, h⟩
  · cases h

section
variable {f : ResolveJobEntry → ResolveJobEntry}

theorem entries_change (k : Text) : (w.change job f).entries k = if k = job then (w.entries job).map f else w.entries k :=
  Function.update_apply ..

theorem isSome_change (k : Text) : ((w.change job f).entries k).isSome = (w.entries k).isSome := by
  rw [entries_change]
  split
  · next h => rw [h, Option.isSome_map]
  · rfl

theorem Owned.change (h : w.Owned job userId) (hf : ∀ entry, (f entry).userId = entry.userId) (k : Text) :
    (w.change k f).Owned job userId := by
  obtain ⟨entry, hentry, huser⟩ := h
  by_cases heq : job = k
  · refine ⟨f entry, ?_, (hf entry).trans huser⟩
    rw [entries_change, if_pos heq, ← heq, hentry]
    rfl
  · exact ⟨entry, by rw [entries_change, if_neg heq, hentry], huser⟩

theorem Named.change (h : w.Named call) (hf : ∀ entry, (f entry).userId = entry.userId) (k : Text) :
    (w.change k f).Named call := by
  cases call with
  | waiting _ _ => exact Owned.change h hf k
  | retaining _ _ | looping _ | evicting _ _ | inserting _ => trivial
  | _ =>
    rw [Named, isSome_change]
    exact h

/-- A change of an entry that keeps its user and does not take back a cancellation. -/
theorem Sound.change (h : w.Sound) (hf : ∀ entry, (f entry).userId = entry.userId)
    (htoken : ∀ entry, entry.cancellation = true → (f entry).cancellation = true) (job : Text) :
    (w.change job f).Sound where
  known k hk := by
    rw [isSome_change]
    exact h.known k hk
  size := h.size
  lock := h.lock
  room := h.room
  named := h.named.imp fun _ hnamed => hnamed.change hf job
  dropped k entry hentry hk := by
    rw [entries_change] at hentry
    split at hentry
    next heq =>
      obtain ⟨before, hbefore, rfl⟩ := Option.map_eq_some_iff.mp hentry
      exact (h.dropped k before (heq ▸ hbefore) hk).imp_left (htoken before)
    next => exact h.dropped k entry hentry hk
  observed seen hseen := (h.observed seen hseen).change hf job
  cancelledBy act hact := (h.cancelledBy act hact).change hf job

end

theorem Sound.cancelEntry (h : w.Sound) (job : Text) : (w.cancelEntry job).Sound :=
  h.change (f := fun entry => { entry with cancellation := true }) (fun _ => rfl) (fun _ _ => rfl) job

theorem leavePending_userId (entry : ResolveJobEntry) (state : ResolveJobState) :
    (entry.leavePending state).userId = entry.userId := by
  rw [ResolveJobEntry.leavePending]
  split <;> rfl

theorem leavePending_cancellation (entry : ResolveJobEntry) (state : ResolveJobState) :
    (entry.leavePending state).cancellation = entry.cancellation := by
  rw [ResolveJobEntry.leavePending]
  split <;> rfl

theorem Sound.leavePending (h : w.Sound) (job : Text) (state : ResolveJobState) :
    (w.change job fun entry => entry.leavePending state).Sound :=
  h.change (fun _ => leavePending_userId ..) (fun entry htoken => (leavePending_cancellation entry state).trans htoken) job

theorem cancellation_cancelEntry {entry : ResolveJobEntry} (h : (w.cancelEntry job).entries job = some entry) :
    entry.cancellation = true := by
  rw [JobWorld.cancelEntry, entries_change, if_pos rfl] at h
  obtain ⟨before, -, rfl⟩ := Option.map_eq_some_iff.mp h
  rfl

/-- A job whose token is cancelled is taken out of the store. -/
theorem Sound.removeJob (h : w.Sound) (htoken : ∀ entry, w.entries job = some entry → entry.cancellation = true) :
    (w.removeJob job).Sound := {
  h with
  known := fun k hk => h.known k (List.mem_filter.mp hk).1
  size := (List.length_filter_le ..).trans h.size
  room := h.room.imp fun _ hroom => hroom.filter h.size job
  dropped := fun k entry hentry hk => by
    by_cases heq : k = job
    · exact .inl (htoken entry (heq ▸ hentry))
    · exact h.dropped k entry hentry fun hmem => hk (List.mem_filter.mpr ⟨hmem, bne_iff_ne.mpr heq⟩) }

/-- A call that removes a job owes nothing once the token of the job is cancelled. -/
def Paid (w : JobWorld) (call : JobCall) : Prop :=
  ∀ next job, call = .removed next job → ∀ entry, w.entries job = some entry → entry.cancellation = true

theorem Sound.become (h : w.Sound) (hold : w.calls.get n = some old) (hlock : call.holdsLock = true → old.holdsLock = true)
    (hroom : Room w.jobs call) (hnamed : w.Named call) (hpaid : w.Paid old) : (w.become n call).Sound := {
  h with
  lock := fun m other hother hholds => by
    obtain ⟨rfl, _, _, hcall⟩ | ⟨_, hother⟩ := Pool.get_change_eq_some.mp hother
    · rw [← Option.some.inj hcall] at hholds
      exact h.lock m old hold (hlock hholds)
    · exact h.lock m other hother hholds
  room := h.room.put hroom
  named := h.named.put hnamed
  dropped := fun k entry hentry hk => by
    obtain htoken | ⟨m, other, hother, next, hremoved⟩ := h.dropped k entry hentry hk
    · exact .inl htoken
    · by_cases heq : m = n
      · rw [heq, hold, Option.some.injEq] at hother
        exact .inl (hpaid next k (hother.trans hremoved) entry hentry)
      · exact .inr ⟨m, other, Pool.get_change_eq_some.mpr (.inr ⟨heq, hother⟩), next, hremoved⟩ }

theorem Sound.finish (h : w.Sound) (hold : w.calls.get n = some old) (hpaid : w.Paid old) : (w.finish n).Sound := {
  h with
  lock := fun m other hother => h.lock m other (Pool.get_drop_eq_some.mp hother).2
  room := h.room.drop
  named := h.named.drop
  dropped := fun k entry hentry hk => by
    obtain htoken | hremoving := h.dropped k entry hentry hk
    · exact .inl htoken
    · by_cases hn : ∃ next, old = .removed next k
      · obtain ⟨next, hn⟩ := hn
        exact .inl (hpaid next k hn entry hentry)
      · refine .inr (hremoving.drop fun other hother hremoved => hn ?_)
        rwa [← Option.some.inj (hold.symm.trans hother)] at hremoved }

/-- A new call that does not hold the lock. -/
theorem Sound.add (h : w.Sound) (hlock : call.holdsLock = false) (hnamed : w.Named call) :
    ({ w with calls := w.calls.add call } : JobWorld).Sound := {
  h with
  lock := fun m other hother hholds => by
    obtain ⟨-, rfl⟩ | hother := Pool.get_add_eq_some.mp hother
    · cases hlock.symm.trans hholds
    · exact h.lock m other hother hholds
  room := h.room.add (room_of_not_holdsLock hlock)
  named := h.named.add hnamed
  dropped := fun k entry hentry hk => (h.dropped k entry hentry hk).imp_right fun hremoving => Pool.has_add.mpr (.inr hremoving) }

theorem paid_of_ne (h : ∀ next job, old ≠ .removed next job) : w.Paid old := fun next job heq => absurd heq (h next job)

theorem Sound.create (h : w.Sound) (userId now : Int) : (w.create userId now).Sound := by
  rw [JobWorld.create]
  split
  next hfree =>
    have hfree : w.creationLock = none := Option.isNone_iff_eq_none.mp hfree
    exact {
      h with
      lock := fun m other hother hholds => by
        obtain ⟨hm, -⟩ | hother := Pool.get_add_eq_some.mp hother
        · exact congrArg some hm.symm
        · cases hfree.symm.trans (h.lock m other hother hholds)
      room := h.room.add trivial
      named := h.named.add trivial
      dropped := fun k entry hentry hk =>
        (h.dropped k entry hentry hk).imp_right fun hremoving => Pool.has_add.mpr (.inr hremoving) }
  next => exact h

theorem Sound.retain (h : w.Sound) (n : Nat) (job : Text) : (w.retain n job).Sound := by
  rw [JobWorld.retain]
  split
  · split
    · exact (h.cancelEntry job).removeJob fun _ hentry => cancellation_cancelEntry hentry
    · exact h
  · exact h

theorem Sound.retained (h : w.Sound) (n : Nat) : (w.retained n).Sound := by
  rw [JobWorld.retained]
  split
  · next hcall => exact h.become hcall (fun hholds => hholds) trivial trivial (paid_of_ne fun _ _ heq => by cases heq)
  · exact h

theorem Sound.leave (h : w.Sound) {next : EvictionLoop} (hold : w.calls.get n = some old)
    (hlock : next.holdsLock = true → old.holdsLock = true)
    (hroom : ∀ userId, next = .create userId → w.jobs.length < resolveJobMaxEntries)
    (hold' : ∀ next job, old ≠ .removed next job) : (w.leave n next).Sound := by
  cases next with
  | prune creator =>
    cases creator with
    | none => exact h.finish hold (paid_of_ne hold')
    | some userId => exact h.become hold (fun _ => hlock rfl) trivial trivial (paid_of_ne hold')
  | create userId => exact h.become hold (fun _ => hlock rfl) (hroom userId rfl) trivial (paid_of_ne hold')

theorem Sound.compare (h : w.Sound) (n : Nat) (oldest : Text) : (w.compare n oldest).Sound := by
  rw [JobWorld.compare]
  split
  next next hcall =>
    have hne (next' : Option EvictionLoop) (job : Text) : JobCall.looping next ≠ .removed next' job := fun heq => by cases heq
    split
    next hexceeds =>
      split
      next holdest =>
        refine h.become hcall (fun hholds => hholds) ?_ trivial (paid_of_ne hne)
        cases next with
        | prune _ => trivial
        | create _ =>
          refine .inl ?_
          rw [isOldest] at holdest
          split at holdest
          · cases holdest
          · next hget => exact (get_eq_some hget).1
      next => exact h
    next hexceeds =>
      refine h.leave hcall (fun hholds => hholds) (fun userId hcreate => ?_) hne
      subst hcreate
      rw [Bool.and_eq_true, not_and_or] at hexceeds
      obtain hexceeds | hempty := hexceeds
      · simpa [EvictionLoop.exceeds] using hexceeds
      · have hempty : w.jobs = [] := by simpa using hempty
        rw [hempty]
        decide
  next => exact h

/-- A call takes a job out of the store and owes it the cancellation. -/
theorem Sound.take (h : w.Sound) {next : Option EvictionLoop} (hold : w.calls.get n = some old)
    (hlock : (JobCall.removed next job).holdsLock = true → old.holdsLock = true) (hmem : job ∈ w.jobs)
    (hold' : ∀ next job, old ≠ .removed next job) : ((w.removeJob job).become n (.removed next job)).Sound := by
  have hnext : (w.become n (.removed next job)).Sound := h.become hold hlock trivial (h.known job hmem) (paid_of_ne hold')
  exact {
    hnext with
    known := fun k hk => h.known k (List.mem_filter.mp hk).1
    size := (List.length_filter_le ..).trans h.size
    room := hnext.room.imp fun _ hroom => hroom.filter h.size job
    dropped := fun k entry hentry hk => by
      by_cases heq : k = job
      · refine .inr ⟨n, .removed next job, Pool.get_change_eq_some.mpr (.inl ⟨rfl, old, hold, rfl⟩), next, ?_⟩
        rw [heq]
      · exact hnext.dropped k entry hentry fun hmem => hk (List.mem_filter.mpr ⟨hmem, bne_iff_ne.mpr heq⟩) }

theorem Sound.remove (h : w.Sound) (n : Nat) : (w.remove n).Sound := by
  rw [JobWorld.remove]
  split
  next next oldest hcall =>
    have hne (next' : Option EvictionLoop) (job : Text) : JobCall.evicting next oldest ≠ .removed next' job := fun heq => by
      cases heq
    split
    next hmem => exact h.take hcall (fun hholds => hholds) (List.contains_iff_mem.mp hmem) hne
    next hgone =>
      refine h.leave hcall (fun hholds => hholds) (fun userId hcreate => ?_) hne
      have hroom := h.room n _ hcall
      rw [hcreate] at hroom
      exact hroom.resolve_left fun hmem => hgone (List.contains_iff_mem.mpr hmem)
  next job hcall =>
    have hne (next' : Option EvictionLoop) (job' : Text) : JobCall.expiring job ≠ .removed next' job' := fun heq => by
      cases heq
    split
    next hmem => exact h.take hcall (fun hholds => hholds) (List.contains_iff_mem.mp hmem) hne
    next => exact h.finish hcall (paid_of_ne hne)
  next => exact h

theorem Sound.cancelToken (h : w.Sound) (n : Nat) : (w.cancelToken n).Sound := by
  have hpaid (next : Option EvictionLoop) (job : Text) : (w.cancelEntry job).Paid (.removed next job) :=
    fun _ _ heq entry hentry => by
      cases heq
      exact cancellation_cancelEntry hentry
  rw [JobWorld.cancelToken]
  split
  next next job hcall =>
    exact (h.cancelEntry job).become hcall (fun hholds => hholds) trivial trivial (hpaid _ job)
  next job hcall => exact (h.cancelEntry job).finish hcall (hpaid _ job)
  next job hcall => exact (h.cancelEntry job).finish hcall (paid_of_ne fun _ _ heq => by cases heq)
  next => exact h

theorem Sound.insert (h : w.Sound) {now : Int} (hfresh : w.Fresh (.insert n job now)) : (w.insert n job now).Sound := by
  rw [JobWorld.insert]
  split
  next userId hcall =>
    have hfresh : w.entries job = none := hfresh
    have hsame (k : Text) (hk : (w.entries k).isSome) (entry : Option ResolveJobEntry) :
        Function.update w.entries job entry k = w.entries k := by
      rw [Function.update_of_ne]
      intro heq
      rw [heq, hfresh] at hk
      cases hk
    have howned (k : Text) (user : Int) (hk : w.Owned k user) (entry : Option ResolveJobEntry) :
        ∃ e, Function.update w.entries job entry k = some e ∧ e.userId = user := by
      obtain ⟨e, he, huser⟩ := hk
      exact ⟨e, (hsame k (by rw [he]; rfl) entry).trans he, huser⟩
    have hfinish := h.finish hcall (paid_of_ne fun _ _ heq => by cases heq)
    have hothers (m : Nat) (other : JobCall) (hother : (w.calls.drop n).get m = some other) : other.holdsLock = false := by
      obtain ⟨hne, hother⟩ := Pool.get_drop_eq_some.mp hother
      rw [Bool.eq_false_iff]
      intro hholds
      exact hne (Option.some.inj ((h.lock m other hother hholds).symm.trans (h.lock n _ hcall rfl)))
    exact {
      known := fun k hk => by
        dsimp only
        obtain rfl | hk := List.mem_cons.mp hk
        · rw [Function.update_self]
          rfl
        · rw [hsame k (h.known k hk)]
          exact h.known k hk
      size := h.room n _ hcall
      lock := fun m other hother hholds => by cases (hothers m other hother).symm.trans hholds
      room := fun m other hother => room_of_not_holdsLock (hothers m other hother)
      named := fun m other hother => by
        have hnamed := hfinish.named m other hother
        cases other with
        | waiting k user => exact howned k user hnamed _
        | retaining _ _ | looping _ | evicting _ _ | inserting _ => trivial
        | _ =>
          rw [Named] at hnamed ⊢
          dsimp only
          rw [hsame _ hnamed]
          exact hnamed
      dropped := fun k entry hentry hk => by
        rw [List.mem_cons, not_or] at hk
        dsimp only at hentry
        rw [Function.update_of_ne hk.1] at hentry
        exact hfinish.dropped k entry hentry hk.2
      observed := fun seen hseen => howned _ _ (h.observed seen hseen) _
      cancelledBy := fun act hact => howned _ _ (h.cancelledBy act hact) _ }
  next => exact h

theorem Sound.spawn (h : w.Sound) (job : Text) : (w.spawn job).Sound := by
  rw [JobWorld.spawn]
  split
  · exact h
  · next hget => exact h.add rfl (h.known job (get_eq_some hget).1)

theorem Sound.start (h : w.Sound) (n : Nat) : (w.start n).Sound := by
  rw [JobWorld.start]
  split
  · next job hcall =>
    have hnamed : (w.entries job).isSome = true := h.named n _ hcall
    exact h.become hcall (fun hholds => hholds) trivial hnamed (paid_of_ne fun _ _ heq => by cases heq)
  · exact h

theorem Sound.poll (h : w.Sound) (n : Nat) (result : Option (Except Text Value)) : (w.poll n result).Sound := by
  rw [JobWorld.poll]
  split
  next job hcall =>
    have hpaid : w.Paid (.running job) := paid_of_ne fun _ _ heq => by cases heq
    split
    · exact h.finish hcall hpaid
    · split
      · exact h
      · have hnamed : (w.entries job).isSome = true := h.named n _ hcall
        exact h.become hcall (fun hholds => hholds) trivial hnamed hpaid
  next => exact h

theorem Sound.settle (h : w.Sound) (job : Text) (result : Except Text Value) : (w.settle job result).Sound := by
  rw [JobWorld.settle]
  split
  · exact h.leavePending job _
  · exact h

theorem calls_settle (result : Except Text Value) : (w.settle job result).calls = w.calls := by
  rw [JobWorld.settle]
  split <;> rfl

theorem Sound.publish (h : w.Sound) (n : Nat) : (w.publish n).Sound := by
  rw [JobWorld.publish]
  split
  · next job result hcall =>
    have hpublishing : (w.settle job result).calls.get n = some (.publishing job result) := by rwa [calls_settle]
    exact (h.settle job result).finish hpublishing (paid_of_ne fun _ _ heq => by cases heq)
  · exact h

theorem Sound.cancel (h : w.Sound) (job : Text) (userId : Int) : (w.cancel job userId).Sound := by
  rw [JobWorld.cancel]
  split
  · exact h
  · next entry hget =>
    split
    · next huser =>
      obtain ⟨hmem, hentry⟩ := get_eq_some hget
      have hadd : ({ w with calls := w.calls.add (.marking job) } : JobWorld).Sound := h.add rfl (h.known job hmem)
      exact {
        hadd with
        cancelledBy := fun act hact => by
          obtain rfl | hact := List.mem_cons.mp hact
          · exact ⟨entry, hentry, huser⟩
          · exact h.cancelledBy act hact }
    · exact h

theorem Sound.mark (h : w.Sound) (n : Nat) : (w.mark n).Sound := by
  rw [JobWorld.mark]
  split
  next job hcall =>
    have hmarking : (w.change job fun entry => entry.leavePending .cancelled).calls.get n = some (.marking job) := hcall
    refine (h.leavePending job .cancelled).become hmarking (fun hholds => hholds) trivial ?_
      (paid_of_ne fun _ _ heq => by cases heq)
    have hnamed : (w.entries job).isSome = true := h.named n _ hcall
    exact (isSome_change job).trans hnamed
  next => exact h

theorem Sound.snapshot (h : w.Sound) (job : Text) (userId now : Int) : (w.snapshot job userId now).Sound := by
  rw [JobWorld.snapshot]
  split
  · exact h
  · next entry hget =>
    obtain ⟨hmem, hentry⟩ := get_eq_some hget
    split
    · exact h
    · next huser =>
      split
      · exact h.add rfl (h.known job hmem)
      · exact h.add rfl ⟨entry, hentry, not_not.mp huser⟩

theorem Sound.observe (h : w.Sound) (n : Nat) : (w.observe n).Sound := by
  rw [JobWorld.observe]
  split
  next job userId hcall =>
    split
    · exact h
    · have hfinish := h.finish hcall (paid_of_ne fun _ _ heq => by cases heq)
      exact {
        hfinish with
        observed := fun seen hseen => by
          obtain rfl | hseen := List.mem_cons.mp hseen
          · exact h.named n _ hcall
          · exact h.observed seen hseen }
  next => exact h

theorem sound_step (w : JobWorld) (e : JobEvent) (hfresh : w.Fresh e) (h : w.Sound) : (w.step e).Sound := by
  cases e with
  | create userId now => exact h.create userId now
  | prune now => exact h.add rfl trivial
  | retain n job => exact h.retain n job
  | retained n => exact h.retained n
  | compare n oldest => exact h.compare n oldest
  | remove n => exact h.remove n
  | cancelToken n => exact h.cancelToken n
  | insert n job now => exact h.insert hfresh
  | spawn job => exact h.spawn job
  | start n => exact h.start n
  | poll n result => exact h.poll n result
  | publish n => exact h.publish n
  | settle job result => exact h.settle job result
  | cancel job userId => exact h.cancel job userId
  | mark n => exact h.mark n
  | snapshot job userId now => exact h.snapshot job userId now
  | observe n => exact h.observe n

/-- A later state of an entry: only a pending state is left, and no cancellation is taken back. -/
def Extends (entry later : ResolveJobEntry) : Prop :=
  later.userId = entry.userId ∧ (entry.state = .pending ∨ later.state = entry.state) ∧
    (entry.cancellation = true → later.cancellation = true)

/-- A later state of the store. A job that has left it does not come back, and is given no result. -/
def Grows (w later : JobWorld) : Prop :=
  ∀ job entry, w.entries job = some entry → ∃ next, later.entries job = some next ∧ Extends entry next ∧
    (job ∉ w.jobs → job ∉ later.jobs ∧ (next.state = entry.state ∨ next.state = .cancelled))

variable {later last : JobWorld}

theorem extends_refl (entry : ResolveJobEntry) : Extends entry entry := ⟨rfl, .inr rfl, fun h => h⟩

theorem Extends.trans {a b c : ResolveJobEntry} (h : Extends a b) (h' : Extends b c) : Extends a c := by
  obtain ⟨huser, hstate, htoken⟩ := h
  obtain ⟨huser', hstate', htoken'⟩ := h'
  refine ⟨huser'.trans huser, ?_, fun hc => htoken' (htoken hc)⟩
  obtain hpending | hsame := hstate
  · exact .inl hpending
  · rw [← hsame]
    exact hstate'

theorem grows_of_entries (hentries : later.entries = w.entries) (hjobs : ∀ job ∈ later.jobs, job ∈ w.jobs) :
    w.Grows later := fun job entry hentry => by
  refine ⟨entry, hentries ▸ hentry, extends_refl entry, fun hout => ⟨fun hin => hout (hjobs job hin), .inl rfl⟩⟩

theorem Grows.trans (h : w.Grows later) (h' : later.Grows last) : w.Grows last := fun job entry hentry => by
  obtain ⟨next, hnext, hextends, hout⟩ := h job entry hentry
  obtain ⟨final, hfinal, hextends', hout'⟩ := h' job next hnext
  refine ⟨final, hfinal, hextends.trans hextends', fun hgone => ?_⟩
  obtain ⟨hgone, hstate⟩ := hout hgone
  obtain ⟨hgone, hstate'⟩ := hout' hgone
  refine ⟨hgone, ?_⟩
  obtain heq | hcancelled := hstate'
  · rwa [heq]
  · exact .inr hcancelled

theorem grows_change {f : ResolveJobEntry → ResolveJobEntry} (hf : ∀ entry, Extends entry (f entry))
    (hout : job ∉ w.jobs → ∀ entry, (f entry).state = entry.state ∨ (f entry).state = .cancelled) :
    w.Grows (w.change job f) := fun k entry hentry => by
  rw [entries_change]
  split
  next heq =>
    subst heq
    rw [hentry]
    exact ⟨f entry, rfl, hf entry, fun hgone => ⟨hgone, hout hgone entry⟩⟩
  next => exact ⟨entry, hentry, extends_refl entry, fun hgone => ⟨hgone, .inl rfl⟩⟩

theorem extends_leavePending (entry : ResolveJobEntry) (state : ResolveJobState) :
    Extends entry (entry.leavePending state) := by
  refine ⟨leavePending_userId .., ?_, fun h => (leavePending_cancellation ..).trans h⟩
  rw [ResolveJobEntry.leavePending]
  cases hstate : entry.state with
  | pending => exact .inl rfl
  | _ => exact .inr hstate

theorem grows_cancelEntry (w : JobWorld) (job : Text) : w.Grows (w.cancelEntry job) :=
  grows_change (fun _ => ⟨rfl, .inr rfl, fun _ => rfl⟩) fun _ _ => .inl rfl

theorem grows_settle (w : JobWorld) (job : Text) (result : Except Text Value) : w.Grows (w.settle job result) := by
  rw [JobWorld.settle]
  split
  next hmem =>
    refine grows_change (fun entry => extends_leavePending entry _) fun hout => ?_
    exact absurd (List.contains_iff_mem.mp hmem) hout
  next => exact grows_of_entries rfl fun _ h => h

theorem grows_mark (w : JobWorld) (job : Text) : w.Grows (w.change job fun entry => entry.leavePending .cancelled) := by
  refine grows_change (fun entry => extends_leavePending entry _) fun _ entry => ?_
  rw [ResolveJobEntry.leavePending]
  split
  · exact .inr rfl
  · exact .inl rfl

theorem grows_leave (w : JobWorld) (n : Nat) (next : EvictionLoop) : w.Grows (w.leave n next) := by
  cases next with
  | prune creator => cases creator <;> exact grows_of_entries rfl fun _ h => h
  | create userId => exact grows_of_entries rfl fun _ h => h

theorem grows_removeJob (w : JobWorld) (job : Text) : w.Grows (w.removeJob job) :=
  grows_of_entries rfl fun _ h => (List.mem_filter.mp h).1

theorem grows_insert {now : Int} (hfresh : w.Fresh (.insert n job now)) : w.Grows (w.insert n job now) := by
  rw [JobWorld.insert]
  split
  next =>
    intro k entry hentry
    have hne : k ≠ job := fun heq => by cases (heq ▸ hentry).symm.trans hfresh
    refine ⟨entry, (Function.update_of_ne hne ..).trans hentry, extends_refl entry, fun hgone => ⟨?_, .inl rfl⟩⟩
    exact List.not_mem_cons_of_ne_of_not_mem hne hgone
  next => exact grows_of_entries rfl fun _ h => h

theorem grows_step (w : JobWorld) (e : JobEvent) (hfresh : w.Fresh e) : w.Grows (w.step e) := by
  have hsame (later : JobWorld) (hentries : later.entries = w.entries) (hjobs : later.jobs = w.jobs) : w.Grows later :=
    grows_of_entries hentries fun _ h => hjobs ▸ h
  cases e with
  | insert n job now => exact grows_insert hfresh
  | retain n job =>
    rw [step, JobWorld.retain]
    split
    · split
      · exact (grows_cancelEntry w job).trans (grows_removeJob _ job)
      · exact hsame w rfl rfl
    · exact hsame w rfl rfl
  | compare n oldest =>
    rw [step, JobWorld.compare]
    split
    · split
      · split <;> exact hsame _ rfl rfl
      · exact grows_leave _ _ _
    · exact hsame w rfl rfl
  | remove n =>
    rw [step, JobWorld.remove]
    split
    · split
      · exact grows_removeJob _ _
      · exact grows_leave _ _ _
    · split
      · exact grows_removeJob _ _
      · exact hsame _ rfl rfl
    · exact hsame w rfl rfl
  | cancelToken n =>
    rw [step, JobWorld.cancelToken]
    split
    · exact grows_cancelEntry _ _
    · exact grows_cancelEntry _ _
    · exact grows_cancelEntry _ _
    · exact hsame w rfl rfl
  | publish n =>
    rw [step, JobWorld.publish]
    split
    · exact grows_settle _ _ _
    · exact hsame w rfl rfl
  | settle job result => exact grows_settle w job result
  | mark n =>
    rw [step, JobWorld.mark]
    split
    · exact grows_mark _ _
    · exact hsame w rfl rfl
  | create userId now =>
    rw [step, JobWorld.create]
    split <;> exact hsame _ rfl rfl
  | prune now => exact hsame _ rfl rfl
  | retained n =>
    rw [step, JobWorld.retained]
    split <;> exact hsame _ rfl rfl
  | spawn job =>
    rw [step, JobWorld.spawn]
    split <;> exact hsame _ rfl rfl
  | start n =>
    rw [step, JobWorld.start]
    split <;> exact hsame _ rfl rfl
  | poll n result =>
    rw [step, JobWorld.poll]
    split
    · split
      · exact hsame _ rfl rfl
      · split <;> exact hsame _ rfl rfl
    · exact hsame w rfl rfl
  | cancel job userId =>
    rw [step, JobWorld.cancel]
    split
    · exact hsame w rfl rfl
    · split <;> exact hsame _ rfl rfl
  | snapshot job userId now =>
    rw [step, JobWorld.snapshot]
    split
    · exact hsame w rfl rfl
    · split
      · exact hsame w rfl rfl
      · split <;> exact hsame _ rfl rfl
  | observe n =>
    rw [step, JobWorld.observe]
    split
    · split <;> exact hsame _ rfl rfl
    · exact hsame w rfl rfl

theorem grows_run (w : JobWorld) (events : List JobEvent) (hfresh : Each step Fresh w events) :
    w.Grows (events.foldl step w) := by
  induction events generalizing w with
  | nil => exact grows_of_entries rfl fun _ h => h
  | cons e events ih => exact (grows_step w e hfresh.1).trans (ih (w.step e) hfresh.2)

/-- The store is within its bound, only a job's own user has observed or cancelled it, and a job that
has left the store has its token cancelled, which drops its future, or has it cancelled by the next step of the call
that took it out. -/
structure Kept (w : JobWorld) : Prop where
  size : w.jobs.length ≤ resolveJobMaxEntries
  observed : ∀ seen ∈ w.observed, w.Owned seen.1 seen.2.1
  cancelledBy : ∀ act ∈ w.cancelledBy, w.Owned act.1 act.2
  dropped : ∀ job entry, w.entries job = some entry → job ∉ w.jobs → entry.cancellation = true ∨ w.Removing job
  drops : ∀ n job result, w.calls.get n = some (.running job) → job ∉ w.jobs → ¬ w.Removing job →
    (w.poll n result).calls.get n = none

theorem Sound.kept (h : w.Sound) : w.Kept where
  size := h.size
  observed := h.observed
  cancelledBy := h.cancelledBy
  dropped := h.dropped
  drops n job result hcall hgone hremoving := by
    have hnamed : (w.entries job).isSome = true := h.named n _ hcall
    obtain ⟨entry, hentry⟩ := Option.isSome_iff_exists.mp hnamed
    have htoken := (h.dropped job entry hentry hgone).resolve_right hremoving
    have hany : (w.entries job).any ResolveJobEntry.cancellation = true := by
      rw [hentry]
      exact htoken
    rw [JobWorld.poll, hcall]
    dsimp only
    rw [if_pos hany, JobWorld.finish, Pool.drop, Pool.get_change, if_pos rfl]
    cases w.calls.get n <;> rfl

theorem jobs_kept (events more : List JobEvent) (hfresh : Each step Fresh new (events ++ more)) :
    (events.foldl step new).Kept ∧ (events.foldl step new).Grows ((events ++ more).foldl step new) := by
  obtain ⟨hbefore, hafter⟩ := each_append.mp hfresh
  refine ⟨(foldl_of_each sound_step sound_new hbefore).kept, ?_⟩
  rw [List.foldl_append]
  exact grows_run _ more hafter

/-- A job that expires while its future is ready: the snapshot has taken it out of the store, and has not yet
cancelled its token when the future is polled. -/
def expiredJob : List JobEvent :=
  [.create 1 0, .retained 0, .compare 0 [], .compare 0 [], .insert 0 ['a'] 0, .spawn ['a'], .start 1,
    .snapshot ['a'] 1 (resolveJobTtlMs + 1), .remove 2, .poll 1 (some (.ok .null))]

def afterExpiry : List JobEvent := [.publish 1, .cancelToken 2]

theorem jobs_kept_expired : (expiredJob.foldl step new).Kept ∧
    (expiredJob.foldl step new).Grows ((expiredJob ++ afterExpiry).foldl step new) :=
  jobs_kept expiredJob afterExpiry
    ⟨trivial, trivial, trivial, trivial, rfl, trivial, trivial, trivial, trivial, trivial, trivial, trivial, trivial⟩

theorem removed_future_completes :
    ∃ events job entry call result, Each step Fresh new events ∧
      (events.foldl step new).entries job = some entry ∧ (events.foldl step new).jobs.contains job = false ∧
      entry.cancellation = false ∧ (events.foldl step new).calls.get call = some (.publishing job result) :=
  ⟨expiredJob, ['a'], ⟨1, 0, .pending, false⟩, 1, .ok .null,
    ⟨trivial, trivial, trivial, trivial, rfl, trivial, trivial, trivial, trivial, trivial, trivial⟩,
    rfl, rfl, rfl, rfl⟩

end JobWorld
end StreamArena.Resolver
