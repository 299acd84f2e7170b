import StreamArena.Library.AsciiText
import StreamArena.Library.Runs
import StreamArena.Library.Tally
import Mathlib.Logic.Function.Basic

/-! The pool of warm resolver processes (src/src/resolver/cinejoy_worker.rs): the calls of
`Pool::resolve`, their leases and the worker processes, one step of any of them at a time. -/
namespace StreamArena.Resolver.WarmWorkers
open AsciiText Runs Counting

def maxWorkers : Nat := 2

def maxReplyBytes : Nat := 65536

/-- Milliseconds. -/
def idleTtl : Nat := 890000

structure Request where
  id : Nat
  watchUrl : Text
  server : Text
  timeoutMs : Nat
  deriving DecidableEq

structure Reply (ρ : Type*) where
  id : Nat
  ok : Bool
  result : Option ρ
  retire : Bool

/-- A line that a worker has written to its end, and the request it wrote it for. -/
structure Line where
  bytes : List UInt8
  answers : Request
  deriving DecidableEq

/-- A worker process: its lease's or the idle queue's data, all requests sent to it, those it has not read and
those it has, and all lines it wrote with those nobody has read. -/
structure Worker where
  script : Text
  idleAt : Nat
  requestId : Nat
  alive : Bool
  sent : List Request
  unread : List Request
  read : List Request
  written : List Line
  output : List Line

/-- What a call returns, the worker and the line it has it from, and the request it had sent. -/
structure Answer (ρ : Type*) where
  worker : Nat
  request : Request
  line : Line
  result : ρ

/-- Where a call is. Its lease is gone once it is leaving; a worker it still has then is being cleaned up. -/
inductive Stage (ρ : Type*) where
  | unused | waiting | leased | retiring | spawning | ready
  | reading (request : Request)
  | returning (answer : Answer ρ)
  | returned (answer : Answer ρ)
  | leaving (answer : Option (Answer ρ))
  | done (answer : Option (Answer ρ))

inductive Slot where
  | admission | permit
  deriving DecidableEq

def capacity : Slot → Nat
  | .admission => maxWorkers * 2
  | .permit => maxWorkers

/-- A call, with what its lease or the clean-up of its lease owns. -/
structure Job (ρ : Type*) where
  script : Text
  watchUrl : Text
  server : Text
  deadline : Nat
  held : Slot → Bool
  worker : Option Nat
  stage : Stage ρ

/-- The calls and the workers by their numbers, and what was taken and given back so far. -/
structure Pool (ρ : Type*) where
  available : Slot → Nat
  idle : List Nat
  jobs : Nat → Job ρ
  nextJob : Nat
  workers : Nat → Worker
  nextWorker : Nat
  taken : List (Slot × Nat)
  given : List (Slot × Nat)

namespace Pool
variable {ρ : Type*}

def new : Pool ρ where
  available := capacity
  idle := []
  jobs := fun _ => ⟨[], [], [], 0, fun _ => false, none, .unused⟩
  nextJob := 0
  workers := fun _ => ⟨[], 0, 0, false, [], [], [], [], []⟩
  nextWorker := 0
  taken := []
  given := []

def setJob (s : Pool ρ) (j : Nat) (job : Job ρ) : Pool ρ := { s with jobs := Function.update s.jobs j job }

def setWorker (s : Pool ρ) (w : Nat) (worker : Worker) : Pool ρ := { s with workers := Function.update s.workers w worker }

def take (s : Pool ρ) (slot : Slot) (j : Nat) : Pool ρ :=
  { s with available := Function.update s.available slot (s.available slot - 1), taken := s.taken ++ [(slot, j)] }.setJob j
    { s.jobs j with held := Function.update (s.jobs j).held slot true }

def give (s : Pool ρ) (slot : Slot) (j : Nat) : Pool ρ :=
  { s with available := Function.update s.available slot (s.available slot + 1), given := s.given ++ [(slot, j)] }.setJob j
    { s.jobs j with held := Function.update (s.jobs j).held slot false }

def goTo (s : Pool ρ) (j : Nat) (stage : Stage ρ) : Pool ρ := s.setJob j { s.jobs j with stage }

/-- `Drop for Lease`: the clean-up keeps the permit where there is a worker. -/
def dropLease (s : Pool ρ) (j : Nat) (answer : Option (Answer ρ)) : Pool ρ :=
  let s := s.goTo j (.leaving answer)
  if (s.jobs j).worker = none ∧ (s.jobs j).held .permit = true then s.give .permit j else s

def resolve (s : Pool ρ) (script watchUrl server : Text) (deadline : Nat) : Pool ρ :=
  let j := s.nextJob
  let job : Job ρ := ⟨script, watchUrl, server, deadline, fun _ => false, none, .done none⟩
  let s := { s with nextJob := j + 1 }
  if s.available .admission = 0 then s.setJob j job
  else (s.setJob j { job with stage := .waiting }).take .admission j

/-- The semaphore gives its permits in the order of the calls; here any call may be next. -/
def acquire (s : Pool ρ) (j : Nat) : Pool ρ :=
  match (s.jobs j).stage with
  | .waiting => if s.available .permit = 0 then s else (s.goTo j .leased).take .permit j
  | _ => s

/-- Takes a worker from the queue and looks whether it is of use. -/
def popFront (s : Pool ρ) (j now : Nat) : Pool ρ :=
  match (s.jobs j).stage with
  | .leased =>
    match s.idle with
    | [] => s.goTo j .spawning
    | w :: idle =>
      let worker := s.workers w
      let useful := worker.script = (s.jobs j).script ∧ now - worker.idleAt < idleTtl ∧ worker.alive = true
      { s with idle }.setJob j { s.jobs j with worker := some w, stage := if useful then .ready else .retiring }
  | _ => s

/-- The process has exited, or was killed. -/
def exit (s : Pool ρ) (w : Nat) : Pool ρ := s.setWorker w { s.workers w with alive := false }

def retire (s : Pool ρ) (j : Nat) : Pool ρ :=
  match (s.jobs j).stage, (s.jobs j).worker with
  | .retiring, some w => (s.exit w).setJob j { s.jobs j with worker := none, stage := .leased }
  | _, _ => s

def spawn (s : Pool ρ) (j now : Nat) (spawned : Bool) : Pool ρ :=
  match (s.jobs j).stage with
  | .spawning =>
    if spawned then
      let worker : Worker := ⟨(s.jobs j).script, now, 0, true, [], [], [], [], []⟩
      ({ s with nextWorker := s.nextWorker + 1 }.setWorker s.nextWorker worker).setJob j
        { s.jobs j with worker := some s.nextWorker, stage := .ready }
    else s.dropLease j none
  | _ => s

/-- Writes the request line, which the worker reads at any later time. -/
def send (s : Pool ρ) (j now : Nat) : Pool ρ :=
  match (s.jobs j).stage, (s.jobs j).worker with
  | .ready, some w =>
    let remainingMs := (s.jobs j).deadline - now
    if remainingMs = 0 then s.dropLease j none
    else
      let worker := s.workers w
      let request : Request := ⟨worker.requestId + 1, (s.jobs j).watchUrl, (s.jobs j).server, min remainingMs 120000⟩
      (s.setWorker w { worker with
        requestId := worker.requestId + 1
        sent := worker.sent ++ [request]
        unread := worker.unread ++ [request] }).goTo j (.reading request)
  | _, _ => s

/-- What the call makes of a line: a result, and whether the worker is to go. -/
def accepted (parse : List UInt8 → Option (Reply ρ)) (requestId : Nat) (line : Line) : Option (ρ × Bool) :=
  if maxReplyBytes < line.bytes.length + 1 then none
  else
    match parse line.bytes with
    | none => none
    | some reply =>
      if reply.id ≠ requestId ∨ reply.ok = false then none
      else reply.result.map fun result => (result, reply.retire)

def read (parse : List UInt8 → Option (Reply ρ)) (s : Pool ρ) (j : Nat) : Pool ρ :=
  match (s.jobs j).stage, (s.jobs j).worker with
  | .reading request, some w =>
    let worker := s.workers w
    match worker.output with
    | [] => s
    | line :: output =>
      let s := s.setWorker w { worker with output }
      match accepted parse worker.requestId line with
      | none => s.dropLease j none
      | some (result, true) => s.dropLease j (some ⟨w, request, line, result⟩)
      | some (result, false) => s.goTo j (.returning ⟨w, request, line, result⟩)
  | _, _ => s

/-- Puts the worker back. -/
def pushBack (s : Pool ρ) (j now : Nat) : Pool ρ :=
  match (s.jobs j).stage, (s.jobs j).worker with
  | .returning answer, some w =>
    ({ s with idle := s.idle ++ [w] }.setWorker w { s.workers w with idleAt := now }).setJob j
      { s.jobs j with worker := none, stage := .returned answer }
  | _, _ => s

/-- The call is over but for its admission: with its result, or cancelled, timed out or failed where it stands. -/
def leave (s : Pool ρ) (j : Nat) : Pool ρ :=
  match (s.jobs j).stage with
  | .waiting | .leased | .retiring | .spawning | .ready | .reading _ | .returning _ => s.dropLease j none
  | .returned answer => s.dropLease j (some answer)
  | _ => s

def finish (s : Pool ρ) (j : Nat) : Pool ρ :=
  match (s.jobs j).stage with
  | .leaving answer => (s.goTo j (.done answer)).give .admission j
  | _ => s

/-- The end of a clean-up. -/
def cleanUp (s : Pool ρ) (j : Nat) : Pool ρ :=
  match (s.jobs j).stage, (s.jobs j).worker with
  | .leaving _, some w | .done _, some w => ((s.exit w).setJob j { s.jobs j with worker := none }).give .permit j
  | _, _ => s

/-- A worker reads its next request. -/
def workerReads (s : Pool ρ) (w : Nat) : Pool ρ :=
  let worker := s.workers w
  match worker.unread with
  | [] => s
  | request :: unread => if worker.alive then s.setWorker w { worker with unread, read := worker.read ++ [request] } else s

/-- A worker writes a line; a reply answers a request that it has read. -/
def workerWrites (parse : List UInt8 → Option (Reply ρ)) (s : Pool ρ) (w : Nat) (line : Line) : Pool ρ :=
  let worker := s.workers w
  if worker.alive = true ∧ ((parse line.bytes).isSome → line.answers ∈ worker.read) then
    s.setWorker w { worker with written := worker.written ++ [line], output := worker.output ++ [line] }
  else s

end Pool

/-- A step of a call, of the clean-up of its lease or of a worker. -/
inductive Event where
  | resolve (script watchUrl server : Text) (deadline : Nat)
  | acquire (job : Nat)
  | popFront (job now : Nat)
  | retire (job : Nat)
  | spawn (job now : Nat) (spawned : Bool)
  | send (job now : Nat)
  | read (job : Nat)
  | pushBack (job now : Nat)
  | leave (job : Nat)
  | finish (job : Nat)
  | cleanUp (job : Nat)
  | workerReads (worker : Nat)
  | workerWrites (worker : Nat) (line : Line)
  | workerExits (worker : Nat)

section run
variable {ρ : Type*}

def Stage.spawns : Stage ρ → Bool
  | .spawning => true
  | _ => false

def Stage.answer : Stage ρ → Option (Answer ρ)
  | .returning answer | .returned answer => some answer
  | .leaving answer | .done answer => answer
  | _ => none

/-- A call has its admission until it is over. -/
def Stage.admitted : Stage ρ → Bool
  | .unused | .done _ => false
  | _ => true

def Stage.leases : Stage ρ → Bool
  | .leased | .retiring | .spawning | .ready | .reading _ | .returning _ | .returned _ => true
  | _ => false

/-- Where a call has no worker. -/
def Stage.bare : Stage ρ → Bool
  | .unused | .waiting | .leased | .spawning | .returned _ => true
  | _ => false

/-- The calls that have a worker or are about to start one. -/
def Job.weighs (job : Job ρ) : Bool := job.worker.isSome || job.stage.spawns

def step (parse : List UInt8 → Option (Reply ρ)) (s : Pool ρ) : Event → Pool ρ
  | .resolve script watchUrl server deadline => s.resolve script watchUrl server deadline
  | .acquire j => s.acquire j
  | .popFront j now => s.popFront j now
  | .retire j => s.retire j
  | .spawn j now spawned => s.spawn j now spawned
  | .send j now => s.send j now
  | .read j => s.read parse j
  | .pushBack j now => s.pushBack j now
  | .leave j => s.leave j
  | .finish j => s.finish j
  | .cleanUp j => s.cleanUp j
  | .workerReads w => s.workerReads w
  | .workerWrites w line => s.workerWrites parse w line
  | .workerExits w => s.exit w

namespace Pool
variable {parse : List UInt8 → Option (Reply ρ)} {s : Pool ρ} {j k w : Nat} {slot : Slot} {job : Job ρ} {worker : Worker}
  {stage : Stage ρ} {answer : Option (Answer ρ)}

attribute [local simp] step

@[simp] theorem setJob_self : (s.setJob j job).jobs j = job := Function.update_self ..
@[simp] theorem setJob_of_ne (h : k ≠ j) : (s.setJob j job).jobs k = s.jobs k := Function.update_of_ne h ..
@[simp] theorem setJob_workers : (s.setJob j job).workers = s.workers := rfl
@[simp] theorem setWorker_self : (s.setWorker w worker).workers w = worker := Function.update_self ..
@[simp] theorem setWorker_of_ne {v : Nat} (h : v ≠ w) : (s.setWorker w worker).workers v = s.workers v := Function.update_of_ne h ..
@[simp] theorem goTo_of_ne (h : k ≠ j) : (s.goTo j stage).jobs k = s.jobs k := setJob_of_ne h
@[simp] theorem give_of_ne (h : k ≠ j) : (s.give slot j).jobs k = s.jobs k := setJob_of_ne h
@[simp] theorem take_of_ne (h : k ≠ j) : (s.take slot j).jobs k = s.jobs k := setJob_of_ne h

/-! The slots. -/

/-- What is not free is held, and what was taken is held or was given back; nothing is taken twice. -/
structure Granted (s : Pool ρ) : Prop where
  held : ∀ slot, ∃ n, Tally (fun j => (s.jobs j).held slot = true) n ∧ s.available slot + n = capacity slot
  taken : ∀ slot j, s.taken.count (slot, j) = s.given.count (slot, j) + ((s.jobs j).held slot).toNat
  once : ∀ slot j, s.taken.count (slot, j) ≤ 1

theorem granted_new : Granted (new : Pool ρ) where
  held slot := ⟨0, Tally.of_none (by simp [new]), rfl⟩
  taken slot j := by simp [new]
  once slot j := by simp [new]

theorem Granted.setJob (h : Granted s) (hheld : job.held = (s.jobs j).held) : Granted (s.setJob j job) where
  held slot := by
    obtain ⟨n, hn, havailable⟩ := h.held slot
    exact ⟨n, .update (fun job : Job ρ => job.held slot) hn (by rw [hheld]), havailable⟩
  taken slot k := by
    by_cases hk : k = j
    · rw [hk, setJob_self, hheld]
      exact h.taken slot j
    · rw [setJob_of_ne hk]
      exact h.taken slot k
  once := h.once

theorem Granted.goTo (h : Granted s) : Granted (s.goTo j stage) :=
  h.setJob rfl

/-- The slot of a call changes hands, with the books kept. -/
theorem Granted.change {s' : Pool ρ} {b : Bool} {n : Nat} (h : Granted s)
    (hjobs : s'.jobs = Function.update s.jobs j { s.jobs j with held := Function.update (s.jobs j).held slot b })
    (havailable : s'.available = Function.update s.available slot n) (hn : n + b.toNat = s.available slot + ((s.jobs j).held slot).toNat)
    (hother : ∀ entry, entry ≠ (slot, j) → s'.taken.count entry = s.taken.count entry ∧ s'.given.count entry = s.given.count entry)
    (hcount : s'.taken.count (slot, j) = s'.given.count (slot, j) + b.toNat) (honce : s'.taken.count (slot, j) ≤ 1) : Granted s' := by
  refine ⟨fun slot' => ?_, fun slot' k => ?_, fun slot' k => ?_⟩
  · obtain ⟨m, hm, hcapacity⟩ := h.held slot'
    rw [hjobs, havailable]
    by_cases hslot : slot' = slot
    · rw [hslot] at hm hcapacity ⊢
      have hcounted : ((s.jobs j).held slot).toNat ≤ m := by
        cases hheld : (s.jobs j).held slot with
        | false => exact Nat.zero_le m
        | true => exact hm.pos hheld
      refine ⟨m + b.toNat - ((s.jobs j).held slot).toNat, .update (fun job : Job ρ => job.held slot) hm ?_, ?_⟩
      · simp only [Function.update_self]
        omega
      · rw [Function.update_self]
        omega
    · refine ⟨m, .update (fun job : Job ρ => job.held slot') hm ?_, ?_⟩
      · simp only [Function.update_of_ne hslot]
      · rw [Function.update_of_ne hslot]
        exact hcapacity
  · by_cases hentry : (slot', k) = (slot, j)
    · rw [Prod.mk.injEq] at hentry
      rw [hentry.1, hentry.2, hjobs, Function.update_self]
      simpa using hcount
    · rw [(hother _ hentry).1, (hother _ hentry).2, h.taken slot' k, hjobs]
      by_cases hk : k = j
      · have hslot : slot' ≠ slot := fun hslot => hentry (by rw [hslot, hk])
        rw [hk, Function.update_self]
        simp only [Function.update_of_ne hslot]
      · rw [Function.update_of_ne hk]
  · by_cases hentry : (slot', k) = (slot, j)
    · rw [hentry]
      exact honce
    · rw [(hother _ hentry).1]
      exact h.once slot' k

theorem Granted.take (h : Granted s) (hfree : s.available slot ≠ 0) (hnew : s.taken.count (slot, j) = 0) : Granted (s.take slot j) := by
  have hbooks := h.taken slot j
  have hheld : ((s.jobs j).held slot).toNat = 0 := by omega
  refine h.change (b := true) (n := s.available slot - 1) rfl rfl ?_ (fun entry hentry => ?_) ?_ ?_
  · simp only [hheld, Bool.toNat_true]
    omega
  · simp [Pool.take, Pool.setJob, Ne.symm hentry]
  · simp [Pool.take, Pool.setJob, hnew]
    omega
  · simp [Pool.take, Pool.setJob, hnew]

theorem Granted.give (h : Granted s) (hheld : (s.jobs j).held slot = true) : Granted (s.give slot j) := by
  have hbooks := h.taken slot j
  rw [hheld, Bool.toNat_true] at hbooks
  refine h.change (b := false) (n := s.available slot + 1) rfl rfl ?_ (fun entry hentry => ?_) ?_ (h.once slot j)
  · simp [hheld]
  · simp [Pool.give, Pool.setJob, Ne.symm hentry]
  · simpa [Pool.give, Pool.setJob] using hbooks

/-! What a call holds where it is. -/

structure Held (s : Pool ρ) (j : Nat) : Prop where
  admission : (s.jobs j).held .admission = (s.jobs j).stage.admitted
  permit : (s.jobs j).held .permit = ((s.jobs j).stage.leases || (s.jobs j).worker.isSome)
  bare : (s.jobs j).stage.bare = true → (s.jobs j).worker = none
  waiting : (s.jobs j).stage = .waiting → s.taken.count (.permit, j) = 0
  unused : (s.jobs j).stage = .unused → ∀ slot, s.taken.count (slot, j) = 0

theorem Held.congr {s' : Pool ρ} (h : Held s k) (hjob : s'.jobs k = s.jobs k)
    (htaken : ∀ slot, s'.taken.count (slot, k) = s.taken.count (slot, k)) : Held s' k := by
  refine ⟨?_, ?_, ?_, ?_, ?_⟩
  · rw [hjob, h.admission]
  · rw [hjob, h.permit]
  · rw [hjob]
    exact h.bare
  · rw [hjob, htaken]
    exact h.waiting
  · simp only [hjob, htaken]
    exact h.unused

/-- A call that keeps its slots. -/
theorem Held.setJob (h : ∀ k, Held s k) (hheld : job.held = (s.jobs j).held) (hadmitted : job.stage.admitted = (s.jobs j).stage.admitted)
    (hpermit : (job.stage.leases || job.worker.isSome) = ((s.jobs j).stage.leases || (s.jobs j).worker.isSome))
    (hbare : job.stage.bare = true → job.worker = none) (hwaiting : job.stage ≠ .waiting) (hunused : job.stage ≠ .unused) (k : Nat) :
    Held (s.setJob j job) k := by
  by_cases hk : k = j
  · rw [hk]
    refine ⟨?_, ?_, ?_, ?_, ?_⟩
    · rw [setJob_self, hheld, hadmitted, (h j).admission]
    · rw [setJob_self, hheld, hpermit, (h j).permit]
    · rw [setJob_self]
      exact hbare
    · rw [setJob_self]
      exact fun hstage => absurd hstage hwaiting
    · rw [setJob_self]
      exact fun hstage => absurd hstage hunused
  · exact (h k).congr (setJob_of_ne hk) fun _ => rfl

theorem Held.dropLease (h : ∀ k, Held s k) (hadmitted : (s.jobs j).stage.admitted = true) (k : Nat) : Held (s.dropLease j answer) k := by
  have hheld : (s.jobs j).held .admission = true := (h j).admission.trans hadmitted
  unfold Pool.dropLease
  dsimp only
  by_cases hk : k = j
  · rw [hk, goTo, setJob_self]
    split
    · rename_i hgiven
      refine ⟨?_, ?_, ?_, ?_, ?_⟩
      · simp [give, Stage.admitted, hheld]
      · simp [give, Stage.leases, hgiven.1]
      · simp [give, Stage.bare]
      · simp [give]
      · simp [give]
    · rename_i hkept
      refine ⟨?_, ?_, ?_, ?_, ?_⟩
      · simp [Stage.admitted, hheld]
      · rw [setJob_self]
        cases hworker : (s.jobs j).worker with
        | none => simpa [hworker, Stage.leases] using hkept
        | some w => simpa [hworker, Stage.leases] using (h j).permit
      · simp [Stage.bare]
      · simp
      · simp
  · split
    · exact (h k).congr ((give_of_ne hk).trans (goTo_of_ne hk)) fun _ => rfl
    · exact (h k).congr (goTo_of_ne hk) fun _ => rfl

theorem Held.resolve {script watchUrl server : Text} {deadline : Nat} (h : ∀ k, Held s k) (hunused : (s.jobs s.nextJob).stage = .unused)
    (k : Nat) : Held (s.resolve script watchUrl server deadline) k := by
  have hcount := (h s.nextJob).unused hunused
  unfold Pool.resolve
  dsimp only
  split
  · by_cases hk : k = s.nextJob
    · rw [hk]
      refine ⟨?_, ?_, ?_, ?_, ?_⟩ <;> simp [Stage.admitted, Stage.leases, Stage.bare]
    · exact (h k).congr (setJob_of_ne hk) fun _ => rfl
  · by_cases hk : k = s.nextJob
    · rw [hk]
      refine ⟨?_, ?_, ?_, ?_, ?_⟩
      · simp [take, Stage.admitted]
      · simp [take, Stage.leases]
      · simp [take]
      · have hpermit := hcount .permit
        simpa [take, Pool.setJob, List.count_singleton] using hpermit
      · simp [take]
    · refine (h k).congr ((take_of_ne hk).trans (setJob_of_ne hk)) fun slot => ?_
      simp [take, Pool.setJob, Ne.symm hk]

theorem Held.acquire (h : ∀ k, Held s k) (k : Nat) : Held (s.acquire j) k := by
  unfold Pool.acquire
  split
  · rename_i hstage
    split
    · exact h k
    · by_cases hk : k = j
      · have hheld := (h j).admission
        rw [hstage] at hheld
        have hnone := (h j).bare (by rw [hstage]; rfl)
        rw [hk]
        refine ⟨?_, ?_, ?_, ?_, ?_⟩
        · simpa [take, goTo, Stage.admitted] using hheld
        · simp [take, goTo, Stage.leases]
        · simpa [take, goTo] using fun _ => hnone
        · simp [take, goTo]
        · simp [take, goTo]
      · refine (h k).congr ((take_of_ne hk).trans (goTo_of_ne hk)) fun slot => ?_
        simp [take, goTo, Pool.setJob, Ne.symm hk]
  · exact h k

theorem Held.popFront {now : Nat} (h : ∀ k, Held s k) (k : Nat) : Held (s.popFront j now) k := by
  unfold Pool.popFront
  split
  · rename_i hstage
    have hnone := (h j).bare (by rw [hstage]; rfl)
    split
    · refine Held.setJob h ?_ ?_ ?_ ?_ ?_ ?_ k
      all_goals simp [hstage, hnone, Stage.admitted, Stage.leases]
    · rename_i w idle _
      have hqueue : ∀ k, Held { s with idle } k := fun k => (h k).congr rfl fun _ => rfl
      dsimp only
      split
      · refine Held.setJob hqueue ?_ ?_ ?_ ?_ ?_ ?_ k
        all_goals simp [hstage, Stage.admitted, Stage.leases, Stage.bare]
      · refine Held.setJob hqueue ?_ ?_ ?_ ?_ ?_ ?_ k
        all_goals simp [hstage, Stage.admitted, Stage.leases, Stage.bare]
  · exact h k

theorem Held.setWorker (h : ∀ k, Held s k) (k : Nat) : Held (s.setWorker w worker) k := (h k).congr rfl fun _ => rfl

theorem Held.retire (h : ∀ k, Held s k) (k : Nat) : Held (s.retire j) k := by
  unfold Pool.retire
  split
  · rename_i w hstage _
    refine Held.setJob (Held.setWorker h) ?_ ?_ ?_ ?_ ?_ ?_ k
    all_goals simp [Pool.setWorker, hstage, Stage.admitted, Stage.leases]
  · exact h k

theorem Held.spawn {now : Nat} {spawned : Bool} (h : ∀ k, Held s k) (k : Nat) : Held (s.spawn j now spawned) k := by
  unfold Pool.spawn
  split
  · rename_i hstage
    split
    · have hnext : ∀ k, Held { s with nextWorker := s.nextWorker + 1 } k := fun k => (h k).congr rfl fun _ => rfl
      refine Held.setJob (Held.setWorker hnext) ?_ ?_ ?_ ?_ ?_ ?_ k
      all_goals simp [Pool.setWorker, hstage, Stage.admitted, Stage.leases, Stage.bare]
    · exact Held.dropLease h (by rw [hstage]; rfl) k
  · exact h k

theorem Held.send {now : Nat} (h : ∀ k, Held s k) (k : Nat) : Held (s.send j now) k := by
  unfold Pool.send
  split
  · rename_i w hstage _
    dsimp only
    split
    · exact Held.dropLease h (by rw [hstage]; rfl) k
    · refine Held.setJob (Held.setWorker h) ?_ ?_ ?_ ?_ ?_ ?_ k
      all_goals simp [Pool.setWorker, hstage, Stage.admitted, Stage.leases, Stage.bare]
  · exact h k

theorem Held.read (h : ∀ k, Held s k) (k : Nat) : Held (s.read parse j) k := by
  unfold Pool.read
  split
  · rename_i request w hstage _
    dsimp only
    split
    · exact h k
    · have hadmitted : (s.jobs j).stage.admitted = true := by rw [hstage]; rfl
      split
      · exact Held.dropLease (Held.setWorker h) hadmitted k
      · exact Held.dropLease (Held.setWorker h) hadmitted k
      · refine Held.setJob (Held.setWorker h) ?_ ?_ ?_ ?_ ?_ ?_ k
        all_goals simp [Pool.setWorker, hstage, Stage.admitted, Stage.leases, Stage.bare]
  · exact h k

theorem Held.pushBack {now : Nat} (h : ∀ k, Held s k) (k : Nat) : Held (s.pushBack j now) k := by
  unfold Pool.pushBack
  split
  · rename_i answer w hstage _
    have hqueue : ∀ k, Held { s with idle := s.idle ++ [w] } k := fun k => (h k).congr rfl fun _ => rfl
    refine Held.setJob (Held.setWorker hqueue) ?_ ?_ ?_ ?_ ?_ ?_ k
    all_goals simp [Pool.setWorker, hstage, Stage.admitted, Stage.leases]
  · exact h k

theorem Held.leave (h : ∀ k, Held s k) (k : Nat) : Held (s.leave j) k := by
  unfold Pool.leave
  split <;> first | exact h k | exact Held.dropLease h (by simp [*, Stage.admitted]) k

theorem Held.finish (h : ∀ k, Held s k) (k : Nat) : Held (s.finish j) k := by
  unfold Pool.finish
  split
  · rename_i answer hstage
    by_cases hk : k = j
    · have hpermit := (h j).permit
      rw [hstage] at hpermit
      rw [hk]
      refine ⟨?_, ?_, ?_, ?_, ?_⟩
      · simp [give, goTo, Stage.admitted]
      · simpa [give, goTo, Stage.leases] using hpermit
      · simp [give, goTo, Stage.bare]
      · simp [give, goTo]
      · simp [give, goTo]
    · exact (h k).congr ((give_of_ne hk).trans (goTo_of_ne hk)) fun _ => rfl
  · exact h k

theorem Held.cleanUp (h : ∀ k, Held s k) (k : Nat) : Held (s.cleanUp j) k := by
  have hcleaned (w : Nat) (hleases : (s.jobs j).stage.leases = false) (hbare : (s.jobs j).stage.bare = false) :
      Held (((s.exit w).setJob j { s.jobs j with worker := none }).give .permit j) k := by
    by_cases hk : k = j
    · have hadmission := (h j).admission
      rw [hk]
      refine ⟨?_, ?_, ?_, ?_, ?_⟩
      · simpa [give] using hadmission
      · simp [give, hleases]
      · simp [give]
      · intro hstage
        simp [give] at hstage
        simp [hstage, Stage.bare] at hbare
      · intro hstage
        simp [give] at hstage
        simp [hstage, Stage.bare] at hbare
    · exact (h k).congr ((give_of_ne hk).trans (setJob_of_ne hk)) fun _ => rfl
  unfold Pool.cleanUp
  split
  · rename_i w hstage _
    exact hcleaned w (by rw [hstage]; rfl) (by rw [hstage]; rfl)
  · rename_i w hstage _
    exact hcleaned w (by rw [hstage]; rfl) (by rw [hstage]; rfl)
  · exact h k

theorem Granted.setWorker (h : Granted s) : Granted (s.setWorker w worker) := ⟨h.held, h.taken, h.once⟩

theorem Granted.dropLease (h : Granted s) : Granted (s.dropLease j answer) := by
  unfold Pool.dropLease
  dsimp only
  split
  · rename_i hgiven
    exact h.goTo.give hgiven.2
  · exact h.goTo

theorem Granted.resolve {script watchUrl server : Text} {deadline : Nat} (h : Granted s) (hheld : ∀ j, Held s j)
    (hunused : (s.jobs s.nextJob).stage = .unused) : Granted (s.resolve script watchUrl server deadline) := by
  have hcount := (hheld s.nextJob).unused hunused
  have hnone : (s.jobs s.nextJob).held = fun _ => false := by
    funext slot
    have hbooks := h.taken slot s.nextJob
    rw [hcount slot] at hbooks
    cases hslot : (s.jobs s.nextJob).held slot with
    | false => rfl
    | true => rw [hslot, Bool.toNat_true] at hbooks; omega
  have hnext : Granted { s with nextJob := s.nextJob + 1 } := ⟨h.held, h.taken, h.once⟩
  unfold Pool.resolve
  dsimp only
  split
  · exact hnext.setJob hnone.symm
  · rename_i hfree
    exact (hnext.setJob hnone.symm).take hfree (hcount .admission)

theorem Granted.acquire (h : Granted s) (hheld : ∀ j, Held s j) : Granted (s.acquire j) := by
  unfold Pool.acquire
  split
  · rename_i hstage
    split
    · exact h
    · rename_i hfree
      exact h.goTo.take hfree ((hheld j).waiting hstage)
  · exact h

theorem Granted.popFront {now : Nat} (h : Granted s) : Granted (s.popFront j now) := by
  unfold Pool.popFront
  split
  · split
    · exact h.goTo
    · rename_i w idle _
      have hqueue : Granted { s with idle } := ⟨h.held, h.taken, h.once⟩
      exact hqueue.setJob rfl
  · exact h

theorem Granted.retire (h : Granted s) : Granted (s.retire j) := by
  unfold Pool.retire
  split
  · exact h.setWorker.setJob rfl
  · exact h

theorem Granted.spawn {now : Nat} {spawned : Bool} (h : Granted s) : Granted (s.spawn j now spawned) := by
  unfold Pool.spawn
  split
  · split
    · have hnext : Granted { s with nextWorker := s.nextWorker + 1 } := ⟨h.held, h.taken, h.once⟩
      exact hnext.setWorker.setJob rfl
    · exact h.dropLease
  · exact h

theorem Granted.send {now : Nat} (h : Granted s) : Granted (s.send j now) := by
  unfold Pool.send
  split
  · dsimp only
    split
    · exact h.dropLease
    · exact h.setWorker.goTo
  · exact h

theorem Granted.read (h : Granted s) : Granted (s.read parse j) := by
  unfold Pool.read
  split
  · dsimp only
    split
    · exact h
    · split
      · exact h.setWorker.dropLease
      · exact h.setWorker.dropLease
      · exact h.setWorker.goTo
  · exact h

theorem Granted.pushBack {now : Nat} (h : Granted s) : Granted (s.pushBack j now) := by
  unfold Pool.pushBack
  split
  · rename_i w _ _
    have hqueue : Granted { s with idle := s.idle ++ [w] } := ⟨h.held, h.taken, h.once⟩
    exact hqueue.setWorker.setJob rfl
  · exact h

theorem Granted.leave (h : Granted s) : Granted (s.leave j) := by
  unfold Pool.leave
  split <;> first | exact h.dropLease | exact h

theorem Granted.finish (h : Granted s) (hheld : ∀ j, Held s j) : Granted (s.finish j) := by
  unfold Pool.finish
  split
  · rename_i answer hstage
    have hadmission := (hheld j).admission
    rw [hstage] at hadmission
    refine h.goTo.give ?_
    simpa [Pool.goTo, Stage.admitted] using hadmission
  · exact h

theorem Granted.cleanUp (h : Granted s) (hheld : ∀ j, Held s j) : Granted (s.cleanUp j) := by
  have hcleaned (w : Nat) (hw : (s.jobs j).worker = some w) :
      Granted (((s.exit w).setJob j { s.jobs j with worker := none }).give .permit j) := by
    have hexit : Granted (s.exit w) := h.setWorker
    have hpermit := (hheld j).permit
    rw [hw, Option.isSome_some, Bool.or_true] at hpermit
    refine Granted.give (hexit.setJob rfl) ?_
    simpa using hpermit
  unfold Pool.cleanUp
  split
  · rename_i w _ hw
    exact hcleaned w hw
  · rename_i w _ hw
    exact hcleaned w hw
  · exact h

theorem Granted.workerReads (h : Granted s) : Granted (s.workerReads w) := by
  unfold Pool.workerReads
  dsimp only
  split
  · exact h
  · split
    · exact h.setWorker
    · exact h

theorem Granted.workerWrites {line : Line} (h : Granted s) : Granted (s.workerWrites parse w line) := by
  unfold Pool.workerWrites
  dsimp only
  split
  · exact h.setWorker
  · exact h

/-- A call that has a permit and no worker leaves room for one. -/
theorem room (h : Granted s) (hheld : ∀ j, Held s j) (n : Nat) (hn : Tally (fun j => (s.jobs j).weighs = true) n)
    (hstage : (s.jobs j).stage = .leased) : n < maxWorkers := by
  obtain ⟨m, hm, hcapacity⟩ := h.held .permit
  have hlight : (s.jobs j).weighs = false := by
    have hnone := (hheld j).bare (by rw [hstage]; rfl)
    rw [Job.weighs, hstage, hnone]
    rfl
  have hpermit := (hheld j).permit
  rw [hstage] at hpermit
  have hmore : Tally (fun k => k = j ∨ (s.jobs k).weighs = true) (n + 1) := hn.add (by simp [hlight]) fun k => Iff.rfl
  have hbound := hmore.le hm fun k hk => by
    obtain rfl | hweighs := hk
    · exact hpermit
    · rw [(hheld k).permit]
      rw [Job.weighs, Bool.or_eq_true] at hweighs
      obtain hworker | hspawns := hweighs
      · rw [hworker, Bool.or_true]
      · cases hspawning : (s.jobs k).stage <;> simp [hspawning, Stage.spawns] at hspawns
        rfl
  have hpermits : capacity .permit = maxWorkers := rfl
  omega

end Pool

end run

end StreamArena.Resolver.WarmWorkers
