import StreamArena.Library.KeyLock
import StreamArena.Library.AsciiText

/-! The streams of a local torrent and what stops it when they end (src/local_torrent.rs):
bodies count themselves in and out, the last one out leaves a timer, and a sweep looks
over idle torrents. Every step is one atomic operation. -/
namespace StreamArena.LocalTorrent
open AsciiText

/-- A state of streams with the references to it besides that of the map. -/
structure ActiveTorrentStreamState where
  count : Nat
  generation : Nat
  strong : Nat
  deriving DecidableEq

inductive TimerPhase where
  | sleeping
  | counted
  | current
  | finished
  deriving DecidableEq

inductive SweepPhase where
  | waiting
  | inactive
  | paused
  | inactiveStill
  | finished
  deriving DecidableEq

/-- What a task is at. A request registers its stream and becomes its body; a body that is
dropped has a generation of its own before it counts itself out. -/
inductive Task where
  | absent
  | request
  | registering (state handle : Nat)
  | body (state handle : Nat)
  | dropping (state handle generation : Nat)
  | timer (state handle generation : Nat) (phase : TimerPhase)
  | sweep (phase : SweepPhase)
  | done
  deriving DecidableEq

/-- What the service has of one torrent: its key lock, the entry of its streams, and the
handle of the session. The map of streams is locked while a stream registers. -/
structure Torrent where
  locks : KeyLock.State Nat
  activeStreams : Option Nat
  fresh : Nat
  states : Nat → ActiveTorrentStreamState
  registering : Option Nat
  tasks : Nat → Task
  handle : Option Nat
  paused : Bool
  /-- The timer of the body that last took the count to zero. -/
  newest : Option Nat
  /-- Whether a body has been dropped. -/
  dropped : Bool

def Torrent.initial : Torrent where
  locks := .initial
  activeStreams := none
  fresh := 0
  states _ := ⟨0, 0, 0⟩
  registering := none
  tasks _ := .absent
  handle := none
  paused := false
  newest := none
  dropped := false

inductive Event where
  | request (task : Nat)
  | sweep (task : Nat)
  | refer (task : Nat)
  | acquire (task : Nat)
  | release (task : Nat)
  | pruneLocks
  | registerGeneration (task handle : Nat)
  | registerCount (task : Nat)
  | releaseGeneration (task : Nat)
  | releaseCount (task timer : Nat)
  | loadCount (task : Nat)
  | loadGeneration (task : Nat)
  | pauseIdle (task : Nat)
  | checkActive (task : Nat)
  | pauseSwept (task : Nat)
  | checkActiveAgain (task : Nat)
  | deleteSwept (task : Nat)
  | pruneStates
  | manage (handle : Option Nat) (paused : Bool)

namespace Torrent

def become (t : Torrent) (i : Nat) (task : Task) : Torrent :=
  { t with tasks := Function.update t.tasks i task }

def setState (t : Torrent) (state : Nat) (value : ActiveTorrentStreamState) : Torrent :=
  { t with states := Function.update t.states state value }

def hasActiveStream (t : Torrent) : Bool :=
  t.activeStreams.any fun state => 0 < (t.states state).count

def isCurrentIdleStreamState (t : Torrent) (captured capturedGeneration : Nat) : Bool :=
  t.activeStreams == some captured && (t.states captured).count == 0 &&
    (t.states captured).generation == capturedGeneration

def shouldRetainStreamState (state : ActiveTorrentStreamState) : Bool :=
  0 < state.count || 0 < state.strong

/-- Tasks that ask for the key lock. -/
def asksForLock : Task → Bool
  | .request | .timer _ _ _ .sleeping | .sweep .waiting => true
  | _ => false

/-- The first half of a registration, which finds or makes the entry of the torrent. -/
def registerGeneration (t : Torrent) (i handle : Nat) : Torrent :=
  let state := t.activeStreams.getD t.fresh
  let value := (t.activeStreams.map t.states).getD ⟨0, 0, 0⟩
  { (t.setState state { value with generation := value.generation + 1 }).become i
      (.registering state handle) with
    activeStreams := some state
    fresh := if t.activeStreams.isSome then t.fresh else t.fresh + 1
    registering := some i }

def registerCount (t : Torrent) (i state handle : Nat) : Torrent :=
  let value := t.states state
  { (t.setState state { value with count := value.count + 1, strong := value.strong + 1 }).become i
      (.body state handle) with
    registering := none }

def releaseGeneration (t : Torrent) (i state handle : Nat) : Torrent :=
  let value := t.states state
  (t.setState state { value with generation := value.generation + 1 }).become i
    (.dropping state handle (value.generation + 1))

/-- The second half of a release: who takes the count to zero leaves a timer with the
generation it captured. -/
def releaseCount (t : Torrent) (i timer state handle generation : Nat) : Torrent :=
  let value := t.states state
  if value.count = 1 then
    { ((t.setState state { value with count := 0 }).become i .done).become timer
        (.timer state handle generation .sleeping) with
      newest := some timer
      dropped := true }
  else
    { (t.setState state { value with count := value.count - 1, strong := value.strong - 1 }).become i
        .done with
      dropped := true }

/-- A task gives its lock back, if it has it; timers and sweeps end there. -/
def release (t : Torrent) (i : Nat) : Torrent :=
  match t.tasks i with
  | .request | .sweep _ => { t.become i .done with locks := t.locks.release i }
  | .body _ _ => { t with locks := t.locks.release i }
  | .timer state _ _ .finished =>
    let value := t.states state
    { (t.setState state { value with strong := value.strong - 1 }).become i .done with
      locks := t.locks.release i }
  | _ => t

/-- Tasks that hold the key lock look at the count of streams, and go on when it is zero. -/
def look (t : Torrent) (i : Nat) (inactive finished : Task) : Torrent :=
  t.become i (if t.hasActiveStream then finished else inactive)

def step (t : Torrent) : Event → Torrent
  | .request i => if t.tasks i = .absent then t.become i .request else t
  | .sweep i => if t.tasks i = .absent then t.become i (.sweep .waiting) else t
  | .refer i => if asksForLock (t.tasks i) then { t with locks := t.locks.refer i } else t
  | .acquire i => if asksForLock (t.tasks i) then { t with locks := t.locks.acquire i } else t
  | .release i => t.release i
  | .pruneLocks => { t with locks := t.locks.prune }
  | .registerGeneration i handle =>
    if t.tasks i = .request ∧ t.locks.Holds i then t.registerGeneration i handle else t
  | .registerCount i =>
    match t.tasks i with
    | .registering state handle => t.registerCount i state handle
    | _ => t
  | .releaseGeneration i =>
    match t.tasks i with
    | .body state handle =>
      if t.locks.reference i = none then t.releaseGeneration i state handle else t
    | _ => t
  | .releaseCount i timer =>
    match t.tasks i with
    | .dropping state handle generation =>
      if t.tasks timer = .absent then t.releaseCount i timer state handle generation else t
    | _ => t
  | .loadCount i =>
    match t.tasks i with
    | .timer state handle generation .sleeping =>
      if t.locks.Holds i then
        t.become i (.timer state handle generation
          (if t.activeStreams == some state && (t.states state).count == 0 then .counted else .finished))
      else t
    | _ => t
  | .loadGeneration i =>
    match t.tasks i with
    | .timer state handle generation .counted =>
      t.become i (.timer state handle generation
        (if (t.states state).generation == generation then .current else .finished))
    | _ => t
  | .pauseIdle i =>
    match t.tasks i with
    | .timer state handle generation .current =>
      { t.become i (.timer state handle generation .finished) with
        paused := t.paused || t.handle == some handle }
    | _ => t
  | .checkActive i =>
    if t.tasks i = .sweep .waiting ∧ t.locks.Holds i then
      t.look i (.sweep .inactive) (.sweep .finished)
    else t
  | .pauseSwept i =>
    if t.tasks i = .sweep .inactive then
      { t.become i (.sweep .paused) with paused := t.paused || t.handle.isSome }
    else t
  | .checkActiveAgain i =>
    if t.tasks i = .sweep .paused then t.look i (.sweep .inactiveStill) (.sweep .finished) else t
  | .deleteSwept i =>
    if t.tasks i = .sweep .inactiveStill then
      { t.become i (.sweep .finished) with handle := none }
    else t
  | .pruneStates =>
    match t.activeStreams with
    | none => t
    | some state =>
      if t.registering.isSome || shouldRetainStreamState (t.states state) then t
      else { t with activeStreams := none }
  | .manage handle paused => { t with handle := handle, paused := paused }

end Torrent

namespace Task

/-- The state of streams a task refers to. -/
def state? : Task → Option Nat
  | registering state _ | body state _ | dropping state _ _ | timer state _ _ _ => some state
  | _ => none

/-- Counted in the count of streams. -/
def counts : Task → Bool
  | body _ _ | dropping _ _ _ => true
  | _ => false

/-- Counted in the references. -/
def owns : Task → Bool
  | body _ _ | dropping _ _ _ | timer _ _ _ _ => true
  | _ => false

def registers : Task → Bool
  | registering _ _ => true
  | _ => false

/-- Has seen no stream and may stop the torrent. -/
def stopping : Task → Bool
  | timer _ _ _ .counted | timer _ _ _ .current => true
  | sweep .inactive | sweep .paused | sweep .inactiveStill => true
  | _ => false

/-- A body that is alive. -/
def streams : Task → Bool
  | body _ _ => true
  | _ => false

/-- A body that is alive, or not yet counted in, or not yet counted out. -/
def busy (task : Task) : Bool := task.counts || task.registers

end Task

namespace Torrent

/-- What holds of a torrent after any steps. -/
structure Sound (t : Torrent) : Prop where
  locks : t.locks.Sound
  entry : ∀ i state, (t.tasks i).state? = some state → t.activeStreams = some state
  count : ∀ state, t.activeStreams = some state →
    Counting.Tally (fun i => (t.tasks i).counts = true) (t.states state).count
  strong : ∀ state, t.activeStreams = some state →
    Counting.Tally (fun i => (t.tasks i).owns = true) (t.states state).strong
  registering : ∀ i, (t.tasks i).registers = true ↔ t.registering = some i
  holds : ∀ i, (t.tasks i).stopping = true ∨ (t.tasks i).registers = true → t.locks.Holds i
  inactive : ∀ i, (t.tasks i).stopping = true → ∀ state, t.activeStreams = some state →
    (t.states state).count = 0

theorem sound_initial : initial.Sound where
  locks := KeyLock.State.sound_initial
  entry _ _ h := by cases h
  count _ h := by cases h
  strong _ h := by cases h
  registering i := by simp [initial, Task.registers]
  holds i h := by simp [initial, Task.stopping, Task.registers] at h
  inactive i h := by simp [initial, Task.stopping] at h

variable {t : Torrent} {i : Nat} {task : Task}

theorem tasks_become (t : Torrent) (i : Nat) (task : Task) (j : Nat) :
    (t.become i task).tasks j = if j = i then task else t.tasks j := by
  simp only [become, Function.update_apply]

/-- A predicate of tasks that a task keeps is kept by all. -/
theorem tally_become {p : Task → Bool} {n : Nat} (hsame : p task = p (t.tasks i))
    (h : Counting.Tally (fun j => p (t.tasks j) = true) n) :
    Counting.Tally (fun j => p ((t.become i task).tasks j) = true) n := by
  refine h.congr fun j => ?_
  rw [tasks_become]
  split
  · next hj => rw [hj, hsame]
  · rfl

/-- A task that stands to the streams as before goes on. -/
theorem Sound.become (h : t.Sound) (hstate : task.state? = (t.tasks i).state?)
    (hcounts : task.counts = (t.tasks i).counts) (howns : task.owns = (t.tasks i).owns)
    (hregisters : task.registers = (t.tasks i).registers)
    (hholds : task.stopping = true → t.locks.Holds i)
    (hinactive : task.stopping = true → ∀ state, t.activeStreams = some state →
      (t.states state).count = 0) : (t.become i task).Sound where
  locks := h.locks
  entry j state hj := by
    rw [tasks_become] at hj
    split at hj
    · exact h.entry i state (hstate ▸ hj)
    · exact h.entry j state hj
  count state hstate := tally_become hcounts (h.count state hstate)
  strong state hstate := tally_become howns (h.strong state hstate)
  registering j := by
    rw [tasks_become]
    split
    · next hj => rw [hj, hregisters]; exact h.registering i
    · exact h.registering j
  holds j hj := by
    rw [tasks_become] at hj
    split at hj
    · next hji =>
      rw [hji]
      cases hj with
      | inl hstopping => exact hholds hstopping
      | inr hreg => exact h.holds i (Or.inr (hregisters ▸ hreg))
    · exact h.holds j hj
  inactive j hj := by
    rw [tasks_become] at hj
    split at hj
    · exact hinactive hj
    · exact h.inactive j hj

theorem Sound.withLocks (h : t.Sound) {locks : KeyLock.State Nat} (hlocks : locks.Sound)
    (hholds : ∀ i, (t.tasks i).stopping = true ∨ (t.tasks i).registers = true → locks.Holds i) :
    { t with locks := locks }.Sound :=
  { h with locks := hlocks, holds := hholds }

theorem Sound.manage (h : t.Sound) (handle : Option Nat) (paused : Bool) :
    { t with handle := handle, paused := paused }.Sound :=
  ⟨h.locks, h.entry, h.count, h.strong, h.registering, h.holds, h.inactive⟩

theorem count_eq_zero (hactive : t.hasActiveStream = false) (state : Nat)
    (hstate : t.activeStreams = some state) : (t.states state).count = 0 := by
  rw [hasActiveStream, hstate, Option.any_some, decide_eq_false_iff_not] at hactive
  omega

/-- A task that holds the lock and sees no stream may stop the torrent. -/
theorem Sound.look (h : t.Sound) {inactive finished : Task} (hholds : t.locks.Holds i)
    (hboth : ∀ task ∈ [inactive, finished], task.state? = (t.tasks i).state? ∧
      task.counts = (t.tasks i).counts ∧ task.owns = (t.tasks i).owns ∧
      task.registers = (t.tasks i).registers) (hfinished : finished.stopping = false) :
    (t.look i inactive finished).Sound := by
  unfold Torrent.look
  split
  · obtain ⟨hstate, hcounts, howns, hregisters⟩ := hboth finished (by simp)
    exact h.become hstate hcounts howns hregisters (fun hs => by simp [hfinished] at hs)
      (fun hs => by simp [hfinished] at hs)
  · next hactive =>
    obtain ⟨hstate, hcounts, howns, hregisters⟩ := hboth inactive (by simp)
    exact h.become hstate hcounts howns hregisters (fun _ => hholds)
      (fun _ => count_eq_zero (Bool.eq_false_of_not_eq_true hactive))

/-- No task that may stop the torrent stands beside one that holds the lock for itself. -/
theorem Sound.eq_of_stopping (h : t.Sound) {j : Nat} (hj : (t.tasks j).stopping = true)
    (hholds : t.locks.Holds i) : j = i :=
  h.locks.holds_unique (h.holds j (Or.inl hj)) hholds

/-- Nothing refers to the streams of a torrent without an entry. -/
theorem Sound.state?_eq_none (h : t.Sound) (hentry : t.activeStreams = none) (i : Nat) :
    (t.tasks i).state? = none := by
  cases hstate : (t.tasks i).state? with
  | none => rfl
  | some state =>
    rw [h.entry i state hstate] at hentry
    cases hentry

theorem counts_false_of_state? (h : task.state? = none) :
    task.counts = false ∧ task.owns = false ∧ task.registers = false := by
  cases task <;> simp_all [Task.state?, Task.counts, Task.owns, Task.registers]

/-- The values a registration starts from are those of the entry, or those of a new one. -/
theorem Sound.tally_getD (h : t.Sound) :
    Counting.Tally (fun j => (t.tasks j).counts = true)
        ((t.activeStreams.map t.states).getD ⟨0, 0, 0⟩).count ∧
      Counting.Tally (fun j => (t.tasks j).owns = true)
        ((t.activeStreams.map t.states).getD ⟨0, 0, 0⟩).strong := by
  cases hentry : t.activeStreams with
  | some state => exact ⟨h.count state hentry, h.strong state hentry⟩
  | none =>
    have hnone (j : Nat) := counts_false_of_state? (h.state?_eq_none hentry j)
    exact ⟨Counting.Tally.of_none fun j => by simp [(hnone j).1],
      Counting.Tally.of_none fun j => by simp [(hnone j).2.1]⟩

/-- The tasks and the states after an update of one of each. -/
theorem tasks_setState_become (t : Torrent) (state : Nat) (value : ActiveTorrentStreamState) (i : Nat)
    (task : Task) (j : Nat) : ((t.setState state value).become i task).tasks j =
      if j = i then task else t.tasks j :=
  tasks_become _ i task j

theorem Sound.registerGeneration (h : t.Sound) (handle : Nat) (hrequest : t.tasks i = .request)
    (hholds : t.locks.Holds i) : (t.registerGeneration i handle).Sound := by
  have htasks (j : Nat) : (t.registerGeneration i handle).tasks j =
      if j = i then .registering (t.activeStreams.getD t.fresh) handle else t.tasks j :=
    tasks_setState_become ..
  have halone : ∀ j, (t.tasks j).stopping = true ∨ (t.tasks j).registers = true → j = i :=
    fun j hj => h.locks.holds_unique (h.holds j hj) hholds
  have hidle : (t.tasks i).stopping = false ∧ (t.tasks i).registers = false := by
    rw [hrequest]
    exact ⟨rfl, rfl⟩
  refine ⟨h.locks, fun j state hj => ?_, fun state hstate => ?_, fun state hstate => ?_, fun j => ?_,
    fun j hj => ?_, fun j hj => ?_⟩
  · rw [htasks] at hj
    split at hj
    · exact hj
    · have hentry := h.entry j state hj
      simp [Torrent.registerGeneration, hentry]
  · obtain rfl := Option.some.inj hstate
    have hcount : ((t.registerGeneration i handle).states (t.activeStreams.getD t.fresh)).count =
        ((t.activeStreams.map t.states).getD ⟨0, 0, 0⟩).count := by
      simp [Torrent.registerGeneration, Torrent.become, setState]
    rw [hcount]
    exact tally_become (t := t) (p := Task.counts) (by rw [hrequest]; rfl) h.tally_getD.1
  · obtain rfl := Option.some.inj hstate
    have hstrong : ((t.registerGeneration i handle).states (t.activeStreams.getD t.fresh)).strong =
        ((t.activeStreams.map t.states).getD ⟨0, 0, 0⟩).strong := by
      simp [Torrent.registerGeneration, Torrent.become, setState]
    rw [hstrong]
    exact tally_become (t := t) (p := Task.owns) (by rw [hrequest]; rfl) h.tally_getD.2
  · rw [htasks]
    split
    · next hji => simp [hji, Task.registers, Torrent.registerGeneration]
    · next hji =>
      have hno : ¬ (t.tasks j).registers = true := fun hreg => hji (halone j (Or.inr hreg))
      simp [hno, Torrent.registerGeneration, Ne.symm hji]
  · rw [htasks] at hj
    split at hj
    · next hji => rw [hji]; exact hholds
    · exact h.holds j hj
  · rw [htasks] at hj
    split at hj
    · exact absurd hj (by simp [Task.stopping])
    · next hji => exact absurd (halone j (Or.inl hj)) hji

theorem Sound.registerCount (h : t.Sound) {state handle : Nat} (htask : t.tasks i = .registering state handle) :
    (t.registerCount i state handle).Sound := by
  have htasks (j : Nat) : (t.registerCount i state handle).tasks j =
      if j = i then .body state handle else t.tasks j := tasks_setState_become ..
  have hentry : t.activeStreams = some state := h.entry i state (by rw [htask]; rfl)
  have hholds : t.locks.Holds i := h.holds i (Or.inr (by rw [htask]; rfl))
  have halone : ∀ j, (t.tasks j).stopping = true ∨ (t.tasks j).registers = true → j = i :=
    fun j hj => h.locks.holds_unique (h.holds j hj) hholds
  have hvalue : (t.registerCount i state handle).states state =
      { t.states state with count := (t.states state).count + 1, strong := (t.states state).strong + 1 } := by
    simp [Torrent.registerCount, Torrent.become, setState]
  have hadd (p : Task → Bool) (hbody : p (.body state handle) = true)
      (hreg : p (.registering state handle) = false) {n : Nat}
      (htally : Counting.Tally (fun j => p (t.tasks j) = true) n) :
      Counting.Tally (fun j => p ((t.registerCount i state handle).tasks j) = true) (n + 1) := by
    refine htally.add (i := i) (by rw [htask, hreg]; simp) fun j => ?_
    rw [htasks]
    split
    · next hji => simp [hji, hbody]
    · next hji => simp [hji]
  refine ⟨h.locks, fun j state' hj => ?_, fun state' hstate => ?_, fun state' hstate => ?_, fun j => ?_,
    fun j hj => ?_, fun j hj => ?_⟩
  · rw [htasks] at hj
    split at hj
    · rw [← Option.some.inj hj]; exact hentry
    · exact h.entry j state' hj
  · obtain rfl := Option.some.inj (hentry.symm.trans hstate)
    rw [hvalue]
    exact hadd Task.counts rfl rfl (h.count state hentry)
  · obtain rfl := Option.some.inj (hentry.symm.trans hstate)
    rw [hvalue]
    exact hadd Task.owns rfl rfl (h.strong state hentry)
  · rw [htasks]
    split
    · simp [Task.registers, Torrent.registerCount]
    · next hji =>
      have hno : ¬ (t.tasks j).registers = true := fun hreg => hji (halone j (Or.inr hreg))
      simp [hno, Torrent.registerCount]
  · rw [htasks] at hj
    split at hj
    · exact absurd hj (by simp [Task.stopping, Task.registers])
    · exact h.holds j hj
  · rw [htasks] at hj
    split at hj
    · exact absurd hj (by simp [Task.stopping])
    · next hji => exact absurd (halone j (Or.inl hj)) hji

/-- A new generation leaves the counts as they are. -/
theorem Sound.setState (h : t.Sound) {state : Nat} {value : ActiveTorrentStreamState}
    (hcount : value.count = (t.states state).count) (hstrong : value.strong = (t.states state).strong) :
    (t.setState state value).Sound := by
  have hstates (state' : Nat) : ((t.setState state value).states state').count = (t.states state').count ∧
      ((t.setState state value).states state').strong = (t.states state').strong := by
    by_cases hs : state' = state
    · rw [hs]
      simp [Torrent.setState, hcount, hstrong]
    · simp [Torrent.setState, Function.update_of_ne hs]
  refine ⟨h.locks, h.entry, fun state' hstate => ?_, fun state' hstate => ?_, h.registering, h.holds,
    fun j hj state' hstate => ?_⟩
  · rw [(hstates state').1]
    exact h.count state' hstate
  · rw [(hstates state').2]
    exact h.strong state' hstate
  · rw [(hstates state').1]
    exact h.inactive j hj state' hstate

theorem Sound.releaseGeneration (h : t.Sound) {state handle : Nat} (htask : t.tasks i = .body state handle) :
    (t.releaseGeneration i state handle).Sound := by
  have hset : (t.setState state { t.states state with
      generation := (t.states state).generation + 1 }).Sound := h.setState rfl rfl
  have hbody : (t.setState state { t.states state with
      generation := (t.states state).generation + 1 }).tasks i = .body state handle := htask
  refine hset.become ?_ ?_ ?_ ?_ (fun hs => absurd hs (by simp [Task.stopping]))
    (fun hs => absurd hs (by simp [Task.stopping]))
  all_goals
    rw [hbody]
    rfl

/-- No task may stop a torrent whose streams are counted. -/
theorem Sound.not_stopping (h : t.Sound) (hcounts : (t.tasks i).counts = true) (j : Nat) :
    ¬ (t.tasks j).stopping = true := by
  intro hj
  have hstate : ∃ state, (t.tasks i).state? = some state := by
    revert hcounts
    cases t.tasks i <;> simp [Task.counts, Task.state?]
  obtain ⟨state, hstate⟩ := hstate
  have hentry := h.entry i state hstate
  have hpos := (h.count state hentry).pos hcounts
  have hzero := h.inactive j hj state hentry
  omega

section releaseCount
variable {timer state handle generation : Nat}

theorem tasks_releaseCount (t : Torrent) (i timer state handle generation j : Nat) :
    (t.releaseCount i timer state handle generation).tasks j =
      if (t.states state).count = 1 ∧ j = timer then .timer state handle generation .sleeping
      else if j = i then .done else t.tasks j := by
  by_cases hone : (t.states state).count = 1
  · simp only [Torrent.releaseCount, Torrent.become, setState, hone, if_true, true_and,
      Function.update_apply]
  · simp only [Torrent.releaseCount, Torrent.become, setState, hone, if_false, false_and,
      Function.update_apply]

theorem count_releaseCount (t : Torrent) (i timer state handle generation : Nat) :
    ((t.releaseCount i timer state handle generation).states state).count = (t.states state).count - 1 := by
  unfold Torrent.releaseCount
  dsimp only
  split
  · next hone => simp [Torrent.become, setState, hone]
  · simp [Torrent.become, setState]

theorem strong_releaseCount (t : Torrent) (i timer state handle generation : Nat) :
    ((t.releaseCount i timer state handle generation).states state).strong =
      if (t.states state).count = 1 then (t.states state).strong else (t.states state).strong - 1 := by
  unfold Torrent.releaseCount
  dsimp only
  split <;> simp [Torrent.become, setState]

theorem Sound.releaseCount (h : t.Sound) (htask : t.tasks i = .dropping state handle generation)
    (htimer : t.tasks timer = .absent) : (t.releaseCount i timer state handle generation).Sound := by
  have hentry : t.activeStreams = some state := h.entry i state (by rw [htask]; rfl)
  have hcounts : (t.tasks i).counts = true := by rw [htask]; rfl
  have howns : (t.tasks i).owns = true := by rw [htask]; rfl
  have hquiet := h.not_stopping hcounts
  have hne : timer ≠ i := by
    rintro rfl
    rw [htask] at htimer
    cases htimer
  have hlocks : (t.releaseCount i timer state handle generation).locks = t.locks := by
    unfold Torrent.releaseCount; dsimp only; split <;> rfl
  have hactive : (t.releaseCount i timer state handle generation).activeStreams = t.activeStreams := by
    unfold Torrent.releaseCount; dsimp only; split <;> rfl
  have hregistering : (t.releaseCount i timer state handle generation).registering = t.registering := by
    unfold Torrent.releaseCount; dsimp only; split <;> rfl
  have hplain (p : Task → Bool) (htimerTask : p (.timer state handle generation .sleeping) = false)
      (hdone : p .done = false) (habsent : p .absent = false) (j : Nat) :
      p ((t.releaseCount i timer state handle generation).tasks j) = true ↔
        j ≠ i ∧ p (t.tasks j) = true := by
    rw [tasks_releaseCount]
    split
    · next hj => simp [hj.2, htimerTask, htimer, habsent]
    · split
      · next hji => simp [hji, hdone]
      · next hji => simp [hji]
  refine ⟨hlocks ▸ h.locks, fun j state' hj => ?_, fun state' hstate => ?_, fun state' hstate => ?_,
    fun j => ?_, fun j hj => ?_, fun j hj => ?_⟩
  · rw [tasks_releaseCount] at hj
    rw [hactive]
    split at hj
    · rw [← Option.some.inj hj]; exact hentry
    · split at hj
      · cases hj
      · exact h.entry j state' hj
  · obtain rfl := Option.some.inj (hentry.symm.trans (hactive ▸ hstate))
    rw [count_releaseCount]
    exact (h.count state hentry).remove hcounts (hplain Task.counts rfl rfl rfl)
  · obtain rfl := Option.some.inj (hentry.symm.trans (hactive ▸ hstate))
    have htally := h.strong state hentry
    rw [strong_releaseCount]
    split
    · next hone =>
      -- the reference of the body is now that of its timer
      have hremoved := htally.remove (q := fun j => j ≠ i ∧ (t.tasks j).owns = true) howns fun j => Iff.rfl
      have hadded := hremoved.add (i := timer) (q := fun j => j = timer ∨ j ≠ i ∧ (t.tasks j).owns = true)
        (by rw [htimer]; simp [Task.owns]) fun j => Iff.rfl
      rw [Nat.sub_add_cancel (htally.pos howns)] at hadded
      refine hadded.congr fun j => ?_
      rw [tasks_releaseCount]
      split
      · next hj => simp [hj.2, Task.owns]
      · next hj =>
        have hjt : j ≠ timer := fun he => hj ⟨hone, he⟩
        split
        · next hji => simp [hji, hne.symm, Task.owns]
        · next hji => simp [hjt, hji]
    · next hone =>
      refine htally.remove (i := i) howns fun j => ?_
      rw [tasks_releaseCount]
      split
      · next hj => exact absurd hj.1 hone
      · split
        · next hji => simp [hji, Task.owns]
        · next hji => simp [hji]
  · rw [hplain Task.registers rfl rfl rfl, hregistering, h.registering j]
    refine and_iff_right_of_imp fun hreg => ?_
    rintro rfl
    have hreg := (h.registering j).mpr hreg
    rw [htask] at hreg
    cases hreg
  · rw [hplain Task.stopping rfl rfl rfl, hplain Task.registers rfl rfl rfl, ← and_or_left] at hj
    rw [hlocks]
    exact h.holds j hj.2
  · rw [hplain Task.stopping rfl rfl rfl] at hj
    exact absurd hj.2 (hquiet j)

end releaseCount

/-- Who gives its lock back leaves the others theirs. -/
theorem Sound.releaseLock (h : t.Sound) (hi : ¬ ((t.tasks i).stopping = true ∨ (t.tasks i).registers = true)) :
    { t with locks := t.locks.release i }.Sound := by
  refine h.withLocks (h.locks.release i) fun j hj => (h.holds j hj).release ?_
  rintro rfl
  exact hi hj

theorem Sound.become_done (h : t.Sound) (hstate : (t.tasks i).state? = none) : (t.become i .done).Sound := by
  obtain ⟨hcounts, howns, hregisters⟩ := counts_false_of_state? hstate
  exact h.become hstate.symm hcounts.symm howns.symm hregisters.symm
    (fun hs => absurd hs (by simp [Task.stopping])) (fun hs => absurd hs (by simp [Task.stopping]))

theorem Sound.release_done (h : t.Sound) (hstate : (t.tasks i).state? = none) :
    { t.become i .done with locks := t.locks.release i }.Sound := by
  have hdone := h.become_done hstate
  refine hdone.releaseLock ?_
  rw [tasks_become, if_pos rfl]
  simp [Task.stopping, Task.registers]

/-- A timer that ends lets go of its state. -/
theorem Sound.release_timer (h : t.Sound) {state handle generation : Nat}
    (htask : t.tasks i = .timer state handle generation .finished) :
    { (t.setState state { t.states state with strong := (t.states state).strong - 1 }).become i .done with
      locks := t.locks.release i }.Sound := by
  have hentry : t.activeStreams = some state := h.entry i state (by rw [htask]; rfl)
  have htasks (j : Nat) : ((t.setState state { t.states state with
      strong := (t.states state).strong - 1 }).become i .done).tasks j =
      if j = i then .done else t.tasks j := tasks_setState_become ..
  have hvalue : ((t.setState state { t.states state with
      strong := (t.states state).strong - 1 }).become i .done).states state =
      { t.states state with strong := (t.states state).strong - 1 } := by
    simp [Torrent.become, Torrent.setState]
  have hdone : ((t.setState state { t.states state with
      strong := (t.states state).strong - 1 }).become i .done).Sound := by
    have hplain (p : Task → Bool) (hboth : p .done = p (t.tasks i)) (j : Nat) :
        p (if j = i then .done else t.tasks j) = p (t.tasks j) := by
      split
      · next hji => rw [hji, hboth]
      · rfl
    refine ⟨h.locks, fun j state' hj => ?_, fun state' hstate => ?_, fun state' hstate => ?_, fun j => ?_,
      fun j hj => ?_, fun j hj state' hstate => ?_⟩
    · rw [htasks] at hj
      split at hj
      · cases hj
      · exact h.entry j state' hj
    · obtain rfl := Option.some.inj (hentry.symm.trans hstate)
      rw [hvalue]
      refine (h.count state hentry).congr fun j => ?_
      rw [htasks, hplain Task.counts (by rw [htask]; rfl)]
    · obtain rfl := Option.some.inj (hentry.symm.trans hstate)
      rw [hvalue]
      refine (h.strong state hentry).remove (i := i) (by rw [htask]; rfl) fun j => ?_
      rw [htasks]
      split
      · next hji => simp [hji, Task.owns]
      · next hji => simp [hji]
    · rw [htasks, hplain Task.registers (by rw [htask]; rfl)]
      exact h.registering j
    · rw [htasks, hplain Task.registers (by rw [htask]; rfl), hplain Task.stopping (by rw [htask]; rfl)] at hj
      exact h.holds j hj
    · rw [htasks, hplain Task.stopping (by rw [htask]; rfl)] at hj
      obtain rfl := Option.some.inj (hentry.symm.trans hstate)
      rw [hvalue]
      exact h.inactive j hj state hentry
  refine hdone.releaseLock ?_
  rw [htasks, if_pos rfl]
  simp [Task.stopping, Task.registers]

theorem Sound.release (h : t.Sound) (i : Nat) : (t.release i).Sound := by
  unfold Torrent.release
  split
  · next htask => exact h.release_done (by rw [htask]; rfl)
  · next htask => exact h.release_done (by rw [htask]; rfl)
  · next htask => exact h.releaseLock (by rw [htask]; simp [Task.stopping, Task.registers])
  · next htask => exact h.release_timer htask
  · exact h

/-- An entry is forgotten only when nothing refers to it. -/
theorem Sound.pruneStates (h : t.Sound) {state : Nat} (hstate : t.activeStreams = some state)
    (hkeep : (t.registering.isSome || shouldRetainStreamState (t.states state)) = false) :
    { t with activeStreams := none }.Sound := by
  simp only [shouldRetainStreamState, Bool.or_eq_false_iff, decide_eq_false_iff_not, not_lt,
    Nat.le_zero, Option.isSome_eq_false_iff, Option.isNone_iff_eq_none] at hkeep
  obtain ⟨hregistering, -, hstrong⟩ := hkeep
  have howns := h.strong state hstate
  rw [hstrong] at howns
  refine ⟨h.locks, fun i state' hi => ?_, fun _ hnone => absurd hnone.symm (Option.some_ne_none _),
    fun _ hnone => absurd hnone.symm (Option.some_ne_none _), h.registering, h.holds,
    fun _ _ _ hnone => absurd hnone.symm (Option.some_ne_none _)⟩
  have hreg : ¬ (t.tasks i).registers = true := fun hr => by
    rw [(h.registering i).mp hr] at hregistering
    cases hregistering
  have hown := howns.not_of_zero i
  cases htask : t.tasks i <;>
    simp_all [Task.state?, Task.registers, Task.owns]

/-- Every step keeps the torrent sound. -/
theorem Sound.step (h : t.Sound) (event : Event) : (t.step event).Sound := by
  cases event with
  | request i =>
    rw [Torrent.step]
    split
    · next htask =>
      exact h.become (by rw [htask]; rfl) (by rw [htask]; rfl) (by rw [htask]; rfl) (by rw [htask]; rfl)
        (fun hs => by simp [Task.stopping] at hs) (fun hs => by simp [Task.stopping] at hs)
    · exact h
  | sweep i =>
    rw [Torrent.step]
    split
    · next htask =>
      exact h.become (by rw [htask]; rfl) (by rw [htask]; rfl) (by rw [htask]; rfl) (by rw [htask]; rfl)
        (fun hs => by simp [Task.stopping] at hs) (fun hs => by simp [Task.stopping] at hs)
    · exact h
  | refer i =>
    rw [Torrent.step]
    split
    · exact h.withLocks (h.locks.refer i) fun j hj => (h.holds j hj).refer
    · exact h
  | acquire i =>
    rw [Torrent.step]
    split
    · exact h.withLocks (h.locks.acquire i) fun j hj => (h.holds j hj).acquire
    · exact h
  | release i => exact h.release i
  | pruneLocks => exact h.withLocks h.locks.prune fun j hj => (h.holds j hj).prune
  | registerGeneration i handle =>
    rw [Torrent.step]
    split
    · next hi => exact h.registerGeneration handle hi.1 hi.2
    · exact h
  | registerCount i =>
    rw [Torrent.step]
    split
    · next htask => exact h.registerCount htask
    · exact h
  | releaseGeneration i =>
    rw [Torrent.step]
    split
    · next htask =>
      split
      · exact h.releaseGeneration htask
      · exact h
    · exact h
  | releaseCount i timer =>
    rw [Torrent.step]
    split
    · next htask =>
      split
      · next htimer => exact h.releaseCount htask htimer
      · exact h
    · exact h
  | loadCount i =>
    rw [Torrent.step]
    split
    · next state handle generation htask =>
      split
      · next hholds =>
        have hentry : t.activeStreams = some state := h.entry i state (by rw [htask]; rfl)
        refine h.become (by rw [htask]; rfl) (by rw [htask]; rfl) (by rw [htask]; rfl)
          (by rw [htask]; rfl) (fun _ => hholds) fun hs state' hstate => ?_
        obtain rfl := Option.some.inj (hentry.symm.trans hstate)
        split at hs
        · next hzero =>
          rw [Bool.and_eq_true, beq_iff_eq, beq_iff_eq] at hzero
          exact hzero.2
        · simp [Task.stopping] at hs
      · exact h
    · exact h
  | loadGeneration i =>
    rw [Torrent.step]
    split
    · next htask =>
      have hstopping : (t.tasks i).stopping = true := by rw [htask]; rfl
      exact h.become (by rw [htask]; rfl) (by rw [htask]; rfl) (by rw [htask]; rfl) (by rw [htask]; rfl)
        (fun _ => h.holds i (Or.inl hstopping)) (fun _ => h.inactive i hstopping)
    · exact h
  | pauseIdle i =>
    rw [Torrent.step]
    split
    · next state handle generation htask =>
      have hfinished : (t.become i (.timer state handle generation .finished)).Sound := h.become (by rw [htask]; rfl)
        (by rw [htask]; rfl) (by rw [htask]; rfl) (by rw [htask]; rfl)
        (fun hs => by simp [Task.stopping] at hs) (fun hs => by simp [Task.stopping] at hs)
      exact hfinished.manage t.handle _
    · exact h
  | checkActive i =>
    rw [Torrent.step]
    split
    · next hi => exact h.look hi.2 (by rw [hi.1]; simp [Task.state?, Task.counts, Task.owns, Task.registers]) rfl
    · exact h
  | pauseSwept i =>
    rw [Torrent.step]
    split
    · next htask =>
      have hstopping : (t.tasks i).stopping = true := by rw [htask]; rfl
      have hpaused : (t.become i (.sweep .paused)).Sound := h.become (by rw [htask]; rfl)
        (by rw [htask]; rfl) (by rw [htask]; rfl) (by rw [htask]; rfl)
        (fun _ => h.holds i (Or.inl hstopping)) (fun _ => h.inactive i hstopping)
      exact hpaused.manage t.handle _
    · exact h
  | checkActiveAgain i =>
    rw [Torrent.step]
    split
    · next htask =>
      have hstopping : (t.tasks i).stopping = true := by rw [htask]; rfl
      exact h.look (h.holds i (Or.inl hstopping))
        (by rw [htask]; simp [Task.state?, Task.counts, Task.owns, Task.registers]) rfl
    · exact h
  | deleteSwept i =>
    rw [Torrent.step]
    split
    · next htask =>
      have hfinished : (t.become i (.sweep .finished)).Sound := h.become (by rw [htask]; rfl)
        (by rw [htask]; rfl) (by rw [htask]; rfl) (by rw [htask]; rfl)
        (fun hs => by simp [Task.stopping] at hs) (fun hs => by simp [Task.stopping] at hs)
      exact hfinished.manage none t.paused
    · exact h
  | pruneStates =>
    rw [Torrent.step]
    split
    · exact h
    · next hstate =>
      split
      · exact h
      · next hkeep => exact h.pruneStates hstate (Bool.eq_false_of_not_eq_true hkeep)
  | manage handle paused => exact h.manage handle paused

end Torrent

/-- The torrents of the service under their info hashes. -/
abbrev LocalTorrentService := Text → Torrent

def LocalTorrentService.step (service : LocalTorrentService) (event : Text × Event) :
    LocalTorrentService :=
  Function.update service event.1 ((service event.1).step event.2)

end StreamArena.LocalTorrent
