import StreamArena.Library.KeyLock
import StreamArena.Library.Runs
import StreamArena.Streaming.CachePaths

/-! The transcode jobs of the streaming service (src/streaming.rs): requests that look a job
up or start one under the lock of its key, refreshes that notice the end of a process, and
prune passes that stop idle jobs. -/
namespace StreamArena.Streaming.TranscodeJobs
open AsciiText Counting Runs

def hlsSegmentStaleMs : Int := 6 * 60 * 60 * 1000
def hlsTranscodeIdleMs : Int := 8 * 60 * 1000

inductive Process where
  | running
  | ended (code : Int)

/-- What is going on under the lock of a job's child, which is taken out of the job first. -/
inductive Stage where
  | idle | marking | killing
  deriving DecidableEq

/-- A job with its process. `acquired` and `released` count what became of its permit. -/
structure HlsJob where
  key : Text
  encodeMode : EncodeMode
  allowSoftwareFallback : Bool
  outputPrefix : Text
  process : Process
  child : Bool
  stage : Stage
  permit : Bool
  acquired : Nat
  released : Nat
  exited : Bool
  exitCode : Int
  lastAccessedAt : Int
  finishedAt : Int

/-- A request within `ensure_hls_transcode_job`, from its wait for the lock of the key, or a
pass of `prune_idle_hls_jobs` with the keys it still has to look at. -/
inductive Task where
  | idle
  | waiting (key : Text) (override : Option (EncodeMode × Bool))
  | lookingUp (key : Text) (override : Option (EncodeMode × Bool))
  | refreshing (key : Text) (override : Option (EncodeMode × Bool)) (job : Nat)
  | deciding (key : Text) (override : Option (EncodeMode × Bool)) (job : Nat)
  | choosing (key : Text) (override : Option (EncodeMode × Bool))
  | starting (key : Text) (encodeMode : EncodeMode) (allowSoftwareFallback : Bool)
  | acquiring (key : Text) (encodeMode : EncodeMode) (allowSoftwareFallback : Bool)
  | pruning (now : Int) (keys : List Text)
  | inspecting (now : Int) (key : Text) (job : Nat) (keys : List Text)
  | judging (now : Int) (key : Text) (job : Nat) (keys : List Text)
  | taking (now : Int) (key : Text) (job : Nat) (keys : List Text)
  | killing (now : Int) (key : Text) (job : Nat) (keys : List Text)
  | removing (now : Int) (key : Text) (job : Nat) (keys : List Text)

structure Service where
  hlsJobs : Text → Option Nat
  jobs : Nat → HlsJob
  next : Nat
  available : Nat
  locks : Text → KeyLock.State Nat
  tasks : Nat → Task

inductive Event where
  | call (task : Nat) (key : Text) (override : Option (EncodeMode × Bool))
  | lock (task : Nat)
  | lookUp (task : Nat)
  | refreshed (task : Nat)
  | decide (task : Nat) (now : Int)
  | choose (task : Nat) (preferredMode : EncodeMode)
  | marker (task : Nat) (complete : Bool) (now : Int)
  | acquire (task : Nat) (spawns : Bool) (now : Int)
  | cancel (task : Nat)
  | touch (job : Nat) (now : Int)
  | ends (job : Nat) (code : Int)
  | reap (job : Nat) (now : Int)
  | reapFails (job : Nat) (now : Int)
  | marked (job : Nat)
  | dropRefresh (job : Nat)
  | forget (job : Nat)
  | prune (task : Nat) (now : Int) (keys : List Text)
  | inspect (task : Nat)
  | inspected (task : Nat)
  | judge (task : Nat)
  | take (task : Nat)
  | killed (task : Nat) (now : Int)
  | remove (task : Nat)
  | pruneLock (key : Text)

namespace HlsJob

def blank : HlsJob :=
  ⟨[], .none, false, [], .ended 0, false, .idle, false, 0, 0, false, 0, 0, 0⟩

/-- Its process has not been seen to end, or that is being dealt with. -/
def live (job : HlsJob) : Bool := job.child || decide (job.stage ≠ .idle)

/-- The permit of a job goes back, if it has it. -/
def release (job : HlsJob) : HlsJob :=
  if job.permit then { job with permit := false, released := job.released + 1 } else job

def exit (job : HlsJob) (code now : Int) : HlsJob :=
  { job with exited := true, exitCode := code, finishedAt := now }

/-- Whether a prune pass that began at some time takes the job for idle. -/
def isIdle (job : HlsJob) (now : Int) : Bool :=
  decide (now - job.lastAccessedAt > hlsTranscodeIdleMs) ||
    (job.exited && decide ((if job.finishedAt > 0 then now - job.finishedAt else 0) > hlsSegmentStaleMs))

end HlsJob

namespace Service

def initial (maxJobs : Nat) : Service :=
  ⟨fun _ => none, fun _ => .blank, 0, maxJobs, fun _ => .initial, fun _ => .idle⟩

def become (s : Service) (task : Nat) (state : Task) : Service :=
  { s with tasks := Function.update s.tasks task state }

def setJob (s : Service) (id : Nat) (job : HlsJob) : Service :=
  { s with jobs := Function.update s.jobs id job }

/-- A job gives its permit back. -/
def releasePermit (s : Service) (id : Nat) (job : HlsJob) : Service :=
  { s.setJob id job.release with available := s.available + job.permit.toNat }

/-- A request returns, and with it goes its hold on the key. -/
def leave (s : Service) (task : Nat) (key : Text) : Service :=
  { s.become task .idle with
    locks := Function.update s.locks key ((s.locks key).release task) }

/-- A new job is put under its key. -/
def insert (s : Service) (job : HlsJob) : Service :=
  { s with
    hlsJobs := Function.update s.hlsJobs job.key (some s.next)
    jobs := Function.update s.jobs s.next job
    next := s.next + 1 }

def newJob (cacheDir key : Text) (mode : EncodeMode) (allowSoftwareFallback : Bool) (now : Int) : HlsJob :=
  ⟨key, mode, allowSoftwareFallback, buildHlsTranscodeOutputPrefix cacheDir key mode, .running, true, .idle,
    true, 1, 0, false, -1, now, 0⟩

def completedJob (cacheDir key : Text) (mode : EncodeMode) (allowSoftwareFallback : Bool) (now : Int) :
    HlsJob :=
  ⟨key, mode, allowSoftwareFallback, buildHlsTranscodeOutputPrefix cacheDir key mode, .ended 0, false, .idle,
    false, 0, 0, true, 0, now, now⟩

/-- The mode to start a job with: the one asked for, or the preferred one. -/
def startMode (preferredMode : EncodeMode) : Option (EncodeMode × Bool) → EncodeMode × Bool
  | some choice => choice
  | none => (preferredMode, decide (preferredMode ≠ .none))

def step (cacheDir : Text) (s : Service) : Event → Service
  | .call task key override =>
    match s.tasks task with
    | .idle =>
      { s.become task (.waiting key override) with
        locks := Function.update s.locks key ((s.locks key).refer task) }
    | _ => s
  | .lock task =>
    match s.tasks task with
    | .waiting key override =>
      if ((s.locks key).acquire task).Holds task then
        { s.become task (.lookingUp key override) with
          locks := Function.update s.locks key ((s.locks key).acquire task) }
      else s
    | _ => s
  | .lookUp task =>
    match s.tasks task with
    | .lookingUp key override =>
      match s.hlsJobs key with
      | some id => s.become task (.refreshing key override id)
      | none => s.become task (.choosing key override)
    | _ => s
  | .refreshed task =>
    match s.tasks task with
    | .refreshing key override id =>
      if (s.jobs id).stage = .idle then s.become task (.deciding key override id) else s
    | _ => s
  | .decide task now =>
    match s.tasks task with
    | .deciding key override id =>
      let job := { s.jobs id with lastAccessedAt := now }
      if !job.exited || job.exitCode == 0 then (s.setJob id job).leave task key
      else
        let removed := { s.setJob id job with hlsJobs := Function.update s.hlsJobs key none }
        match override with
        | some (mode, fallback) => removed.become task (.starting key mode fallback)
        | none =>
          if job.allowSoftwareFallback && decide (job.encodeMode ≠ .none) then
            removed.become task (.starting key .none false)
          else removed.become task (.choosing key none)
    | _ => s
  | .choose task preferredMode =>
    match s.tasks task with
    | .choosing key override =>
      let choice := startMode preferredMode override
      s.become task (.starting key choice.1 choice.2)
    | _ => s
  | .marker task complete now =>
    match s.tasks task with
    | .starting key mode fallback =>
      if complete then (s.insert (completedJob cacheDir key mode fallback now)).leave task key
      else s.become task (.acquiring key mode fallback)
    | _ => s
  | .acquire task spawns now =>
    match s.tasks task with
    | .acquiring key mode fallback =>
      if 0 < s.available ∧ spawns = true then
        ({ s.insert (newJob cacheDir key mode fallback now) with available := s.available - 1 }).leave task key
      else s.leave task key
    | _ => s
  | .cancel task =>
    match s.tasks task with
    | .waiting key _ | .lookingUp key _ | .refreshing key _ _ | .deciding key _ _ | .choosing key _
    | .starting key _ _ | .acquiring key _ _ => s.leave task key
    | _ => s
  | .touch id now => s.setJob id { s.jobs id with lastAccessedAt := now }
  | .ends id code =>
    match (s.jobs id).process with
    | .running => s.setJob id { s.jobs id with process := .ended code }
    | .ended _ => s
  | .reap id now =>
    let job := s.jobs id
    match job.process with
    | .running => s
    | .ended code =>
      if job.child = true ∧ job.stage = .idle then
        if code = 0 then s.setJob id { job.exit 0 now with child := false, stage := .marking }
        else s.releasePermit id { job.exit code now with child := false }
      else s
  | .reapFails id now =>
    let job := s.jobs id
    if job.child = true ∧ job.stage = .idle then
      s.releasePermit id { job.exit 1 now with child := false, process := .ended 1 }
    else s
  | .marked id =>
    let job := s.jobs id
    if job.stage = .marking then s.releasePermit id { job with stage := .idle } else s
  | .dropRefresh id =>
    let job := s.jobs id
    if job.stage = .marking then s.setJob id { job with stage := .idle } else s
  | .forget id =>
    let job := s.jobs id
    if job.live = false ∧ s.hlsJobs job.key ≠ some id then s.releasePermit id job else s
  | .prune task now keys =>
    match s.tasks task with
    | .idle => s.become task (.pruning now keys)
    | _ => s
  | .inspect task =>
    match s.tasks task with
    | .pruning now (key :: keys) =>
      match s.hlsJobs key with
      | some id => s.become task (.inspecting now key id keys)
      | none => s.become task (.pruning now keys)
    | .pruning _ [] => s.become task .idle
    | _ => s
  | .inspected task =>
    match s.tasks task with
    | .inspecting now key id keys =>
      if (s.jobs id).stage = .idle then s.become task (.judging now key id keys) else s
    | _ => s
  | .judge task =>
    match s.tasks task with
    | .judging now key id keys =>
      if (s.jobs id).isIdle now then s.become task (.taking now key id keys)
      else s.become task (.pruning now keys)
    | _ => s
  | .take task =>
    match s.tasks task with
    | .taking now key id keys =>
      let job := s.jobs id
      if job.stage = .idle then
        if job.child then
          (s.setJob id { job with child := false, stage := .killing }).become task (.killing now key id keys)
        else s.become task (.removing now key id keys)
      else s
    | _ => s
  | .killed task now =>
    match s.tasks task with
    | .killing began key id keys =>
      let job := s.jobs id
      if job.stage = .killing then
        (s.releasePermit id { job.exit 1 now with process := .ended 1, stage := .idle }).become task
          (.removing began key id keys)
      else s
    | _ => s
  | .remove task =>
    match s.tasks task with
    | .removing now key _ keys =>
      { s.become task (.pruning now keys) with hlsJobs := Function.update s.hlsJobs key none }
    | _ => s
  | .pruneLock key => { s with locks := Function.update s.locks key (s.locks key).prune }

end Service

namespace Task

/-- The key whose lock a request has. -/
def holds : Task → Option Text
  | lookingUp key _ | refreshing key _ _ | deciding key _ _ | choosing key _ | starting key _ _
  | acquiring key _ _ => some key
  | _ => none

/-- The key that a request has found or made vacant. -/
def vacates : Task → Option Text
  | choosing key _ | starting key _ _ | acquiring key _ _ => some key
  | _ => none

/-- The job that a request has found under a key. -/
def sees : Task → Option (Text × Nat)
  | refreshing key _ id | deciding key _ id => some (key, id)
  | _ => none

/-- The job that a prune pass has judged idle, with its key. -/
def judged : Task → Option (Text × Nat)
  | taking _ key id _ | killing _ key id _ | removing _ key id _ => some (key, id)
  | _ => none

/-- The job that a prune pass is at. -/
def inspects : Task → Option Nat
  | inspecting _ _ id _ | judging _ _ id _ | taking _ _ id _ | killing _ _ id _ | removing _ _ id _ => some id
  | _ => none

/-- The job that a prune pass has done with. -/
def removes : Task → Option Nat
  | removing _ _ id _ => some id
  | _ => none

theorem inspects_of_removes {task : Task} {id : Nat} (h : task.removes = some id) : task.inspects = some id := by
  cases task <;> first | exact h | cases h

theorem holds_of_vacates {task : Task} {key : Text} (h : task.vacates = some key) :
    task.holds = some key := by
  cases task <;> first | exact h | cases h

theorem holds_of_sees {task : Task} {key : Text} {id : Nat} (h : task.sees = some (key, id)) :
    task.holds = some key := by
  cases task <;> cases h <;> rfl

end Task

namespace Service

/-- No two processes write to one output prefix. -/
def OneWriter (s : Service) : Prop :=
  ∀ i j, (s.jobs i).process = .running → (s.jobs j).process = .running →
    (s.jobs i).outputPrefix = (s.jobs j).outputPrefix → i = j

/-- As many permits are out as there are live transcodes, each with the one job that acquired
it and has not yet given it back. -/
def PermitsHeld (maxJobs : Nat) (s : Service) : Prop :=
  (∃ held, Tally (fun id => (s.jobs id).live = true) held ∧ held + s.available = maxJobs) ∧
    ∀ id, (s.jobs id).permit = (s.jobs id).live ∧
      (s.jobs id).released + (s.jobs id).permit.toNat = (s.jobs id).acquired ∧ (s.jobs id).acquired ≤ 1 ∧
      ((s.jobs id).process = .running → (s.jobs id).live = true)

/-- What a prune pass takes out of the map is the job that it judged idle, and is stopped. -/
def PrunesJudged (s : Service) : Event → Prop
  | .remove task => ∀ now key id keys, s.tasks task = .removing now key id keys →
      (s.jobs id).live = false ∧ ∀ other, s.hlsJobs key = some other → other = id
  | _ => True

/-- A job is put under its key only while no prune pass has judged one there, and a pass
judges a job only while it is the one in the map; keys whose prefixes are alike are not
transcoded at once; and no request is dropped while its refresh writes a marker. -/
def Apart (cacheDir : Text) (s : Service) : Event → Prop
  | .marker task complete _ => complete = true → ∀ key mode fallback,
      s.tasks task = .starting key mode fallback → ∀ other id, (s.tasks other).judged ≠ some (key, id)
  | .acquire task _ _ => ∀ key mode fallback, s.tasks task = .acquiring key mode fallback →
      (∀ other id, (s.tasks other).judged ≠ some (key, id)) ∧
      ∀ id, (s.jobs id).live = true →
        (s.jobs id).outputPrefix = buildHlsTranscodeOutputPrefix cacheDir key mode → (s.jobs id).key = key
  | .judge task => ∀ now key id keys, s.tasks task = .judging now key id keys →
      (s.jobs id).isIdle now = true → ∀ other, s.hlsJobs key = some other → other = id
  | .dropRefresh id => (s.jobs id).stage ≠ .marking
  | _ => True

end Service

/-- A job's permit is out for as long as its process has not been seen to end. -/
structure HlsJob.Sound (job : HlsJob) : Prop where
  running : job.process = .running → job.live = true
  permit : job.permit = job.live
  stage : job.stage ≠ .idle → job.child = false
  marking : job.stage = .marking → job.process ≠ .running
  exited : job.exited = true → job.child = false ∧ (job.stage ≠ .idle → job.exitCode = 0)
  count : job.released + job.permit.toNat = job.acquired
  once : job.acquired ≤ 1

theorem HlsJob.live_eq_false {job : HlsJob} : job.live = false ↔ job.child = false ∧ job.stage = .idle := by
  rw [live, Bool.or_eq_false_iff, decide_eq_false_iff_not, not_not]

theorem HlsJob.live_release (job : HlsJob) : job.release.live = job.live := by
  rw [release]
  split <;> rfl

/-- A job gives its permit back when its process has been seen to end. -/
theorem HlsJob.sound_release {job : HlsJob} (hpermit : job.permit = true) (hprocess : job.process ≠ .running)
    (hdead : job.live = false) (hcount : job.released + 1 = job.acquired) (honce : job.acquired ≤ 1) :
    job.release.Sound := by
  obtain ⟨hchild, hstage⟩ := live_eq_false.mp hdead
  rw [release, if_pos hpermit]
  exact ⟨fun h => absurd h hprocess, hdead.symm, fun _ => hchild, fun _ => hprocess,
    fun _ => ⟨hchild, fun h => absurd hstage h⟩, hcount, honce⟩

theorem HlsJob.sound_blank : blank.Sound where
  running h := by cases h
  permit := rfl
  stage h := absurd rfl h
  marking h := by cases h
  exited h := by cases h
  count := rfl
  once := Nat.zero_le 1

namespace Service

/-- What a task has found out or holds is still so. -/
structure Fits (s : Service) (task : Nat) (state : Task) : Prop where
  holds : ∀ key, state.holds = some key → (s.locks key).Holds task
  vacant : ∀ key, state.vacates = some key → s.hlsJobs key = none
  seen : ∀ key id, state.sees = some (key, id) → ∀ other, s.hlsJobs key = some other → other = id
  judged : ∀ key id, state.judged = some (key, id) → ∀ other, s.hlsJobs key = some other → other = id
  known : ∀ id, state.inspects = some id → id < s.next
  gone : ∀ id, state.removes = some id → (s.jobs id).live = false

structure Sound (maxJobs : Nat) (s : Service) : Prop where
  locks : ∀ key, (s.locks key).Sound
  tasks : ∀ task, s.Fits task (s.tasks task)
  job : ∀ id, (s.jobs id).Sound
  fresh : ∀ id, s.next ≤ id → (s.jobs id).live = false
  permits : ∃ held, Tally (fun id => (s.jobs id).live = true) held ∧ held + s.available = maxJobs
  entry : ∀ key id, s.hlsJobs key = some id → id < s.next ∧ (s.jobs id).key = key
  live : ∀ id, (s.jobs id).live = true → s.hlsJobs (s.jobs id).key = some id
  apart : ∀ i j, (s.jobs i).live = true → (s.jobs j).live = true →
    (s.jobs i).outputPrefix = (s.jobs j).outputPrefix → (s.jobs i).key = (s.jobs j).key

variable {maxJobs : Nat} {s : Service} {cacheDir : Text} {task id : Nat} {key : Text}

theorem Fits.idle : s.Fits task .idle where
  holds _ h := by cases h
  vacant _ h := by cases h
  seen _ _ h := by cases h
  judged _ _ h := by cases h
  known _ h := by cases h
  gone _ h := by cases h

/-- A pass that has judged no job yet. -/
theorem Fits.of_none {state : Task} (hholds : state.holds = none) (hjudged : state.judged = none)
    (hknown : ∀ id, state.inspects = some id → id < s.next) : s.Fits task state where
  holds key h := by rw [hholds] at h; cases h
  vacant key h := by rw [Task.holds_of_vacates h] at hholds; cases hholds
  seen key id h := by rw [Task.holds_of_sees h] at hholds; cases hholds
  judged key id h := by rw [hjudged] at h; cases h
  known := hknown
  gone id h := by
    cases state <;> cases h
    cases hjudged

/-- A request that has the lock of its key. -/
theorem Fits.of_holds {state : Task} (hholds : state.holds = some key) (hlock : (s.locks key).Holds task)
    (hvacant : state.vacates = some key → s.hlsJobs key = none)
    (hseen : ∀ id, state.sees = some (key, id) → ∀ other, s.hlsJobs key = some other → other = id) :
    s.Fits task state where
  holds name h := by
    rw [hholds] at h
    cases h
    exact hlock
  vacant name h := by
    have hname := Task.holds_of_vacates h
    rw [hholds] at hname
    cases hname
    exact hvacant h
  seen name id h := by
    have hname := Task.holds_of_sees h
    rw [hholds] at hname
    cases hname
    exact hseen id h
  judged name id h := by cases state <;> cases h <;> cases hholds
  known id h := by cases state <;> cases h <;> cases hholds
  gone id h := by
    cases state <;> cases h
    cases hholds

/-- A prune pass that has judged a job. -/
theorem Fits.of_judged {state : Task} (hjudged : state.judged = some (key, id)) (hknown : id < s.next)
    (hsame : ∀ other, s.hlsJobs key = some other → other = id)
    (hgone : state.removes = some id → (s.jobs id).live = false) : s.Fits task state where
  holds name h := by cases state <;> cases h <;> cases hjudged
  vacant name h := by cases state <;> cases h <;> cases hjudged
  seen name other h := by cases state <;> cases h <;> cases hjudged
  judged name other h := by
    rw [hjudged] at h
    cases h
    exact hsame
  known other h := by cases state <;> cases h <;> cases hjudged <;> exact hknown
  gone other h := by
    cases state <;> cases h
    cases hjudged
    exact hgone rfl

/-- What a change has to leave as it is for a task. -/
theorem Fits.frame {state : Task} (h : s.Fits task state) {t : Service}
    (hlocks : ∀ key, state.holds = some key → (s.locks key).Holds task → (t.locks key).Holds task)
    (hmap : ∀ key id, t.hlsJobs key = some id → s.hlsJobs key = some id) (hnext : s.next ≤ t.next)
    (hlive : ∀ id, (s.jobs id).live = false → (t.jobs id).live = false) : t.Fits task state where
  holds key hk := hlocks key hk (h.holds key hk)
  vacant key hk := by
    cases hentry : t.hlsJobs key with
    | none => rfl
    | some id =>
      have hold := hmap key id hentry
      rw [h.vacant key hk] at hold
      cases hold
  seen key id hk other hother := h.seen key id hk other (hmap key other hother)
  judged key id hk other hother := h.judged key id hk other (hmap key other hother)
  known id hk := lt_of_lt_of_le (h.known id hk) hnext
  gone id hk := hlive id (h.gone id hk)

theorem sound_initial : (initial maxJobs).Sound maxJobs where
  locks _ := KeyLock.State.sound_initial
  tasks _ := Fits.idle
  job _ := HlsJob.sound_blank
  fresh _ _ := rfl
  permits := ⟨0, Tally.of_none fun _ h => (by cases h), Nat.zero_add _⟩
  entry _ _ h := by cases h
  live _ h := by cases h
  apart _ _ h := by cases h

namespace Sound

theorem oneWriter (h : s.Sound maxJobs) : s.OneWriter := by
  intro i j hi hj houtput
  have hlivei := (h.job i).running hi
  have hlivej := (h.job j).running hj
  have hkey := h.apart i j hlivei hlivej houtput
  have hentry := h.live i hlivei
  rw [hkey, h.live j hlivej] at hentry
  exact (Option.some.inj hentry).symm

theorem permitsHeld (h : s.Sound maxJobs) : s.PermitsHeld maxJobs :=
  ⟨h.permits, fun id => ⟨(h.job id).permit, (h.job id).count, (h.job id).once, (h.job id).running⟩⟩

theorem prunesJudged (h : s.Sound maxJobs) (event : Event) : s.PrunesJudged event := by
  cases event with
  | remove task =>
    intro now key id keys htask
    have hfits := h.tasks task
    rw [htask] at hfits
    exact ⟨hfits.gone id rfl, hfits.judged key id rfl⟩
  | _ => trivial

/-- A task goes on, and the locks with it. -/
theorem goesOn (h : s.Sound maxJobs) {locks : Text → KeyLock.State Nat} {state : Task}
    (hlocks : ∀ key, (locks key).Sound)
    (hothers : ∀ other key, other ≠ task → (s.locks key).Holds other → (locks key).Holds other)
    (hfits : Service.Fits { s with locks := locks } task state) :
    Service.Sound maxJobs { s.become task state with locks := locks } := by
  refine ⟨hlocks, fun other => ?_, h.job, h.fresh, h.permits, h.entry, h.live, h.apart⟩
  by_cases he : other = task
  · subst he
    have hself : (s.become other state).tasks other = state := Function.update_self ..
    dsimp only
    rw [hself]
    exact ⟨hfits.holds, hfits.vacant, hfits.seen, hfits.judged, hfits.known, hfits.gone⟩
  · have hother : (s.become task state).tasks other = s.tasks other := Function.update_of_ne he ..
    dsimp only
    rw [hother]
    exact (h.tasks other).frame (fun key _ hk => hothers other key he hk) (fun _ _ hk => hk) (le_refl _)
      fun _ hk => hk

/-- A task goes on with the locks as they are. -/
theorem become (h : s.Sound maxJobs) {state : Task} (hfits : s.Fits task state) :
    (s.become task state).Sound maxJobs :=
  h.goesOn h.locks (fun _ _ _ hk => hk) hfits

/-- The locks of one key change in favour of no one else. -/
theorem goesOn_at (h : s.Sound maxJobs) {lock : KeyLock.State Nat} {state : Task} (hlock : lock.Sound)
    (hothers : ∀ other, other ≠ task → (s.locks key).Holds other → lock.Holds other)
    (hfits : Service.Fits { s with locks := Function.update s.locks key lock } task state) :
    Service.Sound maxJobs { s.become task state with locks := Function.update s.locks key lock } := by
  refine h.goesOn (fun other => ?_) (fun other name hne hk => ?_) hfits
  · by_cases hn : other = key
    · subst hn
      rw [Function.update_self]
      exact hlock
    · rw [Function.update_of_ne hn]
      exact h.locks other
  · by_cases hn : name = key
    · subst hn
      rw [Function.update_self]
      exact hothers other hne hk
    · rw [Function.update_of_ne hn]
      exact hk

theorem leave (h : s.Sound maxJobs) (task : Nat) (key : Text) : (s.leave task key).Sound maxJobs :=
  h.goesOn_at ((h.locks key).release task) (fun _ hne hk => hk.release hne) Fits.idle

/-- Of a job that changes, what does not change is as it was for every job. -/
theorem setJob_eq {β : Type*} {job : HlsJob} (f : HlsJob → β) (hf : f job = f (s.jobs id)) (other : Nat) :
    f ((s.setJob id job).jobs other) = f (s.jobs other) := by
  by_cases he : other = id
  · subst he
    exact (congrArg f (Function.update_self ..)).trans hf
  · exact congrArg f (Function.update_of_ne he ..)

/-- A job changes in what neither its name nor its life depend on. -/
theorem setJob (h : s.Sound maxJobs) {job : HlsJob} (hkey : job.key = (s.jobs id).key)
    (houtput : job.outputPrefix = (s.jobs id).outputPrefix) (hlive : job.live = (s.jobs id).live)
    (hjob : job.Sound) : (s.setJob id job).Sound maxJobs := by
  have hkeys := setJob_eq HlsJob.key hkey
  have houtputs := setJob_eq HlsJob.outputPrefix houtput
  have hlives := setJob_eq HlsJob.live hlive
  refine ⟨h.locks, fun task => ?_, fun other => ?_, fun other hle => ?_, ?_, fun key other hentry => ?_,
    fun other hother => ?_, fun i j hi hj hij => ?_⟩
  · exact (h.tasks task).frame (fun _ _ hk => hk) (fun _ _ hk => hk) (le_refl _) fun other hk => (hlives other).trans hk
  · by_cases he : other = id
    · subst he
      have hself : (s.setJob other job).jobs other = job := Function.update_self ..
      rw [hself]
      exact hjob
    · have hother : (s.setJob id job).jobs other = s.jobs other := Function.update_of_ne he ..
      rw [hother]
      exact h.job other
  · rw [hlives]
    exact h.fresh other hle
  · obtain ⟨held, htally, hsum⟩ := h.permits
    exact ⟨held, htally.congr fun other => by rw [hlives], hsum⟩
  · rw [hkeys]
    exact h.entry key other hentry
  · rw [hlives] at hother
    rw [hkeys]
    exact h.live other hother
  · rw [hlives] at hi hj
    rw [houtputs, houtputs] at hij
    rw [hkeys, hkeys]
    exact h.apart i j hi hj hij

/-- A job that was live is seen to have ended, and its permit goes back. -/
theorem releasePermit (h : s.Sound maxJobs) {job : HlsJob} (hkey : job.key = (s.jobs id).key)
    (houtput : job.outputPrefix = (s.jobs id).outputPrefix) (hlive : (s.jobs id).live = true)
    (hpermit : job.permit = true) (hdead : job.live = false) (hjob : job.release.Sound) :
    (s.releasePermit id job).Sound maxJobs := by
  have hrelease : job.release.key = job.key ∧ job.release.outputPrefix = job.outputPrefix ∧
      job.release.live = false := by
    rw [HlsJob.release, if_pos hpermit]
    exact ⟨rfl, rfl, hdead⟩
  have hkeys := setJob_eq HlsJob.key (hrelease.1.trans hkey)
  have houtputs := setJob_eq HlsJob.outputPrefix (hrelease.2.1.trans houtput)
  have hself : (s.setJob id job.release).jobs id = job.release := Function.update_self ..
  have hothers {other : Nat} (he : other ≠ id) : (s.setJob id job.release).jobs other = s.jobs other :=
    Function.update_of_ne he ..
  have hlives (other : Nat) : ((s.setJob id job.release).jobs other).live = true ↔
      other ≠ id ∧ (s.jobs other).live = true := by
    by_cases he : other = id
    · subst he
      rw [hself, hrelease.2.2]
      simp
    · rw [hothers he]
      simp [he]
  refine ⟨h.locks, fun task => ?_, fun other => ?_, fun other hle => ?_, ?_, fun key other hentry => ?_,
    fun other hother => ?_, fun i j hi hj hij => ?_⟩
  · refine (h.tasks task).frame (fun _ _ hk => hk) (fun _ _ hk => hk) (le_refl _) fun other hk => ?_
    rw [← Bool.not_eq_true] at hk ⊢
    exact fun hnow => hk ((hlives other).mp hnow).2
  · by_cases he : other = id
    · subst he
      exact hself ▸ hjob
    · exact hothers he ▸ h.job other
  · rw [← Bool.not_eq_true]
    intro hnow
    have hold := h.fresh other hle
    rw [((hlives other).mp hnow).2] at hold
    cases hold
  · obtain ⟨held, htally, hsum⟩ := h.permits
    have hpos := htally.pos (i := id) hlive
    refine ⟨held - 1, htally.remove hlive hlives, ?_⟩
    have havailable : (s.releasePermit id job).available = s.available + 1 := by
      rw [Service.releasePermit, hpermit]
      rfl
    omega
  · exact ⟨(h.entry key other hentry).1, (hkeys other).trans (h.entry key other hentry).2⟩
  · exact (congrArg s.hlsJobs (hkeys other)).trans (h.live other ((hlives other).mp hother).2)
  · have hij : (s.jobs i).outputPrefix = (s.jobs j).outputPrefix :=
      (houtputs i).symm.trans (hij.trans (houtputs j))
    have hsame := h.apart i j ((hlives i).mp hi).2 ((hlives j).mp hj).2 hij
    exact (hkeys i).trans (hsame.trans (hkeys j).symm)

/-- A key is made vacant whose job, if it has one, is not live. -/
theorem unmap (h : s.Sound maxJobs) (hdead : ∀ id, s.hlsJobs key = some id → (s.jobs id).live = false) :
    Service.Sound maxJobs { s with hlsJobs := Function.update s.hlsJobs key none } := by
  have hmap {name : Text} {id : Nat} (hentry : Function.update s.hlsJobs key none name = some id) :
      s.hlsJobs name = some id := by
    by_cases hn : name = key
    · subst hn
      rw [Function.update_self] at hentry
      cases hentry
    · rwa [Function.update_of_ne hn] at hentry
  refine ⟨h.locks, fun task => ?_, h.job, h.fresh, h.permits, fun name id hentry => h.entry name id (hmap hentry),
    fun id hlive => ?_, h.apart⟩
  · exact (h.tasks task).frame (fun _ _ hk => hk) (fun _ _ hk => hmap hk) (le_refl _) fun _ hk => hk
  · have hold := h.live id hlive
    have hn : (s.jobs id).key ≠ key := by
      intro he
      have hnot := hdead id (he ▸ hold)
      rw [hlive] at hnot
      cases hnot
    exact (Function.update_of_ne hn ..).trans hold

/-- A job comes under a vacant key that no request holds and no prune pass has judged. -/
theorem insert (h : s.Sound maxJobs) {job : HlsJob} {available : Nat}
    (hfree : ∀ task, (s.tasks task).holds ≠ some job.key)
    (hjudged : ∀ task id, (s.tasks task).judged ≠ some (job.key, id))
    (hvacant : s.hlsJobs job.key = none) (hjob : job.Sound)
    (havailable : available + job.live.toNat = s.available)
    (houtput : job.live = true → ∀ id, (s.jobs id).live = true →
      (s.jobs id).outputPrefix = job.outputPrefix → (s.jobs id).key = job.key) :
    Service.Sound maxJobs { s.insert job with available := available } := by
  have hself : (s.insert job).jobs s.next = job := Function.update_self ..
  have hothers {id : Nat} (he : id ≠ s.next) : (s.insert job).jobs id = s.jobs id :=
    Function.update_of_ne he ..
  have hmapSelf : (s.insert job).hlsJobs job.key = some s.next := Function.update_self ..
  have hmap {name : Text} (hn : name ≠ job.key) : (s.insert job).hlsJobs name = s.hlsJobs name :=
    Function.update_of_ne hn ..
  have hdead : (s.jobs s.next).live = false := h.fresh s.next (le_refl _)
  refine ⟨h.locks, fun task => ?_, fun id => ?_, fun id hle => ?_, ?_, fun name id hentry => ?_,
    fun id hlive => ?_, fun i j hi hj hij => ?_⟩
  · have hfits := h.tasks task
    refine ⟨hfits.holds, fun name hk => ?_, fun name id hk other hother => ?_,
      fun name id hk other hother => ?_, fun id hk => Nat.lt_succ_of_lt (hfits.known id hk), fun id hk => ?_⟩
    · have hn : name ≠ job.key := fun he => hfree task (he ▸ Task.holds_of_vacates hk)
      exact (hmap hn).trans (hfits.vacant name hk)
    · have hn : name ≠ job.key := fun he => hfree task (he ▸ Task.holds_of_sees hk)
      exact hfits.seen name id hk other ((hmap hn).symm.trans hother)
    · have hn : name ≠ job.key := fun he => hjudged task id (he ▸ hk)
      exact hfits.judged name id hk other ((hmap hn).symm.trans hother)
    · have he : id ≠ s.next := Nat.ne_of_lt (hfits.known id (Task.inspects_of_removes hk))
      exact (congrArg HlsJob.live (hothers he)).trans (hfits.gone id hk)
  · by_cases he : id = s.next
    · subst he
      dsimp only
      rw [hself]
      exact hjob
    · dsimp only
      rw [hothers he]
      exact h.job id
  · have he : id ≠ s.next := Nat.ne_of_gt hle
    exact (congrArg HlsJob.live (hothers he)).trans (h.fresh id (Nat.le_of_succ_le hle))
  · obtain ⟨held, htally, hsum⟩ := h.permits
    cases hlive : job.live with
    | false =>
      rw [hlive] at havailable
      refine ⟨held, htally.congr fun id => ?_, ?_⟩
      · by_cases he : id = s.next
        · subst he
          dsimp only
          rw [hself, hlive, hdead]
        · dsimp only
          rw [hothers he]
      · have hsame : available = s.available := havailable
        exact hsame ▸ hsum
    | true =>
      rw [hlive, Bool.toNat_true] at havailable
      refine ⟨held + 1, htally.add (i := s.next) (by rw [hdead]; exact Bool.false_ne_true) fun id => ?_, ?_⟩
      · by_cases he : id = s.next
        · subst he
          dsimp only
          rw [hself, hlive]
          simp
        · dsimp only
          rw [hothers he]
          simp [he]
      · dsimp only
        omega
  · by_cases hn : name = job.key
    · subst hn
      have hid : s.next = id := Option.some.inj (hmapSelf.symm.trans hentry)
      subst hid
      exact ⟨Nat.lt_succ_self _, congrArg HlsJob.key hself⟩
    · have hold := h.entry name id ((hmap hn).symm.trans hentry)
      have he : id ≠ s.next := Nat.ne_of_lt hold.1
      exact ⟨Nat.lt_succ_of_lt hold.1, (congrArg HlsJob.key (hothers he)).trans hold.2⟩
  · by_cases he : id = s.next
    · subst he
      exact (congrArg (s.insert job).hlsJobs (congrArg HlsJob.key hself)).trans hmapSelf
    · have hold := h.live id ((congrArg HlsJob.live (hothers he)).symm.trans hlive)
      have hn : (s.jobs id).key ≠ job.key := by
        intro hkey
        rw [hkey, hvacant] at hold
        cases hold
      exact (congrArg (s.insert job).hlsJobs (congrArg HlsJob.key (hothers he))).trans ((hmap hn).trans hold)
  · have hlives {id : Nat} (he : id ≠ s.next) (hk : ((s.insert job).jobs id).live = true) :
        (s.jobs id).live = true := (congrArg HlsJob.live (hothers he)).symm.trans hk
    dsimp only at hi hj hij ⊢
    by_cases hni : i = s.next
    · by_cases hnj : j = s.next
      · rw [hni, hnj]
      · subst hni
        rw [hself] at hi hij ⊢
        rw [hothers hnj] at hij ⊢
        exact (houtput hi j (hlives hnj hj) hij.symm).symm
    · by_cases hnj : j = s.next
      · subst hnj
        rw [hself] at hj hij ⊢
        rw [hothers hni] at hij ⊢
        exact houtput hj i (hlives hni hi) hij
      · rw [hothers hni, hothers hnj] at hij ⊢
        exact h.apart i j (hlives hni hi) (hlives hnj hj) hij

theorem fits (h : s.Sound maxJobs) {state : Task} (htask : s.tasks task = state) : s.Fits task state :=
  htask ▸ h.tasks task

/-- A request has found or made its key vacant, and puts a job there before it returns. -/
theorem insert_leave (h : s.Sound maxJobs) {state : Task} (htask : s.tasks task = state)
    (hstate : state.vacates = some key) {job : HlsJob} (hkey : job.key = key) {available : Nat}
    (hjudged : ∀ task id, (s.tasks task).judged ≠ some (key, id)) (hjob : job.Sound)
    (havailable : available + job.live.toNat = s.available)
    (houtput : job.live = true → ∀ id, (s.jobs id).live = true →
      (s.jobs id).outputPrefix = job.outputPrefix → (s.jobs id).key = key) :
    (Service.leave { s.insert job with available := available } task key).Sound maxJobs := by
  subst hkey
  have hfits := h.fits htask
  have hholds := hfits.holds job.key (Task.holds_of_vacates hstate)
  have hleave := h.leave task job.key
  have hidle : (s.leave task job.key).tasks task = .idle := Function.update_self ..
  have hothers {other : Nat} (he : other ≠ task) : (s.leave task job.key).tasks other = s.tasks other :=
    Function.update_of_ne he ..
  refine hleave.insert (fun other => ?_) (fun other id => ?_) (hfits.vacant job.key hstate) hjob
    havailable houtput
  · by_cases he : other = task
    · subst he
      rw [hidle]
      exact (Option.some_ne_none _).symm
    · rw [hothers he]
      intro hother
      exact he ((h.locks job.key).holds_unique ((h.tasks other).holds job.key hother) hholds)
  · by_cases he : other = task
    · subst he
      rw [hidle]
      exact (Option.some_ne_none _).symm
    · rw [hothers he]
      exact hjudged other id

/-- A job is accessed. -/
theorem touch (h : s.Sound maxJobs) (id : Nat) (now : Int) :
    (s.setJob id { s.jobs id with lastAccessedAt := now }).Sound maxJobs :=
  h.setJob rfl rfl rfl
    ⟨(h.job id).running, (h.job id).permit, (h.job id).stage, (h.job id).marking, (h.job id).exited,
      (h.job id).count, (h.job id).once⟩

theorem live_of_child (hchild : (s.jobs id).child = true) : (s.jobs id).live = true := by
  rw [HlsJob.live, hchild, Bool.true_or]

theorem live_of_stage (hstage : (s.jobs id).stage ≠ .idle) : (s.jobs id).live = true := by
  rw [HlsJob.live, decide_eq_true hstage, Bool.or_true]

/-- A live job has its one permit. -/
theorem count_of_live (h : s.Sound maxJobs) (hlive : (s.jobs id).live = true) :
    (s.jobs id).permit = true ∧ (s.jobs id).released + 1 = (s.jobs id).acquired := by
  have hpermit := (h.job id).permit
  have hcount := (h.job id).count
  rw [hlive] at hpermit
  rw [hpermit] at hcount
  exact ⟨hpermit, hcount⟩

section
attribute [local simp] Service.step

theorem reap (h : s.Sound maxJobs) (id : Nat) (now : Int) : (s.step cacheDir (.reap id now)).Sound maxJobs := by
  rw [Service.step]
  dsimp only
  split
  · exact h
  · next code hprocess =>
    split
    · next hchild =>
      have hlive := live_of_child hchild.1
      obtain ⟨hpermit, hcount⟩ := h.count_of_live hlive
      have hended : (s.jobs id).process ≠ .running := by
        rw [hprocess]
        exact Process.noConfusion
      split
      · exact h.setJob rfl rfl hlive.symm ⟨fun hrunning => absurd hrunning hended, hpermit, fun _ => rfl,
          fun _ => hended, fun _ => ⟨rfl, fun _ => rfl⟩, (h.job id).count, (h.job id).once⟩
      · have hdead : HlsJob.live { (s.jobs id).exit code now with child := false } = false :=
          HlsJob.live_eq_false.mpr ⟨rfl, hchild.2⟩
        exact h.releasePermit rfl rfl hlive hpermit hdead
          (HlsJob.sound_release hpermit hended hdead hcount (h.job id).once)
    · exact h

theorem reapFails (h : s.Sound maxJobs) (id : Nat) (now : Int) :
    (s.step cacheDir (.reapFails id now)).Sound maxJobs := by
  rw [Service.step]
  dsimp only
  split
  · next hchild =>
    have hlive := live_of_child hchild.1
    obtain ⟨hpermit, hcount⟩ := h.count_of_live hlive
    have hdead : HlsJob.live { (s.jobs id).exit 1 now with child := false, process := .ended 1 } = false :=
      HlsJob.live_eq_false.mpr ⟨rfl, hchild.2⟩
    exact h.releasePermit rfl rfl hlive hpermit hdead
      (HlsJob.sound_release hpermit Process.noConfusion hdead hcount (h.job id).once)
  · exact h

theorem marked (h : s.Sound maxJobs) (id : Nat) : (s.step cacheDir (.marked id)).Sound maxJobs := by
  rw [Service.step]
  split
  · next hstage =>
    have hne : (s.jobs id).stage ≠ .idle := by rw [hstage]; exact Stage.noConfusion
    have hlive := live_of_stage hne
    obtain ⟨hpermit, hcount⟩ := h.count_of_live hlive
    have hdead : HlsJob.live { s.jobs id with stage := .idle } = false :=
      HlsJob.live_eq_false.mpr ⟨(h.job id).stage hne, rfl⟩
    exact h.releasePermit rfl rfl hlive hpermit hdead
      (HlsJob.sound_release hpermit ((h.job id).marking hstage) hdead hcount (h.job id).once)
  · exact h

theorem ends (h : s.Sound maxJobs) (id : Nat) (code : Int) : (s.step cacheDir (.ends id code)).Sound maxJobs := by
  rw [Service.step]
  split
  · exact h.setJob rfl rfl rfl ⟨fun hrunning => (by cases hrunning), (h.job id).permit, (h.job id).stage,
      fun _ => Process.noConfusion, (h.job id).exited, (h.job id).count, (h.job id).once⟩
  · exact h

/-- A job that is not live has no permit to forget. -/
theorem forget (h : s.Sound maxJobs) (id : Nat) : (s.step cacheDir (.forget id)).Sound maxJobs := by
  rw [Service.step]
  split
  · next hdead =>
    have hpermit : (s.jobs id).permit = false := (h.job id).permit.trans hdead.1
    have hsame : s.releasePermit id (s.jobs id) = s := by
      rw [Service.releasePermit, HlsJob.release, hpermit, Service.setJob]
      simp
    rw [hsame]
    exact h
  · exact h

theorem decide (h : s.Sound maxJobs) (task : Nat) (now : Int) :
    (s.step cacheDir (.decide task now)).Sound maxJobs := by
  rw [Service.step]
  split
  · next key override id htask =>
    have hfits := h.fits htask
    have htouch := h.touch id now
    dsimp only
    split
    · exact htouch.leave task key
    · next hfailed =>
      simp only [Bool.or_eq_true, Bool.not_eq_true', beq_iff_eq, not_or, Bool.not_eq_false] at hfailed
      -- what it has found under the key, if it is still there, has failed
      have hdead : (s.jobs id).live = false := by
        obtain ⟨hchild, hstage⟩ := (h.job id).exited hfailed.1
        refine HlsJob.live_eq_false.mpr ⟨hchild, ?_⟩
        by_contra hne
        exact hfailed.2 (hstage hne)
      let t : Service := s.setJob id { s.jobs id with lastAccessedAt := now }
      have hlives : ∀ other, (t.jobs other).live = (s.jobs other).live := setJob_eq HlsJob.live rfl
      have hremoved : Service.Sound maxJobs { t with hlsJobs := Function.update t.hlsJobs key none } := by
        refine htouch.unmap fun other hother => ?_
        have hsame := hfits.seen key id rfl other hother
        subst hsame
        exact (hlives other).trans hdead
      have hgoes (state : Task) (hstate : state.holds = some key) (hsees : state.sees = none) :
          (Service.become { t with hlsJobs := Function.update t.hlsJobs key none } task state).Sound maxJobs := by
        refine hremoved.become (Fits.of_holds hstate (hfits.holds key rfl) (fun _ => Function.update_self ..)
          fun other hother => ?_)
        rw [hsees] at hother
        cases hother
      split
      · exact hgoes _ rfl rfl
      · split
        · exact hgoes _ rfl rfl
        · exact hgoes _ rfl rfl
  · exact h

theorem take (h : s.Sound maxJobs) (task : Nat) : (s.step cacheDir (.take task)).Sound maxJobs := by
  rw [Service.step]
  split
  · next now key id keys htask =>
    have hfits := h.fits htask
    dsimp only
    split
    · next hstage =>
      split
      · next hchild =>
        have hlive := live_of_child hchild
        have hexited : (s.jobs id).exited ≠ true := by
          intro hexited
          rw [((h.job id).exited hexited).1] at hchild
          cases hchild
        have htaken : (s.setJob id { s.jobs id with child := false, stage := .killing }).Sound maxJobs :=
          h.setJob rfl rfl hlive.symm ⟨fun _ => rfl, (h.job id).permit.trans hlive, fun _ => rfl, fun hm => (by cases hm),
            fun hexit => absurd hexit hexited, (h.job id).count, (h.job id).once⟩
        exact htaken.become (Fits.of_judged rfl (hfits.known id rfl) (hfits.judged key id rfl) fun hk => (by cases hk))
      · next hchild =>
        exact h.become (Fits.of_judged rfl (hfits.known id rfl) (hfits.judged key id rfl) fun _ =>
          HlsJob.live_eq_false.mpr ⟨by simpa using hchild, hstage⟩)
    · exact h
  · exact h

theorem killed (h : s.Sound maxJobs) (task : Nat) (now : Int) :
    (s.step cacheDir (.killed task now)).Sound maxJobs := by
  rw [Service.step]
  split
  · next began key id keys htask =>
    have hfits := h.fits htask
    dsimp only
    split
    · next hstage =>
      have hne : (s.jobs id).stage ≠ .idle := by rw [hstage]; exact Stage.noConfusion
      have hlive := live_of_stage hne
      obtain ⟨hpermit, hcount⟩ := h.count_of_live hlive
      have hdead : HlsJob.live { (s.jobs id).exit 1 now with process := .ended 1, stage := .idle } = false :=
        HlsJob.live_eq_false.mpr ⟨(h.job id).stage hne, rfl⟩
      let job : HlsJob := { (s.jobs id).exit 1 now with process := .ended 1, stage := .idle }
      have hreleased : (s.releasePermit id job).Sound maxJobs :=
        h.releasePermit rfl rfl hlive hpermit hdead
          (HlsJob.sound_release hpermit Process.noConfusion hdead hcount (h.job id).once)
      refine hreleased.become (Fits.of_judged rfl (hfits.known id rfl) (hfits.judged key id rfl) fun _ => ?_)
      have hself : (s.releasePermit id job).jobs id = job.release := Function.update_self ..
      rw [hself, HlsJob.live_release]
      exact hdead
    · exact h
  · exact h

theorem pruneLock (h : s.Sound maxJobs) (key : Text) : (s.step cacheDir (.pruneLock key)).Sound maxJobs := by
  have hholds (task : Nat) (name : Text) (hk : (s.locks name).Holds task) :
      (Function.update s.locks key (s.locks key).prune name).Holds task := by
    by_cases hn : name = key
    · subst hn
      rw [Function.update_self]
      exact hk.prune
    · rw [Function.update_of_ne hn]
      exact hk
  refine ⟨fun name => ?_, fun task => ?_, h.job, h.fresh, h.permits, h.entry, h.live, h.apart⟩
  · dsimp only [Service.step]
    by_cases hn : name = key
    · subst hn
      rw [Function.update_self]
      exact (h.locks name).prune
    · rw [Function.update_of_ne hn]
      exact h.locks name
  · exact (h.tasks task).frame (fun name _ hk => hholds task name hk) (fun _ _ hk => hk) (le_refl _)
      fun _ hk => hk

theorem step (h : s.Sound maxJobs) {event : Event} (hapart : s.Apart cacheDir event) :
    (s.step cacheDir event).Sound maxJobs := by
  cases event with
  | call task key override =>
    rw [Service.step]
    split
    · exact h.goesOn_at ((h.locks key).refer task) (fun _ _ hk => hk.refer)
        (Fits.of_none rfl rfl fun _ hk => (by cases hk))
    · exact h
  | lock task =>
    rw [Service.step]
    split
    · next key override htask =>
      split
      · next hholds =>
        refine h.goesOn_at ((h.locks key).acquire task) (fun _ _ hk => hk.acquire)
          (Fits.of_holds rfl ?_ (fun hk => (by cases hk)) fun _ hk => (by cases hk))
        dsimp only
        rw [Function.update_self]
        exact hholds
      · exact h
    · exact h
  | lookUp task =>
    rw [Service.step]
    split
    · next key override htask =>
      have hholds := (h.fits htask).holds key rfl
      split
      · next id hentry =>
        refine h.become (Fits.of_holds rfl hholds (fun hk => (by cases hk)) fun id' hk other hother => ?_)
        cases hk
        rw [hentry] at hother
        exact (Option.some.inj hother).symm
      · next hnone => exact h.become (Fits.of_holds rfl hholds (fun _ => hnone) fun _ hk => (by cases hk))
    · exact h
  | refreshed task =>
    rw [Service.step]
    split
    · next key override id htask =>
      have hfits := h.fits htask
      split
      · refine h.become (Fits.of_holds rfl (hfits.holds key rfl) (fun hk => (by cases hk)) fun id' hk => ?_)
        cases hk
        exact hfits.seen key id rfl
      · exact h
    · exact h
  | decide task now => exact h.decide task now
  | choose task preferredMode =>
    rw [Service.step]
    split
    · next key override htask =>
      have hfits := h.fits htask
      exact h.become (Fits.of_holds rfl (hfits.holds key rfl) (fun _ => hfits.vacant key rfl)
        fun _ hk => (by cases hk))
    · exact h
  | marker task complete now =>
    rw [Service.step]
    split
    · next key mode fallback htask =>
      split
      · next hcomplete =>
        have hjob : (completedJob cacheDir key mode fallback now).Sound :=
          ⟨fun hk => (by cases hk), rfl, fun hk => absurd rfl hk, fun hk => (by cases hk),
            fun _ => ⟨rfl, fun hk => absurd rfl hk⟩, rfl, Nat.zero_le 1⟩
        exact h.insert_leave htask rfl rfl (hapart hcomplete key mode fallback htask) hjob rfl
          fun hk => (by cases hk)
      · have hfits := h.fits htask
        exact h.become (Fits.of_holds rfl (hfits.holds key rfl) (fun _ => hfits.vacant key rfl)
          fun _ hk => (by cases hk))
    · exact h
  | acquire task spawns now =>
    rw [Service.step]
    split
    · next key mode fallback htask =>
      split
      · next havailable =>
        obtain ⟨hjudged, houtput⟩ := hapart key mode fallback htask
        have hjob : (newJob cacheDir key mode fallback now).Sound :=
          ⟨fun _ => rfl, rfl, fun hk => absurd rfl hk, fun hk => (by cases hk), fun hk => (by cases hk), rfl,
            le_refl 1⟩
        exact h.insert_leave htask rfl rfl hjudged hjob (Nat.sub_add_cancel havailable.1) fun _ => houtput
      · exact h.leave task key
    · exact h
  | cancel task =>
    rw [Service.step]
    split <;> first | exact h.leave task _ | exact h
  | touch id now => exact h.touch id now
  | ends id code => exact h.ends id code
  | reap id now => exact h.reap id now
  | reapFails id now => exact h.reapFails id now
  | marked id => exact h.marked id
  | dropRefresh id =>
    rw [Service.step, if_neg hapart]
    exact h
  | forget id => exact h.forget id
  | prune task now keys =>
    rw [Service.step]
    split
    · exact h.become (Fits.of_none rfl rfl fun _ hk => (by cases hk))
    · exact h
  | inspect task =>
    rw [Service.step]
    split
    · split
      · next id hentry =>
        refine h.become (Fits.of_none rfl rfl fun other hk => ?_)
        cases hk
        exact (h.entry _ id hentry).1
      · exact h.become (Fits.of_none rfl rfl fun _ hk => (by cases hk))
    · exact h.become Fits.idle
    · exact h
  | inspected task =>
    rw [Service.step]
    split
    · next now key id keys htask =>
      have hfits := h.fits htask
      split
      · exact h.become (Fits.of_none rfl rfl hfits.known)
      · exact h
    · exact h
  | judge task =>
    rw [Service.step]
    split
    · next now key id keys htask =>
      have hfits := h.fits htask
      split
      · next hidle =>
        exact h.become (Fits.of_judged rfl (hfits.known id rfl) (hapart now key id keys htask hidle)
          fun hk => (by cases hk))
      · exact h.become (Fits.of_none rfl rfl fun _ hk => (by cases hk))
    · exact h
  | take task => exact h.take task
  | killed task now => exact h.killed task now
  | remove task =>
    rw [Service.step]
    split
    · next now key id keys htask =>
      have hfits := h.fits htask
      have hunmap : Service.Sound maxJobs { s with hlsJobs := Function.update s.hlsJobs key none } := by
        refine h.unmap fun other hother => ?_
        have hsame := hfits.judged key id rfl other hother
        subst hsame
        exact hfits.gone other rfl
      exact hunmap.become (Fits.of_none rfl rfl fun _ hk => (by cases hk))
    · exact h
  | pruneLock key => exact h.pruneLock key

end

end Sound

end Service

/-- In every run in which jobs come and go apart from the prune passes that judge them, no
two processes write to one output prefix, the permits out are those of the live transcodes
and each goes back once, and a prune pass removes only the job that it judged. -/
theorem one_writer_and_permits (cacheDir : Text) (maxJobs : Nat) (events : List Event)
    (hapart : Each (Service.step cacheDir) (Service.Apart cacheDir) (.initial maxJobs) events) :
    Throughout (Service.step cacheDir) (fun s => s.OneWriter ∧ s.PermitsHeld maxJobs) (.initial maxJobs)
        events ∧
      Each (Service.step cacheDir) Service.PrunesJudged (.initial maxJobs) events := by
  constructor
  · refine Throughout.imp (P := Service.Sound maxJobs) (fun s h => ⟨h.oneWriter, h.permitsHeld⟩) ?_
    exact throughout_of_each (fun s event hevent h => h.step hevent) Service.sound_initial hapart
  · exact each_of_each (P := Service.Sound maxJobs) (fun s event hevent h => h.step hevent)
      (fun s event h => h.prunesJudged event) Service.sound_initial hapart

/-- A request that starts the first transcode. -/
theorem one_writer_and_permits_start :
    Throughout (Service.step ['/']) (fun s => s.OneWriter ∧ s.PermitsHeld 1) (.initial 1)
        [.call 0 ['k'] none, .lock 0, .lookUp 0, .choose 0 .none, .marker 0 false 0, .acquire 0 true 0] ∧
      Each (Service.step ['/']) Service.PrunesJudged (.initial 1)
        [.call 0 ['k'] none, .lock 0, .lookUp 0, .choose 0 .none, .marker 0 false 0, .acquire 0 true 0] := by
  refine one_writer_and_permits ['/'] 1 _ ⟨trivial, trivial, trivial, trivial, fun hc => (by cases hc),
    fun key mode fallback _ => ⟨fun other id hjudged => ?_, fun id hlive => (by cases hlive)⟩, trivial⟩
  by_cases he : other = 0
  · subst he
    cases hjudged
  · simp [Service.step, Service.become, Service.initial, Service.startMode, KeyLock.State.refer,
      KeyLock.State.acquire, KeyLock.State.Holds, KeyLock.State.initial, he, Task.judged] at hjudged

/-- Two films whose keys have one hash are transcoded to one prefix at once. -/
theorem two_writers_of_one_prefix :
    ¬ ∀ (cacheDir : Text) (maxJobs : Nat) (events : List Event),
      Throughout (Service.step cacheDir) (fun s => s.OneWriter ∧ s.PermitsHeld maxJobs) (.initial maxJobs)
        events := by
  intro h
  have hlast := (h ['/'] 2 [.call 0 (buildHlsTranscodeJobKey "/srv/videos/dxgpca.mkv".toList (-1)) none, .lock 0,
    .lookUp 0, .choose 0 .none, .marker 0 false 0, .acquire 0 true 0,
    .call 1 (buildHlsTranscodeJobKey "/srv/videos/hgemoe.mkv".toList (-1)) none, .lock 1, .lookUp 1,
    .choose 1 .none, .marker 1 false 0, .acquire 1 true 0]).last
  have hsame := hlast.1 0 1 rfl rfl (by decide +kernel)
  cases hsame

end StreamArena.Streaming.TranscodeJobs
