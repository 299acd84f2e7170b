import StreamArena.Library.Runs
import StreamArena.Streaming.CachePaths

/-! Requests for HLS segments (src/streaming.rs) beside the ffmpeg processes that write them:
a request waits until its segment has bytes, and is answered from the file it has found. -/
namespace StreamArena.Streaming.SegmentWait
open AsciiText Runs

/-- A transcode opens its segments one after the other, closing each before the next. -/
inductive Status where
  | running (current : Option (Nat × Nat))
  | exited (code : Int)

structure HlsJob where
  sourceInput : Text
  audioStreamIndex : Int
  encodeMode : EncodeMode
  allowSoftwareFallback : Bool
  outputPrefix : Text
  status : Status

/-- Where a request is: in the loop of `wait_for_hls_segment_from_job`, in a rendering of
its own, or with a path to serve. -/
inductive Waiter where
  | polling (job : Nat) (segmentIndex : Int)
  | refreshing (job : Nat) (segmentIndex : Int)
  | checking (path : Text)
  | rendering (path : Text)
  | found (path : Text)
  | opened
  | failed

/-- Files are told apart by their inodes: a removed file and a new one of its name differ. -/
structure Host where
  inodes : Nat
  content : Nat → List UInt8
  dir : Text → Option Nat
  jobs : Nat → Option HlsJob
  waiters : Nat → Option Waiter
  /-- What was let through to be served, with what it held then. -/
  served : List (Nat × List UInt8)

inductive Event where
  | start (job : Nat) (sourceInput : Text) (audioStreamIndex : Int) (encodeMode : EncodeMode)
      (allowSoftwareFallback : Bool) (removes : Text → Bool)
  | next (job : Nat)
  | write (job : Nat) (bytes : List UInt8)
  | exit (job : Nat) (code : Int)
  | request (waiter job : Nat) (segmentIndex : Int)
  | poll (waiter : Nat)
  | refresh (waiter : Nat) (fallback : Option Nat)
  | timeout (waiter : Nat)
  | check (waiter : Nat)
  | rendered (waiter : Nat) (bytes : List UInt8)
  | renderFails (waiter : Nat)
  | opens (waiter : Nat)
  | prune (path : Text)

namespace Host

def initial : Host := ⟨0, fun _ => [], fun _ => none, fun _ => none, fun _ => none, []⟩

def become (s : Host) (waiter : Nat) (state : Waiter) : Host :=
  { s with waiters := Function.update s.waiters waiter (some state) }

def setStatus (s : Host) (id : Nat) (job : HlsJob) (status : Status) : Host :=
  { s with jobs := Function.update s.jobs id (some { job with status := status }) }

/-- A file with bytes is found under a path. -/
def find (s : Host) (path : Text) : Option Nat :=
  (s.dir path).filter fun inode => s.content inode ≠ []

def serve (s : Host) (inode : Nat) : Host :=
  { s with served := (inode, s.content inode) :: s.served }

/-- A new file under a path, in place of one that was there. -/
def place (s : Host) (path : Text) (bytes : List UInt8) : Host :=
  { s with
    inodes := s.inodes + 1
    content := Function.update s.content s.inodes bytes
    dir := Function.update s.dir path (some s.inodes) }

/-- The path of a segment of a job. -/
def segmentPath (job : HlsJob) (segmentIndex : Int) : Text :=
  buildHlsTranscodeSegmentPathFromPrefix job.outputPrefix segmentIndex

def nextIndex : Option (Nat × Nat) → Nat
  | none => 0
  | some (index, _) => index + 1

/-- A transcode opens its next segment, truncating a file that is there. -/
def openSegment (s : Host) (id : Nat) (job : HlsJob) (index : Nat) : Host :=
  match s.dir (segmentPath job index) with
  | some inode =>
    ({ s with content := Function.update s.content inode [] }).setStatus id job
      (.running (some (index, inode)))
  | none => (s.place (segmentPath job index) []).setStatus id job (.running (some (index, s.inodes)))

/-- One step, of a process or of a request. -/
def step (cacheDir : Text) (s : Host) : Event → Host
  | .start id source audio mode fallback removes =>
    match s.jobs id with
    | none =>
      let outputPrefix :=
        buildHlsTranscodeOutputPrefix cacheDir (buildHlsTranscodeJobKey source audio) mode
      { s with
        dir := fun path =>
          if startsWith path outputPrefix = true ∧ removes path = true then none else s.dir path
        jobs := Function.update s.jobs id
          (some ⟨source, audio, mode, fallback, outputPrefix, .running none⟩) }
    | some _ => s
  | .next id =>
    match s.jobs id with
    | some job =>
      match job.status with
      | .running current => s.openSegment id job (nextIndex current)
      | .exited _ => s
    | none => s
  | .write id bytes =>
    match s.jobs id with
    | some job =>
      match job.status with
      | .running (some (_, inode)) =>
        { s with content := Function.update s.content inode (s.content inode ++ bytes) }
      | _ => s
    | none => s
  | .exit id code =>
    match s.jobs id with
    | some job =>
      match job.status with
      | .running _ => s.setStatus id job (.exited code)
      | .exited _ => s
    | none => s
  | .request waiter job segmentIndex => s.become waiter (.polling job (max segmentIndex 0))
  | .poll waiter =>
    match s.waiters waiter with
    | some (.polling id segmentIndex) =>
      match s.jobs id with
      | some job =>
        match s.find (segmentPath job segmentIndex) with
        | some inode => (s.serve inode).become waiter (.found (segmentPath job segmentIndex))
        | none => s.become waiter (.refreshing id segmentIndex)
      | none => s
    | _ => s
  | .refresh waiter fallback =>
    match s.waiters waiter with
    | some (.refreshing id segmentIndex) =>
      match s.jobs id with
      | some job =>
        match job.status with
        | .running _ => s.become waiter (.polling id segmentIndex)
        | .exited code =>
          if code = 0 then s.become waiter (.checking (segmentPath job segmentIndex))
          else if job.allowSoftwareFallback ∧ job.encodeMode ≠ .none then
            match fallback with
            | some other => s.become waiter (.polling other segmentIndex)
            | none => s.become waiter .failed
          else s.become waiter .failed
      | none => s
    | _ => s
  | .timeout waiter =>
    match s.waiters waiter with
    | some (.polling id segmentIndex) =>
      match s.jobs id with
      | some job =>
        s.become waiter (.checking (buildHlsOnDemandSegmentPath cacheDir job.sourceInput
          (safeAudioStreamIndex job.audioStreamIndex) segmentIndex))
      | none => s
    | _ => s
  | .check waiter =>
    match s.waiters waiter with
    | some (.checking path) =>
      match s.find path with
      | some inode => (s.serve inode).become waiter (.found path)
      | none => s.become waiter (.rendering path)
    | _ => s
  | .rendered waiter bytes =>
    match s.waiters waiter with
    | some (.rendering path) =>
      if bytes = [] then s.become waiter .failed
      else ((s.place path bytes).serve s.inodes).become waiter (.found path)
    | _ => s
  | .renderFails waiter =>
    match s.waiters waiter with
    | some (.rendering _) => s.become waiter .failed
    | _ => s
  | .opens waiter =>
    match s.waiters waiter with
    | some (.found path) =>
      match s.dir path with
      | some inode => (s.serve inode).become waiter .opened
      | none => s.become waiter .failed
    | _ => s
  | .prune path => { s with dir := Function.update s.dir path none }

/-- What was let through holds what it held then. -/
def Complete (s : Host) : Prop := ∀ inode bytes, (inode, bytes) ∈ s.served → s.content inode = bytes

/-- A process that has not exited has the file open as its current segment. -/
def Writing (s : Host) (inode : Nat) : Prop :=
  ∃ id job index, s.jobs id = some job ∧ job.status = .running (some (index, inode))

/-- A file that is let through is not the one a transcode is writing, and a transcode that
finds a file under its next segment's name does not find one that was let through. -/
def Settled (s : Host) : Event → Prop
  | .poll waiter => ∀ id segmentIndex job inode, s.waiters waiter = some (.polling id segmentIndex) →
      s.jobs id = some job → s.find (segmentPath job segmentIndex) = some inode → ¬ s.Writing inode
  | .check waiter => ∀ path inode, s.waiters waiter = some (.checking path) →
      s.find path = some inode → ¬ s.Writing inode
  | .opens waiter => ∀ path inode, s.waiters waiter = some (.found path) →
      s.dir path = some inode → ¬ s.Writing inode
  | .next id => ∀ job current inode, s.jobs id = some job → job.status = .running current →
      s.dir (segmentPath job (nextIndex current)) = some inode → ∀ bytes, (inode, bytes) ∉ s.served
  | _ => True

/-- Where only settled files are let through, no process has one of them open. -/
structure Intact (s : Host) : Prop where
  dir : ∀ path inode, s.dir path = some inode → inode < s.inodes
  writing : ∀ inode, s.Writing inode → inode < s.inodes
  served : ∀ inode bytes, (inode, bytes) ∈ s.served →
    inode < s.inodes ∧ s.content inode = bytes ∧ ¬ s.Writing inode

attribute [local simp] step Settled

theorem intact_initial : initial.Intact where
  dir _ _ h := by cases h
  writing inode h := by
    obtain ⟨id, job, index, hjob, -⟩ := h
    cases hjob
  served _ _ h := by cases h

variable {s : Host} {cacheDir : Text}

theorem find_eq_some {path : Text} {inode : Nat} (h : s.find path = some inode) :
    s.dir path = some inode := (Option.filter_eq_some_iff.mp h).1

theorem writing_of_setStatus {id inode : Nat} {job : HlsJob} {status : Status}
    (h : (s.setStatus id job status).Writing inode) :
    s.Writing inode ∨ ∃ index, status = .running (some (index, inode)) := by
  obtain ⟨other, task, index, htask, hstatus⟩ := h
  by_cases he : other = id
  · subst he
    rw [setStatus] at htask
    dsimp only at htask
    rw [Function.update_self] at htask
    cases htask
    exact Or.inr ⟨index, hstatus⟩
  · rw [setStatus] at htask
    dsimp only at htask
    rw [Function.update_of_ne he] at htask
    exact Or.inl ⟨other, task, index, htask, hstatus⟩

namespace Intact

theorem become (h : s.Intact) (waiter : Nat) (state : Waiter) : (s.become waiter state).Intact :=
  ⟨h.dir, h.writing, h.served⟩

/-- A file that no process has open is let through. -/
theorem serve (h : s.Intact) {path : Text} {inode : Nat} (hdir : s.dir path = some inode)
    (hwriting : ¬ s.Writing inode) : (s.serve inode).Intact where
  dir := h.dir
  writing := h.writing
  served other bytes hserved := by
    rcases List.mem_cons.mp hserved with heq | hold
    · cases heq
      exact ⟨h.dir path inode hdir, rfl, hwriting⟩
    · exact h.served other bytes hold

theorem place (h : s.Intact) (path : Text) (bytes : List UInt8) : (s.place path bytes).Intact where
  dir other inode hdir := by
    dsimp only [Host.place] at hdir
    by_cases hp : other = path
    · subst hp
      rw [Function.update_self] at hdir
      cases hdir
      exact Nat.lt_succ_self _
    · rw [Function.update_of_ne hp] at hdir
      exact Nat.lt_succ_of_lt (h.dir other inode hdir)
  writing inode hwriting := Nat.lt_succ_of_lt (h.writing inode hwriting)
  served inode held hserved := by
    obtain ⟨hlt, hcontent, hwriting⟩ := h.served inode held hserved
    have hkept : Function.update s.content s.inodes bytes inode = s.content inode :=
      Function.update_of_ne (Nat.ne_of_lt hlt) ..
    exact ⟨Nat.lt_succ_of_lt hlt, hkept.trans hcontent, hwriting⟩

/-- A new file of a rendering is complete when it gets its name. -/
theorem rendered (h : s.Intact) (path : Text) (bytes : List UInt8) :
    ((s.place path bytes).serve s.inodes).Intact := by
  have hdir : (s.place path bytes).dir path = some s.inodes := Function.update_self ..
  refine (h.place path bytes).serve hdir fun hwriting => ?_
  exact Nat.lt_irrefl _ (h.writing s.inodes hwriting)

theorem exit (h : s.Intact) (id : Nat) (job : HlsJob) (code : Int) :
    (s.setStatus id job (.exited code)).Intact := by
  have hwriting {inode : Nat} (hw : (s.setStatus id job (.exited code)).Writing inode) : s.Writing inode := by
    rcases writing_of_setStatus hw with hold | ⟨index, hstatus⟩
    · exact hold
    · cases hstatus
  refine ⟨h.dir, fun inode hw => h.writing inode (hwriting hw), fun inode bytes hserved => ?_⟩
  obtain ⟨hlt, hcontent, hfree⟩ := h.served inode bytes hserved
  exact ⟨hlt, hcontent, fun hw => hfree (hwriting hw)⟩

/-- A transcode opens a file that is new, or that was not let through. -/
theorem openSegment (h : s.Intact) {id : Nat} {job : HlsJob} {index : Nat}
    (hfree : ∀ inode, s.dir (segmentPath job index) = some inode → ∀ bytes, (inode, bytes) ∉ s.served) :
    (s.openSegment id job index).Intact := by
  unfold Host.openSegment
  cases hdir : s.dir (segmentPath job index) with
  | some inode =>
    refine ⟨h.dir, fun other hw => ?_, fun other bytes hserved => ?_⟩
    · rcases writing_of_setStatus hw with hold | ⟨index', hstatus⟩
      · exact h.writing other hold
      · cases hstatus
        exact h.dir _ inode hdir
    · obtain ⟨hlt, hcontent, hwriting⟩ := h.served other bytes hserved
      have hne : other ≠ inode := fun he => hfree inode hdir bytes (he ▸ hserved)
      have hkept : Function.update s.content inode [] other = s.content other :=
        Function.update_of_ne hne ..
      refine ⟨hlt, hkept.trans hcontent, fun hw => ?_⟩
      rcases writing_of_setStatus hw with hold | ⟨index', hstatus⟩
      · exact hwriting hold
      · cases hstatus
        exact hne rfl
  | none =>
    have hplace := h.place (segmentPath job index) []
    refine ⟨hplace.dir, fun other hw => ?_, fun other bytes hserved => ?_⟩
    · rcases writing_of_setStatus hw with hold | ⟨index', hstatus⟩
      · exact hplace.writing other hold
      · cases hstatus
        exact Nat.lt_succ_self _
    · obtain ⟨hlt, hcontent, hwriting⟩ := hplace.served other bytes hserved
      refine ⟨hlt, hcontent, fun hw => ?_⟩
      rcases writing_of_setStatus hw with hold | ⟨index', hstatus⟩
      · exact hwriting hold
      · cases hstatus
        exact Nat.lt_irrefl _ (h.served s.inodes bytes hserved).1

/-- A process writes to its current segment only. -/
theorem write (h : s.Intact) {inode : Nat} (hwriting : s.Writing inode) (bytes : List UInt8) :
    Host.Intact { s with content := Function.update s.content inode (s.content inode ++ bytes) } := by
  refine ⟨h.dir, h.writing, fun other held hserved => ?_⟩
  obtain ⟨hlt, hcontent, hfree⟩ := h.served other held hserved
  have hne : other ≠ inode := fun he => hfree (he ▸ hwriting)
  have hkept : Function.update s.content inode (s.content inode ++ bytes) other = s.content other :=
    Function.update_of_ne hne ..
  exact ⟨hlt, hkept.trans hcontent, hfree⟩

theorem start (h : s.Intact) {id : Nat} (hid : s.jobs id = none) (job : HlsJob)
    (hstatus : job.status = .running none) {dir : Text → Option Nat}
    (hdir : ∀ path inode, dir path = some inode → s.dir path = some inode) :
    Host.Intact { s with dir := dir, jobs := Function.update s.jobs id (some job) } := by
  have hwriting {inode : Nat}
      (hw : Host.Writing { s with dir := dir, jobs := Function.update s.jobs id (some job) } inode) :
      s.Writing inode := by
    obtain ⟨other, task, index, htask, htaskStatus⟩ := hw
    dsimp only at htask
    by_cases he : other = id
    · subst he
      rw [Function.update_self] at htask
      cases htask
      rw [hstatus] at htaskStatus
      cases htaskStatus
    · rw [Function.update_of_ne he] at htask
      exact ⟨other, task, index, htask, htaskStatus⟩
  refine ⟨fun path inode hpath => h.dir path inode (hdir path inode hpath),
    fun inode hw => h.writing inode (hwriting hw), fun inode bytes hserved => ?_⟩
  obtain ⟨hlt, hcontent, hfree⟩ := h.served inode bytes hserved
  exact ⟨hlt, hcontent, fun hw => hfree (hwriting hw)⟩

theorem step (h : s.Intact) {event : Event} (hsettled : s.Settled event) :
    (s.step cacheDir event).Intact := by
  cases event with
  | start id source audio mode fallback removes =>
    rw [Host.step]
    split
    · next hid =>
      refine h.start hid _ rfl fun path inode hpath => ?_
      split at hpath
      · cases hpath
      · exact hpath
    · exact h
  | next id =>
    rw [Host.step]
    split
    · next job hjob =>
      split
      · next current hstatus =>
        exact h.openSegment fun inode hdir => hsettled job current inode hjob hstatus hdir
      · exact h
    · exact h
  | write id bytes =>
    rw [Host.step]
    split
    · next job hjob =>
      split
      · next index inode hstatus => exact h.write ⟨id, job, index, hjob, hstatus⟩ bytes
      · exact h
    · exact h
  | exit id code =>
    rw [Host.step]
    split
    · split
      · exact h.exit id _ code
      · exact h
    · exact h
  | request waiter job segmentIndex => exact h.become waiter _
  | poll waiter =>
    rw [Host.step]
    split
    · next id segmentIndex hwaiter =>
      split
      · next job hjob =>
        split
        · next inode hfind =>
          have hserve := h.serve (find_eq_some hfind)
            (hsettled id segmentIndex job inode hwaiter hjob hfind)
          exact hserve.become waiter _
        · exact h.become waiter _
      · exact h
    · exact h
  | refresh waiter fallback =>
    rw [Host.step]
    split
    · split
      · split
        · exact h.become waiter _
        · split
          · exact h.become waiter _
          · split
            · split <;> exact h.become waiter _
            · exact h.become waiter _
      · exact h
    · exact h
  | timeout waiter =>
    rw [Host.step]
    split
    · split
      · exact h.become waiter _
      · exact h
    · exact h
  | check waiter =>
    rw [Host.step]
    split
    · next path hwaiter =>
      split
      · next inode hfind =>
        exact (h.serve (find_eq_some hfind) (hsettled path inode hwaiter hfind)).become waiter _
      · exact h.become waiter _
    · exact h
  | rendered waiter bytes =>
    rw [Host.step]
    split
    · next path hwaiter =>
      split
      · exact h.become waiter _
      · exact (h.rendered path bytes).become waiter _
    · exact h
  | renderFails waiter =>
    rw [Host.step]
    split
    · exact h.become waiter _
    · exact h
  | opens waiter =>
    rw [Host.step]
    split
    · next path hwaiter =>
      split
      · next inode hdir => exact (h.serve hdir (hsettled path inode hwaiter hdir)).become waiter _
      · exact h.become waiter _
    · exact h
  | prune path =>
    refine ⟨fun other inode hdir => ?_, h.writing, h.served⟩
    dsimp only [Host.step] at hdir
    by_cases hp : other = path
    · subst hp
      rw [Function.update_self] at hdir
      cases hdir
    · rw [Function.update_of_ne hp] at hdir
      exact h.dir other inode hdir

end Intact

end Host

end StreamArena.Streaming.SegmentWait
