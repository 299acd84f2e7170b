import StreamArena.Library.Runs
import StreamArena.LocalTorrent.ActiveStreams

/-! What the timers and sweeps of a service do to its torrents: no stream is cut off, and
an idle torrent may be stopped, over every run of the service. -/
namespace StreamArena.LocalTorrent
open AsciiText Runs

/-- The steps by which timers and sweeps pause or delete. -/
def Event.stops : Event → Bool
  | .pauseIdle _ | .pauseSwept _ | .deleteSwept _ => true
  | _ => false

/-- A timer or sweep that takes a step while a body is alive leaves the handle as it is. -/
def Uninterrupted (t : Torrent) (event : Event) : Prop :=
  event.stops = true → (∃ i, (t.tasks i).streams = true) →
    (t.step event).handle = t.handle ∧ (t.step event).paused = t.paused

/-- With every body out, the next sweep sees no stream, and there is a timer of the last
body that finds its own generation, for as long as it has not ended. -/
def MayStop (t : Torrent) : Prop :=
  (∀ i, (t.tasks i).busy = false) →
    t.hasActiveStream = false ∧ (t.dropped = true → t.newest.isSome = true) ∧
      ∀ i state handle generation phase, t.newest = some i →
        t.tasks i = .timer state handle generation phase →
          t.isCurrentIdleStreamState state generation = true

/-- A body begins to count itself out only while no other is between the two halves of
doing so. -/
def ReleasesApart (t : Torrent) : Event → Prop
  | .releaseGeneration _ => ∀ i state handle generation, t.tasks i ≠ .dropping state handle generation
  | _ => True

namespace Torrent
variable {t : Torrent} {i : Nat}

theorem Sound.not_streams (h : t.Sound) (hstopping : (t.tasks i).stopping = true) (j : Nat) :
    ¬ (t.tasks j).streams = true := by
  intro hj
  have hcounts : (t.tasks j).counts = true := by
    revert hj
    cases t.tasks j <;> simp [Task.streams, Task.counts]
  exact h.not_stopping hcounts i hstopping

theorem Sound.uninterrupted (h : t.Sound) (event : Event) : Uninterrupted t event := by
  rintro hstops ⟨j, hj⟩
  cases event with
  | pauseIdle i =>
    rw [Torrent.step]
    split
    · next htask => exact absurd hj (h.not_streams (i := i) (by rw [htask]; rfl) j)
    · exact ⟨rfl, rfl⟩
  | pauseSwept i =>
    rw [Torrent.step]
    split
    · next htask => exact absurd hj (h.not_streams (i := i) (by rw [htask]; rfl) j)
    · exact ⟨rfl, rfl⟩
  | deleteSwept i =>
    rw [Torrent.step]
    split
    · next htask => exact absurd hj (h.not_streams (i := i) (by rw [htask]; rfl) j)
    · exact ⟨rfl, rfl⟩
  | _ => cases hstops

end Torrent

namespace Task

/-- The state and the generation a timer has captured. -/
def captured : Task → Option (Nat × Nat)
  | timer state _ generation _ => some (state, generation)
  | _ => none

/-- The state and the generation of a body that is counting itself out. -/
def leaves : Task → Option (Nat × Nat)
  | dropping state _ generation => some (state, generation)
  | _ => none

/-- Streams, or is about to. -/
def enters (task : Task) : Bool := task.streams || task.registers

theorem busy_eq (task : Task) : task.busy = (task.enters || task.leaves.isSome) := by
  cases task <;> rfl

theorem enters_of_busy {task : Task} (h : task.busy = true) (hleaves : task.leaves = none) :
    task.enters = true := by
  rw [busy_eq, hleaves] at h
  simpa using h

end Task

namespace Torrent

/-- Where releases do not overlap, whoever counts itself out has the last generation, or
someone else goes on. -/
structure Timely (t : Torrent) : Prop where
  newest : ∀ i state generation, t.newest = some i → (t.tasks i).captured = some (state, generation) →
    (t.states state).generation = generation ∨ ∃ j, (t.tasks j).busy = true
  leaving : ∀ i state generation, (t.tasks i).leaves = some (state, generation) →
    (t.states state).generation = generation ∨ ∃ j, j ≠ i ∧ (t.tasks j).enters = true
  single : ∀ i j, (t.tasks i).leaves.isSome = true → (t.tasks j).leaves.isSome = true → i = j
  spawned : t.dropped = true → t.newest.isSome = true ∨ ∃ j, (t.tasks j).busy = true

theorem timely_initial : initial.Timely where
  newest _ _ _ h := by cases h
  leaving _ _ _ h := by cases h
  single _ _ h := by cases h
  spawned h := by cases h

theorem Sound.mayStop {t : Torrent} (h : t.Sound) (htimely : t.Timely) : MayStop t := by
  intro hidle
  have hcounts (i : Nat) : ¬ (t.tasks i).counts = true := by
    have hi := hidle i
    rw [Task.busy, Bool.or_eq_false_iff] at hi
    simp [hi.1]
  have hzero (state : Nat) (hstate : t.activeStreams = some state) : (t.states state).count = 0 :=
    (h.count state hstate).eq_zero hcounts
  have hnone : ¬ ∃ j, (t.tasks j).busy = true := by
    rintro ⟨j, hj⟩
    rw [hidle j] at hj
    cases hj
  refine ⟨?_, fun hdropped => ?_, fun i state handle generation phase hnewest htask => ?_⟩
  · cases hentry : t.activeStreams with
    | none => simp [hasActiveStream, hentry]
    | some state => simp [hasActiveStream, hentry, hzero state hentry]
  · exact (htimely.spawned hdropped).resolve_right hnone
  · have hentry : t.activeStreams = some state := h.entry i state (by rw [htask]; rfl)
    have hgeneration := (htimely.newest i state generation hnewest (by rw [htask]; rfl)).resolve_right hnone
    simp [isCurrentIdleStreamState, hentry, hzero state hentry, hgeneration]

variable {t t' : Torrent} {i : Nat} {task : Task}

/-- Timeliness is about the tasks, the generations and the last timer. -/
theorem Timely.congr (h : t.Timely) (hnewest : t'.newest = t.newest) (hdropped : t'.dropped = t.dropped)
    (hgeneration : ∀ state, (t'.states state).generation = (t.states state).generation)
    (hcaptured : ∀ j, (t'.tasks j).captured = (t.tasks j).captured ∨ (t'.tasks j).captured = none)
    (hleaves : ∀ j, (t'.tasks j).leaves = (t.tasks j).leaves)
    (henters : ∀ j, (t'.tasks j).enters = (t.tasks j).enters) : t'.Timely := by
  have hbusy (j : Nat) : (t'.tasks j).busy = (t.tasks j).busy := by
    rw [Task.busy_eq, Task.busy_eq, hleaves, henters]
  refine ⟨fun j state generation hj hcap => ?_, fun j state generation hj => ?_, fun j k hj hk => ?_,
    fun hd => ?_⟩
  · have hold : (t.tasks j).captured = some (state, generation) := by
      cases hcaptured j with
      | inl hsame => rw [← hsame, hcap]
      | inr hnone => rw [hnone] at hcap; cases hcap
    simpa only [hgeneration, hbusy] using h.newest j state generation (hnewest ▸ hj) hold
  · simpa only [hgeneration, henters] using h.leaving j state generation (hleaves j ▸ hj)
  · exact h.single j k (hleaves j ▸ hj) (hleaves k ▸ hk)
  · simpa only [hnewest, hbusy] using h.spawned (hdropped ▸ hd)

/-- A task that neither enters nor leaves goes on. -/
theorem Timely.become (h : t.Timely)
    (hcaptured : task.captured = (t.tasks i).captured ∨ task.captured = none)
    (hleaves : task.leaves = (t.tasks i).leaves) (henters : task.enters = (t.tasks i).enters) :
    (t.become i task).Timely := by
  refine h.congr rfl rfl (fun _ => rfl) (fun j => ?_) (fun j => ?_) fun j => ?_
  all_goals rw [tasks_become]
  · split
    · next hj => rwa [hj]
    · exact Or.inl rfl
  · split
    · next hj => rwa [hj]
    · rfl
  · split
    · next hj => rwa [hj]
    · rfl

theorem Timely.with (h : t.Timely) (htasks : t'.tasks = t.tasks) (hstates : t'.states = t.states)
    (hnewest : t'.newest = t.newest) (hdropped : t'.dropped = t.dropped) : t'.Timely :=
  h.congr hnewest hdropped (fun _ => by rw [hstates]) (fun _ => Or.inl (by rw [htasks]))
    (fun _ => by rw [htasks]) fun _ => by rw [htasks]

/-- Whoever begins to register goes on. -/
theorem Timely.registerGeneration (h : t.Timely) (handle : Nat) (hrequest : t.tasks i = .request) :
    (t.registerGeneration i handle).Timely := by
  have htasks (j : Nat) : (t.registerGeneration i handle).tasks j =
      if j = i then .registering (t.activeStreams.getD t.fresh) handle else t.tasks j :=
    tasks_setState_become ..
  have hself : ((t.registerGeneration i handle).tasks i).enters = true := by
    rw [htasks, if_pos rfl]
    rfl
  have hbusy : ∃ j, ((t.registerGeneration i handle).tasks j).busy = true :=
    ⟨i, by rw [Task.busy_eq, hself, Bool.true_or]⟩
  have hleaves (j : Nat) : ((t.registerGeneration i handle).tasks j).leaves = (t.tasks j).leaves := by
    rw [htasks]
    split
    · next hj => rw [hj, hrequest]; rfl
    · rfl
  refine ⟨fun _ _ _ _ _ => Or.inr hbusy, fun j state generation hj => Or.inr ⟨i, ?_, hself⟩,
    fun j k hj hk => h.single j k (hleaves j ▸ hj) (hleaves k ▸ hk), fun _ => Or.inr hbusy⟩
  rintro rfl
  rw [hleaves, hrequest] at hj
  cases hj

theorem Timely.registerCount (h : t.Timely) {state handle : Nat}
    (htask : t.tasks i = .registering state handle) : (t.registerCount i state handle).Timely := by
  have htasks (j : Nat) : (t.registerCount i state handle).tasks j =
      if j = i then .body state handle else t.tasks j := tasks_setState_become ..
  refine h.congr rfl rfl (fun state' => ?_) (fun j => ?_) (fun j => ?_) fun j => ?_
  · simp only [Torrent.registerCount, Torrent.become, setState, Function.update_apply]
    split
    · next hs => rw [hs]
    · rfl
  all_goals rw [htasks]
  · split
    · exact Or.inr rfl
    · exact Or.inl rfl
  · split
    · next hj => rw [hj, htask]; rfl
    · rfl
  · split
    · next hj => rw [hj, htask]; rfl
    · rfl

theorem timely_releaseGeneration {state handle : Nat}
    (htask : t.tasks i = .body state handle)
    (hapart : ∀ j state handle generation, t.tasks j ≠ .dropping state handle generation) :
    (t.releaseGeneration i state handle).Timely := by
  have htasks (j : Nat) : (t.releaseGeneration i state handle).tasks j =
      if j = i then .dropping state handle ((t.states state).generation + 1) else t.tasks j :=
    tasks_setState_become ..
  have hgeneration : ((t.releaseGeneration i state handle).states state).generation =
      (t.states state).generation + 1 := by
    simp [Torrent.releaseGeneration, Torrent.become, setState]
  have hbusy : ∃ j, ((t.releaseGeneration i state handle).tasks j).busy = true :=
    ⟨i, by rw [htasks, if_pos rfl]; rfl⟩
  have hnone (j : Nat) : (t.tasks j).leaves = none := by
    cases hj : t.tasks j with
    | dropping state' handle' generation' => exact absurd hj (hapart j state' handle' generation')
    | _ => rfl
  have honly (j : Nat) (hj : ((t.releaseGeneration i state handle).tasks j).leaves.isSome = true) : j = i := by
    by_contra hji
    rw [htasks, if_neg hji, hnone] at hj
    cases hj
  refine ⟨fun _ _ _ _ _ => Or.inr hbusy, fun j state' generation hj => Or.inl ?_,
    fun j k hj hk => (honly j hj).trans (honly k hk).symm, fun _ => Or.inr hbusy⟩
  obtain rfl := honly j (by rw [hj]; rfl)
  rw [htasks, if_pos rfl] at hj
  obtain ⟨rfl, rfl⟩ := Prod.mk.inj (Option.some.inj hj)
  exact hgeneration

/-- The last body out leaves a timer of the last generation. -/
theorem Sound.timely_releaseCount (hsound : t.Sound) (h : t.Timely)
    {timer state handle generation : Nat} (htask : t.tasks i = .dropping state handle generation)
    (htimer : t.tasks timer = .absent) : (t.releaseCount i timer state handle generation).Timely := by
  have hentry : t.activeStreams = some state := hsound.entry i state (by rw [htask]; rfl)
  have hcounts : (t.tasks i).counts = true := by rw [htask]; rfl
  have hleaves : (t.tasks i).leaves = some (state, generation) := by rw [htask]; rfl
  have hgeneration : ((t.releaseCount i timer state handle generation).states state).generation =
      (t.states state).generation := by
    unfold Torrent.releaseCount
    dsimp only
    split <;> simp [Torrent.become, Torrent.setState]
  have hother {j : Nat} (hj : j ≠ i) (hbusy : (t.tasks j).busy = true) :
      (t.releaseCount i timer state handle generation).tasks j = t.tasks j := by
    have hjt : j ≠ timer := by
      rintro rfl
      rw [htimer] at hbusy
      cases hbusy
    simp [tasks_releaseCount, hj, hjt]
  have hnone (j : Nat) : ((t.releaseCount i timer state handle generation).tasks j).leaves = none := by
    rw [tasks_releaseCount]
    split
    · rfl
    · split
      · rfl
      · next hji =>
        cases hj : (t.tasks j).leaves with
        | none => rfl
        | some _ => exact absurd (h.single j i (by rw [hj]; rfl) (by rw [hleaves]; rfl)) hji
  have hgoesOn (hmore : (t.states state).count ≠ 1) :
      ∃ j, ((t.releaseCount i timer state handle generation).tasks j).busy = true := by
    have htally := hsound.count state hentry
    have hpos := htally.pos hcounts
    obtain ⟨j, hji, hj⟩ := htally.exists_ne (by omega) i
    have hbusy : (t.tasks j).busy = true := by rw [Task.busy, hj, Bool.true_or]
    exact ⟨j, by rw [hother hji hbusy, hbusy]⟩
  refine ⟨fun j state' generation' hnewest hcaptured => ?_, fun j _ _ hj => ?_, fun j _ hj => ?_,
    fun _ => ?_⟩
  · by_cases hone : (t.states state).count = 1
    · have hnew : (t.releaseCount i timer state handle generation).newest = some timer := by
        simp [Torrent.releaseCount, hone]
      obtain rfl := Option.some.inj (hnew.symm.trans hnewest)
      rw [tasks_releaseCount, if_pos ⟨hone, rfl⟩] at hcaptured
      obtain ⟨rfl, rfl⟩ := Prod.mk.inj (Option.some.inj hcaptured)
      rw [hgeneration]
      refine (h.leaving i state generation hleaves).imp_right ?_
      rintro ⟨k, hki, hk⟩
      have hbusy : (t.tasks k).busy = true := by rw [Task.busy_eq, hk, Bool.true_or]
      exact ⟨k, by rw [hother hki hbusy, hbusy]⟩
    · exact Or.inr (hgoesOn hone)
  · rw [hnone] at hj
    cases hj
  · rw [hnone] at hj
    cases hj
  · by_cases hone : (t.states state).count = 1
    · exact Or.inl (by simp [Torrent.releaseCount, hone])
    · exact Or.inr (hgoesOn hone)

theorem Timely.release (h : t.Timely) (i : Nat) : (t.release i).Timely := by
  unfold Torrent.release
  split
  · next htask =>
    have hdone : (t.become i .done).Timely := h.become (Or.inr rfl) (by rw [htask]; rfl) (by rw [htask]; rfl)
    exact hdone.with rfl rfl rfl rfl
  · next htask =>
    have hdone : (t.become i .done).Timely := h.become (Or.inr rfl) (by rw [htask]; rfl) (by rw [htask]; rfl)
    exact hdone.with rfl rfl rfl rfl
  · exact h.with rfl rfl rfl rfl
  · next state _ _ htask =>
    have hset : (t.setState state { t.states state with
        strong := (t.states state).strong - 1 }).Timely := by
      refine h.congr rfl rfl (fun state' => ?_) (fun _ => Or.inl rfl) (fun _ => rfl) fun _ => rfl
      simp only [setState, Function.update_apply]
      split
      · next hs => rw [hs]
      · rfl
    have hself : (t.setState state { t.states state with
        strong := (t.states state).strong - 1 }).tasks i = t.tasks i := rfl
    have hdone : ((t.setState state { t.states state with
        strong := (t.states state).strong - 1 }).become i .done).Timely :=
      hset.become (Or.inr rfl) (by rw [hself, htask]; rfl) (by rw [hself, htask]; rfl)
    exact hdone.with rfl rfl rfl rfl
  · exact h

/-- A task that looks for streams neither enters nor leaves. -/
theorem Timely.look (h : t.Timely) {inactive finished : Task}
    (hboth : ∀ task ∈ [inactive, finished], task.captured = none ∧
      task.leaves = (t.tasks i).leaves ∧ task.enters = (t.tasks i).enters) :
    (t.look i inactive finished).Timely := by
  unfold Torrent.look
  split
  · obtain ⟨hcaptured, hleaves, henters⟩ := hboth finished (by simp)
    exact h.become (Or.inr hcaptured) hleaves henters
  · obtain ⟨hcaptured, hleaves, henters⟩ := hboth inactive (by simp)
    exact h.become (Or.inr hcaptured) hleaves henters

theorem Timely.step (hsound : t.Sound) (h : t.Timely) {event : Event} (hapart : ReleasesApart t event) :
    (t.step event).Timely := by
  cases event with
  | request i =>
    rw [Torrent.step]
    split
    · next htask => exact h.become (Or.inr rfl) (by rw [htask]; rfl) (by rw [htask]; rfl)
    · exact h
  | sweep i =>
    rw [Torrent.step]
    split
    · next htask => exact h.become (Or.inr rfl) (by rw [htask]; rfl) (by rw [htask]; rfl)
    · exact h
  | refer i =>
    rw [Torrent.step]
    split
    · exact h.with rfl rfl rfl rfl
    · exact h
  | acquire i =>
    rw [Torrent.step]
    split
    · exact h.with rfl rfl rfl rfl
    · exact h
  | release i => exact h.release i
  | pruneLocks => exact h.with rfl rfl rfl rfl
  | registerGeneration i handle =>
    rw [Torrent.step]
    split
    · next hi => exact h.registerGeneration handle hi.1
    · exact h
  | registerCount i =>
    rw [Torrent.step]
    split
    · next htask => exact h.registerCount htask
    · exact h
  | releaseGeneration i =>
    rw [Torrent.step]
    split
    · next htask =>
      split
      · exact timely_releaseGeneration htask hapart
      · exact h
    · exact h
  | releaseCount i timer =>
    rw [Torrent.step]
    split
    · next htask =>
      split
      · next htimer => exact hsound.timely_releaseCount h htask htimer
      · exact h
    · exact h
  | loadCount i =>
    rw [Torrent.step]
    split
    · next htask =>
      split
      · exact h.become (Or.inl (by rw [htask]; rfl)) (by rw [htask]; rfl) (by rw [htask]; rfl)
      · exact h
    · exact h
  | loadGeneration i =>
    rw [Torrent.step]
    split
    · next htask =>
      exact h.become (Or.inl (by rw [htask]; rfl)) (by rw [htask]; rfl) (by rw [htask]; rfl)
    · exact h
  | pauseIdle i =>
    rw [Torrent.step]
    split
    · next state handle generation htask =>
      have hfinished : (t.become i (.timer state handle generation .finished)).Timely :=
        h.become (Or.inl (by rw [htask]; rfl)) (by rw [htask]; rfl) (by rw [htask]; rfl)
      exact hfinished.with rfl rfl rfl rfl
    · exact h
  | checkActive i =>
    rw [Torrent.step]
    split
    · next hi => exact h.look (by rw [hi.1]; simp [Task.captured, Task.leaves, Task.enters, Task.streams, Task.registers])
    · exact h
  | pauseSwept i =>
    rw [Torrent.step]
    split
    · next htask =>
      have hpaused : (t.become i (.sweep .paused)).Timely :=
        h.become (Or.inr rfl) (by rw [htask]; rfl) (by rw [htask]; rfl)
      exact hpaused.with rfl rfl rfl rfl
    · exact h
  | checkActiveAgain i =>
    rw [Torrent.step]
    split
    · next htask => exact h.look (by rw [htask]; simp [Task.captured, Task.leaves, Task.enters, Task.streams, Task.registers])
    · exact h
  | deleteSwept i =>
    rw [Torrent.step]
    split
    · next htask =>
      have hfinished : (t.become i (.sweep .finished)).Timely :=
        h.become (Or.inr rfl) (by rw [htask]; rfl) (by rw [htask]; rfl)
      exact hfinished.with rfl rfl rfl rfl
    · exact h
  | pruneStates =>
    rw [Torrent.step]
    split
    · exact h
    · split
      · exact h
      · exact h.with rfl rfl rfl rfl
  | manage handle paused => exact h.with rfl rfl rfl rfl

end Torrent

namespace LocalTorrentService

def initial : LocalTorrentService := fun _ => .initial

/-- What every step of a torrent keeps, every step of the service keeps of all torrents. -/
theorem step_all {P : Torrent → Prop} {service : LocalTorrentService} (event : Text × Event)
    (hstep : P ((service event.1).step event.2)) (h : ∀ hash, P (service hash)) (hash : Text) :
    P (service.step event hash) := by
  by_cases hhash : hash = event.1
  · rw [hhash, LocalTorrentService.step, Function.update_self]
    exact hstep
  · rw [LocalTorrentService.step, Function.update_of_ne hhash]
    exact h hash

theorem each_uninterrupted {service : LocalTorrentService} (h : ∀ hash, (service hash).Sound)
    (events : List (Text × Event)) :
    Each step (fun service event => Uninterrupted (service event.1) event.2) service events := by
  induction events generalizing service with
  | nil => trivial
  | cons event events ih =>
    exact ⟨(h event.1).uninterrupted event.2, ih (step_all event ((h event.1).step event.2) h)⟩

end LocalTorrentService

open LocalTorrentService in
/-- In every run of the service no timer and no sweep pauses or deletes a torrent one of
whose bodies is alive; and while the releases of a torrent do not overlap, an idle torrent
may be stopped by the next sweep and by the timer of its last body. -/
theorem streams_kept_and_idle_stopped (events : List (Text × Event)) :
    Each step (fun service event => Uninterrupted (service event.1) event.2) initial events ∧
      (Each step (fun service event => ReleasesApart (service event.1) event.2) initial events →
        Throughout step (fun service => ∀ hash, MayStop (service hash)) initial events) := by
  refine ⟨each_uninterrupted (fun _ => Torrent.sound_initial) events, fun heach => ?_⟩
  have hrun : Throughout step
      (fun service => ∀ hash, (service hash).Sound ∧ (service hash).Timely) initial events := by
    refine throughout_of_each (fun service event hapart h => ?_)
      (fun _ => ⟨Torrent.sound_initial, Torrent.timely_initial⟩) heach
    refine step_all (P := fun t => t.Sound ∧ t.Timely) event ⟨(h event.1).1.step event.2, ?_⟩ h
    exact Torrent.Timely.step (h event.1).1 (h event.1).2 hapart
  exact hrun.imp fun service h hash => (h hash).1.mayStop (h hash).2

/-- Steps of one torrent are a run of the service. -/
theorem LocalTorrentService.foldl_step (hash : Text) (events : List Event) (service : LocalTorrentService) :
    (events.map (Prod.mk hash)).foldl LocalTorrentService.step service hash =
      events.foldl Torrent.step (service hash) := by
  induction events generalizing service with
  | nil => rfl
  | cons event events ih =>
    rw [List.map_cons, List.foldl_cons, List.foldl_cons, ih, LocalTorrentService.step,
      Function.update_self]

/-- Two bodies of one torrent, and the first halves of their releases before the second. -/
def overlappingReleases : List Event :=
  [.request 0, .refer 0, .acquire 0, .registerGeneration 0 7, .registerCount 0, .release 0,
    .request 1, .refer 1, .acquire 1, .registerGeneration 1 7, .registerCount 1, .release 1,
    .releaseGeneration 0, .releaseGeneration 1, .releaseCount 1 2, .releaseCount 0 3]

/-- The body that takes the count to zero has captured an older generation than the last,
so that its timer stops nothing. -/
theorem idle_torrent_not_stopped :
    ¬ Throughout LocalTorrentService.step (fun service => ∀ hash, MayStop (service hash))
      LocalTorrentService.initial (overlappingReleases.map (Prod.mk (List.replicate 40 '0'))) := by
  intro h
  have hlast := h.last (List.replicate 40 '0')
  rw [LocalTorrentService.foldl_step] at hlast
  have hidle : ∀ i, ((overlappingReleases.foldl Torrent.step Torrent.initial).tasks i).busy = false
    | 0 => by decide
    | 1 => by decide
    | 2 => by decide
    | 3 => by decide
    | n + 4 => by rfl
  obtain ⟨-, -, htimer⟩ := hlast hidle
  exact absurd (htimer 3 0 7 3 .sleeping (by decide) (by decide)) (by decide)

/-- A request that becomes a body. -/
def oneBody : List Event :=
  [.request 0, .refer 0, .acquire 0, .registerGeneration 0 7, .registerCount 0, .release 0]

/-- One body in and out. -/
theorem streams_kept_and_idle_stopped_one :
    Throughout LocalTorrentService.step (fun service => ∀ hash, MayStop (service hash))
      LocalTorrentService.initial
      ((oneBody ++ [Event.releaseGeneration 0, Event.releaseCount 0 1]).map (Prod.mk (List.replicate 40 '0'))) := by
  refine (streams_kept_and_idle_stopped _).2
    ⟨trivial, trivial, trivial, trivial, trivial, trivial, fun i state handle generation htask => ?_,
      trivial, trivial⟩
  have hleaves : ∀ i, ((oneBody.foldl Torrent.step Torrent.initial).tasks i).leaves = none
    | 0 => by rfl
    | n + 1 => by rfl
  change ((oneBody.map (Prod.mk (List.replicate 40 '0'))).foldl LocalTorrentService.step
    LocalTorrentService.initial (List.replicate 40 '0')).tasks i = _ at htask
  rw [LocalTorrentService.foldl_step] at htask
  have hnone := hleaves i
  rw [show LocalTorrentService.initial (List.replicate 40 '0') = Torrent.initial from rfl] at htask
  rw [htask] at hnone
  cases hnone

end StreamArena.LocalTorrent
