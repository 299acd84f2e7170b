import Mathlib.Data.List.Basic
import Mathlib.Data.List.Nodup
import Mathlib.Data.List.Perm.Basic
import Mathlib.Data.List.Range

/-! Attempts raced one behind the other: another one starts when one fails, and when those that run have been quiet for
a while. The first success decides the race. -/
namespace StaggeredRace
variable {α ε τ : Type*}

/-- The attempts that wait and those that run, each with its position, the failures so far, the attempts started, and when
the timer of this turn is due. -/
structure Race (α ε : Type*) where
  remaining : List (α × Nat)
  inFlight : List (α × Nat)
  errors : List (Nat × ε)
  started : List α
  wakeAt : Nat

/-- What a turn leaves: the race goes on, or it is decided. -/
inductive Poll (α ε τ : Type*)
  | pending (race : Race α ε)
  | ready (started : List α) (result : Except (List (Nat × ε)) (Nat × τ))

inductive Wake (ε τ : Type*)
  | completes (index : Nat) (result : Except ε τ)
  | elapses

/-- When a race began, and what its timers wait for: the first one, and all later ones. -/
structure Pace where
  begunAt : Nat
  grace : Nat
  stagger : Nat

def Race.launch (race : Race α ε) : Race α ε :=
  match race.remaining with
  | [] => race
  | next :: rest =>
    { race with remaining := rest, inFlight := race.inFlight ++ [next], started := race.started ++ [next.1] }

/-- The head of the loop: where nothing runs the next attempt starts, and then the timer is set. -/
def Race.turn (race : Race α ε) (wakeAt : Nat) : Poll α ε τ :=
  let launched := if race.inFlight.isEmpty then race.launch else race
  if launched.inFlight.isEmpty then .ready launched.started (.error launched.errors)
  else .pending { launched with wakeAt := wakeAt }

def begin (pace : Pace) (attempts : List α) : Poll α ε τ :=
  match attempts with
  | [] => .ready [] (.error [])
  | _ :: _ => (Race.launch ⟨attempts.zipIdx, [], [], [], pace.begunAt⟩).turn (pace.begunAt + pace.grace)

def Race.fail (race : Race α ε) (index : Nat) (error : ε) : Race α ε :=
  { race with
    inFlight := race.inFlight.filter fun entry => entry.2 != index
    errors := race.errors ++ [(index, error)] }

def Race.wake (pace : Pace) (now : Nat) (race : Race α ε) : Wake ε τ → Poll α ε τ
  | .completes index (.ok value) => .ready race.started (.ok (index, value))
  | .completes index (.error error) => (race.fail index error).launch.turn (now + pace.stagger)
  | .elapses => race.launch.turn (now + pace.stagger)

/-- What holds of a race of these attempts between its turns, apart from its timer: they start in their order, each of
them once, and one more after every failure and every time that a timer went off. -/
structure Race.Ordered (attempts : List α) (hedged : Nat) (race : Race α ε) : Prop where
  started : race.started = attempts.take race.started.length
  remaining : race.remaining = attempts.zipIdx.drop race.started.length
  running : ∀ entry ∈ race.inFlight, attempts[entry.2]? = some entry.1
  settled : (race.inFlight.map Prod.snd ++ race.errors.map Prod.fst).Perm (List.range race.started.length)
  prompt : race.started.length = min attempts.length (race.errors.length + hedged + 1)

/-- A race under way. -/
structure Race.Of (pace : Pace) (attempts : List α) (hedged now : Nat) (race : Race α ε) : Prop
    extends race.Ordered attempts hedged where
  live : race.inFlight ≠ []
  due : pace.begunAt + min pace.grace pace.stagger + hedged * pace.stagger ≤ race.wakeAt
  paced : hedged ≠ 0 → pace.begunAt + min pace.grace pace.stagger + hedged * pace.stagger ≤ now + pace.stagger
  begun : pace.begunAt ≤ now

/-- Of a race without a winner every attempt was started, and has failed. -/
structure Exhausted (attempts started : List α) (errors : List (Nat × ε)) : Prop where
  started : started = attempts
  failed : (errors.map Prod.fst).Perm (List.range attempts.length)

variable {pace : Pace} {attempts : List α} {hedged now later : Nat} {race : Race α ε} {index : Nat}

theorem Race.Ordered.length_started (h : race.Ordered attempts hedged) :
    race.started.length = race.inFlight.length + race.errors.length := by
  have hlength := h.settled.length_eq
  simpa using hlength.symm

theorem Race.Ordered.started_le (h : race.Ordered attempts hedged) : race.started.length ≤ attempts.length := by
  rw [h.prompt]
  exact Nat.min_le_left _ _

theorem Race.Ordered.nodup_running (h : race.Ordered attempts hedged) : (race.inFlight.map Prod.snd).Nodup :=
  (h.settled.nodup_iff.mpr List.nodup_range).of_append_left

theorem Race.Ordered.lt_of_running (h : race.Ordered attempts hedged) {entry : α × Nat} (hentry : entry ∈ race.inFlight) :
    entry.2 < race.started.length :=
  List.mem_range.mp (h.settled.subset (List.mem_append_left _ (List.mem_map_of_mem hentry)))

/-- Of the attempts started, those that have not failed run. -/
theorem Race.Ordered.running_of (h : race.Ordered attempts hedged) (hlt : index < race.started.length)
    (hnot : index ∉ race.errors.map Prod.fst) : ∃ attempt, (attempt, index) ∈ race.inFlight := by
  have hmem := h.settled.symm.subset (List.mem_range.mpr hlt)
  obtain hmem | hmem := List.mem_append.mp hmem
  · obtain ⟨entry, hentry, rfl⟩ := List.mem_map.mp hmem
    exact ⟨entry.1, hentry⟩
  · exact absurd hmem hnot

theorem Race.launch_of_remaining {next : α × Nat} {rest : List (α × Nat)} (h : race.remaining = next :: rest) :
    race.launch = { race with remaining := rest, inFlight := race.inFlight ++ [next], started := race.started ++ [next.1] } := by
  rw [Race.launch, h]

theorem Race.launch_of_none (h : race.remaining = []) : race.launch = race := by
  rw [Race.launch, h]

@[simp] theorem Race.errors_launch (race : Race α ε) : race.launch.errors = race.errors := by
  rw [Race.launch]
  split <;> rfl

/-- What launching needs of a race: everything but that as many were started as should be. -/
theorem Race.Ordered.launch {failed : Race α ε} (hstarted : failed.started = attempts.take failed.started.length)
    (hremaining : failed.remaining = attempts.zipIdx.drop failed.started.length)
    (hrunning : ∀ entry ∈ failed.inFlight, attempts[entry.2]? = some entry.1)
    (hsettled : (failed.inFlight.map Prod.snd ++ failed.errors.map Prod.fst).Perm (List.range failed.started.length))
    (hprompt : failed.started.length = min attempts.length (failed.errors.length + hedged)) :
    failed.launch.Ordered attempts hedged := by
  by_cases hlt : failed.started.length < attempts.length
  · have hnext : failed.remaining =
        (attempts[failed.started.length], failed.started.length) :: attempts.zipIdx.drop (failed.started.length + 1) := by
      rw [hremaining, List.drop_eq_getElem_cons (by simpa using hlt)]
      simp
    rw [Race.launch_of_remaining hnext]
    refine ⟨?_, ?_, fun entry hentry => ?_, ?_, ?_⟩
    · dsimp only
      rw [List.length_append, List.length_singleton, List.take_succ_eq_append_getElem hlt, ← hstarted]
    · dsimp only
      rw [List.length_append, List.length_singleton]
    · obtain hentry | hentry := List.mem_append.mp hentry
      · exact hrunning entry hentry
      · obtain rfl := List.mem_singleton.mp hentry
        exact List.getElem?_eq_getElem hlt
    · dsimp only
      rw [List.map_append, List.map_singleton, List.length_append, List.length_singleton, List.range_succ,
        List.append_assoc]
      refine (List.perm_append_comm.append_left _).trans ?_
      rw [← List.append_assoc]
      exact hsettled.append_right _
    · dsimp only
      rw [List.length_append, List.length_singleton]
      omega
  · have hnone : failed.remaining = [] := by
      rw [hremaining]
      exact List.drop_eq_nil_of_le (by simpa using Nat.le_of_not_lt hlt)
    rw [Race.launch_of_none hnone]
    exact ⟨hstarted, hremaining, hrunning, hsettled, by omega⟩

/-- A turn of a race in which an attempt runs sets the timer; one in which none runs, and none waits, is the last. -/
theorem Race.turn_of_running (h : race.inFlight ≠ []) (wakeAt : Nat) :
    race.turn wakeAt = (Poll.pending { race with wakeAt := wakeAt } : Poll α ε τ) := by
  have hfalse : race.inFlight.isEmpty = false := by simpa using h
  simp only [Race.turn, hfalse, Bool.false_eq_true, if_false]

theorem Race.turn_of_none (h : race.inFlight = []) (hremaining : race.remaining = []) (wakeAt : Nat) :
    race.turn wakeAt = (Poll.ready race.started (.error race.errors) : Poll α ε τ) := by
  simp only [Race.turn, h, List.isEmpty_nil, if_true, Race.launch_of_none hremaining]

theorem Race.Ordered.exhausted (h : race.Ordered attempts hedged) (hnone : race.inFlight = []) :
    Exhausted attempts race.started race.errors := by
  have hlength := h.length_started
  have hprompt := h.prompt
  rw [hnone, List.length_nil] at hlength
  have hall : race.started.length = attempts.length := by omega
  have hsettled := h.settled
  rw [hnone, List.map_nil, List.nil_append, hall] at hsettled
  exact ⟨by rw [h.started, hall, List.take_length], hsettled⟩

theorem Race.Ordered.remaining_nil (h : race.Ordered attempts hedged) (hnone : race.inFlight = []) :
    race.remaining = [] := by
  rw [h.remaining, (h.exhausted hnone).started]
  exact List.drop_eq_nil_of_le (by simp)

/-- A race begins with its first attempt, and one of no attempts is over. -/
theorem begin_nil : (begin pace [] : Poll α ε τ) = .ready [] (.error []) := rfl

theorem begin_of_ne_nil (h : attempts ≠ []) :
    ∃ race : Race α ε, (begin pace attempts : Poll α ε τ) = .pending race ∧ race.errors = [] ∧
      race.Of pace attempts 0 pace.begunAt := by
  obtain ⟨first, rest, rfl⟩ := List.exists_cons_of_ne_nil h
  have hordered : (Race.launch ⟨(first :: rest).zipIdx, [], [], [], pace.begunAt⟩ : Race α ε).Ordered (first :: rest) 0 :=
    Race.Ordered.launch rfl rfl (by simp) (by simp) (by simp)
  have hrunning : (Race.launch ⟨(first :: rest).zipIdx, [], [], [], pace.begunAt⟩ : Race α ε).inFlight ≠ [] := by
    simp [Race.launch]
  refine ⟨_, Race.turn_of_running hrunning _, Race.errors_launch _,
    ⟨⟨hordered.started, hordered.remaining, hordered.running, hordered.settled, hordered.prompt⟩, hrunning, ?_,
      fun hne => absurd rfl hne, Nat.le_refl _⟩⟩
  dsimp only
  omega

/-- A failure starts the next attempt, and ends a race of which all have failed. -/
theorem Race.Of.wake_error (h : race.Of pace attempts hedged now) (hlater : now ≤ later) {attempt : α}
    (hindex : (attempt, index) ∈ race.inFlight) (error : ε) :
    (∃ next : Race α ε, race.wake pace later (.completes index (.error error)) = (Poll.pending next : Poll α ε τ) ∧
      next.errors = race.errors ++ [(index, error)] ∧ next.Of pace attempts hedged later) ∨
    ∃ started, race.wake pace later (.completes index (.error error)) =
        (Poll.ready started (.error (race.errors ++ [(index, error)])) : Poll α ε τ) ∧
      Exhausted attempts started (race.errors ++ [(index, error)]) := by
  have hperm : ((race.fail index error).inFlight.map Prod.snd ++ (race.fail index error).errors.map Prod.fst).Perm
      (List.range race.started.length) := by
    refine List.Perm.trans ?_ h.settled
    have hfilter : (race.inFlight.filter fun entry => entry.2 != index).map Prod.snd =
        (race.inFlight.map Prod.snd).erase index := by
      rw [h.nodup_running.erase_eq_filter, List.filter_map]
      rfl
    rw [Race.fail, hfilter, List.map_append, List.map_singleton, ← List.append_assoc]
    refine (List.perm_append_singleton _ _).trans ?_
    have hmem : index ∈ race.inFlight.map Prod.snd := List.mem_map_of_mem hindex
    rw [← List.cons_append]
    exact (List.perm_cons_erase hmem).symm.append_right _
  have hordered : (race.fail index error).launch.Ordered attempts hedged := by
    refine Race.Ordered.launch h.started h.remaining (fun entry hentry => ?_) hperm ?_
    · exact h.running entry (List.mem_of_mem_filter hentry)
    · have hprompt := h.prompt
      simp only [Race.fail, List.length_append, List.length_singleton]
      omega
  rw [Race.wake]
  by_cases hnone : (race.fail index error).launch.inFlight = []
  · have hexhausted := hordered.exhausted hnone
    rw [Race.errors_launch] at hexhausted
    rw [Race.turn_of_none hnone (hordered.remaining_nil hnone), Race.errors_launch]
    exact .inr ⟨_, rfl, hexhausted⟩
  · refine .inl ⟨_, Race.turn_of_running hnone _, Race.errors_launch _,
      ⟨⟨hordered.started, hordered.remaining, hordered.running, hordered.settled, hordered.prompt⟩, hnone, ?_,
        fun hne => ?_, h.begun.trans hlater⟩⟩
    · have hpaced := h.paced
      have hbegun := h.begun
      dsimp only
      by_cases hzero : hedged = 0
      · subst hzero
        omega
      · exact (hpaced hzero).trans (by omega)
    · have hpaced := h.paced hne
      omega

/-- A timer that is due starts the next attempt, if one waits. -/
theorem Race.Of.wake_elapses (h : race.Of pace attempts hedged now) (hlater : now ≤ later) (hdue : race.wakeAt ≤ later) :
    ∃ next : Race α ε, race.wake pace later .elapses = (Poll.pending next : Poll α ε τ) ∧ next.errors = race.errors ∧
      next.Of pace attempts (hedged + 1) later := by
  have hordered : race.launch.Ordered attempts (hedged + 1) := by
    refine Race.Ordered.launch h.started h.remaining h.running h.settled ?_
    have hprompt := h.prompt
    omega
  have hrunning : race.launch.inFlight ≠ [] := by
    rw [Race.launch]
    split
    · exact h.live
    · simp
  have hpaced := h.due.trans hdue
  have hsucc : (hedged + 1) * pace.stagger = hedged * pace.stagger + pace.stagger := Nat.succ_mul _ _
  refine ⟨_, Race.turn_of_running hrunning _, Race.errors_launch _,
    ⟨⟨hordered.started, hordered.remaining, hordered.running, hordered.settled, hordered.prompt⟩, hrunning, ?_,
      fun _ => ?_, h.begun.trans hlater⟩⟩
  · dsimp only
    omega
  · omega

end StaggeredRace
