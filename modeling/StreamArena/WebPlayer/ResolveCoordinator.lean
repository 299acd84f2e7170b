import StreamArena.Library.AsciiText
import StreamArena.Library.Runs
import StreamArena.Library.TaskPool

/-! One resolve after the other (src/src-ui/player/resolve-job.js): a new request enters the backend when the one that it
replaces has been called off. Calls wait in a queue of transitions, and between any two of their turns requests are
registered, answered and finished. -/
namespace StreamArena.WebPlayer.ResolveCoordinator
open AsciiText TaskPool

inductive Kind where
  | cancelActive
  | begin
  deriving DecidableEq

structure Transition where
  kind : Kind
  generation : Nat

inductive Registration where
  | untracked
  | pending
  | settled
  deriving DecidableEq

/-- A request that was let in, with the generation of its call. Whether its holder registered it while it was wanted, and
whether the holder finished it as the current one, is noted for the reader. -/
structure Request where
  generation : Nat
  aborted : Bool := false
  jobId : Option Text := none
  registration : Registration := .untracked
  inTime : Bool := false
  released : Bool := false

/-- Where the work of the first transition stands. -/
inductive Work where
  | ready
  | registering (id : Nat)
  | deleting (id : Nat) (jobId : Text)
  | cancelled
  deriving DecidableEq

/-- The first of the queue is under way. The latest call, the requests whose job was asked to end, and the jobs for which
that call has returned, are recorded. -/
structure State where
  activeRequest : Option Nat := none
  transitionGeneration : Nat := 0
  queue : List Transition := []
  work : Work := .ready
  requests : Pool Request := Pool.empty
  latest : Option Kind := none
  asked : List Nat := []
  deleted : List (Nat × Text) := []

namespace State

def enqueueTransition (s : State) (kind : Kind) : State :=
  { s with
    transitionGeneration := s.transitionGeneration + 1
    queue := s.queue ++ [⟨kind, s.transitionGeneration + 1⟩]
    latest := some kind }

/-- The end of `cancelCurrentRequest`: a job that is known by now is deleted. -/
def dismiss (s : State) (id : Nat) (request : Request) : State :=
  match request.jobId with
  | some jobId => { s with work := .deleting id jobId, asked := s.asked ++ [id] }
  | none => { s with work := .cancelled }

def cancelCurrentRequest (s : State) : State :=
  match s.activeRequest with
  | none => { s with work := .cancelled }
  | some id =>
    match s.requests.get id with
    | none => { s with work := .cancelled }
    | some request =>
      let aborted := { request with aborted := true }
      let taken := { s with activeRequest := none, requests := s.requests.put id aborted }
      if request.jobId = none ∧ request.registration ≠ .untracked then { taken with work := .registering id }
      else taken.dismiss id aborted

def leave (s : State) (rest : List Transition) : State := { s with queue := rest, work := .ready }

/-- The next turn of the transition under way. -/
def turn (s : State) : State :=
  match s.queue with
  | [] => s
  | transition :: rest =>
    match s.work with
    | .ready =>
      if transition.generation ≠ s.transitionGeneration then s.leave rest else s.cancelCurrentRequest
    | .registering id =>
      match s.requests.get id with
      | some request => if request.registration = .settled then s.dismiss id request else s
      | none => s
    | .deleting _ _ => s
    | .cancelled =>
      match transition.kind with
      | .cancelActive => s.leave rest
      | .begin =>
        if transition.generation ≠ s.transitionGeneration then s.leave rest
        else
          { s.leave rest with
            activeRequest := some s.requests.next
            requests := s.requests.add { generation := transition.generation } }

/-- The `DELETE` under way has returned. -/
def returned (s : State) : State :=
  match s.work with
  | .deleting id jobId => { s with work := .cancelled, deleted := s.deleted ++ [(id, jobId)] }
  | _ => s

end State

namespace Request

/-- The caller registers a request once. -/
def trackStart (request : Request) : Request :=
  if request.registration = .untracked then { request with registration := .pending, inTime := !request.aborted }
  else request

/-- The registration settles: rejected, or with a payload that names a job (not a blank one) or none. -/
def settle (request : Request) (outcome : Option (Option Text)) : Request :=
  if request.registration = .pending then { request with registration := .settled, jobId := outcome.getD request.jobId }
  else request

end Request

namespace State

def trackStart (s : State) (id : Nat) : State :=
  { s with requests := s.requests.change id fun request => some request.trackStart }

def settle (s : State) (id : Nat) (outcome : Option (Option Text)) : State :=
  { s with requests := s.requests.change id fun request => some (request.settle outcome) }

def finish (s : State) (id : Nat) : State :=
  if s.activeRequest = some id then
    { s with
      activeRequest := none
      requests := s.requests.change id fun request => some { request with released := true } }
  else s

end State

inductive Event where
  | call (kind : Kind)
  | turn
  | returned
  | trackStart (id : Nat)
  | settle (id : Nat) (outcome : Option (Option Text))
  | finish (id : Nat)

def State.step (s : State) : Event → State
  | .call kind => s.enqueueTransition kind
  | .turn => s.turn
  | .returned => s.returned
  | .trackStart id => s.trackStart id
  | .settle id outcome => s.settle id outcome
  | .finish id => s.finish id

/-- The registration has settled, and the end of a job that it named was asked for and has returned. -/
def Ended (s : State) (id : Nat) (request : Request) : Prop :=
  request.registration = .settled ∧ ∀ jobId, request.jobId = some jobId → (id, jobId) ∈ s.deleted

/-- The transition under way calls the request off. -/
def Work.CallsOff (work : Work) (id : Nat) : Prop := work = .registering id ∨ ∃ jobId, work = .deleting id jobId

/-- What holds between any two turns. -/
structure Sound (s : State) : Prop where
  active : ∀ id, s.activeRequest = some id →
    s.work = .ready ∧ ∃ request, s.requests.get id = some request ∧ request.aborted = false ∧ request.released = false
  others : ∀ id request, s.requests.get id = some request →
    s.activeRequest = some id ∨ request.released = true ∨ request.aborted = true
  calledOff : ∀ id, s.work.CallsOff id → ∃ request, s.requests.get id = some request ∧ request.aborted = true
  deleting : ∀ id jobId request, s.work = .deleting id jobId → s.requests.get id = some request →
    request.jobId = some jobId
  ended : ∀ id request, s.requests.get id = some request → request.aborted = true → request.inTime = true →
    s.work.CallsOff id ∨ Ended s id request
  jobs : ∀ id request, s.requests.get id = some request → request.jobId.isSome → request.registration = .settled
  tracked : ∀ id request, s.requests.get id = some request → request.inTime = true → request.registration ≠ .untracked
  once : s.asked.Nodup
  asked : ∀ id ∈ s.asked, s.work ≠ .registering id ∧ ∃ request, s.requests.get id = some request ∧ request.aborted = true
  idle : s.queue = [] → s.work = .ready
  ordered : s.queue.Pairwise fun first second => first.generation < second.generation
  queued : ∀ transition ∈ s.queue, transition.generation ≤ s.transitionGeneration ∧
    ∀ id request, s.requests.get id = some request → request.generation < transition.generation
  newest : ∀ id request, s.requests.get id = some request → request.generation ≤ s.transitionGeneration
  latest : s.latest = some .begin →
    (∃ transition ∈ s.queue, transition.kind = .begin ∧ transition.generation = s.transitionGeneration) ∨
      ∃ id request, s.requests.get id = some request ∧ request.generation = s.transitionGeneration

/-- What the callers of the coordinator rely on. -/
structure Serialized (s : State) : Prop where
  current : ∀ id, s.activeRequest = some id → ∀ other request, s.requests.get other = some request → other ≠ id →
    request.released = true ∨ request.aborted = true ∧ (request.inTime = true → Ended s other request)
  wanted : ∀ id request, s.requests.get id = some request → request.aborted = false → request.released = false →
    s.activeRequest = some id
  drained : s.queue = [] → ∀ id request, s.requests.get id = some request → request.aborted = true →
    request.inTime = true → Ended s id request
  once : s.asked.Nodup
  superseded : ∀ transition ∈ s.queue, ∀ id request, s.requests.get id = some request →
    request.generation < transition.generation
  admitted : s.latest = some .begin → s.queue = [] →
    ∃ id request, s.requests.get id = some request ∧ request.generation = s.transitionGeneration

variable {s : State} {id : Nat} {request : Request}

theorem Sound.serialized (h : Sound s) : Serialized s where
  current id hactive other request hget hne := by
    obtain hother | hreleased | haborted := h.others other request hget
    · exact absurd (Option.some.inj (hactive.symm.trans hother)).symm hne
    · exact .inl hreleased
    · refine .inr ⟨haborted, fun hinTime => (h.ended other request hget haborted hinTime).resolve_left fun hwork => ?_⟩
      obtain ⟨hready, -⟩ := h.active id hactive
      rw [hready] at hwork
      obtain hwork | ⟨jobId, hwork⟩ := hwork
      · cases hwork
      · cases hwork
  wanted id request hget haborted hreleased := by
    obtain hactive | hother | hother := h.others id request hget
    · exact hactive
    · rw [hreleased] at hother
      cases hother
    · rw [haborted] at hother
      cases hother
  drained hnil id request hget haborted hinTime := by
    refine (h.ended id request hget haborted hinTime).resolve_left fun hwork => ?_
    rw [h.idle hnil] at hwork
    obtain hwork | ⟨jobId, hwork⟩ := hwork
    · cases hwork
    · cases hwork
  once := h.once
  superseded transition hmem := (h.queued transition hmem).2
  admitted hlatest hnil := by
    obtain ⟨transition, hmem, -⟩ | hadmitted := h.latest hlatest
    · rw [hnil] at hmem
      cases hmem
    · exact hadmitted

theorem get_put {requests : Pool Request} (hget : requests.get id = some request) (changed : Request) (other : Nat) :
    (requests.put id changed).get other = if other = id then some changed else requests.get other := by
  rw [show requests.put id changed = requests.change id fun _ => some changed from rfl, Pool.get_change]
  split
  · rw [hget]
    rfl
  · rfl

theorem not_callsOff_ready (id : Nat) : ¬ Work.ready.CallsOff id := by
  rintro (hwork | ⟨jobId, hwork⟩)
  · cases hwork
  · cases hwork

theorem not_callsOff_cancelled (id : Nat) : ¬ Work.cancelled.CallsOff id := by
  rintro (hwork | ⟨jobId, hwork⟩)
  · cases hwork
  · cases hwork

theorem Sound.enqueueTransition (h : Sound s) (kind : Kind) : Sound (s.enqueueTransition kind) where
  active := h.active
  others := h.others
  calledOff := h.calledOff
  deleting := h.deleting
  ended := h.ended
  jobs := h.jobs
  tracked := h.tracked
  once := h.once
  asked := h.asked
  idle hnil := absurd hnil (List.append_ne_nil_of_right_ne_nil _ (List.cons_ne_nil _ _))
  ordered := by
    refine List.pairwise_append.mpr ⟨h.ordered, List.pairwise_singleton _ _, fun first hfirst second hsecond => ?_⟩
    obtain rfl := List.mem_singleton.mp hsecond
    exact Nat.lt_succ_of_le (h.queued first hfirst).1
  queued transition hmem := by
    obtain hmem | hmem := List.mem_append.mp hmem
    · exact ⟨(h.queued transition hmem).1.trans (Nat.le_succ _), (h.queued transition hmem).2⟩
    · obtain rfl := List.mem_singleton.mp hmem
      exact ⟨Nat.le_refl _, fun id request hget => Nat.lt_succ_of_le (h.newest id request hget)⟩
  newest id request hget := (h.newest id request hget).trans (Nat.le_succ _)
  latest hlatest := by
    obtain rfl := Option.some.inj hlatest
    exact .inl ⟨_, List.mem_append_right _ (List.mem_singleton.mpr rfl), rfl, rfl⟩

/-- A change of one request that its state of being wanted does not notice. -/
theorem Sound.change (h : Sound s) (id : Nat) {f : Request → Request}
    (hgeneration : ∀ request, (f request).generation = request.generation)
    (haborted : ∀ request, (f request).aborted = request.aborted)
    (hreleased : ∀ request, (f request).released = request.released)
    (hended : ∀ request, s.requests.get id = some request → request.aborted = true → (f request).inTime = true →
      request.inTime = true ∧ (request.registration = .settled → f request = request))
    (hdeleting : ∀ jobId request, s.requests.get id = some request → request.jobId = some jobId →
      request.registration = .settled → f request = request)
    (hjobs : ∀ request, s.requests.get id = some request → (f request).jobId.isSome →
      (f request).registration = .settled)
    (htracked : ∀ request, s.requests.get id = some request → (f request).inTime = true →
      (f request).registration ≠ .untracked) :
    Sound { s with requests := s.requests.change id fun request => some (f request) } := by
  have hback {other : Nat} {changed : Request}
      (hget : (s.requests.change id fun request => some (f request)).get other = some changed) :
      ∃ request, s.requests.get other = some request ∧
        (other ≠ id ∧ changed = request ∨ other = id ∧ changed = f request) := by
    rw [Pool.get_change] at hget
    split at hget
    · next heq =>
      subst heq
      cases hold : s.requests.get other with
      | none =>
        rw [hold] at hget
        cases hget
      | some request =>
        rw [hold] at hget
        exact ⟨request, rfl, .inr ⟨rfl, (Option.some.inj hget).symm⟩⟩
    · next hne => exact ⟨changed, hget, .inl ⟨hne, rfl⟩⟩
  have hforth {other : Nat} {request : Request} (hget : s.requests.get other = some request) : ∃ changed,
      (s.requests.change id fun request => some (f request)).get other = some changed ∧
        changed.generation = request.generation ∧ changed.aborted = request.aborted ∧
          changed.released = request.released := by
    by_cases heq : other = id
    · subst heq
      refine ⟨f request, ?_, hgeneration request, haborted request, hreleased request⟩
      rw [Pool.get_change, if_pos rfl, hget]
      rfl
    · exact ⟨request, by rw [Pool.get_change, if_neg heq, hget], rfl, rfl, rfl⟩
  exact { h with
    active other hactive := by
      obtain ⟨hready, request, hget, hnot, hkept⟩ := h.active other hactive
      obtain ⟨changed, hget', -, haborted', hreleased'⟩ := hforth hget
      exact ⟨hready, changed, hget', haborted'.trans hnot, hreleased'.trans hkept⟩
    others other changed hget := by
      obtain ⟨request, hold, ⟨-, rfl⟩ | ⟨-, rfl⟩⟩ := hback hget
      · exact h.others other _ hold
      · rw [hreleased, haborted]
        exact h.others other request hold
    calledOff other hwork := by
      obtain ⟨request, hget, hoff⟩ := h.calledOff other hwork
      obtain ⟨changed, hget', -, haborted', -⟩ := hforth hget
      exact ⟨changed, hget', haborted'.trans hoff⟩
    deleting other jobId changed hwork hget := by
      obtain ⟨request, hold, ⟨-, rfl⟩ | ⟨rfl, rfl⟩⟩ := hback hget
      · exact h.deleting other jobId _ hwork hold
      · have hjob := h.deleting other jobId request hwork hold
        have hsettled := h.jobs other request hold (by rw [hjob]; rfl)
        rw [hdeleting jobId request hold hjob hsettled]
        exact hjob
    ended other changed hget hoff hinTime := by
      obtain ⟨request, hold, ⟨-, rfl⟩ | ⟨rfl, rfl⟩⟩ := hback hget
      · exact h.ended other _ hold hoff hinTime
      · rw [haborted] at hoff
        obtain ⟨hinTime', hsame⟩ := hended request hold hoff hinTime
        refine (h.ended other request hold hoff hinTime').imp_right fun hended' => ?_
        rw [hsame hended'.1]
        exact hended'
    jobs other changed hget hjob := by
      obtain ⟨request, hold, ⟨-, rfl⟩ | ⟨rfl, rfl⟩⟩ := hback hget
      · exact h.jobs other _ hold hjob
      · exact hjobs request hold hjob
    tracked other changed hget hinTime := by
      obtain ⟨request, hold, ⟨-, rfl⟩ | ⟨rfl, rfl⟩⟩ := hback hget
      · exact h.tracked other _ hold hinTime
      · exact htracked request hold hinTime
    asked other hmem := by
      obtain ⟨hwork, request, hget, hoff⟩ := h.asked other hmem
      obtain ⟨changed, hget', -, haborted', -⟩ := hforth hget
      exact ⟨hwork, changed, hget', haborted'.trans hoff⟩
    queued transition hmem := by
      refine ⟨(h.queued transition hmem).1, fun other changed hget => ?_⟩
      obtain ⟨request, hold, ⟨-, rfl⟩ | ⟨rfl, rfl⟩⟩ := hback hget
      · exact (h.queued transition hmem).2 other _ hold
      · rw [hgeneration]
        exact (h.queued transition hmem).2 other request hold
    newest other changed hget := by
      obtain ⟨request, hold, ⟨-, rfl⟩ | ⟨rfl, rfl⟩⟩ := hback hget
      · exact h.newest other _ hold
      · rw [hgeneration]
        exact h.newest other request hold
    latest hlatest := by
      refine (h.latest hlatest).imp_right ?_
      rintro ⟨other, request, hget, hgen⟩
      obtain ⟨changed, hget', hgen', -, -⟩ := hforth hget
      exact ⟨other, changed, hget', hgen'.trans hgen⟩ }

theorem Sound.trackStart (h : Sound s) (id : Nat) : Sound (s.trackStart id) := by
  refine h.change id (fun request => ?_) (fun request => ?_) (fun request => ?_) (fun request hget hoff hinTime => ?_)
    (fun jobId request hget hjob hsettled => ?_) (fun request hget hjob => ?_) fun request hget hinTime => ?_
  · rw [Request.trackStart]
    split <;> rfl
  · rw [Request.trackStart]
    split <;> rfl
  · rw [Request.trackStart]
    split <;> rfl
  · rw [Request.trackStart] at hinTime ⊢
    split at hinTime
    · rw [hoff] at hinTime
      cases hinTime
    · next htracked => exact ⟨hinTime, fun _ => if_neg htracked⟩
  · exact if_neg (by rw [hsettled]; decide)
  · rw [Request.trackStart] at hjob ⊢
    split at hjob
    · next huntracked =>
      have hsettled := h.jobs id request hget hjob
      rw [huntracked] at hsettled
      cases hsettled
    · next htracked =>
      rw [if_neg htracked]
      exact h.jobs id request hget hjob
  · rw [Request.trackStart] at hinTime ⊢
    split
    · exact Registration.noConfusion
    · next htracked => exact htracked

theorem Sound.settle (h : Sound s) (id : Nat) (outcome : Option (Option Text)) : Sound (s.settle id outcome) := by
  refine h.change id (fun request => ?_) (fun request => ?_) (fun request => ?_) (fun request hget hoff hinTime => ?_)
    (fun jobId request hget hjob hsettled => ?_) (fun request hget hjob => ?_) fun request hget hinTime => ?_
  · rw [Request.settle]
    split <;> rfl
  · rw [Request.settle]
    split <;> rfl
  · rw [Request.settle]
    split <;> rfl
  · refine ⟨?_, fun hsettled => if_neg (by rw [hsettled]; decide)⟩
    rw [Request.settle] at hinTime
    split at hinTime
    · exact hinTime
    · exact hinTime
  · exact if_neg (by rw [hsettled]; decide)
  · rw [Request.settle] at hjob ⊢
    split at hjob
    · next hpending => rw [if_pos hpending]
    · next hpending =>
      rw [if_neg hpending]
      exact h.jobs id request hget hjob
  · rw [Request.settle] at hinTime ⊢
    split
    · exact Registration.noConfusion
    · next hpending =>
      rw [if_neg hpending] at hinTime
      exact h.tracked id request hget hinTime

theorem Sound.finish (h : Sound s) (id : Nat) : Sound (s.finish id) := by
  rw [State.finish]
  split
  · next hactive =>
    obtain ⟨hready, current, hcurrent, haborted, -⟩ := h.active id hactive
    have hget (other : Nat) : (s.requests.change id fun request => some { request with released := true }).get other =
        if other = id then some { current with released := true } else s.requests.get other := by
      rw [Pool.get_change]
      split
      · rw [hcurrent]
        rfl
      · rfl
    have hback {other : Nat} {changed : Request}
        (hchanged : (s.requests.change id fun request => some { request with released := true }).get other = some changed) :
        ∃ request, s.requests.get other = some request ∧ changed.aborted = request.aborted ∧
          changed.jobId = request.jobId ∧
          changed.registration = request.registration ∧ changed.inTime = request.inTime ∧
            changed.generation = request.generation ∧ (other ≠ id → changed = request) ∧
              (other = id → changed.released = true) := by
      rw [hget] at hchanged
      split at hchanged
      · next heq =>
        obtain rfl := Option.some.inj hchanged
        exact ⟨current, heq ▸ hcurrent, rfl, rfl, rfl, rfl, rfl, fun hne => absurd heq hne, fun _ => rfl⟩
      · next hne => exact ⟨changed, hchanged, rfl, rfl, rfl, rfl, rfl, fun _ => rfl, fun heq => absurd heq hne⟩
    have hforth {other : Nat} {request : Request} (hold : s.requests.get other = some request) : ∃ changed,
        (s.requests.change id fun request => some { request with released := true }).get other = some changed ∧
          changed.aborted = request.aborted ∧ changed.generation = request.generation := by
      by_cases heq : other = id
      · subst heq
        obtain rfl := Option.some.inj (hcurrent.symm.trans hold)
        exact ⟨{ current with released := true }, by rw [hget, if_pos rfl], rfl, rfl⟩
      · exact ⟨request, by rw [hget, if_neg heq, hold], rfl, rfl⟩
    exact { h with
      active other hother := by cases hother
      others other changed hchanged := by
        obtain ⟨request, hold, hoff, -, -, -, -, hsame, hreleased⟩ := hback hchanged
        by_cases heq : other = id
        · exact .inr (.inl (hreleased heq))
        · obtain hactive' | hreleased | haborted' := h.others other request hold
          · exact absurd (Option.some.inj (hactive.symm.trans hactive')).symm heq
          · rw [hsame heq]
            exact .inr (.inl hreleased)
          · exact .inr (.inr (hoff.trans haborted'))
      calledOff other hwork := by
        rw [hready] at hwork
        exact absurd hwork (not_callsOff_ready other)
      deleting other jobId changed hwork := by
        rw [hready] at hwork
        cases hwork
      ended other changed hchanged hoff hinTime := by
        obtain ⟨request, hold, haborted', hjob, hregistration, hinTime', -⟩ := hback hchanged
        refine (h.ended other request hold (haborted' ▸ hoff) (hinTime' ▸ hinTime)).imp_right fun hended => ?_
        rw [Ended, hregistration, hjob]
        exact hended
      jobs other changed hchanged hjob := by
        obtain ⟨request, hold, -, hjob', hregistration, -⟩ := hback hchanged
        rw [hregistration]
        exact h.jobs other request hold (hjob' ▸ hjob)
      tracked other changed hchanged hinTime := by
        obtain ⟨request, hold, -, -, hregistration, hinTime', -⟩ := hback hchanged
        rw [hregistration]
        exact h.tracked other request hold (hinTime' ▸ hinTime)
      asked other hmem := by
        obtain ⟨hwork, request, hold, hoff⟩ := h.asked other hmem
        obtain ⟨changed, hchanged, haborted', -⟩ := hforth hold
        exact ⟨hwork, changed, hchanged, haborted'.trans hoff⟩
      queued transition hmem := by
        refine ⟨(h.queued transition hmem).1, fun other changed hchanged => ?_⟩
        obtain ⟨request, hold, -, -, -, -, hgeneration, -⟩ := hback hchanged
        rw [hgeneration]
        exact (h.queued transition hmem).2 other request hold
      newest other changed hchanged := by
        obtain ⟨request, hold, -, -, -, -, hgeneration, -⟩ := hback hchanged
        rw [hgeneration]
        exact h.newest other request hold
      latest hlatest := by
        refine (h.latest hlatest).imp_right ?_
        rintro ⟨other, request, hold, hgen⟩
        obtain ⟨changed, hchanged, -, hgeneration⟩ := hforth hold
        exact ⟨other, changed, hchanged, hgeneration.trans hgen⟩ }
  · exact h

theorem Sound.returned (h : Sound s) : Sound s.returned := by
  rw [State.returned]
  split
  · next id jobId hwork =>
    obtain ⟨request, hget, hoff⟩ := h.calledOff id (.inr ⟨jobId, hwork⟩)
    have hjob := h.deleting id jobId request hwork hget
    exact { h with
      active other hactive := by
        obtain ⟨hready, -⟩ := h.active other hactive
        rw [hready] at hwork
        cases hwork
      calledOff other hwork := absurd hwork (not_callsOff_cancelled other)
      deleting other jobId request hwork := by cases hwork
      ended other request' hget' hoff' hinTime := by
        refine .inr ?_
        obtain hcalls | hended := h.ended other request' hget' hoff' hinTime
        · obtain hcalls | ⟨jobId', hcalls⟩ := hcalls
          · rw [hwork] at hcalls
            cases hcalls
          · rw [hwork] at hcalls
            cases hcalls
            obtain rfl := Option.some.inj (hget.symm.trans hget')
            refine ⟨h.jobs id request hget (by rw [hjob]; rfl), fun jobId' hjob' => ?_⟩
            obtain rfl := Option.some.inj (hjob.symm.trans hjob')
            exact List.mem_append_right _ (List.mem_singleton.mpr rfl)
        · exact ⟨hended.1, fun jobId' hjob' => List.mem_append_left _ (hended.2 jobId' hjob')⟩
      asked other hmem := ⟨(fun hwork => by cases hwork), (h.asked other hmem).2⟩
      idle hnil := by
        have hready := h.idle hnil
        rw [hwork] at hready
        cases hready }
  · exact h

/-- A transition whose work is over leaves the queue, unless it is the latest call and began nothing. -/
theorem Sound.leave (h : Sound s) {transition : Transition} {rest : List Transition} (hqueue : s.queue = transition :: rest)
    (hwork : ∀ id, ¬ s.work.CallsOff id)
    (hpast : transition.generation ≠ s.transitionGeneration ∨ transition.kind = .cancelActive) : Sound (s.leave rest) where
  active id hactive := ⟨rfl, (h.active id hactive).2⟩
  others := h.others
  calledOff id hcalls := absurd hcalls (not_callsOff_ready id)
  deleting id jobId request hcalls := by cases hcalls
  ended id request hget hoff hinTime := .inr ((h.ended id request hget hoff hinTime).resolve_left (hwork id))
  jobs := h.jobs
  tracked := h.tracked
  once := h.once
  asked id hmem := ⟨fun hcalls => (by cases hcalls), (h.asked id hmem).2⟩
  idle _ := rfl
  ordered := (List.pairwise_cons.mp (hqueue ▸ h.ordered)).2
  queued other hmem := h.queued other (hqueue ▸ List.mem_cons_of_mem _ hmem)
  newest := h.newest
  latest hlatest := by
    refine (h.latest hlatest).imp_left ?_
    rintro ⟨other, hmem, hkind, hgeneration⟩
    rw [hqueue] at hmem
    obtain rfl | hmem := List.mem_cons.mp hmem
    · obtain hne | hcancel := hpast
      · exact absurd hgeneration hne
      · rw [hkind] at hcancel
        cases hcancel
    · exact ⟨other, hmem, hkind, hgeneration⟩

/-- The call that is the latest when it is let in begins a request, and only then one is current. -/
theorem Sound.admit (h : Sound s) {transition : Transition} {rest : List Transition} (hqueue : s.queue = transition :: rest)
    (hwork : s.work = .cancelled) (hlatest : transition.generation = s.transitionGeneration) :
    Sound { s.leave rest with
      activeRequest := some s.requests.next
      requests := s.requests.add { generation := transition.generation } } := by
  have hmem : transition ∈ s.queue := hqueue ▸ List.mem_cons_self
  have hnone {id : Nat} (hactive : s.activeRequest = some id) : False := by
    obtain ⟨hready, -⟩ := h.active id hactive
    rw [hwork] at hready
    cases hready
  have hnext {other : Transition} (hother : other ∈ rest) : transition.generation < other.generation :=
    (List.pairwise_cons.mp (hqueue ▸ h.ordered)).1 other hother
  exact { h with
    active id hactive := by
      obtain rfl := Option.some.inj hactive
      exact ⟨rfl, _, Pool.get_add_eq_some.mpr (.inl ⟨rfl, rfl⟩), rfl, rfl⟩
    others id request hget := by
      obtain ⟨rfl, rfl⟩ | hold := Pool.get_add_eq_some.mp hget
      · exact .inl rfl
      · exact .inr ((h.others id request hold).resolve_left fun hactive => hnone hactive)
    calledOff id hcalls := absurd hcalls (not_callsOff_ready id)
    deleting id jobId request hcalls := by cases hcalls
    ended id request hget hoff hinTime := by
      obtain ⟨rfl, rfl⟩ | hold := Pool.get_add_eq_some.mp hget
      · cases hoff
      · refine .inr ((h.ended id request hold hoff hinTime).resolve_left ?_)
        rw [hwork]
        exact not_callsOff_cancelled id
    jobs id request hget hjob := by
      obtain ⟨rfl, rfl⟩ | hold := Pool.get_add_eq_some.mp hget
      · cases hjob
      · exact h.jobs id request hold hjob
    tracked id request hget hinTime := by
      obtain ⟨rfl, rfl⟩ | hold := Pool.get_add_eq_some.mp hget
      · cases hinTime
      · exact h.tracked id request hold hinTime
    asked id hasked := by
      refine ⟨fun hcalls => (by cases hcalls), ?_⟩
      obtain ⟨-, request, hget, hoff⟩ := h.asked id hasked
      exact ⟨request, Pool.get_add_eq_some.mpr (.inr hget), hoff⟩
    idle _ := rfl
    ordered := (List.pairwise_cons.mp (hqueue ▸ h.ordered)).2
    queued other hother := by
      refine ⟨(h.queued other (hqueue ▸ List.mem_cons_of_mem _ hother)).1, fun id request hget => ?_⟩
      obtain ⟨rfl, rfl⟩ | hold := Pool.get_add_eq_some.mp hget
      · exact hnext hother
      · exact ((h.queued transition hmem).2 id request hold).trans (hnext hother)
    newest id request hget := by
      obtain ⟨rfl, rfl⟩ | hold := Pool.get_add_eq_some.mp hget
      · exact hlatest.le
      · exact h.newest id request hold
    latest _ := by
      exact .inr ⟨_, _, Pool.get_add_eq_some.mpr (.inl ⟨rfl, rfl⟩), hlatest⟩ }

/-- A request whose registration has settled, or that nobody registered in time, is dismissed: its job is asked to end once. -/
theorem Sound.dismiss (h : Sound s) (hwork : s.work = .registering id) (hget : s.requests.get id = some request)
    (hoff : request.aborted = true) (hsettled : request.inTime = true → request.registration = .settled)
    (hqueue : s.queue ≠ []) : Sound (s.dismiss id request) := by
  have hasked : id ∉ s.asked := fun hmem => (h.asked id hmem).1 hwork
  have hnone {other : Nat} (hactive : s.activeRequest = some other) : False := by
    obtain ⟨hready, -⟩ := h.active other hactive
    rw [hwork] at hready
    cases hready
  have hcalls {other : Nat} {changed : Request} (hchanged : s.requests.get other = some changed)
      (haborted : changed.aborted = true) (hinTime : changed.inTime = true) : other = id ∨ Ended s other changed := by
    refine (h.ended other changed hchanged haborted hinTime).imp_left ?_
    rintro (hcalled | ⟨jobId, hcalled⟩)
    · rw [hwork] at hcalled
      cases hcalled
      rfl
    · rw [hwork] at hcalled
      cases hcalled
  rw [State.dismiss]
  split
  · next jobId hjob =>
    exact { h with
      active other hactive := (hnone hactive).elim
      calledOff other hcalled := by
        obtain hcalled | ⟨jobId', hcalled⟩ := hcalled
        · cases hcalled
        · cases hcalled
          exact ⟨request, hget, hoff⟩
      deleting other jobId' changed hcalled hchanged := by
        cases hcalled
        obtain rfl := Option.some.inj (hget.symm.trans hchanged)
        exact hjob
      ended other changed hchanged haborted hinTime := by
        obtain rfl | hended := hcalls hchanged haborted hinTime
        · exact .inl (.inr ⟨jobId, rfl⟩)
        · exact .inr hended
      once := by
        refine List.nodup_append.mpr ⟨h.once, List.nodup_singleton _, fun other hother last hlast heq => ?_⟩
        obtain rfl := List.mem_singleton.mp hlast
        exact hasked (heq ▸ hother)
      asked other hmem := by
        refine ⟨fun hcalled => (by cases hcalled), ?_⟩
        obtain hmem | hmem := List.mem_append.mp hmem
        · exact (h.asked other hmem).2
        · obtain rfl := List.mem_singleton.mp hmem
          exact ⟨request, hget, hoff⟩
      idle hnil := absurd hnil hqueue }
  · next hjob =>
    exact { h with
      active other hactive := (hnone hactive).elim
      calledOff other hcalled := absurd hcalled (not_callsOff_cancelled other)
      deleting other jobId' changed hcalled := by cases hcalled
      ended other changed hchanged haborted hinTime := by
        obtain rfl | hended := hcalls hchanged haborted hinTime
        · obtain rfl := Option.some.inj (hget.symm.trans hchanged)
          exact .inr ⟨hsettled hinTime, fun jobId hjob' => by rw [hjob] at hjob'; cases hjob'⟩
        · exact .inr hended
      asked other hmem := ⟨fun hcalled => (by cases hcalled), (h.asked other hmem).2⟩
      idle hnil := absurd hnil hqueue }

/-- The current request is taken away and aborted; what is known of its job is waited for. -/
theorem Sound.cancelCurrentRequest (h : Sound s) (hwork : s.work = .ready) (hqueue : s.queue ≠ []) :
    Sound s.cancelCurrentRequest := by
  have hnotCalled (other : Nat) : ¬ s.work.CallsOff other := by
    rw [hwork]
    exact not_callsOff_ready other
  have hidle (hnone : s.activeRequest = none) : Sound { s with work := .cancelled } :=
    { h with
      active other hactive := absurd (hnone.symm.trans hactive) (Option.some_ne_none other).symm
      calledOff other hcalled := absurd hcalled (not_callsOff_cancelled other)
      deleting other jobId changed hcalled := by cases hcalled
      ended other changed hget hoff hinTime :=
        .inr ((h.ended other changed hget hoff hinTime).resolve_left (hnotCalled other))
      asked other hmem := ⟨fun hcalled => (by cases hcalled), (h.asked other hmem).2⟩
      idle hnil := absurd hnil hqueue }
  rw [State.cancelCurrentRequest]
  split
  · next hnone => exact hidle hnone
  · next id hactive =>
    obtain ⟨-, request, hget, hwanted, hkept⟩ := h.active id hactive
    rw [hget]
    dsimp only
    have hput (other : Nat) := get_put hget { request with aborted := true } other
    have hback {other : Nat} {changed : Request}
        (hchanged : (s.requests.put id { request with aborted := true }).get other = some changed) :
        other = id ∧ changed = { request with aborted := true } ∨ other ≠ id ∧ s.requests.get other = some changed := by
      rw [hput] at hchanged
      split at hchanged
      · next heq => exact .inl ⟨heq, (Option.some.inj hchanged).symm⟩
      · next hne => exact .inr ⟨hne, hchanged⟩
    have hnotAsked : id ∉ s.asked := by
      intro hmem
      obtain ⟨-, other, hother, hoff⟩ := h.asked id hmem
      obtain rfl := Option.some.inj (hget.symm.trans hother)
      rw [hwanted] at hoff
      cases hoff
    -- A request without a registration to wait for is dismissed as one whose registration has settled.
    have htaken : Sound { s with
        activeRequest := none
        requests := s.requests.put id { request with aborted := true }
        work := .registering id } := by
      exact { h with
        active other hother := by cases hother
        others other changed hchanged := by
          obtain ⟨rfl, rfl⟩ | ⟨hne, hold⟩ := hback hchanged
          · exact .inr (.inr rfl)
          · refine .inr ((h.others other changed hold).resolve_left fun hother => ?_)
            exact hne (Option.some.inj (hactive.symm.trans hother)).symm
        calledOff other hcalled := by
          obtain hcalled | ⟨jobId, hcalled⟩ := hcalled
          · cases hcalled
            exact ⟨{ request with aborted := true }, by rw [hput, if_pos rfl], rfl⟩
          · cases hcalled
        deleting other jobId changed hcalled := by
          cases hcalled
        ended other changed hchanged hoff hin := by
          obtain ⟨rfl, rfl⟩ | ⟨hne, hold⟩ := hback hchanged
          · exact .inl (.inl rfl)
          · exact .inr ((h.ended other changed hold hoff hin).resolve_left (hnotCalled other))
        jobs other changed hchanged hjob := by
          obtain ⟨rfl, rfl⟩ | ⟨hne, hold⟩ := hback hchanged
          · exact h.jobs other request hget hjob
          · exact h.jobs other changed hold hjob
        tracked other changed hchanged hin := by
          obtain ⟨rfl, rfl⟩ | ⟨hne, hold⟩ := hback hchanged
          · exact h.tracked other request hget hin
          · exact h.tracked other changed hold hin
        asked other hmem := by
          refine ⟨fun hcalled => ?_, ?_⟩
          · cases hcalled
            exact hnotAsked hmem
          · obtain ⟨-, changed, hold, hoff⟩ := h.asked other hmem
            by_cases heq : other = id
            · exact absurd (heq ▸ hmem) hnotAsked
            · exact ⟨changed, by rw [hput, if_neg heq, hold], hoff⟩
        idle hnil := absurd hnil hqueue
        queued transition hmem := by
          refine ⟨(h.queued transition hmem).1, fun other changed hchanged => ?_⟩
          obtain ⟨rfl, rfl⟩ | ⟨hne, hold⟩ := hback hchanged
          · exact (h.queued transition hmem).2 other request hget
          · exact (h.queued transition hmem).2 other changed hold
        newest other changed hchanged := by
          obtain ⟨rfl, rfl⟩ | ⟨hne, hold⟩ := hback hchanged
          · exact h.newest other request hget
          · exact h.newest other changed hold
        latest hlatest := by
          refine (h.latest hlatest).imp_right ?_
          rintro ⟨other, changed, hold, hgeneration⟩
          by_cases heq : other = id
          · subst heq
            obtain rfl := Option.some.inj (hget.symm.trans hold)
            exact ⟨other, { request with aborted := true }, by rw [hput, if_pos rfl], hgeneration⟩
          · exact ⟨other, changed, by rw [hput, if_neg heq, hold], hgeneration⟩ }
    split
    · exact htaken
    · next hnot =>
      have haborted : (s.requests.put id { request with aborted := true }).get id = some { request with aborted := true } := by
        rw [hput, if_pos rfl]
      have hsettled : request.inTime = true → request.registration = .settled := by
        intro hin
        cases hjob : request.jobId with
        | none => exact absurd ⟨hjob, h.tracked id request hget hin⟩ hnot
        | some jobId => exact h.jobs id request hget (by rw [hjob]; rfl)
      have hdismissed := htaken.dismiss rfl haborted rfl hsettled hqueue
      rw [State.dismiss] at hdismissed ⊢
      cases hjob : request.jobId with
      | none =>
        simp only [hjob] at hdismissed ⊢
        exact hdismissed
      | some jobId =>
        simp only [hjob] at hdismissed ⊢
        exact hdismissed

theorem Sound.turn (h : Sound s) : Sound s.turn := by
  rw [State.turn]
  split
  · exact h
  · next transition rest hqueue =>
    have hne : s.queue ≠ [] := by
      rw [hqueue]
      exact List.cons_ne_nil _ _
    split
    · next hwork =>
      split
      · next hpast =>
        refine h.leave hqueue (fun id => ?_) (.inl hpast)
        rw [hwork]
        exact not_callsOff_ready id
      · exact h.cancelCurrentRequest hwork hne
    · next id hwork =>
      split
      · next request hget =>
        split
        · next hsettled =>
          obtain ⟨request', hget', hoff⟩ := h.calledOff id (.inl hwork)
          obtain rfl := Option.some.inj (hget.symm.trans hget')
          exact h.dismiss hwork hget hoff (fun _ => hsettled) hne
        · exact h
      · exact h
    · exact h
    · next hwork =>
      have hnot (id : Nat) : ¬ s.work.CallsOff id := by
        rw [hwork]
        exact not_callsOff_cancelled id
      split
      · next hkind => exact h.leave hqueue hnot (.inr hkind)
      · split
        · next hpast => exact h.leave hqueue hnot (.inl hpast)
        · next hlatest => exact h.admit hqueue hwork (not_not.mp hlatest)

theorem Sound.step (h : Sound s) (event : Event) : Sound (s.step event) := by
  cases event with
  | call kind => exact h.enqueueTransition kind
  | turn => exact h.turn
  | returned => exact h.returned
  | trackStart id => exact h.trackStart id
  | settle id outcome => exact h.settle id outcome
  | finish id => exact h.finish id

theorem sound_initial : Sound {} where
  active _ hactive := by cases hactive
  others _ _ hget := by cases hget
  calledOff id hcalls := absurd hcalls (not_callsOff_ready id)
  deleting _ _ _ hwork := by cases hwork
  ended _ _ hget := by cases hget
  jobs _ _ hget := by cases hget
  tracked _ _ hget := by cases hget
  once := List.nodup_nil
  asked _ hmem := by cases hmem
  idle _ := rfl
  ordered := List.Pairwise.nil
  queued _ hmem := by cases hmem
  newest _ _ hget := by cases hget
  latest hlatest := by cases hlatest

/-- Whoever calls, registers, answers and finishes when: a request is the current one only when every other one was finished
by its holder or has been called off to the end. -/
theorem serialized_run (events : List Event) : Runs.Throughout State.step Serialized {} events :=
  Runs.Throughout.imp (fun _ => Sound.serialized) (Runs.throughout_of_step (fun _ event h => h.step event) sound_initial)

end StreamArena.WebPlayer.ResolveCoordinator
