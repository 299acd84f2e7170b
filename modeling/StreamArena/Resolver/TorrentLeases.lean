import StreamArena.Library.Runs
import StreamArena.Library.AsciiText

/-! The torrents that resolves add to one Real-Debrid account (src/resolver/real_debrid.rs):
a task of its own adds each of them and deletes it again unless the attempt commits its lease. -/
namespace StreamArena.Resolver.TorrentLeases
open AsciiText Runs

abbrev Torrent := Text

/-- A resolve between its awaits. A lease is held from `selecting` on, and by a `completing`
that has an attempt. -/
inductive Phase where
  | idle
  | finding (infoHash : Text)
  | findingReady (infoHash : Text)
  | reusing (infoHash : Text) (torrent : Torrent)
  | adding (infoHash : Text) (attempt : Nat)
  | selecting (infoHash : Text) (attempt : Nat) (torrent : Torrent)
  | waiting (infoHash : Text) (attempt : Nat) (torrent : Torrent)
  | cleaningUp (infoHash : Text) (attempt : Nat) (retry : Bool)
  | completing (torrent : Torrent) (attempt : Option Nat)
  | ended
  deriving DecidableEq

/-- The task of one `addMagnet` call, and whether a caller still waits for its result. -/
inductive Task where
  | idle
  | posting (infoHash : Text) (wanted : Bool)
  | deciding (infoHash : Text) (torrent : Torrent)
  | cleaningUp (infoHash : Text) (torrent : Torrent)
  | ended
  deriving DecidableEq

/-- A task belongs to an attempt of a request. -/
abbrev TaskId := Nat × Nat

inductive Act where
  | created (task : TaskId) (torrent : Torrent)
  | selected (request : Nat) (torrent : Torrent)
  | reused (request : Nat) (torrent : Torrent)
  | committed (task : TaskId) (torrent : Torrent)
  | deleted (task : TaskId) (torrent : Torrent)
  | returned (request : Nat) (torrent : Torrent)
  deriving DecidableEq

def Act.torrent : Act → Torrent
  | created _ torrent | selected _ torrent | reused _ torrent | committed _ torrent
  | deleted _ torrent | returned _ torrent => torrent

inductive Resolution where
  | resolved | selectedFileMismatch | failed
  deriving DecidableEq

/-- `cache` has the torrents of hashes, `ready` those of the account list while it is fresh.
`acts` is what was done, the last first, and `seen` has every torrent met so far. -/
structure Service where
  requests : Nat → Phase
  tasks : TaskId → Task
  cache : Text → Option Torrent
  ready : Option (List (Text × Torrent))
  acts : List Act
  seen : List Torrent

/-- `remember` is what expiry, late or failed writes and the refresh of the account list leave
in the cache, `posted` says what the provider created and whether its answer came back. -/
inductive Event where
  | start (request : Nat) (infoHash : Text)
  | cachedRead (request : Nat) (failed : Bool)
  | readyRead (request : Nat) (failed : Bool)
  | reuse (request : Nat) (resolved : Bool)
  | posted (task : TaskId) (created : Option Torrent) (answered : Bool)
  | added (request : Nat)
  | info (request : Nat) (found : Bool)
  | resolve (request : Nat) (resolution : Resolution)
  | delete (task : TaskId) (succeeds : Bool)
  | cleaned (request : Nat)
  | complete (request : Nat) (succeeds : Bool)
  | cancel (request : Nat)
  | remember (infoHash : Text) (torrent : Option Torrent)
  | refreshed (ready : Option (List (Text × Torrent)))

namespace Service

def initial : Service := ⟨fun _ => .idle, fun _ => .idle, fun _ => none, none, [], []⟩

def goes (s : Service) (request : Nat) (phase : Phase) : Service :=
  { s with requests := Function.update s.requests request phase }

def becomes (s : Service) (task : TaskId) (state : Task) : Service :=
  { s with tasks := Function.update s.tasks task state }

def does (s : Service) (act : Act) : Service :=
  { s with acts := act :: s.acts }

def sees (s : Service) (torrents : List Torrent) : Service :=
  { s with seen := torrents ++ s.seen }

/-- An entry of the cache; sources without a hash have none. -/
def setCached (s : Service) (infoHash : Text) (torrent : Option Torrent) : Service :=
  if infoHash = [] ∨ torrent = some [] then s
  else { s with cache := Function.update s.cache infoHash torrent }

/-- The task posts to `/torrents/addMagnet`. -/
def addMagnet (s : Service) (request : Nat) (infoHash : Text) (attempt : Nat) : Service :=
  (s.becomes (request, attempt) (.posting infoHash true)).goes request (.adding infoHash attempt)

/-- A dropped lease, or a dropped receiver of one. -/
def dropLease (s : Service) (task : TaskId) : Service :=
  match s.tasks task with
  | .posting infoHash _ => s.becomes task (.posting infoHash false)
  | .deciding infoHash torrent => s.becomes task (.cleaningUp infoHash torrent)
  | .idle | .cleaningUp _ _ | .ended => s

def commit (s : Service) (task : TaskId) : Service :=
  match s.tasks task with
  | .deciding _ torrent => (s.becomes task .ended).does (.committed task torrent)
  | .idle | .posting _ _ | .cleaningUp _ _ | .ended => s

def findReusable (s : Service) (request : Nat) (infoHash : Text) (torrent : Option Torrent) : Service :=
  match torrent with
  | some torrent => (s.does (.reused request torrent)).goes request (.reusing infoHash torrent)
  | none => s.addMagnet request infoHash 0

/-- The result of an `addMagnet` call whose caller is gone is cleaned up. -/
def posted (s : Service) (task : TaskId) (infoHash : Text) (wanted : Bool) (created : Option Torrent)
    (answered : Bool) : Service :=
  match created with
  | none => s.becomes task .ended
  | some torrent =>
    let s := (s.sees [torrent]).does (.created task torrent)
    if answered = false ∨ torrent = [] then s.becomes task .ended
    else s.becomes task (if wanted then .deciding infoHash torrent else .cleaningUp infoHash torrent)

/-- An owned attempt that fails waits for its clean-up. -/
def cleanup (s : Service) (request : Nat) (infoHash : Text) (attempt : Nat) (retry : Bool) : Service :=
  (s.dropLease (request, attempt)).goes request (.cleaningUp infoHash attempt retry)

def complete (s : Service) (request : Nat) (torrent : Torrent) (attempt : Option Nat) : Service :=
  let s := attempt.elim s fun attempt => s.commit (request, attempt)
  (s.does (.returned request torrent)).goes request .ended

/-- What a request that ends without a result leaves behind. -/
def abandon (s : Service) (request : Nat) : Service :=
  match s.requests request with
  | .adding _ attempt | .selecting _ attempt _ | .waiting _ attempt _ | .completing _ (some attempt) =>
    (s.dropLease (request, attempt)).goes request .ended
  | .idle | .ended => s
  | .finding _ | .findingReady _ | .reusing _ _ | .cleaningUp _ _ _ | .completing _ none =>
    s.goes request .ended

def step (s : Service) : Event → Service
  | .start request infoHash =>
    if s.requests request = .idle then
      if infoHash = [] then s.addMagnet request infoHash 0 else s.goes request (.finding infoHash)
    else s
  | .cachedRead request failed =>
    match s.requests request with
    | .finding infoHash =>
      if failed then s.addMagnet request infoHash 0
      else
        match s.cache infoHash with
        | some torrent => s.findReusable request infoHash (some torrent)
        | none => s.goes request (.findingReady infoHash)
    | _ => s
  | .readyRead request failed =>
    match s.requests request with
    | .findingReady infoHash =>
      let torrent := if failed then none else s.ready.bind (List.lookup infoHash)
      (torrent.elim s fun torrent => s.setCached infoHash (some torrent)).findReusable request infoHash torrent
    | _ => s
  | .reuse request resolved =>
    match s.requests request with
    | .reusing infoHash torrent =>
      if resolved then (s.setCached infoHash (some torrent)).goes request (.completing torrent none)
      else (s.setCached infoHash none).addMagnet request infoHash 0
    | _ => s
  | .posted task created answered =>
    match s.tasks task with
    | .posting infoHash wanted => s.posted task infoHash wanted created answered
    | _ => s
  | .added request =>
    match s.requests request with
    | .adding infoHash attempt =>
      match s.tasks (request, attempt) with
      | .deciding _ torrent => s.goes request (.selecting infoHash attempt torrent)
      | .ended => s.goes request .ended
      | .idle | .posting _ _ | .cleaningUp _ _ => s
    | _ => s
  | .info request found =>
    match s.requests request with
    | .selecting infoHash attempt torrent =>
      if found then (s.does (.selected request torrent)).goes request (.waiting infoHash attempt torrent)
      else s.cleanup request infoHash attempt false
    | _ => s
  | .resolve request resolution =>
    match s.requests request with
    | .waiting infoHash attempt torrent =>
      match resolution with
      | .resolved => (s.setCached infoHash (some torrent)).goes request (.completing torrent (some attempt))
      | .selectedFileMismatch => s.cleanup request infoHash attempt (attempt == 0)
      | .failed => s.cleanup request infoHash attempt false
    | _ => s
  | .delete task succeeds =>
    match s.tasks task with
    | .cleaningUp infoHash torrent =>
      let s := if succeeds then s.does (.deleted task torrent) else s
      (s.setCached infoHash none).becomes task .ended
    | _ => s
  | .cleaned request =>
    match s.requests request with
    | .cleaningUp infoHash attempt retry =>
      if s.tasks (request, attempt) = .ended then
        if retry then s.addMagnet request infoHash (attempt + 1) else s.goes request .ended
      else s
    | _ => s
  | .complete request succeeds =>
    match s.requests request with
    | .completing torrent attempt => if succeeds then s.complete request torrent attempt else s.abandon request
    | _ => s
  | .cancel request => s.abandon request
  | .remember infoHash torrent => (s.sees torrent.toList).setCached infoHash torrent
  | .refreshed ready => { s.sees ((ready.getD []).map Prod.snd) with ready := ready }

/-- What a task created is committed or deleted when it ends, what is committed is never
deleted, a request neither selects nor deletes what it reuses, and what a payload was resolved
from is not deleted after it. -/
structure Custody (tasks : TaskId → Task) (acts : List Act) : Prop where
  ended : ∀ task torrent, .created task torrent ∈ acts → tasks task = .ended →
    .committed task torrent ∈ acts ∨ .deleted task torrent ∈ acts
  committed : ∀ task other torrent, .committed task torrent ∈ acts → .deleted other torrent ∉ acts
  reused : ∀ request torrent, .reused request torrent ∈ acts →
    .selected request torrent ∉ acts ∧ ∀ attempt, .deleted (request, attempt) torrent ∉ acts
  returned : acts.Pairwise fun late early => ∀ task request torrent, late = .deleted task torrent →
    early ≠ .returned request torrent

def Owned (s : Service) : Prop :=
  Custody s.tasks s.acts

/-- A torrent whose task has not decided yet, or is deleting it. -/
def Undecided (s : Service) (torrent : Torrent) : Prop :=
  ∃ task infoHash, s.tasks task = .deciding infoHash torrent ∨ s.tasks task = .cleaningUp infoHash torrent

/-- The provider answers every call that created a torrent, with a new id, and every deletion
succeeds; and no request finds a torrent to reuse that is undecided. -/
def Settled (s : Service) : Event → Prop
  | .posted _ created answered => ∀ torrent, created = some torrent →
      answered = true ∧ torrent ≠ [] ∧ torrent ∉ s.seen
  | .delete _ succeeds => succeeds = true
  | .cachedRead request _ => ∀ infoHash torrent, s.requests request = .finding infoHash →
      s.cache infoHash = some torrent → ¬ s.Undecided torrent
  | .readyRead request _ => ∀ infoHash torrent, s.requests request = .findingReady infoHash →
      s.ready.bind (List.lookup infoHash) = some torrent → ¬ s.Undecided torrent
  | _ => True


/-! What a task and a request between two awaits know. -/

/-- An undecided torrent is the one its task created, and was at most selected. -/
def TaskFits (acts : List Act) (task : TaskId) : Task → Prop
  | .idle | .posting _ _ => ∀ torrent, .created task torrent ∉ acts ∧ .deleted task torrent ∉ acts
  | .deciding _ torrent | .cleaningUp _ torrent =>
    (∀ other, .created task other ∈ acts ↔ other = torrent) ∧
      ∀ act ∈ acts, act.torrent = torrent → act = .created task torrent ∨ act = .selected task.1 torrent
  | .ended => True

/-- Nothing was added for the request from this attempt on. -/
def Unadded (tasks : TaskId → Task) (request attempt : Nat) : Prop :=
  ∀ later, attempt ≤ later → tasks (request, later) = .idle

def Untouched (tasks : TaskId → Task) (acts : List Act) (request : Nat) : Prop :=
  Unadded tasks request 0 ∧ ∀ torrent, .selected request torrent ∉ acts

def Leased (tasks : TaskId → Task) (request attempt : Nat) (torrent : Torrent) : Prop :=
  ∃ infoHash, tasks (request, attempt) = .deciding infoHash torrent

def PhaseFits (tasks : TaskId → Task) (acts : List Act) (request : Nat) : Phase → Prop
  | .idle | .finding _ | .findingReady _ => Untouched tasks acts request
  | .reusing _ torrent => Untouched tasks acts request ∧ .reused request torrent ∈ acts
  | .adding _ attempt | .cleaningUp _ attempt _ => Unadded tasks request (attempt + 1)
  | .selecting _ attempt torrent | .waiting _ attempt torrent =>
    Unadded tasks request (attempt + 1) ∧ Leased tasks request attempt torrent
  | .completing torrent (some attempt) => Leased tasks request attempt torrent
  | .completing torrent none => .reused request torrent ∈ acts
  | .ended => True

structure Sound (s : Service) : Prop where
  owned : s.Owned
  seen : ∀ act ∈ s.acts, act.torrent ∈ s.seen
  cache : ∀ infoHash torrent, s.cache infoHash = some torrent → torrent ∈ s.seen
  ready : ∀ torrents, s.ready = some torrents → ∀ entry ∈ torrents, entry.2 ∈ s.seen
  tasks : ∀ task, TaskFits s.acts task (s.tasks task)
  requests : ∀ request, PhaseFits s.tasks s.acts request (s.requests request)

variable {s : Service}

attribute [local simp] step PhaseFits Settled

theorem sound_initial : initial.Sound where
  owned := ⟨fun _ _ h => (by cases h), fun _ _ _ h => (by cases h), fun _ _ h => (by cases h), .nil⟩
  seen _ h := by cases h
  cache _ _ h := by cases h
  ready _ h := by cases h
  tasks _ _ := ⟨List.not_mem_nil, List.not_mem_nil⟩
  requests _ := ⟨fun _ _ => rfl, fun _ => List.not_mem_nil⟩

section frames
variable {tasks tasks' : TaskId → Task} {acts : List Act} {act : Act} {request : Nat} {task : TaskId}

/-- A task that is not this request's, or that it holds no lease of, may move on. -/
def Keeps (tasks tasks' : TaskId → Task) (request : Nat) : Prop :=
  ∀ attempt, tasks' (request, attempt) = tasks (request, attempt) ∨
    tasks (request, attempt) ≠ .idle ∧ ∀ infoHash torrent, tasks (request, attempt) ≠ .deciding infoHash torrent

theorem Unadded.keeps {attempt : Nat} (h : Unadded tasks request attempt)
    (hkeeps : Keeps tasks tasks' request) : Unadded tasks' request attempt := by
  intro later hlater
  obtain hsame | ⟨hstarted, -⟩ := hkeeps later
  · exact hsame.trans (h later hlater)
  · exact absurd (h later hlater) hstarted

theorem Leased.keeps {attempt : Nat} {torrent : Torrent} (h : Leased tasks request attempt torrent)
    (hkeeps : Keeps tasks tasks' request) : Leased tasks' request attempt torrent := by
  obtain ⟨infoHash, h⟩ := h
  obtain hsame | ⟨-, hunleased⟩ := hkeeps attempt
  · exact ⟨infoHash, hsame.trans h⟩
  · exact absurd h (hunleased infoHash torrent)

theorem PhaseFits.keeps {acts' : List Act} {phase : Phase} (h : PhaseFits tasks acts request phase)
    (hkeeps : Keeps tasks tasks' request) (hacts : acts ⊆ acts')
    (hselected : ∀ torrent, .selected request torrent ∈ acts' → .selected request torrent ∈ acts) :
    PhaseFits tasks' acts' request phase := by
  have huntouched (h : Untouched tasks acts request) : Untouched tasks' acts' request :=
    ⟨h.1.keeps hkeeps, fun torrent hmem => h.2 torrent (hselected torrent hmem)⟩
  cases phase with
  | idle | finding _ | findingReady _ => exact huntouched h
  | reusing _ _ => exact ⟨huntouched h.1, hacts h.2⟩
  | adding _ _ | cleaningUp _ _ _ => exact Unadded.keeps h hkeeps
  | selecting _ _ _ | waiting _ _ _ => exact ⟨h.1.keeps hkeeps, h.2.keeps hkeeps⟩
  | completing _ attempt =>
    cases attempt with
    | none => exact hacts h
    | some _ => exact Leased.keeps h hkeeps
  | ended => trivial

/-- An act that is not one of this task leaves it as it was, if its torrent is not this task's. -/
theorem TaskFits.cons {state : Task} (h : TaskFits acts task state)
    (hcreated : ∀ torrent, act ≠ .created task torrent) (hdeleted : ∀ torrent, act ≠ .deleted task torrent)
    (hact : ∀ infoHash torrent, state = .deciding infoHash torrent ∨ state = .cleaningUp infoHash torrent →
      act.torrent = torrent → act = .selected task.1 torrent) : TaskFits (act :: acts) task state := by
  cases state with
  | idle | posting _ _ =>
    intro torrent
    constructor
    · exact List.not_mem_cons_of_ne_of_not_mem (hcreated torrent).symm (h torrent).1
    · exact List.not_mem_cons_of_ne_of_not_mem (hdeleted torrent).symm (h torrent).2
  | deciding infoHash torrent | cleaningUp infoHash torrent =>
    constructor
    · intro other
      rw [List.mem_cons, or_iff_right (hcreated other).symm]
      exact h.1 other
    · intro other hother htorrent
      obtain rfl | hold := List.mem_cons.mp hother
      · exact .inr (hact infoHash torrent (by simp) htorrent)
      · exact h.2 other hold htorrent
  | ended => trivial

end frames

section setCached
variable {infoHash : Text} {torrent : Option Torrent}

@[simp] theorem setCached_tasks : (s.setCached infoHash torrent).tasks = s.tasks := by
  rw [setCached]
  split <;> rfl

@[simp] theorem setCached_acts : (s.setCached infoHash torrent).acts = s.acts := by
  rw [setCached]
  split <;> rfl

@[simp] theorem setCached_seen : (s.setCached infoHash torrent).seen = s.seen := by
  rw [setCached]
  split <;> rfl

end setCached

theorem Sound.setCached (h : s.Sound) (infoHash : Text) (torrent : Option Torrent)
    (hseen : ∀ t, torrent = some t → t ∈ s.seen) : (s.setCached infoHash torrent).Sound := by
  rw [Service.setCached]
  split
  next => exact h
  next =>
    refine { h with cache := fun other t hcache => ?_ }
    have hnew : Function.update s.cache infoHash torrent other = some t := hcache
    by_cases he : other = infoHash
    · subst he
      rw [Function.update_self] at hnew
      exact hseen t hnew
    · rw [Function.update_of_ne he] at hnew
      exact h.cache other t hnew

theorem Sound.sees (h : s.Sound) (torrents : List Torrent) : (s.sees torrents).Sound where
  owned := h.owned
  seen act hact := List.mem_append_right _ (h.seen act hact)
  cache infoHash torrent hcache := List.mem_append_right _ (h.cache infoHash torrent hcache)
  ready list hready entry hentry := List.mem_append_right _ (h.ready list hready entry hentry)
  tasks := h.tasks
  requests := h.requests

theorem Sound.goes {request : Nat} {phase : Phase} (h : s.Sound)
    (hfits : PhaseFits s.tasks s.acts request phase) : (s.goes request phase).Sound := by
  refine { h with requests := fun other => ?_ }
  by_cases he : other = request
  · subst he
    have hphase : (s.goes other phase).requests other = phase := Function.update_self ..
    rw [hphase]
    exact hfits
  · have hphase : (s.goes request phase).requests other = s.requests other := Function.update_of_ne he ..
    rw [hphase]
    exact h.requests other

/-- One task moves on, its request with it, and what they did is recorded. -/
theorem Sound.moves (h : s.Sound) (task : TaskId) (state : Task) (phase : Phase) (acts : List Act)
    (howned : Custody (Function.update s.tasks task state) acts)
    (hseen : ∀ act ∈ acts, act.torrent ∈ s.seen) (hacts : s.acts ⊆ acts)
    (hselected : ∀ request ≠ task.1, ∀ torrent, .selected request torrent ∈ acts →
      .selected request torrent ∈ s.acts)
    (hstate : TaskFits acts task state) (hothers : ∀ other ≠ task, TaskFits acts other (s.tasks other))
    (hphase : PhaseFits (Function.update s.tasks task state) acts task.1 phase) :
    ({ s with
      tasks := Function.update s.tasks task state
      acts := acts
      requests := Function.update s.requests task.1 phase } : Service).Sound where
  owned := howned
  seen := hseen
  cache := h.cache
  ready := h.ready
  tasks other := by
    by_cases he : other = task
    · subst he
      simpa only [Function.update_self] using hstate
    · simpa only [Function.update_of_ne he] using hothers other he
  requests request := by
    by_cases he : request = task.1
    · subst he
      simpa only [Function.update_self] using hphase
    · have hkeeps : Keeps s.tasks (Function.update s.tasks task state) request := fun attempt =>
        .inl (Function.update_of_ne (fun heq => he (congrArg Prod.fst heq)) ..)
      simpa only [Function.update_of_ne he] using (h.requests request).keeps hkeeps hacts (hselected request he)

/-- A task that has ended keeps what it created and nothing more is asked of the others. -/
theorem Custody.becomes {tasks : TaskId → Task} {acts : List Act} {task : TaskId} {state : Task}
    (h : Custody tasks acts) (hended : state = .ended → ∀ torrent, .created task torrent ∈ acts →
      .committed task torrent ∈ acts ∨ .deleted task torrent ∈ acts) :
    Custody (Function.update tasks task state) acts where
  ended other torrent hcreated hother := by
    by_cases he : other = task
    · subst he
      rw [Function.update_self] at hother
      exact hended hother torrent hcreated
    · rw [Function.update_of_ne he] at hother
      exact h.ended other torrent hcreated hother
  committed := h.committed
  reused := h.reused
  returned := h.returned

/-- What an act must respect when it is recorded. -/
def Respects (tasks : TaskId → Task) (acts : List Act) : Act → Prop
  | .created task _ => tasks task ≠ .ended
  | .selected request torrent => .reused request torrent ∉ acts
  | .reused request torrent =>
    .selected request torrent ∉ acts ∧ ∀ attempt, .deleted (request, attempt) torrent ∉ acts
  | .committed _ torrent => ∀ other, .deleted other torrent ∉ acts
  | .deleted task torrent =>
    ∀ act ∈ acts, act.torrent = torrent → act = .created task torrent ∨ act = .selected task.1 torrent
  | .returned _ _ => True

theorem Custody.cons {tasks : TaskId → Task} {acts : List Act} (h : Custody tasks acts) (act : Act)
    (hact : Respects tasks acts act) : Custody tasks (act :: acts) where
  ended task torrent hcreated hended := by
    obtain rfl | hold := List.mem_cons.mp hcreated
    · exact absurd hended hact
    · exact (h.ended task torrent hold hended).imp (.tail _) (.tail _)
  committed task other torrent hcommitted hdeleted := by
    obtain rfl | hcommitted' := List.mem_cons.mp hcommitted
    · exact hact other ((List.mem_cons.mp hdeleted).resolve_left Act.noConfusion)
    · obtain rfl | hdeleted' := List.mem_cons.mp hdeleted
      · obtain heq | heq := hact _ hcommitted' rfl <;> cases heq
      · exact h.committed task other torrent hcommitted' hdeleted'
  reused request torrent hreused := by
    obtain rfl | hreused' := List.mem_cons.mp hreused
    · exact ⟨List.not_mem_cons_of_ne_of_not_mem Act.noConfusion hact.1,
        fun attempt => List.not_mem_cons_of_ne_of_not_mem Act.noConfusion (hact.2 attempt)⟩
    · obtain ⟨hselected, hdeleted⟩ := h.reused request torrent hreused'
      refine ⟨fun hmem => ?_, fun attempt hmem => ?_⟩
      · obtain rfl | hmem' := List.mem_cons.mp hmem
        · exact hact hreused'
        · exact hselected hmem'
      · obtain rfl | hmem' := List.mem_cons.mp hmem
        · obtain heq | heq := hact _ hreused' rfl <;> cases heq
        · exact hdeleted attempt hmem'
  returned := by
    refine List.pairwise_cons.mpr ⟨fun early hearly task request torrent hlate heq => ?_, h.returned⟩
    subst hlate heq
    obtain heq | heq := hact _ hearly rfl <;> cases heq

theorem Sound.addMagnet {request attempt : Nat} {infoHash : Text} (h : s.Sound)
    (hunadded : Unadded s.tasks request attempt) : (s.addMagnet request infoHash attempt).Sound := by
  have hidle : s.tasks (request, attempt) = .idle := hunadded attempt (Nat.le_refl _)
  have hstate : TaskFits s.acts (request, attempt) (.posting infoHash true) := by
    have hfits := h.tasks (request, attempt)
    rw [hidle] at hfits
    exact hfits
  have hphase : PhaseFits (Function.update s.tasks (request, attempt) (.posting infoHash true)) s.acts request
      (.adding infoHash attempt) := by
    intro later hlater
    have hne : (request, later) ≠ (request, attempt) := fun heq => by
      cases heq
      omega
    rw [Function.update_of_ne hne]
    exact hunadded later (by omega)
  exact h.moves _ _ _ _ (h.owned.becomes Task.noConfusion) h.seen (fun _ => id) (fun _ _ _ => id) hstate
    (fun other _ => h.tasks other) hphase

/-- Dropping a lease makes its task clean up. -/
theorem Sound.dropLease {request attempt : Nat} {phase : Phase} (h : s.Sound)
    (hphase : ∀ tasks, (∀ later, attempt < later → tasks (request, later) = s.tasks (request, later)) →
      PhaseFits tasks s.acts request phase) : ((s.dropLease (request, attempt)).goes request phase).Sound := by
  have hupdate (state : Task) :
      PhaseFits (Function.update s.tasks (request, attempt) state) s.acts request phase := by
    refine hphase _ fun later hlater => Function.update_of_ne (fun heq => ?_) ..
    cases heq
    omega
  have hfits := h.tasks (request, attempt)
  rw [Service.dropLease]
  split
  next infoHash wanted htask =>
    rw [htask] at hfits
    have hstate : TaskFits s.acts (request, attempt) (.posting infoHash false) := hfits
    exact h.moves _ _ _ _ (h.owned.becomes Task.noConfusion) h.seen (fun _ => id) (fun _ _ _ => id) hstate
      (fun other _ => h.tasks other) (hupdate _)
  next infoHash torrent htask =>
    rw [htask] at hfits
    have hstate : TaskFits s.acts (request, attempt) (.cleaningUp infoHash torrent) := hfits
    exact h.moves _ _ _ _ (h.owned.becomes Task.noConfusion) h.seen (fun _ => id) (fun _ _ _ => id) hstate
      (fun other _ => h.tasks other) (hupdate _)
  all_goals exact h.goes (hphase s.tasks fun _ _ => rfl)

/-- An act on a torrent that no task has yet to decide on. -/
theorem Sound.does {request : Nat} {phase : Phase} (h : s.Sound) (act : Act) (hseen : act.torrent ∈ s.seen)
    (hundecided : ¬ s.Undecided act.torrent) (hrespects : Respects s.tasks s.acts act)
    (hact : act = .reused request act.torrent ∨ act = .returned request act.torrent)
    (hphase : PhaseFits s.tasks (act :: s.acts) request phase) : ((s.does act).goes request phase).Sound := by
  have htasks (task : TaskId) : TaskFits (act :: s.acts) task (s.tasks task) := by
    refine (h.tasks task).cons (fun torrent heq => ?_) (fun torrent heq => ?_) fun infoHash torrent hstate heq => ?_
    · obtain hact | hact := hact <;> cases heq.symm.trans hact
    · obtain hact | hact := hact <;> cases heq.symm.trans hact
    · exact absurd ⟨task, infoHash, heq ▸ hstate⟩ hundecided
  have hself : Function.update s.tasks (request, 0) (s.tasks (request, 0)) = s.tasks := Function.update_eq_self ..
  have hmoves := h.moves (request, 0) (s.tasks (request, 0)) phase (act :: s.acts) (hself.symm ▸ h.owned.cons act hrespects) (List.forall_mem_cons.mpr ⟨hseen, h.seen⟩)
    (List.subset_cons_self _ _) (fun _ _ torrent hmem => ?_) (htasks _) (fun other _ => htasks other)
    (hself.symm ▸ hphase)
  · rw [hself] at hmoves
    exact hmoves
  · obtain heq | hold := List.mem_cons.mp hmem
    · obtain hact | hact := hact <;> cases heq.trans hact
    · exact hold

/-- What an undecided torrent's task knows. -/
theorem Sound.undecided {task : TaskId} {infoHash torrent : Text} (h : s.Sound)
    (htask : s.tasks task = .deciding infoHash torrent ∨ s.tasks task = .cleaningUp infoHash torrent) :
    (∀ other, .created task other ∈ s.acts ↔ other = torrent) ∧
      ∀ act ∈ s.acts, act.torrent = torrent → act = .created task torrent ∨ act = .selected task.1 torrent := by
  have hfits := h.tasks task
  obtain htask | htask := htask <;> rw [htask] at hfits <;> exact hfits

/-- No two tasks have to decide on one torrent. -/
theorem Sound.undecided_unique {task other : TaskId} {infoHash infoHash' torrent : Text} (h : s.Sound)
    (hother : s.tasks other = .deciding infoHash torrent ∨ s.tasks other = .cleaningUp infoHash torrent)
    (htask : s.tasks task = .deciding infoHash' torrent ∨ s.tasks task = .cleaningUp infoHash' torrent) :
    other = task := by
  have hcreated := ((h.undecided hother).1 torrent).mpr rfl
  obtain heq | heq := (h.undecided htask).2 _ hcreated rfl <;> cases heq
  rfl

/-- A new torrent is in no act yet. -/
theorem Sound.posted {task : TaskId} {infoHash : Text} {wanted answered : Bool} {created : Option Torrent}
    (h : s.Sound) (htask : s.tasks task = .posting infoHash wanted)
    (hsettled : ∀ torrent, created = some torrent → answered = true ∧ torrent ≠ [] ∧ torrent ∉ s.seen) :
    (s.posted task infoHash wanted created answered).Sound := by
  have hfits := h.tasks task
  rw [htask] at hfits
  have hkeeps (state : Task) : Keeps s.tasks (Function.update s.tasks task state) task.1 := by
    intro attempt
    by_cases he : (task.1, attempt) = task
    · right
      rw [he, htask]
      exact ⟨Task.noConfusion, fun _ _ => Task.noConfusion⟩
    · exact .inl (Function.update_of_ne he ..)
  have hrequests : Function.update s.requests task.1 (s.requests task.1) = s.requests := Function.update_eq_self ..
  cases created with
  | none =>
    have hmoves := h.moves task .ended _ s.acts
      (h.owned.becomes fun _ torrent hcreated => absurd hcreated (hfits torrent).1)
      h.seen (fun _ => id) (fun _ _ _ => id) trivial (fun other _ => h.tasks other)
      ((h.requests task.1).keeps (hkeeps _) (fun _ => id) fun _ => id)
    rw [hrequests] at hmoves
    exact hmoves
  | some torrent =>
    obtain ⟨rfl, hne, hnew⟩ := hsettled torrent rfl
    have hfresh : ∀ act ∈ s.acts, act.torrent ≠ torrent := fun act hact heq => hnew (heq ▸ h.seen act hact)
    have hseen := h.sees [torrent]
    have hacts : ∀ act ∈ Act.created task torrent :: s.acts, act.torrent ∈ (s.sees [torrent]).seen :=
      List.forall_mem_cons.mpr ⟨List.mem_cons_self, hseen.seen⟩
    have hstate (state : Task) (hopen : state = .deciding infoHash torrent ∨ state = .cleaningUp infoHash torrent) :
        ((s.sees [torrent]).does (.created task torrent) |>.becomes task state).Sound := by
      have hundone : state ≠ .ended := by
        obtain rfl | rfl := hopen <;> exact Task.noConfusion
      have howned : Custody (Function.update s.tasks task state) (.created task torrent :: s.acts) := by
        refine (h.owned.becomes fun hended => absurd hended hundone).cons _ ?_
        rw [Respects, Function.update_self]
        exact hundone
      have hopened : TaskFits (.created task torrent :: s.acts) task state := by
        have hdecide : (∀ other, .created task other ∈ Act.created task torrent :: s.acts ↔ other = torrent) ∧
            ∀ act ∈ Act.created task torrent :: s.acts, act.torrent = torrent →
              act = .created task torrent ∨ act = .selected task.1 torrent := by
          constructor
          · intro other
            simp [(hfits other).1]
          · intro act hact heq
            obtain rfl | hold := List.mem_cons.mp hact
            · exact .inl rfl
            · exact absurd heq (hfresh act hold)
        obtain rfl | rfl := hopen <;> exact hdecide
      have hmoves := hseen.moves task state _ _ howned hacts (List.subset_cons_self _ _)
        (fun _ _ _ hmem => (List.mem_cons.mp hmem).resolve_left Act.noConfusion) hopened
        (fun other hother => (h.tasks other).cons (fun _ heq => hother (by cases heq; rfl))
          (fun _ => Act.noConfusion) fun hash t hopen heq => ?_)
        ((h.requests task.1).keeps (hkeeps _) (List.subset_cons_self _ _)
          fun _ hmem => (List.mem_cons.mp hmem).resolve_left Act.noConfusion)
      · have hsame : Function.update (s.sees [torrent]).requests task.1 (s.requests task.1) = s.requests := hrequests
        rw [hsame] at hmoves
        exact hmoves
      · exact absurd heq.symm (hfresh _ (((h.undecided hopen).1 t).mpr rfl))
    have hkept : ¬ (true = false ∨ torrent = []) := by simp [hne]
    rw [Service.posted]
    rw [if_neg hkept]
    cases wanted
    · exact hstate _ (.inr rfl)
    · exact hstate _ (.inl rfl)

/-- The owner of an undecided torrent acts on it, and nobody else has. -/
theorem Sound.undecided_does {task : TaskId} {infoHash torrent : Text} (h : s.Sound) (state : Task)
    (phase : Phase) (acts : List Act)
    (htask : s.tasks task = .deciding infoHash torrent ∨ s.tasks task = .cleaningUp infoHash torrent)
    (howned : Custody (Function.update s.tasks task state) (acts ++ s.acts))
    (hacts : ∀ act ∈ acts, act.torrent = torrent ∧ (∀ other t, act ≠ .created other t) ∧
      (∀ other t, act = .deleted other t → other = task) ∧ ∀ request t, act = .selected request t → request = task.1)
    (hstate : TaskFits (acts ++ s.acts) task state)
    (hphase : PhaseFits (Function.update s.tasks task state) (acts ++ s.acts) task.1 phase) :
    ({ s with
      tasks := Function.update s.tasks task state
      acts := acts ++ s.acts
      requests := Function.update s.requests task.1 phase } : Service).Sound := by
  have hcreated := ((h.undecided htask).1 torrent).mpr rfl
  refine h.moves task state phase _ howned (fun act hact => ?_) (List.subset_append_right _ _) (fun request hne t hmem => ?_) hstate
    (fun other hne => ?_) hphase
  · obtain hnew | hold := List.mem_append.mp hact
    · rw [(hacts act hnew).1]
      exact h.seen _ hcreated
    · exact h.seen act hold
  · exact (List.mem_append.mp hmem).resolve_left fun hnew => hne ((hacts _ hnew).2.2.2 request t rfl)
  · clear howned hstate hphase
    induction acts with
    | nil => exact h.tasks other
    | cons act acts ih =>
      obtain ⟨htorrent, hnew, hdeleted, -⟩ := hacts act List.mem_cons_self
      refine (ih fun act hact => hacts act (.tail _ hact)).cons (hnew other)
        (fun t heq => hne (hdeleted other t heq)) fun hash t hopen heq => ?_
      rw [htorrent] at heq
      subst heq
      exact absurd (h.undecided_unique hopen htask) hne

theorem Sound.select {request attempt : Nat} {infoHash torrent : Text} (h : s.Sound)
    (hunadded : Unadded s.tasks request (attempt + 1)) (hleased : Leased s.tasks request attempt torrent) :
    ((s.does (.selected request torrent)).goes request (.waiting infoHash attempt torrent)).Sound := by
  obtain ⟨hash, htask⟩ := hleased
  have hself : Function.update s.tasks (request, attempt) (.deciding hash torrent) = s.tasks := by
    rw [← htask]
    exact Function.update_eq_self ..
  have hundecided := h.undecided (.inl htask)
  have howned : Custody s.tasks (.selected request torrent :: s.acts) :=
    h.owned.cons _ fun hreused => by
      obtain heq | heq := hundecided.2 _ hreused rfl <;> cases heq
  have hstate : TaskFits (.selected request torrent :: s.acts) (request, attempt) (.deciding hash torrent) := by
    refine ⟨fun other => ?_, fun act hact heq => ?_⟩
    · rw [List.mem_cons, or_iff_right Act.noConfusion]
      exact hundecided.1 other
    · obtain rfl | hold := List.mem_cons.mp hact
      · exact .inr rfl
      · exact hundecided.2 act hold heq
  have hdoes := h.undecided_does _ (.waiting infoHash attempt torrent) [.selected request torrent] (.inl htask)
    (hself.symm ▸ howned)
    (fun act hact => by
      rw [List.mem_singleton.mp hact]
      exact ⟨rfl, fun _ _ => Act.noConfusion, fun _ _ h => (by cases h), fun _ _ h => (by cases h; rfl)⟩)
    hstate (hself.symm ▸ ⟨hunadded, hash, htask⟩)
  rw [hself] at hdoes
  exact hdoes

theorem Sound.delete {task : TaskId} {infoHash torrent : Text} (h : s.Sound)
    (htask : s.tasks task = .cleaningUp infoHash torrent) :
    ((s.does (.deleted task torrent)).becomes task .ended).Sound := by
  have hundecided := h.undecided (.inr htask)
  have howned : Custody (Function.update s.tasks task .ended) (.deleted task torrent :: s.acts) := by
    refine (h.owned.cons (.deleted task torrent) hundecided.2).becomes fun _ t hcreated => ?_
    rw [(hundecided.1 t).mp ((List.mem_cons.mp hcreated).resolve_left Act.noConfusion)]
    exact .inr List.mem_cons_self
  have hkeeps : Keeps s.tasks (Function.update s.tasks task .ended) task.1 := by
    intro attempt
    by_cases he : (task.1, attempt) = task
    · right
      rw [he, htask]
      exact ⟨Task.noConfusion, fun _ _ => Task.noConfusion⟩
    · exact .inl (Function.update_of_ne he ..)
  have hdoes := h.undecided_does .ended _ [.deleted task torrent] (.inr htask) howned
    (fun act hact => by
      rw [List.mem_singleton.mp hact]
      exact ⟨rfl, fun _ _ => Act.noConfusion, fun _ _ h => (by cases h; rfl), fun _ _ h => (by cases h)⟩)
    trivial
    ((h.requests task.1).keeps hkeeps (List.subset_cons_self _ _)
      fun _ hmem => (List.mem_cons.mp hmem).resolve_left Act.noConfusion)
  have hrequests : Function.update s.requests task.1 (s.requests task.1) = s.requests := Function.update_eq_self ..
  rw [hrequests] at hdoes
  exact hdoes

/-- A lease is committed and the payload returned. -/
theorem Sound.completeOwned {request attempt : Nat} {torrent : Torrent} (h : s.Sound)
    (hleased : Leased s.tasks request attempt torrent) :
    (s.complete request torrent (some attempt)).Sound := by
  obtain ⟨infoHash, htask⟩ := hleased
  have hundecided := h.undecided (.inl htask)
  have hfree : ∀ other, .deleted other torrent ∉ s.acts := fun other hdeleted => by
    obtain heq | heq := hundecided.2 _ hdeleted rfl <;> cases heq
  have howned : Custody (Function.update s.tasks (request, attempt) .ended)
      (.returned request torrent :: .committed (request, attempt) torrent :: s.acts) := by
    have hcommitted := h.owned.cons (.committed (request, attempt) torrent) hfree
    have hreturned := hcommitted.cons (.returned request torrent) trivial
    refine hreturned.becomes fun _ t hcreated => ?_
    have hold : .created (request, attempt) t ∈ s.acts := by simpa using hcreated
    rw [(hundecided.1 t).mp hold]
    exact .inl (.tail _ (.head _))
  have hdoes := h.undecided_does .ended .ended
    [.returned request torrent, .committed (request, attempt) torrent] (.inl htask) howned
    (fun act hact => by
      obtain rfl | rfl := List.mem_pair.mp hact
      all_goals exact ⟨rfl, fun _ _ => Act.noConfusion, fun _ _ h => (by cases h), fun _ _ h => (by cases h)⟩)
    trivial trivial
  have hcomplete : s.complete request torrent (some attempt) =
      ((((s.becomes (request, attempt) .ended).does (.committed (request, attempt) torrent)).does
        (.returned request torrent)).goes request .ended) := by
    simp only [Service.complete, Option.elim, Service.commit, htask]
  rw [hcomplete]
  exact hdoes

theorem Sound.not_undecided_of_reused {request : Nat} {torrent : Torrent} (h : s.Sound)
    (hreused : .reused request torrent ∈ s.acts) : ¬ s.Undecided torrent := by
  rintro ⟨task, infoHash, htask⟩
  obtain heq | heq := (h.undecided htask).2 _ hreused rfl <;> cases heq

theorem Sound.complete {request : Nat} {torrent : Torrent} {attempt : Option Nat} (h : s.Sound)
    (hphase : s.requests request = .completing torrent attempt) : (s.complete request torrent attempt).Sound := by
  have hfits := h.requests request
  rw [hphase] at hfits
  cases attempt with
  | some attempt => exact h.completeOwned hfits
  | none =>
    have hreused : .reused request torrent ∈ s.acts := hfits
    have hseen : torrent ∈ s.seen := h.seen _ hreused
    exact h.does (.returned request torrent) hseen (h.not_undecided_of_reused hreused) trivial (.inr rfl) trivial

theorem Sound.findReusable {request : Nat} {infoHash : Text} {torrent : Option Torrent} (h : s.Sound)
    (huntouched : Untouched s.tasks s.acts request) (hseen : ∀ t, torrent = some t → t ∈ s.seen)
    (hundecided : ∀ t, torrent = some t → ¬ s.Undecided t) : (s.findReusable request infoHash torrent).Sound := by
  cases torrent with
  | none => exact h.addMagnet huntouched.1
  | some torrent =>
    have hdeleted (attempt : Nat) : .deleted (request, attempt) torrent ∉ s.acts := by
      have hfits := h.tasks (request, attempt)
      rw [huntouched.1 attempt (Nat.zero_le _)] at hfits
      exact (hfits torrent).2
    refine h.does (.reused request torrent) (hseen torrent rfl) (hundecided torrent rfl)
      ⟨huntouched.2 torrent, hdeleted⟩ (.inl rfl) ⟨⟨huntouched.1, fun t => ?_⟩, List.mem_cons_self⟩
    exact List.not_mem_cons_of_ne_of_not_mem Act.noConfusion (huntouched.2 t)

theorem Sound.abandon (h : s.Sound) (request : Nat) : (s.abandon request).Sound := by
  rw [Service.abandon]
  split
  all_goals first
    | exact h
    | exact h.dropLease fun _ _ => trivial
    | exact h.goes trivial

theorem Sound.cleanup {request attempt : Nat} {infoHash : Text} {retry : Bool} (h : s.Sound)
    (hunadded : Unadded s.tasks request (attempt + 1)) : (s.cleanup request infoHash attempt retry).Sound :=
  h.dropLease fun _ hsame later hlater => (hsame later hlater).trans (hunadded later hlater)

theorem Sound.step {event : Event} (hsettled : s.Settled event) (h : s.Sound) : (s.step event).Sound := by
  cases event with
  | start request infoHash =>
    rw [Service.step]
    split
    next hidle =>
      have hfits := h.requests request
      rw [hidle] at hfits
      split
      next => exact h.addMagnet hfits.1
      next => exact h.goes hfits
    next => exact h
  | cachedRead request failed =>
    rw [Service.step]
    split
    next infoHash hphase =>
      have hfits := h.requests request
      rw [hphase] at hfits
      split
      next => exact h.addMagnet hfits.1
      next =>
        split
        next torrent hcache =>
          refine h.findReusable hfits (fun t ht => ?_) fun t ht => ?_
          · cases ht
            exact h.cache infoHash torrent hcache
          · cases ht
            exact hsettled infoHash torrent hphase hcache
        next => exact h.goes hfits
    next => exact h
  | readyRead request failed =>
    rw [Service.step]
    split
    next infoHash hphase =>
      have hfits := h.requests request
      rw [hphase] at hfits
      cases failed with
      | true => exact h.addMagnet hfits.1
      | false =>
        cases hready : s.ready.bind (List.lookup infoHash) with
        | none =>
          rw [if_neg Bool.false_ne_true]
          exact h.addMagnet hfits.1
        | some torrent =>
          rw [if_neg Bool.false_ne_true]
          obtain ⟨torrents, hlist, hlookup⟩ := Option.bind_eq_some_iff.mp hready
          obtain ⟨before, after, heq, -⟩ := List.lookup_eq_some_iff.mp hlookup
          have hseen : torrent ∈ s.seen := h.ready torrents hlist (infoHash, torrent) (by rw [heq]; simp)
          have hundecided := hsettled infoHash torrent hphase hready
          have hset := h.setCached infoHash (some torrent) fun t ht => by
            cases ht
            exact hseen
          refine hset.findReusable ?_ (fun t ht => ?_) fun t ht => ?_
          · rw [setCached_tasks, setCached_acts]
            exact hfits
          · cases ht
            rw [setCached_seen]
            exact hseen
          · cases ht
            rw [Undecided, setCached_tasks]
            exact hundecided
    next => exact h
  | reuse request resolved =>
    rw [Service.step]
    split
    next infoHash torrent hphase =>
      have hfits := h.requests request
      rw [hphase] at hfits
      obtain ⟨huntouched, hreused⟩ := hfits
      split
      next =>
        have hset := h.setCached infoHash (some torrent) fun t ht => by
          cases ht
          exact h.seen _ hreused
        refine hset.goes ?_
        rw [setCached_tasks, setCached_acts]
        exact hreused
      next =>
        have hset := h.setCached infoHash none fun _ ht => by cases ht
        refine hset.addMagnet ?_
        rw [setCached_tasks]
        exact huntouched.1
    next => exact h
  | posted task created answered =>
    rw [Service.step]
    split
    next infoHash wanted htask => exact h.posted htask hsettled
    next => exact h
  | added request =>
    rw [Service.step]
    split
    next infoHash attempt hphase =>
      have hfits := h.requests request
      rw [hphase] at hfits
      split
      next hash torrent htask => exact h.goes ⟨hfits, hash, htask⟩
      next => exact h.goes trivial
      all_goals exact h
    next => exact h
  | info request found =>
    rw [Service.step]
    split
    next infoHash attempt torrent hphase =>
      have hfits := h.requests request
      rw [hphase] at hfits
      split
      next => exact h.select hfits.1 hfits.2
      next => exact h.cleanup hfits.1
    next => exact h
  | resolve request resolution =>
    rw [Service.step]
    split
    next infoHash attempt torrent hphase =>
      have hfits := h.requests request
      rw [hphase] at hfits
      obtain ⟨hunadded, hash, htask⟩ := hfits
      cases resolution with
      | resolved =>
        have hcreated := ((h.undecided (.inl htask)).1 torrent).mpr rfl
        have hset := h.setCached infoHash (some torrent) fun t ht => by
          cases ht
          exact h.seen _ hcreated
        refine hset.goes ?_
        rw [setCached_tasks]
        exact ⟨hash, htask⟩
      | selectedFileMismatch | failed => exact h.cleanup hunadded
    next => exact h
  | delete task succeeds =>
    rw [Service.step]
    split
    next infoHash torrent htask =>
      have hsucceeds : succeeds = true := hsettled
      rw [if_pos hsucceeds]
      have hdeleted := (h.delete htask).setCached infoHash none
        fun _ ht => by cases ht
      have hcomm : ((s.does (.deleted task torrent)).becomes task .ended).setCached infoHash none =
          ((s.does (.deleted task torrent)).setCached infoHash none).becomes task .ended := by
        rw [Service.setCached, Service.setCached]
        split <;> rfl
      rw [hcomm] at hdeleted
      exact hdeleted
    next => exact h
  | cleaned request =>
    rw [Service.step]
    split
    next infoHash attempt retry hphase =>
      have hfits := h.requests request
      rw [hphase] at hfits
      split
      next =>
        split
        next => exact h.addMagnet hfits
        next => exact h.goes trivial
      next => exact h
    next => exact h
  | complete request succeeds =>
    rw [Service.step]
    split
    next torrent attempt hphase =>
      split
      next => exact h.complete hphase
      next => exact h.abandon request
    next => exact h
  | cancel request => exact h.abandon request
  | remember infoHash torrent =>
    refine (h.sees torrent.toList).setCached infoHash torrent fun t ht => ?_
    rw [ht]
    exact List.mem_cons_self
  | refreshed ready =>
    have hseen := h.sees ((ready.getD []).map Prod.snd)
    refine { hseen with ready := fun torrents hready entry hentry => ?_ }
    have hlist : ready = some torrents := hready
    subst hlist
    exact List.mem_append_left _ (List.mem_map_of_mem hentry)

end Service

/-- In every run in which the provider answers and deletes what it is asked to, and no request
finds a torrent that another has yet to decide on, torrents are kept by their owners. -/
theorem torrents_owned (events : List Event) (hsettled : Each Service.step Service.Settled .initial events) :
    Throughout Service.step Service.Owned .initial events :=
  (throughout_of_each (fun _ _ hevent hsound => Service.Sound.step hevent hsound) Service.sound_initial hsettled).imp
    fun _ hsound => hsound.owned

/-- A torrent of the account is reused, one is added and committed, and one is added for a
caller that is gone. -/
theorem torrents_owned_reused :
    Throughout Service.step Service.Owned .initial
      [.remember ['a'] (some ['9']), .start 1 ['a'], .cachedRead 1 false, .reuse 1 true, .complete 1 true,
        .start 0 ['b'], .cachedRead 0 false, .readyRead 0 false, .posted (0, 0) (some ['1']) true, .added 0,
        .info 0 true, .resolve 0 .resolved, .complete 0 true, .start 2 ['c'], .cachedRead 2 true, .cancel 2,
        .posted (2, 0) (some ['2']) true, .delete (2, 0) true] := by
  refine torrents_owned _ ⟨trivial, trivial, ?_, trivial, trivial, trivial, ?_, ?_, ?_, trivial, trivial, trivial,
    trivial, trivial, ?_, trivial, ?_, rfl, trivial⟩
  · rintro infoHash torrent - - ⟨task, hash, htask⟩
    obtain htask | htask := htask <;> cases htask
  · intro infoHash torrent hphase hcache
    cases hphase
    cases hcache
  · intro infoHash torrent hphase hready
    cases hready
  · intro torrent ht
    cases ht
    exact ⟨rfl, by decide, by decide⟩
  · intro infoHash torrent hphase hcache
    cases hphase
    cases hcache
  · intro torrent ht
    cases ht
    exact ⟨rfl, by decide, by decide⟩

/-- The second request reuses the torrent of the first and returns a payload; then the first
is cancelled. -/
theorem reused_torrent_deleted :
    ¬ Throughout Service.step Service.Owned .initial
      [.start 0 ['a'], .cachedRead 0 false, .readyRead 0 false, .posted (0, 0) (some ['1']) true, .added 0,
        .info 0 true, .resolve 0 .resolved, .start 1 ['a'], .cachedRead 1 false, .reuse 1 true, .complete 1 true,
        .cancel 0, .delete (0, 0) true] := by
  intro h
  exact (List.pairwise_cons.mp h.last.returned).1 (.returned 1 ['1']) (.head _) (0, 0) 1 ['1'] rfl rfl

end StreamArena.Resolver.TorrentLeases
