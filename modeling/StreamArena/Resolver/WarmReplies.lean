import StreamArena.Resolver.WarmOwners

/-! The requests and the replies of the warm pool, and the pool over every run. -/
namespace StreamArena.Resolver.WarmWorkers
open AsciiText Runs Counting

section run
variable {ρ : Type*}

namespace Pool
variable {parse : List UInt8 → Option (Reply ρ)} {s : Pool ρ} {j k w : Nat} {slot : Slot} {job : Job ρ} {worker : Worker}
  {stage : Stage ρ} {answer : Option (Answer ρ)}

/-- A worker is sent one request after the other, and answers what it has read. -/
structure Fair (parse : List UInt8 → Option (Reply ρ)) (worker : Worker) : Prop where
  bounded : ∀ request ∈ worker.sent, request.id ≤ worker.requestId
  distinct : ∀ request ∈ worker.sent, ∀ request' ∈ worker.sent, request.id = request'.id → request = request'
  unread : ∀ request ∈ worker.unread, request ∈ worker.sent
  read : ∀ request ∈ worker.read, request ∈ worker.sent
  answers : ∀ line ∈ worker.written, (parse line.bytes).isSome → line.answers ∈ worker.read
  output : ∀ line ∈ worker.output, line ∈ worker.written

/-- A whole line that a worker wrote, within the bound, is a reply with a result under the number of the request.
It answers the request, or else an earlier one that the worker had read. -/
structure Answers (parse : List UInt8 → Option (Reply ρ)) (worker : Worker) (request : Request) (line : Line) (result : ρ) : Prop where
  sent : request ∈ worker.sent
  written : line ∈ worker.written
  complete : line.bytes.length + 1 ≤ maxReplyBytes
  reply : ∃ retire, parse line.bytes = some ⟨request.id, true, some result, retire⟩
  read : line.answers ∈ worker.read
  answers : line.answers = request ∨ line.answers.id < request.id

/-- What a worker has seen and written only grows. -/
structure Grows (worker worker' : Worker) : Prop where
  sent : ∀ request ∈ worker.sent, request ∈ worker'.sent
  read : ∀ request ∈ worker.read, request ∈ worker'.read
  written : ∀ line ∈ worker.written, line ∈ worker'.written

theorem Answers.grows {worker' : Worker} {request : Request} {line : Line} {result : ρ} (h : Answers parse worker request line result)
    (hgrows : Grows worker worker') : Answers parse worker' request line result :=
  ⟨hgrows.sent _ h.sent, hgrows.written _ h.written, h.complete, h.reply, hgrows.read _ h.read, h.answers⟩

/-- What the call accepts answers its request, which is the last that the worker was sent. -/
theorem Fair.answers_of_accepted {request : Request} {line : Line} {result : ρ} {retire : Bool} (h : Fair parse worker)
    (hsent : request ∈ worker.sent) (hlast : request.id = worker.requestId) (hline : line ∈ worker.written)
    (haccepted : accepted parse worker.requestId line = some (result, retire)) : Answers parse worker request line result := by
  unfold accepted at haccepted
  split at haccepted
  · contradiction
  · rename_i hbound
    split at haccepted
    · contradiction
    · rename_i reply hparse
      split at haccepted
      · contradiction
      · rename_i hreply
        obtain ⟨id, ok, result', retire'⟩ := reply
        simp only [ne_eq, not_or, Decidable.not_not, Bool.not_eq_false] at hreply
        rw [Option.map_eq_some_iff] at haccepted
        obtain ⟨found, hfound, hpair⟩ := haccepted
        rw [Prod.mk.injEq] at hpair
        have hread := h.answers line hline (by rw [hparse]; rfl)
        refine ⟨hsent, hline, by omega, ⟨retire', ?_⟩, hread, ?_⟩
        · have hresult : result' = some result := hfound.trans (congrArg some hpair.1)
          rw [hparse, hlast, ← hreply.1, hreply.2, hresult]
        · have hearlier := h.bounded _ (h.read _ hread)
          obtain hlater | heq := lt_or_eq_of_le (hlast ▸ hearlier)
          · exact .inr hlater
          · exact .inl (h.distinct _ (h.read _ hread) _ hsent heq)

/-- Where a call is, what holds of it. -/
structure Placed (parse : List UInt8 → Option (Reply ρ)) (s : Pool ρ) (j : Nat) : Prop where
  reading : ∀ request, (s.jobs j).stage = .reading request → request.watchUrl = (s.jobs j).watchUrl ∧ request.server = (s.jobs j).server ∧
    ∃ w, (s.jobs j).worker = some w ∧ request ∈ (s.workers w).sent ∧ request.id = (s.workers w).requestId
  returning : ∀ answer, (s.jobs j).stage = .returning answer →
    (s.jobs j).worker = some answer.worker ∧ answer.request.id = (s.workers answer.worker).requestId
  answer : ∀ answer, (s.jobs j).stage.answer = some answer →
    answer.request.watchUrl = (s.jobs j).watchUrl ∧ answer.request.server = (s.jobs j).server ∧
      Answers parse (s.workers answer.worker) answer.request answer.line answer.result

theorem Placed.congr {s' : Pool ρ} (h : Placed parse s k) (hjob : s'.jobs k = s.jobs k)
    (hown : ∀ w, (s.jobs k).worker = some w →
      (s'.workers w).sent = (s.workers w).sent ∧ (s'.workers w).requestId = (s.workers w).requestId)
    (hgrows : ∀ w, Grows (s.workers w) (s'.workers w)) : Placed parse s' k := by
  refine ⟨fun request hstage => ?_, fun answer hstage => ?_, fun answer hstage => ?_⟩
  · rw [hjob] at hstage ⊢
    obtain ⟨hurl, hserver, w, hw, hsent, hid⟩ := h.reading request hstage
    rw [← (hown w hw).1] at hsent
    rw [← (hown w hw).2] at hid
    exact ⟨hurl, hserver, w, hw, hsent, hid⟩
  · rw [hjob] at hstage ⊢
    obtain ⟨hw, hid⟩ := h.returning answer hstage
    rw [← (hown _ hw).2] at hid
    exact ⟨hw, hid⟩
  · rw [hjob] at hstage ⊢
    obtain ⟨hurl, hserver, hanswers⟩ := h.answer answer hstage
    exact ⟨hurl, hserver, hanswers.grows (hgrows _)⟩

theorem grows_refl (worker : Worker) : Grows worker worker := ⟨fun _ => id, fun _ => id, fun _ => id⟩

/-- A worker in the queue has answered the last request that it was sent. -/
def Rested (parse : List UInt8 → Option (Reply ρ)) (worker : Worker) : Prop :=
  ∃ request line result, request.id = worker.requestId ∧ Answers parse worker request line result

structure Served (parse : List UInt8 → Option (Reply ρ)) (s : Pool ρ) : Prop where
  fair : ∀ w, Fair parse (s.workers w)
  blank : ∀ w, s.nextWorker ≤ w → (s.workers w).sent = [] ∧ (s.workers w).read = [] ∧ (s.workers w).written = []
  placed : ∀ j, Placed parse s j
  rested : ∀ w ∈ s.idle, Rested parse (s.workers w)

theorem Rested.grows {worker' : Worker} (h : Rested parse worker) (hgrows : Grows worker worker')
    (hid : worker'.requestId = worker.requestId) : Rested parse worker' := by
  obtain ⟨request, line, result, hlast, hanswers⟩ := h
  exact ⟨request, line, result, hlast.trans hid.symm, hanswers.grows hgrows⟩

/-- A worker that is sent nothing. -/
theorem Served.setWorker (h : Served parse s) (hsent : worker.sent = (s.workers w).sent)
    (hid : worker.requestId = (s.workers w).requestId) (hgrows : Grows (s.workers w) worker) (hfair : Fair parse worker)
    (hblank : worker.read = (s.workers w).read ∧ worker.written = (s.workers w).written ∨ w < s.nextWorker) :
    Served parse (s.setWorker w worker) := by
  have hall : ∀ v, Grows (s.workers v) ((s.setWorker w worker).workers v) := by
    intro v
    by_cases hv : v = w
    · rwa [hv, setWorker_self]
    · rw [setWorker_of_ne hv]
      exact grows_refl _
  have hsame : ∀ v, ((s.setWorker w worker).workers v).sent = (s.workers v).sent ∧
      ((s.setWorker w worker).workers v).requestId = (s.workers v).requestId := by
    intro v
    by_cases hv : v = w
    · rw [hv, setWorker_self]
      exact ⟨hsent, hid⟩
    · rw [setWorker_of_ne hv]
      exact ⟨rfl, rfl⟩
  refine ⟨fun v => ?_, fun v hv => ?_, fun k => (h.placed k).congr rfl (fun v _ => hsame v) hall, fun v hv => ?_⟩
  · by_cases hvw : v = w
    · rwa [hvw, setWorker_self]
    · rw [setWorker_of_ne hvw]
      exact h.fair v
  · have hold := h.blank v hv
    by_cases hvw : v = w
    · rw [hvw, setWorker_self, hsent]
      rw [hvw] at hold hv
      obtain hunchanged | hborn := hblank
      · rw [hunchanged.1, hunchanged.2]
        exact hold
      · exact absurd hborn (Nat.not_lt.mpr hv)
    · rwa [setWorker_of_ne hvw]
  · exact (h.rested v hv).grows (hall v) (hsame v).2

/-- A call at a place that says nothing of its worker. -/
theorem placed_of_plain (hreading : ∀ request, (s.jobs j).stage ≠ .reading request) (hanswer : (s.jobs j).stage.answer = none) :
    Placed parse s j := by
  refine ⟨fun request hstage => absurd hstage (hreading request), fun answer hstage => ?_, fun answer hstage => ?_⟩
  · rw [hstage] at hanswer
    contradiction
  · rw [hanswer] at hstage
    contradiction

/-- Where no worker changes. -/
theorem Served.calm {s' : Pool ρ} (h : Served parse s) (hworkers : s'.workers = s.workers) (hnext : s'.nextWorker = s.nextWorker)
    (hidle : ∀ w ∈ s'.idle, w ∈ s.idle) (hother : ∀ k, k ≠ j → s'.jobs k = s.jobs k) (hplaced : Placed parse s' j) : Served parse s' := by
  refine ⟨fun w => ?_, fun w hw => ?_, fun k => ?_, fun w hw => ?_⟩
  · rw [hworkers]
    exact h.fair w
  · rw [hworkers]
    exact h.blank w (hnext ▸ hw)
  · by_cases hk : k = j
    · rwa [hk]
    · refine (h.placed k).congr (hother k hk) ?_ ?_
      · simp [hworkers]
      · rw [hworkers]
        exact fun w => grows_refl _
  · rw [hworkers]
    exact h.rested w (hidle w hw)

/-- A call that leaves with no answer, or with one that it had. -/
theorem Served.dropLease (h : Served parse s) (hanswer : ∀ a, answer = some a → a.request.watchUrl = (s.jobs j).watchUrl ∧
    a.request.server = (s.jobs j).server ∧ Answers parse (s.workers a.worker) a.request a.line a.result) :
    Served parse (s.dropLease j answer) := by
  have hleft : Served parse (s.goTo j (.leaving answer)) := by
    refine h.calm rfl rfl (fun _ => id) (fun k hk => goTo_of_ne hk) ⟨?_, ?_, ?_⟩
    · simp [Pool.goTo]
    · simp [Pool.goTo]
    · simpa [Pool.goTo, Stage.answer] using hanswer
  unfold Pool.dropLease
  dsimp only
  split
  · refine hleft.calm rfl rfl (fun _ => id) (fun k hk => give_of_ne hk) ⟨?_, ?_, ?_⟩
    · simp [Pool.goTo, give]
    · simp [Pool.goTo, give]
    · simpa [Pool.goTo, give, Stage.answer] using hanswer
  · exact hleft

theorem served_new : Served parse (new : Pool ρ) := by
  refine ⟨fun w => ⟨?_, ?_, ?_, ?_, ?_, ?_⟩, fun w _ => ⟨rfl, rfl, rfl⟩, fun j => placed_of_plain (by simp [new]) rfl, ?_⟩
  all_goals simp [new]

theorem Served.resolve {script watchUrl server : Text} {deadline : Nat} (h : Served parse s) :
    Served parse (s.resolve script watchUrl server deadline) := by
  unfold Pool.resolve
  dsimp only
  split
  · refine h.calm rfl rfl (fun _ => id) (fun k hk => setJob_of_ne hk) (placed_of_plain ?_ ?_)
    · simp
    · rw [setJob_self]
      rfl
  · refine h.calm rfl rfl (fun _ => id) (fun k hk => (take_of_ne hk).trans (setJob_of_ne hk)) (placed_of_plain ?_ ?_)
    · simp [take]
    · simp [take, Stage.answer]

theorem Served.acquire (h : Served parse s) : Served parse (s.acquire j) := by
  unfold Pool.acquire
  split
  · split
    · exact h
    · refine h.calm rfl rfl (fun _ => id) (fun k hk => (take_of_ne hk).trans (goTo_of_ne hk)) (placed_of_plain ?_ ?_)
      · simp [take, Pool.goTo]
      · simp [take, Pool.goTo, Stage.answer]
  · exact h

theorem Served.popFront {now : Nat} (h : Served parse s) : Served parse (s.popFront j now) := by
  unfold Pool.popFront
  split
  · split
    · refine h.calm rfl rfl (fun _ => id) (fun k hk => goTo_of_ne hk) (placed_of_plain ?_ ?_)
      · simp [Pool.goTo]
      · simp [Pool.goTo, Stage.answer]
    · rename_i w idle hidle
      dsimp only
      refine h.calm rfl rfl (fun v hv => ?_) (fun k hk => setJob_of_ne hk) (placed_of_plain ?_ ?_)
      · rw [hidle]
        exact List.mem_cons_of_mem w hv
      · rw [setJob_self]
        split <;> simp
      · rw [setJob_self]
        split <;> rfl
  · exact h

theorem Fair.exited (h : Fair parse worker) : Fair parse { worker with alive := false } :=
  ⟨h.bounded, h.distinct, h.unread, h.read, h.answers, h.output⟩

theorem Served.exit (h : Served parse s) : Served parse (s.exit w) :=
  h.setWorker rfl rfl ⟨fun _ => id, fun _ => id, fun _ => id⟩ (h.fair w).exited (.inl ⟨rfl, rfl⟩)

theorem Served.retire (h : Served parse s) : Served parse (s.retire j) := by
  unfold Pool.retire
  split
  · rename_i w _ _
    refine (h.exit (w := w)).calm rfl rfl (fun _ => id) (fun k hk => setJob_of_ne hk) (placed_of_plain ?_ ?_)
    · simp
    · rw [setJob_self]
      rfl
  · exact h

/-- A call sends its own worker a request. -/
theorem Served.sends {s' : Pool ρ} (h : Served parse s) (howned : Owned s) (hw : (s.jobs j).worker = some w)
    (hworkers : s'.workers = Function.update s.workers w worker) (hgrows : Grows (s.workers w) worker) (hfair : Fair parse worker)
    (hnext : s'.nextWorker = s.nextWorker) (hidle : s'.idle = s.idle) (hother : ∀ k, k ≠ j → s'.jobs k = s.jobs k)
    (hplaced : Placed parse s' j) : Served parse s' := by
  obtain ⟨hbelow, hunqueued⟩ := howned.apart j w hw
  have hsame : ∀ v, v ≠ w → s'.workers v = s.workers v := fun v hv => by rw [hworkers, Function.update_of_ne hv]
  have hself : s'.workers w = worker := by rw [hworkers, Function.update_self]
  refine ⟨fun v => ?_, fun v hv => ?_, fun k => ?_, fun v hv => ?_⟩
  · by_cases hvw : v = w
    · rwa [hvw, hself]
    · rw [hsame v hvw]
      exact h.fair v
  · rw [hnext] at hv
    rw [hsame v (by omega)]
    exact h.blank v hv
  · by_cases hk : k = j
    · rwa [hk]
    · refine (h.placed k).congr (hother k hk) (fun v hv => ?_) (fun v => ?_)
      · have hvw : v ≠ w := fun hvw => hk (howned.single k j w (hvw ▸ hv) hw)
        rw [hsame v hvw]
        exact ⟨rfl, rfl⟩
      · by_cases hvw : v = w
        · rwa [hvw, hself]
        · rw [hsame v hvw]
          exact grows_refl _
  · rw [hidle] at hv
    have hvw : v ≠ w := fun hvw => hunqueued (hvw ▸ hv)
    rw [hsame v hvw]
    exact h.rested v hv

theorem Served.spawn {now : Nat} {spawned : Bool} (h : Served parse s) (howned : Owned s) : Served parse (s.spawn j now spawned) := by
  unfold Pool.spawn
  split
  · split
    · have hfresh : ∀ v, Grows (s.workers v)
          (Function.update s.workers s.nextWorker ⟨(s.jobs j).script, now, 0, true, [], [], [], [], []⟩ v) := by
        intro v
        by_cases hv : v = s.nextWorker
        · obtain ⟨hsent, hread, hwritten⟩ := h.blank s.nextWorker (Nat.le_refl _)
          rw [hv]
          refine ⟨?_, ?_, ?_⟩
          · simp [hsent]
          · simp [hread]
          · simp [hwritten]
        · rw [Function.update_of_ne hv]
          exact grows_refl _
      have hold : ∀ v, v < s.nextWorker →
          Function.update s.workers s.nextWorker ⟨(s.jobs j).script, now, 0, true, [], [], [], [], []⟩ v = s.workers v :=
        fun v hv => Function.update_of_ne (by omega) ..
      refine ⟨fun v => ?_, fun v hv => ?_, fun k => ?_, fun v hv => ?_⟩
      · by_cases hv : v = s.nextWorker
        · rw [hv, setJob_workers, setWorker_self]
          refine ⟨?_, ?_, ?_, ?_, ?_, ?_⟩
          all_goals simp
        · rw [setJob_workers, setWorker_of_ne hv]
          exact h.fair v
      · have hlater : s.nextWorker + 1 ≤ v := hv
        rw [setJob_workers, setWorker_of_ne (by omega)]
        exact h.blank v (by omega)
      · by_cases hk : k = j
        · rw [hk]
          refine placed_of_plain ?_ ?_
          · simp
          · rw [setJob_self]
            rfl
        · refine (h.placed k).congr (setJob_of_ne hk) (fun v hv => ?_) hfresh
          have hborn := (howned.apart k v hv).1
          rw [setJob_workers, setWorker_of_ne (by omega)]
          exact ⟨rfl, rfl⟩
      · have hborn := howned.below v hv
        rw [setJob_workers, setWorker_of_ne (by omega)]
        exact h.rested v hv
    · exact h.dropLease (by simp)
  · exact h

theorem Served.send {now : Nat} (h : Served parse s) (howned : Owned s) : Served parse (s.send j now) := by
  unfold Pool.send
  split
  · rename_i w _ hw
    dsimp only
    split
    · exact h.dropLease (by simp)
    · have hfair := h.fair w
      generalize (s.jobs j).deadline - now = remainingMs
      have hbounded : ∀ request ∈ (s.workers w).sent, request.id ≠ (s.workers w).requestId + 1 := by
        intro request hrequest
        have hbound := hfair.bounded request hrequest
        omega
      refine h.sends howned hw rfl ⟨?_, fun _ => id, fun _ => id⟩ ⟨?_, ?_, ?_, ?_, hfair.answers, hfair.output⟩ rfl rfl
        (fun k hk => goTo_of_ne hk) ⟨?_, ?_, ?_⟩
      · exact fun request => List.mem_append_left _
      · intro request hrequest
        obtain hold | hnew := List.mem_append.mp hrequest
        · exact Nat.le_succ_of_le (hfair.bounded request hold)
        · rw [List.mem_singleton.mp hnew]
      · intro request hrequest request' hrequest' hid
        obtain hold | hnew := List.mem_append.mp hrequest <;> obtain hold' | hnew' := List.mem_append.mp hrequest'
        · exact hfair.distinct request hold request' hold' hid
        · rw [List.mem_singleton.mp hnew'] at hid
          exact absurd hid (hbounded request hold)
        · rw [List.mem_singleton.mp hnew] at hid
          exact absurd hid.symm (hbounded request' hold')
        · rw [List.mem_singleton.mp hnew, List.mem_singleton.mp hnew']
      · intro request hrequest
        obtain hold | hnew := List.mem_append.mp hrequest
        · exact List.mem_append_left _ (hfair.unread request hold)
        · exact List.mem_append_right _ hnew
      · exact fun request hrequest => List.mem_append_left _ (hfair.read request hrequest)
      · simp [Pool.goTo, Pool.setWorker, hw]
      · simp [Pool.goTo]
      · simp [Pool.goTo, Stage.answer]
  · exact h

theorem Served.read (h : Served parse s) : Served parse (s.read parse j) := by
  unfold Pool.read
  split
  · rename_i request w hstage hw
    dsimp only
    split
    · exact h
    · rename_i line output houtput
      have hfair := h.fair w
      have hline : line ∈ (s.workers w).written := hfair.output line (by simp [houtput])
      obtain ⟨hurl, hserver, w', hw', hsent, hlast⟩ := (h.placed j).reading request hstage
      rw [hw, Option.some.injEq] at hw'
      rw [← hw'] at hsent hlast
      have hconsumed : Served parse (s.setWorker w { s.workers w with output }) := by
        refine h.setWorker rfl rfl ⟨fun _ => id, fun _ => id, fun _ => id⟩ ?_ (.inl ⟨rfl, rfl⟩)
        refine ⟨hfair.bounded, hfair.distinct, hfair.unread, hfair.read, hfair.answers, fun line hline => hfair.output line ?_⟩
        rw [houtput]
        exact List.mem_cons_of_mem _ hline
      have hanswers (result : ρ) (retire : Bool) (haccepted : accepted parse (s.workers w).requestId line = some (result, retire)) :
          Answers parse ((s.setWorker w { s.workers w with output }).workers w) request line result := by
        rw [setWorker_self]
        exact (hfair.answers_of_accepted hsent hlast hline haccepted).grows ⟨fun _ => id, fun _ => id, fun _ => id⟩
      split
      · exact hconsumed.dropLease (by simp)
      · rename_i result haccepted
        refine hconsumed.dropLease fun a ha => ?_
        rw [Option.some.injEq] at ha
        rw [← ha]
        exact ⟨hurl, hserver, hanswers result true haccepted⟩
      · rename_i result haccepted
        refine hconsumed.calm rfl rfl (fun _ => id) (fun k hk => goTo_of_ne hk) ⟨?_, ?_, ?_⟩
        · simp [Pool.goTo]
        · simp [Pool.goTo, Pool.setWorker, hw, hlast]
        · intro a ha
          simp only [Pool.goTo, setJob_self, Stage.answer, Option.some.injEq] at ha
          rw [← ha, Pool.goTo, setJob_self]
          exact ⟨hurl, hserver, hanswers result false haccepted⟩
  · exact h

theorem Served.pushBack {now : Nat} (h : Served parse s) : Served parse (s.pushBack j now) := by
  unfold Pool.pushBack
  split
  · rename_i answer w hstage hw
    obtain ⟨hworker, hlast⟩ := (h.placed j).returning answer hstage
    rw [hw, Option.some.injEq] at hworker
    obtain ⟨hurl, hserver, hanswers⟩ := (h.placed j).answer answer (by rw [hstage]; rfl)
    have hfair := h.fair w
    have hqueued : Served parse { s with idle := s.idle ++ [w] } := by
      refine ⟨h.fair, h.blank, fun k => (h.placed k).congr rfl (fun _ _ => ⟨rfl, rfl⟩) fun _ => grows_refl _, fun v hv => ?_⟩
      obtain hold | hnew := List.mem_append.mp hv
      · exact h.rested v hold
      · rw [List.mem_singleton.mp hnew, hworker]
        exact ⟨answer.request, answer.line, answer.result, hlast, hanswers⟩
    have hstamped : Served parse (Pool.setWorker { s with idle := s.idle ++ [w] } w { s.workers w with idleAt := now }) :=
      hqueued.setWorker rfl rfl ⟨fun _ => id, fun _ => id, fun _ => id⟩
        ⟨hfair.bounded, hfair.distinct, hfair.unread, hfair.read, hfair.answers, hfair.output⟩ (.inl ⟨rfl, rfl⟩)
    refine hstamped.calm rfl rfl (fun _ => id) (fun k hk => setJob_of_ne hk) ⟨?_, ?_, ?_⟩
    · simp
    · simp
    · intro a ha
      have hplaced := (hstamped.placed j).answer a
      simp only [setJob_self, Stage.answer, Option.some.injEq] at ha
      rw [setJob_self]
      refine hplaced ?_
      rw [← ha]
      exact congrArg Stage.answer hstage
  · exact h

theorem Served.leave (h : Served parse s) : Served parse (s.leave j) := by
  unfold Pool.leave
  split
  case h_8 answer hstage =>
    refine h.dropLease fun a ha => (h.placed j).answer a ?_
    rw [hstage]
    exact ha
  all_goals first | exact h.dropLease (by simp) | exact h

theorem Served.finish (h : Served parse s) : Served parse (s.finish j) := by
  unfold Pool.finish
  split
  · rename_i answer hstage
    refine h.calm rfl rfl (fun _ => id) (fun k hk => (give_of_ne hk).trans (goTo_of_ne hk)) ⟨?_, ?_, ?_⟩
    · simp [give, Pool.goTo]
    · simp [give, Pool.goTo]
    · intro a ha
      have hplaced := (h.placed j).answer a
      rw [hstage] at hplaced
      simp only [give, Pool.goTo, setJob_self, setJob_workers] at ha ⊢
      exact hplaced ha
  · exact h

theorem Served.cleanUp (h : Served parse s) : Served parse (s.cleanUp j) := by
  have hcleaned (w : Nat) (hreading : ∀ request, (s.jobs j).stage ≠ .reading request)
      (hreturning : ∀ answer, (s.jobs j).stage ≠ .returning answer) :
      Served parse (((s.exit w).setJob j { s.jobs j with worker := none }).give .permit j) := by
    refine (h.exit (w := w)).calm rfl rfl (fun _ => id) (fun k hk => (give_of_ne hk).trans (setJob_of_ne hk)) ⟨?_, ?_, ?_⟩
    · simpa [give] using hreading
    · simpa [give] using hreturning
    · intro a ha
      have hplaced := ((h.exit (w := w)).placed j).answer a
      simp only [give, setJob_self, setJob_workers] at ha ⊢
      exact hplaced ha
  unfold Pool.cleanUp
  split
  · rename_i w hstage _
    exact hcleaned w (by simp [hstage]) (by simp [hstage])
  · rename_i w hstage _
    exact hcleaned w (by simp [hstage]) (by simp [hstage])
  · exact h

theorem Served.workerReads (h : Served parse s) (howned : Owned s) : Served parse (s.workerReads w) := by
  unfold Pool.workerReads
  dsimp only
  split
  · exact h
  · rename_i request unread hunread
    split
    · rename_i halive
      have hfair := h.fair w
      have hrequest : request ∈ (s.workers w).sent := hfair.unread request (by simp [hunread])
      refine h.setWorker rfl rfl ⟨fun _ => id, fun _ => List.mem_append_left _, fun _ => id⟩
        ⟨hfair.bounded, hfair.distinct, fun r hr => hfair.unread r ?_, fun r hr => ?_, fun line hline hparsed => ?_, hfair.output⟩
        (.inr ?_)
      · rw [hunread]
        exact List.mem_cons_of_mem _ hr
      · obtain hold | hnew := List.mem_append.mp hr
        · exact hfair.read r hold
        · rw [List.mem_singleton.mp hnew]
          exact hrequest
      · exact List.mem_append_left _ (hfair.answers line hline hparsed)
      · exact howned.born halive
    · exact h

theorem Served.workerWrites {line : Line} (h : Served parse s) (howned : Owned s) : Served parse (s.workerWrites parse w line) := by
  unfold Pool.workerWrites
  dsimp only
  split
  · rename_i hwrites
    have hfair := h.fair w
    refine h.setWorker rfl rfl ⟨fun _ => id, fun _ => id, fun _ => List.mem_append_left _⟩
      ⟨hfair.bounded, hfair.distinct, hfair.unread, hfair.read, fun line' hline' hparsed => ?_, fun line' hline' => ?_⟩
      (.inr (howned.born hwrites.1))
    · obtain hold | hnew := List.mem_append.mp hline'
      · exact hfair.answers line' hold hparsed
      · rw [List.mem_singleton.mp hnew] at hparsed ⊢
        exact hwrites.2 hparsed
    · obtain hold | hnew := List.mem_append.mp hline'
      · exact List.mem_append_left _ (hfair.output line' hold)
      · exact List.mem_append_right _ hnew
  · exact h

/-! A call that has not begun stays so, and who gets which answer. -/

structure Begun (fresh : Nat → Answer ρ → Prop) (s s' : Pool ρ) : Prop where
  nextJob : s'.nextJob = s.nextJob
  unused : ∀ k, (s.jobs k).stage = .unused → (s'.jobs k).stage = .unused
  answer : ∀ k a, (s'.jobs k).stage.answer = some a → (s.jobs k).stage.answer = some a ∨ fresh k a

variable {fresh : Nat → Answer ρ → Prop}

theorem begun_refl (s : Pool ρ) : Begun fresh s s := ⟨rfl, fun _ => id, fun _ _ => .inl⟩

theorem Begun.trans {s' s'' : Pool ρ} (h : Begun fresh s s') (h' : Begun fresh s' s'') : Begun fresh s s'' := by
  refine ⟨h'.nextJob.trans h.nextJob, fun k hk => h'.unused k (h.unused k hk), fun k a ha => ?_⟩
  obtain hold | hnew := h'.answer k a ha
  · exact h.answer k a hold
  · exact .inr hnew

theorem begun_of_update {s' : Pool ρ} (hnext : s'.nextJob = s.nextJob) (hjobs : s'.jobs = Function.update s.jobs j job)
    (hstage : (s.jobs j).stage ≠ .unused ∨ job.stage = (s.jobs j).stage)
    (hanswer : ∀ a, job.stage.answer = some a → (s.jobs j).stage.answer = some a ∨ fresh j a) : Begun fresh s s' := by
  refine ⟨hnext, fun k hk => ?_, fun k a ha => ?_⟩
  · by_cases hkj : k = j
    · rw [hkj] at hk
      rw [hjobs, hkj, Function.update_self]
      obtain hused | hsame := hstage
      · exact absurd hk hused
      · rw [hsame, hk]
    · rwa [hjobs, Function.update_of_ne hkj]
  · by_cases hkj : k = j
    · rw [hjobs, hkj, Function.update_self] at ha
      rw [hkj]
      exact hanswer a ha
    · rw [hjobs, Function.update_of_ne hkj] at ha
      exact .inl ha

theorem begun_goTo (hstage : (s.jobs j).stage ≠ .unused)
    (hanswer : ∀ a, stage.answer = some a → (s.jobs j).stage.answer = some a ∨ fresh j a) : Begun fresh s (s.goTo j stage) :=
  begun_of_update rfl rfl (.inl hstage) hanswer

theorem begun_take : Begun fresh s (s.take slot j) :=
  begun_of_update rfl rfl (.inr rfl) fun _ => .inl

theorem begun_give : Begun fresh s (s.give slot j) :=
  begun_of_update rfl rfl (.inr rfl) fun _ => .inl

theorem begun_setWorker (w : Nat) (worker : Worker) : Begun fresh s (s.setWorker w worker) := ⟨rfl, fun _ => id, fun _ _ => .inl⟩

theorem begun_dropLease (hstage : (s.jobs j).stage ≠ .unused)
    (hanswer : ∀ a, answer = some a → (s.jobs j).stage.answer = some a ∨ fresh j a) : Begun fresh s (s.dropLease j answer) := by
  unfold dropLease
  dsimp only
  split
  · refine (begun_goTo hstage ?_).trans begun_give
    exact hanswer
  · refine begun_goTo hstage ?_
    exact hanswer

theorem begun_acquire : Begun fresh s (s.acquire j) := by
  unfold acquire
  split
  · rename_i hstage
    split
    · exact begun_refl s
    · exact (begun_goTo (by simp [hstage]) (by simp [Stage.answer])).trans begun_take
  · exact begun_refl s

theorem begun_popFront {now : Nat} : Begun fresh s (s.popFront j now) := by
  unfold popFront
  split
  · rename_i hstage
    split
    · exact begun_goTo (by simp [hstage]) (by simp [Stage.answer])
    · dsimp only
      split
      · exact begun_of_update rfl rfl (.inl (by simp [hstage])) (by simp [Stage.answer])
      · exact begun_of_update rfl rfl (.inl (by simp [hstage])) (by simp [Stage.answer])
  · exact begun_refl s

theorem begun_retire : Begun fresh s (s.retire j) := by
  unfold retire
  split
  · rename_i w hstage _
    exact begun_of_update rfl rfl (.inl (by simp [hstage])) (by simp [Stage.answer])
  · exact begun_refl s

theorem begun_spawn {now : Nat} {spawned : Bool} : Begun fresh s (s.spawn j now spawned) := by
  unfold spawn
  split
  · rename_i hstage
    split
    · exact begun_of_update rfl rfl (.inl (by simp [hstage])) (by simp [Stage.answer])
    · exact begun_dropLease (by simp [hstage]) (by simp)
  · exact begun_refl s

theorem begun_send {now : Nat} : Begun fresh s (s.send j now) := by
  unfold send
  split
  · rename_i hstage _
    dsimp only
    split
    · exact begun_dropLease (by simp [hstage]) (by simp)
    · exact begun_of_update rfl rfl (.inl (by simp [hstage])) (by simp [Stage.answer])
  · exact begun_refl s

/-- A call gets an answer from the worker that it has, to the request that it waits for. -/
def Returns (s : Pool ρ) (e : Event) (k : Nat) (a : Answer ρ) : Prop :=
  e = .read k ∧ (s.jobs k).worker = some a.worker ∧ (s.jobs k).stage = .reading a.request

theorem begun_read : Begun (s.Returns (.read j)) s (s.read parse j) := by
  unfold read
  split
  · rename_i request w hstage hw
    dsimp only
    split
    · exact begun_refl s
    · split
      · exact (begun_setWorker _ _).trans (begun_dropLease (by simp [Pool.setWorker, hstage]) (by simp))
      · refine (begun_setWorker _ _).trans (begun_dropLease (by simp [Pool.setWorker, hstage]) fun a ha => .inr ?_)
        rw [Option.some.injEq] at ha
        rw [← ha]
        exact ⟨rfl, hw, hstage⟩
      · refine begun_of_update rfl rfl (.inl (by simp [hstage])) fun a ha => .inr ?_
        have hanswer : _ = a := Option.some.inj ha
        rw [← hanswer]
        exact ⟨rfl, hw, hstage⟩
  · exact begun_refl s

theorem begun_pushBack {now : Nat} : Begun fresh s (s.pushBack j now) := by
  unfold pushBack
  split
  · rename_i answer w hstage _
    refine begun_of_update rfl rfl (.inl (by simp [hstage])) fun a ha => .inl ?_
    rw [hstage]
    exact ha
  · exact begun_refl s

theorem begun_leave : Begun fresh s (s.leave j) := by
  unfold leave
  split
  case h_8 answer hstage =>
    refine begun_dropLease (by simp [hstage]) fun a ha => .inl ?_
    rw [hstage]
    exact ha
  all_goals first | exact begun_refl s | exact begun_dropLease (by simp [*]) (by simp)

theorem begun_finish : Begun fresh s (s.finish j) := by
  unfold finish
  split
  · rename_i answer hstage
    refine (begun_goTo (by simp [hstage]) fun a ha => .inl ?_).trans begun_give
    rw [hstage]
    exact ha
  · exact begun_refl s

theorem begun_cleanUp : Begun fresh s (s.cleanUp j) := by
  have hcleaned (w : Nat) : Begun fresh s (((s.exit w).setJob j { s.jobs j with worker := none }).give .permit j) := by
    refine Begun.trans ?_ begun_give
    exact begun_of_update rfl rfl (.inr rfl) fun _ => .inl
  unfold cleanUp
  split
  · exact hcleaned _
  · exact hcleaned _
  · exact begun_refl s

theorem jobs_workerReads : (s.workerReads w).jobs = s.jobs ∧ (s.workerReads w).nextJob = s.nextJob ∧
    (s.workerReads w).taken = s.taken := by
  unfold workerReads
  dsimp only
  split
  · exact ⟨rfl, rfl, rfl⟩
  · split <;> exact ⟨rfl, rfl, rfl⟩

theorem jobs_workerWrites {line : Line} : (s.workerWrites parse w line).jobs = s.jobs ∧
    (s.workerWrites parse w line).nextJob = s.nextJob ∧
    (s.workerWrites parse w line).taken = s.taken := by
  unfold workerWrites
  dsimp only
  split <;> exact ⟨rfl, rfl, rfl⟩

theorem begun_of_jobs {s' : Pool ρ} (h : s'.jobs = s.jobs ∧ s'.nextJob = s.nextJob ∧ s'.taken = s.taken) : Begun fresh s s' := by
  refine ⟨h.2.1, fun k hk => ?_, fun k a ha => .inl ?_⟩
  · rwa [h.1]
  · rwa [h.1] at ha

/-- A new call has no answer yet, and leaves the others alone. -/
theorem jobs_resolve {script watchUrl server : Text} {deadline : Nat} :
    (s.resolve script watchUrl server deadline).nextJob = s.nextJob + 1 ∧
    ((s.resolve script watchUrl server deadline).jobs s.nextJob).stage.answer = none ∧
    ∀ k, k ≠ s.nextJob → (s.resolve script watchUrl server deadline).jobs k = s.jobs k := by
  unfold resolve
  dsimp only
  split
  · refine ⟨rfl, ?_, fun k hk => setJob_of_ne hk⟩
    rw [setJob_self]
    rfl
  · refine ⟨rfl, ?_, fun k hk => (take_of_ne hk).trans (setJob_of_ne hk)⟩
    simp [take, Stage.answer]

theorem begun_step (e : Event) (hresolve : ∀ script watchUrl server deadline, e ≠ .resolve script watchUrl server deadline) :
    Begun (s.Returns e) s (step parse s e) := by
  cases e with
  | resolve script watchUrl server deadline => exact absurd rfl (hresolve script watchUrl server deadline)
  | acquire => exact begun_acquire
  | popFront => exact begun_popFront
  | retire => exact begun_retire
  | spawn => exact begun_spawn
  | send => exact begun_send
  | read => exact begun_read
  | pushBack => exact begun_pushBack
  | leave => exact begun_leave
  | finish => exact begun_finish
  | cleanUp => exact begun_cleanUp
  | workerReads => exact begun_of_jobs jobs_workerReads
  | workerWrites => exact begun_of_jobs jobs_workerWrites
  | workerExits => exact begun_setWorker _ _

/-- Only what a call reads from its worker becomes its answer. -/
theorem returns_of_answer {e : Event} {a : Answer ρ} (ha : ((step parse s e).jobs j).stage.answer = some a) :
    (s.jobs j).stage.answer = some a ∨ s.Returns e j a := by
  by_cases hresolve : ∀ script watchUrl server deadline, e ≠ .resolve script watchUrl server deadline
  · exact (begun_step e hresolve).answer j a ha
  · push Not at hresolve
    obtain ⟨script, watchUrl, server, deadline, rfl⟩ := hresolve
    obtain ⟨-, hnone, hother⟩ := @jobs_resolve _ s script watchUrl server deadline
    by_cases hj : j = s.nextJob
    · rw [hj] at ha
      rw [step, hnone] at ha
      contradiction
    · rw [step, hother j hj] at ha
      exact .inl ha

/-- What holds of the pool in every run. -/
structure Sound (parse : List UInt8 → Option (Reply ρ)) (s : Pool ρ) : Prop where
  granted : Granted s
  owned : Owned s
  held : ∀ j, Held s j
  served : Served parse s
  unused : ∀ j, s.nextJob ≤ j → (s.jobs j).stage = .unused

theorem sound_new : Sound parse (new : Pool ρ) := by
  refine ⟨granted_new, owned_new, fun j => ⟨rfl, rfl, fun _ => rfl, fun _ => rfl, fun _ _ => rfl⟩, served_new, fun j _ => rfl⟩

theorem Sound.unused_step (h : Sound parse s) (e : Event) (j : Nat) (hj : (step parse s e).nextJob ≤ j) :
    ((step parse s e).jobs j).stage = .unused := by
  by_cases hresolve : ∀ script watchUrl server deadline, e ≠ .resolve script watchUrl server deadline
  · have hbegun : Begun (s.Returns e) s (step parse s e) := begun_step e hresolve
    exact hbegun.unused j (h.unused j (hbegun.nextJob ▸ hj))
  · push Not at hresolve
    obtain ⟨script, watchUrl, server, deadline, rfl⟩ := hresolve
    obtain ⟨hnext, -, hother⟩ := @jobs_resolve _ s script watchUrl server deadline
    rw [step, hnext] at hj
    rw [step, hother j (by omega)]
    exact h.unused j (by omega)

theorem Sound.step (h : Sound parse s) (e : Event) : Sound parse (step parse s e) := by
  have hunused := h.unused_step e
  have hnext := h.unused s.nextJob (Nat.le_refl _)
  cases e with
  | resolve =>
    have hnone := (h.held s.nextJob).bare (by rw [hnext]; rfl)
    exact ⟨h.granted.resolve h.held hnext, h.owned.resolve hnone, Held.resolve h.held hnext, h.served.resolve, hunused⟩
  | acquire => exact ⟨h.granted.acquire h.held, h.owned.acquire, Held.acquire h.held, h.served.acquire, hunused⟩
  | popFront j =>
    refine ⟨h.granted.popFront, h.owned.popFront ?_ ?_, Held.popFront h.held, h.served.popFront, hunused⟩
    · exact fun hstage => (h.held j).bare (by rw [hstage]; rfl)
    · exact fun n hn hstage => room h.granted h.held n hn hstage
  | retire => exact ⟨h.granted.retire, h.owned.retire, Held.retire h.held, h.served.retire, hunused⟩
  | spawn j =>
    refine ⟨h.granted.spawn, h.owned.spawn ?_, Held.spawn h.held, h.served.spawn h.owned, hunused⟩
    exact fun hstage => (h.held j).bare (by rw [hstage]; rfl)
  | send => exact ⟨h.granted.send, h.owned.send, Held.send h.held, h.served.send h.owned, hunused⟩
  | read => exact ⟨h.granted.read, h.owned.read, Held.read h.held, h.served.read, hunused⟩
  | pushBack => exact ⟨h.granted.pushBack, h.owned.pushBack, Held.pushBack h.held, h.served.pushBack, hunused⟩
  | leave => exact ⟨h.granted.leave, h.owned.leave, Held.leave h.held, h.served.leave, hunused⟩
  | finish => exact ⟨h.granted.finish h.held, h.owned.finish, Held.finish h.held, h.served.finish, hunused⟩
  | cleanUp => exact ⟨h.granted.cleanUp h.held, h.owned.cleanUp, Held.cleanUp h.held, h.served.cleanUp, hunused⟩
  | workerReads w =>
    obtain ⟨hjobs, -, htaken⟩ := @jobs_workerReads _ s w
    refine ⟨h.granted.workerReads, h.owned.workerReads, fun k => (h.held k).congr ?_ ?_, h.served.workerReads h.owned, hunused⟩
    · exact congrFun hjobs k
    · exact fun slot => congrArg (List.count (slot, k)) htaken
  | workerWrites w line =>
    obtain ⟨hjobs, -, htaken⟩ := @jobs_workerWrites _ parse s w line
    refine ⟨h.granted.workerWrites, h.owned.workerWrites, fun k => (h.held k).congr ?_ ?_, h.served.workerWrites h.owned, hunused⟩
    · exact congrFun hjobs k
    · exact fun slot => congrArg (List.count (slot, k)) htaken
  | workerExits => exact ⟨h.granted.setWorker, h.owned.setWorker (by simp), Held.setWorker h.held, h.served.exit, hunused⟩

/-! Every run. -/

/-- At most so many workers live, in the queue, leased or being shut down. What is not free is held, and what a call took
it holds or has given back once, all of it when it is over and its worker is cleaned up. What a call has for an answer the
worker wrote for it, and a worker in the queue has answered its last request. -/
structure Kept (parse : List UInt8 → Option (Reply ρ)) (s : Pool ρ) : Prop where
  live : ∀ ws : Finset Nat, (∀ w ∈ ws, (s.workers w).alive = true) → ws.card ≤ maxWorkers
  slots : ∀ slot, ∃ n, Tally (fun j => (s.jobs j).held slot = true) n ∧ s.available slot + n = capacity slot
  once : ∀ slot j, s.taken.count (slot, j) ≤ 1 ∧ s.taken.count (slot, j) = s.given.count (slot, j) + ((s.jobs j).held slot).toNat
  closed : ∀ j answer, (s.jobs j).stage = .done answer → (s.jobs j).worker = none →
    ∀ slot, s.given.count (slot, j) = s.taken.count (slot, j)
  answers : ∀ j answer, (s.jobs j).stage.answer = some answer →
    answer.request.watchUrl = (s.jobs j).watchUrl ∧ answer.request.server = (s.jobs j).server ∧
      Answers parse (s.workers answer.worker) answer.request answer.line answer.result
  idle : ∀ w ∈ s.idle, Rested parse (s.workers w)

theorem Owned.live (h : Owned s) (ws : Finset Nat) (hws : ∀ w ∈ ws, (s.workers w).alive = true) : ws.card ≤ maxWorkers := by
  obtain ⟨n, ⟨members, hmembers, rfl⟩, hbound⟩ := h.weight
  have hcover : ws ⊆ s.idle.toFinset ∪ members.image fun j => ((s.jobs j).worker.getD 0) := by
    intro w hw
    rw [Finset.mem_union, List.mem_toFinset, Finset.mem_image]
    obtain hqueued | ⟨j, hj⟩ := h.alive w (hws w hw)
    · exact .inl hqueued
    · have hweighs : (s.jobs j).weighs = true := by rw [Job.weighs, hj]; rfl
      exact .inr ⟨j, (hmembers j).mpr hweighs, by rw [hj, Option.getD_some]⟩
  calc
    ws.card ≤ (s.idle.toFinset ∪ members.image fun j => ((s.jobs j).worker.getD 0)).card := Finset.card_le_card hcover
    _ ≤ s.idle.toFinset.card + (members.image fun j => ((s.jobs j).worker.getD 0)).card := Finset.card_union_le _ _
    _ ≤ s.idle.length + members.card := Nat.add_le_add (List.toFinset_card_le _) Finset.card_image_le
    _ ≤ maxWorkers := hbound

theorem Sound.kept (h : Sound parse s) : Kept parse s := by
  refine ⟨h.owned.live, h.granted.held, fun slot j => ⟨h.granted.once slot j, h.granted.taken slot j⟩,
    fun j answer hstage hnone slot => ?_,
    fun j answer hanswer => (h.served.placed j).answer answer hanswer, h.served.rested⟩
  have hbooks := h.granted.taken slot j
  have hadmission := (h.held j).admission
  have hpermit := (h.held j).permit
  rw [hstage] at hadmission hpermit
  rw [hnone] at hpermit
  cases slot with
  | admission =>
    rw [hadmission] at hbooks
    exact hbooks.symm
  | permit =>
    rw [hpermit] at hbooks
    exact hbooks.symm

/-- An answer is what a call reads from the worker that it leases, to the request that it waits for. -/
def Proper (parse : List UInt8 → Option (Reply ρ)) (s : Pool ρ) (e : Event) : Prop :=
  ∀ j answer, ((step parse s e).jobs j).stage.answer = some answer →
    (s.jobs j).stage.answer = some answer ∨ s.Returns e j answer

end Pool

/-- The pool over every run. -/
theorem pool_safe (parse : List UInt8 → Option (Reply ρ)) (events : List Event) :
    Throughout (step parse) (Pool.Kept parse) Pool.new events ∧ Each (step parse) (Pool.Proper parse) Pool.new events := by
  constructor
  · exact (throughout_of_step (fun _ e h => h.step e) Pool.sound_new).imp fun _ h => h.kept
  · exact each_of_split fun _ _ _ _ _ _ => Pool.returns_of_answer

/-- A worker that answers a request twice, the second time under the number of the next one. -/
def misnumbered : List Event :=
  [.resolve [] [] [] 10, .acquire 0, .popFront 0 0, .spawn 0 0 true, .send 0 0, .workerReads 0,
    .workerWrites 0 ⟨[1], ⟨1, [], [], 10⟩⟩, .workerWrites 0 ⟨[2], ⟨1, [], [], 10⟩⟩, .read 0, .pushBack 0 0, .leave 0, .finish 0,
    .resolve [] [] [] 10, .acquire 1, .popFront 1 0, .send 1 0, .read 1, .pushBack 1 0, .leave 1, .finish 1]

/-- The second call returns what answers the request of the first, and its worker, which has not read the request, is
back in the queue. -/
theorem answered_by_other :
    let s := misnumbered.foldl (step fun bytes => some ⟨bytes.sum.toNat, true, some true, false⟩) Pool.new
    ((s.jobs 1).stage.answer.map fun answer => (answer.request.id, answer.line.answers.id)) = some (2, 1) ∧
      s.idle = [0] ∧ (s.workers 0).read = [⟨1, [], [], 10⟩] := by
  decide

end run

end StreamArena.Resolver.WarmWorkers
