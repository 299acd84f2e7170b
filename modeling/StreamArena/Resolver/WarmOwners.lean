import StreamArena.Resolver.WarmWorkers

/-! Who owns which worker of the warm pool, and that there are never too many. -/
namespace StreamArena.Resolver.WarmWorkers
open AsciiText Counting

namespace Pool
variable {ρ : Type*} {parse : List UInt8 → Option (Reply ρ)} {s : Pool ρ} {j k w : Nat} {slot : Slot} {job : Job ρ}
  {worker : Worker} {stage : Stage ρ} {answer : Option (Answer ρ)}

/-- A worker is in the queue, or one call has it. -/
structure Owned (s : Pool ρ) : Prop where
  weight : ∃ n, Tally (fun j => (s.jobs j).weighs = true) n ∧ s.idle.length + n ≤ maxWorkers
  nodup : s.idle.Nodup
  below : ∀ w ∈ s.idle, w < s.nextWorker
  apart : ∀ j w, (s.jobs j).worker = some w → w < s.nextWorker ∧ w ∉ s.idle
  single : ∀ j k w, (s.jobs j).worker = some w → (s.jobs k).worker = some w → j = k
  alive : ∀ w, (s.workers w).alive = true → w ∈ s.idle ∨ ∃ j, (s.jobs j).worker = some w

theorem owned_new : Owned (new : Pool ρ) where
  weight := ⟨0, Tally.of_none (by simp [new, Job.weighs, Stage.spawns]), Nat.zero_le _⟩
  nodup := List.nodup_nil
  below := by simp [new]
  apart := by simp [new]
  single := by simp [new]
  alive := by simp [new]

/-- One call moves, and with it what was its worker, what becomes its worker and the queue. -/
theorem Owned.change {s' : Pool ρ} (h : Owned s) (hjobs : s'.jobs = Function.update s.jobs j job)
    (hroom : ∀ n, Tally (fun j => (s.jobs j).weighs = true) n → s.idle.length + n ≤ maxWorkers →
      s'.idle.length + n + job.weighs.toNat ≤ maxWorkers + (s.jobs j).weighs.toNat)
    (hnext : s.nextWorker ≤ s'.nextWorker) (hnodup : s'.idle.Nodup)
    (hidle : ∀ w ∈ s'.idle, w ∈ s.idle ∨ (s.jobs j).worker = some w)
    (hworker : ∀ w, job.worker = some w →
      w ∉ s'.idle ∧ ((s.jobs j).worker = some w ∨ w ∈ s.idle ∨ w = s.nextWorker ∧ s.nextWorker < s'.nextWorker))
    (halive : ∀ w, (s'.workers w).alive = true → w ∈ s'.idle ∨ job.worker = some w ∨
      (s.workers w).alive = true ∧ w ∉ s.idle ∧ (s.jobs j).worker ≠ some w) : Owned s' := by
  have hother : ∀ k, k ≠ j → s'.jobs k = s.jobs k := fun k hk => by rw [hjobs, Function.update_of_ne hk]
  have hself : s'.jobs j = job := by rw [hjobs, Function.update_self]
  have hkept : ∀ k w, k ≠ j → (s.jobs k).worker = some w → job.worker ≠ some w := by
    intro k w hk hold hnew
    obtain hsame | hqueued | ⟨hfresh, -⟩ := (hworker w hnew).2
    · exact hk (h.single k j w hold hsame)
    · exact (h.apart k w hold).2 hqueued
    · have hbound := (h.apart k w hold).1
      omega
  refine ⟨?_, hnodup, fun w hw => ?_, fun k w hk => ?_, fun k l w hk hl => ?_, fun w hw => ?_⟩
  · obtain ⟨n, hn, hbound⟩ := h.weight
    have hfits := hroom n hn hbound
    have hcounted : (s.jobs j).weighs.toNat ≤ n := by
      cases hweighs : (s.jobs j).weighs with
      | false => exact Nat.zero_le n
      | true => exact hn.pos hweighs
    rw [hjobs]
    refine ⟨n + job.weighs.toNat - (s.jobs j).weighs.toNat, .update Job.weighs hn ?_, ?_⟩
    · omega
    · omega
  · obtain hold | hold := hidle w hw
    · exact lt_of_lt_of_le (h.below w hold) hnext
    · exact lt_of_lt_of_le (h.apart j w hold).1 hnext
  · by_cases hkj : k = j
    · rw [hkj, hself] at hk
      obtain ⟨hqueue, hfrom⟩ := hworker w hk
      refine ⟨?_, hqueue⟩
      obtain hsame | hqueued | ⟨hfresh, hmore⟩ := hfrom
      · exact lt_of_lt_of_le (h.apart j w hsame).1 hnext
      · exact lt_of_lt_of_le (h.below w hqueued) hnext
      · omega
    · rw [hother k hkj] at hk
      refine ⟨lt_of_lt_of_le (h.apart k w hk).1 hnext, fun hw => ?_⟩
      obtain hold | hold := hidle w hw
      · exact (h.apart k w hk).2 hold
      · exact hkj (h.single k j w hk hold)
  · by_cases hkj : k = j <;> by_cases hlj : l = j
    · rw [hkj, hlj]
    · rw [hkj, hself] at hk
      rw [hother l hlj] at hl
      exact absurd hk (hkept l w hlj hl)
    · rw [hlj, hself] at hl
      rw [hother k hkj] at hk
      exact absurd hl (hkept k w hkj hk)
    · rw [hother k hkj] at hk
      rw [hother l hlj] at hl
      exact h.single k l w hk hl
  · obtain hqueue | hnew | ⟨hold, hunqueued, hunowned⟩ := halive w hw
    · exact .inl hqueue
    · exact .inr ⟨j, hself ▸ hnew⟩
    · obtain hqueued | ⟨k, hk⟩ := h.alive w hold
      · exact absurd hqueued hunqueued
      · have hkj : k ≠ j := fun hkj => hunowned (hkj ▸ hk)
        exact .inr ⟨k, by rw [hother k hkj, hk]⟩

theorem Owned.born (h : Owned s) (hw : (s.workers w).alive = true) : w < s.nextWorker := by
  obtain hqueued | ⟨j, hj⟩ := h.alive w hw
  · exact h.below w hqueued
  · exact (h.apart j w hj).1

/-- A live worker is in the queue, this call's or another's. -/
theorem placed (s : Pool ρ) (j : Nat) (hw : (s.workers w).alive = true) : w ∈ s.idle ∨ (s.jobs j).worker = some w ∨
    (s.workers w).alive = true ∧ w ∉ s.idle ∧ (s.jobs j).worker ≠ some w := by
  by_cases hqueued : w ∈ s.idle
  · exact .inl hqueued
  · by_cases hown : (s.jobs j).worker = some w
    · exact .inr (.inl hown)
    · exact .inr (.inr ⟨hw, hqueued, hown⟩)

/-- The workers of a pool whose calls only change in other ways. -/
theorem Owned.setJob (h : Owned s) (hworker : job.worker = (s.jobs j).worker)
    (hspawns : job.stage.spawns = true → (s.jobs j).stage.spawns = true) : Owned (s.setJob j job) := by
  refine h.change rfl (fun n hn hbound => ?_) (Nat.le_refl _) h.nodup (fun w => .inl) (fun w hw => ?_) (fun w hw => ?_)
  · have hweighs : job.weighs.toNat ≤ (s.jobs j).weighs.toNat := by
      rw [Job.weighs, Job.weighs, hworker]
      cases hold : (s.jobs j).stage.spawns with
      | true => simpa using Bool.toNat_le _
      | false =>
        have hnew : job.stage.spawns = false := by
          rw [Bool.eq_false_iff]
          intro hnew
          simp [hspawns hnew] at hold
        rw [hnew]
    have hsame : (s.setJob j job).idle = s.idle := rfl
    rw [hsame]
    omega
  · rw [hworker] at hw
    exact ⟨(h.apart j w hw).2, .inl hw⟩
  · obtain hqueued | hown | hother := placed s j hw
    · exact .inl hqueued
    · exact .inr (.inl (hworker.trans hown))
    · exact .inr (.inr hother)

theorem Owned.goTo (h : Owned s) (hspawns : stage.spawns = true → (s.jobs j).stage.spawns = true) : Owned (s.goTo j stage) :=
  h.setJob rfl hspawns

theorem Owned.take (h : Owned s) : Owned (s.take slot j) :=
  Owned.setJob (s := { s with available := _, taken := _ }) ⟨h.weight, h.nodup, h.below, h.apart, h.single, h.alive⟩ rfl id

theorem Owned.give (h : Owned s) : Owned (s.give slot j) :=
  Owned.setJob (s := { s with available := _, given := _ }) ⟨h.weight, h.nodup, h.below, h.apart, h.single, h.alive⟩ rfl id

theorem Owned.setWorker (h : Owned s) (halive : worker.alive = true → (s.workers w).alive = true) : Owned (s.setWorker w worker) := by
  refine ⟨h.weight, h.nodup, h.below, h.apart, h.single, fun v hv => h.alive v ?_⟩
  by_cases hvw : v = w
  · rw [hvw, setWorker_self] at hv
    rw [hvw]
    exact halive hv
  · rwa [setWorker_of_ne hvw] at hv

theorem Owned.dropLease (h : Owned s) : Owned (s.dropLease j answer) := by
  have hleft : Owned (s.goTo j (.leaving answer)) := h.goTo (by simp [Stage.spawns])
  unfold Pool.dropLease
  dsimp only
  split
  · exact hleft.give
  · exact hleft

theorem Owned.resolve {script watchUrl server : Text} {deadline : Nat} (h : Owned s) (hunused : (s.jobs s.nextJob).worker = none) :
    Owned (s.resolve script watchUrl server deadline) := by
  have hcounted : Owned { s with nextJob := s.nextJob + 1 } := ⟨h.weight, h.nodup, h.below, h.apart, h.single, h.alive⟩
  unfold Pool.resolve
  dsimp only
  split
  · exact hcounted.setJob hunused.symm (by simp [Stage.spawns])
  · exact (hcounted.setJob hunused.symm (by simp [Stage.spawns])).take

theorem Owned.acquire (h : Owned s) : Owned (s.acquire j) := by
  unfold Pool.acquire
  split
  · split
    · exact h
    · exact (h.goTo (by simp [Stage.spawns])).take
  · exact h

/-- Where the queue is empty, the permits alone bound the workers. -/
theorem Owned.popFront {now : Nat} (h : Owned s) (hunowned : (s.jobs j).stage = .leased → (s.jobs j).worker = none)
    (hpermits : ∀ n, Tally (fun j => (s.jobs j).weighs = true) n → (s.jobs j).stage = .leased → n < maxWorkers) :
    Owned (s.popFront j now) := by
  have hone (job : Job ρ) : job.weighs.toNat ≤ 1 := Bool.toNat_le _
  unfold Pool.popFront
  split
  · rename_i hstage
    have hnone := hunowned hstage
    split
    · rename_i hempty
      refine h.change rfl (fun n hn _ => ?_) (Nat.le_refl _) h.nodup (fun w => .inl) (fun w hw => ?_) (fun w hw => ?_)
      · have hroom : 0 + n + 1 ≤ maxWorkers := by
          have hfewer := hpermits n hn hstage
          omega
        have hnobody : (s.goTo j .spawning).idle.length = 0 := List.length_eq_zero_iff.mpr hempty
        rw [hnobody]
        exact le_trans (Nat.add_le_add_left (hone _) _) (le_trans hroom (Nat.le_add_right _ _))
      · simp [hnone] at hw
      · refine (placed s j hw).imp_right fun hplaced => .inr ?_
        simpa [hnone] using hplaced
    · rename_i w idle hidle
      have hnodup := h.nodup
      rw [hidle, List.nodup_cons] at hnodup
      dsimp only
      refine h.change rfl (fun n _ hbound => ?_) (Nat.le_refl _) hnodup.2 (fun v hv => .inl ?_) (fun v hv => ?_) (fun v hv => ?_)
      · rw [hidle, List.length_cons] at hbound
        refine le_trans (Nat.add_le_add_left (hone _) _) ?_
        have hshorter : idle.length + n + 1 ≤ maxWorkers := by omega
        exact le_trans hshorter (Nat.le_add_right _ _)
      · rw [hidle]
        exact List.mem_cons_of_mem w hv
      · rw [Option.some.injEq] at hv
        rw [← hv]
        exact ⟨hnodup.1, .inr (.inl (by simp [hidle]))⟩
      · obtain hqueued | hown | hother := placed s j hv
        · rw [hidle, List.mem_cons] at hqueued
          obtain rfl | hqueued := hqueued
          · exact .inr (.inl rfl)
          · exact .inl hqueued
        · simp [hnone] at hown
        · exact .inr (.inr hother)
  · exact h

/-- A call is rid of its worker, which is dead then. -/
theorem Owned.kill (h : Owned s) (hw : (s.jobs j).worker = some w) (hnone : job.worker = none) (hspawns : job.stage.spawns = false) :
    Owned ((s.exit w).setJob j job) := by
  have hdead : Owned (s.exit w) := h.setWorker (by simp)
  refine hdead.change rfl (fun n _ hbound => ?_) (Nat.le_refl _) h.nodup (fun v => .inl) (fun v hv => ?_) (fun v hv => ?_)
  · have hlight : job.weighs = false := by rw [Job.weighs, hnone, hspawns]; rfl
    rw [hlight]
    exact Nat.le_add_right_of_le hbound
  · rw [hnone] at hv
    contradiction
  · have hlives : ((s.exit w).workers v).alive = true := hv
    obtain hqueued | hown | hother := placed (s.exit w) j hlives
    · exact .inl hqueued
    · have hsame : (s.jobs j).worker = some v := hown
      rw [hw, Option.some.injEq] at hsame
      rw [← hsame, Pool.exit, setWorker_self] at hlives
      contradiction
    · exact .inr (.inr hother)

theorem Owned.retire (h : Owned s) : Owned (s.retire j) := by
  unfold Pool.retire
  split
  · rename_i w _ hw
    exact h.kill hw rfl rfl
  · exact h

theorem Owned.cleanUp (h : Owned s) : Owned (s.cleanUp j) := by
  unfold Pool.cleanUp
  split
  · rename_i w hstage hw
    exact (h.kill hw rfl (by rw [hstage]; rfl)).give
  · rename_i w hstage hw
    exact (h.kill hw rfl (by rw [hstage]; rfl)).give
  · exact h

theorem Owned.spawn {now : Nat} {spawned : Bool} (h : Owned s) (hunowned : (s.jobs j).stage = .spawning → (s.jobs j).worker = none) :
    Owned (s.spawn j now spawned) := by
  unfold Pool.spawn
  split
  · rename_i hstage
    have hnone := hunowned hstage
    split
    · refine h.change rfl (fun n _ hbound => ?_) (Nat.le_succ _) h.nodup (fun v => .inl) (fun v hv => ?_) (fun v hv => ?_)
      · have hweighs : (s.jobs j).weighs = true := by rw [Job.weighs, hstage, hnone]; rfl
        rw [hweighs]
        exact Nat.add_le_add_right hbound 1
      · rw [Option.some.injEq] at hv
        rw [← hv]
        refine ⟨fun hqueued => ?_, .inr (.inr ⟨rfl, Nat.lt_succ_self _⟩)⟩
        exact absurd (h.below _ hqueued) (lt_irrefl _)
      · by_cases hnew : v = s.nextWorker
        · exact .inr (.inl (by rw [hnew]))
        · have hold : (s.workers v).alive = true := by
            rw [← setWorker_of_ne (s := s) hnew]
            exact hv
          obtain hqueued | hown | hother := placed s j hold
          · exact .inl hqueued
          · simp [hnone] at hown
          · exact .inr (.inr hother)
    · exact h.dropLease
  · exact h

theorem Owned.send {now : Nat} (h : Owned s) : Owned (s.send j now) := by
  unfold Pool.send
  split
  · rename_i w hstage hw
    dsimp only
    split
    · exact h.dropLease
    · exact (h.setWorker (by simp)).goTo (by simp [Stage.spawns])
  · exact h

theorem Owned.read (h : Owned s) : Owned (s.read parse j) := by
  unfold Pool.read
  split
  · rename_i w _ _
    dsimp only
    split
    · exact h
    · rename_i line output _
      have hconsumed : Owned (s.setWorker w { s.workers w with output }) := h.setWorker id
      split
      · exact hconsumed.dropLease
      · exact hconsumed.dropLease
      · exact hconsumed.goTo (by simp [Stage.spawns])
  · exact h

theorem Owned.pushBack {now : Nat} (h : Owned s) : Owned (s.pushBack j now) := by
  unfold Pool.pushBack
  split
  · rename_i answer w hstage hw
    obtain ⟨hbelow, hunqueued⟩ := h.apart j w hw
    refine h.change rfl (fun n _ hbound => ?_) (Nat.le_refl _) ?_ (fun v hv => ?_) (fun v hv => ?_) (fun v hv => ?_)
    · have hweighs : (s.jobs j).weighs = true := by rw [Job.weighs, hw]; rfl
      have hlonger : (s.idle ++ [w]).length + n ≤ maxWorkers + 1 := by
        rw [List.length_append, List.length_singleton]
        omega
      rw [hweighs]
      exact hlonger
    · refine List.nodup_append.mpr ⟨h.nodup, List.nodup_singleton w, fun v hv u hu => ?_⟩
      rw [List.mem_singleton] at hu
      rw [hu]
      rintro rfl
      exact hunqueued hv
    · obtain hqueued | hnew := List.mem_append.mp hv
      · exact .inl hqueued
      · rw [List.mem_singleton] at hnew
        exact .inr (hnew ▸ hw)
    · contradiction
    · by_cases hvw : v = w
      · exact .inl (List.mem_append.mpr (.inr (by simp [hvw])))
      · have hold : (s.workers v).alive = true := by
          rw [← setWorker_of_ne (s := s) hvw]
          exact hv
        obtain hqueued | hown | hother := placed s j hold
        · exact .inl (List.mem_append_left _ hqueued)
        · rw [hw, Option.some.injEq] at hown
          exact absurd hown.symm hvw
        · exact .inr (.inr hother)
  · exact h

theorem Owned.leave (h : Owned s) : Owned (s.leave j) := by
  unfold Pool.leave
  split <;> first | exact h.dropLease | exact h

theorem Owned.finish (h : Owned s) : Owned (s.finish j) := by
  unfold Pool.finish
  split
  · exact (h.goTo (by simp [Stage.spawns])).give
  · exact h

theorem Owned.workerReads (h : Owned s) : Owned (s.workerReads w) := by
  unfold Pool.workerReads
  dsimp only
  split
  · exact h
  · split
    · exact h.setWorker id
    · exact h

theorem Owned.workerWrites {line : Line} (h : Owned s) : Owned (s.workerWrites parse w line) := by
  unfold Pool.workerWrites
  dsimp only
  split
  · exact h.setWorker id
  · exact h

end Pool

end StreamArena.Resolver.WarmWorkers
