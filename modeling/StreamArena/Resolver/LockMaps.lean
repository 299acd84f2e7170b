import StreamArena.Library.AsciiText
import StreamArena.Library.Runs
import StreamArena.Library.SharedLocks

/-! The resolver's maps of locks and permits by key (src/provider_budget.rs, src/key_lock.rs,
src/resolver.rs, src/resolver/real_debrid.rs), and the passes that prune them. -/
namespace StreamArena.Resolver.LockMaps
open AsciiText Counting KeyedTable Runs SharedLocks

/-- The maps; the budgets have a configured size. -/
inductive LockMap where
  | resolveLocks
  | providerBudgets (maxPerProvider : Nat)
  | tokenLocks
  | lazyHlsLocks

/-- Where a pass begins: at the regular sweep, or in a call that asks for a lock. -/
inductive Site where
  | sweep
  | caller

def resolveLockMaxEntries : Nat := 1024
def rdLazyHlsCacheMaxEntries : Nat := 512

namespace LockMap

/-- A mutex is a permit for one. -/
def permits : LockMap → Nat
  | .providerBudgets maxPerProvider => max maxPerProvider 1
  | .resolveLocks | .tokenLocks | .lazyHlsLocks => 1

/-- The entry that is asked for; there is none for a provider without a name. -/
def key : LockMap → Text → Option Text
  | .providerBudgets _, provider =>
    let provider := toAsciiLowercase (trim provider)
    if provider.isEmpty then none else some provider
  | .resolveLocks, key | .tokenLocks, key | .lazyHlsLocks, key => some key

/-- What a pass keeps an entry for, by its free permits and its references. -/
def keeps : LockMap → Nat → Nat → Bool
  | .providerBudgets maxPerProvider, availablePermits, strongCount =>
    availablePermits != max maxPerProvider 1 || decide (1 < strongCount)
  | .resolveLocks, _, strongCount | .tokenLocks, _, strongCount | .lazyHlsLocks, _, strongCount =>
    decide (1 < strongCount)

/-- Whether a pass goes over a map of so many entries. -/
def prunes : LockMap → Site → Nat → Bool
  | .resolveLocks, .caller, len => decide (¬ len ≤ resolveLockMaxEntries)
  | .resolveLocks, .sweep, _ => false
  | .lazyHlsLocks, .caller, len => decide (rdLazyHlsCacheMaxEntries ≤ len)
  | .providerBudgets _, .caller, _ | .tokenLocks, .caller, _ => false
  | .providerBudgets _, .sweep, _ | .tokenLocks, .sweep, _ | .lazyHlsLocks, .sweep, _ => true

attribute [local simp] prunes

theorem keeps_of_shared (map : LockMap) (availablePermits strongCount : Nat) (h : 1 < strongCount) :
    map.keeps availablePermits strongCount = true := by
  cases map <;> simp [keeps, h]

end LockMap

/-- A map, and how many passes are under way. -/
structure Locks (ι : Type*) where
  map : State Text ι
  passes : Nat

def Locks.initial {ι : Type*} : Locks ι := ⟨.initial, 0⟩

/-- What can happen next, one access to an entry at a time. Who is next of those that wait
is left open, and a wait that times out or a dropped call lets its reference go. -/
inductive Action (ι : Type*) where
  | ask (client : ι) (name : Text)
  | take (client : ι)
  | giveBack (client : ι)
  | letGo (client : ι)
  | beginPass (site : Site)
  | retain (key : Text)
  | endPass

section system
variable {ι : Type*} [DecidableEq ι]

def step (map : LockMap) (s : Locks ι) : Action ι → Locks ι
  | .ask client name =>
    match map.key name with
    | none => s
    | some key => { s with map := s.map.ask map.permits client key }
  | .take client => { s with map := s.map.take client }
  | .giveBack client => { s with map := s.map.giveBack client }
  | .letGo client => { s with map := s.map.letGo client }
  | .beginPass site => if map.prunes site s.map.entries.rows.length then { s with passes := s.passes + 1 } else s
  | .retain key => if s.passes = 0 then s else { s with map := s.map.retain map.keeps key }
  | .endPass => { s with passes := s.passes - 1 }

/-- No more clients hold a lock of one key than the map has permits for it. -/
def WithinPermits (map : LockMap) (s : Locks ι) : Prop :=
  ∀ key, ∃ holders ≤ map.permits, Tally (Clients s.map.reference (Reference.Holds key)) holders

/-- An entry goes only when no client holds it or waits for it. -/
def PrunesIdle (map : LockMap) (s : Locks ι) (action : Action ι) : Prop :=
  ∀ key, s.map.entries.get key ≠ none → (step map s action).map.entries.get key = none →
    ∀ client r, s.map.reference client = some r → r.key ≠ key

variable {map : LockMap} {s : Locks ι}

attribute [local simp] step

theorem sound_step (hs : s.map.Sound map.permits) (action : Action ι) : (step map s action).map.Sound map.permits := by
  cases action with
  | ask client name =>
    simp only [step]
    split
    · exact hs
    · exact hs.ask client _
  | take client => exact hs.take client
  | giveBack client => exact hs.giveBack client
  | letGo client => exact hs.letGo client
  | beginPass site =>
    simp only [step]
    split <;> exact hs
  | retain key =>
    simp only [step]
    split
    · exact hs
    · exact hs.retain map.keeps_of_shared key
  | endPass => exact hs

/-- What becomes of an entry: only a pass drops one, and only what it does not keep. -/
theorem dropped_step {action : Action ι} {key : Text} {lock : Nat} (hentry : s.map.entries.get key = some lock)
    (hgone : (step map s action).map.entries.get key = none) :
    map.keeps (s.map.available lock) (s.map.strong lock) = false := by
  have hkept {t : Locks ι} (h : t.map.entries.get key = some lock) : ¬ t.map.entries.get key = none := by
    rw [h]
    exact Option.some_ne_none lock
  cases action with
  | ask client name =>
    simp only [step] at hgone
    split at hgone
    · exact absurd hgone (hkept hentry)
    · unfold State.ask at hgone
      split at hgone
      · exact absurd hgone (hkept hentry)
      · split at hgone
        · exact absurd hgone (hkept hentry)
        · next hnone =>
          simp only [get_upsert] at hgone
          split at hgone
          · cases hgone
          · exact absurd hgone (hkept hentry)
  | take client =>
    simp only [step, State.take] at hgone
    split at hgone
    · split at hgone <;> exact absurd hgone (hkept hentry)
    · exact absurd hgone (hkept hentry)
  | giveBack client =>
    simp only [step, State.giveBack] at hgone
    split at hgone <;> exact absurd hgone (hkept hentry)
  | letGo client =>
    simp only [step, State.letGo] at hgone
    split at hgone <;> exact absurd hgone (hkept hentry)
  | beginPass site =>
    simp only [step] at hgone
    split at hgone <;> exact absurd hgone (hkept hentry)
  | retain key' =>
    simp only [step] at hgone
    split at hgone
    · exact absurd hgone (hkept hentry)
    · unfold State.retain at hgone
      split at hgone
      · exact absurd hgone (hkept hentry)
      · next lock' hentry' =>
        split at hgone
        · exact absurd hgone (hkept hentry)
        · next hdrop =>
          rw [get_deleteWhere, hentry] at hgone
          by_cases hkey : key = key'
          · rw [hkey, hentry', Option.some.injEq] at hentry
            rw [← hentry]
            simpa using hdrop
          · simp [hkey] at hgone
  | endPass => exact absurd hgone (hkept hentry)

theorem prunesIdle_of_sound (hs : s.map.Sound map.permits) (action : Action ι) : PrunesIdle map s action := by
  intro key hentry hgone client r hr hkey
  obtain ⟨lock, hlock⟩ := Option.ne_none_iff_exists'.mp hentry
  have hcurrent := hs.current client r hr
  rw [hkey, hlock] at hcurrent
  exact hs.idle_of_retain map.keeps_of_shared hlock (dropped_step hlock hgone) client r hr
    (Option.some.inj hcurrent).symm

/-- However its clients and its passes interleave, a map gives no key to more clients than it
has permits for, and it drops no entry that is held or waited for. -/
theorem exclusive_under_pruning (map : LockMap) (actions : List (Action ι)) :
    Throughout (step map) (WithinPermits map) .initial actions ∧
      Each (step map) (PrunesIdle map) .initial actions := by
  have hinitial : (Locks.initial : Locks ι).map.Sound map.permits := State.sound_initial
  have hstep : ∀ (s : Locks ι) (action : Action ι), s.map.Sound map.permits → (step map s action).map.Sound map.permits :=
    fun s action hs => sound_step hs action
  constructor
  · exact (throughout_of_step hstep hinitial).imp fun s hs key => hs.atMost key
  · exact each_of_split fun before action after _ =>
      prunesIdle_of_sound (@Throughout.last _ _ _ _ _ before (throughout_of_step hstep hinitial)) action

end system

/-- A waiter's entry outlives the pass that runs while the permit is handed on. -/
example : (([.ask 0 "Vidzee ".toList, .take 0, .ask 1 "vidzee".toList, .giveBack 0, .letGo 0, .beginPass .sweep,
    .retain "vidzee".toList, .ask 2 "VIDZEE".toList, .take 1, .take 2] : List (Action Nat)).foldl
      (step (.providerBudgets 1)) .initial).map.reference 2 = some ⟨"vidzee".toList, 0, .waiting⟩ := by
  decide +kernel

end StreamArena.Resolver.LockMaps
