import StreamArena.Library.Tally
import Mathlib.Logic.Function.Basic

/-! The mutex of a key in a map that forgets a lock once nobody else holds a reference to
it: who asks for the lock of the key gets the one in the map, or a new one. -/
namespace KeyLock
open Counting
variable {ι : Type*}

/-- The locks of one key: the one in the map, the references its clients hold, how many
they are besides the map's, and who owns each mutex. -/
structure State (ι : Type*) where
  entry : Option Nat
  fresh : Nat
  reference : ι → Option Nat
  strong : Nat → Nat
  owner : Nat → Option ι

def State.initial : State ι := ⟨none, 0, fun _ => none, fun _ => 0, fun _ => none⟩

def State.Holds (s : State ι) (i : ι) : Prop := ∃ lock, s.reference i = some lock ∧ s.owner lock = some i

/-- Every reference is to the lock in the map. -/
structure State.Sound (s : State ι) : Prop where
  current : ∀ i lock, s.reference i = some lock → s.entry = some lock
  below : ∀ lock, s.entry = some lock → lock < s.fresh
  strong : ∀ lock, Tally (fun i => s.reference i = some lock) (s.strong lock)
  owned : ∀ i lock, s.owner lock = some i → s.reference i = some lock

/-- No two clients are in at once. -/
theorem State.Sound.holds_unique {s : State ι} (hs : s.Sound) {i j : ι} (hi : s.Holds i) (hj : s.Holds j) :
    i = j := by
  obtain ⟨lock, href, howner⟩ := hi
  obtain ⟨lock', href', howner'⟩ := hj
  have hsame : lock = lock' :=
    Option.some.inj ((hs.current i lock href).symm.trans (hs.current j lock' href'))
  rw [← hsame, howner] at howner'
  exact Option.some.inj howner'

theorem State.sound_initial : (State.initial : State ι).Sound where
  current := fun _ _ h => absurd h.symm (Option.some_ne_none _)
  below := fun _ h => absurd h.symm (Option.some_ne_none _)
  strong := fun _ => Tally.of_none fun _ h => absurd h.symm (Option.some_ne_none _)
  owned := fun _ _ h => absurd h.symm (Option.some_ne_none _)

/-- A client takes its mutex when no one has it. -/
def State.acquire (s : State ι) (i : ι) : State ι :=
  match s.reference i with
  | none => s
  | some lock =>
    match s.owner lock with
    | some _ => s
    | none => { s with owner := Function.update s.owner lock (some i) }

/-- The map forgets a lock that only it refers to. -/
def State.prune (s : State ι) : State ι :=
  match s.entry with
  | none => s
  | some lock => if s.strong lock = 0 then { s with entry := none } else s

variable {s : State ι} {i j : ι}

theorem State.Sound.acquire (hs : s.Sound) (i : ι) : (s.acquire i).Sound := by
  unfold State.acquire
  split
  · exact hs
  · next lock href =>
    split
    · exact hs
    · refine ⟨hs.current, hs.below, hs.strong, fun j lock' hj => ?_⟩
      dsimp only at hj
      by_cases hlock : lock' = lock
      · rw [hlock, Function.update_self] at hj
        rw [← Option.some.inj hj, hlock, href]
      · rw [Function.update_of_ne hlock] at hj
        exact hs.owned j lock' hj

/-- A lock that someone refers to is not forgotten. -/
theorem State.Sound.prune (hs : s.Sound) : s.prune.Sound := by
  unfold State.prune
  split
  · exact hs
  · next lock hentry =>
    split
    · next hzero =>
      refine ⟨fun j lock' hj => ?_, fun lock' h => absurd h.symm (Option.some_ne_none _), hs.strong,
        hs.owned⟩
      have hsame : lock = lock' := Option.some.inj (hentry.symm.trans (hs.current j lock' hj))
      have htally := hs.strong lock
      rw [hzero] at htally
      exact absurd (hsame ▸ hj) (htally.not_of_zero j)
    · exact hs

theorem State.Holds.acquire (h : s.Holds j) : (s.acquire i).Holds j := by
  obtain ⟨lock, href, howner⟩ := h
  unfold State.acquire
  split
  · exact ⟨lock, href, howner⟩
  · next lock' _ =>
    split
    · exact ⟨lock, href, howner⟩
    · next hfree =>
      have hne : lock ≠ lock' := by
        rintro rfl
        rw [howner] at hfree
        cases hfree
      exact ⟨lock, href, (Function.update_of_ne hne _ _).trans howner⟩

theorem State.Holds.prune (h : s.Holds j) : s.prune.Holds j := by
  unfold State.prune
  split
  · exact h
  · split <;> exact h

section clients
variable [DecidableEq ι]

instance (s : State ι) (i : ι) : Decidable (s.Holds i) :=
  decidable_of_iff ((s.reference i).any fun lock => decide (s.owner lock = some i)) (by
    cases h : s.reference i <;> simp [State.Holds, h])

/-- A client without a reference asks the map for one. -/
def State.refer (s : State ι) (i : ι) : State ι :=
  match s.reference i with
  | some _ => s
  | none =>
    let lock := s.entry.getD s.fresh
    { s with
      entry := some lock
      fresh := if s.entry.isSome then s.fresh else s.fresh + 1
      reference := Function.update s.reference i (some lock)
      strong := Function.update s.strong lock (s.strong lock + 1) }

/-- A client lets go of its mutex, if it has it, and of its reference. -/
def State.release (s : State ι) (i : ι) : State ι :=
  match s.reference i with
  | none => s
  | some lock =>
    { s with
      reference := Function.update s.reference i none
      strong := Function.update s.strong lock (s.strong lock - 1)
      owner := if s.owner lock = some i then Function.update s.owner lock none else s.owner }

theorem State.Sound.refer (hs : s.Sound) (i : ι) : (s.refer i).Sound := by
  unfold State.refer
  split
  · exact hs
  · next hnone =>
    have hcurrent (j : ι) (lock : Nat) (h : s.reference j = some lock) :
        lock = s.entry.getD s.fresh := by
      rw [hs.current j lock h, Option.getD_some]
    refine ⟨fun j lock hj => ?_, fun lock hlock => ?_, fun lock => ?_, fun j lock hj => ?_⟩ <;>
      dsimp only at *
    · by_cases hji : j = i
      · rwa [hji, Function.update_self] at hj
      · rw [Function.update_of_ne hji] at hj
        rw [hcurrent j lock hj]
    · obtain rfl := Option.some.inj hlock
      cases hentry : s.entry with
      | none => simp
      | some lock => simpa using hs.below lock hentry
    · by_cases hlock : lock = s.entry.getD s.fresh
      · rw [hlock, Function.update_self]
        refine (hs.strong _).add (i := i) (by rw [hnone]; exact (Option.some_ne_none _).symm) fun j => ?_
        by_cases hji : j = i
        · simp [hji]
        · simp [hji]
      · rw [Function.update_of_ne hlock]
        refine (hs.strong lock).congr fun j => ?_
        by_cases hji : j = i
        · simp [hji, hnone, Ne.symm hlock]
        · rw [Function.update_of_ne hji]
    · have hold := hs.owned j lock hj
      have hji : j ≠ i := by
        rintro rfl
        rw [hnone] at hold
        cases hold
      rwa [Function.update_of_ne hji]

theorem State.Sound.release (hs : s.Sound) (i : ι) : (s.release i).Sound := by
  unfold State.release
  split
  · exact hs
  · next lock href =>
    have hrest {j : ι} {lock' : Nat} (h : Function.update s.reference i none j = some lock') :
        j ≠ i ∧ s.reference j = some lock' := by
      by_cases hji : j = i
      · rw [hji, Function.update_self] at h
        cases h
      · rw [Function.update_of_ne hji] at h
        exact ⟨hji, h⟩
    refine ⟨fun j lock' hj => hs.current j lock' (hrest hj).2, hs.below, fun lock' => ?_,
      fun j lock' hj => ?_⟩ <;> dsimp only at *
    · by_cases hlock : lock' = lock
      · rw [hlock, Function.update_self]
        refine (hs.strong lock).remove (i := i) href fun j => ⟨hrest, fun hj => ?_⟩
        rw [Function.update_of_ne hj.1]
        exact hj.2
      · rw [Function.update_of_ne hlock]
        refine (hs.strong lock').congr fun j => ⟨fun hj => (hrest hj).2, fun hj => ?_⟩
        have hji : j ≠ i := by
          rintro rfl
          exact hlock (Option.some.inj (hj.symm.trans href))
        rwa [Function.update_of_ne hji]
    · have hold : s.owner lock' = some j ∧ j ≠ i := by
        by_cases howner : s.owner lock = some i
        · rw [if_pos howner] at hj
          by_cases hlock : lock' = lock
          · rw [hlock, Function.update_self] at hj
            cases hj
          · rw [Function.update_of_ne hlock] at hj
            refine ⟨hj, ?_⟩
            rintro rfl
            exact hlock (Option.some.inj ((hs.owned j lock' hj).symm.trans href))
        · rw [if_neg howner] at hj
          refine ⟨hj, ?_⟩
          rintro rfl
          have hsame := Option.some.inj ((hs.owned j lock' hj).symm.trans href)
          exact howner (hsame ▸ hj)
      rw [Function.update_of_ne hold.2]
      exact hs.owned j lock' hold.1

theorem State.Holds.refer (h : s.Holds j) : (s.refer i).Holds j := by
  obtain ⟨lock, href, howner⟩ := h
  unfold State.refer
  split
  · exact ⟨lock, href, howner⟩
  · next hnone =>
    have hji : j ≠ i := by
      rintro rfl
      rw [hnone] at href
      cases href
    exact ⟨lock, (Function.update_of_ne hji _ _).trans href, howner⟩

theorem State.Holds.release (h : s.Holds j) (hji : j ≠ i) : (s.release i).Holds j := by
  obtain ⟨lock, href, howner⟩ := h
  unfold State.release
  split
  · exact ⟨lock, href, howner⟩
  · next lock' _ =>
    refine ⟨lock, (Function.update_of_ne hji _ _).trans href, ?_⟩
    dsimp only
    split
    · next hi =>
      have hne : lock ≠ lock' := by
        rintro rfl
        exact hji (Option.some.inj (howner.symm.trans hi))
      rw [Function.update_of_ne hne, howner]
    · exact howner

end clients

end KeyLock
