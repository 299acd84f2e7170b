import Mathlib.Logic.Function.Basic

/-! Tasks in flight on one thread: each has a number of its own from when it starts to when it
ends, and nothing but its own steps changes it. -/
namespace TaskPool
variable {α : Type*}

/-- The tasks in flight, and the number the next one gets. -/
structure Pool (α : Type*) where
  next : Nat
  get : Nat → Option α
  unused : ∀ n, next ≤ n → get n = none

namespace Pool

def empty : Pool α := ⟨0, fun _ => none, fun _ _ => rfl⟩

def add (p : Pool α) (a : α) : Pool α where
  next := p.next + 1
  get := Function.update p.get p.next (some a)
  unused n hn := by
    rw [Function.update_of_ne (by omega)]
    exact p.unused n (by omega)

/-- Replaces a task, or ends it. -/
def change (p : Pool α) (n : Nat) (f : α → Option α) : Pool α where
  next := p.next
  get := Function.update p.get n ((p.get n).bind f)
  unused m hm := by
    by_cases h : m = n
    · subst h
      rw [Function.update_self, p.unused m hm, Option.bind_none]
    · rw [Function.update_of_ne h, p.unused m hm]

def drop (p : Pool α) (n : Nat) : Pool α := p.change n fun _ => none

def put (p : Pool α) (n : Nat) (a : α) : Pool α := p.change n fun _ => some a

variable {p : Pool α} {a b : α} {n m : Nat}

@[simp] theorem get_empty (n : Nat) : (empty : Pool α).get n = none := rfl

@[simp] theorem next_change (f : α → Option α) : (p.change n f).next = p.next := rfl

@[simp] theorem next_add : (p.add a).next = p.next + 1 := rfl

theorem lt_next (h : p.get n = some a) : n < p.next := by
  by_contra hle
  rw [p.unused n (by omega)] at h
  cases h

theorem get_next : p.get p.next = none := p.unused _ (Nat.le_refl _)

theorem get_add (n : Nat) : (p.add a).get n = if n = p.next then some a else p.get n :=
  Function.update_apply ..

theorem get_change (f : α → Option α) (m : Nat) :
    (p.change n f).get m = if m = n then (p.get n).bind f else p.get m :=
  Function.update_apply ..

/-- A task found after one was added is that one or was there before. -/
theorem get_add_eq_some : (p.add a).get n = some b ↔ n = p.next ∧ a = b ∨ p.get n = some b := by
  rw [get_add]
  split
  · next h =>
    subst h
    simp [get_next]
  · next h => simp [h]

/-- A task found after one was changed comes from that one or is another. -/
theorem get_change_eq_some {f : α → Option α} :
    (p.change n f).get m = some b ↔ (m = n ∧ ∃ a, p.get n = some a ∧ f a = some b) ∨ m ≠ n ∧ p.get m = some b := by
  rw [get_change]
  split
  · next h =>
    subst h
    simp [Option.bind_eq_some_iff]
  · next h => simp [h]

theorem get_drop_eq_some : (p.drop n).get m = some b ↔ m ≠ n ∧ p.get m = some b := by
  simp [drop, get_change_eq_some]

/-- Every task in flight has the property. -/
def All (p : Pool α) (P : α → Prop) : Prop := ∀ n a, p.get n = some a → P a

variable {P Q : α → Prop}

theorem all_empty : (empty : Pool α).All P := fun _ _ h => by cases h

theorem All.imp (h : p.All P) (himp : ∀ a, P a → Q a) : p.All Q := fun n a ha => himp a (h n a ha)

theorem All.add (h : p.All P) (ha : P a) : (p.add a).All P := fun n b hb => by
  obtain ⟨-, rfl⟩ | hb := get_add_eq_some.mp hb
  · exact ha
  · exact h n b hb

theorem All.change (h : p.All P) {f : α → Option α} (hf : ∀ a b, p.get n = some a → f a = some b → P b) :
    (p.change n f).All P := fun m b hb => by
  obtain ⟨-, a, ha, hab⟩ | ⟨-, hb⟩ := get_change_eq_some.mp hb
  · exact hf a b ha hab
  · exact h m b hb

theorem All.drop (h : p.All P) : (p.drop n).All P := h.change fun _ _ _ hab => by cases hab

theorem All.put (h : p.All P) (ha : P a) : (p.put n a).All P :=
  h.change fun _ _ _ hab => by rwa [← Option.some.inj hab]

theorem All.foldl_add {β : Type*} {f : β → α} {l : List β} (h : p.All P) (hl : ∀ b ∈ l, P (f b)) :
    (l.foldl (fun p b => p.add (f b)) p).All P := by
  induction l generalizing p with
  | nil => exact h
  | cons b l ih => exact ih (h.add (hl b List.mem_cons_self)) fun b' hb' => hl b' (List.mem_cons_of_mem b hb')

/-- Some task in flight has the property. -/
def Has (p : Pool α) (P : α → Prop) : Prop := ∃ n a, p.get n = some a ∧ P a

theorem not_has_empty : ¬ (empty : Pool α).Has P := fun ⟨_, _, h, _⟩ => by cases h

theorem has_add : (p.add a).Has P ↔ P a ∨ p.Has P := by
  constructor
  · intro ⟨n, b, hb, hP⟩
    obtain ⟨-, rfl⟩ | hb := get_add_eq_some.mp hb
    · exact .inl hP
    · exact .inr ⟨n, b, hb, hP⟩
  · intro h
    obtain hP | ⟨n, b, hb, hP⟩ := h
    · exact ⟨p.next, a, get_add_eq_some.mpr (.inl ⟨rfl, rfl⟩), hP⟩
    · exact ⟨n, b, get_add_eq_some.mpr (.inr hb), hP⟩

theorem Has.of_change {f : α → Option α} (hf : ∀ a b, p.get n = some a → f a = some b → P b → P a)
    (h : (p.change n f).Has P) : p.Has P := by
  obtain ⟨m, b, hb, hP⟩ := h
  obtain ⟨-, a, ha, hab⟩ | ⟨-, hb⟩ := get_change_eq_some.mp hb
  · exact ⟨n, a, ha, hf a b ha hab hP⟩
  · exact ⟨m, b, hb, hP⟩

theorem Has.of_drop (h : (p.drop n).Has P) : p.Has P := h.of_change fun _ _ _ hab => by cases hab

/-- A task that has the property is still there after another one has ended. -/
theorem Has.drop (h : p.Has P) (hn : ∀ a, p.get n = some a → ¬ P a) : (p.drop n).Has P := by
  obtain ⟨m, a, ha, hP⟩ := h
  refine ⟨m, a, get_drop_eq_some.mpr ⟨?_, ha⟩, hP⟩
  intro heq
  exact hn a (heq ▸ ha) hP

theorem Has.change (h : p.Has P) {f : α → Option α}
    (hf : ∀ a, p.get n = some a → P a → ∃ b, f a = some b ∧ P b) : (p.change n f).Has P := by
  obtain ⟨m, a, ha, hP⟩ := h
  by_cases heq : m = n
  · subst heq
    obtain ⟨b, hb, hPb⟩ := hf a ha hP
    exact ⟨m, b, get_change_eq_some.mpr (.inl ⟨rfl, a, ha, hb⟩), hPb⟩
  · exact ⟨m, a, get_change_eq_some.mpr (.inr ⟨heq, ha⟩), hP⟩

/-- No two tasks in flight. -/
def Single (p : Pool α) : Prop := ∀ n m a b, p.get n = some a → p.get m = some b → n = m

theorem single_empty : (empty : Pool α).Single := fun _ _ _ _ h => by cases h

theorem Single.change (h : p.Single) (f : α → Option α) : (p.change n f).Single := fun i j a b hi hj => by
  have hold (k : Nat) (c : α) (hk : (p.change n f).get k = some c) : ∃ c, p.get k = some c := by
    obtain ⟨rfl, c, hc, -⟩ | ⟨-, hc⟩ := get_change_eq_some.mp hk
    · exact ⟨c, hc⟩
    · exact ⟨c, hc⟩
  obtain ⟨c, hc⟩ := hold i a hi
  obtain ⟨d, hd⟩ := hold j b hj
  exact h i j c d hc hd

theorem Single.drop (h : p.Single) : (p.drop n).Single := h.change _

/-- After its one task has ended a pool has none. -/
theorem Single.get_drop (h : p.Single) (hn : p.get n = some a) : ∀ m, (p.drop n).get m = none := fun m => by
  cases hm : (p.drop n).get m with
  | none => rfl
  | some b =>
    obtain ⟨hne, hb⟩ := get_drop_eq_some.mp hm
    exact absurd (h m n b a hb hn) hne

theorem single_add (h : ∀ n, p.get n = none) : (p.add a).Single := fun i j b c hi hj => by
  obtain ⟨hi, -⟩ | hi := get_add_eq_some.mp hi
  · obtain ⟨hj, -⟩ | hj := get_add_eq_some.mp hj
    · rw [hi, hj]
    · rw [h] at hj
      cases hj
  · rw [h] at hi
    cases hi

end Pool

end TaskPool
