import Mathlib.Data.Finset.Card

/-! Counters that say how many clients are in a state, kept by adding and taking off one. -/
namespace Counting
variable {ι : Type*} {p q : ι → Prop} {n : Nat} {i : ι}

/-- As many indices have the property as the counter says. -/
def Tally (p : ι → Prop) (n : Nat) : Prop :=
  ∃ members : Finset ι, (∀ i, i ∈ members ↔ p i) ∧ members.card = n

theorem Tally.of_none (h : ∀ i, ¬ p i) : Tally p 0 :=
  ⟨∅, fun i => by simpa using h i, Finset.card_empty⟩

theorem Tally.congr (h : Tally p n) (hpq : ∀ i, q i ↔ p i) : Tally q n := by
  obtain ⟨members, hmem, hcard⟩ := h
  exact ⟨members, fun i => (hmem i).trans (hpq i).symm, hcard⟩

theorem Tally.pos (h : Tally p n) (hi : p i) : 0 < n := by
  obtain ⟨members, hmem, rfl⟩ := h
  exact Finset.card_pos.mpr ⟨i, (hmem i).mpr hi⟩

theorem Tally.not_of_zero (h : Tally p 0) (i : ι) : ¬ p i :=
  fun hi => absurd (h.pos hi) (lt_irrefl 0)

theorem Tally.eq_zero (h : Tally p n) (hnone : ∀ i, ¬ p i) : n = 0 := by
  obtain ⟨members, hmem, rfl⟩ := h
  rw [Finset.card_eq_zero]
  exact Finset.eq_empty_of_forall_notMem fun i hi => hnone i ((hmem i).mp hi)

/-- The only one counted is the last. -/
theorem Tally.eq_of_one (h : Tally p 1) {j : ι} (hi : p i) (hj : p j) : i = j := by
  obtain ⟨members, hmem, hcard⟩ := h
  exact Finset.card_le_one.mp (le_of_eq hcard) i ((hmem i).mpr hi) j ((hmem j).mpr hj)

theorem Tally.exists_ne (h : Tally p n) (hn : 1 < n) (i : ι) : ∃ j, j ≠ i ∧ p j := by
  obtain ⟨members, hmem, rfl⟩ := h
  obtain ⟨j, hj, hne⟩ := Finset.exists_mem_ne hn i
  exact ⟨j, hne, (hmem j).mp hj⟩

theorem Tally.add [DecidableEq ι] (h : Tally p n) (hi : ¬ p i) (hq : ∀ j, q j ↔ j = i ∨ p j) :
    Tally q (n + 1) := by
  obtain ⟨members, hmem, rfl⟩ := h
  refine ⟨insert i members, fun j => ?_, Finset.card_insert_of_notMem fun hin => hi ((hmem i).mp hin)⟩
  rw [Finset.mem_insert, hmem, hq]

theorem Tally.remove [DecidableEq ι] (h : Tally p n) (hi : p i) (hq : ∀ j, q j ↔ j ≠ i ∧ p j) :
    Tally q (n - 1) := by
  obtain ⟨members, hmem, rfl⟩ := h
  refine ⟨members.erase i, fun j => ?_, Finset.card_erase_of_mem ((hmem i).mpr hi)⟩
  rw [Finset.mem_erase, hmem, hq]

theorem Tally.le {m : Nat} (h : Tally p n) (h' : Tally q m) (himp : ∀ i, p i → q i) : n ≤ m := by
  obtain ⟨members, hmem, rfl⟩ := h
  obtain ⟨members', hmem', rfl⟩ := h'
  exact Finset.card_le_card fun i hi => (hmem' i).mpr (himp i ((hmem i).mp hi))

/-- One client moves from a state to another. -/
theorem Tally.update [DecidableEq ι] {α : Type*} {f : ι → α} {x : α} {m : Nat} (p : α → Bool) (h : Tally (fun i => p (f i) = true) n)
    (hm : m + (p (f i)).toNat = n + (p x).toNat) : Tally (fun j => p (Function.update f i x j) = true) m := by
  have happly (j : ι) : p (Function.update f i x j) = true ↔ (j = i ∧ p x = true) ∨ (j ≠ i ∧ p (f j) = true) := by
    by_cases hj : j = i
    · simp [hj]
    · simp [hj]
  cases hold : p (f i) <;> cases hnew : p x <;> rw [hold, hnew] at hm <;> simp only [Bool.toNat_false, Bool.toNat_true] at hm
  · rw [show m = n by omega]
    refine h.congr fun j => (happly j).trans ?_
    by_cases hj : j = i <;> simp [hj, hold, hnew]
  · rw [show m = n + 1 by omega]
    refine h.add (i := i) (by simp [hold]) fun j => (happly j).trans ?_
    by_cases hj : j = i <;> simp [hj, hold, hnew]
  · rw [show m = n - 1 by omega]
    refine h.remove (i := i) hold fun j => (happly j).trans ?_
    by_cases hj : j = i <;> simp [hj, hnew]
  · rw [show m = n by omega]
    refine h.congr fun j => (happly j).trans ?_
    by_cases hj : j = i <;> simp [hj, hold, hnew]

end Counting
