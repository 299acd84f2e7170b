import Mathlib

/-! The Gregorian calendar without end in either direction, and the counting of its days from one to the next. -/
namespace Calendar

@[ext]
structure Civil where
  year : Int
  month : Int
  day : Int
  deriving DecidableEq

def isLeap (year : Int) : Prop := 4 ∣ year ∧ (¬100 ∣ year ∨ 400 ∣ year)

instance (year : Int) : Decidable (isLeap year) := inferInstanceAs (Decidable (_ ∧ _))

def monthLength (year month : Int) : Int :=
  if month = 2 then if isLeap year then 29 else 28
  else if month = 4 ∨ month = 6 ∨ month = 9 ∨ month = 11 then 30
  else 31

structure Civil.Valid (c : Civil) : Prop where
  month : 1 ≤ c.month ∧ c.month ≤ 12
  day : 1 ≤ c.day ∧ c.day ≤ monthLength c.year c.month

instance (c : Civil) : Decidable c.Valid :=
  decidable_of_iff ((1 ≤ c.month ∧ c.month ≤ 12) ∧ 1 ≤ c.day ∧ c.day ≤ monthLength c.year c.month)
    ⟨fun h => ⟨h.1, h.2⟩, fun h => ⟨h.month, h.day⟩⟩

/-- The next day. -/
def Civil.next (c : Civil) : Civil :=
  if c.day < monthLength c.year c.month then { c with day := c.day + 1 }
  else if c.month < 12 then ⟨c.year, c.month + 1, 1⟩
  else ⟨c.year + 1, 1, 1⟩

def Civil.Before (c c' : Civil) : Prop :=
  c.year < c'.year ∨ c.year = c'.year ∧ (c.month < c'.month ∨ c.month = c'.month ∧ c.day < c'.day)

/-- How many days a date lies after an epoch, counted from one day to the next in both directions. -/
inductive DayCount (epoch : Civil) : Civil → Int → Prop where
  | epoch : DayCount epoch epoch 0
  | next {c : Civil} {n : Int} : DayCount epoch c n → DayCount epoch c.next (n + 1)
  | previous {c : Civil} {n : Int} : c.Valid → DayCount epoch c.next n → DayCount epoch c (n - 1)

theorem monthLength_bounds (year month : Int) : 28 ≤ monthLength year month ∧ monthLength year month ≤ 31 := by
  unfold monthLength
  split_ifs <;> omega

theorem Civil.Valid.next {c : Civil} (h : c.Valid) : c.next.Valid := by
  obtain ⟨hmonth, hday⟩ := h
  have hlength := monthLength_bounds c.year (c.month + 1)
  have hfirst := monthLength_bounds (c.year + 1) 1
  unfold Civil.next
  split_ifs with hlast hdecember
  · exact ⟨hmonth, by dsimp only; omega, by dsimp only; omega⟩
  · exact ⟨by dsimp only; omega, by dsimp only; omega, by dsimp only; omega⟩
  · exact ⟨by dsimp only; omega, by dsimp only; omega, by dsimp only; omega⟩

theorem Civil.before_trichotomy (c c' : Civil) : c.Before c' ∨ c = c' ∨ c'.Before c := by
  simp only [Civil.Before, Civil.ext_iff]
  omega

section counting
variable {epoch : Civil} {f : Civil → Int}

/-- A numbering that grows by one from day to day counts the days. -/
theorem DayCount.eq (hepoch : epoch.Valid) (hzero : f epoch = 0) (hnext : ∀ c : Civil, c.Valid → f c.next = f c + 1) {c : Civil}
    {n : Int} (h : DayCount epoch c n) : c.Valid ∧ f c = n := by
  induction h with
  | epoch => exact ⟨hepoch, hzero⟩
  | next _ ih => exact ⟨ih.1.next, by rw [hnext _ ih.1, ih.2]⟩
  | previous hvalid _ ih => exact ⟨hvalid, by linarith [hnext _ hvalid, ih.2]⟩

theorem iterate_next (hnext : ∀ c : Civil, c.Valid → f c.next = f c + 1) {c : Civil} (hc : c.Valid) (k : ℕ) :
    (Civil.next^[k] c).Valid ∧ f (Civil.next^[k] c) = f c + k := by
  induction k with
  | zero => exact ⟨hc, by simp⟩
  | succ k ih =>
    rw [Function.iterate_succ_apply']
    refine ⟨ih.1.next, ?_⟩
    rw [hnext _ ih.1, ih.2]
    push_cast
    ring

theorem DayCount.iterate {c : Civil} {n : Int} (h : DayCount epoch c n) (k : ℕ) : DayCount epoch (Civil.next^[k] c) (n + k) := by
  induction k with
  | zero => simpa using h
  | succ k ih =>
    rw [Function.iterate_succ_apply']
    push_cast
    rw [← add_assoc]
    exact ih.next

theorem DayCount.of_iterate {c : Civil} (hc : c.Valid) {n : Int} (k : ℕ) (h : DayCount epoch (Civil.next^[k] c) n) :
    DayCount epoch c (n - k) := by
  induction k generalizing c with
  | zero => simpa using h
  | succ k ih =>
    have hprevious := DayCount.previous hc (ih hc.next h)
    have hcast : n - k - 1 = n - (k + 1 : ℕ) := by
      push_cast
      ring
    rwa [hcast] at hprevious

/-- And where it takes no number twice it is the count. -/
theorem dayCount_iff (hepoch : epoch.Valid) (hzero : f epoch = 0) (hnext : ∀ c : Civil, c.Valid → f c.next = f c + 1)
    (hinjective : ∀ c c' : Civil, c.Valid → c'.Valid → f c = f c' → c = c') {c : Civil} (hc : c.Valid) {n : Int} :
    DayCount epoch c n ↔ f c = n := by
  refine ⟨fun h => (h.eq hepoch hzero hnext).2, ?_⟩
  rintro rfl
  rcases le_total 0 (f c) with hpositive | hnegative
  · obtain ⟨k, hk⟩ := Int.eq_ofNat_of_zero_le hpositive
    obtain ⟨hvalid, hcount⟩ := iterate_next hnext hepoch k
    have hc' := hinjective _ c hvalid hc (by rw [hcount, hzero, hk, zero_add])
    have horigin : DayCount epoch epoch 0 := .epoch
    have hreached := horigin.iterate k
    rw [hc', zero_add] at hreached
    rwa [hk]
  · obtain ⟨k, hk⟩ := Int.eq_ofNat_of_zero_le (neg_nonneg.mpr hnegative)
    obtain ⟨hvalid, hcount⟩ := iterate_next hnext hc k
    have hc' := hinjective _ epoch hvalid hepoch (by rw [hcount, hzero, ← hk]; ring)
    have horigin : DayCount epoch (Civil.next^[k] c) 0 := hc' ▸ .epoch
    have hreached := horigin.of_iterate hc k
    rwa [← hk, zero_sub, neg_neg] at hreached

end counting

end Calendar
