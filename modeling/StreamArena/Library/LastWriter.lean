import Mathlib.Data.List.MinMax
import Mathlib.Data.Prod.Lex
import Mathlib.Order.WithBot

/-! Last-writer-wins cells with deletion markers, over any linear order of
timestamps. A cell is ranked by its newest effective mutation, a deletion
beating a write of the same time, and every mutation joins its stamp to that
rank. Arrival order and repetition therefore cannot matter. -/
namespace LastWriter
variable {T V : Type*} [LinearOrder T]

inductive Mutation (T V : Type*) where
  | put (time : T) (value : V)
  | delete (time : T)
  deriving DecidableEq

@[ext] structure Cell (T V : Type*) where
  row : Option (T × V) := none
  tombstone : Option T := none
  deriving DecidableEq

def Cell.empty : Cell T V := {}

def Cell.blocked (c : Cell T V) (t : T) : Prop := ∃ d, c.tombstone = some d ∧ t ≤ d

instance (c : Cell T V) (t : T) : Decidable (c.blocked t) :=
  decidable_of_iff ((c.tombstone.elim false fun d => decide (t ≤ d)) = true) (by
    cases h : c.tombstone <;> simp [Cell.blocked, h])

/- A write that is not blocked forgets the older marker even where the row
   turns out to be newer than the write. -/
def Cell.put (c : Cell T V) (t : T) (v : V) : Cell T V :=
  if c.blocked t then c
  else
    { row := match c.row with
        | none => some (t, v)
        | some (t₀, v₀) => if t₀ ≤ t then some (t, v) else some (t₀, v₀)
      tombstone := c.tombstone.filter fun d => t ≤ d }

def Cell.delete (c : Cell T V) (d : T) : Cell T V where
  row := c.row.filter fun r => d < r.1
  tombstone := some (c.tombstone.elim d fun d₀ => max d₀ d)

def Mutation.apply (c : Cell T V) : Mutation T V → Cell T V
  | .put t v => c.put t v
  | .delete d => c.delete d

def run (ms : List (Mutation T V)) (c : Cell T V) : Cell T V := ms.foldl Mutation.apply c

@[simp] theorem run_nil (c : Cell T V) : run [] c = c := rfl
@[simp] theorem run_cons (m : Mutation T V) (ms : List (Mutation T V)) (c : Cell T V) :
    run (m :: ms) c = run ms (m.apply c) := rfl

/-- Rank of one mutation; the flag makes a deletion win a tie. -/
def stamp (t : T) (deleted : Bool) : T ×ₗ Bool := toLex (t, deleted)

def Mutation.stamp : Mutation T V → T ×ₗ Bool
  | .put t _ => LastWriter.stamp t false
  | .delete d => LastWriter.stamp d true

def Cell.version (c : Cell T V) : WithBot (T ×ₗ Bool) :=
  match c.row, c.tombstone with
  | some (t, _), _ => stamp t false
  | none, some d => stamp d true
  | none, none => ⊥

theorem stamp_le {a b : T} {x y : Bool} : stamp a x ≤ stamp b y ↔ a < b ∨ (a = b ∧ x ≤ y) :=
  Prod.Lex.toLex_le_toLex

theorem stamp_lt {a b : T} {x y : Bool} : stamp a x < stamp b y ↔ a < b ∨ (a = b ∧ x < y) :=
  Prod.Lex.toLex_lt_toLex

theorem stamp_le_same {a b : T} {x : Bool} : stamp a x ≤ stamp b x ↔ a ≤ b := by
  simp [stamp_le, le_iff_lt_or_eq (a := a)]

theorem stamp_put_le_delete {a b : T} : stamp a false ≤ stamp b true ↔ a ≤ b := by
  simp [stamp_le, le_iff_lt_or_eq (a := a)]

theorem stamp_delete_le_put {a b : T} : stamp a true ≤ stamp b false ↔ a < b := by
  simp [stamp_le]

/-- A visible row and a deletion marker coexist only if the row is newer. -/
def Cell.Coherent (c : Cell T V) : Prop :=
  ∀ t v d, c.row = some (t, v) → c.tombstone = some d → d < t

theorem coherent_empty : (Cell.empty : Cell T V).Coherent := by
  intro t v d h
  simp [Cell.empty] at h

theorem put_blocked {c : Cell T V} {t : T} (h : c.blocked t) (v : V) : c.put t v = c := by
  simp [Cell.put, h]

/-- What an unblocked write leaves, with the marker certainly gone. -/
theorem put_open {c : Cell T V} {t : T} (h : ¬ c.blocked t) (v : V) :
    c.put t v =
      { row := match c.row with
          | none => some (t, v)
          | some (t₀, v₀) => if t₀ ≤ t then some (t, v) else some (t₀, v₀)
        tombstone := none } := by
  have hc : c.tombstone.filter (fun d => t ≤ d) = none := by
    cases ht : c.tombstone with
    | none => rfl
    | some d =>
      have hd : ¬ t ≤ d := fun hle => h ⟨d, ht, hle⟩
      simp [Option.filter, hd]
  simp only [Cell.put, h, ↓reduceIte, hc]

theorem coherent_apply {c : Cell T V} (h : c.Coherent) (m : Mutation T V) :
    (m.apply c).Coherent := by
  cases m with
  | put t v =>
    by_cases hb : c.blocked t
    · simpa [Mutation.apply, put_blocked hb] using h
    · intro t' v' d hr hd
      simp [Mutation.apply, put_open hb] at hd
  | delete d =>
    intro t v d' hr hd
    simp only [Mutation.apply, Cell.delete, Option.filter_eq_some_iff, decide_eq_true_eq,
      Option.some.injEq] at hr hd
    cases ht : c.tombstone with
    | none => simp only [ht, Option.elim] at hd; exact hd ▸ hr.2
    | some d₀ =>
      simp only [ht, Option.elim] at hd
      exact hd ▸ max_lt (h t v d₀ hr.1 ht) hr.2

theorem delete_covered {c : Cell T V} {t d : T} {v : V} (hr : c.row = some (t, v)) (h : t ≤ d) :
    c.delete d = ⟨none, some (c.tombstone.elim d fun d₀ => max d₀ d)⟩ := by
  simp [Cell.delete, hr, Option.filter, not_lt.mpr h]

theorem delete_spared {c : Cell T V} {t d : T} {v : V} (hr : c.row = some (t, v)) (h : d < t) :
    c.delete d = ⟨some (t, v), some (c.tombstone.elim d fun d₀ => max d₀ d)⟩ := by
  simp [Cell.delete, hr, Option.filter, h]

theorem le_delete_tombstone (o : Option T) (d : T) : d ≤ o.elim d fun d₀ => max d₀ d := by
  cases o <;> simp

/-- Rank after a deletion, whatever the cell was. -/
theorem version_delete_le (c : Cell T V) (d : T) :
    max c.version (stamp d true : WithBot (T ×ₗ Bool)) ≤ (c.delete d).version := by
  cases hr : c.row with
  | none =>
    cases ht : c.tombstone with
    | none => simp [Cell.version, Cell.delete, hr, ht]
    | some d₀ =>
      simp only [Cell.version, Cell.delete, hr, ht, Option.filter_none, Option.elim, max_le_iff,
        WithBot.coe_le_coe, stamp_le_same]
      exact ⟨le_max_left _ _, le_max_right _ _⟩
  | some r =>
    obtain ⟨t, v⟩ := r
    by_cases hle : t ≤ d
    · have hd := le_delete_tombstone c.tombstone d
      rw [delete_covered hr hle]
      simp only [Cell.version, hr, max_le_iff, WithBot.coe_le_coe, stamp_put_le_delete,
        stamp_le_same]
      exact ⟨hle.trans hd, hd⟩
    · rw [delete_spared hr (not_le.mp hle)]
      simp only [Cell.version, hr, max_le_iff, le_refl, true_and, WithBot.coe_le_coe,
        stamp_delete_le_put]
      exact not_le.mp hle

/-- Rank after a write: it never drops, and an unblocked write is counted. -/
theorem version_put (c : Cell T V) (t : T) (v : V) :
    (c.put t v).version =
      if c.blocked t then c.version else max c.version (stamp t false) := by
  by_cases hb : c.blocked t
  · simp [put_blocked hb, hb]
  · rw [put_open hb, if_neg hb]
    obtain ⟨row, tomb⟩ := c
    cases row with
    | none =>
      cases tomb with
      | none => simp [Cell.version]
      | some d =>
        have hd : d < t := not_le.mp fun hle => hb ⟨d, rfl, hle⟩
        have hs : stamp d true ≤ stamp t false := stamp_delete_le_put.mpr hd
        simp [Cell.version, max_eq_right (WithBot.coe_le_coe.mpr hs)]
    | some r =>
      obtain ⟨t₀, v₀⟩ := r
      by_cases ht : t₀ ≤ t
      · have hs : stamp t₀ false ≤ stamp t false := stamp_le_same.mpr ht
        simp [Cell.version, ht, max_eq_right (WithBot.coe_le_coe.mpr hs)]
      · have hs : stamp t false ≤ stamp t₀ false := stamp_le_same.mpr (not_le.mp ht).le
        simp [Cell.version, ht, max_eq_left (WithBot.coe_le_coe.mpr hs)]

/-- No mutation lowers the rank, not even on an incoherent cell. -/
theorem version_le_apply (c : Cell T V) (m : Mutation T V) : c.version ≤ (m.apply c).version := by
  cases m with
  | put t v =>
    rw [Mutation.apply, version_put]
    split
    · exact le_rfl
    · exact le_max_left _ _
  | delete d => exact (le_max_left _ _).trans (version_delete_le c d)

theorem version_le_run (ms : List (Mutation T V)) (c : Cell T V) :
    c.version ≤ (run ms c).version := by
  induction ms generalizing c with
  | nil => exact le_rfl
  | cons m ms ih => exact (version_le_apply c m).trans (ih (m.apply c))

/-- Rows that only ever give way to a marker as late as themselves keep the rank. -/
theorem version_le_of_marked {c c' : Cell T V}
    (hrow : ∀ t v, c.row = some (t, v) →
      c'.row = some (t, v) ∨ c'.row = none ∧ ∃ d, c'.tombstone = some d ∧ t ≤ d)
    (hnone : c.row = none → c'.row = none ∧ c'.tombstone = c.tombstone) :
    c.version ≤ c'.version := by
  cases hr : c.row with
  | none =>
    obtain ⟨hr', ht⟩ := hnone hr
    simp only [Cell.version, hr, hr', ht, le_refl]
  | some r =>
    obtain ⟨t, v⟩ := r
    obtain hr' | ⟨hr', d, hd, hle⟩ := hrow t v hr
    · simp only [Cell.version, hr, hr', le_refl]
    · simpa only [Cell.version, hr, hr', hd, WithBot.coe_le_coe, stamp_put_le_delete] using hle

/-- A sweep up to a time that removes a row only where it also marks it keeps the rank. -/
theorem version_le_of_swept {c c' : Cell T V} {d : T} {p : T × V → Bool} {M : Prop} [Decidable M]
    (hrow : c'.row = c.row.filter fun r => !(p r && decide (r.1 ≤ d)))
    (htomb : c'.tombstone =
      if M then some (c.tombstone.elim d fun d₀ => max d₀ d) else c.tombstone)
    (hmark : ∀ r, c.row = some r → p r = true → r.1 ≤ d → M) (hrows : M → c.row ≠ none) :
    c.version ≤ c'.version := by
  refine version_le_of_marked (fun t v hr => ?_) fun hr => ?_
  · rw [hrow, htomb, hr]
    by_cases hp : p (t, v) = true ∧ t ≤ d
    · have hM := hmark _ hr hp.1 hp.2
      refine .inr ⟨by simp [Option.filter_some, hp], _, if_pos hM, ?_⟩
      exact hp.2.trans (le_delete_tombstone _ _)
    · refine .inl (Option.filter_some_pos ?_)
      rw [Bool.not_eq_true', ← Bool.not_eq_true, Bool.and_eq_true, decide_eq_true_eq]
      exact hp
  · have hM : ¬ M := fun hM => hrows hM hr
    exact ⟨by rw [hrow, hr, Option.filter_none], by rw [htomb, if_neg hM]⟩

theorem blocked_le_version {c : Cell T V} (h : c.Coherent) {t : T} (hb : c.blocked t) :
    (stamp t false : WithBot (T ×ₗ Bool)) ≤ c.version := by
  obtain ⟨d, hd, hle⟩ := hb
  cases hr : c.row with
  | none =>
    simp only [Cell.version, hr, hd, WithBot.coe_le_coe, stamp_put_le_delete]
    exact hle
  | some r =>
    obtain ⟨t₀, v⟩ := r
    simp only [Cell.version, hr, WithBot.coe_le_coe, stamp_le_same]
    exact hle.trans (h t₀ v d hr hd).le

/-- Applying a mutation joins its stamp to the rank of a coherent cell. -/
theorem version_apply {c : Cell T V} (h : c.Coherent) (m : Mutation T V) :
    (m.apply c).version = max c.version m.stamp := by
  cases m with
  | put t v =>
    rw [Mutation.apply, version_put]
    split
    · next hb => exact (max_eq_left (blocked_le_version h hb)).symm
    · rfl
  | delete d =>
    refine le_antisymm ?_ (version_delete_le c d)
    cases hr : c.row with
    | none =>
      cases ht : c.tombstone with
      | none => simp [Cell.version, Mutation.apply, Cell.delete, Mutation.stamp, hr, ht]
      | some d₀ =>
        simp only [Mutation.apply, Cell.version, Cell.delete, Option.filter_none, Option.elim,
          Mutation.stamp, hr, ht, le_max_iff, WithBot.coe_le_coe, stamp_le_same]
        exact (le_total d d₀).imp (fun hd => max_le le_rfl hd) fun hd => max_le hd le_rfl
    | some r =>
      obtain ⟨t, v⟩ := r
      by_cases hle : t ≤ d
      · have hd : (c.tombstone.elim d fun d₀ => max d₀ d) ≤ d := by
          cases ht : c.tombstone with
          | none => exact le_rfl
          | some d₀ => exact max_le ((h t v d₀ hr ht).le.trans hle) le_rfl
        refine le_max_of_le_right ?_
        rw [Mutation.apply, delete_covered hr hle]
        simpa only [Cell.version, Mutation.stamp, WithBot.coe_le_coe, stamp_le_same] using hd
      · rw [Mutation.apply, delete_spared hr (not_le.mp hle)]
        simp [Cell.version, hr]

theorem coherent_run (ms : List (Mutation T V)) {c : Cell T V} (h : c.Coherent) :
    (run ms c).Coherent := by
  induction ms generalizing c with
  | nil => exact h
  | cons m ms ih => exact ih (coherent_apply h m)

/-- After any run the rank is the greatest stamp that arrived. -/
theorem version_run (ms : List (Mutation T V)) {c : Cell T V} (h : c.Coherent) :
    (run ms c).version = max c.version (ms.map Mutation.stamp).maximum := by
  induction ms generalizing c with
  | nil => simp
  | cons m ms ih =>
    rw [run_cons, ih (coherent_apply h m), version_apply h m, List.map_cons,
      List.maximum_cons, max_assoc]

theorem version_run_empty (ms : List (Mutation T V)) :
    (run ms Cell.empty).version = (ms.map Mutation.stamp).maximum := by
  rw [version_run ms coherent_empty]
  exact max_eq_right bot_le

/-- A visible row was there before or was written by the run. -/
theorem row_mem_run {ms : List (Mutation T V)} {c : Cell T V} {t : T} {v : V}
    (h : (run ms c).row = some (t, v)) : c.row = some (t, v) ∨ .put t v ∈ ms := by
  induction ms generalizing c with
  | nil => exact .inl h
  | cons m ms ih =>
    rcases ih h with hr | hm
    · cases m with
      | put t' v' =>
        by_cases hb : c.blocked t'
        · rw [Mutation.apply, put_blocked hb] at hr
          exact .inl hr
        · rw [Mutation.apply, put_open hb] at hr
          cases hc : c.row with
          | none =>
            simp only [hc, Option.some.injEq, Prod.mk.injEq] at hr
            exact .inr (by simp [hr])
          | some r =>
            obtain ⟨t₀, v₀⟩ := r
            by_cases ht : t₀ ≤ t'
            · simp only [hc, ht, ↓reduceIte, Option.some.injEq, Prod.mk.injEq] at hr
              exact .inr (by simp [hr])
            · simp only [hc, ht, ↓reduceIte] at hr
              exact .inl hr
      | delete d =>
        simp only [Mutation.apply, Cell.delete, Option.filter_eq_some_iff] at hr
        exact .inl hr.1
    · exact .inr (List.mem_cons_of_mem m hm)

/-- The write that must be visible: newest of the writes, newer than every deletion. -/
def Newest (ms : List (Mutation T V)) (t : T) (v : V) : Prop :=
  .put t v ∈ ms ∧ (∀ t' v', .put t' v' ∈ ms → t' ≤ t) ∧ ∀ d, .delete d ∈ ms → d < t

/-- Writes of one time carry one value, as when write times are pairwise distinct. -/
def Distinct (ms : List (Mutation T V)) : Prop :=
  ∀ t v v', .put t v ∈ ms → .put t v' ∈ ms → v = v'

theorem newest_iff_maximum {ms : List (Mutation T V)} {t : T} {v : V} (hm : .put t v ∈ ms) :
    Newest ms t v ↔ (ms.map Mutation.stamp).maximum = (stamp t false : WithBot (T ×ₗ Bool)) := by
  constructor
  · rintro ⟨-, hput, hdel⟩
    refine List.maximum_eq_coe_iff.mpr ⟨List.mem_map.mpr ⟨_, hm, rfl⟩, ?_⟩
    intro s hs
    obtain ⟨m, hmem, rfl⟩ := List.mem_map.mp hs
    cases m with
    | put t' v' => exact stamp_le_same.mpr (hput t' v' hmem)
    | delete d => exact stamp_delete_le_put.mpr (hdel d hmem)
  · intro h
    have hle := (List.maximum_eq_coe_iff.mp h).2
    refine ⟨hm, fun t' v' ht => ?_, fun d hd => ?_⟩
    · exact stamp_le_same.mp (hle _ (List.mem_map.mpr ⟨_, ht, rfl⟩))
    · exact stamp_delete_le_put.mp (hle _ (List.mem_map.mpr ⟨_, hd, rfl⟩))

omit [LinearOrder T] in
theorem version_of_row {c : Cell T V} {t : T} {v : V} (h : c.row = some (t, v)) :
    c.version = (stamp t false : WithBot (T ×ₗ Bool)) := by
  simp [Cell.version, h]

omit [LinearOrder T] in
theorem row_of_version {c : Cell T V} {t : T}
    (h : c.version = (stamp t false : WithBot (T ×ₗ Bool))) : ∃ v, c.row = some (t, v) := by
  cases hr : c.row with
  | none =>
    cases ht : c.tombstone <;> simp [Cell.version, hr, ht, stamp] at h
  | some r =>
    obtain ⟨t₀, v⟩ := r
    simp only [Cell.version, hr, WithBot.coe_inj, stamp, toLex_inj, Prod.mk.injEq] at h
    exact ⟨v, by rw [h.1]⟩

/-- Convergence: the visible row is the newest write that beats every deletion. -/
theorem run_row_iff {ms : List (Mutation T V)} (hd : Distinct ms) {t : T} {v : V} :
    (run ms Cell.empty).row = some (t, v) ↔ Newest ms t v := by
  constructor
  · intro h
    have hm : .put t v ∈ ms := (row_mem_run h).resolve_left (by simp [Cell.empty])
    rw [newest_iff_maximum hm, ← version_run_empty, version_of_row h]
  · intro h
    have hv : (run ms Cell.empty).version = (stamp t false : WithBot (T ×ₗ Bool)) := by
      rw [version_run_empty, (newest_iff_maximum h.1).mp h]
    obtain ⟨v', hr⟩ := row_of_version hv
    have hm : .put t v' ∈ ms := (row_mem_run hr).resolve_left (by simp [Cell.empty])
    rw [hr, hd t v' v hm h.1]

/-- A write below the rank of the cell leaves the visible row alone. -/
theorem put_stale {c : Cell T V} {t : T} (h : (stamp t false : WithBot (T ×ₗ Bool)) < c.version)
    (v : V) : (c.put t v).row = c.row := by
  by_cases hb : c.blocked t
  · rw [put_blocked hb]
  · rw [put_open hb]
    cases hr : c.row with
    | none =>
      cases ht : c.tombstone with
      | none => simp [Cell.version, hr, ht] at h
      | some d =>
        simp only [Cell.version, hr, ht, WithBot.coe_lt_coe] at h
        exact (hb ⟨d, ht, stamp_put_le_delete.mp h.le⟩).elim
    | some r =>
      obtain ⟨t₀, v₀⟩ := r
      simp only [Cell.version, hr, WithBot.coe_lt_coe, stamp_lt, lt_self_iff_false, and_false,
        or_false] at h
      simp [not_le.mpr h]

/-- The rank says exactly that nothing as old as a deletion is, or can come, visible. -/
theorem delete_le_version_iff {c : Cell T V} {d : T} :
    (stamp d true : WithBot (T ×ₗ Bool)) ≤ c.version ↔
      (∀ t v, c.row = some (t, v) → d < t) ∧ (c.row = none → c.blocked d) := by
  cases hr : c.row with
  | none =>
    cases ht : c.tombstone with
    | none => simp [Cell.version, Cell.blocked, hr, ht]
    | some d₀ => simp [Cell.version, Cell.blocked, hr, ht, stamp_le_same]
  | some r =>
    obtain ⟨t, v⟩ := r
    simp [Cell.version, hr, stamp_delete_le_put]

/-- When a sweep leaves its own time as the rank of a cell: the old row is newer or swept,
and something at least as new as the sweep is left behind. -/
theorem delete_le_version_swept_iff {c c' : Cell T V} {d : T} {p : T × V → Bool}
    {q : T × V → Prop} {M : Prop} [Decidable M]
    (hrow : c'.row = c.row.filter fun r => !(p r && decide (r.1 ≤ d)))
    (htomb : c'.tombstone =
      if M then some (c.tombstone.elim d fun d₀ => max d₀ d) else c.tombstone)
    (hM : M ↔ ∃ r, c.row = some r ∧ r.1 ≤ d ∧ q r) :
    (stamp d true : WithBot (T ×ₗ Bool)) ≤ c'.version ↔
      (∀ r, c.row = some r → d < r.1 ∨ p r = true) ∧
        ((∃ r, c.row = some r ∧ (d < r.1 ∨ q r)) ∨ c.blocked d) := by
  have hblocked : c'.blocked d ↔ M ∨ c.blocked d := by
    by_cases hm : M
    · rw [if_pos hm] at htomb
      exact iff_of_true ⟨_, htomb, le_delete_tombstone c.tombstone d⟩ (.inl hm)
    · rw [if_neg hm] at htomb
      simp only [Cell.blocked, htomb, hm, false_or]
  rw [delete_le_version_iff, hblocked, hM, hrow]
  cases hr : c.row with
  | none => simp
  | some r =>
    obtain ⟨t, v⟩ := r
    by_cases ht : t ≤ d
    · cases hp : p (t, v) <;> simp [Option.filter_some, hp, ht, not_lt.mpr ht]
    · simp [Option.filter_some, ht, not_le.mp ht]

end LastWriter
