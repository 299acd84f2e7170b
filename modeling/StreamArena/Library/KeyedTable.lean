import Mathlib.Data.List.Lookmap
import Mathlib.Data.List.Nodup

/-! Finite tables with a primary key: rows in insertion order, one row a key.
The operations are the relational ones a single-table statement can do: point
lookup, upsert with a conflict action, conditional delete, conditional select. -/
namespace KeyedTable
variable {κ ρ : Type*} [DecidableEq κ]

@[ext] structure Table (κ ρ : Type*) where
  rows : List (κ × ρ)
  nodup : (rows.map Prod.fst).Nodup

def Table.empty : Table κ ρ := ⟨[], List.nodup_nil⟩

def Table.get (t : Table κ ρ) (k : κ) : Option ρ := t.rows.lookup k

@[simp] theorem get_empty (k : κ) : (Table.empty : Table κ ρ).get k = none := rfl

theorem lookup_eq_some_iff {l : List (κ × ρ)} (h : (l.map Prod.fst).Nodup) {k : κ} {r : ρ} :
    l.lookup k = some r ↔ (k, r) ∈ l := by
  induction l with
  | nil => simp
  | cons a l ih =>
    obtain ⟨k', r'⟩ := a
    rw [List.map_cons, List.nodup_cons] at h
    by_cases hk : k = k'
    · subst hk
      have hn : (k, r) ∉ l := fun hm => h.1 (List.mem_map.mpr ⟨_, hm, rfl⟩)
      simp [hn, eq_comm]
    · simp [List.lookup_cons, hk, beq_false_of_ne hk, ih h.2]

theorem Table.mem_rows_iff (t : Table κ ρ) {k : κ} {r : ρ} :
    (k, r) ∈ t.rows ↔ t.get k = some r := (lookup_eq_some_iff t.nodup).symm

theorem lookup_eq_none_iff {l : List (κ × ρ)} {k : κ} :
    l.lookup k = none ↔ k ∉ l.map Prod.fst := by
  induction l with
  | nil => simp
  | cons a l ih =>
    obtain ⟨k', r⟩ := a
    by_cases hk : k = k'
    · subst hk; simp
    · simp [List.lookup_cons, beq_false_of_ne hk, ih, hk]

/-- With one entry a key, the first and the last entry of a key are the same. -/
theorem lookup_reverse {κ ρ : Type*} [BEq κ] [LawfulBEq κ] {l : List (κ × ρ)}
    (h : (l.map Prod.fst).Nodup) (k : κ) : l.reverse.lookup k = l.lookup k := by
  induction l with
  | nil => rfl
  | cons a l ih =>
    obtain ⟨k₀, r₀⟩ := a
    rw [List.map_cons, List.nodup_cons] at h
    rw [List.reverse_cons, List.lookup_append, ih h.2]
    simp only [List.lookup_cons, List.lookup_nil]
    cases hk : k == k₀ with
    | false => exact Option.or_none
    | true =>
      have hnone : l.lookup k = none := List.lookup_eq_none_iff.mpr fun b hb => by
        rw [beq_iff_eq.mp hk, bne_iff_ne]
        exact fun he => h.1 (List.mem_map.mpr ⟨b, hb, he.symm⟩)
      rw [hnone, Option.none_or]

/-- Without the entries of a key, every other key has the entry it had. -/
theorem lookup_filter_ne {κ ρ : Type*} [BEq κ] [LawfulBEq κ] (l : List (κ × ρ)) (k k' : κ) :
    (l.filter fun a => a.1 != k).lookup k' = if k' == k then none else l.lookup k' := by
  induction l with
  | nil => simp
  | cons a l ih =>
    obtain ⟨k₀, r⟩ := a
    by_cases h : k₀ = k
    · subst h
      rw [List.filter_cons_of_neg (by simp), ih, List.lookup_cons]
      cases k' == k₀ <;> rfl
    · rw [List.filter_cons_of_pos (by simpa using h), List.lookup_cons, List.lookup_cons, ih]
      cases hk : k' == k₀ with
      | false => rfl
      | true =>
        have hne : ¬(k' == k) = true := by
          rw [beq_iff_eq.mp hk, beq_iff_eq]
          exact h
        rw [if_neg hne, if_neg hne]

/-- `INSERT … ON CONFLICT DO UPDATE`: a new key gets `new`, an old row is
rewritten by the conflict action, which may keep it. -/
def Table.upsert (t : Table κ ρ) (k : κ) (new : ρ) (conflict : ρ → ρ) : Table κ ρ :=
  if h : k ∈ t.rows.map Prod.fst then
    { rows := t.rows.map fun a => if a.1 = k then (a.1, conflict a.2) else a
      nodup := by
        have hk : (fun a : κ × ρ => (if a.1 = k then (a.1, conflict a.2) else a).1) = Prod.fst := by
          funext a; split <;> rfl
        simpa [List.map_map, Function.comp_def, hk] using t.nodup }
  else
    { rows := t.rows ++ [(k, new)]
      nodup := by
        rw [List.map_append, List.nodup_append]
        refine ⟨t.nodup, by simp, ?_⟩
        rintro a ha b hb rfl
        have hk : a = k := by simpa using hb
        exact h (hk ▸ ha) }

/-- `DELETE … WHERE`. -/
def Table.deleteWhere (t : Table κ ρ) (p : κ → ρ → Bool) : Table κ ρ where
  rows := t.rows.filter fun a => !p a.1 a.2
  nodup := t.nodup.sublist (List.Sublist.map Prod.fst List.filter_sublist)

/-- `SELECT … WHERE`. -/
def Table.select (t : Table κ ρ) (p : κ → ρ → Bool) : List (κ × ρ) :=
  t.rows.filter fun a => p a.1 a.2

theorem lookup_map_update (l : List (κ × ρ)) (k k' : κ) (f : ρ → ρ) :
    (l.map fun a => if a.1 = k then (a.1, f a.2) else a).lookup k' =
      if k' = k then (l.lookup k').map f else l.lookup k' := by
  induction l with
  | nil => simp
  | cons a l ih =>
    obtain ⟨k₀, r⟩ := a
    by_cases h₀ : k' = k₀ <;> by_cases h₁ : k₀ = k <;> by_cases h₂ : k' = k <;>
      simp_all [List.lookup_cons, beq_false_of_ne]

theorem get_upsert (t : Table κ ρ) (k k' : κ) (new : ρ) (conflict : ρ → ρ) :
    (t.upsert k new conflict).get k' =
      if k' = k then some ((t.get k).elim new conflict) else t.get k' := by
  by_cases h : k ∈ t.rows.map Prod.fst
  · obtain ⟨⟨k₀, r⟩, hm, rfl⟩ := List.mem_map.mp h
    have hg : t.rows.lookup k₀ = some r := (lookup_eq_some_iff t.nodup).mpr hm
    simp only [Table.upsert, h, ↓reduceDIte, Table.get, lookup_map_update]
    split
    · next he => simp [he, hg]
    · rfl
  · have hg : t.rows.lookup k = none := lookup_eq_none_iff.mpr h
    simp only [Table.upsert, h, ↓reduceDIte, Table.get, List.lookup_append]
    by_cases he : k' = k
    · subst he; simp [hg]
    · simp [he, List.lookup_cons, beq_false_of_ne he]

@[simp] theorem get_upsert_self (t : Table κ ρ) (k : κ) (new : ρ) (conflict : ρ → ρ) :
    (t.upsert k new conflict).get k = some ((t.get k).elim new conflict) := by
  simp [get_upsert]

theorem get_upsert_of_ne (t : Table κ ρ) {k k' : κ} (h : k' ≠ k) (new : ρ) (conflict : ρ → ρ) :
    (t.upsert k new conflict).get k' = t.get k' := by
  simp [get_upsert, h]

theorem length_upsert_of_free {t : Table κ ρ} {k : κ} (h : t.get k = none) (new : ρ)
    (conflict : ρ → ρ) : (t.upsert k new conflict).rows.length = t.rows.length + 1 := by
  have hk : k ∉ t.rows.map Prod.fst := lookup_eq_none_iff.mp h
  simp only [Table.upsert, hk, ↓reduceDIte, List.length_append, List.length_singleton]

theorem get_deleteWhere (t : Table κ ρ) (p : κ → ρ → Bool) (k : κ) :
    (t.deleteWhere p).get k = (t.get k).filter fun r => !p k r := by
  cases hg : t.get k with
  | none =>
    have hn : k ∉ (t.deleteWhere p).rows.map Prod.fst := by
      intro hm
      obtain ⟨a, ha, rfl⟩ := List.mem_map.mp hm
      exact lookup_eq_none_iff.mp hg (List.mem_map.mpr ⟨a, (List.mem_filter.mp ha).1, rfl⟩)
    exact lookup_eq_none_iff.mpr hn
  | some r =>
    have hm : (k, r) ∈ t.rows := t.mem_rows_iff.mpr hg
    by_cases hp : p k r = true
    · have hn : k ∉ (t.deleteWhere p).rows.map Prod.fst := by
        intro hk
        obtain ⟨⟨k₀, r'⟩, ha, rfl⟩ := List.mem_map.mp hk
        obtain ⟨ha₁, ha₂⟩ := List.mem_filter.mp ha
        have hr : t.get k₀ = some r' := t.mem_rows_iff.mp ha₁
        rw [hg, Option.some.injEq] at hr
        subst hr
        simp [hp] at ha₂
      rw [show (some r).filter (fun r => !p k r) = none by simp [Option.filter, hp]]
      exact lookup_eq_none_iff.mpr hn
    · have hmem : (k, r) ∈ (t.deleteWhere p).rows :=
        List.mem_filter.mpr ⟨hm, by simpa using hp⟩
      simpa [Option.filter, hp] using (t.deleteWhere p).mem_rows_iff.mp hmem

/-- `UPDATE … WHERE`: the rows the condition holds of are rewritten. -/
def Table.updateWhere (t : Table κ ρ) (p : κ → ρ → Bool) (f : ρ → ρ) : Table κ ρ where
  rows := t.rows.map fun a => (a.1, if p a.1 a.2 then f a.2 else a.2)
  nodup := by simpa [List.map_map, Function.comp_def] using t.nodup

theorem lookup_map_rewrite (l : List (κ × ρ)) (f : κ → ρ → ρ) (k : κ) :
    (l.map fun a => (a.1, f a.1 a.2)).lookup k = (l.lookup k).map (f k) := by
  induction l with
  | nil => rfl
  | cons a l ih =>
    rw [List.map_cons, List.lookup_cons, List.lookup_cons, ih]
    cases hk : k == a.1 with
    | false => rfl
    | true => rw [beq_iff_eq.mp hk]; rfl

theorem get_updateWhere (t : Table κ ρ) (p : κ → ρ → Bool) (f : ρ → ρ) (k : κ) :
    (t.updateWhere p f).get k = (t.get k).map fun r => if p k r then f r else r :=
  lookup_map_rewrite t.rows (fun k r => if p k r then f r else r) k

theorem filter_keep {o : Option ρ} {p : ρ → Bool} (h : ∀ r, o = some r → p r = true) :
    o.filter p = o := by
  cases o with
  | none => rfl
  | some r => exact Option.filter_some_pos (h r rfl)

theorem get_deleteWhere_of_not {t : Table κ ρ} {p : κ → ρ → Bool} {k : κ}
    (h : ∀ r, t.get k = some r → p k r = false) : (t.deleteWhere p).get k = t.get k := by
  rw [get_deleteWhere, filter_keep fun r hg => by simp [h r hg]]

theorem mem_select {t : Table κ ρ} {p : κ → ρ → Bool} {k : κ} {r : ρ} :
    (k, r) ∈ t.select p ↔ t.get k = some r ∧ p k r = true := by
  rw [Table.select, List.mem_filter, t.mem_rows_iff]

/-- `INSERT OR IGNORE … SELECT … WHERE`. -/
def Table.copyFrom (dest src : Table κ ρ) (keep : κ → ρ → Bool) : Table κ ρ :=
  (src.select keep).foldl (fun t a => t.upsert a.1 a.2 id) dest

theorem get_foldl_insert (l : List (κ × ρ)) (t : Table κ ρ) (k : κ) :
    (l.foldl (fun t a => t.upsert a.1 a.2 id) t).get k = (t.get k).or (l.lookup k) := by
  induction l generalizing t with
  | nil => simp
  | cons a l ih =>
    obtain ⟨k₀, r⟩ := a
    rw [List.foldl_cons, ih, get_upsert]
    by_cases hk : k = k₀
    · subst hk
      cases t.get k <;> simp
    · simp [hk, List.lookup_cons, beq_false_of_ne hk]

/-- A copy keeps what was there and adds the selected rows under free keys. -/
theorem get_copyFrom (dest src : Table κ ρ) (keep : κ → ρ → Bool) (k : κ) :
    (dest.copyFrom src keep).get k = (dest.get k).or ((src.get k).filter (keep k)) := by
  have hsel : (src.select keep).lookup k = (src.get k).filter (keep k) := by
    have hdel := get_deleteWhere src (fun k r => !keep k r) k
    simpa [Table.get, Table.deleteWhere, Table.select] using hdel
  rw [Table.copyFrom, get_foldl_insert, hsel]

end KeyedTable
