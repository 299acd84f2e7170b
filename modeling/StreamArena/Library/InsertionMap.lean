import StreamArena.Library.KeyedTable

/-! Maps that keep their entries in insertion order: a key that is set again keeps its place. -/
namespace KeyedTable
variable {κ ρ : Type*} [DecidableEq κ] {t : Table κ ρ}

def Table.set (t : Table κ ρ) (k : κ) (r : ρ) : Table κ ρ := t.upsert k r fun _ => r

def Table.delete (t : Table κ ρ) (k : κ) : Table κ ρ := t.deleteWhere fun k' _ => decide (k' = k)

def Table.values (t : Table κ ρ) : List ρ := t.rows.map Prod.snd

@[simp] theorem get_set (k k' : κ) (r : ρ) : (t.set k r).get k' = if k' = k then some r else t.get k' := by
  rw [Table.set, get_upsert]
  split
  · cases t.get k <;> rfl
  · rfl

@[simp] theorem get_delete (k k' : κ) : (t.delete k).get k' = if k' = k then none else t.get k' := by
  rw [Table.delete, get_deleteWhere]
  by_cases h : k' = k
  · cases t.get k' <;> simp [h, Option.filter]
  · cases t.get k' <;> simp [h, Option.filter]

theorem mem_values {r : ρ} : r ∈ t.values ↔ ∃ k, t.get k = some r := by
  simp only [Table.values, List.mem_map, Prod.exists, exists_eq_right, t.mem_rows_iff]

theorem get_of_head? {k : κ} {r : ρ} (h : t.rows.head? = some (k, r)) : t.get k = some r :=
  t.mem_rows_iff.mp (List.mem_of_head? h)

theorem get_of_rows_nil (h : t.rows = []) (k : κ) : t.get k = none := by
  rw [Table.get, h]
  rfl

variable {f : ρ → κ} {l : List ρ} {k : κ} {r : ρ}

/-- What is found after a list was set comes from the list or was there before. -/
theorem get_foldl_set_eq_some (h : (l.foldl (fun t r => t.set (f r) r) t).get k = some r) :
    r ∈ l ∧ f r = k ∨ t.get k = some r := by
  induction l generalizing t with
  | nil => exact .inr h
  | cons a l ih =>
    obtain ⟨hmem, hk⟩ | hset := ih h
    · exact .inl ⟨List.mem_cons_of_mem a hmem, hk⟩
    · rw [get_set] at hset
      split at hset
      next heq =>
        rw [Option.some.injEq] at hset
        subst hset
        exact .inl ⟨List.mem_cons_self, heq.symm⟩
      next => exact .inr hset

theorem get_foldl_set_isSome (h : (t.get k).isSome) : ((l.foldl (fun t r => t.set (f r) r) t).get k).isSome := by
  induction l generalizing t with
  | nil => exact h
  | cons a l ih =>
    refine ih ?_
    rw [get_set]
    split
    · rfl
    · exact h

/-- An entry that no other one of the list has the key of is found. -/
theorem get_foldl_set (hr : r ∈ l ∨ t.get (f r) = some r) (hone : ∀ a ∈ l, f a = f r → a = r) :
    (l.foldl (fun t r => t.set (f r) r) t).get (f r) = some r := by
  induction l generalizing t with
  | nil => exact hr.resolve_left List.not_mem_nil
  | cons a l ih =>
    refine ih ?_ fun b hb => hone b (List.mem_cons_of_mem a hb)
    rw [get_set]
    by_cases heq : f r = f a
    · rw [if_pos heq, hone a List.mem_cons_self heq.symm]
      exact .inr rfl
    · rw [if_neg heq]
      refine hr.imp_left fun hmem => (List.mem_cons.mp hmem).resolve_left fun he => ?_
      exact heq (congrArg f he)

end KeyedTable
