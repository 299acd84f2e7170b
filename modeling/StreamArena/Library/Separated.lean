import Mathlib

/-! Fields joined by one separator: when the joined text gives its fields back, and
which fields share a text when the first ones may hold the separator themselves. -/
namespace Separated
variable {α : Type*} {sep : α}

/-- The fields with a separator between any two. -/
def join (sep : α) (fields : List (List α)) : List α := [sep].intercalate fields

theorem join_singleton (a : List α) : join sep [a] = a := by simp [join]

theorem join_cons (a : List α) {fields : List (List α)} (h : fields ≠ []) :
    join sep (a :: fields) = a ++ sep :: join sep fields := by
  simp [join, List.intercalate_cons_of_ne_nil h]

/-- A last field stands after a separator of its own. -/
theorem join_concat {fields : List (List α)} (h : fields ≠ []) (b : List α) :
    join sep (fields ++ [b]) = join sep fields ++ sep :: b := by
  induction fields with
  | nil => exact absurd rfl h
  | cons a fields ih =>
    cases fields with
    | nil => simp [join]
    | cons c fields =>
      have hne : c :: fields ≠ [] := List.cons_ne_nil c fields
      rw [List.cons_append, join_cons a (by simp), ih hne, join_cons a hne, List.append_assoc,
        List.cons_append]

theorem join_append {fields fields' : List (List α)} (h : fields ≠ []) (h' : fields' ≠ []) :
    join sep (fields ++ fields') = join sep fields ++ sep :: join sep fields' := by
  induction fields with
  | nil => exact absurd rfl h
  | cons a fields ih =>
    cases fields with
    | nil => rw [List.singleton_append, join_cons a h', join_singleton]
    | cons b fields =>
      have hne : b :: fields ≠ [] := List.cons_ne_nil b fields
      rw [List.cons_append, join_cons a (by simp), ih hne, join_cons a hne, List.append_assoc, List.cons_append]

theorem mem_join {fields : List (List α)} {x : α} (h : x ∈ join sep fields) :
    (∃ field ∈ fields, x ∈ field) ∨ x = sep := by
  induction fields with
  | nil => cases h
  | cons a fields ih =>
    cases fields with
    | nil => exact .inl ⟨a, List.mem_cons_self, by rwa [join_singleton] at h⟩
    | cons b fields =>
      rw [join_cons a (List.cons_ne_nil b fields)] at h
      obtain ha | hrest := List.mem_append.mp h
      · exact .inl ⟨a, List.mem_cons_self, ha⟩
      · obtain rfl | hrest := List.mem_cons.mp hrest
        · exact .inr rfl
        · exact (ih hrest).imp_left fun ⟨field, hfield, hx⟩ => ⟨field, List.mem_cons_of_mem _ hfield, hx⟩

/-- The separators of a joined list are those between its fields and those in them. -/
theorem count_join [DecidableEq α] {fields : List (List α)} (h : fields ≠ []) :
    (join sep fields).count sep + 1 = (fields.map (List.count sep)).sum + fields.length := by
  induction fields with
  | nil => exact absurd rfl h
  | cons a fields ih =>
    cases fields with
    | nil => simp [join]
    | cons b fields =>
      have hrest := ih (List.cons_ne_nil b fields)
      rw [join_cons a (List.cons_ne_nil b fields), List.count_append, List.count_cons_self,
        List.map_cons, List.sum_cons, List.length_cons]
      omega

/-- The pieces between separators are free of it. -/
theorem notMem_of_mem_splitOn [DecidableEq α] {list piece : List α} (h : piece ∈ list.splitOn sep) : sep ∉ piece := by
  induction list generalizing piece with
  | nil =>
    rw [List.splitOn_nil, List.mem_singleton] at h
    rw [h]
    exact List.not_mem_nil
  | cons x list ih =>
    rw [List.splitOn_cons_eq_if_modifyHead] at h
    split at h
    next =>
      obtain rfl | h := List.mem_cons.mp h
      · exact List.not_mem_nil
      · exact ih h
    next hx =>
      cases hpieces : list.splitOn sep with
      | nil => exact absurd hpieces (List.splitOn_ne_nil sep list)
      | cons first pieces =>
        rw [hpieces, List.modifyHead_cons] at h
        obtain rfl | h := List.mem_cons.mp h
        · intro hmem
          obtain rfl | hmem := List.mem_cons.mp hmem
          · exact hx (beq_self_eq_true _)
          · exact ih (hpieces ▸ List.mem_cons_self) hmem
        · exact ih (hpieces ▸ List.mem_cons_of_mem _ h)

/-- Fields free of the separator are read back. -/
theorem join_injective [DecidableEq α] {fields fields' : List (List α)} (hne : fields ≠ []) (hne' : fields' ≠ [])
    (hfree : ∀ a ∈ fields, sep ∉ a) (hfree' : ∀ a ∈ fields', sep ∉ a)
    (h : join sep fields = join sep fields') : fields = fields' := by
  calc fields = (join sep fields).splitOn sep := (List.splitOn_intercalate sep hfree hne).symm
    _ = (join sep fields').splitOn sep := by rw [h]
    _ = fields' := List.splitOn_intercalate sep hfree' hne'

/-- As many fields as a joined list has separators and one are free of them. -/
theorem join_injective_of_length [DecidableEq α] {fields fields' : List (List α)}
    (hne : fields' ≠ []) (hfree : ∀ a ∈ fields', sep ∉ a) (hlen : fields.length = fields'.length)
    (h : join sep fields = join sep fields') : fields = fields' := by
  have hne' : fields ≠ [] := by
    rw [← List.length_pos_iff, hlen]
    exact List.length_pos_iff.mpr hne
  have hzero {l : List (List α)} : (l.map (List.count sep)).sum = 0 ↔ ∀ a ∈ l, sep ∉ a := by
    induction l with
    | nil => simp
    | cons a l ih => simp [ih, List.count_eq_zero]
  have hcount : (join sep fields').count sep + 1 = _ := count_join hne
  have hcount' : (join sep fields).count sep + 1 = _ := count_join hne'
  have hsum := hzero.mpr hfree
  rw [h] at hcount'
  exact join_injective hne' hne (hzero.mp (by omega)) hfree h

/-- Two splittings of one list at a separator agree or are shifted: the second
separator stands in the rest of the first splitting, or the first in that of the second. -/
theorem append_cons_eq_iff {a b a' b' : List α} :
    a ++ sep :: b = a' ++ sep :: b' ↔
      a = a' ∧ b = b' ∨ (∃ w, a' = a ++ sep :: w ∧ b = w ++ sep :: b') ∨
        ∃ w, a = a' ++ sep :: w ∧ b' = w ++ sep :: b := by
  rw [List.append_eq_append_iff]
  constructor
  · rintro (⟨w, rfl, hb⟩ | ⟨w, rfl, hb⟩)
    · cases w with
      | nil => exact Or.inl ⟨by simp, by simpa using hb⟩
      | cons c w =>
        obtain ⟨rfl, rfl⟩ := List.cons_eq_cons.mp hb
        exact Or.inr (Or.inl ⟨w, rfl, rfl⟩)
    · cases w with
      | nil => exact Or.inl ⟨by simp, by simpa using hb.symm⟩
      | cons c w =>
        obtain ⟨rfl, rfl⟩ := List.cons_eq_cons.mp hb
        exact Or.inr (Or.inr ⟨w, rfl, rfl⟩)
  · rintro (⟨rfl, rfl⟩ | ⟨w, rfl, rfl⟩ | ⟨w, rfl, rfl⟩)
    · exact Or.inl ⟨[], by simp, by simp⟩
    · exact Or.inl ⟨sep :: w, rfl, rfl⟩
    · exact Or.inr ⟨sep :: w, rfl, rfl⟩

/-- A last field free of the separator is read back. -/
theorem append_cons_injective {a b a' b' : List α} (hb : sep ∉ b) (hb' : sep ∉ b')
    (h : a ++ sep :: b = a' ++ sep :: b') : a = a' ∧ b = b' := by
  rcases append_cons_eq_iff.mp h with heq | ⟨w, -, rfl⟩ | ⟨w, -, rfl⟩
  · exact heq
  · exact absurd (by simp) hb
  · exact absurd (by simp) hb'

/-- So is a first one. -/
theorem first_injective {a b a' b' : List α} (ha : sep ∉ a) (ha' : sep ∉ a')
    (h : a ++ sep :: b = a' ++ sep :: b') : a = a' ∧ b = b' := by
  rcases append_cons_eq_iff.mp h with heq | ⟨w, rfl, -⟩ | ⟨w, rfl, -⟩
  · exact heq
  · exact absurd (by simp) ha'
  · exact absurd (by simp) ha

/-- As many last fields as are free of the separator are read back. -/
theorem join_append_injective {fields fields' rest rest' : List (List α)} (hne : fields ≠ [])
    (hne' : fields' ≠ []) (hfree : ∀ a ∈ rest, sep ∉ a) (hfree' : ∀ a ∈ rest', sep ∉ a)
    (hlen : rest.length = rest'.length)
    (h : join sep (fields ++ rest) = join sep (fields' ++ rest')) :
    join sep fields = join sep fields' ∧ rest = rest' := by
  induction rest using List.reverseRecOn generalizing rest' with
  | nil =>
    cases rest' with
    | nil => exact ⟨by simpa using h, rfl⟩
    | cons b rest' => simp at hlen
  | append_singleton rest b ih =>
    induction rest' using List.reverseRecOn with
    | nil => simp at hlen
    | append_singleton rest' b' _ =>
      rw [← List.append_assoc, ← List.append_assoc, join_concat (by simp [hne]),
        join_concat (by simp [hne'])] at h
      obtain ⟨hfields, rfl⟩ := append_cons_injective (hfree b (by simp)) (hfree' b' (by simp)) h
      obtain ⟨hjoin, rfl⟩ := ih (fun a ha => hfree a (by simp [ha]))
        (fun a ha => hfree' a (by simp [ha])) (by simpa using hlen) hfields
      exact ⟨hjoin, rfl⟩

end Separated
