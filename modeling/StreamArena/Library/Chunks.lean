import Mathlib

/-! A list cut into chunks of one length, without what is left at its end. -/
namespace Chunks
variable {α : Type*} {n : Nat}

def chunks (n : Nat) (l : List α) : List (List α) :=
  (List.range (l.length / n)).map fun i => (l.drop (n * i)).take n

theorem chunks_of_lt {l : List α} (h : l.length < n) : chunks n l = [] := by
  rw [chunks, Nat.div_eq_of_lt h]
  rfl

/-- A first chunk comes off. -/
theorem chunks_append {chunk rest : List α} (hn : 0 < n) (h : chunk.length = n) :
    chunks n (chunk ++ rest) = chunk :: chunks n rest := by
  have hcount : (chunk ++ rest).length / n = rest.length / n + 1 := by
    rw [List.length_append, h, Nat.add_comm, Nat.add_div_right _ hn]
  rw [chunks, hcount, List.range_succ_eq_map, List.map_cons, List.map_map]
  congr 1
  · simp [h]
  · apply List.map_congr_left
    intro i _
    have hdrop : n * (i + 1) = chunk.length + n * i := by rw [h, Nat.mul_succ, Nat.add_comm]
    simp only [Function.comp, hdrop]
    rw [List.drop_append, List.drop_eq_nil_of_le (by omega), List.nil_append, Nat.add_sub_cancel_left]

/-- The chunks of a part of joined chunks are the first of these. -/
theorem chunks_take_flatten {parts : List (List α)} (hn : 0 < n) (h : ∀ part ∈ parts, part.length = n) (count : Nat) :
    chunks n (parts.flatten.take count) = parts.take (count / n) := by
  induction parts generalizing count with
  | nil =>
    have hnil : chunks n ([] : List α) = [] := chunks_of_lt hn
    simp [hnil]
  | cons part parts ih =>
    have hpart := h part List.mem_cons_self
    by_cases hlt : count < n
    · have hshort : ((part :: parts).flatten.take count).length < n := by
        rw [List.length_take]
        omega
      rw [chunks_of_lt hshort, Nat.div_eq_of_lt hlt, List.take_zero]
    · obtain ⟨more, rfl⟩ := Nat.exists_eq_add_of_le (Nat.le_of_not_lt hlt)
      have hcount : (n + more) / n = more / n + 1 := by rw [Nat.add_comm, Nat.add_div_right _ hn]
      have htake : (part :: parts).flatten.take (n + more) = part ++ parts.flatten.take more := by
        rw [List.flatten_cons, ← hpart, List.take_length_add_append]
      rw [htake, chunks_append hn hpart, ih (fun p hp => h p (List.mem_cons_of_mem _ hp)), hcount, List.take_succ_cons]

/-- A whole number of chunks joins to the list. -/
theorem flatten_chunks {l : List α} (hn : 0 < n) (h : n ∣ l.length) : (chunks n l).flatten = l := by
  obtain ⟨count, hcount⟩ := h
  induction count generalizing l with
  | zero =>
    have hnil : l = [] := List.length_eq_zero_iff.mp hcount
    rw [hnil, chunks_of_lt hn]
    rfl
  | succ count ih =>
    rw [Nat.mul_succ] at hcount
    have htake : (l.take n).length = n := List.length_take_of_le (by omega)
    have hdrop : (l.drop n).length = n * count := by
      rw [List.length_drop]
      omega
    calc (chunks n l).flatten = (chunks n (l.take n ++ l.drop n)).flatten := by rw [List.take_append_drop]
      _ = l.take n ++ l.drop n := by rw [chunks_append hn htake, List.flatten_cons, ih hdrop]
      _ = l := List.take_append_drop n l

theorem length_of_mem_chunks {l chunk : List α} (h : chunk ∈ chunks n l) : chunk.length = n := by
  obtain ⟨i, hi, rfl⟩ := List.mem_map.mp h
  rw [List.mem_range] at hi
  have hfits : n * (i + 1) ≤ l.length :=
    (Nat.mul_le_mul_left n hi).trans (Nat.mul_div_le l.length n)
  rw [Nat.mul_succ] at hfits
  rw [List.length_take, List.length_drop]
  omega

end Chunks
