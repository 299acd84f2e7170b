import StreamArena.Library.AsciiText

/-! A text split at the last place where a mark stands. -/
namespace AsciiText

def rsplitOnce (sep s : Text) : Option (Text × Text) :=
  (splitOnce sep.reverse s.reverse).map fun parts => (parts.2.reverse, parts.1.reverse)

theorem rsplitOnce_eq_some {sep s before rest : Text} (h : rsplitOnce sep s = some (before, rest)) :
    s = before ++ (sep ++ rest) := by
  obtain ⟨parts, hparts, heq⟩ := Option.map_eq_some_iff.mp h
  have hreverse := congrArg List.reverse (splitOnce_eq_some hparts)
  rw [Prod.mk.injEq] at heq
  rw [List.reverse_reverse] at hreverse
  rw [hreverse, ← heq.1, ← heq.2]
  simp

/-- A mark is found where its last character stands for the last time. -/
theorem rsplitOnce_of_notMem {c : Char} {sep rest : Text} (h : c ∉ rest) (before : Text) :
    rsplitOnce (sep ++ [c]) (before ++ (sep ++ [c] ++ rest)) = some (before, rest) := by
  have hsep : (sep ++ [c]).reverse = c :: sep.reverse := by simp
  have hreverse : (before ++ (sep ++ [c] ++ rest)).reverse = rest.reverse ++ (c :: sep.reverse ++ before.reverse) := by
    simp
  rw [rsplitOnce, hsep, hreverse, splitOnce_of_notMem (by simpa using h)]
  simp

theorem rsplitOnce_eq_none {c : Char} {sep s : Text} (hc : c ∈ sep) (h : c ∉ s) : rsplitOnce sep s = none := by
  cases hsplit : rsplitOnce sep s with
  | none => rfl
  | some parts =>
    have hs := rsplitOnce_eq_some hsplit
    rw [hs] at h
    simp [hc] at h

end AsciiText
