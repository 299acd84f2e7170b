import Mathlib
import StreamArena.Library.AsciiText
import StreamArena.Library.Separated

/-! The lines of a text, and what the trimming of the text does to them. -/
namespace TextLines
open AsciiText Separated

def isBlank (line : Text) : Bool := line.all isWhitespace

def trimStartLines : List Text → List Text
  | [] => []
  | line :: rest => if isBlank line then trimStartLines rest else trimStart line :: rest

def trimEndLines : List Text → List Text
  | [] => []
  | line :: rest =>
    if trimEndLines rest = [] then (if isBlank line then [] else [trimEnd line]) else line :: trimEndLines rest

def trimLines (text : List Text) : List Text := trimEndLines (trimStartLines text)

theorem isBlank_nil : isBlank [] = true := rfl

theorem isWhitespace_lineFeed : isWhitespace '\n' = true := by decide

theorem isEmpty_trim (line : Text) : (trim line).isEmpty = isBlank line := by
  rw [Bool.eq_iff_iff, List.isEmpty_iff, isBlank, List.all_eq_true]
  constructor
  · intro h
    rw [trim, List.rdropWhile_eq_nil_iff] at h
    intro c hc
    rw [← List.takeWhile_append_dropWhile (p := isWhitespace) (l := line)] at hc
    rcases List.mem_append.mp hc with hc | hc
    · exact List.mem_takeWhile_imp hc
    · exact h c hc
  · intro h
    have hnil : line.dropWhile isWhitespace = [] := List.dropWhile_eq_nil_iff.mpr h
    rw [trim, hnil]
    rfl

/-- A text is what trimming leaves of it, between white space. -/
theorem trim_append (s : Text) : ∃ before after, s = before ++ trim s ++ after ∧ isBlank before = true ∧ isBlank after = true := by
  refine ⟨s.takeWhile isWhitespace, (s.dropWhile isWhitespace).rtakeWhile isWhitespace, ?_, ?_, ?_⟩
  · rw [trim, List.append_assoc, List.rdropWhile_append_rtakeWhile, List.takeWhile_append_dropWhile]
  · exact List.all_eq_true.mpr fun c hc => List.mem_takeWhile_imp hc
  · exact List.all_eq_true.mpr fun c hc => List.mem_rtakeWhile_imp hc

theorem trimStart_eq_nil {line : Text} : trimStart line = [] ↔ isBlank line = true := by
  rw [trimStart, List.dropWhile_eq_nil_iff, isBlank, List.all_eq_true]

theorem trimEnd_eq_nil {line : Text} : trimEnd line = [] ↔ isBlank line = true := by
  rw [trimEnd, List.rdropWhile_eq_nil_iff, isBlank, List.all_eq_true]

theorem join_cons_cons (a b : Text) (rest : List Text) : join '\n' (a :: b :: rest) = a ++ '\n' :: join '\n' (b :: rest) :=
  join_cons a (List.cons_ne_nil b rest)

section
attribute [local simp] trimStartLines trimEndLines

/-- White space at the start of a text goes with its first blank lines. -/
theorem trimStart_join (text : List Text) : trimStart (join '\n' text) = join '\n' (trimStartLines text) := by
  induction text with
  | nil => rfl
  | cons line rest ih =>
    have hjoined : trimStart (join '\n' (line :: rest)) =
        if isBlank line then trimStart (join '\n' rest) else join '\n' (trimStart line :: rest) := by
      cases rest with
      | nil =>
        rw [join_singleton]
        split
        · next hblank => exact trimStart_eq_nil.mpr hblank
        · rw [join_singleton]
      | cons next rest =>
        rw [join_cons_cons, join_cons_cons, trimStart, List.dropWhile_append]
        have hnil : (line.dropWhile isWhitespace).isEmpty = isBlank line := by
          rw [Bool.eq_iff_iff, List.isEmpty_iff]
          exact trimStart_eq_nil
        rw [hnil]
        split
        · rw [List.dropWhile_cons, if_pos isWhitespace_lineFeed]
          rfl
        · rfl
    rw [hjoined, trimStartLines]
    split
    · exact ih
    · rfl

theorem trimEnd_append (a b : Text) : trimEnd (a ++ b) = if trimEnd b = [] then trimEnd a else a ++ trimEnd b := by
  rw [trimEnd, trimEnd, trimEnd, List.rdropWhile, List.reverse_append, List.dropWhile_append]
  by_cases hb : b.rdropWhile isWhitespace = []
  · have hnil : (b.reverse.dropWhile isWhitespace).isEmpty = true := by
      rw [List.rdropWhile, List.reverse_eq_nil_iff] at hb
      rw [hb]
      rfl
    rw [if_pos hnil, if_pos hb]
    rfl
  · have hne : ¬ (b.reverse.dropWhile isWhitespace).isEmpty = true := by
      rw [List.rdropWhile, List.reverse_eq_nil_iff] at hb
      rw [List.isEmpty_iff]
      exact hb
    rw [if_neg hne, if_neg hb, List.reverse_append, List.reverse_reverse]
    rfl

theorem trimEnd_of_free {word : Text} (h : ∀ c ∈ word, isWhitespace c = false) : trimEnd word = word := by
  rw [trimEnd, List.rdropWhile_eq_self_iff]
  intro hne
  simp [h _ (List.getLast_mem hne)]

/-- Only what stands behind the last word goes. -/
theorem trimEnd_word (front : Text) {word : Text} (hne : word ≠ []) (h : ∀ c ∈ word, isWhitespace c = false) (rest : Text) :
    trimEnd (front ++ (word ++ rest)) = front ++ (word ++ trimEnd rest) := by
  have hword : trimEnd (word ++ rest) = word ++ trimEnd rest := by
    rw [trimEnd_append]
    split
    · next hrest => rw [hrest, trimEnd_of_free h, List.append_nil]
    · rfl
  rw [trimEnd_append, hword, if_neg (by simp [hne])]

theorem trimStart_blank {blank : Text} (h : isBlank blank = true) (s : Text) : trimStart (blank ++ s) = trimStart s :=
  List.dropWhile_append_of_pos fun c hc => List.all_eq_true.mp h c hc

theorem trimStart_word {word : Text} (hne : word ≠ []) (h : ∀ c ∈ word, isWhitespace c = false) (rest : Text) :
    trimStart (word ++ rest) = word ++ rest := by
  cases word with
  | nil => exact absurd rfl hne
  | cons c word => simp [trimStart, h c List.mem_cons_self]

theorem trim_eq (s : Text) : trim s = trimEnd (trimStart s) := rfl

theorem join_trimEndLines_eq_nil {text : List Text} (h : join '\n' (trimEndLines text) = []) : trimEndLines text = [] := by
  cases text with
  | nil => rfl
  | cons line rest =>
    rw [trimEndLines] at h ⊢
    split at h
    · split at h
      · next hrest hblank => rw [if_pos hrest, if_pos hblank]
      · next hrest hblank =>
        rw [join_singleton] at h
        exact absurd (trimEnd_eq_nil.mp h) hblank
    · next hrest =>
      rw [join_cons line hrest] at h
      simp at h

/-- White space at the end of a text goes with its last blank lines. -/
theorem trimEnd_join (text : List Text) : trimEnd (join '\n' text) = join '\n' (trimEndLines text) := by
  induction text with
  | nil => rfl
  | cons line rest ih =>
    cases rest with
    | nil =>
      rw [join_singleton, trimEndLines, trimEndLines, if_pos rfl]
      split
      · next hblank => exact trimEnd_eq_nil.mpr hblank
      · rw [join_singleton]
    | cons next rest =>
      have hfeed : trimEnd ('\n' :: join '\n' (next :: rest)) =
          if trimEndLines (next :: rest) = [] then [] else '\n' :: join '\n' (trimEndLines (next :: rest)) := by
        have hsingle := trimEnd_append ['\n'] (join '\n' (next :: rest))
        rw [ih, List.singleton_append, List.singleton_append] at hsingle
        rw [hsingle]
        by_cases hend : trimEndLines (next :: rest) = []
        · rw [if_pos hend, hend]
          rfl
        · rw [if_neg (fun h => hend (join_trimEndLines_eq_nil h)), if_neg hend]
      have hlines : trimEndLines (line :: next :: rest) = if trimEndLines (next :: rest) = [] then
          (if isBlank line then [] else [trimEnd line]) else line :: trimEndLines (next :: rest) := rfl
      rw [join_cons_cons, trimEnd_append, hfeed, hlines]
      by_cases hend : trimEndLines (next :: rest) = []
      · rw [if_pos hend, if_pos rfl, if_pos hend]
        split
        · next hblank => exact trimEnd_eq_nil.mpr hblank
        · rw [join_singleton]
      · rw [if_neg hend, if_neg (by simp), if_neg hend, join_cons line hend]

theorem trim_join (text : List Text) : trim (join '\n' text) = join '\n' (trimLines text) := by
  rw [trim_eq, trimStart_join, trimEnd_join, trimLines]

theorem mem_trimStartLines {text : List Text} {line : Text} (h : line ∈ trimStartLines text) : ∃ l ∈ text, line ⊆ l := by
  induction text with
  | nil => cases h
  | cons first rest ih =>
    rw [trimStartLines] at h
    split at h
    · obtain ⟨l, hl, hsub⟩ := ih h
      exact ⟨l, List.mem_cons_of_mem first hl, hsub⟩
    · rcases List.mem_cons.mp h with rfl | h
      · exact ⟨first, List.mem_cons_self, (List.dropWhile_sublist isWhitespace).subset⟩
      · exact ⟨line, List.mem_cons_of_mem first h, List.Subset.refl line⟩

theorem mem_trimEndLines {text : List Text} {line : Text} (h : line ∈ trimEndLines text) : ∃ l ∈ text, line ⊆ l := by
  induction text with
  | nil => cases h
  | cons first rest ih =>
    rw [trimEndLines] at h
    split at h
    · split at h
      · cases h
      · rw [List.mem_singleton.mp h]
        exact ⟨first, List.mem_cons_self, (List.rdropWhile_prefix isWhitespace first).subset⟩
    · rcases List.mem_cons.mp h with rfl | h
      · exact ⟨line, List.mem_cons_self, List.Subset.refl line⟩
      · obtain ⟨l, hl, hsub⟩ := ih h
        exact ⟨l, List.mem_cons_of_mem first hl, hsub⟩

/-- Nothing comes into the lines of a text when it is trimmed. -/
theorem mem_trimLines {text : List Text} {line : Text} (h : line ∈ trimLines text) : ∃ l ∈ text, line ⊆ l := by
  obtain ⟨l, hl, hsub⟩ := mem_trimEndLines h
  obtain ⟨l', hl', hsub'⟩ := mem_trimStartLines hl
  exact ⟨l', hl', List.Subset.trans hsub hsub'⟩

theorem getLast_trimEndLines {text : List Text} {line : Text} (h : (trimEndLines text).getLast? = some line) : line ≠ [] := by
  induction text with
  | nil => cases h
  | cons first rest ih =>
    rw [trimEndLines] at h
    split at h
    · split at h
      · cases h
      · next hblank =>
        rw [← Option.some.inj h]
        exact fun hnil => hblank (trimEnd_eq_nil.mp hnil)
    · next hrest =>
      rw [List.getLast?_cons_of_ne_nil hrest] at h
      exact ih h

theorem trimEndLines_eq_nil {text : List Text} : trimEndLines text = [] ↔ ∀ line ∈ text, isBlank line = true := by
  induction text with
  | nil => simp [trimEndLines]
  | cons first rest ih =>
    rw [trimEndLines]
    by_cases hrest : trimEndLines rest = []
    · rw [if_pos hrest]
      by_cases hblank : isBlank first = true
      · simpa [hblank] using ih.mp hrest
      · simp [hblank]
    · rw [if_neg hrest]
      simp only [reduceCtorEq, List.mem_cons, forall_eq_or_imp, false_iff, not_and]
      intro _ hall
      exact hrest (ih.mpr hall)

end

/-- Lines without line ends, the last not empty, are the lines of the text that they make. -/
theorem lines_join {text : List Text} (hfree : ∀ line ∈ text, '\n' ∉ line ∧ '\r' ∉ line)
    (hlast : ∀ line, text.getLast? = some line → line ≠ []) : lines (join '\n' text) = text := by
  rcases eq_or_ne text [] with rfl | hne
  · rfl
  · have hpieces : (join '\n' text).splitOn '\n' = text := List.splitOn_intercalate '\n' (fun line hl => (hfree line hl).1) hne
    have hmap : text.dropLast.map (fun line => if line.getLast? = some '\r' then line.dropLast else line) = text.dropLast := by
      refine (List.map_congr_left ?_).trans (List.map_id _)
      intro line hline
      exact if_neg fun hcr => (hfree line (List.mem_of_mem_dropLast hline)).2 (List.mem_of_getLast? hcr)
    have hend := hlast (text.getLast hne) (List.getLast?_eq_some_getLast hne)
    have hkeep : (text.getLast?.toList.filter fun line => !line.isEmpty) = [text.getLast hne] := by
      rw [List.getLast?_eq_some_getLast hne]
      simp [hend]
    rw [lines, hpieces]
    simp only [hmap, hkeep]
    exact List.dropLast_append_getLast hne

/-- The lines of a text that starts with some lines. -/
theorem splitOn_join_append {text : List Text} (hfree : ∀ line ∈ text, '\n' ∉ line) (rest : Text) :
    (join '\n' (text ++ [[]]) ++ rest).splitOn '\n' = text ++ rest.splitOn '\n' := by
  induction text with
  | nil => rfl
  | cons line text ih =>
    have hline : line.splitOn '\n' = [line] := by
      apply List.splitOnP_eq_singleton
      intro c hc
      have hne : c ≠ '\n' := fun heq => hfree line List.mem_cons_self (heq ▸ hc)
      simpa using hne
    have hjoin : join '\n' (line :: text ++ [[]]) ++ rest = line ++ '\n' :: (join '\n' (text ++ [[]]) ++ rest) := by
      rw [List.cons_append, join_cons line (by simp)]
      simp
    have hsplit : (line ++ '\n' :: (join '\n' (text ++ [[]]) ++ rest)).splitOn '\n' =
        line.splitOn '\n' ++ (join '\n' (text ++ [[]]) ++ rest).splitOn '\n' :=
      List.splitOnP_append_cons _ _ (beq_self_eq_true '\n')
    rw [hjoin, hsplit, hline, ih fun l hl => hfree l (List.mem_cons_of_mem line hl), List.singleton_append, List.cons_append]

end TextLines
