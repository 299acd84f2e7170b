import StreamArena.Library.Separated
import StreamArena.Library.AsciiText
import StreamArena.Library.TextLines

/-! The words of a text: what stands between its white space. -/
namespace Words
open AsciiText

def splitWhitespace (s : Text) : List Text := (s.splitOnP isWhitespace).filter fun piece => !piece.isEmpty

/-- The words with one space between. -/
def normalizeWhitespace (s : Text) : Text := Separated.join ' ' (splitWhitespace s)

theorem of_mem_splitOnP {p : Char → Bool} {s piece : Text} {c : Char} (h : piece ∈ s.splitOnP p) (hc : c ∈ piece) :
    c ∈ s ∧ p c = false := by
  induction s generalizing piece with
  | nil =>
    rw [List.splitOnP_nil, List.mem_singleton] at h
    rw [h] at hc
    cases hc
  | cons d s ih =>
    rw [List.splitOnP_cons_eq_if_modifyHead] at h
    split at h
    · rcases List.mem_cons.mp h with rfl | h
      · cases hc
      · exact (ih h hc).imp_left (List.mem_cons_of_mem d)
    · next hd =>
      obtain ⟨first, rest, hpieces⟩ := List.exists_cons_of_ne_nil (List.splitOnP_ne_nil p s)
      rw [hpieces] at h ih
      rcases List.mem_cons.mp h with rfl | h
      · rcases List.mem_cons.mp hc with rfl | hc
        · exact ⟨List.mem_cons_self, by simpa using hd⟩
        · exact (ih List.mem_cons_self hc).imp_left (List.mem_cons_of_mem d)
      · exact (ih (List.mem_cons_of_mem first h) hc).imp_left (List.mem_cons_of_mem d)

/-- No word holds white space. -/
theorem of_mem_splitWhitespace {s word : Text} {c : Char} (h : word ∈ splitWhitespace s) (hc : c ∈ word) :
    c ∈ s ∧ isWhitespace c = false :=
  of_mem_splitOnP (List.mem_filter.mp h).1 hc

/-- A text that is empty or starts with white space. -/
def Parted (s : Text) : Prop := ∀ c ∈ s.head?, isWhitespace c = true

theorem splitWhitespace_space {c : Char} (h : isWhitespace c = true) (s : Text) :
    splitWhitespace (c :: s) = splitWhitespace s := by
  rw [splitWhitespace, List.splitOnP_cons_eq_if_modifyHead, if_pos h]
  rfl

theorem splitWhitespace_blank {w : Text} (h : ∀ c ∈ w, isWhitespace c = true) (s : Text) :
    splitWhitespace (w ++ s) = splitWhitespace s := by
  induction w with
  | nil => rfl
  | cons c w ih =>
    rw [List.cons_append, splitWhitespace_space (h c List.mem_cons_self), ih fun d hd => h d (List.mem_cons_of_mem c hd)]

/-- A first word comes off. -/
theorem splitWhitespace_word {word rest : Text} (hne : word ≠ []) (h : ∀ c ∈ word, isWhitespace c = false) (hrest : Parted rest) :
    splitWhitespace (word ++ rest) = word :: splitWhitespace rest := by
  have hsingle : word.splitOnP isWhitespace = [word] := by
    apply List.splitOnP_eq_singleton
    intro c hc
    simp [h c hc]
  have hword : ([word].filter fun piece => !piece.isEmpty) = [word] := by
    cases word with
    | nil => exact absurd rfl hne
    | cons c word => rfl
  cases rest with
  | nil => rw [List.append_nil, splitWhitespace, hsingle, hword]; rfl
  | cons c rest =>
    have hc := hrest c rfl
    rw [splitWhitespace_space hc, splitWhitespace, List.splitOnP_append_cons _ _ hc, hsingle, List.filter_append, hword]
    rfl

/-- Where the first word of a text stands. -/
theorem head_splitWhitespace {s word : Text} (h : (splitWhitespace s).head? = some word) :
    ∃ before rest, s = before ++ (word ++ rest) ∧ (∀ c ∈ before, isWhitespace c = true) ∧ word ≠ [] ∧
      (∀ c ∈ word, isWhitespace c = false) ∧ Parted rest := by
  induction s with
  | nil => simp [splitWhitespace] at h
  | cons c s ih =>
    by_cases hc : isWhitespace c = true
    · rw [splitWhitespace_space hc] at h
      obtain ⟨before, rest, rfl, hbefore, hword⟩ := ih h
      refine ⟨c :: before, rest, rfl, fun d hd => ?_, hword⟩
      rcases List.mem_cons.mp hd with rfl | hd
      · exact hc
      · exact hbefore d hd
    · have hsplit : c :: s = (c :: s).takeWhile (fun d => !isWhitespace d) ++ (c :: s).dropWhile fun d => !isWhitespace d :=
        (List.takeWhile_append_dropWhile).symm
      have hne : (c :: s).takeWhile (fun d => !isWhitespace d) ≠ [] := by simp [hc]
      have hfree : ∀ d ∈ (c :: s).takeWhile (fun d => !isWhitespace d), isWhitespace d = false := fun d hd => by
        simpa using List.mem_takeWhile_imp hd
      have hparted : Parted ((c :: s).dropWhile fun d => !isWhitespace d) := by
        intro d hd
        have hhead := List.head?_dropWhile_not (fun d => !isWhitespace d) (c :: s)
        rw [hd] at hhead
        simpa using hhead
      rw [hsplit, splitWhitespace_word hne hfree hparted, List.head?_cons, Option.some.injEq] at h
      rw [← h]
      exact ⟨[], _, hsplit, by simp, hne, hfree, hparted⟩

theorem of_mem_words {s word : Text} (h : word ∈ splitWhitespace s) : word ≠ [] ∧ ∀ c ∈ word, isWhitespace c = false := by
  refine ⟨fun hnil => ?_, fun c hc => (of_mem_splitWhitespace h hc).2⟩
  rw [hnil, splitWhitespace, List.mem_filter] at h
  exact absurd h.2 (by decide)

/-- Words that are joined by spaces are split again. -/
theorem splitWhitespace_join {words : List Text} (h : ∀ word ∈ words, word ≠ [] ∧ ∀ c ∈ word, isWhitespace c = false) :
    splitWhitespace (Separated.join ' ' words) = words := by
  induction words with
  | nil => rfl
  | cons word words ih =>
    obtain ⟨hne, hfree⟩ := h word List.mem_cons_self
    have hrest := ih fun w hw => h w (List.mem_cons_of_mem word hw)
    cases words with
    | nil =>
      have hsingle := @splitWhitespace_word word [] hne hfree (by simp [Parted])
      rw [List.append_nil] at hsingle
      rw [Separated.join_singleton, hsingle]
      rfl
    | cons next words =>
      have hspace : isWhitespace ' ' = true := by decide
      rw [Separated.join_cons word (List.cons_ne_nil next words), splitWhitespace_word hne hfree, splitWhitespace_space hspace, hrest]
      intro c hc
      rw [← Option.some.inj hc]
      exact hspace

@[simp] theorem normalizeWhitespace_idem (s : Text) : normalizeWhitespace (normalizeWhitespace s) = normalizeWhitespace s := by
  rw [normalizeWhitespace, normalizeWhitespace, splitWhitespace_join fun word hword => of_mem_words hword]

/-- No white space stands around the joined words. -/
@[simp] theorem trim_normalizeWhitespace (s : Text) : trim (normalizeWhitespace s) = normalizeWhitespace s := by
  rw [normalizeWhitespace]
  rcases List.eq_nil_or_concat (splitWhitespace s) with hnil | ⟨front, last, hwords⟩
  · rw [hnil]
    rfl
  · rw [List.concat_eq_append] at hwords
    have hword (word : Text) (h : word ∈ splitWhitespace s) := of_mem_words h
    rw [hwords] at hword ⊢
    obtain ⟨hlastNe, hlast⟩ := hword last (by simp)
    have hend (before : Text) := TextLines.trimEnd_word before hlastNe hlast []
    simp only [List.append_nil] at hend
    have hnil : trimEnd [] = [] := rfl
    cases front with
    | nil =>
      have hstart := TextLines.trimStart_word hlastNe hlast []
      rw [List.append_nil] at hstart
      rw [List.nil_append, Separated.join_singleton, TextLines.trim_eq, hstart]
      simpa [hnil] using hend []
    | cons first front =>
      obtain ⟨hfirstNe, hfirst⟩ := hword first (by simp)
      have hjoin := @Separated.join_concat Char ' ' _ (List.cons_ne_nil first front) last
      have hcons : Separated.join ' ' (first :: front ++ [last]) = first ++ ' ' :: Separated.join ' ' (front ++ [last]) :=
        Separated.join_cons first (by simp)
      have hstart := TextLines.trimStart_word hfirstNe hfirst (' ' :: Separated.join ' ' (front ++ [last]))
      rw [← hcons] at hstart
      rw [TextLines.trim_eq, hstart, hjoin]
      have happ : Separated.join ' ' (first :: front) ++ ' ' :: last = (Separated.join ' ' (first :: front) ++ [' ']) ++ last := by simp
      rw [happ]
      simpa [hnil] using hend (Separated.join ' ' (first :: front) ++ [' '])

end Words
