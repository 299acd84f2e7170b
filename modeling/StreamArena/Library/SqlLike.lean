import Mathlib.Data.List.Infix
import StreamArena.Library.AsciiText

/-! The SQL `LIKE` operator as SQLite documents it: `_` is any one character,
`%` any run of characters, and letters compare without regard to ASCII case.
A literal followed by `%` is a prefix test exactly when the literal holds
neither of the two wildcards. -/
namespace SqlLike
open AsciiText

def like : Text → Text → Bool
  | [], s => s.isEmpty
  | a :: p, s =>
    if a = '%' then s.tails.any (like p)
    else
      match s with
      | [] => false
      | c :: s => (a == '_' || a.toLower == c.toLower) && like p s

def WildcardFree (lit : Text) : Prop := ∀ c ∈ lit, c ≠ '_' ∧ c ≠ '%'

instance (lit : Text) : Decidable (WildcardFree lit) :=
  List.decidableBAll (fun c => c ≠ '_' ∧ c ≠ '%') lit

/-- The literal read as a prefix, without regard to ASCII case. -/
def HasPrefix (lit s : Text) : Prop := toAsciiLowercase lit <+: toAsciiLowercase s

instance (lit s : Text) : Decidable (HasPrefix lit s) :=
  inferInstanceAs (Decidable (_ <+: _))

theorem wildcardFree_append {s t : Text} :
    WildcardFree (s ++ t) ↔ WildcardFree s ∧ WildcardFree t := by
  simp only [WildcardFree, List.mem_append, or_imp, forall_and]
  tauto

theorem wildcardFree_cons {c : Char} {t : Text} :
    WildcardFree (c :: t) ↔ (c ≠ '_' ∧ c ≠ '%') ∧ WildcardFree t := by
  simp [WildcardFree]

theorem hasPrefix_cons {a c : Char} {lit s : Text} :
    HasPrefix (a :: lit) (c :: s) ↔ a.toLower = c.toLower ∧ HasPrefix lit s := by
  simp [HasPrefix, toAsciiLowercase, List.cons_prefix_cons]

theorem like_cons (a : Char) (p s : Text) : like (a :: p) s =
    if a = '%' then s.tails.any (like p)
    else
      match s with
      | [] => false
      | c :: s => (a == '_' || a.toLower == c.toLower) && like p s := rfl

theorem like_run {p s : Text} : like ('%' :: p) s = true ↔ ∃ t, t <:+ s ∧ like p t = true := by
  rw [like_cons]
  simp

theorem like_char {a : Char} (h : a ≠ '%') (p : Text) (c : Char) (s : Text) :
    like (a :: p) (c :: s) = ((a == '_' || a.toLower == c.toLower) && like p s) := by
  rw [like_cons]
  simp [h]

theorem like_char_nil {a : Char} (h : a ≠ '%') (p : Text) : like (a :: p) [] = false := by
  rw [like_cons]
  simp [h]

@[simp] theorem like_rest (s : Text) : like ['%'] s = true :=
  like_run.mpr ⟨[], List.nil_suffix, rfl⟩

/-- Whatever the literal holds, carrying it as a prefix is enough to match. -/
theorem like_of_hasPrefix {lit s : Text} (h : HasPrefix lit s) : like (lit ++ ['%']) s = true := by
  induction lit generalizing s with
  | nil => exact like_rest s
  | cons a lit ih =>
    cases s with
    | nil => simp [HasPrefix, toAsciiLowercase] at h
    | cons c s =>
      obtain ⟨hc, hs⟩ := hasPrefix_cons.mp h
      rw [List.cons_append]
      by_cases ha : a = '%'
      · subst ha
        exact like_run.mpr ⟨s, List.suffix_cons c s, ih hs⟩
      · rw [like_char ha]
        simp [hc, ih hs]

theorem like_iff_hasPrefix {lit s : Text} (hw : WildcardFree lit) :
    like (lit ++ ['%']) s = true ↔ HasPrefix lit s := by
  refine ⟨fun h => ?_, like_of_hasPrefix⟩
  induction lit generalizing s with
  | nil => exact List.nil_prefix
  | cons a lit ih =>
    obtain ⟨⟨hu, hp⟩, hw⟩ := wildcardFree_cons.mp hw
    rw [List.cons_append] at h
    cases s with
    | nil => simp [like_char_nil hp] at h
    | cons c s =>
      simp only [like_char hp, beq_false_of_ne hu, Bool.false_or, Bool.and_eq_true, beq_iff_eq] at h
      exact hasPrefix_cons.mpr ⟨h.1, ih hw h.2⟩

/-- The pattern matches, but only by reading a `_` or `%` of the literal as a wildcard. -/
def WildcardOnly (lit s : Text) : Prop := like (lit ++ ['%']) s = true ∧ ¬ HasPrefix lit s

instance (lit s : Text) : Decidable (WildcardOnly lit s) := inferInstanceAs (Decidable (_ ∧ _))

theorem like_iff {lit s : Text} :
    like (lit ++ ['%']) s = true ↔ HasPrefix lit s ∨ WildcardOnly lit s := by
  by_cases h : HasPrefix lit s
  · simp [h, like_of_hasPrefix h]
  · simp [h, WildcardOnly]

theorem not_wildcardOnly {lit : Text} (hw : WildcardFree lit) (s : Text) : ¬ WildcardOnly lit s :=
  fun h => h.2 ((like_iff_hasPrefix hw).mp h.1)

end SqlLike
