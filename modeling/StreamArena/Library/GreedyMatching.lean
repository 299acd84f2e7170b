import Mathlib

/-! Greedy matching of two lists: each entry of the first takes the earliest free entry of the second that it
fits. It matches as many whichever of the lists goes first. -/
namespace GreedyMatching
variable {α β : Type*}

/-- The list without its first entry that fits, where one does. -/
def takeOut (fits : α → Bool) : List α → Option (List α)
  | [] => none
  | a :: as => if fits a = true then some as else (takeOut fits as).map (a :: ·)

/-- How many entries are matched. -/
def matched (fits : α → β → Bool) : List α → List β → Nat
  | [], _ => 0
  | a :: as, bs =>
    match takeOut (fits a) bs with
    | none => matched fits as bs
    | some rest => matched fits as rest + 1

variable {fits : α → β → Bool}

@[simp] theorem matched_nil_right (as : List α) : matched fits as [] = 0 := by
  induction as with
  | nil => rfl
  | cons a as ih => rw [matched, takeOut, ih]

/-- The first entry of the second list goes to the earliest entry of the first that it fits, for no other is
preferred to it. -/
theorem matched_cons_right (as : List α) (b : β) (bs : List β) : matched fits as (b :: bs) =
    match takeOut (fun a => fits a b) as with
    | none => matched fits as bs
    | some rest => matched fits rest bs + 1 := by
  induction as generalizing bs with
  | nil => rfl
  | cons a as ih =>
    rw [matched, takeOut, takeOut]
    by_cases hfits : fits a b = true
    · rw [if_pos hfits, if_pos hfits]
    · rw [if_neg hfits, if_neg hfits]
      cases hout : takeOut (fits a) bs with
      | none =>
        rw [Option.map_none, ih]
        cases takeOut (fun a => fits a b) as with
        | none => simp [matched, hout]
        | some rest => simp [matched, hout]
      | some free =>
        rw [Option.map_some]
        dsimp only
        rw [ih]
        cases takeOut (fun a => fits a b) as with
        | none => simp [matched, hout]
        | some rest => simp [matched, hout]

/-- The two directions match the same number of entries. -/
theorem matched_comm (as : List α) (bs : List β) : matched fits as bs = matched (fun b a => fits a b) bs as := by
  induction bs generalizing as with
  | nil => simp [matched]
  | cons b bs ih =>
    rw [matched_cons_right, matched]
    cases takeOut (fun a => fits a b) as with
    | none => exact ih as
    | some rest => exact congrArg (· + 1) (ih rest)

end GreedyMatching
