import Mathlib

/-! Computations that may find nothing, or be stopped by a check of the machine: of an index, a length or the
range of a register. -/

universe u

inductive Outcome (α : Type u) where
  | value (a : α)
  | nothing
  | panic
  deriving DecidableEq

namespace Outcome
variable {α β : Type u}

def bind : Outcome α → (α → Outcome β) → Outcome β
  | value a, f => f a
  | nothing, _ => nothing
  | panic, _ => panic

instance : Monad Outcome where
  pure := value
  bind := bind

def ofOption : Option α → Outcome α
  | some a => value a
  | none => nothing

/-- What a computation gives where it is not stopped. -/
def toOption : Outcome α → Option α
  | value a => some a
  | _ => none

/-- A check stands before what relies on it. -/
def guarded (p : Prop) [Decidable p] (x : Outcome α) : Outcome α := if p then x else panic

/-- An index that the machine checks. -/
def index (l : List α) (i : Nat) : Outcome α :=
  match l[i]? with
  | some a => value a
  | none => panic

def each (f : α → Outcome β) : List α → Outcome (List β)
  | [] => value []
  | a :: l => do
    let b ← f a
    let rest ← each f l
    value (b :: rest)

/-- What is nothing inside a computation that goes on without it. -/
def optional : Outcome α → Outcome (Option α)
  | value a => value (some a)
  | nothing => value none
  | panic => panic

def Safe (x : Outcome α) : Prop := x ≠ panic

@[simp] theorem pure_eq (a : α) : (pure a : Outcome α) = value a := rfl
@[simp] theorem value_bind (a : α) (f : α → Outcome β) : (value a).bind f = f a := rfl
@[simp] theorem nothing_bind (f : α → Outcome β) : (nothing : Outcome α).bind f = nothing := rfl
@[simp] theorem panic_bind (f : α → Outcome β) : (panic : Outcome α).bind f = panic := rfl
@[simp] theorem ofOption_some (a : α) : ofOption (some a) = value a := rfl
@[simp] theorem ofOption_none : ofOption (none : Option α) = nothing := rfl
@[simp] theorem safe_value (a : α) : (value a).Safe := by simp [Safe]
@[simp] theorem safe_nothing : (nothing : Outcome α).Safe := by simp [Safe]
@[simp] theorem not_safe_panic : ¬ (panic : Outcome α).Safe := fun h => h rfl

@[simp] theorem optional_value (a : α) : (value a).optional = value (some a) := rfl
@[simp] theorem optional_nothing : (nothing : Outcome α).optional = value none := rfl

theorem bind_def (x : Outcome α) (f : α → Outcome β) : x >>= f = x.bind f := rfl

theorem safe_ofOption (x : Option α) : (ofOption x).Safe := by
  cases x <;> simp

theorem ofOption_eq_value {x : Option α} {a : α} : ofOption x = value a ↔ x = some a := by
  cases x <;> simp [ofOption]

theorem bind_eq_value {x : Outcome α} {f : α → Outcome β} {b : β} :
    x.bind f = value b ↔ ∃ a, x = value a ∧ f a = value b := by
  cases x <;> simp

theorem bind_congr {x : Outcome α} {f g : α → Outcome β} (h : ∀ a, x = value a → f a = g a) : x.bind f = x.bind g := by
  cases x with
  | value a => exact h a rfl
  | nothing => rfl
  | panic => rfl

theorem safe_bind {x : Outcome α} {f : α → Outcome β} :
    (x.bind f).Safe ↔ x.Safe ∧ ∀ a, x = value a → (f a).Safe := by
  cases x <;> simp

theorem guarded_eq_value {p : Prop} [Decidable p] {x : Outcome α} {a : α} : guarded p x = value a ↔ p ∧ x = value a := by
  rw [guarded]
  split <;> simp_all

theorem safe_guarded {p : Prop} [Decidable p] {x : Outcome α} : (guarded p x).Safe ↔ p ∧ x.Safe := by
  rw [guarded]
  split <;> simp_all

theorem safe_optional {x : Outcome α} : x.optional.Safe ↔ x.Safe := by
  cases x <;> simp [optional]

theorem index_eq_value {l : List α} {i : Nat} {a : α} (h : l[i]? = some a) : index l i = value a := by
  rw [index, h]

theorem safe_index {l : List α} {i : Nat} (h : i < l.length) : (index l i).Safe := by
  rw [index_eq_value (List.getElem?_eq_getElem h)]
  exact safe_value _

theorem each_eq_value {f : α → Outcome β} {g : α → β} {l : List α} (h : ∀ a ∈ l, f a = value (g a)) : each f l = value (l.map g) := by
  induction l with
  | nil => rfl
  | cons a l ih =>
    rw [each, h a List.mem_cons_self, ih fun b hb => h b (List.mem_cons_of_mem _ hb)]
    rfl

end Outcome
