import StreamArena.Library.JsonValue

/-! Errors of the API (src/error.rs) and the bounded text fields that every
handler reads from its body (src/routes.rs). -/
namespace StreamArena.Routes
open AsciiText JsonValue

structure ApiError where
  status : Nat
  error : Text
  deriving DecidableEq

namespace ApiError

def badRequest (message : Text) : ApiError := ⟨400, message⟩
def failedDependency (message : Text) : ApiError := ⟨424, message⟩
def internal (message : Text) : ApiError := ⟨500, message⟩
def serviceUnavailable (message : Text) : ApiError := ⟨503, message⟩

end ApiError

def boundedTrimmedString (value : Text) (maxBytes : Nat) : Option Text :=
  let trimmed := trim value
  if trimmed.isEmpty || decide (byteLength trimmed > maxBytes) then none else some trimmed

def boundedStringField (payload : Value) (field : Text) (maxBytes : Nat) : Option Text :=
  ((payload.get field).bind Value.asStr).bind fun value => boundedTrimmedString value maxBytes

def missingOrInvalid (field : Text) (maxBytes : Nat) : ApiError :=
  .badRequest ("Missing or invalid ".toList ++ field ++ "; limit is ".toList ++
    (toString maxBytes).toList ++ " bytes.".toList)

def requireBoundedStringField (payload : Value) (field : Text) (maxBytes : Nat) :
    Except ApiError Text :=
  match boundedStringField payload field maxBytes with
  | some value => .ok value
  | none => .error (missingOrInvalid field maxBytes)

theorem boundedTrimmedString_eq_some {value trimmed : Text} {maxBytes : Nat}
    (h : boundedTrimmedString value maxBytes = some trimmed) :
    trimmed ≠ [] ∧ trim trimmed = trimmed ∧ byteLength trimmed ≤ maxBytes := by
  simp only [boundedTrimmedString, Option.ite_none_left_eq_some, Bool.or_eq_true,
    List.isEmpty_iff, decide_eq_true_eq, not_or, Option.some.injEq] at h
  obtain ⟨⟨hne, hle⟩, rfl⟩ := h
  exact ⟨hne, trim_trim value, not_lt.mp hle⟩

/-- An accepted field is accepted again. -/
theorem boundedTrimmedString_self {value trimmed : Text} {maxBytes : Nat}
    (h : boundedTrimmedString value maxBytes = some trimmed) :
    boundedTrimmedString trimmed maxBytes = some trimmed := by
  obtain ⟨hne, htrim, hle⟩ := boundedTrimmedString_eq_some h
  simp [boundedTrimmedString, htrim, hne, hle]

theorem requireBoundedStringField_eq_ok {payload : Value} {field value : Text} {maxBytes : Nat}
    (h : requireBoundedStringField payload field maxBytes = .ok value) :
    boundedStringField payload field maxBytes = some value := by
  rw [requireBoundedStringField] at h
  split at h
  · next found hfound => rw [hfound, Except.ok.inj h]
  · cases h

/-- A successful computation, step by step. -/
theorem bind_eq_ok {ε α β : Type} {x : Except ε α} {f : α → Except ε β} {b : β} :
    x >>= f = .ok b ↔ ∃ a, x = .ok a ∧ f a = .ok b := by
  cases x with
  | error e => simp [bind, Except.bind]
  | ok a => simp [bind, Except.bind]

end StreamArena.Routes
