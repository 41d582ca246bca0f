import SchemaForms.Json.Basic

/-!
# Steps into a value

A place in a value is given by the steps that lead to it, each to a member of an object by its name
or to an element of an array by its number.
-/

namespace SchemaForms.Json

/-- A step into a value: to the member of a name, or to the element of a number. -/
inductive Step where
  | key (name : String)
  | index (number : Nat)
deriving DecidableEq, Repr

def follow? : Json → List Step → Option Json
  | value, [] => some value
  | .obj members, .key name :: rest => (Members.get? members name).bind (·.follow? rest)
  | .arr elements, .index number :: rest => elements[number]?.bind (·.follow? rest)
  | _, _ :: _ => none

@[simp] theorem follow?_nil (value : Json) : value.follow? [] = some value := by
  cases value <;> rfl

theorem follow?_key (members : Members) (name : String) :
    (obj members).follow? [.key name] = Members.get? members name := by
  simp [follow?]

theorem follow?_index (elements : List Json) (number : Nat) :
    (arr elements).follow? [.index number] = elements[number]? := by
  simp [follow?]

/-- To follow a row of steps is to take the first step and follow the others from there. -/
theorem follow?_cons (value : Json) (step : Step) (rest : List Step) :
    value.follow? (step :: rest) = (value.follow? [step]).bind (·.follow? rest) := by
  cases value <;> cases step <;> simp [follow?]

end SchemaForms.Json
