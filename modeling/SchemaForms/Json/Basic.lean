import SchemaForms.Decimal.Binary64
import SchemaForms.Text.Surrogate

/-!
# JSON values

A JSON value keeps the order of its object members and tells integers from floating point numbers.
Objects are lists of members; the operations below read and write them by name, so that a member
that is written again keeps its place and a new one goes to the end. `Json.Distinct` says that no
object of a value has two members of one name, which every value read from text satisfies.
-/

namespace SchemaForms

inductive Json where
  | null
  | bool (b : Bool)
  | int (n : Int)
  | double (x : Binary64)
  | str (s : String)
  | arr (elements : List Json)
  | obj (members : List (String × Json))
deriving Inhabited, Repr

abbrev Members := List (String × Json)

namespace Json

mutual

def decEq : (a b : Json) → Decidable (a = b)
  | .null, .null => isTrue rfl
  | .bool a, .bool b => decidable_of_iff (a = b) (by simp)
  | .int a, .int b => decidable_of_iff (a = b) (by simp)
  | .double a, .double b => decidable_of_iff (a = b) (by simp)
  | .str a, .str b => decidable_of_iff (a = b) (by simp)
  | .arr a, .arr b => have := decEqElements a b; decidable_of_iff (a = b) (by simp)
  | .obj a, .obj b => have := decEqMembers a b; decidable_of_iff (a = b) (by simp)
  | .null, .bool _ | .null, .int _ | .null, .double _ | .null, .str _ | .null, .arr _
  | .null, .obj _ | .bool _, .null | .bool _, .int _ | .bool _, .double _ | .bool _, .str _
  | .bool _, .arr _ | .bool _, .obj _ | .int _, .null | .int _, .bool _ | .int _, .double _
  | .int _, .str _ | .int _, .arr _ | .int _, .obj _ | .double _, .null | .double _, .bool _
  | .double _, .int _ | .double _, .str _ | .double _, .arr _ | .double _, .obj _ | .str _, .null
  | .str _, .bool _ | .str _, .int _ | .str _, .double _ | .str _, .arr _ | .str _, .obj _
  | .arr _, .null | .arr _, .bool _ | .arr _, .int _ | .arr _, .double _ | .arr _, .str _
  | .arr _, .obj _ | .obj _, .null | .obj _, .bool _ | .obj _, .int _ | .obj _, .double _
  | .obj _, .str _ | .obj _, .arr _ => isFalse (by simp)

def decEqElements : (a b : List Json) → Decidable (a = b)
  | [], [] => isTrue rfl
  | x :: xs, y :: ys =>
    have := decEq x y
    have := decEqElements xs ys
    decidable_of_iff (x = y ∧ xs = ys) (by simp)
  | [], _ :: _ | _ :: _, [] => isFalse (by simp)

def decEqMembers : (a b : List (String × Json)) → Decidable (a = b)
  | [], [] => isTrue rfl
  | (k, x) :: xs, (l, y) :: ys =>
    have := decEq x y
    have := decEqMembers xs ys
    decidable_of_iff (k = l ∧ x = y ∧ xs = ys) (by simp [and_assoc])
  | [], _ :: _ | _ :: _, [] => isFalse (by simp)

end

instance : DecidableEq Json := decEq

end Json

namespace Members

def get? : Members → String → Option Json
  | [], _ => none
  | (name, value) :: rest, key => if name = key then some value else get? rest key

def has (members : Members) (key : String) : Bool :=
  (get? members key).isSome

/-- Give the member with the given name a value, in its place if there is one and at the end
otherwise. -/
def set : Members → String → Json → Members
  | [], key, value => [(key, value)]
  | (name, old) :: rest, key, value =>
    if name = key then (name, value) :: rest else (name, old) :: set rest key value

/-- Set one member after another. -/
def setAll (members updates : Members) : Members :=
  updates.foldl (fun ms update => set ms update.1 update.2) members

/-- Remove every member with the given name. -/
def erase (members : Members) (key : String) : Members :=
  members.filter fun member => member.1 ≠ key

def keys (members : Members) : List String :=
  members.map (·.1)

@[simp] theorem get?_nil (key : String) : get? [] key = none := rfl

@[simp] theorem get?_cons (name key : String) (value : Json) (rest : Members) :
    get? ((name, value) :: rest) key = if name = key then some value else get? rest key := rfl

theorem get?_set_self (members : Members) (key : String) (value : Json) :
    get? (set members key value) key = some value := by
  induction members with
  | nil => simp [set]
  | cons member rest ih =>
    obtain ⟨name, old⟩ := member
    by_cases h : name = key <;> simp [set, h, ih]

theorem get?_set_of_ne {key other : String} (h : key ≠ other) (members : Members) (value : Json) :
    get? (set members key value) other = get? members other := by
  induction members with
  | nil => simp [set, h]
  | cons member rest ih =>
    obtain ⟨name, old⟩ := member
    by_cases hn : name = key
    · subst hn
      simp [set, h]
    · simp [set, hn, ih]

theorem has_iff_mem_keys {members : Members} {key : String} :
    has members key = true ↔ key ∈ keys members := by
  induction members with
  | nil => simp [has, keys]
  | cons member rest ih =>
    obtain ⟨name, old⟩ := member
    by_cases hn : name = key
    · simp [has, keys, hn]
    · have hk : ¬ key = name := fun h => hn h.symm
      simpa [has, keys, hn, hk] using ih

/-- Writing a member adds its name at the end unless it is there. -/
theorem keys_set (members : Members) (key : String) (value : Json) :
    keys (set members key value) =
      if key ∈ keys members then keys members else keys members ++ [key] := by
  induction members with
  | nil => simp [set, keys]
  | cons member rest ih =>
    obtain ⟨name, old⟩ := member
    by_cases hn : name = key
    · simp [set, keys, hn]
    · have hk : key ≠ name := fun h => hn h.symm
      have hset : keys (set ((name, old) :: rest) key value) =
          name :: keys (set rest key value) := by
        simp [keys, set, hn]
      have hmem : key ∈ keys ((name, old) :: rest) ↔ key ∈ keys rest := by simp [keys, hk]
      have hcons : keys ((name, old) :: rest) = name :: keys rest := rfl
      rw [hset, ih]
      by_cases h : key ∈ keys rest
      · rw [if_pos h, if_pos (hmem.mpr h), hcons]
      · rw [if_neg h, if_neg (mt hmem.mp h), hcons, List.cons_append]

theorem nodup_keys_set {members : Members} (h : (keys members).Nodup) (key : String)
    (value : Json) : (keys (set members key value)).Nodup := by
  rw [keys_set]
  split
  · exact h
  · rename_i hk
    refine List.nodup_append.mpr ⟨h, by simp, ?_⟩
    intro a ha b hb
    rw [List.mem_singleton.mp hb]
    rintro rfl
    exact hk ha

end Members

/-- A name comes before another in the order of code points. -/
def nameBefore (a b : String) : Bool :=
  Text.codesOf a < Text.codesOf b

/-- Insert a pair into a list of pairs that is ordered by name. -/
def insertByName {α : Type} (pair : String × α) : List (String × α) → List (String × α)
  | [] => [pair]
  | head :: rest =>
    if nameBefore pair.1 head.1 then pair :: head :: rest else head :: insertByName pair rest

/-- Order pairs by name, comparing code points; pairs of one name keep their order. -/
def sortByName {α : Type} (pairs : List (String × α)) : List (String × α) :=
  pairs.foldl (fun sorted pair => insertByName pair sorted) []

/-- The names in increasing order of their code points. -/
def sortNames (names : List String) : List String :=
  (sortByName (names.map fun name => (name, ()))).map (·.1)

namespace Json

def members? : Json → Option Members
  | .obj members => some members
  | _ => none

def string? : Json → Option String
  | .str s => some s
  | _ => none

/-- The value, unless it is null. -/
def nonNull? : Json → Option Json
  | .null => none
  | v => some v

mutual

/-- No object of the value has two members of one name. -/
def Distinct : Json → Prop
  | .arr elements => DistinctElements elements
  | .obj members => (Members.keys members).Nodup ∧ DistinctMembers members
  | _ => True

/-- No object of the values has two members of one name. -/
def DistinctElements : List Json → Prop
  | [] => True
  | value :: rest => value.Distinct ∧ DistinctElements rest

/-- No object of the members' values has two members of one name. -/
def DistinctMembers : List (String × Json) → Prop
  | [] => True
  | (_, value) :: rest => value.Distinct ∧ DistinctMembers rest

end

end Json

end SchemaForms
