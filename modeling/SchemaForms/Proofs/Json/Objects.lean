import Mathlib.Data.List.Nodup
import SchemaForms.Proofs.Schema.Positions

/-!
# The objects inside a value

A place inside a value is told by an address: at each array or object on the way to it, the number
of the element or member to go on with. `Json.objects` lists all objects inside a value, wherever
they stand, with their addresses; `mem_objects` says that it does.

`Throughout` says something of each of them. `NamesDiffer` is what JSON demands: the members of an
object have different names. Names are compared as rows of code points, since not every text is the
spelling of one.
-/

namespace SchemaForms

namespace Json

def child? : Json → Nat → Option Json
  | .arr elements, index => elements[index]?
  | .obj members, index => (members.map (·.2))[index]?
  | _, _ => none

def at? : Json → List Nat → Option Json
  | value, [] => some value
  | value, index :: address => (value.child? index).bind (·.at? address)

/-- Objects inside the child of the given number, as objects inside its parent. -/
def inChild (index : Nat) (objects : List (List Nat × Members)) : List (List Nat × Members) :=
  objects.map fun object => (index :: object.1, object.2)

mutual

/-- The objects inside a value, with their addresses. -/
def objects : Json → List (List Nat × Members)
  | .obj members => ([], members) :: objectsOfMembers 0 members
  | .arr elements => objectsOfElements 0 elements
  | _ => []

/-- The objects inside the elements of an array, the first of which has the given number. -/
def objectsOfElements (index : Nat) : List Json → List (List Nat × Members)
  | [] => []
  | value :: rest => inChild index value.objects ++ objectsOfElements (index + 1) rest

/-- The objects inside the members of an object, the first of which has the given number. -/
def objectsOfMembers (index : Nat) : List (String × Json) → List (List Nat × Members)
  | [] => []
  | (_, value) :: rest => inChild index value.objects ++ objectsOfMembers (index + 1) rest

end

theorem at?_append (value : Json) (address rest : List Nat) :
    value.at? (address ++ rest) = (value.at? address).bind (·.at? rest) := by
  induction address generalizing value with
  | nil => rfl
  | cons index address ih =>
      rw [List.cons_append, at?, at?, Option.bind_assoc]
      exact congrArg _ (funext ih)

theorem mem_inChild {index : Nat} {objects : List (List Nat × Members)} {address : List Nat}
    {members : Members} : (address, members) ∈ inChild index objects ↔
      ∃ rest, address = index :: rest ∧ (rest, members) ∈ objects := by
  simp only [inChild, List.mem_map, Prod.mk.injEq, Prod.exists]
  constructor
  · rintro ⟨rest, _, mem, rfl, rfl⟩
    exact ⟨rest, rfl, mem⟩
  · rintro ⟨rest, rfl, mem⟩
    exact ⟨rest, members, mem, rfl, rfl⟩

/-- The children of a row of values, the first of which has the given number, below the first of
them and below the others. -/
theorem exists_child_cons {start : Nat} {address : List Nat} {first : Json} {rest : List Json}
    {node : Json} :
    (∃ index below value, address = (start + index) :: below ∧
        (first :: rest)[index]? = some value ∧ value.at? below = some node) ↔
      (∃ below, address = start :: below ∧ first.at? below = some node) ∨
        ∃ index below value, address = (start + 1 + index) :: below ∧
          rest[index]? = some value ∧ value.at? below = some node := by
  constructor
  · rintro ⟨index, below, value, rfl, has, found⟩
    cases index with
    | zero =>
        cases has
        exact .inl ⟨below, rfl, found⟩
    | succ index => exact .inr ⟨index, below, value, by rw [Nat.add_right_comm]; rfl, has, found⟩
  · rintro (⟨below, rfl, found⟩ | ⟨index, below, value, rfl, has, found⟩)
    · exact ⟨0, below, first, rfl, rfl, found⟩
    · exact ⟨index + 1, below, value, by rw [Nat.add_right_comm]; rfl, has, found⟩

theorem exists_child {row : List Json} {index : Nat} {address : List Nat} {node : Json} :
    (∃ number below value, index :: address = (0 + number) :: below ∧ row[number]? = some value ∧
        value.at? below = some node) ↔ (row[index]?.bind (·.at? address)) = some node := by
  rw [Option.bind_eq_some_iff]
  constructor
  · rintro ⟨number, below, value, same, has, found⟩
    rw [Nat.zero_add] at same
    obtain ⟨rfl, rfl⟩ := List.cons.inj same
    exact ⟨value, has, found⟩
  · rintro ⟨value, has, found⟩
    exact ⟨index, address, value, by rw [Nat.zero_add], has, found⟩

mutual

/-- An object is listed just if it is found at its address. -/
theorem mem_objects : ∀ {value : Json} {address : List Nat} {members : Members},
    (address, members) ∈ value.objects ↔ value.at? address = some (.obj members)
  | .obj members, address, inner => by
      rw [objects, List.mem_cons, mem_objectsOfMembers]
      cases address with
      | nil => simp [at?, eq_comm]
      | cons index below =>
          have own : ¬ (index :: below, inner) = ([], members) := by simp
          rw [or_iff_right own]
          exact exists_child
  | .arr elements, address, members => by
      rw [objects, mem_objectsOfElements]
      cases address with
      | nil => simp [at?]
      | cons index below => exact exists_child
  | .null, address, members | .bool _, address, members | .int _, address, members
  | .double _, address, members | .str _, address, members => by
      cases address <;> simp [objects, at?, child?]

theorem mem_objectsOfElements : ∀ {elements : List Json} {start : Nat} {address : List Nat}
    {members : Members}, (address, members) ∈ objectsOfElements start elements ↔
      ∃ index below value, address = (start + index) :: below ∧ elements[index]? = some value ∧
        value.at? below = some (.obj members)
  | [], _, _, _ => by simp [objectsOfElements]
  | value :: rest, start, address, members => by
      rw [objectsOfElements, List.mem_append, mem_inChild, mem_objectsOfElements, exists_child_cons]
      simp only [mem_objects]

theorem mem_objectsOfMembers : ∀ {members : List (String × Json)} {start : Nat}
    {address : List Nat} {inner : Members}, (address, inner) ∈ objectsOfMembers start members ↔
      ∃ index below value, address = (start + index) :: below ∧
        (members.map (·.2))[index]? = some value ∧ value.at? below = some (.obj inner)
  | [], _, _, _ => by simp [objectsOfMembers]
  | (key, value) :: rest, start, address, inner => by
      rw [objectsOfMembers, List.mem_append, mem_inChild, mem_objectsOfMembers, List.map_cons,
        exists_child_cons]
      simp only [mem_objects]

end

theorem nodup_inChild {index : Nat} {objects : List (List Nat × Members)}
    (h : (objects.map (·.1)).Nodup) : ((inChild index objects).map (·.1)).Nodup := by
  have addresses : (inChild index objects).map (·.1) = (objects.map (·.1)).map (index :: ·) := by
    simp [inChild]
  rw [addresses]
  exact h.map fun _ _ same => (List.cons.inj same).2

/-- Objects inside the first child are not inside those after it. -/
theorem disjoint_inChild {start : Nat} {objects others : List (List Nat × Members)}
    (h : ∀ object ∈ others, ∃ index below, object.1 = (start + 1 + index) :: below) :
    ((inChild start objects).map (·.1)).Disjoint (others.map (·.1)) := by
  intro address first second
  obtain ⟨⟨_, _⟩, mem, rfl⟩ := List.mem_map.mp first
  obtain ⟨below, rfl, -⟩ := mem_inChild.mp mem
  obtain ⟨other, mem', same⟩ := List.mem_map.mp second
  obtain ⟨index, below', eq⟩ := h other mem'
  have heads := (List.cons.inj (eq.symm.trans same)).1
  omega

mutual

theorem nodup_objects : ∀ value : Json, (value.objects.map (·.1)).Nodup
  | .obj members => by
      rw [objects, List.map_cons, List.nodup_cons]
      refine ⟨?_, nodup_objectsOfMembers 0 members⟩
      rw [List.mem_map]
      rintro ⟨⟨address, inner⟩, mem, rfl⟩
      obtain ⟨index, below, value, impossible, -⟩ := mem_objectsOfMembers.mp mem
      cases impossible
  | .arr elements => nodup_objectsOfElements 0 elements
  | .null | .bool _ | .int _ | .double _ | .str _ => List.nodup_nil

theorem nodup_objectsOfElements : ∀ (start : Nat) (elements : List Json),
    ((objectsOfElements start elements).map (·.1)).Nodup
  | _, [] => List.nodup_nil
  | start, value :: rest => by
      rw [objectsOfElements, List.map_append]
      refine (nodup_inChild (nodup_objects value)).append
        (nodup_objectsOfElements (start + 1) rest) (disjoint_inChild ?_)
      rintro object mem
      obtain ⟨index, below, value, eq, -⟩ := mem_objectsOfElements.mp mem
      exact ⟨index, below, eq⟩

theorem nodup_objectsOfMembers : ∀ (start : Nat) (members : List (String × Json)),
    ((objectsOfMembers start members).map (·.1)).Nodup
  | _, [] => List.nodup_nil
  | start, (key, value) :: rest => by
      rw [objectsOfMembers, List.map_append]
      refine (nodup_inChild (nodup_objects value)).append
        (nodup_objectsOfMembers (start + 1) rest) (disjoint_inChild ?_)
      rintro object mem
      obtain ⟨index, below, value, eq, -⟩ := mem_objectsOfMembers.mp mem
      exact ⟨index, below, eq⟩

end

/-- What stands at a schema position of a value has an address in it. -/
theorem at?_of_schemaPosition {value node : Json} (h : SchemaPosition value node) :
    ∃ address, value.at? address = some node := by
  have step {value child : Json} (index : Nat) (has : value.child? index = some child)
      (below : ∃ address, child.at? address = some node) :
      ∃ address, value.at? address = some node := by
    obtain ⟨address, found⟩ := below
    exact ⟨index :: address, by rw [at?, has, Option.bind_some, found]⟩
  have member {members : Members} {member : String × Json} (mem : member ∈ members) :
      ∃ index, (Json.obj members).child? index = some member.2 := by
    exact List.mem_iff_getElem?.mp (List.mem_map_of_mem mem)
  induction h with
  | here value => exact ⟨[], rfl⟩
  | element mem _ ih =>
      obtain ⟨index, has⟩ := List.mem_iff_getElem?.mp mem
      exact step index has (ih step)
  | named _ has mem _ ih =>
      obtain ⟨outer, first⟩ := member has
      obtain ⟨inner, second⟩ := member mem
      exact step outer first (step inner second (ih step))
  | items has _ ih =>
      obtain ⟨index, first⟩ := member has
      exact step index first (ih step)
  | listed _ has mem _ ih =>
      obtain ⟨outer, first⟩ := member has
      obtain ⟨inner, second⟩ := List.mem_iff_getElem?.mp mem
      exact step outer first (step inner second (ih step))

/-- All objects inside the value satisfy the predicate on their members. -/
def Throughout (p : Members → Prop) (value : Json) : Prop :=
  ∀ address members, value.at? address = some (.obj members) → p members

section Throughout

variable {p : Members → Prop} {value inner : Json} {members : Members} {pair : String × Json}
variable {elements : List Json}

/-- Only the objects that are listed need to be looked at. -/
theorem throughout_iff (p : Members → Prop) (value : Json) :
    value.Throughout p ↔ ∀ object ∈ value.objects, p object.2 := by
  constructor
  · intro all object mem
    exact all object.1 object.2 (mem_objects.mp mem)
  · intro all address members found
    exact all (address, members) (mem_objects.mpr found)

instance [DecidablePred p] (value : Json) : Decidable (value.Throughout p) :=
  decidable_of_iff' _ (throughout_iff p value)

theorem Throughout.child {index : Nat} (all : value.Throughout p)
    (has : value.child? index = some inner) : inner.Throughout p := by
  intro address members found
  exact all (index :: address) members (by rw [at?, has, Option.bind_some, found])

theorem Throughout.own (all : (Json.obj members).Throughout p) : p members :=
  all [] members rfl

theorem Throughout.member (all : (Json.obj members).Throughout p) (mem : pair ∈ members) :
    pair.2.Throughout p := by
  have inside : pair.2 ∈ members.map (·.2) := List.mem_map_of_mem mem
  obtain ⟨index, has⟩ := List.mem_iff_getElem?.mp inside
  exact all.child has

theorem Throughout.element (all : (Json.arr elements).Throughout p) (mem : value ∈ elements) :
    value.Throughout p := by
  obtain ⟨index, has⟩ := List.mem_iff_getElem?.mp mem
  exact all.child has

end Throughout

/-- No object inside the value has two members whose names have the same code points. -/
def NamesDiffer (value : Json) : Prop :=
  ∀ address members, value.at? address = some (.obj members) →
    (members.map fun member => Text.codesOf member.1).Nodup

theorem namesDiffer_iff (value : Json) : value.NamesDiffer ↔
    ∀ object ∈ value.objects, (object.2.map fun member => Text.codesOf member.1).Nodup :=
  throughout_iff _ value

instance (value : Json) : Decidable value.NamesDiffer :=
  decidable_of_iff' _ value.namesDiffer_iff

section NamesDiffer

variable {value : Json} {members : Members} {pair : String × Json} {elements : List Json}

theorem NamesDiffer.own (differ : (Json.obj members).NamesDiffer) :
    (members.map fun member => Text.codesOf member.1).Nodup :=
  differ [] members rfl

theorem NamesDiffer.member (differ : (Json.obj members).NamesDiffer) (mem : pair ∈ members) :
    pair.2.NamesDiffer :=
  Throughout.member differ mem

theorem NamesDiffer.element (differ : (Json.arr elements).NamesDiffer) (mem : value ∈ elements) :
    value.NamesDiffer :=
  Throughout.element differ mem

end NamesDiffer

end Json

end SchemaForms
