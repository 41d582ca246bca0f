import Mathlib.Data.List.Forall2
import SchemaForms.Proofs.Schema.Sorted
import SchemaForms.Reference.Expansion

/-!
# Members in another order

Two values are `Reordered` if the one becomes the other by exchanging neighbouring members of
objects whose names differ. A layout says at which places of a value that may be done. It may be done
everywhere, or only where schemas are, all data being left as it is.

Looking a name up finds values that are reordered themselves, and once the members are put into the
order of their names they stand in pairs. What looks at members in one of these ways cannot tell the
two values apart, except by the values that it finds.
-/

namespace SchemaForms.Json

/-- Places in a value: at which of them the order of members may change, and the places below. -/
structure Layout (α : Type) where
  free : α → Prop
  member : α → String → α
  element : α → α

namespace Layout

/-- The order of members may change everywhere. -/
def everywhere : Layout Unit where
  free _ := True
  member _ _ := ()
  element _ := ()

/-- The order of members may change in schemas and in maps of schemas. -/
def schemas : Layout Place where
  free place := place = .schema ∨ place = .schemaMap
  member place key :=
    match place with
    | .schema => .ofMember key
    | .schemaMap => .schema
    | .schemaList | .data => .data
  element place :=
    match place with
    | .schema | .schemaList => .schema
    | .schemaMap | .data => .data

end Layout

variable {α : Type} {layout : Layout α}

mutual

/-- The values at the place are the same but for the order of members where it may change. -/
inductive Reordered (layout : Layout α) : α → Json → Json → Prop
  | same (place : α) (value : Json) : Reordered layout place value value
  | arr {place : α} {elements others : List Json}
      (each : ReorderedElements layout (layout.element place) elements others) :
      Reordered layout place (.arr elements) (.arr others)
  | obj {place : α} {members others : Members} (free : layout.free place)
      (each : ReorderedMembers layout (layout.member place) members others) :
      Reordered layout place (.obj members) (.obj others)

inductive ReorderedElements (layout : Layout α) : α → List Json → List Json → Prop
  | nil {place : α} : ReorderedElements layout place [] []
  | cons {place : α} {value other : Json} {rest others : List Json}
      (head : Reordered layout place value other)
      (tail : ReorderedElements layout place rest others) :
      ReorderedElements layout place (value :: rest) (other :: others)

/-- The members of two objects. Members change their places only if their names differ in their code
points. -/
inductive ReorderedMembers (layout : Layout α) : (String → α) → Members → Members → Prop
  | nil {placeOf : String → α} : ReorderedMembers layout placeOf [] []
  | cons {placeOf : String → α} {key : String} {value other : Json} {rest others : Members}
      (head : Reordered layout (placeOf key) value other)
      (tail : ReorderedMembers layout placeOf rest others) :
      ReorderedMembers layout placeOf ((key, value) :: rest) ((key, other) :: others)
  | swap {placeOf : String → α} {first second : String × Json} (rest : Members)
      (differ : Text.codesOf first.1 ≠ Text.codesOf second.1) :
      ReorderedMembers layout placeOf (first :: second :: rest) (second :: first :: rest)
  | trans {placeOf : String → α} {members middle others : Members}
      (first : ReorderedMembers layout placeOf members middle)
      (second : ReorderedMembers layout placeOf middle others) :
      ReorderedMembers layout placeOf members others

end

mutual

theorem Reordered.symm : ∀ {place : α} {value other : Json},
    Reordered layout place value other → Reordered layout place other value
  | _, _, _, .same place value => .same place value
  | _, _, _, .arr each => .arr each.symm
  | _, _, _, .obj free each => .obj free each.symm

theorem ReorderedElements.symm : ∀ {place : α} {elements others : List Json},
    ReorderedElements layout place elements others → ReorderedElements layout place others elements
  | _, _, _, .nil => .nil
  | _, _, _, .cons head tail => .cons head.symm tail.symm

theorem ReorderedMembers.symm : ∀ {placeOf : String → α} {members others : Members},
    ReorderedMembers layout placeOf members others → ReorderedMembers layout placeOf others members
  | _, _, _, .nil => .nil
  | _, _, _, .cons head tail => .cons head.symm tail.symm
  | _, _, _, .swap rest differ => .swap rest differ.symm
  | _, _, _, .trans first second => .trans second.symm first.symm

end

mutual

theorem Reordered.trans : ∀ {place : α} {first second third : Json},
    Reordered layout place first second → Reordered layout place second third →
      Reordered layout place first third
  | _, _, _, _, .same _ _, h => h
  | _, _, _, _, .arr each, .same _ _ => .arr each
  | _, _, _, _, .arr each, .arr each' => .arr (each.trans each')
  | _, _, _, _, .obj free each, .same _ _ => .obj free each
  | _, _, _, _, .obj free each, .obj _ each' => .obj free (.trans each each')

theorem ReorderedElements.trans : ∀ {place : α} {first second third : List Json},
    ReorderedElements layout place first second → ReorderedElements layout place second third →
      ReorderedElements layout place first third
  | _, _, _, _, .nil, h => h
  | _, _, _, _, .cons head tail, .cons head' tail' => .cons (head.trans head') (tail.trans tail')

end

theorem ReorderedElements.refl (place : α) (elements : List Json) :
    ReorderedElements layout place elements elements := by
  induction elements with
  | nil => exact .nil
  | cons value rest ih => exact .cons (.same _ value) ih

theorem ReorderedMembers.refl (placeOf : String → α) (members : Members) :
    ReorderedMembers layout placeOf members members := by
  induction members with
  | nil => exact .nil
  | cons member rest ih => exact .cons (.same _ member.2) ih

/-- Members whose names all differ may be put into any order. -/
theorem ReorderedMembers.of_perm {members others : Members} (perm : members.Perm others)
    (differ : (members.map fun member => Text.codesOf member.1).Nodup) (placeOf : String → α) :
    ReorderedMembers layout placeOf members others := by
  induction perm with
  | nil => exact .nil
  | cons member _ ih => exact .cons (.same _ member.2) (ih (List.nodup_cons.mp differ).2)
  | swap first second rest =>
      refine .swap rest fun same => (List.nodup_cons.mp differ).1 ?_
      rw [List.map_cons, ← same]
      exact List.mem_cons_self
  | trans first _ ih ih' => exact .trans (ih differ) (ih' ((first.map _).nodup_iff.mp differ))

theorem rel_refl (place : α) (found : Option Json) :
    Option.Rel (Reordered layout place) found found := by
  cases found with
  | none => exact .none
  | some value => exact .some (.same place value)

theorem rel_trans {place : α} {first second third : Option Json}
    (h : Option.Rel (Reordered layout place) first second)
    (h' : Option.Rel (Reordered layout place) second third) :
    Option.Rel (Reordered layout place) first third := by
  cases h with
  | none => exact h'
  | some like =>
      cases h' with
      | some like' => exact .some (like.trans like')

theorem rel_get?_cons {placeOf : String → α} {name : String} {value other : Json}
    (head : Reordered layout (placeOf name) value other) {rest rest' : Members} {key : String}
    (below : Option.Rel (Reordered layout (placeOf key)) (Members.get? rest key)
      (Members.get? rest' key)) :
    Option.Rel (Reordered layout (placeOf key)) (Members.get? ((name, value) :: rest) key)
      (Members.get? ((name, other) :: rest') key) := by
  rw [Members.get?_cons, Members.get?_cons]
  split
  · rename_i same
    exact .some (same ▸ head)
  · exact below

theorem get?_swap {first second : String × Json}
    (differ : Text.codesOf first.1 ≠ Text.codesOf second.1) (rest : Members) (key : String) :
    Members.get? (first :: second :: rest) key = Members.get? (second :: first :: rest) key := by
  have names : first.1 ≠ second.1 := fun same => differ (congrArg Text.codesOf same)
  rw [Members.get?_cons, Members.get?_cons, Members.get?_cons, Members.get?_cons]
  split
  · rename_i here
    rw [if_neg fun there => names (here.trans there.symm)]
  · rfl

/-- A name stands for values that are reordered themselves, or for none in both objects. -/
theorem ReorderedMembers.get? : ∀ {placeOf : String → α} {members others : Members},
    ReorderedMembers layout placeOf members others → ∀ key : String,
      Option.Rel (Reordered layout (placeOf key)) (Members.get? members key)
        (Members.get? others key)
  | _, _, _, .nil, _ => .none
  | _, _, _, .cons head tail, key => rel_get?_cons head (tail.get? key)
  | _, _, _, .swap rest differ, key => get?_swap differ rest key ▸ rel_refl _ _
  | _, _, _, .trans first second, key => rel_trans (first.get? key) (second.get? key)

/-- Members that have one name, and values that are reordered. -/
def Matched (layout : Layout α) (placeOf : String → α) (member other : String × Json) : Prop :=
  member.1 = other.1 ∧ Reordered layout (placeOf member.1) member.2 other.2

variable {placeOf : String → α}

theorem matched_refl (members : Members) :
    List.Forall₂ (Matched layout placeOf) members members :=
  List.forall₂_same.mpr fun member _ => ⟨rfl, .same _ member.2⟩

theorem matched_trans {first second third : Members}
    (h : List.Forall₂ (Matched layout placeOf) first second)
    (h' : List.Forall₂ (Matched layout placeOf) second third) :
    List.Forall₂ (Matched layout placeOf) first third := by
  induction h generalizing third with
  | nil => exact h'
  | cons head _ ih =>
      cases h' with
      | cons head' tail' =>
          exact .cons ⟨head.1.trans head'.1, head.2.trans (head.1 ▸ head'.2)⟩ (ih tail')

theorem matched_insertByName {member other : String × Json}
    (head : Matched layout placeOf member other) {members others : Members}
    (h : List.Forall₂ (Matched layout placeOf) members others) :
    List.Forall₂ (Matched layout placeOf) (insertByName member members)
      (insertByName other others) := by
  induction h with
  | nil => exact .cons head .nil
  | cons next rest ih =>
      rw [insertByName, insertByName, head.1, next.1]
      split
      · exact .cons head (.cons next rest)
      · exact .cons next ih

theorem matched_foldl (rest : Members) {before before' : Members}
    (matched : List.Forall₂ (Matched layout placeOf) before before') :
    List.Forall₂ (Matched layout placeOf)
      (rest.foldl (fun sorted member => insertByName member sorted) before)
      (rest.foldl (fun sorted member => insertByName member sorted) before') := by
  induction rest generalizing before before' with
  | nil => exact matched
  | cons member rest ih => exact ih (matched_insertByName ⟨rfl, .same _ member.2⟩ matched)

/-- In the order of their names the members of the two objects match. What has been put in order
before matters as little as the order of the rest. -/
theorem ReorderedMembers.sorted_onto : ∀ {placeOf : String → α} {members others : Members},
    ReorderedMembers layout placeOf members others → ∀ {before before' : Members},
      List.Forall₂ (Matched layout placeOf) before before' →
        List.Forall₂ (Matched layout placeOf)
          (members.foldl (fun sorted member => insertByName member sorted) before)
          (others.foldl (fun sorted member => insertByName member sorted) before')
  | _, _, _, .nil, _, _, matched => matched
  | placeOf, _, _, @ReorderedMembers.cons _ _ _ key value other _ _ head tail, _, _, matched =>
      have pair : Matched layout placeOf (key, value) (key, other) := ⟨rfl, head⟩
      tail.sorted_onto (matched_insertByName pair matched)
  | placeOf, _, _, @ReorderedMembers.swap _ _ _ first second rest differ, before, before',
      matched => by
      have pair (member : String × Json) : Matched layout placeOf member member :=
        ⟨rfl, .same _ member.2⟩
      rw [List.foldl_cons, List.foldl_cons, List.foldl_cons, List.foldl_cons,
        insertByName_comm differ before']
      exact matched_foldl rest
        (matched_insertByName (pair second) (matched_insertByName (pair first) matched))
  | _, _, _, .trans first second, before, _, matched =>
      matched_trans (first.sorted_onto (matched_refl before)) (second.sorted_onto matched)

theorem ReorderedMembers.sorted {members others : Members}
    (h : ReorderedMembers layout placeOf members others) :
    List.Forall₂ (Matched layout placeOf) (sortByName members) (sortByName others) :=
  h.sorted_onto .nil

theorem ReorderedMembers.isEmpty : ∀ {placeOf : String → α} {members others : Members},
    ReorderedMembers layout placeOf members others → others.isEmpty = members.isEmpty
  | _, _, _, .nil | _, _, _, .cons _ _ | _, _, _, .swap _ _ => rfl
  | _, _, _, .trans first second => second.isEmpty.trans first.isEmpty

theorem ReorderedElements.length {place : α} {elements others : List Json}
    (h : ReorderedElements layout place elements others) : elements.length = others.length := by
  induction elements generalizing others with
  | nil =>
      cases h
      rfl
  | cons value rest ih =>
      cases h with
      | cons head tail => rw [List.length_cons, List.length_cons, ih tail]

theorem ReorderedElements.getElem? {place : α} {elements others : List Json}
    (h : ReorderedElements layout place elements others) (index : Nat) :
    Option.Rel (Reordered layout place) elements[index]? others[index]? := by
  induction elements generalizing others index with
  | nil =>
      cases h
      exact .none
  | cons value rest ih =>
      cases h with
      | cons head tail =>
          cases index with
          | zero => exact .some head
          | succ index => exact ih tail index

end SchemaForms.Json
