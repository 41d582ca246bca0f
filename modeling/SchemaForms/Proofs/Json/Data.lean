import SchemaForms.Pointer
import SchemaForms.Proofs.Schema.Positions

/-!
# The data in a schema

Whatever the values of `const`, `default` and `enum` look like, they are data. `Json.mapData f` puts
what `f` makes of it in the place of each of them. `Json.SameButData f` says of two values that they
come to the same if that is done to them. So they differ in their data at most, and there only as far
as `f` does not tell: a constant `f` tells nothing of the data, and the identity tells all.

The members of an object that is the value of `$defs` or `properties` have the names that its author
gave them. They are schemas and no data, even one that is called `default`. What such an object
holds is told by where it stands, so `mapData` is told whether it begins with one.

A pointer may lead into data. `Json.shares` says of two values that it leads into none in which they
differ; then it leads to values that are the same but for their data. A pointer that stays outside
data shares all values.
-/

namespace SchemaForms

/-- The members of a schema that hold data. -/
def dataKeys : List String := ["const", "default", "enum"]

namespace Json

/-- The member of an object holds data, unless the object is a map of schemas. -/
def isData (isMap : Bool) (key : String) : Bool :=
  !isMap && dataKeys.contains key

/-- The member of an object holds a map of schemas, unless the object is one itself. -/
def holdsMap (isMap : Bool) (key : String) : Bool :=
  !isMap && schemaMaps.contains key

mutual

/-- The value with something else in the place of its data. -/
def mapData (f : Json → Json) (isMap : Bool) : Json → Json
  | .obj members => .obj (mapDataMembers f isMap members)
  | .arr elements => .arr (mapDataElements f elements)
  | value => value

/-- The elements of an array with something else in the place of their data. -/
def mapDataElements (f : Json → Json) : List Json → List Json
  | [] => []
  | value :: rest => value.mapData f false :: mapDataElements f rest

/-- The members of an object with something else in the place of their data. -/
def mapDataMembers (f : Json → Json) (isMap : Bool) : List (String × Json) → List (String × Json)
  | [] => []
  | (key, value) :: rest =>
    (key, if isData isMap key then f value else value.mapData f (holdsMap isMap key)) ::
      mapDataMembers f isMap rest

end

/-- What stands in the place of a member when that is done to its object. -/
def mapDataMember (f : Json → Json) (isMap : Bool) (key : String) (value : Json) : Json :=
  if isData isMap key then f value else value.mapData f (holdsMap isMap key)

variable {f : Json → Json} {isMap : Bool} {key : String} {value other : Json}
variable {members others : Members}

theorem mapDataMembers_eq_map (f : Json → Json) (isMap : Bool) (members : Members) :
    mapDataMembers f isMap members =
      members.map fun member => (member.1, mapDataMember f isMap member.1 member.2) := by
  induction members with
  | nil => rfl
  | cons member rest ih =>
      rw [mapDataMembers, ih, List.map_cons]
      rfl

theorem mapDataElements_eq_map (f : Json → Json) (elements : List Json) :
    mapDataElements f elements = elements.map (mapData f false) := by
  induction elements with
  | nil => rfl
  | cons value rest ih => rw [mapDataElements, ih, List.map_cons]

theorem mapDataMember_of_not_isData (schema : isData isMap key = false) (value : Json) :
    mapDataMember f isMap key value = value.mapData f (holdsMap isMap key) := by
  rw [mapDataMember, schema, if_neg Bool.false_ne_true]

theorem mapData_eq_obj {result : Members} :
    value.mapData f isMap = .obj result ↔
      ∃ members, value = .obj members ∧ mapDataMembers f isMap members = result := by
  cases value <;> simp [mapData]

theorem mapData_eq_arr {result : List Json} :
    value.mapData f isMap = .arr result ↔
      ∃ elements, value = .arr elements ∧ mapDataElements f elements = result := by
  cases value <;> simp [mapData]

@[simp] theorem get?_mapDataMembers (f : Json → Json) (isMap : Bool) (members : Members)
    (key : String) :
    Members.get? (mapDataMembers f isMap members) key =
      (Members.get? members key).map (mapDataMember f isMap key) := by
  induction members with
  | nil => rfl
  | cons member rest ih =>
      obtain ⟨name, value⟩ := member
      by_cases same : name = key
      · subst same
        simp [mapDataMembers, mapDataMember]
      · simp [mapDataMembers, same, ih]

@[simp] theorem has_mapDataMembers (f : Json → Json) (isMap : Bool) (members : Members)
    (key : String) : Members.has (mapDataMembers f isMap members) key = Members.has members key := by
  simp [Members.has, get?_mapDataMembers]

/-- The values are the same but for their data. -/
def SameButData (f : Json → Json) (isMap : Bool) (value other : Json) : Prop :=
  value.mapData f isMap = other.mapData f isMap

instance (f : Json → Json) (isMap : Bool) (value other : Json) :
    Decidable (SameButData f isMap value other) :=
  inferInstanceAs (Decidable (_ = _))

theorem SameButData.refl (f : Json → Json) (isMap : Bool) (value : Json) :
    SameButData f isMap value value := rfl

theorem SameButData.symm (same : SameButData f isMap value other) :
    SameButData f isMap other value :=
  Eq.symm same

theorem sameButData_obj : SameButData f isMap (.obj members) (.obj others) ↔
    mapDataMembers f isMap members = mapDataMembers f isMap others := by
  simp [SameButData, mapData]

theorem sameButData_arr {elements others : List Json} :
    SameButData f isMap (.arr elements) (.arr others) ↔
      mapDataElements f elements = mapDataElements f others := by
  simp [SameButData, mapData]

theorem SameButData.obj (same : SameButData f isMap (.obj members) other) :
    ∃ others, other = .obj others ∧ mapDataMembers f isMap others = mapDataMembers f isMap members :=
  mapData_eq_obj.mp same.symm

theorem SameButData.arr {elements : List Json} (same : SameButData f isMap (.arr elements) other) :
    ∃ others, other = .arr others ∧ mapDataElements f others = mapDataElements f elements :=
  mapData_eq_arr.mp same.symm

/-- Objects that are the same but for their data have the same members, but for their values. -/
theorem exists_get?_of_mapDataMembers
    (same : mapDataMembers f isMap others = mapDataMembers f isMap members)
    (has : Members.get? members key = some value) :
    ∃ other, Members.get? others key = some other ∧
      mapDataMember f isMap key other = mapDataMember f isMap key value := by
  have found := get?_mapDataMembers f isMap others key
  rw [same, get?_mapDataMembers, has, Option.map_some] at found
  exact Option.map_eq_some_iff.mp found.symm

theorem exists_getElem?_of_mapDataElements {elements others : List Json} {index : Nat}
    (same : mapDataElements f others = mapDataElements f elements)
    (has : elements[index]? = some value) :
    others.length = elements.length ∧
      ∃ other, others[index]? = some other ∧ SameButData f false value other := by
  rw [mapDataElements_eq_map, mapDataElements_eq_map] at same
  refine ⟨by simpa using congrArg List.length same, ?_⟩
  have found : (others.map (mapData f false))[index]? = some (value.mapData f false) := by
    rw [same, List.getElem?_map, has, Option.map_some]
  rw [List.getElem?_map] at found
  obtain ⟨other, has', eq⟩ := Option.map_eq_some_iff.mp found
  exact ⟨other, has', Eq.symm eq⟩

section Pointer

/-- The tokens lead into no data in which the values differ. If they lead to a map of schemas, then
the values there are the same but for their data if they are taken for schemas, too. -/
def shares (f : Json → Json) (isMap : Bool) (value other : Json) : List String → Bool
  | [] => !isMap || SameButData f false value other
  | token :: rest =>
    match Pointer.child value token, Pointer.child other token with
    | .ok inner, .ok inner' =>
      (!isData isMap token || inner = inner') && shares f (holdsMap isMap token) inner inner' rest
    | _, _ => true

/-- The tokens lead through no member that holds data, and not to a map of schemas. -/
def staysOutside (isMap : Bool) : List String → Bool
  | [] => !isMap
  | token :: rest => !isData isMap token && staysOutside (holdsMap isMap token) rest

theorem shares_of_staysOutside {tokens : List String} (h : staysOutside isMap tokens = true) :
    shares f isMap value other tokens = true := by
  induction tokens generalizing isMap value other with
  | nil => exact Bool.or_eq_true_iff.mpr (.inl h)
  | cons token rest ih =>
      obtain ⟨schema, further⟩ := Bool.and_eq_true_iff.mp h
      unfold shares
      split
      · rw [schema, Bool.true_or, Bool.true_and]
        exact ih further
      · rfl

/-- A token that is an index of an array is no name of a map of schemas. -/
theorem holdsMap_of_index {token : String} {length number : Nat}
    (h : Pointer.index token length = .ok (some number)) : holdsMap isMap token = false := by
  cases map : holdsMap isMap token with
  | false => rfl
  | true =>
      have named : token = "$defs" ∨ token = "properties" := by
        simpa [holdsMap, schemaMaps] using (Bool.and_eq_true_iff.mp map).2
      obtain rfl | rfl := named <;> simp [Pointer.index, Text.asciiDigit?] at h

/-- What stands at a token of a value stands there in one that is the same but for its data, and it
is the same but for data if it is no data itself. -/
theorem SameButData.child (same : SameButData f isMap value other) {token : String} {inner : Json}
    (found : Pointer.child value token = .ok inner) :
    ∃ inner', Pointer.child other token = .ok inner' ∧
      (isData isMap token = false → SameButData f (holdsMap isMap token) inner inner') := by
  unfold Pointer.child at found
  cases value with
  | obj members =>
      obtain ⟨others, rfl, alike⟩ := same.obj
      simp only at found
      split at found
      · rename_i found' has
        cases found
        obtain ⟨inner', has', eq⟩ := exists_get?_of_mapDataMembers alike has
        refine ⟨inner', by simp [Pointer.child, has'], fun schema => ?_⟩
        rw [mapDataMember_of_not_isData schema, mapDataMember_of_not_isData schema] at eq
        exact Eq.symm eq
      · cases found
  | arr elements =>
      obtain ⟨others, rfl, alike⟩ := same.arr
      simp only at found
      split at found
      · cases found
      · rename_i read
        split at found
        · rename_i has
          cases found
          obtain ⟨index, rfl, has⟩ := Option.bind_eq_some_iff.mp has
          obtain ⟨length, inner', has', eq⟩ := exists_getElem?_of_mapDataElements alike has
          refine ⟨inner', by simp [Pointer.child, length, read, has'], fun _ => ?_⟩
          rw [holdsMap_of_index read]
          exact eq
        · cases found
  | _ => cases found

/-- A pointer that leads into no data in which the values differ leads to the same in both of them,
but for data. -/
theorem SameButData.descend {tokens : List String} {found : Json}
    (same : SameButData f isMap value other) (shared : shares f isMap value other tokens = true)
    (run : Pointer.descend value tokens = .ok found) :
    ∃ found', Pointer.descend other tokens = .ok found' ∧ SameButData f false found found' := by
  induction tokens generalizing isMap value other with
  | nil =>
      rw [Pointer.descend_nil, Except.ok.injEq] at run
      subst run
      refine ⟨other, rfl, ?_⟩
      cases isMap with
      | false => exact same
      | true => simpa [shares] using shared
  | cons token rest ih =>
      rw [Pointer.descend_cons] at run
      cases step : Pointer.child value token with
      | error fault =>
          rw [step] at run
          cases run
      | ok inner =>
          obtain ⟨inner', step', schema⟩ := same.child step
          rw [step] at run
          simp only [shares, step, step', Bool.and_eq_true, Bool.or_eq_true, Bool.not_eq_true',
            decide_eq_true_eq] at shared
          obtain ⟨data, further⟩ := shared
          have inside : SameButData f (holdsMap isMap token) inner inner' := by
            obtain outside | rfl := data
            · exact schema outside
            · exact .refl _ _ _
          obtain ⟨found', run', eq⟩ := ih inside further run
          exact ⟨found', by rw [Pointer.descend_cons, step']; exact run', eq⟩

end Pointer

end Json

end SchemaForms
