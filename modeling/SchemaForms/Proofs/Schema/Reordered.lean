import SchemaForms.Proofs.Json.Reordered
import SchemaForms.Proofs.Schema.Assembled
import SchemaForms.Proofs.Schema.Positions

/-!
# Normalization does not depend on the order of members

The normalizer looks the keywords of a node up by their names, and whatever else it does with members
it does in the order of their names. So it cannot tell values apart that are the same but for the
order of members in schemas and in maps of schemas: it gives the same schema or the same error, even
where there are several things wrong with a node.

Under the names that are looked up stand values that are reordered themselves. Data among them is the
same, and what is normalized comes to the same by induction along the schema positions.
-/

namespace SchemaForms

open Json (Reordered ReorderedElements ReorderedMembers Matched)

namespace Json

mutual

/-- The order of members does not change in data. -/
theorem Reordered.eq_of_data : ∀ {value other : Json}, Reordered .schemas .data value other →
    value = other
  | _, _, .same _ _ => rfl
  | _, _, .arr each => congrArg Json.arr each.eq_of_data

theorem ReorderedElements.eq_of_data : ∀ {elements others : List Json},
    ReorderedElements .schemas .data elements others → elements = others
  | _, _, .nil => rfl
  | _, _, .cons head tail => congrArg₂ List.cons head.eq_of_data tail.eq_of_data

end

theorem names_of_matched {α : Type} {layout : Layout α} {placeOf : String → α}
    {members others : Members} (h : List.Forall₂ (Matched layout placeOf) members others) :
    others.map (·.1) = members.map (·.1) := by
  induction h with
  | nil => rfl
  | cons head _ ih => rw [List.map_cons, List.map_cons, ih, head.1]

/-- What is left of matching members is the same, if it is all data. -/
theorem filter_of_matched {placeOf : String → Place} {members others : Members}
    (h : List.Forall₂ (Matched .schemas placeOf) members others) {keep : String → Bool}
    (data : ∀ name, keep name = true → placeOf name = .data) :
    others.filter (fun member => keep member.1) = members.filter fun member => keep member.1 := by
  induction h with
  | nil => rfl
  | @cons member other _ _ head _ ih =>
      obtain ⟨name, like⟩ := head
      rw [List.filter_cons, List.filter_cons, ih, ← name]
      split
      · rename_i kept
        rw [data member.1 kept] at like
        rw [Prod.ext name like.eq_of_data]
      · rfl

/-- The members of two nodes that are the same but for the order of members. -/
abbrev ReorderedNode (members others : Members) : Prop :=
  ReorderedMembers .schemas Place.ofMember members others

variable {members others : Members}

theorem ReorderedNode.get?_of_data (h : ReorderedNode members others) {key : String}
    (data : Place.ofMember key = .data) : Members.get? others key = Members.get? members key := by
  have both := ReorderedMembers.get? h key
  rw [data] at both
  generalize Members.get? members key = found at both ⊢
  generalize Members.get? others key = found' at both ⊢
  cases both with
  | none => rfl
  | some like => rw [like.eq_of_data]

end Json

namespace Keywords

variable {members others : Members} {path : String}

/-- The names of nodes are the same, once they are in order. -/
theorem sortNames_keys (members : Members) :
    sortNames (Members.keys members) = (sortByName members).map (·.1) := by
  have pairs : (Members.keys members).map (fun name => (name, ())) =
      members.map (under fun _ => ()) := by
    rw [Members.keys, List.map_map]
    rfl
  rw [sortNames, pairs, sortByName_map, List.map_map]
  rfl

/-- So the first of them that is not supported is the same. -/
theorem check_reordered (h : Json.ReorderedNode members others) :
    check others path = check members path := by
  rw [check, check, sortNames_keys, sortNames_keys,
    Json.names_of_matched (ReorderedMembers.sorted h)]

/-- A vendor extension is data. -/
theorem ofMember_of_vendor {key : String} (vendor : Dialect.isVendorExtension key = true) :
    Place.ofMember key = .data := by
  have keywords : ∀ name ∈ ["$defs", "properties", "items", "oneOf", "anyOf", "allOf"],
      Dialect.isVendorExtension name = false := by decide
  have other : ∀ name ∈ ["$defs", "properties", "items", "oneOf", "anyOf", "allOf"],
      key ≠ name := by
    rintro name mem rfl
    rw [keywords key mem] at vendor
    cases vendor
  simp only [List.forall_mem_cons] at other
  simp [Place.ofMember, other]

theorem extensions?_reordered (h : Json.ReorderedNode members others) :
    extensions? others = extensions? members := by
  rw [extensions?, extensions?, sortByName_filter, sortByName_filter,
    Json.filter_of_matched (ReorderedMembers.sorted h) fun _ => ofMember_of_vendor]

end Keywords

namespace Schema

variable {members others : Members} {path : String} {context : NodeContext}

/-- Nodes have one outcome if their data is the same and what lies below them has one outcome. -/
theorem assemble_reordered {parts parts' : Parts} (h : Json.ReorderedNode members others)
    (named : ∀ key ∈ ["$defs", "properties"],
      readNamed others parts' key path = readNamed members parts key path)
    (items : readItems others parts' path = readItems members parts path)
    (variants : readVariants others parts' context path = readVariants members parts context path) :
    assemble path context others parts' = assemble path context members parts := by
  have data : ∀ key ∈ ["$ref", "type", "title", "description", "format", "enum", "required",
      "minimum", "maximum", "exclusiveMinimum", "exclusiveMaximum", "minLength", "maxLength",
      "pattern", "default", "const"], Members.get? others key = Members.get? members key := by
    have places : ∀ key ∈ ["$ref", "type", "title", "description", "format", "enum", "required",
        "minimum", "maximum", "exclusiveMinimum", "exclusiveMaximum", "minLength", "maxLength",
        "pattern", "default", "const"], Place.ofMember key = .data := by decide
    intro key mem
    exact h.get?_of_data (places key mem)
  simp only [List.forall_mem_cons] at data named
  obtain ⟨ref, type, title, description, format, enum, required, minimum, maximum, lower, upper,
    minLength, maxLength, pattern, default, const, -⟩ := data
  obtain ⟨definitions, properties, -⟩ := named
  simp only [assemble, Keywords.readType, Keywords.readText, Keywords.readEnum, Keywords.readRequired,
    Keywords.readBounds, Keywords.readBound, Keywords.readExclusive, Keywords.readLength,
    Keywords.readPattern, ref, type, title, description, format, enum, required, minimum, maximum,
    lower, upper, minLength, maxLength, pattern, default, const, definitions, properties, items,
    variants, Keywords.check_reordered h, Keywords.extensions?_reordered h]

/-- In whatever order its members stand, the value is normalized to the same. -/
def Orderless (value : Json) : Prop :=
  ∀ other, Reordered .schemas .schema value other →
    ∀ path context, normalize path context other = normalize path context value

/-- Schemas with names have the same outcomes, once they are in order. -/
theorem normalizeNamed_reordered {children others : Members}
    (below : ∀ child ∈ children, Orderless child.2)
    (each : ReorderedMembers .schemas (fun _ => Place.schema) children others) (path : String) :
    sortByName (normalizeNamed path others) = sortByName (normalizeNamed path children) := by
  have ordered (children : Members) : sortByName (normalizeNamed path children) =
      (sortByName children).map fun child =>
        (child.1, normalize (Pointer.join path [child.1]) {} child.2) := by
    rw [normalizeNamed_eq_map]
    refine sortByName_map_of_names _ ?_ children
    intro child
    rfl
  have below : ∀ child ∈ sortByName children, Orderless child.2 := by
    intro child mem
    exact below child (mem_sortByName.mp mem)
  rw [ordered, ordered]
  have matched := each.sorted
  generalize sortByName children = children at below matched ⊢
  generalize sortByName others = others at matched ⊢
  induction matched with
  | nil => rfl
  | cons head _ ih =>
      obtain ⟨first, rest⟩ := List.forall_mem_cons.mp below
      rw [List.map_cons, List.map_cons, ih rest, first _ head.2, head.1]

theorem normalizeVariants_reordered {elements others : List Json}
    (below : ∀ element ∈ elements, Orderless element)
    (each : ReorderedElements .schemas .schema elements others) (path : String) (index : Nat) :
    normalizeVariants path index others = normalizeVariants path index elements := by
  induction elements generalizing others index with
  | nil =>
      cases each
      rfl
  | cons element rest ih =>
      cases each with
      | cons head tail =>
          obtain ⟨first, inside⟩ := List.forall_mem_cons.mp below
          rw [normalizeVariants, normalizeVariants, first _ head, ih inside tail]

theorem readNamed_reordered (below : Below Orderless members) (h : Json.ReorderedNode members others)
    {key : String} (map : key ∈ ["$defs", "properties"]) :
    readNamed others (partsOf path others) key path =
      readNamed members (partsOf path members) key path := by
  have named : key = "$defs" ∨ key = "properties" := by simpa using map
  have both := ReorderedMembers.get? h key
  rw [show Place.ofMember key = .schemaMap by simp [Place.ofMember, named]] at both
  rw [readNamed, readNamed]
  generalize has : Members.get? members key = found at both ⊢
  generalize has' : Members.get? others key = found' at both ⊢
  cases both with
  | none => rfl
  | @some value _ like =>
      cases like with
      | arr => rfl
      | obj _ each =>
          simp only [named_partsOf named has, named_partsOf named has']
          rw [normalizeNamed_reordered (below.named key map _ has) each]
      | same =>
          cases value with
          | obj children =>
              simp only [named_partsOf named has, named_partsOf named has']
          | _ => rfl

theorem readItems_reordered (below : Below Orderless members)
    (h : Json.ReorderedNode members others) :
    readItems others (partsOf path others) path = readItems members (partsOf path members) path := by
  have both := ReorderedMembers.get? h "items"
  rw [show Place.ofMember "items" = .schema by decide] at both
  rw [readItems, readItems]
  generalize has : Members.get? members "items" = found at both ⊢
  generalize has' : Members.get? others "items" = found' at both ⊢
  cases both with
  | none => rfl
  | @some value _ like =>
      have same := below.items _ has _ like (Pointer.join path ["items"]) .items
      cases like with
      | arr => rfl
      | obj _ each => simp only [lookup_items has, lookup_items has', same]
      | same =>
          cases value with
          | obj item => simp only [lookup_items has, lookup_items has']
          | _ => rfl

theorem readVariants_reordered (below : Below Orderless members)
    (h : Json.ReorderedNode members others) :
    readVariants others (partsOf path others) context path =
      readVariants members (partsOf path members) context path := by
  have both := ReorderedMembers.get? h "oneOf"
  rw [show Place.ofMember "oneOf" = .schemaList by decide] at both
  rw [readVariants, readVariants]
  generalize has : Members.get? members "oneOf" = found at both ⊢
  generalize has' : Members.get? others "oneOf" = found' at both ⊢
  cases both with
  | none => rfl
  | @some value _ like =>
      cases like with
      | arr each =>
          have same := normalizeVariants_reordered (below.listed _ has) each
            (Pointer.join path ["oneOf"]) 0
          cases each with
          | nil => rfl
          | cons head tail => simp only [listed_partsOf has, listed_partsOf has', same]
      | obj free => simp [Json.Layout.schemas] at free
      | same =>
          cases value with
          | arr elements => simp only [listed_partsOf has, listed_partsOf has']
          | _ => rfl

theorem orderless (value : Json) : Orderless value := by
  induction value using Json.node_induction with
  | node members below =>
      intro other same path context
      cases same with
      | same => rfl
      | obj _ each =>
          exact assemble_reordered each (fun key map => readNamed_reordered below each map)
            (readItems_reordered below each) (readVariants_reordered below each)
  | leaf value leaf =>
      intro other same path context
      cases same with
      | same => rfl
      | arr => rfl
      | obj => exact absurd rfl (leaf _)

/-- Normalization does not depend on the order of members. Values that are the same but for the order
of members in their schemas and in their maps of schemas are normalized to one schema, or end in the
same error at the same path. -/
theorem normalize_reordered {value other : Json} (same : Reordered .schemas .schema value other)
    (path : String) (context : NodeContext) :
    normalize path context value = normalize path context other :=
  (orderless value other same path context).symm

end Schema

namespace Sample

def fields : Members :=
  [("_type", .obj [("const", .str "a"), ("title", .str "A")]), ("b", .obj [("type", .str "string")])]

def fieldsTurned : Members :=
  [("b", .obj [("type", .str "string")]), ("_type", .obj [("title", .str "A"), ("const", .str "a")])]

def noted : Members :=
  [("properties", .obj fields), ("x-note", .obj [("p", .null), ("q", .null)])]

def notedTurned : Members :=
  [("x-note", .obj [("p", .null), ("q", .null)]), ("properties", .obj fieldsTurned)]

def choice : Json :=
  .obj [("type", .str "array"), ("items", .obj [("oneOf", .arr [.obj noted])])]

def choiceTurned : Json :=
  .obj [("items", .obj [("oneOf", .arr [.obj notedTurned])]), ("type", .str "array")]

theorem fields_turned : ReorderedMembers .schemas (fun _ => Place.schema) fields fieldsTurned := by
  have first : Reordered .schemas .schema (.obj [("const", .str "a"), ("title", .str "A")])
      (.obj [("title", .str "A"), ("const", .str "a")]) :=
    .obj (.inl rfl) (.of_perm (.swap _ _ _) (by decide +kernel) _)
  exact .trans (.cons first (.refl _ _)) (.of_perm (.swap _ _ _) (by decide +kernel) _)

theorem choice_turned : Reordered .schemas .schema choice choiceTurned := by
  have properties : Reordered .schemas .schemaMap (.obj fields) (.obj fieldsTurned) :=
    .obj (.inr rfl) fields_turned
  have variant : Reordered .schemas .schema (.obj noted) (.obj notedTurned) :=
    .obj (.inl rfl) (.trans (.cons properties (.refl _ _))
      (.of_perm (.swap _ _ _) (by decide +kernel) _))
  have variants : Reordered .schemas .schemaList (.arr [.obj noted]) (.arr [.obj notedTurned]) :=
    .arr (.cons variant .nil)
  have items : Reordered .schemas .schema (.obj [("oneOf", .arr [.obj noted])])
      (.obj [("oneOf", .arr [.obj notedTurned])]) := .obj (.inl rfl) (.cons variants .nil)
  exact .obj (.inl rfl) (.trans (.cons (.same _ _) (.cons items .nil))
    (.of_perm (.swap _ _ _) (by decide +kernel) _))

end Sample

theorem Schema.normalize_reordered_sample :
    Reordered .schemas .schema Sample.choice Sample.choiceTurned ∧
      normalize "#" {} Sample.choice = normalize "#" {} Sample.choiceTurned ∧
      ∃ schema, normalize "#" {} Sample.choiceTurned = .ok schema := by
  have same := normalize_reordered Sample.choice_turned "#" {}
  have accepted : (normalize "#" {} Sample.choice).toOption.isSome = true := by decide +kernel
  obtain ⟨schema, normalized⟩ := Option.isSome_iff_exists.mp accepted
  exact ⟨Sample.choice_turned, same, schema, same ▸ eq_ok_of_toOption normalized⟩

end SchemaForms
