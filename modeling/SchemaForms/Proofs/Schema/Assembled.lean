import SchemaForms.Proofs.Schema.Sorted
import SchemaForms.Proofs.Session.Effect
import SchemaForms.Schema.Normalize

/-!
# What a node is assembled from

A node is normalized by reading its keywords one after the other and taking what lies below it.
`Schema.Reading` holds what has been read, and `Schema.Reads` says of each of its fields which
reader it has come from. A node is accepted just if it can be read, and if it is a variant, its
discriminator is in order; `assemble_eq_ok` says so once, for all that follows.

What lies below a node is looked up by the names of its members, and the schemas that are collected
there are just the outcomes.
-/

namespace SchemaForms.Schema

structure Reading where
  type : String
  nullable : Bool
  title : String
  description : String
  format : String
  enum : Option (List Json)
  required : List String
  lower : Keywords.Bound
  upper : Keywords.Bound
  minLength : Option Int
  maxLength : Option Int
  pattern : String
  definitions : Option (List (String × Schema))
  properties : Option (List (String × Schema))
  items : Option Schema
  oneOf : Option (List Schema)

def Reading.schema (reading : Reading) (members : Members) : Schema where
  type := reading.type
  format := reading.format
  title := reading.title
  description := reading.description
  default := (Members.get? members "default").bind Json.nonNull?
  enum := reading.enum
  const := (Members.get? members "const").bind Json.nonNull?
  required := reading.required.filter (!(nullableNames reading.properties).contains ·)
  properties := reading.properties
  items := reading.items
  oneOf := reading.oneOf
  minimum := reading.lower.value
  maximum := reading.upper.value
  exclusiveMinimum := reading.lower.isExclusive
  exclusiveMaximum := reading.upper.isExclusive
  minLength := reading.minLength
  maxLength := reading.maxLength
  pattern := reading.pattern
  nullable := reading.nullable
  extensions := Keywords.extensions? members

/-- All readers of a node succeed, with what has been read. -/
structure Reads (path : String) (context : NodeContext) (members : Members) (parts : Parts)
    (reading : Reading) : Prop where
  free : Members.get? members "$ref" = none
  known : Keywords.check members path = .ok ()
  type : Keywords.readType members path = .ok (reading.type, reading.nullable)
  title : Keywords.readText members "title" path = .ok reading.title
  description : Keywords.readText members "description" path = .ok reading.description
  format : Keywords.readText members "format" path = .ok reading.format
  enum : Keywords.readEnum members path = .ok reading.enum
  required : Keywords.readRequired members path = .ok reading.required
  bounds : Keywords.readBounds members path = .ok (reading.lower, reading.upper)
  minLength : Keywords.readLength members "minLength" path = .ok reading.minLength
  maxLength : Keywords.readLength members "maxLength" path = .ok reading.maxLength
  pattern : Keywords.readPattern members path = .ok reading.pattern
  definitions : readNamed members parts "$defs" path = .ok reading.definitions
  properties : readNamed members parts "properties" path = .ok reading.properties
  items : readItems members parts path = .ok reading.items
  oneOf : readVariants members parts context path = .ok reading.oneOf

/-- The last check of a node, for which only variants have rules. -/
def finish (path : String) (context : NodeContext) (schema : Schema) : Outcome :=
  if context.requiresDiscriminator then schema.discriminate path else .ok schema

variable {path : String} {context : NodeContext} {members : Members} {parts : Parts}

/-- A node is accepted just if all of it can be read and the last check is passed. -/
theorem assemble_eq_ok {schema : Schema} :
    assemble path context members parts = .ok schema ↔
      ∃ reading, Reads path context members parts reading ∧
        finish path context (reading.schema members) = .ok schema := by
  unfold assemble
  constructor
  · intro run
    cases free : Members.get? members "$ref" with
    | some ref =>
        rw [free] at run
        cases run
    | none =>
        simp only [free, except_bind_eq_ok] at run
        obtain ⟨⟨⟩, known, ⟨type, nullable⟩, hType, title, hTitle, description, hDescription, format,
          hFormat, enum, hEnum, required, hRequired, ⟨lower, upper⟩, hBounds, minLength, hMinLength,
          maxLength, hMaxLength, pattern, hPattern, definitions, hDefinitions, properties,
          hProperties, items, hItems, oneOf, hOneOf, last⟩ := run
        exact ⟨⟨type, nullable, title, description, format, enum, required, lower, upper, minLength,
          maxLength, pattern, definitions, properties, items, oneOf⟩, ⟨free, known, hType, hTitle,
          hDescription, hFormat, hEnum, hRequired, hBounds, hMinLength, hMaxLength, hPattern,
          hDefinitions, hProperties, hItems, hOneOf⟩, last⟩
  · rintro ⟨reading, h, last⟩
    simp only [h.free, except_bind_eq_ok]
    exact ⟨(), h.known, _, h.type, _, h.title, _, h.description, _, h.format, _, h.enum, _,
      h.required, _, h.bounds, _, h.minLength, _, h.maxLength, _, h.pattern, _, h.definitions, _,
      h.properties, _, h.items, _, h.oneOf, last⟩

/-- What lies below the first member of a name is looked up by that name. -/
theorem lookup_partsOf (path : String) (members : Members) (key : String) :
    (partsOf path members).lookup key =
      (Members.get? members key).map (partOf (Pointer.join path [key]) key) := by
  induction members with
  | nil => rfl
  | cons member rest ih =>
      obtain ⟨name, value⟩ := member
      rw [partsOf, List.lookup_cons, Members.get?_cons]
      by_cases same : name = key
      · subst same
        simp
      · have other : (key == name) = false := by simpa using Ne.symm same
        simp [same, other, ih]

theorem named_partsOf {key : String} (map : key = "$defs" ∨ key = "properties")
    {children : Members} (has : Members.get? members key = some (.obj children)) :
    (partsOf path members).named key = normalizeNamed (Pointer.join path [key]) children := by
  have part : partOf (Pointer.join path [key]) key (.obj children) =
      .named (normalizeNamed (Pointer.join path [key]) children) := by
    simp [partOf, map]
  simp [Parts.named, lookup_partsOf, has, part]

theorem listed_partsOf {elements : List Json}
    (has : Members.get? members "oneOf" = some (.arr elements)) :
    (partsOf path members).listed "oneOf" =
      normalizeVariants (Pointer.join path ["oneOf"]) 0 elements := by
  simp [Parts.listed, lookup_partsOf, has, partOf]

/-- The items of a node are normalized as any schema is, in the context of items. -/
theorem lookup_items {item : Members} (has : Members.get? members "items" = some (.obj item)) :
    (partsOf path members).lookup "items" =
      some (.single (normalize (Pointer.join path ["items"]) .items (.obj item))) := by
  simp [lookup_partsOf, has, partOf, normalize]

theorem collect_eq_ok {outcomes : List Outcome} {schemas : List Schema} :
    collect outcomes = .ok schemas ↔ outcomes = schemas.map .ok := by
  induction outcomes generalizing schemas with
  | nil => cases schemas <;> simp [collect]
  | cons outcome rest ih =>
      simp only [collect, except_bind_eq_ok]
      constructor
      · rintro ⟨schema, rfl, others, tail, last⟩
        rw [ih.mp tail, ← Except.ok.inj last, List.map_cons]
      · intro same
        obtain ⟨schema, others, rfl, rfl, tail⟩ := List.map_eq_cons_iff.mp same.symm
        exact ⟨schema, rfl, others, ih.mpr tail.symm, rfl⟩

/-- Schemas with names are collected just from outcomes that are these schemas. -/
theorem collectNamed_eq_ok {outcomes : List (String × Outcome)}
    {schemas : List (String × Schema)} :
    collectNamed outcomes = .ok schemas ↔ outcomes = schemas.map (under .ok) := by
  induction outcomes generalizing schemas with
  | nil => cases schemas <;> simp [collectNamed]
  | cons outcome rest ih =>
      obtain ⟨name, outcome⟩ := outcome
      simp only [collectNamed, except_bind_eq_ok]
      constructor
      · rintro ⟨schema, rfl, others, tail, last⟩
        rw [ih.mp tail, ← Except.ok.inj last, List.map_cons, under]
      · intro same
        obtain ⟨⟨_, schema⟩, others, rfl, head, tail⟩ := List.map_eq_cons_iff.mp same.symm
        cases head
        exact ⟨schema, rfl, others, ih.mpr tail.symm, rfl⟩

theorem normalizeNamed_eq_map (path : String) (children : Members) :
    normalizeNamed path children =
      children.map fun child => (child.1, normalize (Pointer.join path [child.1]) {} child.2) := by
  induction children with
  | nil => rfl
  | cons child rest ih => rw [normalizeNamed, ih, List.map_cons]

theorem mem_normalizeVariants {index : Nat} {elements : List Json} {outcome : Outcome}
    (mem : outcome ∈ normalizeVariants path index elements) :
    ∃ number element, elements[number]? = some element ∧
      outcome = normalize (Pointer.join path [toString (index + number)]) .variant element := by
  induction elements generalizing index with
  | nil => cases mem
  | cons element rest ih =>
      rw [normalizeVariants, List.mem_cons] at mem
      obtain rfl | mem := mem
      · exact ⟨0, element, rfl, rfl⟩
      · obtain ⟨number, other, has, rfl⟩ := ih mem
        exact ⟨number + 1, other, has, by rw [Nat.add_right_comm, Nat.add_assoc]⟩

end SchemaForms.Schema
