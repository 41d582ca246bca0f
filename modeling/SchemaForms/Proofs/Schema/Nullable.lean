import SchemaForms.Proofs.Schema.WellFormed

/-!
# Properties that admit null

A property that admits null is taken off the names that are required. The rules of variants name the
discriminator among them all the same, so of all nullable properties just this one is required.

Every schema in a result has been made of a node: by the readers and the last check, and if it is the
discriminator of a variant, it has been changed once more by the rules of the variant around it.
`Made` says so. What the readers do at one node is then known of all schemas that are found in a
result, whatever their depth.
-/

namespace SchemaForms.Schema

variable {path name text : String} {members : Members} {reading : Reading} {role : Role}
variable {schema inner property : Schema} {properties : List (String × Schema)}

/-- The schema has been made of a node in the role. -/
inductive Made : Role → Schema → Prop
  | node {role : Role} {path : String} {members : Members} {reading : Reading} {schema : Schema}
      (reads : Reads path role.context members (partsOf path members) reading)
      (last : finish path role.context (reading.schema members) = .ok schema) : Made role schema
  | discriminator {text : String} {property : Schema} (made : Made .property property) :
      Made .property (asDiscriminator text property)

theorem made_of_normalize (role : Role) {value : Json}
    (run : normalize path role.context value = .ok schema) : Made role schema := by
  cases value with
  | obj members =>
      obtain ⟨reading, reads, last⟩ := assemble_eq_ok.mp run
      exact .node reads last
  | _ => cases run

/-- The last check changes a node only if it is a variant. -/
theorem finish_eq_ok : finish path role.context schema = .ok inner ↔
    (role ≠ .variant ∧ inner = schema) ∨ (role = .variant ∧ schema.discriminate path = .ok inner) := by
  cases role with
  | variant => simp [finish, Role.context, NodeContext.variant]
  | _ => simp [finish, Role.context, NodeContext.items, eq_comm]

section Below

theorem Reads.made_property {context : NodeContext}
    (reads : Reads path context members (partsOf path members) reading)
    (given : reading.properties = some properties) (mem : (name, property) ∈ properties) :
    Made .property property := by
  obtain ⟨children, has, same⟩ := reads.properties_eq_some given
  have inside : (name, (.ok property : Outcome)) ∈ properties.map (under .ok) :=
    List.mem_map_of_mem mem
  rw [← same, mem_sortByName] at inside
  obtain ⟨child, -, normalized⟩ := List.mem_map.mp inside
  exact made_of_normalize .property (Prod.mk.inj normalized).2

theorem Made.of_property (made : Made role schema) (given : schema.properties = some properties)
    (mem : (name, inner) ∈ properties) : Made .property inner := by
  induction made with
  | node reads last =>
      obtain ⟨-, rfl⟩ | ⟨-, run⟩ := finish_eq_ok.mp last
      · exact reads.made_property given mem
      · obtain ⟨-, old, _, text, given', -, -, -, rfl⟩ := discriminate_eq_ok.mp run
        cases given
        obtain kept | ⟨property, inside, changed⟩ := of_mem_updateProperty mem
        · exact reads.made_property given' kept
        · cases changed
          exact (reads.made_property given' inside).discriminator
  | discriminator _ ih => exact ih given

theorem Made.of_items (made : Made role schema) (given : schema.items = some inner) :
    Made .items inner := by
  induction made with
  | @node _ _ _ reading _ reads last =>
      have own : reading.items = some inner := by
        obtain ⟨-, rfl⟩ | ⟨-, run⟩ := finish_eq_ok.mp last
        · exact given
        · obtain ⟨-, _, _, _, -, -, -, -, rfl⟩ := discriminate_eq_ok.mp run
          exact given
      obtain ⟨value, -, normalized⟩ := reads.items_eq_some own
      exact made_of_normalize .items normalized
  | discriminator _ ih => exact ih given

theorem Made.of_variant {variants : List Schema} (made : Made role schema)
    (given : schema.oneOf = some variants) (mem : inner ∈ variants) : Made .variant inner := by
  induction made with
  | @node _ _ _ reading _ reads last =>
      have own : reading.oneOf = some variants := by
        obtain ⟨-, rfl⟩ | ⟨-, run⟩ := finish_eq_ok.mp last
        · exact given
        · obtain ⟨-, _, _, _, -, -, -, -, rfl⟩ := discriminate_eq_ok.mp run
          exact given
      obtain ⟨-, -, elements, -, same⟩ := reads.oneOf_eq_some own
      have inside : (.ok inner : Outcome) ∈ variants.map .ok := List.mem_map_of_mem mem
      rw [← same] at inside
      obtain ⟨_, element, -, normalized⟩ := mem_normalizeVariants inside
      exact made_of_normalize .variant normalized.symm
  | discriminator _ ih => exact ih given

/-- Whatever is found in a result has been made of a node. -/
theorem Made.occurs (made : Made .root schema) (occurs : Occurs schema role inner) :
    Made role inner := by
  induction occurs with
  | root => exact made
  | property _ given mem ih => exact ih.of_property given mem
  | items _ given ih => exact ih.of_items given
  | variant _ given mem ih => exact ih.of_variant given mem

end Below

section Required

theorem Reading.not_required (reading : Reading) (members : Members)
    (given : reading.properties = some properties) (mem : (name, property) ∈ properties)
    (nullable : property.nullable = true) : name ∉ (reading.schema members).required := by
  intro required
  have kept := (List.mem_filter.mp required).2
  have listed : name ∈ nullableNames reading.properties := by
    rw [given, nullableNames, Option.getD_some]
    exact List.mem_map.mpr ⟨(name, property), List.mem_filter.mpr ⟨mem, nullable⟩, rfl⟩
  rw [List.contains_iff_mem.mpr listed] at kept
  cases kept

theorem mem_required_toldApart : name ∈ (schema.toldApart properties text).required ↔
    name ∈ schema.required ∨ name = discriminatorProperty := by
  rw [toldApart]
  split
  · rename_i there
    constructor
    · exact .inl
    · rintro (old | rfl)
      · exact old
      · exact List.contains_iff_mem.mp there
  · rw [List.mem_append, List.mem_singleton]

/-- Of the properties that admit null, a schema requires its discriminator, if it is a variant, and no
others. -/
theorem Made.required_iff (made : Made role schema) (given : schema.properties = some properties)
    (mem : (name, property) ∈ properties) (nullable : property.nullable = true) :
    name ∈ schema.required ↔ role = .variant ∧ name = discriminatorProperty := by
  induction made with
  | @node role _ members reading _ reads last =>
      obtain ⟨other, rfl⟩ | ⟨rfl, run⟩ := finish_eq_ok.mp last
      · simp [other, reading.not_required members given mem nullable]
      · obtain ⟨-, old, _, text, given', -, -, -, rfl⟩ := discriminate_eq_ok.mp run
        cases given
        -- Before the rules were applied, the property was there with the same name and flag.
        obtain ⟨before, inside, flag⟩ : ∃ before, (name, before) ∈ old ∧ before.nullable = true := by
          obtain kept | ⟨before, inside, changed⟩ := of_mem_updateProperty mem
          · exact ⟨property, kept, nullable⟩
          · cases changed
            exact ⟨before, inside, nullable⟩
        have fresh := reading.not_required members given' inside flag
        rw [mem_required_toldApart, or_iff_right fresh, and_iff_right rfl]
  | discriminator _ ih => exact ih given

end Required

/-- A property that admits null is required just if it is the discriminator of a variant, wherever in a
result its schema is found. -/
theorem nullable_required_iff {value : Json} (run : normalize path {} value = .ok schema)
    (occurs : Occurs schema role inner) (given : inner.properties = some properties)
    (mem : (name, property) ∈ properties) (nullable : property.nullable = true) :
    name ∈ inner.required ↔ role = .variant ∧ name = discriminatorProperty :=
  ((made_of_normalize .root run).occurs occurs).required_iff given mem nullable

namespace Sample

def optionalKinds : Json :=
  .obj [("properties", .obj [("list", .obj [("items", .obj [("oneOf", .arr
    [.obj [("properties", .obj
      [("_type", .obj [("type", .arr [.str "string", .str "null"]), ("const", .str "a")]),
        ("size", .obj [("type", .arr [.str "integer", .str "null"])])]),
      ("required", .arr [.str "_type", .str "size"])]])])])])]

/-- Both properties of the variant admit null, and only the discriminator is required. -/
theorem optionalKinds_variant : ∃ schema variant properties kind size,
    normalize "#" {} optionalKinds = .ok schema ∧ Occurs schema .variant variant ∧
      variant.properties = some properties ∧ variant.required = ["_type"] ∧
      ("_type", kind) ∈ properties ∧ kind.nullable = true ∧
      ("size", size) ∈ properties ∧ size.nullable = true := by
  have holds : ((normalize "#" {} optionalKinds).toOption.bind variant?).any (fun variant =>
      variant.required = ["_type"] ∧ (variant.property? "_type").any (·.nullable) = true ∧
        (variant.property? "size").any (·.nullable) = true) = true := by
    decide +kernel
  obtain ⟨variant, found, holds⟩ := (Option.any_eq_true _ _).mp holds
  obtain ⟨schema, run, found⟩ := Option.bind_eq_some_iff.mp found
  obtain ⟨required, kinds, sizes⟩ := of_decide_eq_true holds
  have inside {name : String} {property : Schema} (has : variant.property? name = some property) :
      (name, property) ∈ variant.properties.getD [] := by
    obtain ⟨before, behind, same, -⟩ := List.lookup_eq_some_iff.mp has
    rw [same]
    exact List.mem_append_right _ List.mem_cons_self
  obtain ⟨kind, hasKind, flag⟩ := (Option.any_eq_true _ _).mp kinds
  obtain ⟨size, hasSize, flag'⟩ := (Option.any_eq_true _ _).mp sizes
  cases given : variant.properties with
  | none =>
      rw [property?, given] at hasKind
      cases hasKind
  | some properties =>
      have kindMem := inside hasKind
      have sizeMem := inside hasSize
      rw [given] at kindMem sizeMem
      exact ⟨schema, variant, properties, kind, size, eq_ok_of_toOption run,
        occurs_of_variant? found, given, required, kindMem, flag, sizeMem, flag'⟩

end Sample

/-- The discriminator of the sample is required, although it admits null. -/
theorem nullable_discriminator_required : ∃ schema variant properties kind,
    normalize "#" {} Sample.optionalKinds = .ok schema ∧ Occurs schema .variant variant ∧
      variant.properties = some properties ∧ ("_type", kind) ∈ properties ∧ kind.nullable = true ∧
      "_type" ∈ variant.required := by
  obtain ⟨schema, variant, properties, kind, _, run, occurs, given, required, mem, nullable, -⟩ :=
    Sample.optionalKinds_variant
  exact ⟨schema, variant, properties, kind, run, occurs, given, mem, nullable, by simp [required]⟩

/-- The other property of the sample that admits null is not required, although its node says so. -/
theorem nullable_required_iff_sample : ∃ schema variant properties size,
    normalize "#" {} Sample.optionalKinds = .ok schema ∧ Occurs schema .variant variant ∧
      variant.properties = some properties ∧ ("size", size) ∈ properties ∧ size.nullable = true ∧
      "size" ∉ variant.required := by
  obtain ⟨schema, variant, properties, _, size, run, occurs, given, -, -, -, mem, nullable⟩ :=
    Sample.optionalKinds_variant
  refine ⟨schema, variant, properties, size, run, occurs, given, mem, nullable, fun required => ?_⟩
  have impossible := (nullable_required_iff run occurs given mem nullable).mp required
  exact absurd impossible.2 (by decide)

end SchemaForms.Schema
