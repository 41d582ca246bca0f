import SchemaForms.Proofs.Schema.Accepted

/-!
# Normalized schemas are well formed

What comes out of the normalizer is in order at every depth. `Occurs` says which schemas are found
in a result and in which role, and `WellFormed` what is demanded of a schema in a role; most of it
is `Regular`, in whatever role.

The result is built from below, but the rules of variants reach one level down again: they change
the discriminator and the list of required members after both have been made. So the proof carries
`Sound`, which holds of a schema and of all below it, and shows that the readers establish it and
that the rules of variants keep it.
-/

namespace SchemaForms

namespace Keywords

variable {members : Members} {path : String}

/-- Only a type that is there admits null beside it. -/
theorem type_of_nullable {type : String} (run : readType members path = .ok (type, true)) :
    type ≠ "" := by
  rw [readType] at run
  split at run
  · cases run
  · obtain ⟨_, _, pair⟩ := except_map_eq_ok.mp run
    cases pair
  · split at run
    · rename_i other isOther
      obtain ⟨checked, found, pair⟩ := except_map_eq_ok.mp run
      cases pair
      obtain ⟨-, rfl⟩ := checkType_eq_ok.mp found
      obtain ⟨_, -, -, notBlank, rfl⟩ := otherType?_eq_some.mp isOther
      exact notBlank
    · cases run
  · cases run
  · cases run

theorem value_of_readExclusive {bound : Option Binary64} {key exclusiveKey : String}
    {result : Bound} (run : readExclusive members bound key exclusiveKey path = .ok result)
    (exclusive : result.isExclusive = true) : result.value.isSome = true := by
  rw [readExclusive] at run
  split at run
  · cases run
    cases exclusive
  · cases run
    exact (Bool.and_eq_true_iff.mp exclusive).2
  · obtain ⟨x, -, rest⟩ := except_bind_eq_ok.mp run
    split at rest
    · cases rest
    · cases rest
      rfl

theorem value_of_readBounds {lower upper : Bound}
    (run : readBounds members path = .ok (lower, upper)) :
    (lower.isExclusive = true → lower.value.isSome = true) ∧
      (upper.isExclusive = true → upper.value.isSome = true) := by
  simp only [readBounds, except_bind_eq_ok] at run
  obtain ⟨_, -, _, -, first, hFirst, second, hSecond, last⟩ := run
  cases last
  exact ⟨value_of_readExclusive hFirst, value_of_readExclusive hSecond⟩

theorem notBlank_of_readNames {values : List Json} {index : Nat} {names : List String}
    (run : readNames path index values = .ok names) : ∀ name ∈ names, Text.trim name ≠ "" := by
  induction values generalizing index names with
  | nil =>
      cases run
      simp
  | cons value rest ih =>
      cases value with
      | str text =>
          rw [readNames] at run
          split at run
          · cases run
          · rename_i notBlank
            obtain ⟨others, tail, rfl⟩ := except_map_eq_ok.mp run
            exact List.forall_mem_cons.mpr ⟨notBlank, ih tail⟩
      | _ => cases run

theorem notBlank_of_readRequired {names : List String}
    (run : readRequired members path = .ok names) : ∀ name ∈ names, Text.trim name ≠ "" := by
  rw [readRequired] at run
  split at run
  · cases run
    simp
  · exact notBlank_of_readNames run
  · cases run

theorem extensions?_eq_some {extensions : Members} (found : extensions? members = some extensions) :
    extensions ≠ [] ∧ ∀ key ∈ Members.keys extensions, Dialect.isVendorExtension key = true := by
  rw [extensions?] at found
  split at found
  · cases found
  · rename_i notEmpty
    cases found
    refine ⟨notEmpty, fun key mem => ?_⟩
    obtain ⟨member, inside, rfl⟩ := List.mem_map.mp mem
    exact (List.mem_filter.mp (mem_sortByName.mp inside)).2

end Keywords

namespace Schema

/-- Where a schema stands. -/
inductive Role where
  | root
  | property
  | items
  | variant
deriving DecidableEq, Repr

/-- The context in which a schema is normalized that is to stand there. -/
def Role.context : Role → NodeContext
  | .root | .property => {}
  | .items => .items
  | .variant => .variant

/-- The schema is found in the whole one, in the given role. -/
inductive Occurs (whole : Schema) : Role → Schema → Prop
  | root : Occurs whole .root whole
  | property {role : Role} {schema inner : Schema} {properties : List (String × Schema)}
      {name : String} (parent : Occurs whole role schema) (has : schema.properties = some properties)
      (mem : (name, inner) ∈ properties) : Occurs whole .property inner
  | items {role : Role} {schema inner : Schema} (parent : Occurs whole role schema)
      (has : schema.items = some inner) : Occurs whole .items inner
  | variant {role : Role} {schema inner : Schema} {variants : List Schema}
      (parent : Occurs whole role schema) (has : schema.oneOf = some variants)
      (mem : inner ∈ variants) : Occurs whole .variant inner

/-- What is demanded of every schema. -/
structure Regular (schema : Schema) : Prop where
  type : schema.type = "" ∨ schema.type ∈ Keywords.types
  nullable : schema.nullable = true → schema.type ≠ ""
  lower : schema.exclusiveMinimum = true → schema.minimum.isSome = true
  upper : schema.exclusiveMaximum = true → schema.maximum.isSome = true
  increasing : ∀ properties, schema.properties = some properties → Increasing properties
  required : ∀ name ∈ schema.required, Text.trim name ≠ ""
  extensions : ∀ extensions, schema.extensions = some extensions →
    extensions ≠ [] ∧ ∀ key ∈ Members.keys extensions, Dialect.isVendorExtension key = true

/-- The property has one constant text, and is marked as read only. -/
structure IsDiscriminator (property : Schema) : Prop where
  type : property.type = "string"
  const : ∃ text, property.const = some (.str text) ∧ Text.trim text ≠ ""
  readOnly : ∃ extensions form, property.extensions = some extensions ∧
    Members.get? extensions "x-formgen" = some (.obj form) ∧
    Members.get? form "readonly" = some (.bool true)

/-- The schema is an object that is told apart from others by its property `_type`. -/
structure ToldApart (schema : Schema) : Prop where
  object : schema.type = "" ∨ schema.type = "object"
  flat : schema.oneOf = none
  discriminator : ∃ property, schema.property? "_type" = some property ∧ IsDiscriminator property
  required : "_type" ∈ schema.required

/-- What is demanded of a schema that stands in the role. -/
structure WellFormed (role : Role) (schema : Schema) : Prop extends Regular schema where
  oneOf : ∀ variants, schema.oneOf = some variants → role = .items ∧ variants ≠ []
  told : role = .variant → ToldApart schema

/-- The schema and all below it are well formed. -/
inductive Sound : Role → Schema → Prop
  | node {role : Role} {schema : Schema} (own : WellFormed role schema)
      (properties : ∀ properties, schema.properties = some properties →
        ∀ property ∈ properties, Sound .property property.2)
      (items : ∀ item, schema.items = some item → Sound .items item)
      (variants : ∀ variants, schema.oneOf = some variants →
        ∀ variant ∈ variants, Sound .variant variant) : Sound role schema

theorem Sound.own {role : Role} {schema : Schema} (sound : Sound role schema) :
    WellFormed role schema := by
  cases sound with
  | node own => exact own

theorem Sound.occurs {whole schema : Schema} {role : Role} (sound : Sound .root whole)
    (occurs : Occurs whole role schema) : Sound role schema := by
  induction occurs with
  | root => exact sound
  | property _ has mem ih =>
      cases ih with
      | node _ properties => exact properties _ has _ mem
  | items _ has ih =>
      cases ih with
      | node _ _ items => exact items _ has
  | variant _ has mem ih =>
      cases ih with
      | node _ _ _ variants => exact variants _ has _ mem

section Rules

variable {schema property : Schema} {properties : List (String × Schema)} {name text path : String}
variable {change : Schema → Schema}

theorem names_updateProperty (name : String) (change : Schema → Schema)
    (properties : List (String × Schema)) :
    (updateProperty name change properties).map (·.1) = properties.map (·.1) := by
  induction properties with
  | nil => rfl
  | cons first rest ih =>
      obtain ⟨key, schema⟩ := first
      rw [updateProperty]
      split
      · rfl
      · rw [List.map_cons, List.map_cons, ih]

theorem lookup_updateProperty (name : String) (change : Schema → Schema)
    (properties : List (String × Schema)) :
    (updateProperty name change properties).lookup name =
      (properties.lookup name).map change := by
  induction properties with
  | nil => rfl
  | cons first rest ih =>
      obtain ⟨key, schema⟩ := first
      rw [updateProperty]
      split
      · rename_i same
        simp [same]
      · rename_i other
        simp [lookup_cons_eq_if, Ne.symm other, ih]

/-- All properties are as before, or one that has been changed. -/
theorem of_mem_updateProperty {pair : String × Schema}
    (mem : pair ∈ updateProperty name change properties) :
    pair ∈ properties ∨ ∃ property, (name, property) ∈ properties ∧ pair = (name, change property) := by
  induction properties with
  | nil => cases mem
  | cons first rest ih =>
      obtain ⟨key, schema⟩ := first
      rw [updateProperty] at mem
      split at mem
      · rename_i same
        obtain rfl | mem := List.mem_cons.mp mem
        · exact .inr ⟨schema, by simp [same], by rw [same]⟩
        · exact .inl (List.mem_cons_of_mem _ mem)
      · obtain rfl | mem := List.mem_cons.mp mem
        · exact .inl List.mem_cons_self
        · obtain old | ⟨property, inside, changed⟩ := ih mem
          · exact .inl (List.mem_cons_of_mem _ old)
          · exact .inr ⟨property, List.mem_cons_of_mem _ inside, changed⟩

theorem discriminatorValue?_eq_some (found : property.discriminatorValue? = some text) :
    Text.trim text ≠ "" := by
  rw [discriminatorValue?] at found
  split at found
  · rename_i value isConst
    cases found
    obtain ⟨_, -, nonBlank⟩ := Option.bind_eq_some_iff.mp isConst
    exact (nonBlank?_eq_some.mp nonBlank).2
  · split at found
    · exact (nonBlank?_eq_some.mp found).2
    · cases found

theorem isDiscriminator_asDiscriminator (notBlank : Text.trim text ≠ "") :
    IsDiscriminator (asDiscriminator text property) where
  type := rfl
  const := ⟨text, rfl, notBlank⟩
  readOnly := ⟨_, _, rfl, Members.get?_set_self _ _ _, Members.get?_set_self _ _ _⟩

theorem set_ne_nil (members : Members) (key : String) (value : Json) :
    Members.set members key value ≠ [] := by
  intro empty
  have present := Members.get?_set_self members key value
  rw [empty] at present
  cases present

theorem Regular.asDiscriminator (regular : Regular property) :
    Regular (asDiscriminator text property) where
  type := .inr (by simp [Schema.asDiscriminator, Keywords.types])
  nullable := fun _ => by simp [Schema.asDiscriminator]
  lower := regular.lower
  upper := regular.upper
  increasing := regular.increasing
  required := regular.required
  extensions := by
    rintro _ ⟨⟩
    have present : ∀ key ∈ Members.keys (property.extensions.getD []),
        Dialect.isVendorExtension key = true := by
      cases had : property.extensions with
      | none => simp [Members.keys]
      | some extensions => exact (regular.extensions _ had).2
    refine ⟨set_ne_nil _ _ _, fun key mem => ?_⟩
    rw [withReadOnly, Members.keys_set] at mem
    split at mem
    · exact present key mem
    · obtain old | new := List.mem_append.mp mem
      · exact present key old
      · rw [List.mem_singleton.mp new]
        decide

theorem Regular.toldApart (regular : Regular schema) (given : schema.properties = some properties) :
    Regular (schema.toldApart properties text) where
  type := regular.type
  nullable := regular.nullable
  lower := regular.lower
  upper := regular.upper
  increasing := by
    rintro _ ⟨⟩
    rw [Increasing, names_updateProperty]
    exact regular.increasing _ given
  required := by
    intro name mem
    simp only [Schema.toldApart] at mem
    split at mem
    · exact regular.required name mem
    · obtain old | new := List.mem_append.mp mem
      · exact regular.required name old
      · rw [List.mem_singleton.mp new]
        decide
  extensions := regular.extensions

theorem Sound.asDiscriminator (sound : Sound .property property) :
    Sound .property (asDiscriminator text property) := by
  cases sound with
  | node own properties items variants =>
      refine .node ⟨own.toRegular.asDiscriminator, own.oneOf, ?_⟩ properties items variants
      rintro ⟨⟩

/-- The rules of variants make a sound schema without variants a sound variant. -/
theorem Sound.discriminate {result : Schema} (sound : Sound .property schema)
    (run : schema.discriminate path = .ok result) : Sound .variant result := by
  obtain ⟨object, properties, property, text, given, found, -, value, rfl⟩ :=
    discriminate_eq_ok.mp run
  cases sound with
  | node own below items _ =>
      have flat : schema.oneOf = none := by
        rw [Option.eq_none_iff_forall_ne_some]
        intro variants has
        cases (own.oneOf variants has).1
      have told : ToldApart (schema.toldApart properties text) := {
        object
        flat
        discriminator := by
          have changed :=
            lookup_updateProperty discriminatorProperty (Schema.asDiscriminator text) properties
          rw [found] at changed
          exact ⟨_, changed, isDiscriminator_asDiscriminator (discriminatorValue?_eq_some value)⟩
        required := by
          simp only [Schema.toldApart]
          split
          · rename_i has
            exact List.contains_iff_mem.mp has
          · exact List.mem_append_right _ (List.mem_singleton_self _) }
      refine .node ⟨own.toRegular.toldApart given, ?_, fun _ => told⟩ ?_ items ?_
      · intro variants has
        cases flat.symm.trans has
      · rintro _ ⟨⟩ pair mem
        obtain old | ⟨property, inside, rfl⟩ := of_mem_updateProperty mem
        · exact below _ given _ old
        · exact (below _ given _ inside).asDiscriminator
      · intro variants has
        cases flat.symm.trans has

end Rules

section Node

variable {path : String} {context : NodeContext} {members : Members} {reading : Reading}

theorem HasType.supported {type : String} (has : HasType members type) :
    type = "" ∨ type ∈ Keywords.types := by
  cases has with
  | absent => exact .inl rfl
  | single _ supported => exact supported
  | nullable _ _ supported => exact .inr supported

theorem Role.items_of_allowsOneOf {role : Role} (allowed : role.context.allowsOneOf = true) :
    role = .items := by
  cases role with
  | items => rfl
  | _ => cases allowed

theorem Reads.properties_eq_some (reads : Reads path context members (partsOf path members) reading)
    {properties : List (String × Schema)} (given : reading.properties = some properties) :
    ∃ children, Members.get? members "properties" = some (.obj children) ∧
      sortByName (children.map fun child => (child.1,
        normalize (Pointer.join (Pointer.join path ["properties"]) [child.1]) {} child.2)) =
      properties.map (under .ok) := by
  have run := reads.properties
  rw [given] at run
  rw [readNamed] at run
  split at run
  · cases run
  · rename_i children has
    obtain ⟨schemas, collected, same⟩ := except_map_eq_ok.mp run
    cases same
    rw [named_partsOf (.inr rfl) has, normalizeNamed_eq_map] at collected
    exact ⟨children, has, collectNamed_eq_ok.mp collected⟩
  · cases run

theorem Reads.items_eq_some (reads : Reads path context members (partsOf path members) reading)
    {item : Schema} (given : reading.items = some item) :
    ∃ value, Members.get? members "items" = some value ∧
      normalize (Pointer.join path ["items"]) .items value = .ok item := by
  have run := reads.items
  rw [given] at run
  rw [readItems] at run
  split at run
  · cases run
  · cases run
  · rename_i inner has
    simp only [lookup_items has] at run
    obtain ⟨_, normalized, same⟩ := except_map_eq_ok.mp run
    cases same
    exact ⟨_, has, normalized⟩
  · cases run

theorem Reads.oneOf_eq_some (reads : Reads path context members (partsOf path members) reading)
    {variants : List Schema} (given : reading.oneOf = some variants) :
    context.allowsOneOf = true ∧ variants ≠ [] ∧
      ∃ elements, Members.get? members "oneOf" = some (.arr elements) ∧
        normalizeVariants (Pointer.join path ["oneOf"]) 0 elements = variants.map .ok := by
  have run := reads.oneOf
  rw [given] at run
  rw [readVariants] at run
  split at run
  · cases run
  · rename_i value has
    split at run
    · cases run
    · rename_i allowed
      refine ⟨by simpa using allowed, ?_⟩
      split at run
      · cases run
      · rename_i elements notEmpty
        obtain ⟨schemas, collected, same⟩ := except_map_eq_ok.mp run
        cases same
        rw [listed_partsOf has] at collected
        refine ⟨?_, elements, has, collect_eq_ok.mp collected⟩
        rintro rfl
        cases elements with
        | nil => exact notEmpty rfl
        | cons first rest => cases collect_eq_ok.mp collected
      · cases run

theorem Reads.regular (reads : Reads path context members (partsOf path members) reading)
    (differ : (Json.obj members).NamesDiffer) : Regular (reading.schema members) where
  type := reads.hasType.supported
  nullable := by
    intro nullable
    have run := reads.type
    rw [show reading.nullable = true from nullable] at run
    exact Keywords.type_of_nullable run
  lower := (Keywords.value_of_readBounds reads.bounds).1
  upper := (Keywords.value_of_readBounds reads.bounds).2
  increasing := by
    intro properties given
    obtain ⟨children, has, same⟩ := reads.properties_eq_some given
    have names : (properties.map (under (.ok : Schema → Outcome))).map (·.1) =
        properties.map (·.1) := by
      simp [under]
    rw [Increasing, ← names, ← same]
    refine increasing_sortByName ?_
    simpa [Function.comp_def] using (differ.member (Members.mem_of_get? has)).own
  required := by
    intro name mem
    exact Keywords.notBlank_of_readRequired reads.required name (List.mem_filter.mp mem).1
  extensions := fun _ found => Keywords.extensions?_eq_some found

/-- What the normalizer makes of the value, for whatever role, is sound in this role. -/
def Soundly (value : Json) : Prop :=
  value.NamesDiffer → ∀ role path schema, normalize path role.context value = .ok schema →
    Sound role schema

theorem Reads.sound_properties
    (reads : Reads path context members (partsOf path members) reading)
    (below : Below Soundly members) (differ : (Json.obj members).NamesDiffer) :
    ∀ properties, reading.properties = some properties →
      ∀ property ∈ properties, Sound .property property.2 := by
  intro properties given property mem
  obtain ⟨children, has, same⟩ := reads.properties_eq_some given
  have inside : under (.ok : Schema → Outcome) property ∈ properties.map (under .ok) :=
    List.mem_map_of_mem mem
  rw [← same, mem_sortByName] at inside
  obtain ⟨child, mem', normalized⟩ := List.mem_map.mp inside
  have distinct := (differ.member (Members.mem_of_get? has)).member mem'
  exact below.named "properties" (by simp) children has child mem' distinct .property _ _
    (Prod.mk.inj normalized).2

theorem Reads.sound_items (reads : Reads path context members (partsOf path members) reading)
    (below : Below Soundly members) (differ : (Json.obj members).NamesDiffer) :
    ∀ item, reading.items = some item → Sound .items item := by
  intro item given
  obtain ⟨inner, has, normalized⟩ := reads.items_eq_some given
  exact below.items inner has (differ.member (Members.mem_of_get? has)) .items _ _ normalized

theorem Reads.sound_variants (reads : Reads path context members (partsOf path members) reading)
    (below : Below Soundly members) (differ : (Json.obj members).NamesDiffer) :
    ∀ variants, reading.oneOf = some variants → ∀ variant ∈ variants, Sound .variant variant := by
  intro variants given variant mem
  obtain ⟨-, -, elements, has, same⟩ := reads.oneOf_eq_some given
  have inside : (.ok variant : Outcome) ∈ variants.map .ok := List.mem_map_of_mem mem
  rw [← same] at inside
  obtain ⟨_, element, found, normalized⟩ := mem_normalizeVariants inside
  have mem' := List.mem_of_getElem? found
  have distinct := (differ.member (Members.mem_of_get? has)).element mem'
  exact below.listed elements has element mem' distinct .variant _ _ normalized.symm

theorem sound_of_normalize (value : Json) : Soundly value := by
  induction value using Json.node_induction with
  | node members below =>
      intro differ role path schema run
      obtain ⟨reading, reads, last⟩ := assemble_eq_ok.mp run
      -- A variant is sound as a property first, since its rules come after the readers.
      have node (place : Role) (kept : role = .items → place = .items) (early : place ≠ .variant) :
          Sound place (reading.schema members) := by
        refine .node ⟨reads.regular differ, ?_, fun late => absurd late early⟩
          (reads.sound_properties below differ) (reads.sound_items below differ)
          (reads.sound_variants below differ)
        intro variants given
        obtain ⟨allowed, notEmpty, -⟩ := reads.oneOf_eq_some given
        exact ⟨kept (Role.items_of_allowsOneOf allowed), notEmpty⟩
      cases role with
      | variant => exact (node .property (by simp) (by simp)).discriminate last
      | _ => exact Except.ok.inj last ▸ node _ id (by simp)
  | leaf value leaf =>
      intro _ role path schema run
      cases value with
      | obj members => exact absurd rfl (leaf members)
      | _ => cases run

end Node

/-- Every schema that is found in what the normalizer makes of a value is well formed in the role
in which it is found. -/
theorem wellFormed_of_normalize {value : Json} (differ : value.NamesDiffer) {path : String}
    {schema : Schema} (run : normalize path {} value = .ok schema) {role : Role} {inner : Schema}
    (occurs : Occurs schema role inner) : WellFormed role inner :=
  ((sound_of_normalize value differ .root path schema run).occurs occurs).own

namespace Sample

/-- The first variant of the items of the first property. -/
def variant? (schema : Schema) : Option Schema :=
  ((schema.properties.bind List.head?).bind fun property => property.2.items).bind fun items =>
    items.oneOf.bind List.head?

theorem occurs_of_variant? {schema variant : Schema} (found : variant? schema = some variant) :
    Occurs schema .variant variant := by
  obtain ⟨items, hasItems, hasVariant⟩ := Option.bind_eq_some_iff.mp found
  obtain ⟨⟨name, property⟩, hasProperty, hasItems⟩ := Option.bind_eq_some_iff.mp hasItems
  obtain ⟨properties, given, first⟩ := Option.bind_eq_some_iff.mp hasProperty
  obtain ⟨variants, hasVariants, head⟩ := Option.bind_eq_some_iff.mp hasVariant
  have property := Occurs.root.property given (List.mem_of_head? first)
  exact (property.items hasItems).variant hasVariants (List.mem_of_head? head)

end Sample

/-- The sample has a variant, which is well formed as one. -/
theorem wellFormed_of_normalize_sample :
    Sample.forms.NamesDiffer ∧ ∃ schema, normalize "#" {} Sample.forms = .ok schema ∧
      ∃ variant, Occurs schema .variant variant ∧ WellFormed .variant variant := by
  have differ : Sample.forms.NamesDiffer := by decide +kernel
  have has : ((normalize "#" {} Sample.forms).toOption.bind Sample.variant?).isSome = true := by
    decide +kernel
  obtain ⟨variant, found⟩ := Option.isSome_iff_exists.mp has
  obtain ⟨schema, run, found⟩ := Option.bind_eq_some_iff.mp found
  have occurs := Sample.occurs_of_variant? found
  have run := eq_ok_of_toOption run
  exact ⟨differ, schema, run, variant, occurs, wellFormed_of_normalize differ run occurs⟩

end Schema

end SchemaForms
