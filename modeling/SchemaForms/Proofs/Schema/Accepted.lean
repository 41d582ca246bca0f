import Mathlib.Data.Set.List
import SchemaForms.Proofs.Json.Objects
import SchemaForms.Proofs.Schema.Discriminator
import SchemaForms.Proofs.Schema.Readers

/-!
# The normalizer accepts what the grammar accepts

A value is normalized just if the grammar of schemas accepts it. What lies below a node comes
first: there the outcomes are collected, and all of them have to be schemas. At the node itself the
readers of `Readers` decide, and for a variant the last check, which looks at the schemas of its
properties and not at their members; `Reading` tells what they have been read from.
-/

namespace SchemaForms.Schema

/-- The normalizer accepts the value just where the grammar does. -/
def Decides (value : Json) : Prop :=
  ∀ path context, (∃ schema, normalize path context value = .ok schema) ↔ Acceptable context value

section Collect

theorem collect_ok {outcomes : List Outcome} :
    (∃ schemas, collect outcomes = .ok schemas) ↔
      ∀ outcome ∈ outcomes, ∃ schema, outcome = .ok schema := by
  have lists := Set.ext_iff.mp (Set.range_list_map (Except.ok : Schema → Outcome)) outcomes
  simp only [collect_eq_ok]
  simpa [eq_comm] using lists

theorem collectNamed_ok {outcomes : List (String × Outcome)} :
    (∃ schemas, collectNamed outcomes = .ok schemas) ↔
      ∀ outcome ∈ outcomes, ∃ schema, outcome.2 = .ok schema := by
  have lists := Set.ext_iff.mp (Set.range_list_map (under (Except.ok : Schema → Outcome))) outcomes
  simp only [collectNamed_eq_ok]
  simpa [under, Prod.ext_iff, eq_comm] using lists

/-- A schema that has been collected under a name is the outcome of that name. -/
theorem lookup_collectNamed {outcomes : List (String × Outcome)} {schemas : List (String × Schema)}
    (run : collectNamed outcomes = .ok schemas) (name : String) :
    outcomes.lookup name = (schemas.lookup name).map .ok := by
  rw [collectNamed_eq_ok.mp run, lookup_map_under]

end Collect

section Below

variable {path : String} {children : Members} {elements : List Json} {context : NodeContext}

theorem lookup_normalizeNamed (path : String) (children : Members) (name : String) :
    (normalizeNamed path children).lookup name =
      (Members.get? children name).map (normalize (Pointer.join path [name]) {}) := by
  induction children with
  | nil => rfl
  | cons child rest ih =>
      obtain ⟨key, value⟩ := child
      rw [normalizeNamed, lookup_cons_eq_if, Members.get?_cons, ih]
      simp only [@eq_comm _ name]
      split
      · rename_i same
        rw [same]
        rfl
      · rfl

theorem normalizeNamed_ok (below : ∀ child ∈ children, Decides child.2) :
    (∀ outcome ∈ normalizeNamed path children, ∃ schema, outcome.2 = .ok schema) ↔
      ∀ child ∈ children, Acceptable {} child.2 := by
  induction children with
  | nil => simp [normalizeNamed]
  | cons child rest ih =>
      obtain ⟨decides, others⟩ := List.forall_mem_cons.mp below
      rw [normalizeNamed, List.forall_mem_cons, List.forall_mem_cons, ih others, decides]

theorem normalizeVariants_ok {index : Nat} (below : ∀ element ∈ elements, Decides element) :
    (∀ outcome ∈ normalizeVariants path index elements, ∃ schema, outcome = .ok schema) ↔
      ∀ element ∈ elements, Acceptable .variant element := by
  induction elements generalizing index with
  | nil => simp [normalizeVariants]
  | cons element rest ih =>
      obtain ⟨decides, others⟩ := List.forall_mem_cons.mp below
      rw [normalizeVariants, List.forall_mem_cons, List.forall_mem_cons, ih others, decides]

variable {members : Members} {key : String}

theorem readNamed_ok (below : Below Decides members) (map : key ∈ ["$defs", "properties"]) :
    (∃ schemas, readNamed members (partsOf path members) key path = .ok schemas) ↔
      Members.Each members key fun value => ∃ children, value = .obj children ∧
        ∀ child ∈ children, Acceptable {} child.2 := by
  rw [readNamed, Members.Each]
  cases has : Members.get? members key with
  | none => simp
  | some value =>
      cases value with
      | obj children =>
          have collected : (∃ schemas, (collectNamed (sortByName
              ((partsOf path members).named key))).map some = .ok schemas) ↔
              ∀ child ∈ children, Acceptable {} child.2 := by
            rw [exists_map_eq_ok, collectNamed_ok, named_partsOf (by simpa using map) has]
            simpa only [mem_sortByName] using normalizeNamed_ok (below.named key map children has)
          simpa using collected
      | _ => simp

theorem readItems_ok (below : Below Decides members) :
    (∃ schema, readItems members (partsOf path members) path = .ok schema) ↔
      Members.Each members "items" (Acceptable .items) := by
  rw [readItems, Members.Each]
  cases has : Members.get? members "items" with
  | none => simp
  | some value =>
      cases value with
      | obj item =>
          simp [exists_map_eq_ok, lookup_items has, below.items _ has _ _]
      | _ =>
          simp only [reduceCtorEq, exists_false, Option.some.injEq, false_iff, not_forall]
          refine ⟨_, rfl, ?_⟩
          rintro ⟨⟩

theorem readVariants_ok (below : Below Decides members) :
    (∃ schemas, readVariants members (partsOf path members) context path = .ok schemas) ↔
      Members.Each members "oneOf" fun value => context.allowsOneOf = true ∧
        ∃ first rest, value = .arr (first :: rest) ∧
          ∀ element ∈ first :: rest, Acceptable .variant element := by
  rw [readVariants, Members.Each]
  cases has : Members.get? members "oneOf" with
  | none => simp
  | some value =>
      cases allowed : context.allowsOneOf with
      | false => simp
      | true =>
          cases value with
          | arr elements =>
              cases elements with
              | nil => simp
              | cons first rest =>
                  have collected : (∃ schemas, (collect
                      ((partsOf path members).listed "oneOf")).map some = .ok schemas) ↔
                      ∀ element ∈ first :: rest, Acceptable .variant element := by
                    rw [exists_map_eq_ok, collect_ok, listed_partsOf has]
                    exact normalizeVariants_ok (below.listed _ has)
                  simpa using collected
          | _ => simp

end Below

section Discriminator

variable {path : String} {context : NodeContext} {members : Members} {parts : Parts}
variable {reading : Reading}

theorem HasType.unique {first second : String} (h : HasType members first)
    (h' : HasType members second) : first = second := by
  obtain ⟨nullable, run⟩ := (Keywords.readType_eq_ok "").mpr h
  obtain ⟨nullable', run'⟩ := (Keywords.readType_eq_ok "").mpr h'
  rw [run] at run'
  cases run'
  rfl

theorem Reads.hasType (reads : Reads path context members parts reading) :
    HasType members reading.type :=
  (Keywords.readType_eq_ok path).mp ⟨_, reads.type⟩

/-- The type that has been read is one of the types that the node has. -/
theorem Reads.type_eq_iff (reads : Reads path context members parts reading) (type : String) :
    reading.type = type ↔ HasType members type :=
  ⟨fun same => same ▸ reads.hasType, reads.hasType.unique⟩

theorem nonBlank?_eq_some {value : Json} {text : String} :
    nonBlank? value = some text ↔ value = .str text ∧ Text.trim text ≠ "" := by
  cases value with
  | str s =>
      rw [nonBlank?, Option.ite_none_left_eq_some, Json.str.injEq, Option.some.injEq]
      constructor
      · rintro ⟨notBlank, rfl⟩
        exact ⟨rfl, notBlank⟩
      · rintro ⟨rfl, notBlank⟩
        exact ⟨notBlank, rfl⟩
  | _ => simp [nonBlank?]

/-- What has been read of the enumerated values is what is there. -/
theorem Reads.enum_eq (reads : Reads path context members parts reading) (values : List Json) :
    reading.enum = some values ↔ Members.get? members "enum" = some (.arr values) := by
  have run := reads.enum
  unfold Keywords.readEnum at run
  split at run
  · rename_i absent
    rw [absent, ← Except.ok.inj run]
    simp
  · rename_i given has
    rw [has, ← Except.ok.inj run]
    simp
  · cases run

theorem Reading.const_eq (reading : Reading) (members : Members) (text : String) :
    (reading.schema members).const.bind nonBlank? = some text ↔
      Members.get? members "const" = some (.str text) ∧ Text.trim text ≠ "" := by
  simp only [Reading.schema, Option.bind_eq_some_iff, nonBlank?_eq_some]
  constructor
  · rintro ⟨_, has, rfl, notBlank⟩
    exact ⟨(Keywords.nonNull?_eq_some.mp (Option.bind_eq_some_iff.mpr has)).1, notBlank⟩
  · rintro ⟨has, notBlank⟩
    exact ⟨_, ⟨_, has, rfl⟩, rfl, notBlank⟩

theorem Reads.admitsOneText (reads : Reads path context members parts reading) :
    (∃ text, (reading.schema members).discriminatorValue? = some text) ↔ AdmitsOneText members := by
  unfold discriminatorValue?
  constructor
  · rintro ⟨text, found⟩
    split at found
    · rename_i value isConst
      obtain ⟨has, notBlank⟩ := (reading.const_eq members value).mp isConst
      exact .const has notBlank
    · split at found
      · rename_i only isEnum
        obtain ⟨rfl, notBlank⟩ := nonBlank?_eq_some.mp found
        exact .enum ((reads.enum_eq _).mp isEnum) notBlank
      · cases found
  · intro admits
    split
    · exact ⟨_, rfl⟩
    · rename_i notConst
      cases admits with
      | @const text has notBlank =>
          rw [(reading.const_eq members text).mpr ⟨has, notBlank⟩] at notConst
          cases notConst
      | @enum text has notBlank =>
          have isEnum : (reading.schema members).enum = some [.str text] := (reads.enum_eq _).mpr has
          rw [isEnum]
          exact ⟨text, nonBlank?_eq_some.mpr ⟨rfl, notBlank⟩⟩

theorem discriminate_ok {schema : Schema} :
    (∃ result, schema.discriminate path = .ok result) ↔
      (schema.type = "" ∨ schema.type = "object") ∧
        ∃ property, (schema.properties.getD []).lookup discriminatorProperty = some property ∧
          (property.type = "" ∨ property.type = "string") ∧
          ∃ text, property.discriminatorValue? = some text := by
  constructor
  · rintro ⟨result, run⟩
    obtain ⟨object, properties, property, text, given, found, string, value, -⟩ :=
      discriminate_eq_ok.mp run
    exact ⟨object, property, by rw [given, Option.getD_some, found], string, text, value⟩
  · rintro ⟨object, property, found, string, text, value⟩
    cases given : schema.properties with
    | none =>
        rw [given] at found
        cases found
    | some properties =>
        rw [given, Option.getD_some] at found
        exact ⟨_, discriminate_eq_ok.mpr
          ⟨object, properties, property, text, given, found, string, value, rfl⟩⟩

/-- The schema of a node below another one is what has been read of it. -/
theorem normalize_child {value : Json} {schema : Schema}
    (run : normalize path {} value = .ok schema) : ∃ members, value = .obj members ∧
      ∃ reading, Reads path {} members (partsOf path members) reading ∧
        reading.schema members = schema := by
  cases value with
  | obj members =>
      obtain ⟨reading, reads, last⟩ := assemble_eq_ok.mp run
      exact ⟨members, rfl, reading, reads, Except.ok.inj last⟩
  | _ => cases run

/-- A property of the node is the outcome of the member of its name. -/
theorem Reads.lookup_properties (reads : Reads path context members (partsOf path members) reading)
    {children : Members} (has : Members.get? members "properties" = some (.obj children))
    (name : String) :
    (Members.get? children name).map
        (normalize (Pointer.join (Pointer.join path ["properties"]) [name]) {}) =
      (((reading.schema members).properties.getD []).lookup name).map .ok := by
  have run := reads.properties
  rw [readNamed, has] at run
  obtain ⟨schemas, collected, same⟩ := except_map_eq_ok.mp run
  have found := lookup_collectNamed collected name
  rw [lookup_sortByName, named_partsOf (.inr rfl) has, lookup_normalizeNamed] at found
  rw [found, Reading.schema, ← same]
  rfl

theorem Reads.properties_eq_none
    (reads : Reads path context members (partsOf path members) reading)
    (hasNot : ∀ children, Members.get? members "properties" ≠ some (.obj children)) :
    (reading.schema members).properties = none := by
  have run := reads.properties
  unfold readNamed at run
  split at run
  · exact (Except.ok.inj run).symm
  · rename_i children has
    exact absurd has (hasNot children)
  · cases run

/-- A property that has been read has been normalized from an object. -/
theorem Reads.property_of_lookup
    (reads : Reads path context members (partsOf path members) reading) {name : String}
    {property : Schema}
    (found : ((reading.schema members).properties.getD []).lookup name = some property) :
    ∃ children node path' reading', Members.get? members "properties" = some (.obj children) ∧
      Members.get? children name = some (.obj node) ∧
      Reads path' {} node (partsOf path' node) reading' ∧ reading'.schema node = property := by
  by_cases has : ∃ children, Members.get? members "properties" = some (.obj children)
  · obtain ⟨children, has⟩ := has
    have outcome := reads.lookup_properties has name
    rw [found] at outcome
    obtain ⟨value, hasValue, run⟩ := Option.map_eq_some_iff.mp outcome
    obtain ⟨node, rfl, reading', reads', same⟩ := normalize_child run
    exact ⟨children, node, _, reading', has, hasValue, reads', same⟩
  · rw [reads.properties_eq_none (not_exists.mp has)] at found
    cases found

/-- A node passes the last check just if the grammar finds it told apart, if it has to be. -/
theorem Reads.finish_ok (reads : Reads path context members (partsOf path members) reading) :
    (∃ schema, finish path context (reading.schema members) = .ok schema) ↔
      (context.requiresDiscriminator = true → Discriminated members) := by
  unfold finish
  split
  · rename_i required
    rw [discriminate_ok]
    constructor
    · rintro ⟨object, property, found, string, text⟩ -
      obtain ⟨children, node, path', reading', has, hasNode, reads', rfl⟩ :=
        reads.property_of_lookup found
      exact ⟨object.imp (reads.type_eq_iff _).mp (reads.type_eq_iff _).mp, children, node, has,
        hasNode, string.imp (reads'.type_eq_iff _).mp (reads'.type_eq_iff _).mp,
        reads'.admitsOneText.mp text⟩
    · intro told
      obtain ⟨object, children, node, has, hasNode, string, admits⟩ := told required
      have outcome := reads.lookup_properties has discriminatorProperty
      rw [discriminatorProperty, hasNode] at outcome
      obtain ⟨property, found, run⟩ := Option.map_eq_some_iff.mp outcome.symm
      obtain ⟨members', same, reading', reads', rfl⟩ := normalize_child run.symm
      cases same
      exact ⟨object.imp (reads.type_eq_iff _).mpr (reads.type_eq_iff _).mpr, _, found,
        string.imp (reads'.type_eq_iff _).mpr (reads'.type_eq_iff _).mpr,
        reads'.admitsOneText.mpr admits⟩
  · rename_i notRequired
    simp [notRequired]

end Discriminator

section Node

variable {path : String} {context : NodeContext} {members : Members}

/-- What the grammar says of a node, member by member. -/
theorem acceptable_obj : Acceptable context (.obj members) ↔ KeywordsFit members ∧
    (∀ key ∈ ["$defs", "properties"], Members.Each members key fun value =>
      ∃ children, value = .obj children ∧ ∀ child ∈ children, Acceptable {} child.2) ∧
    Members.Each members "items" (Acceptable .items) ∧
    (Members.Each members "oneOf" fun value => context.allowsOneOf = true ∧
      ∃ first rest, value = .arr (first :: rest) ∧
        ∀ element ∈ first :: rest, Acceptable .variant element) ∧
    (context.requiresDiscriminator = true → Discriminated members) := by
  constructor
  · rintro ⟨keywords, maps, named, items, variants, listed, told⟩
    refine ⟨keywords, ?_, items, ?_, told⟩
    · intro key map value has
      obtain ⟨children, rfl⟩ := maps key map value has
      exact ⟨children, rfl, named key map children has⟩
    · intro value has
      obtain ⟨allowed, first, rest, rfl⟩ := variants value has
      exact ⟨allowed, first, rest, rfl, listed _ has⟩
  · rintro ⟨keywords, named, items, variants, told⟩
    refine .node keywords ?_ ?_ items ?_ ?_ told
    · intro key map value has
      obtain ⟨children, rfl, -⟩ := named key map value has
      exact ⟨children, rfl⟩
    · intro key map children has
      obtain ⟨_, same, accepted⟩ := named key map _ has
      cases same
      exact accepted
    · intro value has
      obtain ⟨allowed, first, rest, rfl, -⟩ := variants value has
      exact ⟨allowed, first, rest, rfl⟩
    · intro elements has
      obtain ⟨-, first, rest, same, accepted⟩ := variants _ has
      cases same
      exact accepted

/-- The readers of the keywords that hold no schemas succeed just if the grammar's rules for them
are met. -/
theorem exists_reads (path : String) (context : NodeContext) (parts : Parts)
    (converts : ∀ key ∈ ["minimum", "maximum", "exclusiveMinimum", "exclusiveMaximum"],
      Members.Each members key Json.Converts) :
    (∃ reading, Reads path context members parts reading) ↔ KeywordsFit members ∧
      (∀ key ∈ ["$defs", "properties"], ∃ schemas, readNamed members parts key path = .ok schemas) ∧
      (∃ schema, readItems members parts path = .ok schema) ∧
      ∃ schemas, readVariants members parts context path = .ok schemas := by
  constructor
  · rintro ⟨reading, reads⟩
    obtain ⟨bounds, lower, upper⟩ := (Keywords.readBounds_ok converts).mp ⟨_, reads.bounds⟩
    refine ⟨{
      free := reads.free
      known := Keywords.check_eq_ok.mp reads.known
      type := ⟨_, reads.hasType⟩
      texts := ?_
      enum := Keywords.readEnum_ok.mp ⟨_, reads.enum⟩
      required := Keywords.readRequired_ok.mp ⟨_, reads.required⟩
      bounds, lower, upper
      lengths := ?_
      pattern := Keywords.readPattern_ok.mp ⟨_, reads.pattern⟩ }, ?_, ⟨_, reads.items⟩,
      _, reads.oneOf⟩
    · simp only [List.forall_mem_cons]
      exact ⟨Keywords.readText_ok.mp ⟨_, reads.title⟩,
        Keywords.readText_ok.mp ⟨_, reads.description⟩,
        Keywords.readText_ok.mp ⟨_, reads.format⟩, by simp⟩
    · simp only [List.forall_mem_cons]
      exact ⟨Keywords.readLength_ok.mp ⟨_, reads.minLength⟩,
        Keywords.readLength_ok.mp ⟨_, reads.maxLength⟩, by simp⟩
    · simp only [List.forall_mem_cons]
      exact ⟨⟨_, reads.definitions⟩, ⟨_, reads.properties⟩, by simp⟩
  · rintro ⟨fit, named, ⟨items, hItems⟩, oneOf, hOneOf⟩
    obtain ⟨type, hasType⟩ := fit.type
    obtain ⟨nullable, hType⟩ := (Keywords.readType_eq_ok path).mpr hasType
    obtain ⟨title, hTitle⟩ := Keywords.readText_ok.mpr (fit.texts "title" (by simp))
    obtain ⟨description, hDescription⟩ :=
      Keywords.readText_ok.mpr (fit.texts "description" (by simp))
    obtain ⟨format, hFormat⟩ := Keywords.readText_ok.mpr (fit.texts "format" (by simp))
    obtain ⟨enum, hEnum⟩ := Keywords.readEnum_ok.mpr fit.enum
    obtain ⟨required, hRequired⟩ := Keywords.readRequired_ok.mpr fit.required
    obtain ⟨⟨lower, upper⟩, hBounds⟩ :=
      (Keywords.readBounds_ok converts).mpr ⟨fit.bounds, fit.lower, fit.upper⟩
    obtain ⟨minLength, hMinLength⟩ := Keywords.readLength_ok.mpr (fit.lengths "minLength" (by simp))
    obtain ⟨maxLength, hMaxLength⟩ := Keywords.readLength_ok.mpr (fit.lengths "maxLength" (by simp))
    obtain ⟨pattern, hPattern⟩ := Keywords.readPattern_ok.mpr fit.pattern
    obtain ⟨definitions, hDefinitions⟩ := named "$defs" (by simp)
    obtain ⟨properties, hProperties⟩ := named "properties" (by simp)
    exact ⟨⟨type, nullable, title, description, format, enum, required, lower, upper, minLength,
      maxLength, pattern, definitions, properties, items, oneOf⟩, fit.free,
      Keywords.check_eq_ok.mpr fit.known, hType, hTitle, hDescription, hFormat, hEnum, hRequired,
      hBounds, hMinLength, hMaxLength, hPattern, hDefinitions, hProperties, hItems, hOneOf⟩

/-- A node is accepted just as the grammar says, if all below it is. -/
theorem assemble_ok (below : Below Decides members)
    (converts : ∀ key ∈ ["minimum", "maximum", "exclusiveMinimum", "exclusiveMaximum"],
      Members.Each members key Json.Converts) :
    (∃ schema, normalize path context (.obj members) = .ok schema) ↔
      Acceptable context (.obj members) := by
  have parts := exists_reads path context (partsOf path members) converts
  rw [readItems_ok below, readVariants_ok below] at parts
  have named : (∀ key ∈ ["$defs", "properties"],
      ∃ schemas, readNamed members (partsOf path members) key path = .ok schemas) ↔
      ∀ key ∈ ["$defs", "properties"], Members.Each members key fun value =>
        ∃ children, value = .obj children ∧ ∀ child ∈ children, Acceptable {} child.2 :=
    forall₂_congr fun key map => readNamed_ok below map
  rw [acceptable_obj, ← named]
  constructor
  · rintro ⟨schema, run⟩
    obtain ⟨reading, reads, last⟩ := assemble_eq_ok.mp run
    obtain ⟨fit, maps, items, variants⟩ := parts.mp ⟨reading, reads⟩
    exact ⟨fit, maps, items, variants, reads.finish_ok.mp ⟨schema, last⟩⟩
  · rintro ⟨fit, maps, items, variants, told⟩
    obtain ⟨reading, reads⟩ := parts.mpr ⟨fit, maps, items, variants⟩
    obtain ⟨schema, last⟩ := reads.finish_ok.mpr told
    exact ⟨schema, assemble_eq_ok.mpr ⟨reading, reads, last⟩⟩

end Node

section Value

/-- The hypothesis on bounds holds of each value at a schema position. -/
theorem BoundsConvert.below {value inner : Json} (h : BoundsConvert value)
    (position : ∀ members, SchemaPosition inner (.obj members) →
      SchemaPosition value (.obj members)) : BoundsConvert inner :=
  fun members place => h members (position members place)

/-- By induction along the parts of a node, for all contexts, as parts stand in other ones. -/
theorem decides_of_boundsConvert (value : Json) (converts : BoundsConvert value) :
    Decides value := by
  induction value using Json.node_induction with
  | node members below =>
      intro path context
      refine assemble_ok ⟨?_, ?_, ?_⟩ (converts members (.here _))
      · intro key map children has child mem
        refine below.named key map children has child mem (converts.below fun node place => ?_)
        exact .named (by simpa [schemaMaps] using map) (Members.mem_of_get? has) mem place
      · intro item has
        refine below.items item has (converts.below fun node place => ?_)
        exact .items (Members.mem_of_get? has) place
      · intro elements has element mem
        refine below.listed elements has element mem (converts.below fun node place => ?_)
        exact .listed (by simp [schemaLists]) (Members.mem_of_get? has) mem place
  | leaf value leaf =>
      intro path context
      cases value with
      | obj members => exact absurd rfl (leaf members)
      | _ =>
          constructor
          · rintro ⟨schema, run⟩
            cases run
          · rintro ⟨⟩

end Value

/-- The normalizer accepts a value in a context just if the grammar does, if the integers that the
value gives as bounds have floating point numbers near them. -/
theorem normalize_isOk_iff (value : Json) (converts : BoundsConvert value) (path : String)
    (context : NodeContext) :
    (∃ schema, normalize path context value = .ok schema) ↔ Acceptable context value :=
  decides_of_boundsConvert value converts path context

namespace Sample

def forms : Json :=
  .obj [("type", .str " object "), ("required", .arr [.str "list"]), ("properties", .obj
    [("list", .obj [("type", .str "array"), ("x-title", .null), ("items", .obj [("oneOf", .arr
      [.obj [("properties", .obj
        [("_type", .obj [("type", .str "string"), ("enum", .arr [.str "a"])]),
          ("size", .obj [("type", .arr [.str "integer", .str "null"]), ("minimum", .int 0),
            ("exclusiveMinimum", .bool true), ("maximum", .int 9)])])]])])])])]

theorem forms_boundsConvert : BoundsConvert forms := by
  intro members position
  obtain ⟨address, found⟩ := Json.at?_of_schemaPosition position
  have all : ∀ object ∈ forms.objects,
      ∀ key ∈ ["minimum", "maximum", "exclusiveMinimum", "exclusiveMaximum"],
        Members.Each object.2 key Json.Converts := by decide +kernel
  exact all _ (Json.mem_objects.mpr found)

end Sample

/-- The sample is accepted as a schema; as a variant it lacks a discriminator. -/
theorem normalize_isOk_iff_sample :
    BoundsConvert Sample.forms ∧ Acceptable {} Sample.forms ∧
      ¬ Acceptable .variant Sample.forms := by
  have same := normalize_isOk_iff Sample.forms Sample.forms_boundsConvert "#"
  have accepts : (normalize "#" {} Sample.forms).toOption.isSome = true := by decide +kernel
  have rejects : (normalize "#" .variant Sample.forms).toOption.isNone = true := by decide +kernel
  refine ⟨Sample.forms_boundsConvert, (same {}).mp ?_, fun accepted => ?_⟩
  · obtain ⟨schema, found⟩ := Option.isSome_iff_exists.mp accepts
    exact ⟨schema, eq_ok_of_toOption found⟩
  · obtain ⟨schema, run⟩ := (same .variant).mpr accepted
    rw [run] at rejects
    cases rejects

end SchemaForms.Schema
