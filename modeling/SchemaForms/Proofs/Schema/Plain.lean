import SchemaForms.Proofs.Schema.Accepted

/-!
# Normalization is blind to extensions

`Json.plain` takes the vendor extensions away from every schema node of a value, and `Schema.bare`
from every schema inside a schema. The normalizer is blind to the former as far as the latter can
tell: a value and its plain form have the same outcome, error included, once the extensions of the
schema are taken away. So two values with one plain form cannot be told apart by normalizing them,
except by extensions.

Each part of the normalizer has a lemma that carries `bare` through it. The rules of variants are
the one place where extensions are read and written, and there they go from extensions to
extensions only.
-/

namespace SchemaForms

def schemaHolders : List String := ["$defs", "properties", "oneOf"]

namespace Json

mutual

/-- The value, as a schema, without the vendor extensions of its nodes. -/
def plain : Json → Json
  | .obj members => .obj (plainMembers members)
  | value => value

/-- The members of a schema node that are not vendor extensions, each in its plain form. -/
def plainMembers : List (String × Json) → List (String × Json)
  | [] => []
  | (key, value) :: rest =>
    if Dialect.isVendorExtension key then plainMembers rest
    else (key, plainMember key value) :: plainMembers rest

/-- The plain form of one member of a schema node. -/
def plainMember (key : String) : Json → Json
  | .obj members =>
    if key ∈ schemaHolders then .obj (plainNamed members)
    else if key = "items" then .obj (plainMembers members)
    else .obj members
  | .arr elements => if key ∈ schemaHolders then .arr (plainElements elements) else .arr elements
  | value => value

def plainNamed : List (String × Json) → List (String × Json)
  | [] => []
  | (name, value) :: rest => (name, value.plain) :: plainNamed rest

def plainElements : List Json → List Json
  | [] => []
  | value :: rest => value.plain :: plainElements rest

end

end Json

namespace Schema

mutual

/-- The schema without extensions at any depth. -/
def bare : Schema → Schema
  | ⟨type, format, title, description, default, enum, const, required, properties, items, oneOf,
      minimum, maximum, exclusiveMinimum, exclusiveMaximum, minLength, maxLength, pattern, nullable,
      _⟩ =>
    ⟨type, format, title, description, default, enum, const, required, bareProperties properties,
      bareItems items, bareVariants oneOf, minimum, maximum, exclusiveMinimum, exclusiveMaximum,
      minLength, maxLength, pattern, nullable, none⟩

def bareProperties : Option (List (String × Schema)) → Option (List (String × Schema))
  | none => none
  | some properties => some (bareNamed properties)

def bareItems : Option Schema → Option Schema
  | none => none
  | some schema => some schema.bare

def bareVariants : Option (List Schema) → Option (List Schema)
  | none => none
  | some variants => some (bareList variants)

def bareNamed : List (String × Schema) → List (String × Schema)
  | [] => []
  | (name, schema) :: rest => (name, schema.bare) :: bareNamed rest

def bareList : List Schema → List Schema
  | [] => []
  | schema :: rest => schema.bare :: bareList rest

end

end Schema

namespace Json

theorem plainNamed_eq_map (children : Members) :
    plainNamed children = children.map (under plain) := by
  induction children with
  | nil => rfl
  | cons child rest ih => rw [plainNamed, ih, List.map_cons]; rfl

theorem plainMember_items (value : Json) : plainMember "items" value = value.plain := by
  cases value <;> simp [plainMember, plain, schemaHolders]

/-- A member that holds no schemas is plain as it is. -/
theorem plainMember_data {key : String} (data : key ∉ "items" :: schemaHolders) (value : Json) :
    plainMember key value = value := by
  obtain ⟨notItems, notHolder⟩ := not_or.mp (mt List.mem_cons.mpr data)
  cases value <;> simp [plainMember, notItems, notHolder]

end Json

open Json

theorem Members.get?_plain {key : String} (keyword : Dialect.isVendorExtension key = false)
    (members : Members) :
    get? (plainMembers members) key = (get? members key).map (plainMember key) := by
  induction members with
  | nil => rfl
  | cons member rest ih =>
      obtain ⟨name, value⟩ := member
      rw [plainMembers, get?_cons]
      split
      · rename_i vendor
        have other : name ≠ key := by
          rintro rfl
          rw [keyword] at vendor
          cases vendor
        rw [if_neg other, ih]
      · rw [get?_cons, ih]
        split
        · rename_i same
          rw [same]
          rfl
        · rfl

namespace Schema

theorem bareNamed_eq_map (properties : List (String × Schema)) :
    bareNamed properties = properties.map (under bare) := by
  induction properties with
  | nil => rfl
  | cons property rest ih => rw [bareNamed, ih, List.map_cons]; rfl

theorem bareList_eq_map (schemas : List Schema) : bareList schemas = schemas.map bare := by
  induction schemas with
  | nil => rfl
  | cons schema rest ih => rw [bareList, ih, List.map_cons]

theorem bareProperties_eq_map (properties : Option (List (String × Schema))) :
    bareProperties properties = properties.map (List.map (under bare)) := by
  cases properties with
  | none => rfl
  | some properties => rw [bareProperties, bareNamed_eq_map]; rfl

theorem bareItems_eq_map (items : Option Schema) : bareItems items = items.map bare := by
  cases items <;> rfl

theorem bareVariants_eq_map (variants : Option (List Schema)) :
    bareVariants variants = variants.map (List.map bare) := by
  cases variants with
  | none => rfl
  | some variants => rw [bareVariants, bareList_eq_map]; rfl

/-- All but the extensions, here and below, stays as it is. -/
theorem bare_eq (schema : Schema) :
    schema.bare = { schema with
      properties := schema.properties.map (List.map (under bare))
      items := schema.items.map bare
      oneOf := schema.oneOf.map (List.map bare)
      extensions := none } := by
  rw [← bareProperties_eq_map, ← bareItems_eq_map, ← bareVariants_eq_map]
  cases schema
  rfl

end Schema

section Except

variable {ε α α' β β' γ δ : Type}

/-- Two runs with equal first parts, as far as `f` can tell, have equal outcomes if their rests have. -/
theorem except_map_bind_congr {first : Except ε α} {first' : Except ε α'} {f : α → γ} {f' : α' → γ}
    {next : α → Except ε β} {next' : α' → Except ε β'} {g : β → δ} {g' : β' → δ}
    (same : first.map f = first'.map f')
    (rest : ∀ value value', f value = f' value' →
      (next value).map g = (next' value').map g') :
    (first >>= next).map g = (first' >>= next').map g' := by
  cases first with
  | error fault =>
      cases first' with
      | error fault' =>
          cases same
          rfl
      | ok value' => cases same
  | ok value =>
      cases first' with
      | error fault' => cases same
      | ok value' => exact rest value value' (Except.ok.inj same)

theorem except_map_bind_same {first : Except ε α} {next next' : α → Except ε β} {g : β → δ}
    (rest : ∀ value, (next value).map g = (next' value).map g) :
    (first >>= next).map g = (first >>= next').map g := by
  cases first with
  | error fault => rfl
  | ok value => exact rest value

/-- What is optional is told apart just as what is there. -/
theorem except_map_some_congr {first second : Except ε α} {f : α → γ} {g : Option α → Option γ}
    (commutes : ∀ value, g (some value) = some (f value)) (same : first.map f = second.map f) :
    (first.map some).map g = (second.map some).map g := by
  have swap : ∀ result : Except ε α, (result.map some).map g = (result.map f).map some := by
    intro result
    cases result with
    | error fault => rfl
    | ok value => exact congrArg Except.ok (commutes value)
  rw [swap, swap, same]

end Except

namespace Keywords

variable {members : Members} {key path : String}

def data : List String :=
  supported.filter fun key => !("items" :: schemaHolders).contains key

/-- No keyword is a vendor extension, so the plain form of a node has each that the node has. -/
theorem get?_plain_of_supported (mem : key ∈ supported) :
    Members.get? (plainMembers members) key =
      (Members.get? members key).map (plainMember key) := by
  have keywords : ∀ key ∈ supported, Dialect.isVendorExtension key = false := by decide
  exact Members.get?_plain (keywords key mem) members

theorem get?_plain_of_data (mem : key ∈ data) :
    Members.get? (plainMembers members) key = Members.get? members key := by
  obtain ⟨keyword, noSchemas⟩ := List.mem_filter.mp mem
  have noSchemas : key ∉ "items" :: schemaHolders := by simpa using noSchemas
  rw [get?_plain_of_supported keyword, funext (plainMember_data noSchemas)]
  exact Option.map_id'

theorem keys_plain (members : Members) :
    Members.keys (plainMembers members) =
      (Members.keys members).filter (!Dialect.isVendorExtension ·) := by
  induction members with
  | nil => rfl
  | cons member rest ih =>
      obtain ⟨name, value⟩ := member
      have keys : Members.keys ((name, value) :: rest) = name :: Members.keys rest := rfl
      rw [plainMembers, keys]
      split
      · rename_i vendor
        rw [List.filter_cons_of_neg (by simp [vendor]), ih]
      · rename_i keyword
        rw [List.filter_cons_of_pos (by simp [keyword]), ← ih]
        rfl

theorem sortNames_filter (keep : String → Bool) (names : List String) :
    sortNames (names.filter keep) = (sortNames names).filter keep := by
  have pairs : (names.filter keep).map (fun name => (name, ())) =
      (names.map fun name => (name, ())).filter fun pair => keep pair.1 := by
    rw [List.filter_map]
    rfl
  rw [sortNames, sortNames, pairs, sortByName_filter, List.filter_map]
  rfl

/-- A keyword that is not supported is not an extension, so the first one is found without them. -/
theorem check_plain : check (plainMembers members) path = check members path := by
  have found : ∀ names : List String,
      (names.filter (!Dialect.isVendorExtension ·)).find? (!isSupported ·) =
        names.find? (!isSupported ·) := by
    intro names
    rw [List.find?_filter]
    congr 1
    funext key
    cases vendor : Dialect.isVendorExtension key <;> simp [isSupported, vendor]
  rw [check, check, keys_plain, sortNames_filter, found]

theorem readType_plain : readType (plainMembers members) path = readType members path := by
  rw [readType, readType, get?_plain_of_data (by simp [data, supported, schemaHolders])]

theorem readText_plain (mem : key ∈ data) :
    readText (plainMembers members) key path = readText members key path := by
  rw [readText, readText, get?_plain_of_data mem]

theorem readEnum_plain : readEnum (plainMembers members) path = readEnum members path := by
  rw [readEnum, readEnum, get?_plain_of_data (by simp [data, supported, schemaHolders])]

theorem readRequired_plain :
    readRequired (plainMembers members) path = readRequired members path := by
  rw [readRequired, readRequired, get?_plain_of_data (by simp [data, supported, schemaHolders])]

theorem readBounds_plain : readBounds (plainMembers members) path = readBounds members path := by
  have keywords : ∀ key ∈ ["minimum", "maximum", "exclusiveMinimum", "exclusiveMaximum"],
      key ∈ data := by
    simp [data, supported, schemaHolders]
  simp only [List.forall_mem_cons] at keywords
  obtain ⟨minimum, maximum, lower, upper, -⟩ := keywords
  simp only [readBounds, readBound, readExclusive, get?_plain_of_data, minimum, maximum, lower,
    upper]

theorem readLength_plain (mem : key ∈ data) :
    readLength (plainMembers members) key path = readLength members key path := by
  rw [readLength, readLength, get?_plain_of_data mem]

theorem readPattern_plain :
    readPattern (plainMembers members) path = readPattern members path := by
  rw [readPattern, readPattern, get?_plain_of_data (by simp [data, supported, schemaHolders])]

end Keywords

namespace Schema

section Discriminator

variable {schema other : Schema} {path text : String}

mutual

theorem bare_bare : ∀ schema : Schema, schema.bare.bare = schema.bare
  | ⟨_, _, _, _, _, _, _, _, properties, items, oneOf, _, _, _, _, _, _, _, _, _⟩ => by
      rw [bare, bare, bareProperties_bare properties, bareItems_bare items, bareVariants_bare oneOf]

theorem bareProperties_bare : ∀ properties : Option (List (String × Schema)),
    bareProperties (bareProperties properties) = bareProperties properties
  | none => rfl
  | some properties => by rw [bareProperties, bareProperties, bareNamed_bare properties]

theorem bareItems_bare : ∀ items : Option Schema, bareItems (bareItems items) = bareItems items
  | none => rfl
  | some schema => by rw [bareItems, bareItems, bare_bare schema]

theorem bareVariants_bare : ∀ variants : Option (List Schema),
    bareVariants (bareVariants variants) = bareVariants variants
  | none => rfl
  | some variants => by rw [bareVariants, bareVariants, bareList_bare variants]

theorem bareNamed_bare : ∀ properties : List (String × Schema),
    bareNamed (bareNamed properties) = bareNamed properties
  | [] => rfl
  | (name, schema) :: rest => by
      rw [bareNamed, bareNamed, bare_bare schema, bareNamed_bare rest]

theorem bareList_bare : ∀ schemas : List Schema, bareList (bareList schemas) = bareList schemas
  | [] => rfl
  | schema :: rest => by rw [bareList, bareList, bare_bare schema, bareList_bare rest]

end

theorem discriminatorValue?_bare (schema : Schema) :
    schema.bare.discriminatorValue? = schema.discriminatorValue? := by
  rw [bare_eq]
  rfl

/-- The extensions of a discriminator come from its extensions, and from nothing else. -/
theorem bare_asDiscriminator (text : String) (schema : Schema) :
    (asDiscriminator text schema.bare).bare = (asDiscriminator text schema).bare := by
  have parts := bare_bare schema
  rw [bare_eq schema] at parts ⊢
  rw [bare_eq] at parts ⊢
  rw [bare_eq (asDiscriminator text schema)]
  simp only [asDiscriminator, Schema.mk.injEq] at parts ⊢
  simp [parts]

theorem updateProperty_bare (name text : String) (properties : List (String × Schema)) :
    (updateProperty name (asDiscriminator text) (properties.map (under bare))).map (under bare) =
      (updateProperty name (asDiscriminator text) properties).map (under bare) := by
  induction properties with
  | nil => rfl
  | cons property rest ih =>
      obtain ⟨key, schema⟩ := property
      have idle : (rest.map (under bare)).map (under bare) = rest.map (under bare) := by
        rw [← bareNamed_eq_map, ← bareNamed_eq_map, bareNamed_bare]
      rw [List.map_cons, under, updateProperty, updateProperty]
      split
      · rw [List.map_cons, List.map_cons, idle, under, under, bare_asDiscriminator]
      · rw [List.map_cons, List.map_cons, ih, under, under, bare_bare]

theorem bare_toldApart (schema : Schema) (properties : List (String × Schema)) (text : String) :
    (schema.bare.toldApart (properties.map (under bare)) text).bare =
      (schema.toldApart properties text).bare := by
  have parts := bare_bare schema
  have changed := updateProperty_bare discriminatorProperty text properties
  rw [bare_eq schema] at parts ⊢
  rw [bare_eq] at parts ⊢
  rw [bare_eq (schema.toldApart properties text)]
  simp only [toldApart, Schema.mk.injEq] at parts ⊢
  simp only [parts, Option.map_some, changed, and_self]

theorem findDiscriminator_bare (schema : Schema) (path : String) :
    schema.bare.findDiscriminator path =
      (schema.findDiscriminator path).map fun found => (found.1.bare, found.2) := by
  have type : schema.bare.type = schema.type := by rw [bare_eq]
  have properties : schema.bare.properties = schema.properties.map (List.map (under bare)) := by
    rw [bare_eq]
  simp only [findDiscriminator, type, properties]
  split
  · rfl
  · cases given : schema.properties with
    | none => rfl
    | some properties =>
        cases properties with
        | nil => rfl
        | cons first rest =>
            simp only [Option.map_some, List.map_cons]
            rw [← List.map_cons, lookup_map_under]
            cases (first :: rest).lookup discriminatorProperty with
            | none => rfl
            | some property =>
                simp only [Option.map_some, discriminatorValue?_bare]
                split
                · rfl
                · rfl

/-- The rules of variants are blind to extensions. -/
theorem discriminate_bare (schema : Schema) (path : String) :
    (schema.bare.discriminate path).map bare = (schema.discriminate path).map bare := by
  rw [discriminate_eq, discriminate_eq, findDiscriminator_bare]
  cases schema.findDiscriminator path with
  | error error => rfl
  | ok found =>
      obtain ⟨property, text⟩ := found
      have type : property.bare.type = property.type := by rw [bare_eq]
      have properties : schema.bare.properties.getD [] =
          (schema.properties.getD []).map (under bare) := by
        rw [bare_eq]
        cases schema.properties with
        | none => rfl
        | some properties => rfl
      rw [Except.map]
      simp only [type, properties]
      by_cases string : property.type = "" ∨ property.type = "string"
      · rw [if_pos string, if_pos string]
        exact congrArg Except.ok (bare_toldApart schema _ text)
      · rw [if_neg string, if_neg string]

theorem finish_congr {context : NodeContext} (same : schema.bare = other.bare) :
    (finish path context schema).map bare = (finish path context other).map bare := by
  rw [finish, finish]
  split
  · rw [← discriminate_bare schema, same, discriminate_bare other]
  · exact congrArg Except.ok same

end Discriminator

section Node

variable {path : String} {context : NodeContext} {members : Members} {parts parts' : Parts}

theorem nullableNames_bare (properties : Option (List (String × Schema))) :
    nullableNames (bareProperties properties) = nullableNames properties := by
  have flag : ∀ schema : Schema, schema.bare.nullable = schema.nullable := fun schema => by
    rw [bare_eq]
  cases properties with
  | none => rfl
  | some properties =>
      simp [nullableNames, bareProperties, bareNamed_eq_map, List.filter_map, Function.comp_def,
        under, flag]

/-- A node is assembled alike from its plain members, if the schemas below it are. -/
theorem assemble_plain
    (named : ∀ key ∈ ["$defs", "properties"],
      (readNamed (plainMembers members) parts' key path).map bareProperties =
        (readNamed members parts key path).map bareProperties)
    (items : (readItems (plainMembers members) parts' path).map bareItems =
      (readItems members parts path).map bareItems)
    (variants : (readVariants (plainMembers members) parts' context path).map bareVariants =
      (readVariants members parts context path).map bareVariants) :
    (assemble path context (plainMembers members) parts').map bare =
      (assemble path context members parts).map bare := by
  rw [assemble, assemble]
  have data : ∀ key ∈ ["$ref", "title", "description", "format", "minLength", "maxLength", "default",
      "const"], key ∈ Keywords.data := by
    simp [Keywords.data, Keywords.supported, schemaHolders]
  simp only [List.forall_mem_cons] at data
  obtain ⟨ref, title, description, format, minLength, maxLength, default, const, -⟩ := data
  simp only [Keywords.get?_plain_of_data, ref, default, const, Keywords.check_plain,
    Keywords.readType_plain, Keywords.readText_plain, title, description, format,
    Keywords.readEnum_plain, Keywords.readRequired_plain, Keywords.readBounds_plain,
    Keywords.readLength_plain, minLength, maxLength, Keywords.readPattern_plain]
  cases Members.get? members "$ref" with
  | some ref =>
      show (Except.error (Keywords.showing .unresolvedReference ref path) : Outcome) = .error _
      rfl
  | none =>
      simp only
      apply except_map_bind_same
      rintro ⟨⟩
      apply except_map_bind_same
      rintro ⟨type, nullable⟩
      apply except_map_bind_same
      intro title
      apply except_map_bind_same
      intro description
      apply except_map_bind_same
      intro format
      apply except_map_bind_same
      intro enum
      apply except_map_bind_same
      intro required
      apply except_map_bind_same
      rintro ⟨lower, upper⟩
      apply except_map_bind_same
      intro minLength
      apply except_map_bind_same
      intro maxLength
      apply except_map_bind_same
      intro pattern
      apply except_map_bind_congr (named "$defs" (by simp))
      intro _ _ _
      apply except_map_bind_congr (named "properties" (by simp))
      intro first second properties
      apply except_map_bind_congr items
      intro _ _ items
      apply except_map_bind_congr variants
      intro _ _ variants
      have nullables : nullableNames first = nullableNames second := by
        rw [← nullableNames_bare, properties, nullableNames_bare]
      rw [nullables]
      apply finish_congr
      simp only [bare, properties, items, variants]

end Node

section Below

variable {path : String} {context : NodeContext} {members : Members} {key : String}

theorem collectNamed_bare (outcomes : List (String × Outcome)) :
    (collectNamed outcomes).map bareNamed =
      collectNamed (outcomes.map (under (Except.map bare))) := by
  induction outcomes with
  | nil => rfl
  | cons outcome rest ih =>
      obtain ⟨name, outcome⟩ := outcome
      cases outcome with
      | error fault => rfl
      | ok schema =>
          rw [List.map_cons, under, collectNamed, collectNamed, ← ih]
          cases collectNamed rest <;> rfl

theorem collect_bare (outcomes : List Outcome) :
    (collect outcomes).map bareList = collect (outcomes.map (Except.map bare)) := by
  induction outcomes with
  | nil => rfl
  | cons outcome rest ih =>
      cases outcome with
      | error fault => rfl
      | ok schema =>
          rw [List.map_cons, collect, collect, ← ih]
          cases collect rest <;> rfl

/-- The normalizer makes the same of the value and of its plain form, but for extensions. -/
def Blind (value : Json) : Prop :=
  ∀ path context, (normalize path context value.plain).map bare =
    (normalize path context value).map bare

theorem normalizeNamed_plain {children : Members} (below : ∀ child ∈ children, Blind child.2)
    (path : String) :
    (normalizeNamed path (plainNamed children)).map (under (Except.map bare)) =
      (normalizeNamed path children).map (under (Except.map bare)) := by
  rw [normalizeNamed_eq_map, normalizeNamed_eq_map, plainNamed_eq_map]
  simp only [List.map_map]
  apply List.map_congr_left
  intro child mem
  exact congrArg (Prod.mk child.1) (below child mem _ _)

theorem normalizeVariants_plain {elements : List Json} (below : ∀ element ∈ elements, Blind element)
    (path : String) (index : Nat) :
    (normalizeVariants path index (plainElements elements)).map (Except.map bare) =
      (normalizeVariants path index elements).map (Except.map bare) := by
  induction elements generalizing index with
  | nil => rfl
  | cons element rest ih =>
      obtain ⟨first, others⟩ := List.forall_mem_cons.mp below
      rw [plainElements, normalizeVariants, normalizeVariants, List.map_cons, List.map_cons,
        first, ih others]

theorem readNamed_plain (below : Below Blind members) (map : key ∈ ["$defs", "properties"]) :
    (readNamed (plainMembers members) (partsOf path (plainMembers members)) key path).map
        bareProperties =
      (readNamed members (partsOf path members) key path).map bareProperties := by
  have named : key = "$defs" ∨ key = "properties" := by simpa using map
  have keyword : key ∈ Keywords.supported := by
    obtain rfl | rfl := named <;> simp [Keywords.supported]
  have holder : key ∈ schemaHolders := by
    obtain rfl | rfl := named <;> simp [schemaHolders]
  have plain : Members.get? (plainMembers members) key = _ :=
    Keywords.get?_plain_of_supported keyword
  rw [readNamed, readNamed, plain]
  cases has : Members.get? members key with
  | none => rfl
  | some value =>
      cases value with
      | obj children =>
          have inside : plainMember key (.obj children) = .obj (plainNamed children) := by
            rw [plainMember, if_pos holder]
          rw [has, Option.map_some, inside] at plain
          have same : ((sortByName (normalizeNamed (Pointer.join path [key])
              (plainNamed children))).map (under (Except.map bare))) =
              (sortByName (normalizeNamed (Pointer.join path [key]) children)).map
                (under (Except.map bare)) := by
            rw [← sortByName_map, ← sortByName_map,
              normalizeNamed_plain (below.named key map children has)]
          have collected := congrArg collectNamed same
          rw [← collectNamed_bare, ← collectNamed_bare] at collected
          simp only [Option.map_some, inside, named_partsOf named has, named_partsOf named plain]
          exact except_map_some_congr (fun _ => rfl) collected
      | arr elements => simp only [Option.map_some, plainMember, holder, if_true]
      | _ => rfl

theorem readItems_plain (below : Below Blind members) :
    (readItems (plainMembers members) (partsOf path (plainMembers members)) path).map bareItems =
      (readItems members (partsOf path members) path).map bareItems := by
  have plain : Members.get? (plainMembers members) "items" = _ :=
    Keywords.get?_plain_of_supported (by simp [Keywords.supported])
  rw [readItems, readItems, plain]
  cases has : Members.get? members "items" with
  | none => rfl
  | some value =>
      rw [Option.map_some, plainMember_items]
      cases value with
      | obj item =>
          rw [has, Option.map_some, plainMember_items] at plain
          have same := below.items _ has (Pointer.join path ["items"]) .items
          simp only [Json.plain, lookup_items has, lookup_items plain] at same ⊢
          exact except_map_some_congr (fun _ => rfl) same
      | _ => rfl

theorem readVariants_plain (below : Below Blind members) :
    (readVariants (plainMembers members) (partsOf path (plainMembers members)) context path).map
        bareVariants =
      (readVariants members (partsOf path members) context path).map bareVariants := by
  have plain : Members.get? (plainMembers members) "oneOf" = _ :=
    Keywords.get?_plain_of_supported (by simp [Keywords.supported])
  rw [readVariants, readVariants, plain]
  cases has : Members.get? members "oneOf" with
  | none => rfl
  | some value =>
      simp only [Option.map_some]
      split
      · rfl
      · cases value with
        | arr elements =>
            have inside : plainMember "oneOf" (.arr elements) = .arr (plainElements elements) := by
              simp [plainMember, schemaHolders]
            rw [has, Option.map_some, inside] at plain
            rw [inside]
            cases elements with
            | nil => rfl
            | cons first rest =>
                have same := normalizeVariants_plain (below.listed _ has)
                  (Pointer.join path ["oneOf"]) 0
                have collected := congrArg collect same
                rw [← collect_bare, ← collect_bare] at collected
                simp only [listed_partsOf has, listed_partsOf plain]
                exact except_map_some_congr (fun _ => rfl) collected
        | obj members' =>
            have inside : plainMember "oneOf" (.obj members') = .obj (plainNamed members') := by
              simp [plainMember, schemaHolders]
            rw [inside]
        | _ => rfl

theorem blind (value : Json) : Blind value := by
  induction value using Json.node_induction with
  | node members below =>
      intro path context
      exact assemble_plain (fun key map => readNamed_plain below map) (readItems_plain below)
        (readVariants_plain below)
  | leaf value leaf =>
      intro path context
      cases value with
      | obj members => exact absurd rfl (leaf members)
      | _ => rfl

end Below

/-- Values that are alike but for the extensions of schema nodes are normalized alike but for
extensions: with the same error, or to schemas that differ in nothing else. -/
theorem normalize_of_plain {value other : Json} (same : value.plain = other.plain) (path : String)
    (context : NodeContext) :
    (normalize path context value).map bare = (normalize path context other).map bare := by
  rw [← blind value, same, blind other]

end Schema

end SchemaForms
