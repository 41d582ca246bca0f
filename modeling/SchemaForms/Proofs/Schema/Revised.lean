import SchemaForms.Proofs.Json.Members
import SchemaForms.Proofs.Schema.WellFormed

/-!
# What the rules of variants change

The rules of variants either make a schema a variant or leave it as it is. `IsVariant` says what they
demand, and `Revised` what they change where they are applied: the type, the constant and the
extensions of the discriminator, and the names that are required. A schema that has been revised is
not changed any more.
-/

namespace SchemaForms.Schema

variable {schema property : Schema} {properties : List (String × Schema)} {name text path : String}

/-- The schema is an object that has a text as discriminator. -/
def IsVariant (schema : Schema) : Prop :=
  (schema.type = "" ∨ schema.type = "object") ∧
    ∃ property, schema.property? discriminatorProperty = some property ∧
      property.discriminatorValue?.isSome = true ∧ (property.type = "" ∨ property.type = "string")

/-- What a discriminator is before and after the rules have been applied. -/
structure Pinned (property after : Schema) : Prop where
  rest : after = { property with
    type := after.type
    const := after.const
    extensions := after.extensions }
  type : after.type = "string"
  value : after.discriminatorValue? = property.discriminatorValue?
  const : after.const = property.discriminatorValue?.map .str
  extensions : ∃ extensions form, after.extensions = some extensions ∧
    Members.get? extensions "x-formgen" = some (.obj form) ∧
    Members.get? form "readonly" = some (.bool true) ∧
    (∀ key ≠ "x-formgen",
      Members.get? extensions key = Members.get? (property.extensions.getD []) key) ∧
    ∀ old, Members.get? (property.extensions.getD []) "x-formgen" = some (.obj old) →
      ∀ key ≠ "readonly", Members.get? form key = Members.get? old key

/-- What a schema is before and after the rules have been applied. -/
structure Revised (schema after : Schema) : Prop where
  rest : after = { schema with properties := after.properties, required := after.required }
  properties : ∃ before property pinned behind,
    schema.properties = some (before ++ (discriminatorProperty, property) :: behind) ∧
    discriminatorProperty ∉ before.map (·.1) ∧
    after.properties = some (before ++ (discriminatorProperty, pinned) :: behind) ∧
    Pinned property pinned
  required :
    (discriminatorProperty ∈ schema.required ∧ after.required = schema.required) ∨
    (discriminatorProperty ∉ schema.required ∧
      after.required = schema.required ++ [discriminatorProperty])

theorem property?_eq_some : schema.property? name = some property ↔
    ∃ properties, schema.properties = some properties ∧ properties.lookup name = some property := by
  rw [property?]
  cases schema.properties with
  | none => simp
  | some properties => simp

section Property

theorem withReadOnly_withReadOnly (extensions : Option Members) :
    withReadOnly (some (withReadOnly extensions)) = withReadOnly extensions := by
  -- The form that has been put in is found again, and it is marked already.
  have found := Members.get?_set_self (extensions.getD []) "x-formgen" (.obj (Members.set
    (((Members.get? (extensions.getD []) "x-formgen").bind Json.members?).getD [])
    "readonly" (.bool true)))
  have marked : ∀ form : Members, Members.set (Members.set form "readonly" (.bool true)) "readonly"
      (.bool true) = Members.set form "readonly" (.bool true) :=
    fun form => Members.set_of_get? (Members.get?_set_self form _ _)
  change withReadOnly (some (Members.set _ _ _)) = Members.set _ _ _
  rw [withReadOnly]
  simp only [Option.getD_some]
  rw [found, Option.bind_some, Json.members?, Option.getD_some, marked]
  exact Members.set_of_get? found

theorem asDiscriminator_asDiscriminator (text : String) (property : Schema) :
    asDiscriminator text (asDiscriminator text property) = asDiscriminator text property := by
  simp only [asDiscriminator, withReadOnly_withReadOnly]

/-- A constant that is a text is the value of a discriminator. -/
theorem discriminatorValue?_asDiscriminator (notBlank : Text.trim text ≠ "") (property : Schema) :
    (asDiscriminator text property).discriminatorValue? = some text := by
  have own : nonBlank? (.str text) = some text := nonBlank?_eq_some.mpr ⟨rfl, notBlank⟩
  simp only [discriminatorValue?, asDiscriminator, Option.bind_some, own]

theorem pinned_asDiscriminator (value : property.discriminatorValue? = some text) :
    Pinned property (asDiscriminator text property) where
  rest := rfl
  type := rfl
  value := by
    rw [value, discriminatorValue?_asDiscriminator (discriminatorValue?_eq_some value)]
  const := by
    rw [value]
    rfl
  extensions := by
    refine ⟨_, _, rfl, Members.get?_set_self _ _ _, Members.get?_set_self _ _ _, ?_, ?_⟩
    · intro key other
      exact Members.get?_set_of_ne (Ne.symm other) _ _
    · intro old found key other
      rw [found, Option.bind_some, Json.members?, Option.getD_some]
      exact Members.get?_set_of_ne (Ne.symm other) _ _

end Property

section Rules

/-- The discriminator is in one place, and there it is changed. -/
theorem exists_updateProperty (found : properties.lookup name = some property) :
    ∃ before behind, properties = before ++ (name, property) :: behind ∧
      name ∉ before.map (·.1) ∧ ∀ change,
        updateProperty name change properties = before ++ (name, change property) :: behind := by
  induction properties with
  | nil => cases found
  | cons first rest ih =>
      obtain ⟨key, schema⟩ := first
      rw [lookup_cons_eq_if] at found
      by_cases here : name = key
      · subst here
        rw [if_pos rfl] at found
        cases found
        exact ⟨[], rest, rfl, List.not_mem_nil, fun change => by rw [updateProperty, if_pos rfl]; rfl⟩
      · rw [if_neg here] at found
        obtain ⟨before, behind, rfl, absent, changed⟩ := ih found
        refine ⟨(key, schema) :: before, behind, rfl, by simp [here, absent], fun change => ?_⟩
        rw [updateProperty, if_neg (Ne.symm here), changed change, List.cons_append]

theorem requires_toldApart (schema : Schema) (properties : List (String × Schema)) (text : String) :
    (discriminatorProperty ∈ schema.required ∧
      (schema.toldApart properties text).required = schema.required) ∨
    (discriminatorProperty ∉ schema.required ∧
      (schema.toldApart properties text).required = schema.required ++ [discriminatorProperty]) := by
  by_cases there : discriminatorProperty ∈ schema.required
  · exact .inl ⟨there, if_pos (List.contains_iff_mem.mpr there)⟩
  · exact .inr ⟨there, if_neg (mt List.contains_iff_mem.mp there)⟩

theorem revised_toldApart (given : schema.properties = some properties)
    (found : properties.lookup discriminatorProperty = some property)
    (value : property.discriminatorValue? = some text) :
    Revised schema (schema.toldApart properties text) where
  rest := rfl
  properties := by
    obtain ⟨before, behind, same, absent, changed⟩ := exists_updateProperty found
    refine ⟨before, property, asDiscriminator text property, behind, ?_, absent, ?_,
      pinned_asDiscriminator value⟩
    · rw [given, same]
    · exact congrArg some (changed (asDiscriminator text))
  required := requires_toldApart schema properties text

/-- A schema that has been told apart is found with the same discriminator, and stays as it is. -/
theorem run_revise_again (object : schema.type = "" ∨ schema.type = "object")
    (found : properties.lookup discriminatorProperty = some property)
    (notBlank : Text.trim text ≠ "") (path : String) :
    (revise path).run.run (schema.toldApart properties text) =
      (.ok (), schema.toldApart properties text) := by
  have search : (schema.toldApart properties text).findDiscriminator path =
      .ok (asDiscriminator text property, text) := by
    refine findDiscriminator_eq_ok.mpr ⟨object, _, rfl, ?_,
      discriminatorValue?_asDiscriminator notBlank property⟩
    rw [lookup_updateProperty, found, Option.map_some]
  have twice : asDiscriminator text ∘ asDiscriminator text = asDiscriminator text :=
    funext (asDiscriminator_asDiscriminator text)
  rw [run_revise, search]
  change (if _ then (Except.ok (), _) else _) = _
  have required : discriminatorProperty ∈ (schema.toldApart properties text).required := by
    obtain ⟨there, same⟩ | ⟨-, same⟩ := requires_toldApart schema properties text
    · rwa [same]
    · rw [same]
      exact List.mem_append_right _ (List.mem_singleton_self _)
  rw [if_pos (.inr rfl), toldApart, if_pos (List.contains_iff_mem.mpr required)]
  simp only [toldApart, Option.getD_some, updateProperty_updateProperty, twice]

end Rules

/-- The rules of variants are applied just to a schema that is a variant, and then they can be applied
again without changing anything; any other schema they leave as it is. -/
theorem revise_all_or_nothing (schema : Schema) (path : String) :
    (schema.IsVariant ∧ ∃ after, (revise path).run.run schema = (.ok (), after) ∧
      Revised schema after ∧ ∀ path, (revise path).run.run after = (.ok (), after)) ∨
    (¬ schema.IsVariant ∧ ∃ fault,
      (revise path).run.run schema = (.error (Keywords.error fault path), schema)) := by
  rw [run_revise]
  cases search : schema.findDiscriminator path with
  | error error =>
      obtain ⟨fault, rfl⟩ := findDiscriminator_eq_error search
      refine .inr ⟨?_, fault, rfl⟩
      rintro ⟨object, property, has, value, -⟩
      obtain ⟨properties, given, found⟩ := property?_eq_some.mp has
      obtain ⟨text, value⟩ := Option.isSome_iff_exists.mp value
      rw [findDiscriminator_eq_ok.mpr ⟨object, properties, given, found, value⟩] at search
      cases search
  | ok found =>
      obtain ⟨property, text⟩ := found
      obtain ⟨object, properties, given, found, value⟩ := findDiscriminator_eq_ok.mp search
      rw [given, Option.getD_some]
      have has := property?_eq_some.mpr ⟨properties, given, found⟩
      by_cases string : property.type = "" ∨ property.type = "string"
      · refine .inl ⟨⟨object, property, has, ?_, string⟩, schema.toldApart properties text,
          if_pos string, revised_toldApart given found value,
          run_revise_again object found (discriminatorValue?_eq_some value)⟩
        rw [value, Option.isSome_some]
      · refine .inr ⟨?_, _, if_neg string⟩
        rintro ⟨-, other, has', -, string'⟩
        rw [has] at has'
        cases has'
        exact string string'

end SchemaForms.Schema
