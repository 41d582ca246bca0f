import SchemaForms.Proofs.Session.Effect
import SchemaForms.Schema.Discriminator

/-!
# The rules of variants as one step

`revise` changes a schema step by step. Seen from outside it does so at once or not at all: where a
rule cannot be applied nothing has been changed yet (`run_revise`), and otherwise the schema is told
apart from others by its discriminator (`toldApart`).
-/

namespace SchemaForms.Schema

variable {schema property : Schema} {properties : List (String × Schema)} {name text path : String}
variable {change other : Schema → Schema}

/-- The discriminator with its value as a constant text that is read only. -/
def asDiscriminator (value : String) (property : Schema) : Schema :=
  { property with
    type := "string"
    const := some (.str value)
    extensions := some (withReadOnly property.extensions) }

/-- What the rules of variants make of a schema, given the text of its discriminator. -/
def toldApart (schema : Schema) (properties : List (String × Schema)) (text : String) : Schema :=
  { schema with
    properties := some (updateProperty discriminatorProperty (asDiscriminator text) properties)
    required :=
      if schema.required.contains discriminatorProperty then schema.required
      else schema.required ++ [discriminatorProperty] }

theorem updateProperty_updateProperty (name : String) (change other : Schema → Schema)
    (properties : List (String × Schema)) :
    updateProperty name other (updateProperty name change properties) =
      updateProperty name (other ∘ change) properties := by
  induction properties with
  | nil => rfl
  | cons first rest ih =>
      obtain ⟨key, schema⟩ := first
      by_cases here : key = name
      · simp [updateProperty, here]
      · simp [updateProperty, here, ih]

/-- Only what becomes of the property itself counts. -/
theorem updateProperty_congr (found : properties.lookup name = some property)
    (same : change property = other property) :
    updateProperty name change properties = updateProperty name other properties := by
  induction properties with
  | nil => cases found
  | cons first rest ih =>
      obtain ⟨key, schema⟩ := first
      rw [List.lookup_cons] at found
      rw [updateProperty, updateProperty]
      by_cases here : key = name
      · rw [beq_iff_eq.mpr here.symm] at found
        rw [if_pos here, if_pos here, Option.some.inj found, same]
      · rw [beq_eq_false_iff_ne.mpr (Ne.symm here)] at found
        rw [if_neg here, if_neg here, ih found]

theorem findDiscriminator_eq_ok :
    schema.findDiscriminator path = .ok (property, text) ↔
      (schema.type = "" ∨ schema.type = "object") ∧
        ∃ properties, schema.properties = some properties ∧
          properties.lookup discriminatorProperty = some property ∧
          property.discriminatorValue? = some text := by
  constructor
  · intro search
    unfold findDiscriminator at search
    simp only at search
    split at search
    · cases search
    · rename_i object
      split at search
      · cases search
      · cases search
      · rename_i properties _ given
        split at search
        · cases search
        · rename_i found
          split at search
          · cases search
          · rename_i value
            cases search
            exact ⟨by simpa [Classical.or_iff_not_imp_left] using object, properties, given, found, value⟩
  · rintro ⟨object, properties, given, found, value⟩
    unfold findDiscriminator
    simp only
    rw [if_neg (by simpa [Classical.or_iff_not_imp_left] using object)]
    cases properties with
    | nil => cases found
    | cons first rest => simp only [given, found, value]

/-- Where the discriminator is not found, the error is about the schema. -/
theorem findDiscriminator_eq_error {error : Error}
    (search : schema.findDiscriminator path = .error error) :
    ∃ fault, error = Keywords.error fault path := by
  unfold findDiscriminator at search
  simp only at search
  split at search
  · exact ⟨_, (Except.error.inj search).symm⟩
  · split at search
    · exact ⟨_, (Except.error.inj search).symm⟩
    · exact ⟨_, (Except.error.inj search).symm⟩
    · split at search
      · exact ⟨_, (Except.error.inj search).symm⟩
      · split at search
        · exact ⟨_, (Except.error.inj search).symm⟩
        · cases search

section Run

theorem run_pin (given : schema.properties = some properties)
    (found : properties.lookup discriminatorProperty = some property) (text path : String) :
    (pin property text path).run.run schema =
      if property.type = "" ∨ property.type = "string" then
        (.ok (), schema.toldApart properties text)
      else
        (.error (Keywords.error (.discriminatorNotString discriminatorProperty) path), schema) := by
  unfold pin
  by_cases absent : property.type = ""
  · have steps : asDiscriminator text = asReadOnly ∘ asConstant text ∘ asText := rfl
    rw [if_pos absent, if_pos (.inl absent), toldApart, steps, ← updateProperty_updateProperty,
      ← updateProperty_updateProperty]
    change (Except.ok (), _) = (Except.ok (), _)
    simp only [given, Option.map_some]
  · by_cases isText : property.type = "string"
    · have same : asDiscriminator text property = (asReadOnly ∘ asConstant text) property := by
        simp only [asDiscriminator, Function.comp_apply, asConstant, asReadOnly, isText]
      rw [if_neg absent, if_neg (Classical.not_not.mpr isText), if_pos (.inr isText), toldApart,
        updateProperty_congr found same, ← updateProperty_updateProperty]
      change (Except.ok (), _) = (Except.ok (), _)
      simp only [given, Option.map_some]
    · rw [if_neg absent, if_pos isText, if_neg (by simp [absent, isText])]
      rfl

/-- Either a rule cannot be applied, and then nothing has been changed, or the schema is told apart by
its discriminator. -/
theorem run_revise (schema : Schema) (path : String) :
    (revise path).run.run schema =
      match schema.findDiscriminator path with
      | .error error => (.error error, schema)
      | .ok (property, text) =>
        if property.type = "" ∨ property.type = "string" then
          (.ok (), schema.toldApart (schema.properties.getD []) text)
        else
          (.error (Keywords.error (.discriminatorNotString discriminatorProperty) path), schema) := by
  unfold revise
  rw [ExceptT.run_bind, StateT.run_bind]
  show StateT.run (ExceptT.run ((liftM (schema.findDiscriminator path) :
    Revision (Schema × String)) >>= _)) schema = _
  cases search : schema.findDiscriminator path with
  | error error => rfl
  | ok found =>
      obtain ⟨property, text⟩ := found
      obtain ⟨-, properties, given, found, -⟩ := findDiscriminator_eq_ok.mp search
      rw [given]
      exact run_pin given found text path

/-- The schema behind the rules, without the steps in between. -/
theorem discriminate_eq (schema : Schema) (path : String) :
    schema.discriminate path =
      match schema.findDiscriminator path with
      | .error error => .error error
      | .ok (property, text) =>
        if property.type = "" ∨ property.type = "string" then
          .ok (schema.toldApart (schema.properties.getD []) text)
        else .error (Keywords.error (.discriminatorNotString discriminatorProperty) path) := by
  rw [discriminate, run_revise]
  cases schema.findDiscriminator path with
  | error error => rfl
  | ok found =>
      obtain ⟨property, text⟩ := found
      by_cases string : property.type = "" ∨ property.type = "string"
      · simp only [if_pos string]
      · simp only [if_neg string]

/-- The rules of variants can be applied if the schema is an object with a text as discriminator; the
discriminator is then changed, and required. -/
theorem discriminate_eq_ok {result : Schema} :
    schema.discriminate path = .ok result ↔
      (schema.type = "" ∨ schema.type = "object") ∧
        ∃ properties property text, schema.properties = some properties ∧
          properties.lookup discriminatorProperty = some property ∧
          (property.type = "" ∨ property.type = "string") ∧
          property.discriminatorValue? = some text ∧ schema.toldApart properties text = result := by
  rw [discriminate_eq]
  constructor
  · intro run
    split at run
    · cases run
    · rename_i property text search
      obtain ⟨object, properties, given, found, value⟩ := findDiscriminator_eq_ok.mp search
      split at run
      · rename_i string
        rw [given] at run
        exact ⟨object, properties, property, text, given, found, string, value, Except.ok.inj run⟩
      · cases run
  · rintro ⟨object, properties, property, text, given, found, string, value, rfl⟩
    rw [findDiscriminator_eq_ok.mpr ⟨object, properties, given, found, value⟩]
    simp only
    rw [if_pos string, given]
    rfl

end Run

end SchemaForms.Schema
