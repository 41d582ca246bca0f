import SchemaForms.Proofs.Form.Selection
import SchemaForms.Proofs.Json.Texts
import SchemaForms.Proofs.Session.Log
import SchemaForms.Proofs.Text.Trimmed

/-!
# Identifiers of forms

The identifier of a form is read from the list of forms, or is made from that of the schema or from a
slug, with a suffix. It is a key of the catalog then, it is trimmed once more where the catalog is
listed, and the forms are looked up by what comes of that. All of this is consistent, for an
identifier is trimmed from the beginning and two of them always differ in their code points.
-/

namespace SchemaForms

namespace Discovery

variable {schema : Members} {slug suffix : String} {refs : List FormRef} {ref : FormRef}

/-- The suffix of derived identifiers is neither empty nor blank at an end. -/
theorem trim_suffixOf (wanted : String) :
    Text.trim (suffixOf wanted) = suffixOf wanted ∧ suffixOf wanted ≠ "" := by
  unfold suffixOf
  simp only
  split
  · decide +kernel
  · rename_i some
    unfold withLeading
    split
    · exact ⟨Text.trim_trim wanted, some⟩
    · have own := Text.trim_eq_self_iff.mp (Text.trim_trim wanted)
      refine ⟨?_, ?_⟩
      · rw [Text.trim_eq_self_iff, String.toList_ofList]
        exact own.cons (by decide)
      · intro empty
        simpa using congrArg String.toList empty

/-- A derived identifier is neither empty nor blank at an end. -/
theorem trim_derivedId {id : String} (derived : derivedId schema slug suffix = .ok id) :
    Text.trim id = id := by
  simp only [derivedId] at derived
  split at derived
  · cases derived
  · rename_i some
    rw [← Except.ok.inj derived]
    obtain ⟨own, ne⟩ := trim_suffixOf suffix
    refine Text.trim_append ?_ own some ne
    unfold firstNonEmpty
    split <;> exact Text.trim_trim _

/-- A document either lists its forms or has a single one. -/
theorem ofMembers_cases (found : ofMembers schema slug suffix = .ok refs) :
    listed? schema = .ok (some refs) ∨
      ∃ id, derivedId schema slug suffix = .ok id ∧ refs = [{ id := id }] := by
  obtain ⟨list, listed, found⟩ := except_bind_eq_ok.mp found
  cases list with
  | some forms =>
      rw [← Except.ok.inj found]
      exact .inl listed
  | none =>
      obtain ⟨id, derived, found⟩ := except_bind_eq_ok.mp found
      exact .inr ⟨id, derived, (Except.ok.inj found).symm⟩

theorem ofMembers_ne_nil (found : ofMembers schema slug suffix = .ok refs) : refs ≠ [] := by
  obtain listed | ⟨id, -, rfl⟩ := ofMembers_cases found
  · obtain ⟨extension, forms, -, -, some, read⟩ := listed?_eq_some listed
    rintro rfl
    cases forms with
    | nil => exact some rfl
    | cons value rest =>
        obtain ⟨first, -, read⟩ := except_bind_eq_ok.mp read
        obtain ⟨others, -, read⟩ := except_bind_eq_ok.mp read
        cases read
  · simp

theorem trim_id (found : ofMembers schema slug suffix = .ok refs) (mem : ref ∈ refs) :
    Text.trim ref.id = ref.id := by
  obtain listed | ⟨id, derived, rfl⟩ := ofMembers_cases found
  · obtain ⟨-, -, members, -, -, -, own, -⟩ := mem_listed? listed mem
    rw [own, Text.trim_trim]
  · rw [List.mem_singleton.mp mem]
    exact trim_derivedId derived

/-- The identifiers that a document lists are spelled if its texts are. -/
theorem spelled_id (texts : Json.SpelledMembers schema) (listed : listed? schema = .ok (some refs))
    (mem : ref ∈ refs) : Text.Spelled ref.id.toList := by
  obtain ⟨extension, forms, members, has, there, inside, own, -⟩ := mem_listed? listed mem
  have outer : Json.SpelledMembers extension := texts.get? has
  have list : Json.SpelledElements forms := outer.get? there
  have inner : Json.SpelledMembers members := Json.spelledElements_iff.mp list _ inside
  rw [own]
  apply Text.Spelled.trim
  unfold Members.text
  cases found : Members.get? members "id" with
  | none => exact .nil
  | some value =>
      cases value with
      | str text => exact inner.get? found
      | _ => exact .nil

end Discovery

theorem startsWith_withLeading (c : Char) (text : String) :
    Text.startsWith c (withLeading c text) = true := by
  unfold withLeading
  split
  · assumption
  · simp [Text.startsWith]

namespace Catalog

variable {options : FormOptions} {refs chosen : List FormRef} {slug key : String} {schema : Schema}
variable {form : Form}

theorem select_subset {location : String} (selected : select options location refs = .ok chosen)
    (some : refs ≠ []) : chosen ≠ [] ∧ chosen ⊆ refs := by
  unfold select at selected
  split at selected
  · rw [← Except.ok.inj selected]
    exact ⟨some, List.Subset.refl refs⟩
  · split at selected
    · rename_i ref found
      rw [← Except.ok.inj selected]
      exact ⟨by simp, by simpa using List.mem_of_find?_eq_some found⟩
    · cases selected

/-- The forms of a catalog are those of the references that it is made from. -/
theorem mem_ofRefs (mem : (key, form) ∈ (ofRefs slug schema refs).forms) :
    ∃ ref ∈ refs, ref.id = key ∧ form = Form.ofRef slug schema ref := by
  have held := (distinct_ofPairs _).mem_forms.mp mem
  rw [← ofRefs, find?_ofRefs, Option.map_eq_some_iff] at held
  obtain ⟨last, found, rfl⟩ := held
  obtain ⟨there, own⟩ := last_spec found
  exact ⟨last, there, own, rfl⟩

theorem ofRefs_ne_nil (some : refs ≠ []) : (ofRefs slug schema refs).forms ≠ [] := by
  obtain ⟨ref, mem⟩ := List.exists_mem_of_ne_nil refs some
  obtain ⟨last, found, -⟩ := exists_first (List.mem_reverse.mpr mem)
  rw [← List.findRev?_eq_find?_reverse] at found
  have held :
      (ofRefs slug schema refs).find? ref.id = Option.some (Form.ofRef slug schema last) := by
    rw [find?_ofRefs, found, Option.map_some]
  exact List.ne_nil_of_mem ((distinct_ofPairs _).mem_forms.mpr held)

/-- The identifiers of the forms of a catalog, from their keys to where they are listed. -/
structure Consistent (catalog : Catalog) : Prop where
  nonempty : catalog.forms ≠ []
  distinct : catalog.Distinct
  /-- A key is the identifier of its form, and is neither blank nor blank at an end. -/
  keys : ∀ key form, (key, form) ∈ catalog.forms → form.id = key ∧ key ≠ "" ∧ Text.trim key = key
  /-- There is one reference to each form. -/
  listed : catalog.refs.Perm (catalog.forms.map fun pair => refOf pair.1 pair.2)
  increasing : (catalog.refs.map FormRef.id).Pairwise fun first second =>
    nameBefore first second = true
  /-- A form is found by the identifier of its reference. -/
  found : ∀ key form, (key, form) ∈ catalog.forms →
    catalog.find? (refOf key form).id = some form
  /-- No form is missing where they are listed. -/
  rows : (catalog.refs.filterMap fun ref => (catalog.find? ref.id).map fun form => (ref.id, form)) =
    sortByName catalog.forms
  /-- All forms have one schema. -/
  schema : ∀ key form key' form', (key, form) ∈ catalog.forms → (key', form') ∈ catalog.forms →
    form.schema = form'.schema
  endpoint : ∀ key form, (key, form) ∈ catalog.forms → Text.startsWith '/' form.endpoint = true

theorem id_refOf (own : form.id = key) (trimmed : Text.trim key = key) :
    (refOf key form).id = key := by
  simp only [refOf, own, trimmed, firstNonEmpty, ite_self]

section Listing

variable {catalog : Catalog}
  (keys : ∀ key form, (key, form) ∈ catalog.forms → form.id = key ∧ key ≠ "" ∧ Text.trim key = key)

include keys

theorem ids_refs : catalog.refs.map FormRef.id = (sortByName catalog.forms).map Prod.fst := by
  rw [refs, List.map_map]
  apply List.map_congr_left
  rintro ⟨key, form⟩ mem
  obtain ⟨own, -, trimmed⟩ := keys key form (mem_sortByName.mp mem)
  exact id_refOf own trimmed

theorem rows_refs (distinct : catalog.Distinct) :
    (catalog.refs.filterMap fun ref => (catalog.find? ref.id).map fun form => (ref.id, form)) =
      sortByName catalog.forms := by
  have each : ∀ pair ∈ sortByName catalog.forms,
      (catalog.find? (refOf pair.1 pair.2).id).map (fun form => ((refOf pair.1 pair.2).id, form)) =
        some pair := by
    rintro ⟨key, form⟩ mem
    have there := mem_sortByName.mp mem
    obtain ⟨own, -, trimmed⟩ := keys key form there
    rw [id_refOf own trimmed, distinct.mem_forms.mp there, Option.map_some]
  rw [refs, List.filterMap_map]
  exact (List.filterMap_congr each).trans List.filterMap_some

end Listing

/-- What identifiers of references have to be for a catalog to be consistent: they are neither blank
nor blank at an end, and different ones differ in their code points. -/
structure Identified (refs : List FormRef) : Prop where
  named : ∀ ref ∈ refs, ref.id ≠ ""
  trimmed : ∀ ref ∈ refs, Text.trim ref.id = ref.id
  differ : ∀ ref ∈ refs, ∀ other ∈ refs,
    Text.codesOf ref.id = Text.codesOf other.id → ref.id = other.id

theorem Identified.subset (h : Identified refs) (some : chosen ⊆ refs) : Identified chosen where
  named ref mem := h.named ref (some mem)
  trimmed ref mem := h.trimmed ref (some mem)
  differ ref mem other mem' := h.differ ref (some mem) other (some mem')

theorem Identified.consistent (h : Identified refs) (any : refs ≠ []) :
    (ofRefs slug schema refs).Consistent := by
  have distinct : (ofRefs slug schema refs).Distinct := distinct_ofPairs _
  have keys : ∀ key form, (key, form) ∈ (ofRefs slug schema refs).forms →
      form.id = key ∧ key ≠ "" ∧ Text.trim key = key := by
    intro key form mem
    obtain ⟨ref, there, rfl, rfl⟩ := mem_ofRefs mem
    exact ⟨rfl, h.named ref there, h.trimmed ref there⟩
  have differ : ((ofRefs slug schema refs).forms.map fun pair => Text.codesOf pair.1).Nodup := by
    have codes : (((ofRefs slug schema refs).forms.map Prod.fst).map Text.codesOf).Nodup := by
      refine List.Nodup.map_on ?_ distinct
      intro key mem key' mem' same
      obtain ⟨⟨_, form⟩, there, rfl⟩ := List.mem_map.mp mem
      obtain ⟨⟨_, form'⟩, there', rfl⟩ := List.mem_map.mp mem'
      obtain ⟨ref, own, rfl, -⟩ := mem_ofRefs there
      obtain ⟨ref', own', rfl, -⟩ := mem_ofRefs there'
      exact h.differ ref own ref' own' same
    rwa [List.map_map] at codes
  constructor
  · exact ofRefs_ne_nil any
  · exact distinct
  · exact keys
  · exact (perm_sortByName _).map _
  · rw [ids_refs keys]
    exact increasing_sortByName differ
  · intro key form mem
    obtain ⟨own, -, trimmed⟩ := keys key form mem
    rw [id_refOf own trimmed]
    exact distinct.mem_forms.mp mem
  · exact rows_refs keys distinct
  · intro key form key' form' mem mem'
    obtain ⟨_, -, -, rfl⟩ := mem_ofRefs mem
    obtain ⟨_, -, -, rfl⟩ := mem_ofRefs mem'
    rfl
  · intro key form mem
    obtain ⟨_, -, -, rfl⟩ := mem_ofRefs mem
    simp only [Form.ofRef, Form.endpointOf, startsWith_withLeading]

/-- The references that a document makes to its forms are identified. -/
theorem identified_of_named {options : FormOptions} {document : Document}
    (found : named options document = .ok refs) : Identified refs ∧ refs ≠ [] := by
  obtain ⟨payload, read, found⟩ := except_bind_eq_ok.mp found
  obtain ⟨members, parsed, read⟩ := except_bind_eq_ok.mp read
  obtain ⟨-, -, read⟩ := except_bind_eq_ok.mp read
  obtain rfl := Except.ok.inj read
  have texts : Json.SpelledMembers members :=
    Json.spelledTexts_of_ofOctets (Session.object_of_parse parsed)
  refine ⟨⟨fun ref => Discovery.id_ne_empty found, fun ref => Discovery.trim_id found, ?_⟩,
    Discovery.ofMembers_ne_nil found⟩
  intro ref mem other mem' same
  obtain listed | ⟨id, -, rfl⟩ := Discovery.ofMembers_cases found
  · have own := Discovery.spelled_id texts listed mem
    have own' := Discovery.spelled_id texts listed mem'
    exact String.toList_inj.mp (own.eq_of_codes own' same)
  · rw [List.mem_singleton.mp mem, List.mem_singleton.mp mem']

/-- The forms that a run finds are consistent: their identifiers are the keys of the catalog, without
blank ends, and each is listed once, in increasing order, and found by what is listed. -/
theorem ofDocument_consistent (stack : Stack) (loader : Option Loader) (resolveOptions : ResolveOptions)
    (current : String) (options : FormOptions) (overlay : Option Overlay) (document : Document)
    (catalog : Catalog)
    (made : ofDocument stack loader resolveOptions current options overlay document = .ok catalog) :
    catalog.Consistent := by
  obtain ⟨error, failed⟩ | ⟨schema, refs, found, runs⟩ :=
    ofDocument_cases stack loader resolveOptions current options overlay document
  · rw [failed options.formId] at made
    cases made
  · rw [runs options.formId] at made
    obtain ⟨chosen, selected, rfl⟩ := except_map_eq_ok.mp made
    obtain ⟨identified, any⟩ := identified_of_named found
    obtain ⟨some, subset⟩ := select_subset selected any
    exact (identified.subset subset).consistent some

end Catalog

/-- A document that lists its forms out of order, and one of them with a blank in front. -/
def Sample.unordered : Document :=
  offering (offer " b" "two" ++ octets "," ++ offer "a" "one")

/-- The forms of the sample are listed in order, by identifiers that are trimmed. -/
theorem Catalog.ofDocument_consistent_sample :
    ∃ catalog, ofDocument .unlimited none {} "/" {} none Sample.unordered = .ok catalog ∧
      catalog.Consistent ∧ catalog.refs.map FormRef.id = ["a", "b"] := by
  have listed : (ofDocument .unlimited none {} "/" {} none Sample.unordered).toOption.map
      (fun catalog => catalog.refs.map FormRef.id) = some ["a", "b"] := by decide +kernel
  obtain ⟨catalog, made, ids⟩ := Option.map_eq_some_iff.mp listed
  have made := eq_ok_of_toOption made
  exact ⟨catalog, made, ofDocument_consistent .unlimited none {} "/" {} none _ catalog made, ids⟩

end SchemaForms
