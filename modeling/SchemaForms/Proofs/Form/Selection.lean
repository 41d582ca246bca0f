import SchemaForms.Form.Normalize
import SchemaForms.Proofs.Form.Catalog
import SchemaForms.Proofs.Session.Keyed

/-!
# Selecting a form

A document may be asked for all of its forms or for one of them. It is read, resolved and normalized
in the same way for both; what is wanted matters only to the references that it makes to its forms.
So a form that is selected has the identifier, the method, the endpoint and the schema that it has
among all forms.

The two runs differ on an identifier that is given more than once: the catalog of all forms holds
the last form with it, while the first one is selected. The forms are the same just if these two say
the same about themselves.
-/

namespace SchemaForms

/-- What a reference says about its form: its summary, or else its title, and its description. -/
def FormRef.words (ref : FormRef) : String × String :=
  (firstNonEmpty (Text.trim ref.summary) (Text.trim ref.title), ref.description)

/-- Of a form of given identifier, endpoint and schema a reference determines just the words. -/
theorem Form.ofRef_eq_iff {slug : String} {schema : Schema} {first second : FormRef}
    (same : first.id = second.id) :
    Form.ofRef slug schema first = Form.ofRef slug schema second ↔ first.words = second.words := by
  simp [Form.ofRef, FormRef.words, same]

namespace Discovery

variable {schema : Members} {slug suffix : String} {ref : FormRef}

/-- A form that is described has the identifier of its description, without blank ends. -/
theorem id_of_readForm {index : Nat} {value : Json} (read : readForm index value = .ok ref) :
    ∃ members, value = .obj members ∧ ref.id = Text.trim (Members.text members "id") ∧
      ref.id ≠ "" := by
  cases value with
  | obj members =>
      simp only [readForm] at read
      split at read
      · cases read
      · rename_i named
        rw [← Except.ok.inj read]
        exact ⟨members, rfl, rfl, named⟩
  | _ => cases read

theorem mem_readForms {index : Nat} {values : List Json} {refs : List FormRef}
    (read : readForms index values = .ok refs) (mem : ref ∈ refs) :
    ∃ index, ∃ value ∈ values, readForm index value = .ok ref := by
  induction values generalizing index refs with
  | nil =>
      rw [← Except.ok.inj read] at mem
      cases mem
  | cons value rest ih =>
      obtain ⟨first, readFirst, read⟩ := except_bind_eq_ok.mp read
      obtain ⟨others, readOthers, read⟩ := except_bind_eq_ok.mp read
      rw [← Except.ok.inj read] at mem
      obtain rfl | mem := List.mem_cons.mp mem
      · exact ⟨index, value, List.mem_cons_self, readFirst⟩
      · obtain ⟨place, other, there, readOther⟩ := ih readOthers mem
        exact ⟨place, other, List.mem_cons_of_mem _ there, readOther⟩

/-- A list of forms is read from an array that is not empty. -/
theorem listed?_eq_some {refs : List FormRef} (listed : listed? schema = .ok (some refs)) :
    ∃ extension forms, Members.get? schema "x-formgen" = some (.obj extension) ∧
      Members.get? extension "forms" = some (.arr forms) ∧ forms ≠ [] ∧
      readForms 0 forms = .ok refs := by
  simp only [listed?] at listed
  split at listed
  · cases listed
  · rename_i extension has
    split at listed
    · cases listed
    · cases listed
    · rename_i forms some there
      obtain ⟨found, read, same⟩ := except_map_eq_ok.mp listed
      obtain rfl := Option.some.inj same
      exact ⟨extension, forms, has, there, some, read⟩
    · cases listed
  · cases listed

theorem mem_listed? {refs : List FormRef} (listed : listed? schema = .ok (some refs))
    (mem : ref ∈ refs) :
    ∃ extension forms members, Members.get? schema "x-formgen" = some (.obj extension) ∧
      Members.get? extension "forms" = some (.arr forms) ∧ Json.obj members ∈ forms ∧
      ref.id = Text.trim (Members.text members "id") ∧ ref.id ≠ "" := by
  obtain ⟨extension, forms, has, there, -, read⟩ := listed?_eq_some listed
  obtain ⟨index, value, inside, readOne⟩ := mem_readForms read mem
  obtain ⟨members, rfl, own, named⟩ := id_of_readForm readOne
  exact ⟨extension, forms, members, has, there, inside, own, named⟩

theorem derivedId_ne_empty {id : String} (derived : derivedId schema slug suffix = .ok id) :
    id ≠ "" := by
  simp only [derivedId] at derived
  split at derived
  · cases derived
  · rename_i named
    rw [← Except.ok.inj derived]
    intro empty
    exact named (String.append_eq_empty_iff.mp empty).1

/-- Every form that is found has an identifier. -/
theorem id_ne_empty {refs : List FormRef} (found : ofMembers schema slug suffix = .ok refs)
    (mem : ref ∈ refs) : ref.id ≠ "" := by
  obtain ⟨list, listed, found⟩ := except_bind_eq_ok.mp found
  cases list with
  | some forms =>
      rw [← Except.ok.inj found] at mem
      obtain ⟨-, -, -, -, -, -, -, named⟩ := mem_listed? listed mem
      exact named
  | none =>
      obtain ⟨id, derived, found⟩ := except_bind_eq_ok.mp found
      rw [← Except.ok.inj found, List.mem_singleton] at mem
      rw [mem]
      exact derivedId_ne_empty derived

end Discovery

namespace Catalog

/-- The last reference with an identifier is one with that identifier. -/
theorem last_spec {refs : List FormRef} {id : String} {last : FormRef}
    (found : (refs.findRev? fun ref => ref.id = id) = some last) : last ∈ refs ∧ last.id = id := by
  rw [List.findRev?_eq_find?_reverse] at found
  constructor
  · exact List.mem_reverse.mp (List.mem_of_find?_eq_some found)
  · simpa using List.find?_some found

/-- There is a first reference with an identifier if there is one at all. -/
theorem exists_first {refs : List FormRef} {ref : FormRef} (mem : ref ∈ refs) :
    ∃ first, (refs.find? fun other => other.id = ref.id) = some first ∧ first.id = ref.id := by
  have some : (refs.find? fun other => other.id = ref.id).isSome = true := by
    rw [List.find?_isSome]
    exact ⟨ref, mem, decide_eq_true rfl⟩
  obtain ⟨first, found⟩ := Option.isSome_iff_exists.mp some
  exact ⟨first, found, by simpa using List.find?_some found⟩

/-- The references to forms that a document makes, before its own references are expanded. -/
def named (options : FormOptions) (document : Document) : Except Error (List FormRef) := do
  Discovery.ofMembers (← readDocument document) options.slug options.suffix

/-- Of the references that a document makes to one form the first and the last say the same. -/
def NamedAlike (options : FormOptions) (document : Document) (id : String) : Prop :=
  ∃ refs first last, named options document = .ok refs ∧
    (refs.find? fun ref => ref.id = id) = some first ∧
    (refs.findRev? fun ref => ref.id = id) = some last ∧ first.words = last.words

/-- A document that names no form twice says the same where it names a form first and last. -/
theorem namedAlike_of_nodup {options : FormOptions} {document : Document} {refs : List FormRef}
    {ref : FormRef} (found : named options document = .ok refs) (mem : ref ∈ refs)
    (distinct : (refs.map FormRef.id).Nodup) : NamedAlike options document ref.id := by
  obtain ⟨first, foundFirst, own⟩ := exists_first mem
  obtain ⟨last, foundLast, own'⟩ := exists_first (List.mem_reverse.mpr mem)
  rw [← List.findRev?_eq_find?_reverse] at foundLast
  have same : first = last :=
    List.inj_on_of_nodup_map distinct (List.mem_of_find?_eq_some foundFirst)
      (last_spec foundLast).1 (own.trans own'.symm)
  exact ⟨refs, first, last, found, foundFirst, foundLast, congrArg FormRef.words same⟩

/-- A catalog has the forms that the last references with their identifiers make. -/
theorem find?_ofRefs (slug : String) (schema : Schema) (refs : List FormRef) (id : String) :
    (ofRefs slug schema refs).find? id =
      (refs.findRev? fun ref => ref.id = id).map (Form.ofRef slug schema) := by
  rw [ofRefs, find?_ofPairs, List.findRev?_eq_find?_reverse, List.findRev?_eq_find?_reverse,
    ← List.map_reverse, List.find?_map, Option.map_map]
  rfl

theorem select_all {options : FormOptions} (all : options.formId = "") (location : String)
    (refs : List FormRef) : select options location refs = .ok refs := by
  rw [select, if_pos all]

/-- One form is selected by the first reference with its identifier. -/
theorem select_first {options : FormOptions} {refs : List FormRef} {first : FormRef}
    (one : options.formId ≠ "")
    (found : (refs.find? fun ref => ref.id = options.formId) = some first) (location : String) :
    select options location refs = .ok [first] := by
  rw [select, if_neg one, found]

theorem id_ne_empty_of_named {options : FormOptions} {document : Document} {refs : List FormRef}
    {ref : FormRef} (found : named options document = .ok refs) (mem : ref ∈ refs) :
    ref.id ≠ "" := by
  obtain ⟨payload, -, found⟩ := except_bind_eq_ok.mp found
  exact Discovery.id_ne_empty found mem

/-- The identifier of a form that is made from some references selects the first of them that has it,
whatever the schema is. What this makes is the same form but for what the first and the last
reference with the identifier say. -/
theorem exists_selected {options : FormOptions} {document : Document} {refs : List FormRef}
    {schema : Schema} {id : String} {form : Form} (found : named options document = .ok refs)
    (mem : (id, form) ∈ (ofRefs options.slug schema refs).forms) :
    ∃ first : FormRef,
      (∀ schema, (select { options with formId := id } document.location refs).map
          (ofRefs options.slug schema) =
        .ok { forms := [(id, Form.ofRef options.slug schema first)] }) ∧
      first.id = form.id ∧ form.method = Form.usualMethod ∧
      form.endpoint = Form.endpointOf options.slug ∧ form.schema = schema ∧
      (Form.ofRef options.slug schema first = form ↔ NamedAlike options document id) := by
  have held : (ofRefs options.slug schema refs).find? id = some form :=
    (distinct_ofPairs _).mem_forms.mp mem
  rw [find?_ofRefs, Option.map_eq_some_iff] at held
  obtain ⟨last, foundLast, rfl⟩ := held
  obtain ⟨memLast, rfl⟩ := last_spec foundLast
  obtain ⟨first, foundFirst, ownFirst⟩ := exists_first memLast
  refine ⟨first, fun schema => ?_, ownFirst, rfl, rfl, rfl, ?_⟩
  · rw [select_first (id_ne_empty_of_named found memLast) foundFirst]
    show Except.ok (ofPairs [(first.id, _)]) = _
    rw [ownFirst]
    rfl
  · rw [Form.ofRef_eq_iff ownFirst]
    constructor
    · intro same
      exact ⟨refs, first, last, found, foundFirst, foundLast, same⟩
    · rintro ⟨refs', first', last', found', foundFirst', foundLast', same⟩
      rw [found] at found'
      obtain rfl := Except.ok.inj found'
      rw [foundFirst] at foundFirst'
      rw [foundLast] at foundLast'
      rw [Option.some.inj foundFirst', Option.some.inj foundLast', same]

section Selection

variable (stack : Stack) (loader : Option Loader) (resolveOptions : ResolveOptions)
  (current : String) (options : FormOptions) (overlay : Option Overlay) (document : Document)

/-- What is wanted matters in the last step only: whatever form of a tree is selected, there is the
same error, or there are the same schema and the same references to select from. -/
theorem ofTree_cases (payload : Members) (tree : Json) :
    (∃ error, ∀ wanted,
      ofTree { options with formId := wanted } document payload tree = .error error) ∨
    ∃ schema refs, Discovery.ofMembers payload options.slug options.suffix = .ok refs ∧ ∀ wanted,
      ofTree { options with formId := wanted } document payload tree =
        (select { options with formId := wanted } document.location refs).map
          (ofRefs options.slug schema) := by
  simp only [ofTree]
  cases Schema.normalize "#" {} tree with
  | error error =>
      left
      exact ⟨error, fun _ => rfl⟩
  | ok schema =>
      cases Discovery.ofMembers payload options.slug options.suffix with
      | error error =>
          left
          exact ⟨error, fun _ => rfl⟩
      | ok refs =>
          right
          exact ⟨schema, refs, rfl, fun _ => rfl⟩

/-- The members that a document is expanded from are its own. -/
theorem readDocument_of_expand {payload resolved : Members}
    (expanded : (expand stack loader resolveOptions current document).1 = .ok (payload, resolved)) :
    readDocument document = .ok payload := by
  rw [expand] at expanded
  split at expanded
  · cases expanded
  · rename_i own read
    split at expanded
    · cases expanded
    · obtain ⟨_, -, same⟩ := except_map_eq_ok.mp expanded
      obtain ⟨rfl, -⟩ := Prod.mk.inj same
      exact read

theorem ofDocument_cases :
    (∃ error, ∀ wanted,
      ofDocument stack loader resolveOptions current { options with formId := wanted } overlay
        document = .error error) ∨
    ∃ schema refs, named options document = .ok refs ∧ ∀ wanted,
      ofDocument stack loader resolveOptions current { options with formId := wanted } overlay
          document =
        (select { options with formId := wanted } document.location refs).map
          (ofRefs options.slug schema) := by
  simp only [ofDocument, run]
  cases expanded : (expand stack loader resolveOptions current document).1 with
  | error error =>
      left
      exact ⟨error, fun _ => rfl⟩
  | ok pair =>
      obtain ⟨payload, resolved⟩ := pair
      have read := readDocument_of_expand stack loader resolveOptions current document expanded
      simp only [named, read, bind, Except.bind]
      cases overlaid overlay (.obj resolved) with
      | error error =>
          left
          exact ⟨error, fun _ => rfl⟩
      | ok tree => exact ofTree_cases options document payload tree

variable {options}

/-- The catalog of all forms is made from all references, and every other run selects from them. -/
theorem refs_of_ofDocument (all : options.formId = "") {catalog : Catalog}
    (listed : ofDocument stack loader resolveOptions current options overlay document = .ok catalog) :
    ∃ schema refs, named options document = .ok refs ∧
      catalog = ofRefs options.slug schema refs ∧ ∀ wanted,
      ofDocument stack loader resolveOptions current { options with formId := wanted } overlay
          document =
        (select { options with formId := wanted } document.location refs).map
          (ofRefs options.slug schema) := by
  have everything : { options with formId := "" } = options := by
    rw [← all]
  obtain ⟨error, failed⟩ | ⟨schema, refs, found, runs⟩ :=
    ofDocument_cases stack loader resolveOptions current options overlay document
  · have impossible := failed ""
    rw [everything, listed] at impossible
    cases impossible
  · have full := runs ""
    rw [everything, listed, select_all all] at full
    exact ⟨schema, refs, found, Except.ok.inj full, runs⟩

/-- A form that is not among all of the forms of a document cannot be selected. -/
theorem ofDocument_unlisted (all : options.formId = "") {catalog : Catalog} {id : String}
    (listed : ofDocument stack loader resolveOptions current options overlay document = .ok catalog)
    (one : id ≠ "") (absent : catalog.find? id = none) :
    ofDocument stack loader resolveOptions current { options with formId := id } overlay document =
      .error (.schema (.discovery (.formNotFound id)) document.location) := by
  obtain ⟨schema, refs, -, rfl, runs⟩ :=
    refs_of_ofDocument stack loader resolveOptions current overlay document all listed
  rw [find?_ofRefs, Option.map_eq_none_iff, List.findRev?_eq_find?_reverse,
    List.find?_eq_none] at absent
  have missing : (refs.find? fun ref => ref.id = id) = none := by
    rw [List.find?_eq_none]
    intro ref mem
    exact absent ref (List.mem_reverse.mpr mem)
  rw [runs id, select, if_neg one, missing]
  rfl

end Selection

end Catalog

namespace Sample

def offering (forms : Octets) : Document where
  source := ⟨.fs, "form.json"⟩
  raw := octets "\x7b\"$schema\":\"https://json-schema.org/" ++ octets "draft/2020-12/schema\"," ++
    octets "\"x-formgen\":\x7b\"forms\":[" ++ forms ++ octets "]\x7d\x7d"
  raw_ne_nil := by simp [octets]

def offer (id summary : String) : Octets :=
  octets "\x7b\"id\":\"" ++ octets id ++ octets "\",\"summary\":\"" ++ octets summary ++
    octets "\"\x7d"

def different : Document :=
  offering (offer "a" "one" ++ octets "," ++ offer "b" "two")

def repeated : Document :=
  offering (offer "a" "one" ++ octets "," ++ offer "a" "two")

def summaries (result : Except Error Catalog) : Option (List (String × String)) :=
  result.toOption.map fun catalog => catalog.forms.map fun pair => (pair.1, pair.2.summary)

theorem exists_forms (result : Except Error Catalog) (texts : List (String × String))
    (same : summaries result = some texts) :
    ∃ catalog, result = .ok catalog ∧
      catalog.forms.map (fun pair => (pair.1, pair.2.summary)) = texts := by
  obtain ⟨catalog, made, same⟩ := Option.map_eq_some_iff.mp same
  exact ⟨catalog, eq_ok_of_toOption made, same⟩

/-- A catalog of one form, seen through one part of it. -/
theorem exists_form {α : Type} (view : Form → α) (result : Except Error Catalog) (id : String)
    (part : α)
    (same : (result.toOption.map fun catalog => catalog.forms.map fun pair =>
      (pair.1, view pair.2)) = some [(id, part)]) :
    ∃ form, result = .ok { forms := [(id, form)] } ∧ view form = part := by
  obtain ⟨⟨forms⟩, made, same⟩ := Option.map_eq_some_iff.mp same
  obtain ⟨⟨own, form⟩, rfl, parts⟩ := List.map_eq_singleton_iff.mp same
  obtain ⟨rfl, seen⟩ := Prod.mk.inj parts
  exact ⟨form, eq_ok_of_toOption made, seen⟩

end Sample

namespace Catalog

/-- Of two forms with one identifier the first is selected, but the last is among all forms. -/
theorem ofDocument_repeated :
    ∃ form selected,
      ofDocument .unlimited none {} "/" {} none Sample.repeated = .ok { forms := [("a", form)] } ∧
      ofDocument .unlimited none {} "/" { formId := "a" } none Sample.repeated =
        .ok { forms := [("a", selected)] } ∧
      form.summary = "two" ∧ selected.summary = "one" := by
  obtain ⟨form, listed, last⟩ := Sample.exists_form Form.summary
    (ofDocument .unlimited none {} "/" {} none Sample.repeated) "a" "two" (by decide +kernel)
  obtain ⟨selected, run, first⟩ := Sample.exists_form Form.summary
    (ofDocument .unlimited none {} "/" { formId := "a" } none Sample.repeated) "a" "one"
    (by decide +kernel)
  exact ⟨form, selected, listed, run, last, first⟩

end Catalog

end SchemaForms
