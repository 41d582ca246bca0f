import SchemaForms.Form.Use
import SchemaForms.Proofs.Form.Selection
import SchemaForms.Proofs.Overlay.Outside

/-!
# Using an overlay again

What is wanted of a document matters behind the overlay only. So two uses that find the overlay as it
was read differ in what they select, and a form that is listed is selected alone. The overlay is as it
was read in its first use, and in every use if no path leads through an extension; otherwise one use
can change what the next one finds.
-/

namespace SchemaForms

open Memory

namespace Catalog

section Use

variable (stack : Stack) (loader : Option Loader) (resolveOptions : ResolveOptions)
  (current : String) (options : FormOptions) (document : Document)

/-- A use of an overlay that is in memory as it was read gives what the overlay gives. -/
theorem use_eq_ofDocument {stored : Option StoredOverlay} {overlay : Option Overlay}
    {memory : Memory} (held : Option.Rel (StoredOverlay.Holds memory) stored overlay) :
    (use stack loader resolveOptions current options stored document memory).1 =
      ofDocument stack loader resolveOptions current options overlay document := by
  simp only [use, ofDocument, run]
  cases (expand stack loader resolveOptions current document).1 with
  | error error => rfl
  | ok pair =>
      obtain ⟨payload, resolved⟩ := pair
      simp only [bind, Except.bind]
      cases held with
      | none => rfl
      | some held =>
          obtain ⟨later, changed, failure, runs, pure, read⟩ := held.apply (.obj resolved)
          simp only [overlaidInMemory, overlaid, Overlay.applied, runs, pure, read]
          cases failure <;> rfl

/-- So the first use of an overlay gives what the overlay gives. -/
theorem use_stored (overlay : Overlay) (memory : Memory) :
    (use stack loader resolveOptions current options
      (some (StoredOverlay.store overlay.overrides memory).1) document
      (StoredOverlay.store overlay.overrides memory).2).1 =
      ofDocument stack loader resolveOptions current options (some overlay) document :=
  use_eq_ofDocument stack loader resolveOptions current options document
    (.some (StoredOverlay.holds_store overlay memory))

/-- What is wanted matters in the last step only, and not to the memory. -/
theorem use_cases (stored : Option StoredOverlay) (memory : Memory) :
    ∃ later,
      (∃ error, ∀ wanted,
        use stack loader resolveOptions current { options with formId := wanted } stored document
          memory = (.error error, later)) ∨
      ∃ schema refs, named options document = .ok refs ∧ ∀ wanted,
        use stack loader resolveOptions current { options with formId := wanted } stored document
            memory =
          ((select { options with formId := wanted } document.location refs).map
            (ofRefs options.slug schema), later) := by
  simp only [use]
  cases expanded : (expand stack loader resolveOptions current document).1 with
  | error error => exact ⟨memory, .inl ⟨error, fun _ => rfl⟩⟩
  | ok pair =>
      obtain ⟨payload, resolved⟩ := pair
      have read := readDocument_of_expand stack loader resolveOptions current document expanded
      simp only [named, read, bind, Except.bind]
      generalize overlaidInMemory stored (.obj resolved) document.location memory = applied
      obtain ⟨tree, later⟩ := applied
      refine ⟨later, ?_⟩
      cases tree with
      | error error => exact .inl ⟨error, fun _ => rfl⟩
      | ok tree =>
          obtain ⟨error, failed⟩ | ⟨schema, refs, found, runs⟩ :=
            ofTree_cases options document payload tree
          · exact .inl ⟨error, fun wanted => by simp only [failed wanted]⟩
          · exact .inr ⟨schema, refs, found, fun wanted => by simp only [runs wanted]⟩

/-- An overlay none of whose paths leads through an extension is the same behind every use. -/
theorem memory_use_outside {stored : Option StoredOverlay}
    (outside : ∀ overlay ∈ stored, ∀ override ∈ overlay, override.Outside) (memory : Memory) :
    (use stack loader resolveOptions current options stored document memory).2 = memory := by
  simp only [use]
  split
  · rfl
  · exact overlaidInMemory_outside outside _ _ memory

variable {options}

/-- A form that is listed among all forms can be selected, alone, by a call that finds the overlay as
the call for all forms found it. It is then the same form but for the summary and the description,
and it has these in common as well just if the document says the same where it names the form first
and where it names it last. If no path of the overlay leads through an extension, the first call
leaves the overlay as it was, so the next one finds it that way. In any other state of the overlay
nothing but the schema can be different. -/
theorem use_selected (stored : Option StoredOverlay) {memory later : Memory}
    (all : options.formId = "") {catalog : Catalog} {id : String} {form : Form}
    (listed : use stack loader resolveOptions current options stored document memory =
      (.ok catalog, later))
    (mem : (id, form) ∈ catalog.forms) :
    ∃ selected,
      use stack loader resolveOptions current { options with formId := id } stored document memory =
        (.ok { forms := [(id, selected)] }, later) ∧
      selected.id = form.id ∧ selected.method = form.method ∧
      selected.endpoint = form.endpoint ∧ selected.schema = form.schema ∧
      (selected = form ↔ NamedAlike options document id) ∧
      ((∀ overlay ∈ stored, ∀ override ∈ overlay, override.Outside) → later = memory) ∧
      ∀ other only last,
        use stack loader resolveOptions current { options with formId := id } stored document other =
          (.ok only, last) →
        ∃ schema, only = { forms := [(id, { selected with schema := schema })] } := by
  have everything : { options with formId := "" } = options := by
    rw [← all]
  obtain ⟨then', ⟨error, failed⟩ | ⟨schema, refs, found, runs⟩⟩ :=
    use_cases stack loader resolveOptions current options document stored memory
  · have impossible := failed ""
    rw [everything, listed] at impossible
    cases impossible
  · have full := runs ""
    rw [everything, listed, select_all all] at full
    obtain ⟨made, rfl⟩ := Prod.mk.inj full
    obtain rfl := Except.ok.inj made
    obtain ⟨first, selects, own, method, endpoint, one, alike⟩ := exists_selected found mem
    refine ⟨Form.ofRef options.slug schema first, ?_, own, method.symm, endpoint.symm, one.symm,
      alike, ?_, ?_⟩
    · rw [runs id, selects schema]
    · intro outside
      have same := memory_use_outside stack loader resolveOptions current options document outside
        memory
      rwa [listed] at same
    · intro other only last again
      obtain ⟨_, ⟨error, failed⟩ | ⟨schema', refs', found', runs'⟩⟩ :=
        use_cases stack loader resolveOptions current options document stored other
      · rw [failed id] at again
        cases again
      · rw [found] at found'
        obtain rfl := Except.ok.inj found'
        rw [runs' id, selects schema'] at again
        obtain ⟨made, -⟩ := Prod.mk.inj again
        refine ⟨schema', ?_⟩
        rw [← Except.ok.inj made]
        simp only [Form.ofRef]

end Use

end Catalog

namespace Sample

def decorated : StoredOverlay × Memory :=
  StoredOverlay.store [⟨"/", [("x-formgen", .obj [("widget", .str "textarea")])]⟩] []

theorem outside_decorated :
    ∀ overlay ∈ some decorated.1, ∀ override ∈ overlay, override.Outside := by
  rintro _ ⟨⟩ override mem
  obtain rfl := List.mem_singleton.mp mem
  constructor
  · intro tokens read
    have none : Overlay.pathTokens "/" = .ok [] := by decide +kernel
    cases none.symm.trans read
    simp
  · decide +kernel

/-- An overlay that puts in an object, changes the object in it, and then replaces that by another one
of its own. -/
def entangled : StoredOverlay × Memory :=
  StoredOverlay.store [
    ⟨"/", [("x-formgen-a", .obj [("x-formgen-b", .obj [])])]⟩,
    ⟨"/x-formgen-a/x-formgen-b", [("x-admin", .obj [("q", .int 1)])]⟩,
    ⟨"/x-formgen-a", [("x-formgen-b", .obj [])]⟩] []

def single : Document :=
  offering (offer "a" "one")

end Sample

namespace Catalog

/-- The first of two forms is selected with the overlay that has been used for both of them. -/
theorem use_selected_sample :
    ∃ catalog form,
      use .unlimited none {} "/" {} (some Sample.decorated.1) Sample.different Sample.decorated.2 =
        (.ok catalog, Sample.decorated.2) ∧
      ("a", form) ∈ catalog.forms ∧
      use .unlimited none {} "/" { formId := "a" } (some Sample.decorated.1) Sample.different
        Sample.decorated.2 = (.ok { forms := [("a", form)] }, Sample.decorated.2) := by
  have seen : Sample.summaries (use .unlimited none {} "/" {} (some Sample.decorated.1)
      Sample.different Sample.decorated.2).1 = some [("a", "one"), ("b", "two")] := by
    decide +kernel
  cases first : use .unlimited none {} "/" {} (some Sample.decorated.1) Sample.different
      Sample.decorated.2 with
  | mk result later =>
      rw [first] at seen
      obtain ⟨catalog, rfl, texts⟩ := Sample.exists_forms result _ seen
      have text : ("a", "one") ∈ catalog.forms.map fun pair => (pair.1, pair.2.summary) := by
        rw [texts]
        exact List.mem_cons_self
      obtain ⟨⟨id, form⟩, mem, same⟩ := List.mem_map.mp text
      obtain rfl : id = "a" := congrArg Prod.fst same
      obtain ⟨selected, run, -, -, -, -, iff, kept, -⟩ :=
        use_selected .unlimited none {} "/" Sample.different (some Sample.decorated.1) rfl first mem
      have found : named {} Sample.different = .ok [⟨"a", "", "one", ""⟩, ⟨"b", "", "two", ""⟩] :=
        eq_ok_of_toOption (by decide +kernel)
      have alike : NamedAlike {} Sample.different "a" :=
        namedAlike_of_nodup found List.mem_cons_self (by decide +kernel)
      obtain rfl := kept Sample.outside_decorated
      rw [iff.mpr alike] at run
      exact ⟨catalog, form, rfl, mem, run⟩

/-- If a path leads through an extension that the overlay has put in, the overlay may not be the same
behind a use, and another use may find another schema. -/
theorem use_again :
    ∃ form selected,
      (use .unlimited none {} "/" {} (some Sample.entangled.1) Sample.single
        Sample.entangled.2).1 = .ok { forms := [("a", form)] } ∧
      (use .unlimited none {} "/" { formId := "a" } (some Sample.entangled.1) Sample.single
        (use .unlimited none {} "/" {} (some Sample.entangled.1) Sample.single
          Sample.entangled.2).2).1 = .ok { forms := [("a", selected)] } ∧
      (form.schema.extensions.bind fun members => Members.get? members "x-formgen-a") =
        some (.obj [("x-formgen-b", .obj [])]) ∧
      (selected.schema.extensions.bind fun members => Members.get? members "x-formgen-a") =
        some (.obj [("x-formgen-b", .obj [("x-admin", .obj [("q", .int 1)])])]) := by
  obtain ⟨form, listed, before⟩ := Sample.exists_form
    (fun form => form.schema.extensions.bind fun members => Members.get? members "x-formgen-a")
    (use .unlimited none {} "/" {} (some Sample.entangled.1) Sample.single
      Sample.entangled.2).1 "a" (some (.obj [("x-formgen-b", .obj [])])) (by decide +kernel)
  obtain ⟨selected, run, after⟩ := Sample.exists_form
    (fun form => form.schema.extensions.bind fun members => Members.get? members "x-formgen-a")
    (use .unlimited none {} "/" { formId := "a" } (some Sample.entangled.1) Sample.single
      (use .unlimited none {} "/" {} (some Sample.entangled.1) Sample.single
        Sample.entangled.2).2).1
    "a" (some (.obj [("x-formgen-b", .obj [("x-admin", .obj [("q", .int 1)])])]))
    (by decide +kernel)
  exact ⟨form, selected, listed, run, before, after⟩

end Catalog

end SchemaForms
