import SchemaForms.Form.Catalog
import SchemaForms.Form.Discovery
import SchemaForms.Overlay
import SchemaForms.Reference.Expansion
import SchemaForms.Schema.Normalize

/-!
# From a document to its forms

A schema document becomes a catalog of forms: it is read, its references are expanded, an overlay
may change the extensions of the resulting tree, and the tree is normalized. All forms of the
document share the one normalized schema. Which forms there are is read from the document itself,
before references are expanded and the overlay is applied.

The procedures are recursive, and where the stack of their calls ends is not known here. So the
stack is a parameter, about which nothing is assumed; its overflow is reported as an error.
-/

namespace SchemaForms

/-- Which forms are wanted, and what their identifiers and endpoints are made of. -/
structure FormOptions where
  slug : String := ""
  suffix : String := ""
  /-- The only form that is wanted, if this is not empty. -/
  formId : String := ""
deriving DecidableEq, Repr

/-- The stack that calls are made on. If it overflows while a document is expanded and normalized,
it is known which documents have been requested until then. -/
structure Stack where
  overflow? : Document → Option (List Source)

/-- A stack that never overflows. -/
def Stack.unlimited : Stack := ⟨fun _ => none⟩

namespace Catalog

/-- The error of an overflow, at the location of the root document. -/
def nestingError (location : String) : Error :=
  .schema (.limit .nesting) location

/-- The wanted ones of the forms that were found. -/
def select (options : FormOptions) (location : String) (refs : List FormRef) :
    Except Error (List FormRef) :=
  if options.formId = "" then .ok refs
  else match refs.find? fun ref => ref.id = options.formId with
    | some ref => .ok [ref]
    | none => .error (.schema (.discovery (.formNotFound options.formId)) location)

def ofRefs (slug : String) (schema : Schema) (refs : List FormRef) : Catalog :=
  ofPairs (refs.map fun ref => (ref.id, Form.ofRef slug schema ref))

def overlaid (overlay : Option Overlay) (tree : Json) : Except Error Json :=
  match overlay with
  | none => .ok tree
  | some overlay => overlay.applied tree

/-- The members of a schema document, which declares the supported dialect. -/
def readDocument (document : Document) : Except Error Members := do
  let payload ← Dialect.parse document.raw document.location
  Dialect.validate payload document.location
  return payload

/-- The catalog of a document whose references are expanded, with the overlay applied. -/
def ofTree (options : FormOptions) (document : Document) (payload : Members) (tree : Json) :
    Except Error Catalog := do
  let schema ← Schema.normalize "#" {} tree
  let refs ← Discovery.ofMembers payload options.slug options.suffix
  let refs ← select options document.location refs
  return ofRefs options.slug schema refs

/-- The session in which the references of a document are expanded. -/
def sessionOf (loader : Option Loader) (resolveOptions : ResolveOptions) (current : String) :
    Session where
  loader := loader
  options := resolveOptions.effective
  current := current

/-- The members of a document, those that it has when its references are expanded, and the requests
to the loader. -/
def expand (stack : Stack) (loader : Option Loader) (resolveOptions : ResolveOptions)
    (current : String) (document : Document) : Except Error (Members × Members) × List Source :=
  match readDocument document with
  | .error e => (.error e, [])
  | .ok payload =>
    match stack.overflow? document with
    | some requests => (.error (nestingError document.location), requests)
    | none =>
      let session := sessionOf loader resolveOptions current
      let (outcome, state) := session.runRoot document (.obj payload)
      (outcome.map (payload, ·), state.requests)

def run (stack : Stack) (loader : Option Loader) (resolveOptions : ResolveOptions)
    (current : String) (options : FormOptions) (overlay : Option Overlay) (document : Document) :
    Except Error Catalog × List Source :=
  let (expanded, requests) := expand stack loader resolveOptions current document
  let catalog := do
    let (payload, resolved) ← expanded
    let tree ← overlaid overlay (.obj resolved)
    ofTree options document payload tree
  (catalog, requests)

def ofDocument (stack : Stack) (loader : Option Loader) (resolveOptions : ResolveOptions)
    (current : String) (options : FormOptions) (overlay : Option Overlay) (document : Document) :
    Except Error Catalog :=
  (run stack loader resolveOptions current options overlay document).1

end Catalog

end SchemaForms
