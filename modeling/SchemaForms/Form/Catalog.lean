import SchemaForms.Form.Basic

/-!
# Catalogs of forms

A catalog holds forms by their identifiers, in the order in which they were first put in. It is
listed in the order of the identifiers.
-/

namespace SchemaForms

structure Catalog where
  forms : List (String × Form) := []
deriving Repr

namespace Catalog

/-- Put a form into a list, in the place of the one with its key if there is one. -/
def insertIn (key : String) (form : Form) : List (String × Form) → List (String × Form)
  | [] => [(key, form)]
  | (other, old) :: rest =>
    if other = key then (other, form) :: rest else (other, old) :: insertIn key form rest

def insert (catalog : Catalog) (key : String) (form : Form) : Catalog :=
  ⟨insertIn key form catalog.forms⟩

def find? (catalog : Catalog) (key : String) : Option Form :=
  catalog.forms.lookup key

/-- The catalog of forms with keys. Of several forms with one key the last one counts. -/
def ofPairs (pairs : List (String × Form)) : Catalog :=
  pairs.foldl (fun catalog pair => catalog.insert pair.1 pair.2) {}

/-- The reference to a form under a key, which stands in for a blank identifier. -/
def refOf (key : String) (form : Form) : FormRef where
  id := firstNonEmpty (Text.trim form.id) key
  title := Text.trim form.summary
  summary := form.summary
  description := form.description

def refs (catalog : Catalog) : List FormRef :=
  (sortByName catalog.forms).map fun (key, form) => refOf key form

/-- The catalog as a JSON value: an object with the forms by key. -/
def toJson (catalog : Catalog) : Json :=
  .obj [("forms", .obj (catalog.forms.map fun (key, form) => (key, form.toJson)))]

@[simp] theorem find?_insert_self (catalog : Catalog) (key : String) (form : Form) :
    (catalog.insert key form).find? key = some form := by
  obtain ⟨forms⟩ := catalog
  unfold insert find?
  induction forms with
  | nil => simp [insertIn]
  | cons pair rest ih =>
    obtain ⟨other, old⟩ := pair
    by_cases h : other = key
    · simp [insertIn, h]
    · have hb : (key == other) = false := by simpa using Ne.symm h
      simpa [insertIn, h, List.lookup_cons, hb] using ih

end Catalog

end SchemaForms
