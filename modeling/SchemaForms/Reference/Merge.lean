import SchemaForms.Dialect

/-!
# Members beside a reference

An object with a `$ref` stands for the target of the reference. Its title, description and default
and its vendor extensions take the place of those of the target; no other member may stand beside
the reference.
-/

namespace SchemaForms.Reference

/-- The members that may stand beside a reference, besides vendor extensions. -/
def allowedSiblings : List String := ["title", "description", "default"]

/-- A member of this name may stand beside a reference. -/
def isAllowedSibling (key : String) : Bool :=
  allowedSiblings.contains key || Dialect.isVendorExtension key

/-- The members beside the reference. -/
def siblings (node : Members) : Members :=
  Members.erase node "$ref"

/-- Put one sibling into the target. -/
def mergeSibling (place : String) (target : Members) (sibling : String × Json) :
    Except Error Members :=
  if isAllowedSibling sibling.1 then .ok (Members.set target sibling.1 sibling.2)
  else .error (.schema (.reference (.unsupportedSibling sibling.1)) place)

/-- The target of a reference with the members beside the reference put into it. -/
def merge (target : Json) (node : Members) (place : String) : Except Error Json :=
  match target with
  | .obj members => (siblings node).foldlM (mergeSibling place) members |>.map .obj
  | _ =>
    if (siblings node).isEmpty then .ok target
    else .error (.schema (.reference .targetNotObject) place)

end SchemaForms.Reference
