import SchemaForms.Form.Normalize
import SchemaForms.Overlay.Stored

/-!
# Using an overlay again

When a document is normalized with an overlay from memory, its tree is stored behind the overlay, the
overlay is applied there, and the tree is read. What the overlay is then is what its next use begins
with. If all cells are as they were, nothing refers to the new ones from them, and these are given up.
-/

namespace SchemaForms.Catalog

/-- What is kept of a memory when the new cells are not referred to any more. -/
def kept (before after : Memory) : Memory :=
  if before.isPrefixOf after then before else after

/-- The tree with the overlay applied, if there is one, and the memory then. Nothing would be read of
a tree that contains itself, which no use of an overlay leads to. -/
def overlaidInMemory (overlay : Option StoredOverlay) (tree : Json) (location : String)
    (memory : Memory) : Except Error Json × Memory :=
  match overlay with
  | none => (.ok tree, memory)
  | some overlay =>
    let (root, stored) := Memory.store tree memory
    let (after, failure) := overlay.apply root stored
    let result :=
      match failure, after.read? root with
      | some e, _ => .error e
      | none, some tree => .ok tree
      | none, none => .error (nestingError location)
    (result, kept memory after)

/-- The catalog of a document for an overlay from memory, and the memory then. -/
def use (stack : Stack) (loader : Option Loader) (resolveOptions : ResolveOptions)
    (current : String) (options : FormOptions) (overlay : Option StoredOverlay)
    (document : Document) (memory : Memory) : Except Error Catalog × Memory :=
  match (expand stack loader resolveOptions current document).1 with
  | .error e => (.error e, memory)
  | .ok (payload, resolved) =>
    let (tree, memory) := overlaidInMemory overlay (.obj resolved) document.location memory
    (tree >>= ofTree options document payload, memory)

end SchemaForms.Catalog
