import SchemaForms.Proofs.Pointer.Addressed
import SchemaForms.Proofs.Schema.Resolved

/-!
# Reports point at the node

A report on a schema carries the path of the node that is at fault. `NodeAt` says where the nodes of a
value are, by the tokens on the way to them, and what each of them may and has to be. If names are
known and legible, the path of a report leads to one of these nodes; and that node, normalized alone
at the same path, is reported in the same way.

What is reported of a node is either found at the node itself, or was reported of one below it before.
So the induction goes along the nodes, and the path is carried down from the root.
-/

namespace SchemaForms.Schema

/-- The nodes of a value, at the ends of rows of tokens, each with its context: that of the last step
that leads to it. -/
inductive NodeAt (root : Json) : List String → NodeContext → Json → Prop
  | root : NodeAt root [] {} root
  | named {row : List String} {context : NodeContext} {members children : Members}
      {key name : String} {node : Json} (outer : NodeAt root row context (.obj members))
      (map : key ∈ schemaMaps) (has : Members.get? members key = some (.obj children))
      (child : Members.get? children name = some node) :
      NodeAt root (row ++ [key, name]) {} node
  | items {row : List String} {context : NodeContext} {members : Members} {node : Json}
      (outer : NodeAt root row context (.obj members))
      (has : Members.get? members "items" = some node) :
      NodeAt root (row ++ ["items"]) .items node
  | variant {row : List String} {context : NodeContext} {members : Members} {elements : List Json}
      {number : Nat} {node : Json} (outer : NodeAt root row context (.obj members))
      (has : Members.get? members "oneOf" = some (.arr elements))
      (element : elements[number]? = some node) :
      NodeAt root (row ++ ["oneOf", toString number]) .variant node

variable {root node : Json} {row : List String} {context : NodeContext}

/-- A node is reached by its tokens, and so is what lies below it. -/
theorem NodeAt.leads (h : NodeAt root row context node) (known : root.Addressable) :
    Pointer.Leads root row node ∧ node.Addressable := by
  induction h with
  | root => exact ⟨.here root, known⟩
  | named _ _ has child ih =>
      obtain ⟨outer, known⟩ := ih
      have below := (known.leads_member has).trans ((known.get? has).leads_member child)
      exact ⟨outer.trans below, (known.get? has).get? child⟩
  | items _ has ih =>
      obtain ⟨outer, known⟩ := ih
      exact ⟨outer.trans (known.leads_member has), known.get? has⟩
  | variant _ has element ih =>
      obtain ⟨outer, known⟩ := ih
      have below := (known.leads_member has).trans (.element element)
      exact ⟨outer.trans below, (known.get? has).getElem? element⟩

/-- The path of what lies at the end of a row. -/
def pathOf (row : List String) : String :=
  "#" ++ Pointer.written row

/-- The path of what lies further along a row is that of the row as a whole. -/
theorem join_pathOf {more : List String} {inner : Json} (below : Pointer.Leads node more inner) :
    Pointer.join (pathOf row) more = pathOf (row ++ more) := by
  have ne : pathOf row ≠ "" := by simp [pathOf]
  rw [below.join_eq ne, pathOf, pathOf, Pointer.written_append, String.append_assoc]

theorem join_join_pathOf {first second : String} {inner : Json}
    (below : Pointer.Leads node [first, second] inner) :
    Pointer.join (Pointer.join (pathOf row) [first]) [second] = pathOf (row ++ [first, second]) := by
  have ne : pathOf row ≠ "" := by simp [pathOf]
  rw [← Pointer.join_cons ne, join_pathOf below]

/-- If the error is a report on a schema, it is one at the end of the row. -/
def IsAt (row : List String) (error : Error) : Prop :=
  ∀ fault path, error = Keywords.error fault path → path = pathOf row

theorem isAt_error (fault : NormalizationFault) (row : List String) :
    IsAt row (Keywords.error fault (pathOf row)) :=
  fun _ _ same => (Error.schema.inj same).2.symm

theorem isAt_of_own {node : Json} {error : Error} (own : NodeError node (pathOf row) error) :
    IsAt row error := by
  cases own with
  | keyword => exact isAt_error _ row
  | overflow | unshown => exact nofun

/-- The error is that of a node of the value, normalized at its own path. -/
def Offends (root : Json) (error : Error) : Prop :=
  ∃ row context node, NodeAt root row context node ∧
    normalize (pathOf row) context node = .error error ∧ IsAt row error

/-- What lies below a node reports what nodes of the value do, if that is so for each of its parts. -/
theorem partsOf_offends {members : Members} (known : root.Addressable)
    (outer : NodeAt root row context (.obj members))
    (below : Below (fun node => ∀ row context, NodeAt root row context node →
      Reports (Offends root) (normalize (pathOf row) context node)) members)
    {allowed : Error → Prop} (imp : ∀ error, Offends root error → allowed error) :
    (partsOf (pathOf row) members).Report allowed members where
  named key map children has outcome mem := by
    obtain ⟨-, known⟩ := outer.leads known
    rw [named_partsOf (by simpa using map) has, normalizeNamed_eq_map] at mem
    obtain ⟨⟨name, child⟩, inside, rfl⟩ := List.mem_map.mp mem
    have found := (known.get? has).has_of_mem inside
    have leads := (known.leads_member has).trans ((known.get? has).leads_member found)
    simp only [join_join_pathOf leads]
    exact (below.named key map children has _ inside _ _ (outer.named map has found)).mono imp
  items item has outcome found := by
    obtain ⟨-, known⟩ := outer.leads known
    cases (lookup_items has).symm.trans found
    rw [join_pathOf (known.leads_member has)]
    exact (below.items _ has _ _ (outer.items has)).mono imp
  listed elements has outcome mem := by
    obtain ⟨-, known⟩ := outer.leads known
    rw [listed_partsOf has] at mem
    obtain ⟨number, element, found, rfl⟩ := mem_normalizeVariants mem
    have leads := (known.leads_member has).trans (Pointer.Leads.element found)
    rw [Nat.zero_add, join_join_pathOf leads]
    have inside := List.mem_of_getElem? found
    exact (below.listed elements has element inside _ _ (outer.variant has found)).mono imp

/-- Every error in normalizing a node is that of a node of the value. -/
theorem normalize_offends (known : root.Addressable) (node : Json) :
    ∀ row context, NodeAt root row context node →
      Reports (Offends root) (normalize (pathOf row) context node) := by
  induction node using Json.node_induction with
  | node members below =>
      intro row context outer error failed
      -- The check that fails is one of the node's own, or something below it has failed.
      have reported : Reports (fun error => IsAt row error ∨ Offends root error)
          (normalize (pathOf row) context (.obj members)) := by
        apply assemble_reports
        · intro error own
          exact .inl (isAt_of_own own)
        · exact partsOf_offends known outer below fun error => .inr
        · intro ref has
          obtain ⟨text, shown⟩ | ⟨unshown, -⟩ :=
            Keywords.showing_cases .unresolvedReference ref (pathOf row)
          · rw [shown]
            exact .inl (isAt_error _ row)
          · rw [unshown]
            exact .inl nofun
      obtain own | offends := reported error failed
      · exact ⟨row, context, _, outer, failed, own⟩
      · exact offends
  | leaf value scalar =>
      intro row context outer error failed
      have own : IsAt row error := by
        cases value with
        | obj members => exact absurd rfl (scalar members)
        | null | bool | int | double | str | arr =>
            rw [← Except.error.inj failed]
            exact isAt_error _ row
      exact ⟨row, context, _, outer, failed, own⟩

/-- A report on a schema points at the node that is at fault. Behind its `#` the path is a pointer to
one of the nodes of the value, and this node, normalized at that path in the context of the last step
that leads to it, is reported in the same way. Names have to be legible for that. -/
theorem normalize_points {value : Json} (distinct : value.Distinct) (legible : value.LegibleNames)
    {fault : NormalizationFault} {path : String}
    (failed : normalize "#" {} value = .error (.schema (.normalization fault) path)) :
    ∃ row context node, NodeAt value row context node ∧ path = "#" ++ Pointer.written row ∧
      resolvePointer value (Pointer.written row) "" = .ok node ∧
      normalize path context node = .error (.schema (.normalization fault) path) := by
  have known : value.Addressable := ⟨distinct, legible⟩
  have start : pathOf [] = "#" := by simp [pathOf]
  rw [← start] at failed
  obtain ⟨row, context, node, place, again, own⟩ :=
    normalize_offends known value [] {} .root _ failed
  obtain rfl : path = pathOf row := own fault path rfl
  have found := (place.leads known).1.resolves (.inl rfl) (rfl : resolvePointer value "" "" = _) ""
  rw [String.empty_append] at found
  exact ⟨row, context, node, place, rfl, found, again⟩

namespace Sample

/-- The items have two variants. The second one has a property, but none that tells it apart. -/
def untold : Json :=
  .obj [("properties", .obj [("a/b", .obj [("items", .obj [("oneOf", .arr [
    .obj [("properties", .obj [("_type", .obj [("const", .str "x")])])],
    .obj [("properties", .obj [("size", .obj [("type", .str "integer")])])]])])])])]

theorem untold_distinct : untold.Distinct := by
  simp [untold, Json.Distinct, Json.DistinctMembers, Json.DistinctElements, Members.keys]

end Sample

/-- The discriminator is missed when all that lies below the variant has been normalized. -/
theorem normalize_points_sample :
    let path := "#/properties/a~1b/items/oneOf/1"
    ∃ fault, normalize "#" {} Sample.untold = .error (.schema (.normalization fault) path) ∧
      Sample.untold.LegibleNames ∧
      ∃ row context node, NodeAt Sample.untold row context node ∧
        path = "#" ++ Pointer.written row ∧
        resolvePointer Sample.untold (Pointer.written row) "" = .ok node ∧
        normalize path context node = .error (.schema (.normalization fault) path) := by
  intro path
  have legible : Sample.untold.LegibleNames := by decide +kernel
  have ends : (match normalize "#" {} Sample.untold with
      | .ok _ => none
      | .error error => some error) =
        some (Keywords.error (.variantWithoutDiscriminator discriminatorProperty) path) := by decide +kernel
  cases run : normalize "#" {} Sample.untold with
  | ok schema => simp [run] at ends
  | error error =>
      obtain rfl : error = _ := by simpa [run] using ends
      exact ⟨_, rfl, legible, normalize_points Sample.untold_distinct legible run⟩

end SchemaForms.Schema
