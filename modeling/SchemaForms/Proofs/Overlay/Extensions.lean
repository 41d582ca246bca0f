import SchemaForms.Overlay
import SchemaForms.Proofs.Schema.Plain

/-!
# Overlays touch only extensions

An override writes vendor extensions into one object. If that object is a schema node, the tree
behind the override has the same plain form as the tree before it, and so it is normalized alike but
for extensions. What carries over to a whole overlay is the plain form.

`SchemaTokens` says which paths lead to schema nodes. Whether a tree has a node there, and whether
it is an object, is for the overlay to find out.
-/

namespace SchemaForms

open Json

section Set

variable {members children : Members} {key name : String} {old new : Json} {elements : List Json}

theorem plainMembers_set (has : Members.get? members key = some old)
    (same : plainMember key new = plainMember key old) :
    plainMembers (Members.set members key new) = plainMembers members := by
  induction members with
  | nil => cases has
  | cons member rest ih =>
      obtain ⟨name, value⟩ := member
      rw [Members.get?_cons] at has
      rw [Members.set]
      split
      · rename_i here
        rw [if_pos here] at has
        rw [plainMembers, plainMembers, here, same, Option.some.inj has]
      · rename_i there
        rw [if_neg there] at has
        rw [plainMembers, plainMembers, ih has]

theorem plainMembers_set_of_vendor (vendor : Dialect.isVendorExtension key = true)
    (members : Members) (value : Json) :
    plainMembers (Members.set members key value) = plainMembers members := by
  induction members with
  | nil => simp [Members.set, plainMembers, vendor]
  | cons member rest ih =>
      obtain ⟨name, old⟩ := member
      rw [Members.set]
      split
      · rename_i here
        rw [plainMembers, plainMembers, here, if_pos vendor, if_pos vendor]
      · rw [plainMembers, plainMembers, ih]

theorem plainNamed_set (has : Members.get? children name = some old) (same : new.plain = old.plain) :
    plainNamed (Members.set children name new) = plainNamed children := by
  induction children with
  | nil => cases has
  | cons child rest ih =>
      obtain ⟨key, value⟩ := child
      rw [Members.get?_cons] at has
      rw [Members.set]
      split
      · rename_i here
        rw [if_pos here] at has
        rw [plainNamed, plainNamed, same, Option.some.inj has]
      · rename_i there
        rw [if_neg there] at has
        rw [plainNamed, plainNamed, ih has]

theorem plainElements_set {index : Nat} (has : elements[index]? = some old)
    (same : new.plain = old.plain) :
    plainElements (elements.set index new) = plainElements elements := by
  induction elements generalizing index with
  | nil => cases has
  | cons element rest ih =>
      cases index with
      | zero =>
          cases has
          rw [List.set_cons_zero, plainElements, plainElements, same]
      | succ index =>
          rw [List.set_cons_succ, plainElements, plainElements, ih has]

end Set

/-- The tokens lead from a schema node to a schema node. -/
inductive SchemaTokens : List String → Prop
  | root : SchemaTokens []
  | named {key name : String} {rest : List String} (map : key ∈ schemaMaps)
      (below : SchemaTokens rest) : SchemaTokens (key :: name :: rest)
  | items {rest : List String} (below : SchemaTokens rest) : SchemaTokens ("items" :: rest)
  | variant {index : String} {rest : List String} (below : SchemaTokens rest) :
      SchemaTokens ("oneOf" :: index :: rest)

namespace Overlay

section Edit

variable {change : Members → Members} {token key : String} {tokens rest : List String}
variable {value edited old new : Json} {members : Members}

/-- A change below a token is made in the member or the element that the token means. -/
theorem edit_cons_eq_ok (run : edit change (token :: rest) value = .ok edited) :
    (∃ members old new, value = .obj members ∧ Members.get? members token = some old ∧
      edit change rest old = .ok new ∧ edited = .obj (Members.set members token new)) ∨
    ∃ elements index old new, value = .arr elements ∧
      Pointer.index token elements.length = .ok (some index) ∧ elements[index]? = some old ∧
      edit change rest old = .ok new ∧ edited = .arr (elements.set index new) := by
  cases value with
  | obj members =>
      rw [edit] at run
      split at run
      · rename_i old has
        obtain ⟨new, below, rfl⟩ := except_map_eq_ok.mp run
        exact .inl ⟨members, old, new, rfl, has, below, rfl⟩
      · cases run
  | arr elements =>
      rw [edit] at run
      split at run
      · cases run
      · cases run
      · rename_i index found
        split at run
        · rename_i old has
          obtain ⟨new, below, rfl⟩ := except_map_eq_ok.mp run
          exact .inr ⟨elements, index, old, new, rfl, found, has, below, rfl⟩
        · cases run
  | _ => cases run

/-- No array has an element at the name of a member that holds schemas. -/
theorem index_of_keyword (holds : key ∈ "items" :: schemaHolders) (length : Nat) :
    Pointer.index key length = .ok none := by
  have noDigits : ∀ key ∈ "items" :: schemaHolders, key.toList.mapM Text.asciiDigit? = none := by
    decide
  rw [Pointer.index, noDigits key holds]

/-- A change below a member that holds schemas keeps the plain form if it keeps that of the
member. -/
theorem plain_of_edit_member (holds : key ∈ "items" :: schemaHolders)
    (run : edit change (key :: rest) value = .ok edited)
    (below : ∀ old new, edit change rest old = .ok new → plainMember key new = plainMember key old) :
    edited.plain = value.plain := by
  obtain ⟨members, old, new, rfl, has, inner, rfl⟩ | ⟨_, _, _, _, _, found, _⟩ :=
    edit_cons_eq_ok run
  · exact congrArg Json.obj (plainMembers_set has (below old new inner))
  · rw [index_of_keyword holds] at found
    cases found

/-- A change below one of several schemas keeps the plain form of them all if it keeps that of the
one. -/
theorem plainMember_of_edit (holder : key ∈ schemaHolders)
    (run : edit change (token :: rest) old = .ok new)
    (below : ∀ old new, edit change rest old = .ok new → new.plain = old.plain) :
    plainMember key new = plainMember key old := by
  obtain ⟨children, child, changed, rfl, has, inner, rfl⟩ |
    ⟨elements, index, element, changed, rfl, _, has, inner, rfl⟩ := edit_cons_eq_ok run
  · rw [plainMember, plainMember, if_pos holder, if_pos holder,
      plainNamed_set has (below child changed inner)]
  · rw [plainMember, plainMember, if_pos holder, if_pos holder,
      plainElements_set has (below element changed inner)]

theorem holder_of_map : ∀ key ∈ schemaMaps, key ∈ schemaHolders := by
  decide

/-- A change of extensions at a schema node keeps the plain form. -/
theorem plain_of_edit (kept : ∀ members, plainMembers (change members) = plainMembers members)
    (lead : SchemaTokens tokens) (run : edit change tokens value = .ok edited) :
    edited.plain = value.plain := by
  induction lead generalizing value edited with
  | root =>
      cases value with
      | obj members =>
          cases run
          exact congrArg Json.obj (kept members)
      | _ => cases run
  | named map lead ih =>
      have holder := holder_of_map _ map
      refine plain_of_edit_member (List.mem_cons_of_mem _ holder) run fun old new run => ?_
      exact plainMember_of_edit holder run fun _ _ run => ih run
  | items lead ih =>
      refine plain_of_edit_member List.mem_cons_self run fun old new run => ?_
      rw [plainMember_items, plainMember_items, ih run]
  | variant lead ih =>
      refine plain_of_edit_member (by simp [schemaHolders]) run fun old new run => ?_
      exact plainMember_of_edit (by simp [schemaHolders]) run fun _ _ run => ih run

end Edit

section Vendor

variable {key path : String} {index : Nat} {value : Json} {overlay : Overlay}

theorem isVendorExtension_of_isMerged (merged : isMerged key = true) :
    Dialect.isVendorExtension key = true := by
  have all : ∀ key ∈ mergedKeys, Dialect.isVendorExtension key = true := by decide
  exact all key (List.contains_iff_mem.mp merged)

theorem isVendorExtension_of_isSingleValue (single : isSingleValue key = true) :
    Dialect.isVendorExtension key = true := by
  have fronts : ∀ beginning ∈ singleValueBeginnings, beginning.toList.take 2 = ['x', '-'] := by
    decide
  have notBlank : Text.isBlank 'x' = false := by decide
  obtain ⟨beginning, mem, isFront⟩ := List.any_eq_true.mp single
  obtain ⟨rest, same⟩ := List.isPrefixOf_iff_prefix.mp isFront
  have start : key.toList = 'x' :: '-' :: (beginning.toList.drop 2 ++ rest) := by
    have front := fronts beginning mem
    rw [← same, ← List.take_append_drop 2 beginning.toList, front, List.drop_left']
    · rfl
    · rfl
  simp [Dialect.isVendorExtension, start, notBlank]

/-- A member of this name is an extension that an overlay carries. -/
def isExtension (key : String) : Bool :=
  isMerged key || isSingleValue key

theorem isVendorExtension_of_isExtension (extension : isExtension key = true) :
    Dialect.isVendorExtension key = true := by
  obtain merged | single := (Bool.or_eq_true _ _).mp extension
  · exact isVendorExtension_of_isMerged merged
  · exact isVendorExtension_of_isSingleValue single

/-- The members are extensions that an overlay carries. -/
def AllExtensions (members : Members) : Prop :=
  ∀ member ∈ members, isExtension member.1 = true

theorem allExtensions_of_readExtensions {members extensions : Members}
    (run : readExtensions path members = .ok extensions) : AllExtensions extensions := by
  induction members generalizing extensions with
  | nil =>
      cases run
      exact List.forall_mem_nil _
  | cons member rest ih =>
      obtain ⟨key, value⟩ := member
      unfold readExtensions at run
      split at run
      · rename_i merged
        cases value with
        | obj updates =>
            obtain ⟨others, tail, rfl⟩ := except_map_eq_ok.mp run
            exact List.forall_mem_cons.mpr ⟨(Bool.or_eq_true _ _).mpr (.inl merged), ih tail⟩
        | _ => cases run
      · split at run
        · rename_i single
          obtain ⟨others, tail, rfl⟩ := except_map_eq_ok.mp run
          exact List.forall_mem_cons.mpr ⟨(Bool.or_eq_true _ _).mpr (.inr single), ih tail⟩
        · exact ih run

theorem allExtensions_of_readOverride {override : Override}
    (run : readOverride index value = .ok override) : AllExtensions override.extensions := by
  cases value with
  | obj members =>
      simp only [readOverride] at run
      split at run
      · cases run
      · obtain ⟨extensions, read, rfl⟩ := except_map_eq_ok.mp run
        exact allExtensions_of_readExtensions read
  | _ => cases run

theorem allExtensions_of_readOverrides {elements : List Json} {overrides : List Override}
    (run : readOverrides index elements = .ok overrides) :
    ∀ override ∈ overrides, AllExtensions override.extensions := by
  induction elements generalizing index overrides with
  | nil =>
      cases run
      exact List.forall_mem_nil _
  | cons element rest ih =>
      simp only [readOverrides, except_bind_eq_ok] at run
      obtain ⟨override, first, others, tail, last⟩ := run
      cases last
      split
      · exact ih tail
      · exact List.forall_mem_cons.mpr ⟨allExtensions_of_readOverride first, ih tail⟩

/-- An overlay that was read carries nothing else. -/
theorem allExtensions_of_ofJson (run : ofJson value = .ok overlay) :
    ∀ override ∈ overlay.overrides, AllExtensions override.extensions := by
  cases value with
  | obj members =>
      simp only [ofJson] at run
      split at run
      · cases run
      · split at run
        · cases run
        · split at run
          · cases run
            exact List.forall_mem_nil _
          · obtain ⟨overrides, read, rfl⟩ := except_map_eq_ok.mp run
            exact allExtensions_of_readOverrides read
          · cases run
  | _ => cases run

/-- The overlay is what octets or a text write. -/
def Written (overlay : Overlay) : Prop :=
  (∃ raw, ofOctets raw = .ok overlay) ∨ ∃ text, ofText text = .ok overlay

theorem Written.exists_ofJson (written : overlay.Written) : ∃ value, ofJson value = .ok overlay := by
  have read {result : Except Json.ReadFault Json} (run : ofRead result = .ok overlay) :
      ∃ value, ofJson value = .ok overlay := by
    cases result with
    | error fault => cases run
    | ok value => exact ⟨value, run⟩
  obtain ⟨raw, run⟩ | ⟨text, run⟩ := written
  · rw [ofOctets] at run
    split at run
    · cases run
    · exact read run
  · rw [ofText] at run
    split at run
    · cases run
    · exact read run

theorem Written.allExtensions (written : overlay.Written) :
    ∀ override ∈ overlay.overrides, AllExtensions override.extensions := by
  obtain ⟨value, run⟩ := written.exists_ofJson
  exact allExtensions_of_ofJson run

end Vendor

section Overrides

variable {override : Override} {overrides : List Override} {root edited : Json}

theorem applyExtension_plain {extension : String × Json}
    (vendor : Dialect.isVendorExtension extension.1 = true) (members : Members) :
    plainMembers (applyExtension members extension) = plainMembers members := by
  obtain ⟨key, value⟩ := extension
  simp only [applyExtension]
  split
  · exact plainMembers_set_of_vendor vendor members _
  · exact plainMembers_set_of_vendor vendor members _

theorem foldl_applyExtension_plain {extensions : Members} (all : AllExtensions extensions)
    (members : Members) :
    plainMembers (extensions.foldl applyExtension members) = plainMembers members := by
  induction extensions generalizing members with
  | nil => rfl
  | cons extension rest ih =>
      obtain ⟨first, others⟩ := List.forall_mem_cons.mp all
      rw [List.foldl_cons, ih others, applyExtension_plain (isVendorExtension_of_isExtension first)]

/-- The override's path leads to a schema node, if it leads anywhere. -/
def LeadsToSchema (override : Override) : Prop :=
  ∀ tokens, pathTokens override.path = .ok tokens → SchemaTokens tokens

theorem plain_of_applyOverride (all : AllExtensions override.extensions)
    (leads : LeadsToSchema override) (run : applyOverride override root = .ok edited) :
    edited.plain = root.plain := by
  unfold applyOverride at run
  split at run
  · cases run
  · rename_i tokens isPath
    exact plain_of_edit (foldl_applyExtension_plain all) (leads tokens isPath)
      (except_mapError_eq_ok.mp run)

/-- A row of overrides keeps the plain form, also where one of them fails. -/
theorem plain_of_applyOverrides
    (all : ∀ override ∈ overrides, AllExtensions override.extensions)
    (leads : ∀ override ∈ overrides, LeadsToSchema override) :
    (applyOverrides overrides root).1.plain = root.plain := by
  induction overrides generalizing root with
  | nil => rfl
  | cons override rest ih =>
      obtain ⟨first, others⟩ := List.forall_mem_cons.mp all
      obtain ⟨lead, leads⟩ := List.forall_mem_cons.mp leads
      unfold applyOverrides
      cases run : applyOverride override root with
      | ok edited =>
          show (applyOverrides rest edited).1.plain = root.plain
          rw [ih others leads, plain_of_applyOverride first lead run]
      | error fault => rfl

theorem apply_plain {overlay : Overlay} (written : overlay.Written)
    (leads : ∀ override ∈ overlay.overrides, LeadsToSchema override) (root : Json) :
    (overlay.apply root).1.plain = root.plain := by
  have kept : (applyOverrides overlay.overrides root).1.plain = root.plain :=
    plain_of_applyOverrides written.allExtensions leads
  cases root with
  | obj members =>
      cases members with
      | nil => rfl
      | cons member rest => exact kept
  | _ => exact kept

end Overrides

/-- An overlay whose paths lead to schema nodes changes nothing but extensions in the schema of a
tree: behind it, the tree is refused with the same error, or accepted with a schema that differs in
extensions only. -/
theorem normalize_applied {overlay : Overlay} (written : overlay.Written)
    (leads : ∀ override ∈ overlay.overrides, LeadsToSchema override) {root : Members}
    {edited : Json} (run : overlay.applied (.obj root) = .ok edited) (path : String)
    (context : NodeContext) :
    (Schema.normalize path context edited).map Schema.bare =
      (Schema.normalize path context (.obj root)).map Schema.bare := by
  apply Schema.normalize_of_plain
  have plain := apply_plain written leads (.obj root)
  rw [applied] at run
  split at run
  · rename_i tree applies
    cases run
    rw [applies] at plain
    exact plain
  · cases run

namespace Sample

def root : Members :=
  [("items", .obj [("oneOf", .arr
    [.obj [("properties", .obj [("_type", .obj [("const", .str "a")])])]])])]

def text : String :=
  "\x7b\"$schema\":\"x-ui-overlay/v1\",\"overrides\":[\x7b\"path\":" ++
    "\"/items/oneOf/0/properties/_type\",\"x-formgen\":\x7b\"readonly\":0\x7d\x7d]\x7d"

def override : Override where
  path := "/items/oneOf/0/properties/_type"
  extensions := [("x-formgen", .obj [("readonly", .int 0)])]

def overlay : Overlay := ⟨[override]⟩

theorem written : overlay.Written := by
  have read : (ofText text).toOption = some overlay := by decide +kernel
  exact .inr ⟨text, eq_ok_of_toOption read⟩

theorem leads : ∀ override ∈ overlay.overrides, LeadsToSchema override := by
  have found : (pathTokens override.path).toOption =
      some ["items", "oneOf", "0", "properties", "_type"] := by
    decide +kernel
  have one : overlay.overrides = [override] := rfl
  rw [one, List.forall_mem_singleton]
  intro tokens isPath
  rw [isPath] at found
  cases found
  exact .items (.variant (.named (by simp [schemaMaps]) .root))

end Sample

/-- The overlay changes the tree, but not the schema, where the discriminator is read only. -/
theorem normalize_applied_sample :
    Sample.overlay.Written ∧ (∀ override ∈ Sample.overlay.overrides, LeadsToSchema override) ∧
      ∃ edited, edited ≠ .obj Sample.root ∧
        Sample.overlay.applied (.obj Sample.root) = .ok edited ∧
        (Schema.normalize "#" {} edited).map Schema.bare =
          (Schema.normalize "#" {} (.obj Sample.root)).map Schema.bare := by
  have applies : (Sample.overlay.applied (.obj Sample.root)).toOption.any
      (· ≠ .obj Sample.root) = true := by
    decide +kernel
  obtain ⟨edited, run, changed⟩ := (Option.any_eq_true _ _).mp applies
  have run := eq_ok_of_toOption run
  exact ⟨Sample.written, Sample.leads, edited, by simpa using changed, run,
    normalize_applied Sample.written Sample.leads run "#" {}⟩

end Overlay

end SchemaForms
