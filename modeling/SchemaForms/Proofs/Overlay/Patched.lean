import SchemaForms.Proofs.Json.Distinct
import SchemaForms.Proofs.Json.Steps
import SchemaForms.Proofs.Overlay.Extensions

/-!
# Trees with extensions put in

An overlay puts extensions into objects of a tree, one override after another. Seen from outside, all
that counts is which extensions each object is given, and in which order. `patch` puts them into all
objects at once, and `Patched` says what can be seen of it at each place of the tree: the elements of
arrays and the members of objects are where they were, but for the extensions that have been put in.

Extensions are data. No place inside of one is given anything, and `Outside` tells such places apart.
-/

namespace SchemaForms

namespace Overlay

section Members

variable {members extensions : Members} {key : String}

def objectAt (members : Members) (key : String) : Members :=
  ((Members.get? members key).bind Json.members?).getD []

/-- The members of all objects that extensions of a name are, in order. -/
def updatesOf (extensions : Members) (key : String) : Members :=
  extensions.flatMap fun extension =>
    if extension.1 = key then extension.2.members?.getD [] else []

theorem nodup_keys_objectAt (distinct : Json.DistinctMembers members) (key : String) :
    (Members.keys (objectAt members key)).Nodup := by
  unfold objectAt
  cases has : Members.get? members key with
  | none => exact List.nodup_nil
  | some value =>
      cases value with
      | obj inner => exact (distinct.get? has).1
      | _ => exact List.nodup_nil

theorem isExtension_of_isMerged (merged : isMerged key = true) : isExtension key = true :=
  (Bool.or_eq_true _ _).mpr (.inl merged)

theorem updatesOf_cons (extension : String × Json) (rest : Members) (key : String) :
    updatesOf (extension :: rest) key =
      (if extension.1 = key then extension.2.members?.getD [] else []) ++ updatesOf rest key := rfl

theorem updatesOf_eq_nil (absent : key ∉ Members.keys extensions) : updatesOf extensions key = [] := by
  refine List.flatMap_eq_nil_iff.mpr fun extension mem => if_neg fun same => absent ?_
  exact same ▸ List.mem_map_of_mem mem

def putAll (members extensions : Members) : Members :=
  extensions.foldl applyExtension members

theorem putAll_cons (members : Members) (extension : String × Json) (rest : Members) :
    putAll members (extension :: rest) = putAll (applyExtension members extension) rest := rfl

theorem putAll_append (members first second : Members) :
    putAll members (first ++ second) = putAll (putAll members first) second :=
  List.foldl_append

/-- What an extension becomes beside the members of an object. -/
def placed (members : Members) (extension : String × Json) : Json :=
  if isMerged extension.1 then
    .obj (Members.setAll (objectAt members extension.1) (extension.2.members?.getD []))
  else extension.2

theorem applyExtension_eq (members : Members) (extension : String × Json) :
    applyExtension members extension = Members.set members extension.1 (placed members extension) := by
  obtain ⟨key, value⟩ := extension
  simp only [applyExtension, placed, objectAt]
  split <;> rfl

theorem placed_congr {others : Members} {extension : String × Json}
    (same : Members.get? members extension.1 = Members.get? others extension.1) :
    placed members extension = placed others extension := by
  unfold placed objectAt
  rw [same]

theorem keys_putAll (members extensions : Members) :
    Members.keys (putAll members extensions) = Members.keys (Members.setAll members extensions) := by
  induction extensions generalizing members with
  | nil => rfl
  | cons extension rest ih =>
      rw [putAll_cons, ih, Members.setAll_cons, applyExtension_eq]
      exact Members.keys_setAll_congr (Members.keys_set_congr rfl _ _ _) rest

/-- An extension that is merged is the object that was there, with the objects of all extensions of
its name put in. -/
theorem get?_putAll_of_isMerged (merged : isMerged key = true) (members extensions : Members) :
    Members.get? (putAll members extensions) key =
      if key ∈ Members.keys extensions then
        some (.obj (Members.setAll (objectAt members key) (updatesOf extensions key)))
      else Members.get? members key := by
  induction extensions generalizing members with
  | nil => rfl
  | cons extension rest ih =>
      obtain ⟨name, value⟩ := extension
      rw [putAll_cons, ih, applyExtension_eq, Members.keys_cons, updatesOf_cons]
      by_cases same : name = key
      · subst same
        have own : Members.get? (Members.set members name (placed members (name, value))) name =
            some (.obj (Members.setAll (objectAt members name) (value.members?.getD []))) := by
          rw [Members.get?_set_self, placed, if_pos merged]
        rw [objectAt, own, if_pos List.mem_cons_self, if_pos rfl, Members.setAll_append]
        split
        · rfl
        · rename_i absent
          rw [updatesOf_eq_nil absent]
          rfl
      · have ne : key ≠ name := Ne.symm same
        rw [objectAt, Members.get?_set_of_ne same, ← objectAt, if_neg same, List.nil_append]
        simp only [List.mem_cons, ne, false_or]

/-- An extension that replaces is the last one of its name. -/
theorem get?_putAll_of_not_isMerged (single : isMerged key = false) (members extensions : Members) :
    Members.get? (putAll members extensions) key =
      (Members.get? extensions.reverse key).or (Members.get? members key) := by
  induction extensions generalizing members with
  | nil => rfl
  | cons extension rest ih =>
      obtain ⟨name, value⟩ := extension
      rw [putAll_cons, ih, applyExtension_eq, List.reverse_cons, Members.get?_append,
        Option.or_assoc, Members.get?_cons, Members.get?_nil]
      by_cases same : name = key
      · subst same
        rw [if_pos rfl, Members.get?_set_self, placed, if_neg (by simp [single])]
        rfl
      · rw [if_neg same, Members.get?_set_of_ne same]
        rfl

theorem get?_putAll_of_not_isExtension (all : AllExtensions extensions)
    (other : isExtension key = false) (members : Members) :
    Members.get? (putAll members extensions) key = Members.get? members key := by
  induction extensions generalizing members with
  | nil => rfl
  | cons extension rest ih =>
      obtain ⟨first, all⟩ := List.forall_mem_cons.mp all
      have ne : extension.1 ≠ key := fun same => by simp [same, other] at first
      rw [putAll_cons, ih all, applyExtension_eq, Members.get?_set_of_ne ne]

/-- A member that is there and is no extension may be set before or after extensions are put in. -/
theorem set_putAll (all : AllExtensions extensions) (other : isExtension key = false)
    (there : key ∈ Members.keys members) (value : Json) :
    Members.set (putAll members extensions) key value =
      putAll (Members.set members key value) extensions := by
  induction extensions generalizing members with
  | nil => rfl
  | cons extension rest ih =>
      obtain ⟨first, all⟩ := List.forall_mem_cons.mp all
      have ne : extension.1 ≠ key := fun same => by simp [same, other] at first
      have kept : placed (Members.set members key value) extension = placed members extension :=
        placed_congr (Members.get?_set_of_ne (Ne.symm ne) members value)
      rw [putAll_cons, putAll_cons, applyExtension_eq, applyExtension_eq, kept, ih all,
        Members.set_comm ne there]
      exact Members.mem_keys_set.mpr (.inr there)

/-- Putting the same extensions in once more changes nothing. -/
theorem putAll_putAll_self (distinct : (Members.keys members).Nodup)
    (objects : ∀ key, isMerged key = true → (Members.keys (objectAt members key)).Nodup)
    (extensions : Members) :
    putAll (putAll members extensions) extensions = putAll members extensions := by
  have there : ∀ key ∈ Members.keys extensions, key ∈ Members.keys (putAll members extensions) := by
    intro key mem
    rw [keys_putAll]
    exact Members.mem_keys_setAll.mpr (.inl mem)
  have order : Members.keys (putAll (putAll members extensions) extensions) =
      Members.keys (putAll members extensions) := by
    rw [keys_putAll, Members.keys_setAll_of_subset there]
  refine Members.eq_of_get? order ?_ fun key => ?_
  · rw [order, keys_putAll]
    exact Members.nodup_keys_setAll distinct extensions
  · cases kind : isMerged key with
    | true =>
        rw [get?_putAll_of_isMerged kind (putAll members extensions)]
        split
        · rename_i mem
          have own := get?_putAll_of_isMerged kind members extensions
          rw [if_pos mem] at own
          rw [objectAt, own]
          exact congrArg (some ∘ Json.obj) (Members.setAll_setAll_self (objects key kind) _)
        · rfl
    | false =>
        rw [get?_putAll_of_not_isMerged kind (putAll members extensions),
          get?_putAll_of_not_isMerged kind members]
        cases Members.get? extensions.reverse key <;> rfl

/-- The members of an object into which extensions have been put. Merged extensions have the members
of the object that was there and those of the objects that were put in, the others are the last ones of
their names, and all else is as it was; nothing has changed its place. -/
structure Extended (extensions members edited : Members) : Prop where
  order : Members.keys edited = Members.keys (Members.setAll members extensions)
  merged : ∀ key ∈ Members.keys extensions, isMerged key = true →
    Members.get? edited key =
      some (.obj (Members.setAll (objectAt members key) (updatesOf extensions key)))
  replaced : ∀ key ∈ Members.keys extensions, isMerged key = false →
    Members.get? edited key = Members.get? extensions.reverse key
  kept : ∀ key, key ∉ Members.keys extensions → isExtension key = true →
    Members.get? edited key = Members.get? members key

theorem extended_putAll (members extensions : Members) :
    Extended extensions members (putAll members extensions) where
  order := keys_putAll members extensions
  merged key mem kind := by rw [get?_putAll_of_isMerged kind, if_pos mem]
  replaced key mem kind := by
    rw [get?_putAll_of_not_isMerged kind]
    cases last : Members.get? extensions.reverse key with
    | none => exact absurd mem (Members.get?_reverse_eq_none_iff.mp last)
    | some value => rfl
  kept key fresh _ := by
    cases kind : isMerged key with
    | true => rw [get?_putAll_of_isMerged kind, if_neg fresh]
    | false =>
        rw [get?_putAll_of_not_isMerged kind, Members.get?_reverse_eq_none_iff.mpr fresh]
        rfl

/-- Only the names of the members and the extensions among them count. -/
theorem Extended.congr {others edited : Members} (extended : Extended extensions others edited)
    (order : Members.keys others = Members.keys members)
    (same : ∀ key, isExtension key = true → Members.get? others key = Members.get? members key) :
    Extended extensions members edited where
  order := by rw [extended.order, Members.keys_setAll_congr order]
  merged key mem kind := by
    rw [extended.merged key mem kind, objectAt, same key (isExtension_of_isMerged kind), ← objectAt]
  replaced := extended.replaced
  kept key fresh known := by rw [extended.kept key fresh known, same key known]

end Members

/-- The extensions that the object at each place of a tree is given. -/
abbrev Additions := List Json.Step → Members

namespace Additions

/-- What the places below a step are given. -/
def below (added : Additions) (step : Json.Step) : Additions :=
  fun steps => added (step :: steps)

/-- No place is given anything. -/
def none : Additions :=
  fun _ => []

/-- One place is given extensions. -/
def only (place : List Json.Step) (extensions : Members) : Additions :=
  fun steps => if steps = place then extensions else []

/-- Each place is given what it is given first and then what it is given second. -/
def append (first second : Additions) : Additions :=
  fun steps => first steps ++ second steps

variable {first second added : Additions} {step other : Json.Step} {place : List Json.Step}
variable {extensions : Members}

theorem append_none (added : Additions) : added.append none = added :=
  funext fun _ => List.append_nil _

theorem none_append (added : Additions) : none.append added = added := rfl

theorem append_assoc (first second third : Additions) :
    (first.append second).append third = first.append (second.append third) :=
  funext fun _ => List.append_assoc _ _ _

theorem append_below (first second : Additions) (step : Json.Step) :
    (first.append second).below step = (first.below step).append (second.below step) := rfl

theorem only_below_self (step : Json.Step) (place : List Json.Step) (extensions : Members) :
    (only (step :: place) extensions).below step = only place extensions := by
  funext steps
  simp [only, below]

theorem only_below_of_ne (ne : other ≠ step) : (only (other :: place) extensions).below step = none := by
  funext steps
  simp [only, below, none, Ne.symm ne]

theorem only_nil_below (extensions : Members) (step : Json.Step) :
    (only [] extensions).below step = none := by
  funext steps
  simp [only, below, none]

/-- Each place is given extensions that an overlay carries. -/
def Carries (added : Additions) : Prop :=
  ∀ steps, AllExtensions (added steps)

theorem Carries.below (carries : added.Carries) (step : Json.Step) : (added.below step).Carries :=
  fun steps => carries (step :: steps)

theorem Carries.append (one : first.Carries) (two : second.Carries) : (first.append second).Carries :=
  fun steps => List.forall_mem_append.mpr ⟨one steps, two steps⟩

theorem carries_none : none.Carries :=
  fun _ => List.forall_mem_nil _

theorem carries_only (all : AllExtensions extensions) (place : List Json.Step) :
    (only place extensions).Carries := by
  intro steps
  unfold only
  split
  · exact all
  · exact List.forall_mem_nil _

end Additions

mutual

/-- The tree with extensions put into its objects. -/
def patch (added : Additions) : Json → Json
  | .obj members => .obj (putAll (patchMembers added members) (added []))
  | .arr elements => .arr (patchElements added 0 elements)
  | value => value

/-- The members of an object with extensions put into what is below them. -/
def patchMembers (added : Additions) : List (String × Json) → List (String × Json)
  | [] => []
  | (key, value) :: rest =>
    (key, if isExtension key then value else patch (added.below (.key key)) value) ::
      patchMembers added rest

/-- The elements of an array, the first of which has the given number, with extensions put into
them. -/
def patchElements (added : Additions) (number : Nat) : List Json → List Json
  | [] => []
  | value :: rest =>
    patch (added.below (.index number)) value :: patchElements added (number + 1) rest

end

section Patch

variable {added : Additions} {members : Members} {elements : List Json} {key : String} {value : Json}

theorem keys_patchMembers (added : Additions) (members : Members) :
    Members.keys (patchMembers added members) = Members.keys members := by
  induction members with
  | nil => rfl
  | cons member rest ih => rw [patchMembers, Members.keys_cons, Members.keys_cons, ih]

theorem get?_patchMembers (added : Additions) (members : Members) (key : String) :
    Members.get? (patchMembers added members) key =
      (Members.get? members key).map fun value =>
        if isExtension key then value else patch (added.below (.key key)) value := by
  induction members with
  | nil => rfl
  | cons member rest ih =>
      obtain ⟨name, value⟩ := member
      rw [patchMembers, Members.get?_cons, Members.get?_cons, ih]
      by_cases same : name = key
      · subst same
        rw [if_pos rfl, if_pos rfl]
        rfl
      · rw [if_neg same, if_neg same]

theorem mem_keys_patchMembers (has : Members.get? members key = some value) :
    key ∈ Members.keys (patchMembers added members) := by
  rw [keys_patchMembers]
  exact Members.mem_keys_of_get? has

theorem get?_patchMembers_of_isExtension (known : isExtension key = true) :
    Members.get? (patchMembers added members) key = Members.get? members key := by
  simp [get?_patchMembers, known]

theorem getElem?_patchElements (added : Additions) (number : Nat) (elements : List Json) (i : Nat) :
    (patchElements added number elements)[i]? =
      elements[i]?.map (patch (added.below (.index (number + i)))) := by
  induction elements generalizing number i with
  | nil => rfl
  | cons value rest ih =>
      rw [patchElements]
      cases i with
      | zero => rfl
      | succ i => rw [List.getElem?_cons_succ, List.getElem?_cons_succ, ih, Nat.add_right_comm]; rfl

theorem length_patchElements (added : Additions) (number : Nat) (elements : List Json) :
    (patchElements added number elements).length = elements.length := by
  induction elements generalizing number with
  | nil => rfl
  | cons value rest ih => rw [patchElements, List.length_cons, List.length_cons, ih]

/-- The member of a patched object, if it is no extension. -/
theorem get?_patch (carries : added.Carries) (other : isExtension key = false) :
    Members.get? (putAll (patchMembers added members) (added [])) key =
      (Members.get? members key).map (patch (added.below (.key key))) := by
  rw [get?_putAll_of_not_isExtension (carries []) other, get?_patchMembers]
  simp [other]

mutual

theorem patch_none : ∀ value : Json, patch .none value = value
  | .obj members => congrArg Json.obj (patchMembers_none members)
  | .arr elements => congrArg Json.arr (patchElements_none 0 elements)
  | .null | .bool _ | .int _ | .double _ | .str _ => rfl

theorem patchMembers_none : ∀ members : List (String × Json), patchMembers .none members = members
  | [] => rfl
  | (key, value) :: rest => by
      have same : patch (Additions.none.below (.key key)) value = value := patch_none value
      rw [patchMembers, same, ite_self, patchMembers_none rest]

theorem patchElements_none : ∀ (number : Nat) (elements : List Json),
    patchElements .none number elements = elements
  | _, [] => rfl
  | number, value :: rest => by
      have same : patch (Additions.none.below (.index number)) value = value := patch_none value
      rw [patchElements, same, patchElements_none (number + 1) rest]

end

mutual

/-- Giving each place twice what it is given changes nothing more. -/
theorem patch_append_self : ∀ {value : Json} (added : Additions), value.Distinct →
    patch (added.append added) value = patch added value
  | .obj members, added, distinct => by
      have inner := patchMembers_append_self added distinct.2
      have objects (key : String) (merged : isMerged key = true) :
          (Members.keys (objectAt (patchMembers added members) key)).Nodup := by
        rw [objectAt, get?_patchMembers_of_isExtension (isExtension_of_isMerged merged), ← objectAt]
        exact nodup_keys_objectAt distinct.2 key
      have keys : (Members.keys (patchMembers added members)).Nodup := by
        rw [keys_patchMembers]
        exact distinct.1
      rw [patch, patch, inner, Additions.append, putAll_append, putAll_putAll_self keys objects]
  | .arr elements, added, distinct =>
      congrArg Json.arr (patchElements_append_self added 0 distinct)
  | .null, _, _ | .bool _, _, _ | .int _, _, _ | .double _, _, _ | .str _, _, _ => rfl

theorem patchMembers_append_self : ∀ {members : List (String × Json)} (added : Additions),
    Json.DistinctMembers members →
      patchMembers (added.append added) members = patchMembers added members
  | [], _, _ => rfl
  | (key, value) :: rest, added, distinct => by
      rw [patchMembers, patchMembers, Additions.append_below, patch_append_self _ distinct.1,
        patchMembers_append_self added distinct.2]

theorem patchElements_append_self : ∀ {elements : List Json} (added : Additions) (number : Nat),
    Json.DistinctElements elements →
      patchElements (added.append added) number elements = patchElements added number elements
  | [], _, _, _ => rfl
  | value :: rest, added, number, distinct => by
      rw [patchElements, patchElements, Additions.append_below, patch_append_self _ distinct.1,
        patchElements_append_self added (number + 1) distinct.2]

end

end Patch

section Places

variable {added : Additions} {root edited value : Json} {steps : List Json.Step}

/-- The steps lead into no extension. -/
def Outside (steps : List Json.Step) : Prop :=
  ∀ name, .key name ∈ steps → isExtension name = false

/-- What extensions at a place make of the value there, but for what is below it. -/
def Changed (extensions : Members) : Json → Json → Prop
  | .obj members, .obj edited => Extended extensions members edited
  | .arr elements, .arr edited => edited.length = elements.length
  | value, edited => edited = value

/-- At each place outside of extensions, the edited tree has what the extensions for this place make of
the value in the tree. -/
def Patched (added : Additions) (root edited : Json) : Prop :=
  ∀ steps, Outside steps → ∀ value, root.follow? steps = some value →
    ∃ value', edited.follow? steps = some value' ∧ Changed (added steps) value value'

theorem changed_patch (added : Additions) (value : Json) :
    Changed (added []) value (patch added value) := by
  cases value with
  | obj members =>
      exact (extended_putAll (patchMembers added members) (added [])).congr
        (keys_patchMembers added members) fun key known => get?_patchMembers_of_isExtension known
  | arr elements => exact length_patchElements added 0 elements
  | _ => rfl

/-- Along steps outside of extensions, the patched tree has the patched values. -/
theorem follow?_patch (carries : added.Carries) (outside : Outside steps) (root : Json) :
    (patch added root).follow? steps =
      (root.follow? steps).map (patch fun rest => added (steps ++ rest)) := by
  induction steps generalizing added root with
  | nil => rfl
  | cons step rest ih =>
      have below : Outside rest := fun name mem => outside name (List.mem_cons_of_mem _ mem)
      cases step with
      | key name =>
          have other := outside name List.mem_cons_self
          cases root with
          | obj members =>
              rw [patch, Json.follow?, Json.follow?, get?_patch carries other]
              cases Members.get? members name with
              | none => rfl
              | some value => exact ih (carries.below (.key name)) below value
          | _ => rfl
      | index number =>
          cases root with
          | arr elements =>
              rw [patch, Json.follow?, Json.follow?, getElem?_patchElements, Nat.zero_add]
              cases elements[number]? with
              | none => rfl
              | some value => exact ih (carries.below (.index number)) below value
          | _ => rfl

/-- What is put into all objects at once is seen at each place. -/
theorem patched_patch (carries : added.Carries) (root : Json) : Patched added root (patch added root) := by
  intro steps outside value found
  have changed := changed_patch (fun rest => added (steps ++ rest)) value
  rw [List.append_nil] at changed
  refine ⟨_, ?_, changed⟩
  rw [follow?_patch carries outside, found]
  rfl

end Places

end Overlay

end SchemaForms
