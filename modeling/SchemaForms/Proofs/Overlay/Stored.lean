import SchemaForms.Overlay.Stored
import SchemaForms.Proofs.Memory.Layout
import SchemaForms.Proofs.Overlay.Extensions
import SchemaForms.Proofs.Pointer.Indices

/-!
# Overlays in memory apply as overlays do

The first use of an overlay finds it as it was read: its extensions and the tree have layouts without
a common address. An extension that is put in takes its cells along from the overlay to the tree, so
the tree and what is left of the overlay are still apart, and the next override is applied as to a
tree of its own. The addresses are counted: what a tree gains is what the extension loses and new
cells.
-/

namespace SchemaForms

open Memory

namespace Memory.Layout

/-- The tokens lead from a layout to a part of it; the function puts another one in its place. -/
inductive Leads : List String → Layout → Layout → (Layout → Layout) → Prop
  | here (part : Layout) : Leads [] part part id
  | element {token : String} {rest : List String} {address : Nat} {before after : List Layout}
      {child part : Layout} {plug : Layout → Layout}
      (found : Pointer.index token (before ++ child :: after).length = .ok (some before.length))
      (below : Leads rest child part plug) :
      Leads (token :: rest) (.arr address (before ++ child :: after)) part
        fun new => .arr address (before ++ plug new :: after)
  | member {token : String} {rest : List String} {address : Nat}
      {before after : List (String × Layout)} {child part : Layout} {plug : Layout → Layout}
      (others : ∀ member ∈ before, member.1 ≠ token) (below : Leads rest child part plug) :
      Leads (token :: rest) (.obj address (before ++ (token, child) :: after)) part
        fun new => .obj address (before ++ (token, plug new) :: after)

section Leads

variable {memory later : Memory} {tokens : List String} {layout part new : Layout}
  {plug : Layout → Layout} {address : Nat} {members others : List (String × Layout)}

/-- What a new part adds to the addresses of the whole, and what the old one takes away. -/
theorem Leads.count (leads : Leads tokens layout part plug) (new : Layout) (address : Nat) :
    (plug new).addresses.count address + part.addresses.count address =
      layout.addresses.count address + new.addresses.count address := by
  induction leads with
  | here part => exact Nat.add_comm _ _
  | element _ _ ih =>
      simp only [addresses_arr, List.flatMap_append, List.flatMap_cons, List.count_cons,
        List.count_append]
      omega
  | member _ _ ih =>
      simp only [addresses_obj, List.flatMap_append, List.flatMap_cons, List.count_cons,
        List.count_append]
      omega

theorem Leads.count_le (leads : Leads tokens layout part plug) (address : Nat) :
    part.addresses.count address ≤ layout.addresses.count address := by
  have balance := leads.count (.atom .null) address
  rw [addresses_atom, List.count_nil] at balance
  omega

theorem Leads.subset (leads : Leads tokens layout part plug) :
    part.addresses ⊆ layout.addresses := by
  intro address mem
  have some := List.count_pos_iff.mpr mem
  exact List.count_pos_iff.mp (Nat.lt_of_lt_of_le some (leads.count_le address))

theorem Leads.value (leads : Leads tokens layout part plug) (same : new.value = part.value) :
    (plug new).value = layout.value := by
  cases leads with
  | here => exact same
  | element => rfl
  | member => rfl

theorem Leads.fits_part (leads : Leads tokens layout part plug) (fits : Fits memory layout) :
    Fits memory part := by
  induction leads with
  | here => exact fits
  | element _ _ ih => exact ih (fits.each_element _ List.mem_append_cons_self)
  | member _ _ ih => exact ih (fits.each_member _ List.mem_append_cons_self)

/-- What is found beside a part of a row without repetitions is not in the part. -/
theorem not_mem_of_nodup {head : Nat} {before middle after : List Nat}
    (nodup : (head :: (before ++ (middle ++ after))).Nodup) :
    head ∉ middle ∧ (∀ address ∈ before, address ∉ middle) ∧ ∀ address ∈ after, address ∉ middle := by
  grind [List.nodup_cons, List.nodup_append]

/-- What stands beside a child still fits if only a part of the child has changed. -/
theorem fits_beside {α : Type} {f : α → Layout} {head : Nat} {before after : List α}
    {child changed : α} {inner : List Nat} (inside : inner ⊆ (f child).addresses)
    (each : ∀ x ∈ before ++ child :: after, Fits memory (f x))
    (owned : (head :: (before.flatMap (fun x => (f x).addresses) ++
      ((f child).addresses ++ after.flatMap fun x => (f x).addresses))).Nodup)
    (kept : ∀ place ∈ head :: (before.flatMap (fun x => (f x).addresses) ++
      ((f child).addresses ++ after.flatMap fun x => (f x).addresses)),
      place ∉ inner → later[place]? = memory[place]?)
    (new : Fits later (f changed)) : ∀ x ∈ before ++ changed :: after, Fits later (f x) := by
  obtain ⟨-, apartBefore, apartAfter⟩ := not_mem_of_nodup owned
  intro x mem
  obtain mem | mem := List.mem_append.mp mem
  · refine (each x (List.mem_append_left _ mem)).congr fun place there => ?_
    have out := List.mem_flatMap_of_mem (f := fun x => (f x).addresses) mem there
    exact kept place (by simp [out]) fun within => apartBefore place out (inside within)
  · obtain rfl | mem := List.mem_cons.mp mem
    · exact new
    · refine (each x (by simp [mem])).congr fun place there => ?_
      have out := List.mem_flatMap_of_mem (f := fun x => (f x).addresses) mem there
      exact kept place (by simp [out]) fun within => apartAfter place out (inside within)

/-- The whole fits with a new part if nothing else of it has changed. -/
theorem Leads.fits_plug (leads : Leads tokens layout part plug) (fits : Fits memory layout)
    (owned : layout.addresses.Nodup) (same : new.value = part.value) (fitsNew : Fits later new)
    (kept : ∀ address ∈ layout.addresses, address ∉ part.addresses →
      later[address]? = memory[address]?) : Fits later (plug new) := by
  induction leads with
  | here => exact fitsNew
  | @element token rest address before after child part plug found below ih =>
      rw [addresses_arr, List.flatMap_append, List.flatMap_cons] at owned kept
      obtain ⟨apart, -, -⟩ := not_mem_of_nodup owned
      have inner := ih (fits.each_element child List.mem_append_cons_self) (by grind) same
        fun place there out => kept place (by simp [there]) out
      refine .arr ?_ (fits_beside below.subset fits.each_element owned kept inner)
      rw [kept address List.mem_cons_self (fun mem => apart (below.subset mem)), fits.cell_arr,
        List.map_append, List.map_append, List.map_cons, List.map_cons, below.value same]
  | @member token rest address before after child part plug first below ih =>
      rw [addresses_obj, List.flatMap_append, List.flatMap_cons] at owned kept
      obtain ⟨apart, -, -⟩ := not_mem_of_nodup owned
      have inner := ih (fits.each_member _ List.mem_append_cons_self) (by grind) same
        fun place there out => kept place (by simp [there]) out
      refine .obj ?_ (fits_beside (f := Prod.snd) below.subset fits.each_member owned kept inner)
      rw [kept address List.mem_cons_self (fun mem => apart (below.subset mem)), fits.cell_obj,
        List.map_append, List.map_append, List.map_cons, List.map_cons, under, under,
        below.value same]

theorem exists_append_cons {α : Type} {elements : List α} {index : Nat}
    (less : index < elements.length) :
    ∃ before child after, elements = before ++ child :: after ∧ before.length = index := by
  refine ⟨elements.take index, elements[index], elements.drop (index + 1), ?_, ?_⟩
  · rw [List.getElem_cons_drop, List.take_append_drop]
  · rw [List.length_take]
    omega

/-- The tokens lead to an object in memory and in the value, and what is changed in the value is
changed in that part; or they lead to none in either, for the same reason. -/
def FoundAlike (memory : Memory) (tokens : List String) (layout : Layout) : Prop :=
  (∃ address members plug, Leads tokens layout (.obj address members) plug ∧
    StoredOverlay.find memory tokens layout.value = .ok address ∧
    ∀ (change : Members → Members) (new : Layout),
      new.json = .obj (change (members.map (under json))) →
        Overlay.edit change tokens layout.json = .ok (plug new).json) ∨
  ∃ fault, StoredOverlay.find memory tokens layout.value = .error fault ∧
    ∀ change, Overlay.edit change tokens layout.json = .error fault

theorem foundAlike_nil (fits : Fits memory layout) : FoundAlike memory [] layout := by
  cases fits with
  | atom a => exact .inr ⟨_, rfl, fun change => by cases a <;> rfl⟩
  | arr cell _ =>
      refine .inr ⟨.overlay .targetNotObject, ?_, fun change => by rw [json_arr]; rfl⟩
      rw [Layout.value, StoredOverlay.find, cell]
  | @obj address members cell _ =>
      refine .inl ⟨address, members, id, .here _, ?_, fun change new same => ?_⟩
      · rw [Layout.value, StoredOverlay.find, cell]
      · rw [json_obj, Overlay.edit, id, same]

theorem FoundAlike.element {token : String} {before after : List Layout} {child : Layout}
    (below : FoundAlike memory tokens child)
    (cell : memory[address]? = some (.arr ((before ++ child :: after).map Layout.value)))
    (read : Pointer.index token (before ++ child :: after).length = .ok (some before.length)) :
    FoundAlike memory (token :: tokens) (.arr address (before ++ child :: after)) := by
  unfold FoundAlike
  simp only [Layout.value, StoredOverlay.find, cell, json_arr, Overlay.edit, List.length_map, read]
  obtain ⟨target, inner, plug, leads, found, edited⟩ | ⟨fault, missed, failed⟩ := below
  · refine .inl ⟨target, inner, _, .element read leads, ?_, ?_⟩
    · simpa using found
    · intro change new same
      simp [edited change new same, Except.map]
  · refine .inr ⟨fault, by simpa using missed, fun change => ?_⟩
    simp [failed change, Except.map]

theorem FoundAlike.member {token : String} {child : Layout}
    (below : FoundAlike memory tokens child)
    (cell : memory[address]? = some (.obj (members.map (under Layout.value))))
    (has : members.lookup token = some child) :
    FoundAlike memory (token :: tokens) (.obj address members) := by
  unfold FoundAlike
  simp only [Layout.value, StoredOverlay.find, cell, json_obj, Overlay.edit, get?_eq_lookup,
    lookup_map_under, set_eq_setNamed, has, Option.map_some]
  obtain ⟨before, after, rfl, others, replaced⟩ := exists_split has
  obtain ⟨target, inner, plug, leads, found, edited⟩ | ⟨fault, missed, failed⟩ := below
  · refine .inl ⟨target, inner, _, .member others leads, found, fun change new same => ?_⟩
    simp only [edited change new same, Except.map]
    rw [setNamed_map, replaced, json_obj]
  · refine .inr ⟨fault, missed, fun change => ?_⟩
    simp only [failed change, Except.map]

theorem foundAlike (fits : Fits memory layout) (tokens : List String) :
    FoundAlike memory tokens layout := by
  induction tokens generalizing layout with
  | nil => exact foundAlike_nil fits
  | cons token rest ih =>
      cases fits with
      | atom a => exact .inr ⟨_, rfl, fun change => by cases a <;> rfl⟩
      | @arr address elements cell each =>
          cases read : Pointer.index token elements.length with
          | error fault =>
              refine .inr ⟨.digits fault, ?_, fun change => ?_⟩
              · simp only [Layout.value, StoredOverlay.find, cell, List.length_map, read]
              · simp only [json_arr, Overlay.edit, List.length_map, read]
          | ok found =>
              cases found with
              | none =>
                  refine .inr ⟨.overlay .pathNotFound, ?_, fun change => ?_⟩
                  · simp [Layout.value, StoredOverlay.find, cell, read]
                  · simp [Overlay.edit, read]
              | some index =>
                  obtain ⟨-, -, -, -, less, -⟩ := Pointer.index_eq_some.mp read
                  obtain ⟨before, child, after, split, place⟩ := exists_append_cons less
                  subst split place
                  exact (ih (each _ List.mem_append_cons_self)).element cell read
      | @obj address members cell each =>
          cases has : members.lookup token with
          | none =>
              refine .inr ⟨.overlay .pathNotFound, ?_, fun change => ?_⟩
              · simp only [Layout.value, StoredOverlay.find, cell, lookup_map_under, has,
                  Option.map_none]
              · simp only [json_obj, Overlay.edit, get?_eq_lookup, lookup_map_under, has,
                  Option.map_none]
          | some child => exact (ih (each _ (mem_of_lookup has))).member cell has

end Leads

section Extend

variable {memory : Memory} {target fresh address : Nat} {key : String}
  {members updates : List (String × Layout)} {extension : String × Layout} {layout : Layout}

theorem addressesMembers_append (first second : List (String × Layout)) :
    addressesMembers (first ++ second) = addressesMembers first ++ addressesMembers second := by
  simp only [addressesMembers_eq, List.flatMap_append]

/-- The addresses under a name are exchanged for those of what is put there. -/
theorem count_setNamed (members : List (String × Layout)) (key : String) (new : Layout)
    (address : Nat) :
    (addressesMembers (setNamed members key new)).count address +
        (((members.lookup key).map addresses).getD []).count address =
      (addressesMembers members).count address + new.addresses.count address := by
  cases has : members.lookup key with
  | none =>
      rw [setNamed_of_none has, addressesMembers_append, List.count_append]
      simp [addressesMembers]
  | some old =>
      obtain ⟨before, after, rfl, -, replaced⟩ := exists_split has
      simp only [replaced, addressesMembers_append, addressesMembers, List.count_append,
        Option.map_some, Option.getD_some]
      omega

theorem count_setAllNamed_le (members updates : List (String × Layout)) (address : Nat) :
    (addressesMembers (setAllNamed members updates)).count address ≤
      (addressesMembers members).count address + (addressesMembers updates).count address := by
  induction updates generalizing members with
  | nil => exact Nat.le_add_right _ _
  | cons update rest ih =>
      have one := count_setNamed members update.1 update.2 address
      have all := ih (setNamed members update.1 update.2)
      rw [addressesMembers, List.count_append]
      show (addressesMembers (setAllNamed (setNamed members _ _) rest)).count address ≤ _
      omega

theorem count_members?_le (layout : Layout) (address : Nat) :
    (addressesMembers (layout.members?.getD [])).count address ≤ layout.addresses.count address := by
  cases layout with
  | atom a => exact Nat.zero_le _
  | arr => exact Nat.zero_le _
  | obj => exact List.count_le_count_cons

/-- The members of an object with an extension. A merged one is a new object. -/
def extend (fresh : Nat) (members : List (String × Layout)) (extension : String × Layout) :
    List (String × Layout) :=
  if Overlay.isMerged extension.1 then
    let present := ((members.lookup extension.1).bind members?).getD []
    let updates := extension.2.members?.getD []
    setNamed members extension.1 (.obj fresh (setAllNamed present updates))
  else setNamed members extension.1 extension.2

theorem getD_map_map {α β : Type} (f : α → β) (row : Option (List α)) :
    (row.map (List.map f)).getD [] = (row.getD []).map f := by
  cases row <;> rfl

theorem json_extend (fresh : Nat) (members : List (String × Layout))
    (extension : String × Layout) :
    (extend fresh members extension).map (under json) =
      Overlay.applyExtension (members.map (under json)) (extension.1, extension.2.json) := by
  obtain ⟨key, layout⟩ := extension
  by_cases merged : Overlay.isMerged key = true
  · have present : ((members.lookup key).map json).bind Json.members? =
        ((members.lookup key).bind members?).map (List.map (under json)) := by
      cases members.lookup key with
      | none => rfl
      | some old => exact members?_json old
    simp only [extend, Overlay.applyExtension, if_pos merged]
    rw [set_eq_setNamed, setAll_eq_setAllNamed, get?_eq_lookup, lookup_map_under, present,
      members?_json, getD_map_map, getD_map_map, setAllNamed_map, ← json_obj fresh, setNamed_map]
  · simp only [extend, Overlay.applyExtension, if_neg merged]
    rw [set_eq_setNamed, setNamed_map]

theorem count_extend_le (fresh : Nat) (members : List (String × Layout))
    (extension : String × Layout) (address : Nat) :
    (addressesMembers (extend fresh members extension)).count address ≤
      (addressesMembers members).count address + extension.2.addresses.count address +
        if fresh = address then 1 else 0 := by
  obtain ⟨key, layout⟩ := extension
  simp only [extend]
  split
  · have balance := count_setNamed members key
      (.obj fresh (setAllNamed (((members.lookup key).bind members?).getD [])
        (layout.members?.getD []))) address
    have merged := count_setAllNamed_le (((members.lookup key).bind members?).getD [])
      (layout.members?.getD []) address
    have own := count_members?_le layout address
    have present : (addressesMembers (((members.lookup key).bind members?).getD [])).count address ≤
        (((members.lookup key).map addresses).getD []).count address := by
      cases members.lookup key with
      | none => exact Nat.le_refl _
      | some old => exact count_members?_le old address
    rw [addresses, List.count_cons] at balance
    simp only [beq_iff_eq] at balance
    omega
  · have balance := count_setNamed members key layout address
    omega

theorem Fits.lookup (fits : Fits memory (.obj address members))
    (has : members.lookup key = some layout) : Fits memory layout :=
  fits.each_member _ (mem_of_lookup has)

theorem Fits.members? (fits : Fits memory layout) :
    ∀ member ∈ layout.members?.getD [], Fits memory member.2 := by
  cases layout with
  | obj => exact fits.each_member
  | atom | arr => simp [Layout.members?]

theorem mem_addressesMembers {member : String × Layout} (mem : member ∈ members)
    (there : address ∈ member.2.addresses) : address ∈ addressesMembers members := by
  rw [addressesMembers_eq]
  exact List.mem_flatMap_of_mem mem there

/-- What becomes of an object in which extensions are put: all other cells are kept, and the object
owns what it had, what has been put in, and new cells. -/
structure Extended (target : Nat) (memory later : Memory) (members used others : List (String × Layout)) :
    Prop where
  fits : Fits later (.obj target others)
  length : memory.length ≤ later.length
  kept : ∀ address < memory.length, address ≠ target → later[address]? = memory[address]?
  owned : (obj target others).addresses.Nodup
  origin : ∀ address ∈ addressesMembers others,
    address ∈ addressesMembers members ∨ address ∈ addressesMembers used ∨ memory.length ≤ address

/-- The members that a merged extension finds and those that it brings. -/
def mergedMembers (members : List (String × Layout)) (extension : String × Layout) :
    List (String × Layout) :=
  setAllNamed (((members.lookup extension.1).bind Layout.members?).getD [])
    (extension.2.members?.getD [])

/-- The cell of the object is changed, and a merged extension has a new one. -/
theorem putExtension_eq (fits : Fits memory (.obj target members))
    (fitsValue : Fits memory extension.2) :
    ∃ new, StoredOverlay.putExtension target memory (extension.1, extension.2.value) =
        memory.set target (.obj ((extend memory.length members extension).map (under value))) ++ new ∧
      (Overlay.isMerged extension.1 = true →
        new = [.obj ((mergedMembers members extension).map (under value))]) := by
  have own : Memory.members? memory (.ref target) = some (members.map (under value)) :=
    members?_value fits
  by_cases merged : Overlay.isMerged extension.1 = true
  · refine ⟨_, ?_, fun _ => rfl⟩
    have present : ((members.lookup extension.1).map value).bind (Memory.members? memory) =
        ((members.lookup extension.1).bind Layout.members?).map (List.map (under value)) := by
      cases has : members.lookup extension.1 with
      | none => rfl
      | some old => exact members?_value (fits.lookup has)
    simp only [StoredOverlay.putExtension, own, Option.getD_some, lookup_map_under, present,
      members?_value fitsValue, getD_map_map, setAllNamed_map, if_pos merged, extend, mergedMembers,
      ← setNamed_map, value_obj]
  · refine ⟨[], ?_, fun is => absurd is merged⟩
    simp only [StoredOverlay.putExtension, own, Option.getD_some, if_neg merged, extend,
      setNamed_map, List.append_nil]

/-- The object with the extension fits where it and the new cell are, if what it had and what is put
in fit there. -/
theorem fits_extend
    (cell : memory[target]? = some (.obj ((extend fresh members extension).map (under value))))
    (new : Overlay.isMerged extension.1 = true →
      memory[fresh]? = some (.obj ((mergedMembers members extension).map (under value))))
    (each : ∀ member ∈ members, Fits memory member.2) (own : Fits memory extension.2) :
    Fits memory (.obj target (extend fresh members extension)) := by
  refine .obj cell fun member mem => ?_
  by_cases merged : Overlay.isMerged extension.1 = true
  · rw [extend, if_pos merged] at mem
    obtain mem | rfl := mem_setNamed mem
    · exact each member mem
    · refine .obj (new merged) fun part mem => ?_
      obtain mem | mem := mem_setAllNamed mem
      · cases has : members.lookup extension.1 with
        | none =>
            rw [has] at mem
            cases mem
        | some old =>
            rw [has] at mem
            exact (each _ (mem_of_lookup has)).members? part mem
      · exact own.members? part mem
  · rw [extend, if_neg merged] at mem
    obtain mem | rfl := mem_setNamed mem
    · exact each member mem
    · exact own

theorem owned_extend (fits : Fits memory (.obj target members)) (fitsValue : Fits memory extension.2)
    (owned : ((obj target members).addresses ++ extension.2.addresses).Nodup) :
    (obj target (extend memory.length members extension)).addresses.Nodup := by
  rw [List.nodup_iff_count_le_one] at owned ⊢
  intro address
  have once := owned address
  have more := count_extend_le memory.length members extension address
  rw [List.count_append, addresses, List.count_cons] at once
  rw [addresses, List.count_cons]
  split at more
  · rename_i new
    -- The new cell is none of those that are there.
    have outside : ∀ row : List Nat, (∀ place ∈ row, place < memory.length) →
        row.count address = 0 := by
      intro row inside
      refine List.count_eq_zero.mpr fun mem => ?_
      exact absurd (inside address mem) (by omega)
    have none := outside _ fits.lt
    have noneValue := outside _ fitsValue.lt
    rw [addresses, List.count_cons] at none
    omega
  · omega

/-- A changed cell and new cells leave the others as they are. -/
theorem getElem?_set_append {cell : Cell} {new : Memory} (inside : address < memory.length)
    (ne : address ≠ target) : (memory.set target cell ++ new)[address]? = memory[address]? := by
  rw [List.getElem?_append_left (by simpa using inside), List.getElem?_set_ne (Ne.symm ne)]

theorem extended_putExtension (fits : Fits memory (.obj target members))
    (fitsValue : Fits memory extension.2)
    (owned : ((obj target members).addresses ++ extension.2.addresses).Nodup) :
    Extended target memory
      (StoredOverlay.putExtension target memory (extension.1, extension.2.value)) members [extension]
      (extend memory.length members extension) := by
  have inside : target < memory.length := fits.lt target List.mem_cons_self
  have apart : target ∉ addressesMembers members ++ extension.2.addresses := by
    rw [addresses, List.cons_append, List.nodup_cons] at owned
    exact owned.1
  obtain ⟨new, run, isNew⟩ := putExtension_eq fits fitsValue
  rw [run]
  -- What does not have the changed cell still fits.
  have stays : ∀ {layout : Layout} {cell : Cell}, Fits memory layout →
      (∀ address ∈ layout.addresses, address ∈ addressesMembers members ++ extension.2.addresses) →
        Fits (memory.set target cell ++ new) layout := by
    intro layout cell fits among
    refine fits.congr fun address mem => getElem?_set_append (fits.lt address mem) ?_
    rintro rfl
    exact apart (among address mem)
  constructor
  · refine fits_extend ?_ ?_ ?_ ?_
    · rw [List.getElem?_append_left (by simpa using inside), List.getElem?_set_self inside]
    · intro merged
      rw [isNew merged]
      simp
    · intro member mem
      exact stays (fits.each_member member mem) fun address there =>
        List.mem_append_left _ (mem_addressesMembers mem there)
    · exact stays fitsValue fun address there => List.mem_append_right _ there
  · simp
  · exact fun address less ne => getElem?_set_append less ne
  · exact owned_extend fits fitsValue owned
  · intro address mem
    have more := count_extend_le memory.length members extension address
    have some := List.count_pos_iff.mpr mem
    simp only [addressesMembers, List.append_nil, ← List.count_pos_iff]
    split at more <;> omega

theorem Extended.trans {middle later : Memory} {used more next others : List (String × Layout)}
    (first : Extended target memory middle members used next)
    (second : Extended target middle later next more others) :
    Extended target memory later members (used ++ more) others where
  fits := second.fits
  length := Nat.le_trans first.length second.length
  kept address less ne := by
    rw [second.kept address (Nat.lt_of_lt_of_le less first.length) ne, first.kept address less ne]
  owned := second.owned
  origin address mem := by
    rw [addressesMembers_append, List.mem_append]
    obtain mem | mem | new := second.origin address mem
    · obtain mem | mem | new := first.origin address mem
      · exact .inl mem
      · exact .inr (.inl (.inl mem))
      · exact .inr (.inr new)
    · exact .inr (.inl (.inr mem))
    · exact .inr (.inr (Nat.le_trans first.length new))

/-- What was owned beside the object and the extensions is owned beside the object then. -/
theorem Extended.nodup_append {later : Memory} {used others : List (String × Layout)}
    (extended : Extended target memory later members used others) (rest : List Nat)
    (owned : ((obj target members).addresses ++ (addressesMembers used ++ rest)).Nodup)
    (inside : ∀ address ∈ rest, address < memory.length) :
    ((obj target others).addresses ++ rest).Nodup := by
  obtain ⟨-, both, apart⟩ := List.nodup_append.mp owned
  obtain ⟨-, ownedRest, apartUsed⟩ := List.nodup_append.mp both
  refine List.nodup_append.mpr ⟨extended.owned, ownedRest, ?_⟩
  rintro address mem _ mem' rfl
  obtain rfl | mem := List.mem_cons.mp mem
  · exact apart _ List.mem_cons_self _ (List.mem_append_right _ mem') rfl
  · obtain mem | mem | new := extended.origin address mem
    · exact apart _ (List.mem_cons_of_mem _ mem) _ (List.mem_append_right _ mem') rfl
    · exact apartUsed _ mem _ mem' rfl
    · exact absurd (inside address mem') (Nat.not_lt.mpr new)

theorem Leads.nodup_part {tokens : List String} {part : Layout} {plug : Layout → Layout}
    (leads : Leads tokens layout part plug) {rest : List Nat}
    (owned : (layout.addresses ++ rest).Nodup) : (part.addresses ++ rest).Nodup := by
  rw [List.nodup_iff_count_le_one] at owned ⊢
  intro address
  have once := owned address
  rw [List.count_append] at once ⊢
  exact Nat.le_trans (Nat.add_le_add_right (leads.count_le address) _) once

/-- What was owned beside a tree and the extensions is owned beside the tree then. -/
theorem Leads.nodup_plug {later : Memory} {tokens : List String} {plug : Layout → Layout}
    {used others : List (String × Layout)}
    (leads : Leads tokens layout (.obj target members) plug) (fits : Fits memory layout)
    (extended : Extended target memory later members used others) {rest : List Nat}
    (owned : (layout.addresses ++ (addressesMembers used ++ rest)).Nodup)
    (inside : ∀ address ∈ rest, address < memory.length) :
    ((plug (.obj target others)).addresses ++ rest).Nodup := by
  have ownedPart := extended.nodup_append rest (leads.nodup_part owned) inside
  rw [List.nodup_iff_count_le_one] at owned ownedPart ⊢
  intro address
  have once := owned address
  have oncePart := ownedPart address
  have balance := leads.count (.obj target others) address
  rw [List.count_append] at once oncePart ⊢
  rw [List.count_append] at once
  -- What the new part has was in the old one, or it was not in the tree.
  have origin : (obj target others).addresses.count address = 0 ∨
      0 < (obj target members).addresses.count address ∨ layout.addresses.count address = 0 := by
    by_cases mem : address ∈ (obj target others).addresses
    · right
      obtain rfl | mem := List.mem_cons.mp mem
      · exact .inl (List.count_pos_iff.mpr List.mem_cons_self)
      · obtain mem | mem | new := extended.origin address mem
        · exact .inl (List.count_pos_iff.mpr (List.mem_cons_of_mem _ mem))
        · have some := List.count_pos_iff.mpr mem
          exact .inr (by omega)
        · refine .inr (List.count_eq_zero.mpr fun there => ?_)
          exact absurd (fits.lt address there) (Nat.not_lt.mpr new)
    · exact .inl (List.count_eq_zero.mpr mem)
  omega

theorem exists_extended (extensions : List (String × Layout))
    (fits : Fits memory (.obj target members))
    (fitsAll : ∀ extension ∈ extensions, Fits memory extension.2)
    (owned : ((obj target members).addresses ++ addressesMembers extensions).Nodup) :
    ∃ others, Extended target memory
        ((extensions.map (under value)).foldl (StoredOverlay.putExtension target) memory)
        members extensions others ∧
      others.map (under json) =
        (extensions.map (under json)).foldl Overlay.applyExtension (members.map (under json)) := by
  induction extensions generalizing memory members with
  | nil =>
      rw [addressesMembers, List.append_nil] at owned
      exact ⟨members, ⟨fits, Nat.le_refl _, fun _ _ _ => rfl, owned, fun _ => .inl⟩, rfl⟩
  | cons extension rest ih =>
      obtain ⟨fitsValue, fitsRest⟩ := List.forall_mem_cons.mp fitsAll
      rw [addressesMembers] at owned
      have insideRest : ∀ address ∈ addressesMembers rest, address < memory.length := by
        intro address mem
        rw [addressesMembers_eq] at mem
        obtain ⟨other, there, mem⟩ := List.mem_flatMap.mp mem
        exact (fitsRest other there).lt address mem
      have first := extended_putExtension fits fitsValue
        (owned.sublist (by simp))
      have ownedRest := first.nodup_append (addressesMembers rest)
        (by simpa [addressesMembers] using owned) insideRest
      have fitsThen : ∀ other ∈ rest, Fits (StoredOverlay.putExtension target memory
          (extension.1, extension.2.value)) other.2 := by
        intro other there
        refine (fitsRest other there).congr fun address mem => first.kept address ?_ ?_
        · exact (fitsRest other there).lt address mem
        · rintro rfl
          have mem := mem_addressesMembers there mem
          exact (List.nodup_cons.mp owned).1 (by simp [mem])
      obtain ⟨others, more, same⟩ := ih first.fits fitsThen ownedRest
      refine ⟨others, first.trans more, ?_⟩
      rw [same, json_extend]
      rfl

end Extend

end Memory.Layout

open Memory.Layout

structure LaidOverride where
  path : String
  extensions : List (String × Layout)

namespace LaidOverride

def stored (laid : LaidOverride) : StoredOverride :=
  ⟨laid.path, laid.extensions.map (under value)⟩

def override (laid : LaidOverride) : Override :=
  ⟨laid.path, laid.extensions.map (under json)⟩

def addresses (laid : LaidOverride) : List Nat :=
  addressesMembers laid.extensions

/-- The extensions are in the memory. -/
def Fits (memory : Memory) (laid : LaidOverride) : Prop :=
  ∀ extension ∈ laid.extensions, Layout.Fits memory extension.2

variable {memory later : Memory} {laid : LaidOverride}

theorem Fits.lt (fits : laid.Fits memory) : ∀ address ∈ laid.addresses, address < memory.length := by
  intro address mem
  rw [addresses, addressesMembers_eq] at mem
  obtain ⟨extension, there, mem⟩ := List.mem_flatMap.mp mem
  exact (fits extension there).lt address mem

theorem Fits.congr (fits : laid.Fits memory)
    (same : ∀ address ∈ laid.addresses, later[address]? = memory[address]?) : laid.Fits later :=
  fun extension there => (fits extension there).congr fun address mem =>
    same address (mem_addressesMembers there mem)

end LaidOverride

namespace StoredOverlay

variable {memory : Memory} {layout : Layout}

/-- One override is applied to the layout of a tree as it is applied to the tree. What is beside them
in memory is kept. -/
theorem applyOverride_laid {laid : LaidOverride} (fits : Fits memory layout)
    (fitsLaid : laid.Fits memory) {rest : List Nat}
    (owned : (layout.addresses ++ (laid.addresses ++ rest)).Nodup)
    (inside : ∀ address ∈ rest, address < memory.length) :
    (∃ later changed, applyOverride laid.stored layout.value memory = .ok later ∧
      Overlay.applyOverride laid.override layout.json = .ok changed.json ∧
      changed.value = layout.value ∧ Fits later changed ∧ (changed.addresses ++ rest).Nodup ∧
      ∀ address ∈ rest, later[address]? = memory[address]?) ∨
    ∃ error, applyOverride laid.stored layout.value memory = .error error ∧
      Overlay.applyOverride laid.override layout.json = .error error := by
  obtain ⟨path, extensions⟩ := laid
  simp only [applyOverride, Overlay.applyOverride, LaidOverride.stored, LaidOverride.override]
  cases Overlay.pathTokens path with
  | error fault => exact .inr ⟨_, rfl, rfl⟩
  | ok tokens =>
      obtain ⟨target, members, plug, leads, found, edited⟩ | ⟨fault, missed, failed⟩ :=
        foundAlike fits tokens
      · have part := leads.fits_part fits
        obtain ⟨others, extended, same⟩ := exists_extended extensions part fitsLaid
          ((leads.nodup_part owned).sublist ((List.sublist_append_left _ _).append_left _))
        obtain ⟨ownedTree, -, apart⟩ := List.nodup_append.mp owned
        refine .inl ⟨(extensions.map (under value)).foldl (putExtension target) memory,
          plug (.obj target others), by simp only [found], ?_, leads.value rfl, ?_, ?_, ?_⟩
        · have put := edited (fun members => (extensions.map (under json)).foldl
            Overlay.applyExtension members) (.obj target others) (by rw [json_obj, same])
          simp only [put]
          rfl
        · refine leads.fits_plug fits ownedTree rfl extended.fits fun address mem out => ?_
          refine extended.kept address (fits.lt address mem) ?_
          rintro rfl
          exact out List.mem_cons_self
        · exact leads.nodup_plug fits extended owned inside
        · intro address mem
          refine extended.kept address (inside address mem) ?_
          rintro rfl
          exact apart _ (leads.subset List.mem_cons_self) _ (List.mem_append_right _ mem) rfl
      · refine .inr ⟨fault.error path, ?_, ?_⟩
        · simp only [missed]
        · simp only [failed]
          rfl

/-- Overrides are applied to the layout of a tree as they are applied to the tree. -/
theorem applyOverrides_laid (all : List LaidOverride) (fits : Fits memory layout)
    (fitsAll : ∀ laid ∈ all, laid.Fits memory)
    (owned : (layout.addresses ++ all.flatMap LaidOverride.addresses).Nodup) :
    ∃ later changed failure,
      applyOverrides (all.map LaidOverride.stored) layout.value memory = (later, failure) ∧
      Overlay.applyOverrides (all.map LaidOverride.override) layout.json = (changed.json, failure) ∧
      changed.value = layout.value ∧ Fits later changed ∧ changed.addresses.Nodup := by
  induction all generalizing memory layout with
  | nil =>
      rw [List.flatMap_nil, List.append_nil] at owned
      exact ⟨memory, layout, none, rfl, rfl, rfl, fits, owned⟩
  | cons laid rest ih =>
      obtain ⟨fitsLaid, fitsRest⟩ := List.forall_mem_cons.mp fitsAll
      rw [List.flatMap_cons] at owned
      have inside : ∀ address ∈ rest.flatMap LaidOverride.addresses, address < memory.length := by
        intro address mem
        obtain ⟨other, there, mem⟩ := List.mem_flatMap.mp mem
        exact (fitsRest other there).lt address mem
      obtain ⟨middle, changed, run, pure, same, fitsThen, ownedThen, kept⟩ |
        ⟨error, failed, pure⟩ := applyOverride_laid fits fitsLaid owned inside
      · have fitsRest' : ∀ other ∈ rest, other.Fits middle := fun other there =>
          (fitsRest other there).congr fun address mem =>
            kept address (List.mem_flatMap_of_mem there mem)
        obtain ⟨later, last, failure, runs, pures, sames, fitsLast, ownedLast⟩ :=
          ih fitsThen fitsRest' ownedThen
        refine ⟨later, last, failure, ?_, ?_, sames.trans same, fitsLast, ownedLast⟩
        · simp only [List.map_cons, applyOverrides, run]
          rw [← same, runs]
        · simp only [List.map_cons, Overlay.applyOverrides, pure, pures]
      · refine ⟨memory, layout, some error, ?_, ?_, rfl, fits, (List.nodup_append.mp owned).1⟩
        · simp only [List.map_cons, applyOverrides, failed]
        · simp only [List.map_cons, Overlay.applyOverrides, pure]

theorem members?_eq_nil_iff (fits : Fits memory layout) :
    members? memory layout.value = some [] ↔ layout.json = .obj [] := by
  rw [members?_value fits]
  cases layout with
  | atom a => cases a <;> simp [Layout.members?, json, Atom.toJson]
  | arr => simp [Layout.members?]
  | obj => simp [Layout.members?]

/-- The overlay is in memory: its extensions have layouts there, without a common address. -/
def Holds (memory : Memory) (stored : StoredOverlay) (overlay : Overlay) : Prop :=
  ∃ all : List LaidOverride, all.map LaidOverride.stored = stored ∧
    all.map LaidOverride.override = overlay.overrides ∧ (∀ laid ∈ all, laid.Fits memory) ∧
    (all.flatMap LaidOverride.addresses).Nodup

theorem exists_store (overrides : List Override) (memory : Memory) :
    ∃ (all : List LaidOverride) (later : Memory), all.map LaidOverride.override = overrides ∧
      store overrides memory = (all.map LaidOverride.stored, later) ∧
      Added memory later (all.flatMap fun laid => laid.extensions.map Prod.snd) := by
  induction overrides generalizing memory with
  | nil => exact ⟨[], memory, rfl, rfl, .nil memory⟩
  | cons override rest ih =>
      obtain ⟨path, extensions⟩ := override
      obtain ⟨layouts, middle, rfl, run, first⟩ := exists_storeMembers extensions memory
      obtain ⟨all, later, rfl, runs, more⟩ := ih middle
      refine ⟨⟨path, layouts⟩ :: all, later, rfl, ?_, first.append more⟩
      rw [store]
      simp only [run, runs, List.map_cons, LaidOverride.stored]

theorem holds_store (overlay : Overlay) (memory : Memory) :
    Holds (store overlay.overrides memory).2 (store overlay.overrides memory).1 overlay := by
  obtain ⟨all, later, same, run, added⟩ := exists_store overlay.overrides memory
  rw [run]
  refine ⟨all, rfl, same, fun laid there extension mem => ?_, ?_⟩
  · exact added.fits _ (List.mem_flatMap_of_mem there (List.mem_map_of_mem mem))
  · have nodup := added.nodup
    rw [List.flatMap_assoc] at nodup
    show (all.flatMap fun laid => laid.addresses).Nodup
    simpa only [LaidOverride.addresses, addressesMembers_eq, List.flatMap_map] using nodup

/-- An overlay in memory is applied to a stored tree as it is applied to the tree. -/
theorem Holds.apply {stored : StoredOverlay} {overlay : Overlay}
    (held : Holds memory stored overlay) (tree : Json) :
    ∃ later changed failure,
      stored.apply (Memory.store tree memory).1 (Memory.store tree memory).2 = (later, failure) ∧
      overlay.apply tree = (changed, failure) ∧
      later.read? (Memory.store tree memory).1 = some changed := by
  obtain ⟨all, rfl, same, fits, nodup⟩ := held
  obtain ⟨layout, middle, rfl, run, added⟩ := Memory.Layout.exists_store tree memory
  have fitsTree : Fits middle layout := added.fits layout List.mem_cons_self
  have ownedTree : layout.addresses.Nodup := by simpa using added.nodup
  have fitsAll : ∀ laid ∈ all, laid.Fits middle := fun laid there extension mem =>
    (fits laid there extension mem).grow added.grown
  have owned : (layout.addresses ++ all.flatMap LaidOverride.addresses).Nodup := by
    refine List.nodup_append.mpr ⟨ownedTree, nodup, ?_⟩
    rintro address mem _ mem' rfl
    obtain ⟨laid, there, mem'⟩ := List.mem_flatMap.mp mem'
    have old := LaidOverride.Fits.lt (fits laid there) address mem'
    exact absurd old (Nat.not_lt.mpr (added.fresh address (by simpa using mem)))
  rw [run, StoredOverlay.apply]
  by_cases empty : members? middle layout.value = some []
  · refine ⟨middle, layout.json, none, if_pos empty, ?_, fitsTree.read? ownedTree⟩
    rw [(members?_eq_nil_iff fitsTree).mp empty]
    rfl
  · obtain ⟨later, changed, failure, runs, pure, sameValue, fitsThen, ownedThen⟩ :=
      applyOverrides_laid all fitsTree fitsAll owned
    refine ⟨later, changed.json, failure, ?_, ?_, ?_⟩
    · simp only [if_neg empty, runs]
    · rw [Overlay.apply, ← same, pure]
      exact fun is => empty ((members?_eq_nil_iff fitsTree).mpr is)
    · rw [← sameValue]
      exact fitsThen.read? ownedThen

end StoredOverlay

end SchemaForms
