import Mathlib.Data.List.Perm.Subperm
import SchemaForms.Memory
import SchemaForms.Proofs.Json.Members
import SchemaForms.Proofs.Schema.Sorted

/-!
# Layouts of values in memory

A layout is a JSON value with the addresses of its cells. It fits a memory if the cells are there with
what the layout says, and the value is then read from it. A layout that has no address twice is owned:
a change of one of its cells is a change at one place of the value, and layouts without a common
address do not notice changes of each other.
-/

namespace SchemaForms.Memory

section Named

variable {α β : Type}

theorem get?_eq_lookup (members : Members) (key : String) :
    Members.get? members key = members.lookup key := by
  induction members with
  | nil => rfl
  | cons member rest ih =>
      obtain ⟨name, value⟩ := member
      rw [Members.get?_cons, lookup_cons_eq_if, ih]
      simp only [eq_comm]

theorem set_eq_setNamed (members : Members) (key : String) (value : Json) :
    Members.set members key value = setNamed members key value := by
  induction members with
  | nil => rfl
  | cons member rest ih =>
      obtain ⟨name, old⟩ := member
      rw [Members.set, setNamed, ih]

theorem setAll_eq_setAllNamed (members updates : Members) :
    Members.setAll members updates = setAllNamed members updates := by
  simp only [Members.setAll, setAllNamed, set_eq_setNamed]

theorem setNamed_map (f : α → β) (pairs : List (String × α)) (key : String) (value : α) :
    setNamed (pairs.map (under f)) key (f value) = (setNamed pairs key value).map (under f) := by
  induction pairs with
  | nil => rfl
  | cons pair rest ih =>
      rw [List.map_cons, setNamed, under, setNamed]
      split
      · rfl
      · rw [ih]
        rfl

theorem setAllNamed_map (f : α → β) (pairs updates : List (String × α)) :
    setAllNamed (pairs.map (under f)) (updates.map (under f)) =
      (setAllNamed pairs updates).map (under f) := by
  induction updates generalizing pairs with
  | nil => rfl
  | cons update rest ih =>
      rw [List.map_cons]
      show setAllNamed (setNamed (pairs.map (under f)) update.1 (f update.2)) _ = _
      rw [setNamed_map, ih]
      rfl

/-- A pair that is found by its name stands between others, and it is replaced there. -/
theorem exists_split {pairs : List (String × α)} {key : String} {value : α}
    (has : pairs.lookup key = some value) :
    ∃ before after, pairs = before ++ (key, value) :: after ∧ (∀ pair ∈ before, pair.1 ≠ key) ∧
      ∀ new, setNamed pairs key new = before ++ (key, new) :: after := by
  induction pairs with
  | nil => cases has
  | cons pair rest ih =>
      obtain ⟨name, old⟩ := pair
      rw [lookup_cons_eq_if] at has
      by_cases same : key = name
      · subst same
        rw [if_pos rfl] at has
        obtain rfl := Option.some.inj has
        exact ⟨[], rest, rfl, by simp, fun new => by rw [setNamed, if_pos rfl]; rfl⟩
      · rw [if_neg same] at has
        obtain ⟨before, after, rfl, others, replaced⟩ := ih has
        refine ⟨(name, old) :: before, after, rfl, ?_, ?_⟩
        · exact List.forall_mem_cons.mpr ⟨Ne.symm same, others⟩
        · intro new
          rw [setNamed, if_neg (Ne.symm same), replaced]
          rfl

theorem mem_of_lookup {pairs : List (String × α)} {key : String} {value : α}
    (has : pairs.lookup key = some value) : (key, value) ∈ pairs := by
  obtain ⟨before, after, rfl, -, -⟩ := exists_split has
  exact List.mem_append_cons_self

theorem setNamed_of_none {pairs : List (String × α)} {key : String}
    (absent : pairs.lookup key = none) (new : α) :
    setNamed pairs key new = pairs ++ [(key, new)] := by
  induction pairs with
  | nil => rfl
  | cons pair rest ih =>
      obtain ⟨name, old⟩ := pair
      rw [lookup_cons_eq_if] at absent
      by_cases same : key = name
      · rw [if_pos same] at absent
        cases absent
      · rw [if_neg same] at absent
        rw [setNamed, if_neg (Ne.symm same), ih absent]
        rfl

theorem mem_setNamed {pairs : List (String × α)} {key : String} {new : α} {pair : String × α}
    (mem : pair ∈ setNamed pairs key new) : pair ∈ pairs ∨ pair = (key, new) := by
  cases has : pairs.lookup key with
  | none =>
      rw [setNamed_of_none has] at mem
      simpa using mem
  | some old =>
      obtain ⟨before, after, rfl, -, replaced⟩ := exists_split has
      rw [replaced] at mem
      simp only [List.mem_append, List.mem_cons] at mem ⊢
      tauto

theorem mem_setAllNamed {pairs updates : List (String × α)} {pair : String × α}
    (mem : pair ∈ setAllNamed pairs updates) : pair ∈ pairs ∨ pair ∈ updates := by
  induction updates generalizing pairs with
  | nil => exact .inl mem
  | cons update rest ih =>
      obtain mem | mem := ih mem
      · obtain mem | rfl := mem_setNamed mem
        · exact .inl mem
        · exact .inr List.mem_cons_self
      · exact .inr (List.mem_cons_of_mem _ mem)

end Named

/-- A JSON value with the addresses of its arrays and objects. -/
inductive Layout where
  | atom (atom : Atom)
  | arr (address : Nat) (elements : List Layout)
  | obj (address : Nat) (members : List (String × Layout))

namespace Layout

/-- What refers to the value. -/
def value : Layout → Value
  | .atom a => .atom a
  | .arr address _ => .ref address
  | .obj address _ => .ref address

mutual

def json : Layout → Json
  | .atom a => a.toJson
  | .arr _ elements => .arr (jsonElements elements)
  | .obj _ members => .obj (jsonMembers members)

def jsonElements : List Layout → List Json
  | [] => []
  | element :: rest => element.json :: jsonElements rest

def jsonMembers : List (String × Layout) → Members
  | [] => []
  | (key, member) :: rest => (key, member.json) :: jsonMembers rest

end

mutual

def addresses : Layout → List Nat
  | .atom _ => []
  | .arr address elements => address :: addressesElements elements
  | .obj address members => address :: addressesMembers members

def addressesElements : List Layout → List Nat
  | [] => []
  | element :: rest => element.addresses ++ addressesElements rest

def addressesMembers : List (String × Layout) → List Nat
  | [] => []
  | (_, member) :: rest => member.addresses ++ addressesMembers rest

end

theorem jsonElements_eq (elements : List Layout) : jsonElements elements = elements.map json := by
  induction elements with
  | nil => rfl
  | cons element rest ih => rw [jsonElements, ih, List.map_cons]

theorem jsonMembers_eq (members : List (String × Layout)) :
    jsonMembers members = members.map (under json) := by
  induction members with
  | nil => rfl
  | cons member rest ih =>
      rw [jsonMembers, ih, List.map_cons]
      rfl

theorem addressesElements_eq (elements : List Layout) :
    addressesElements elements = elements.flatMap addresses := by
  induction elements with
  | nil => rfl
  | cons element rest ih => rw [addressesElements, ih, List.flatMap_cons]

theorem addressesMembers_eq (members : List (String × Layout)) :
    addressesMembers members = members.flatMap fun member => member.2.addresses := by
  induction members with
  | nil => rfl
  | cons member rest ih => rw [addressesMembers, ih, List.flatMap_cons]

@[simp] theorem json_arr (address : Nat) (elements : List Layout) :
    (arr address elements).json = .arr (elements.map json) := by
  rw [json, jsonElements_eq]

@[simp] theorem json_obj (address : Nat) (members : List (String × Layout)) :
    (obj address members).json = .obj (members.map (under json)) := by
  rw [json, jsonMembers_eq]

@[simp] theorem value_obj (address : Nat) (members : List (String × Layout)) :
    (obj address members).value = .ref address := rfl

@[simp] theorem addresses_atom (a : Atom) : (atom a).addresses = [] := rfl

@[simp] theorem addresses_arr (address : Nat) (elements : List Layout) :
    (arr address elements).addresses = address :: elements.flatMap addresses := by
  rw [addresses, addressesElements_eq]

@[simp] theorem addresses_obj (address : Nat) (members : List (String × Layout)) :
    (obj address members).addresses =
      address :: members.flatMap fun member => member.2.addresses := by
  rw [addresses, addressesMembers_eq]

/-- The cells of the layout are in the memory. -/
inductive Fits (memory : Memory) : Layout → Prop
  | atom (a : Atom) : Fits memory (.atom a)
  | arr {address : Nat} {elements : List Layout}
      (cell : memory[address]? = some (.arr (elements.map value)))
      (each : ∀ element ∈ elements, Fits memory element) : Fits memory (.arr address elements)
  | obj {address : Nat} {members : List (String × Layout)}
      (cell : memory[address]? = some (.obj (members.map (under value))))
      (each : ∀ member ∈ members, Fits memory member.2) : Fits memory (.obj address members)

section Fits

variable {memory later : Memory} {layout : Layout} {address : Nat}

theorem Fits.each_element {elements : List Layout} (fits : Fits memory (.arr address elements)) :
    ∀ element ∈ elements, Fits memory element := by
  cases fits with
  | arr _ each => exact each

theorem Fits.each_member {members : List (String × Layout)}
    (fits : Fits memory (.obj address members)) : ∀ member ∈ members, Fits memory member.2 := by
  cases fits with
  | obj _ each => exact each

theorem Fits.cell_arr {elements : List Layout} (fits : Fits memory (.arr address elements)) :
    memory[address]? = some (.arr (elements.map value)) := by
  cases fits with
  | arr cell _ => exact cell

theorem Fits.cell_obj {members : List (String × Layout)}
    (fits : Fits memory (.obj address members)) :
    memory[address]? = some (.obj (members.map (under value))) := by
  cases fits with
  | obj cell _ => exact cell

theorem Fits.lt (fits : Fits memory layout) : ∀ address ∈ layout.addresses,
    address < memory.length := by
  have inside : ∀ {address : Nat} {cell : Cell}, memory[address]? = some cell →
      address < memory.length := fun cell => (List.getElem?_eq_some_iff.mp cell).1
  induction fits with
  | atom => simp
  | arr cell _ ih =>
      rw [addresses_arr]
      refine List.forall_mem_cons.mpr ⟨inside cell, fun address mem => ?_⟩
      obtain ⟨element, there, mem⟩ := List.mem_flatMap.mp mem
      exact ih element there address mem
  | obj cell _ ih =>
      rw [addresses_obj]
      refine List.forall_mem_cons.mpr ⟨inside cell, fun address mem => ?_⟩
      obtain ⟨member, there, mem⟩ := List.mem_flatMap.mp mem
      exact ih member there address mem

/-- A layout does not notice what becomes of other cells. -/
theorem Fits.congr (fits : Fits memory layout)
    (same : ∀ address ∈ layout.addresses, later[address]? = memory[address]?) :
    Fits later layout := by
  induction fits with
  | atom a => exact .atom a
  | arr cell _ ih =>
      rw [addresses_arr] at same
      obtain ⟨own, below⟩ := List.forall_mem_cons.mp same
      refine .arr (own.trans cell) fun element mem => ih element mem fun address inside => ?_
      exact below address (List.mem_flatMap_of_mem mem inside)
  | obj cell _ ih =>
      rw [addresses_obj] at same
      obtain ⟨own, below⟩ := List.forall_mem_cons.mp same
      refine .obj (own.trans cell) fun member mem => ih member mem fun address inside => ?_
      exact below address (List.mem_flatMap_of_mem mem inside)

theorem Fits.grow (fits : Fits memory layout) (grown : memory <+: later) :
    Fits later layout := by
  obtain ⟨more, rfl⟩ := grown
  exact fits.congr fun address mem => List.getElem?_append_left (fits.lt address mem)

def members? : Layout → Option (List (String × Layout))
  | .obj _ members => some members
  | _ => none

theorem members?_value (fits : Fits memory layout) :
    Memory.members? memory layout.value = layout.members?.map (List.map (under value)) := by
  cases fits with
  | atom => rfl
  | arr cell _ => simp only [value, Memory.members?, cell, members?, Option.map_none]
  | obj cell _ => simp only [value, Memory.members?, cell, members?, Option.map_some]

theorem members?_json (layout : Layout) :
    layout.json.members? = layout.members?.map (List.map (under json)) := by
  cases layout with
  | atom a => cases a <;> rfl
  | arr => rw [json_arr]; rfl
  | obj => rw [json_obj]; rfl

end Fits

/-- Layouts that were put behind the cells of a memory. -/
structure Added (before after : Memory) (layouts : List Layout) : Prop where
  grown : before <+: after
  fits : ∀ layout ∈ layouts, Fits after layout
  nodup : (layouts.flatMap addresses).Nodup
  fresh : ∀ address ∈ layouts.flatMap addresses, before.length ≤ address

section Added

variable {before middle after : Memory} {layouts more : List Layout}
  {members : List (String × Layout)}

theorem Added.nil (memory : Memory) : Added memory memory [] where
  grown := List.prefix_rfl
  fits := by simp
  nodup := List.nodup_nil
  fresh := by simp

theorem Added.atom (memory : Memory) (a : Atom) : Added memory memory [.atom a] where
  grown := List.prefix_rfl
  fits := by simpa using .atom a
  nodup := List.nodup_nil
  fresh := by simp

theorem Added.lt (added : Added before after layouts) :
    ∀ address ∈ layouts.flatMap addresses, address < after.length := by
  intro address mem
  obtain ⟨layout, there, mem⟩ := List.mem_flatMap.mp mem
  exact (added.fits layout there).lt address mem

theorem Added.append (first : Added before middle layouts) (rest : Added middle after more) :
    Added before after (layouts ++ more) where
  grown := first.grown.trans rest.grown
  fits layout mem := by
    obtain mem | mem := List.mem_append.mp mem
    · exact (first.fits layout mem).grow rest.grown
    · exact rest.fits layout mem
  nodup := by
    rw [List.flatMap_append]
    refine List.nodup_append.mpr ⟨first.nodup, rest.nodup, ?_⟩
    rintro address mem _ mem' rfl
    exact absurd (first.lt address mem) (Nat.not_lt.mpr (rest.fresh address mem'))
  fresh address mem := by
    rw [List.flatMap_append] at mem
    obtain mem | mem := List.mem_append.mp mem
    · exact first.fresh address mem
    · exact Nat.le_trans first.grown.length_le (rest.fresh address mem)

/-- A cell may be put behind layouts for what refers to all of them. -/
theorem Added.cell (parts : Added before after layouts) {layout : Layout} {cell : Cell}
    (addresses : layout.addresses = after.length :: layouts.flatMap Layout.addresses)
    (fits : Fits (after ++ [cell]) layout) : Added before (after ++ [cell]) [layout] where
  grown := parts.grown.trans (List.prefix_append after [cell])
  fits := by simpa using fits
  nodup := by
    rw [List.flatMap_singleton, addresses, List.nodup_cons]
    exact ⟨fun mem => Nat.lt_irrefl _ (parts.lt _ mem), parts.nodup⟩
  fresh := by
    rw [List.flatMap_singleton, addresses]
    exact List.forall_mem_cons.mpr ⟨parts.grown.length_le, parts.fresh⟩

theorem Added.arr (parts : Added before after layouts) :
    Added before (after ++ [.arr (layouts.map value)]) [.arr after.length layouts] := by
  refine parts.cell (addresses_arr _ _) (.arr ?_ ?_)
  · exact List.getElem?_concat_length
  · exact fun layout mem => (parts.fits layout mem).grow (List.prefix_append _ _)

theorem Added.obj (parts : Added before after (members.map Prod.snd)) :
    Added before (after ++ [.obj (members.map (under value))]) [.obj after.length members] := by
  refine parts.cell ?_ (.obj ?_ ?_)
  · rw [addresses_obj, List.flatMap_map]
  · exact List.getElem?_concat_length
  · intro member mem
    exact (parts.fits _ (List.mem_map_of_mem mem)).grow (List.prefix_append _ _)

end Added

mutual

/-- A value that is stored has a layout in new cells. -/
theorem exists_store : ∀ (value : Json) (memory : Memory), ∃ (layout : Layout) (later : Memory),
    layout.json = value ∧ store value memory = (layout.value, later) ∧ Added memory later [layout]
  | .null, memory => ⟨.atom .null, memory, rfl, rfl, .atom memory _⟩
  | .bool b, memory => ⟨.atom (.bool b), memory, rfl, rfl, .atom memory _⟩
  | .int n, memory => ⟨.atom (.int n), memory, rfl, rfl, .atom memory _⟩
  | .double x, memory => ⟨.atom (.double x), memory, rfl, rfl, .atom memory _⟩
  | .str s, memory => ⟨.atom (.str s), memory, rfl, rfl, .atom memory _⟩
  | .arr elements, memory => by
    obtain ⟨layouts, later, rfl, run, parts⟩ := exists_storeElements elements memory
    refine ⟨.arr later.length layouts, _, json_arr _ _, ?_, parts.arr⟩
    rw [store, run]
    rfl
  | .obj members, memory => by
    obtain ⟨layouts, later, rfl, run, parts⟩ := exists_storeMembers members memory
    refine ⟨.obj later.length layouts, _, json_obj _ _, ?_, parts.obj⟩
    rw [store, run]
    rfl

theorem exists_storeElements : ∀ (elements : List Json) (memory : Memory),
    ∃ (layouts : List Layout) (later : Memory), layouts.map json = elements ∧
      storeElements elements memory = (layouts.map value, later) ∧ Added memory later layouts
  | [], memory => ⟨[], memory, rfl, rfl, .nil memory⟩
  | element :: rest, memory => by
    obtain ⟨layout, middle, rfl, own, first⟩ := exists_store element memory
    obtain ⟨layouts, later, rfl, others, more⟩ := exists_storeElements rest middle
    refine ⟨layout :: layouts, later, rfl, ?_, first.append more⟩
    rw [storeElements, own]
    simp only [others, List.map_cons]

theorem exists_storeMembers : ∀ (members : List (String × Json)) (memory : Memory),
    ∃ (layouts : List (String × Layout)) (later : Memory), layouts.map (under json) = members ∧
      storeMembers members memory = (layouts.map (under value), later) ∧
      Added memory later (layouts.map Prod.snd)
  | [], memory => ⟨[], memory, rfl, rfl, .nil memory⟩
  | (key, member) :: rest, memory => by
    obtain ⟨layout, middle, rfl, own, first⟩ := exists_store member memory
    obtain ⟨layouts, later, rfl, others, more⟩ := exists_storeMembers rest middle
    refine ⟨(key, layout) :: layouts, later, rfl, ?_, first.append more⟩
    rw [storeMembers, own]
    simp only [others, List.map_cons, under]

end

section Read

variable {memory : Memory} {layout : Layout}

theorem mapM_map_eq_some {α β γ : Type} {f : β → Option γ} {g : α → γ} {h : α → β} {row : List α}
    (each : ∀ x ∈ row, f (h x) = some (g x)) : (row.map h).mapM f = some (row.map g) := by
  induction row with
  | nil => rfl
  | cons x rest ih =>
      obtain ⟨first, each⟩ := List.forall_mem_cons.mp each
      rw [List.map_cons, List.mapM_cons, first, ih each]
      rfl

theorem length_le_flatMap {α β : Type} {f : α → List β} {row : List α} {x : α} (mem : x ∈ row) :
    (f x).length ≤ (row.flatMap f).length :=
  (List.sublist_flatten_of_mem (List.mem_map_of_mem mem)).length_le

/-- What is laid out is read, in a depth that is not less than the number of its cells. -/
theorem Fits.readWithin (fits : Fits memory layout) {depth : Nat}
    (enough : layout.addresses.length ≤ depth) :
    readWithin depth memory layout.value = some layout.json := by
  induction fits generalizing depth with
  | atom a => cases depth <;> rfl
  | @arr address elements cell each ih =>
      rw [addresses_arr, List.length_cons] at enough
      cases depth with
      | zero => cases enough
      | succ depth =>
          have below : ∀ element ∈ elements,
              Memory.readWithin depth memory element.value = some element.json := by
            intro element mem
            exact ih element mem (Nat.le_trans (length_le_flatMap mem) (Nat.le_of_succ_le_succ enough))
          rw [value, Memory.readWithin, cell, json_arr]
          exact congrArg (Option.map Json.arr) (mapM_map_eq_some below)
  | @obj address members cell each ih =>
      rw [addresses_obj, List.length_cons] at enough
      cases depth with
      | zero => cases enough
      | succ depth =>
          have below : ∀ member ∈ members,
              (fun member : String × Value =>
                (Memory.readWithin depth memory member.2).map fun value => (member.1, value))
                (under value member) = some (under json member) := by
            intro member mem
            have part := length_le_flatMap (f := fun member => member.2.addresses) mem
            have read := ih member mem (Nat.le_trans part (Nat.le_of_succ_le_succ enough))
            simp only [under, read, Option.map_some]
          rw [value, Memory.readWithin, cell, json_obj]
          exact congrArg (Option.map Json.obj) (mapM_map_eq_some below)

/-- An owned layout has not more cells than the memory, so it is read. -/
theorem Fits.read? (fits : Fits memory layout) (owned : layout.addresses.Nodup) :
    memory.read? layout.value = some layout.json := by
  have inside : layout.addresses ⊆ List.range memory.length :=
    fun address mem => List.mem_range.mpr (fits.lt address mem)
  have few := (List.Nodup.subperm owned inside).length_le
  rw [List.length_range] at few
  exact fits.readWithin few

end Read

end Layout

end SchemaForms.Memory
