import SchemaForms.Form.Use
import SchemaForms.Proofs.Memory.Layout

/-!
# Overlays never come to contain themselves

The extensions of an overlay that is used again and again may have come to share their objects. They
have levels all the same: what an override puts in stands below as many tokens as its path has, in
every tree and at every time. What a cell refers to is one level below it, so no cell is below
itself, and the tree is read behind every use.
-/

namespace SchemaForms.Memory

def Cell.values : Cell → List Value
  | .arr elements => elements
  | .obj members => members.map Prod.snd

/-- A value that refers to a cell refers to one of the given level. -/
def Value.On (levels : List Nat) (level : Nat) : Value → Prop
  | .atom _ => True
  | .ref address => levels[address]? = some level

/-- Every cell has a level, and refers to cells of the next one. -/
structure Levelled (levels : List Nat) (memory : Memory) : Prop where
  length : levels.length = memory.length
  below : ∀ {address level : Nat} {cell : Cell}, levels[address]? = some level →
    memory[address]? = some cell → ∀ value ∈ cell.values, value.On levels (level + 1)

variable {levels more : List Nat} {memory : Memory} {address level : Nat} {cell : Cell}
  {value : Value}

theorem Value.On.grow (on : value.On levels level) (grown : levels <+: more) :
    value.On more level := by
  cases value with
  | atom => trivial
  | ref address =>
      obtain ⟨rest, rfl⟩ := grown
      have inside := (List.getElem?_eq_some_iff.mp on).1
      exact (List.getElem?_append_left inside).trans on

theorem Levelled.nil : Levelled [] [] where
  length := rfl
  below has := by cases has

theorem Levelled.append (is : Levelled levels memory)
    (below : ∀ value ∈ cell.values, value.On levels (level + 1)) :
    Levelled (levels ++ [level]) (memory ++ [cell]) where
  length := by simp [is.length]
  below {address at' there} on has value mem := by
    have grown : levels <+: levels ++ [level] := List.prefix_append _ _
    by_cases old : address < memory.length
    · rw [List.getElem?_append_left (is.length ▸ old)] at on
      rw [List.getElem?_append_left old] at has
      exact (is.below on has value mem).grow grown
    · -- The only other cell is the new one.
      have last : address = memory.length := by
        have inside := (List.getElem?_eq_some_iff.mp has).1
        rw [List.length_append, List.length_singleton] at inside
        omega
      subst last
      rw [← is.length, List.getElem?_concat_length] at on
      rw [List.getElem?_concat_length] at has
      obtain rfl := Option.some.inj on
      obtain rfl := Option.some.inj has
      exact (below value mem).grow grown

theorem Levelled.set (is : Levelled levels memory) (here : levels[address]? = some level)
    (below : ∀ value ∈ cell.values, value.On levels (level + 1)) :
    Levelled levels (memory.set address cell) where
  length := by rw [List.length_set, is.length]
  below {other at' there} on has value mem := by
    by_cases same : address = other
    · subst same
      have inside := (List.getElem?_eq_some_iff.mp on).1
      rw [List.getElem?_set_self (is.length ▸ inside)] at has
      obtain rfl := Option.some.inj has
      obtain rfl := Option.some.inj (here.symm.trans on)
      exact below value mem
    · rw [List.getElem?_set_ne same] at has
      exact is.below on has value mem

theorem Levelled.members (is : Levelled levels memory) (on : value.On levels level) :
    ∀ member ∈ (members? memory value).getD [], member.2.On levels (level + 1) := by
  intro member mem
  cases value with
  | atom => cases mem
  | ref address =>
      simp only [members?] at mem
      split at mem
      · rename_i members cell
        exact is.below on cell _ (List.mem_map_of_mem mem)
      · cases mem

mutual

theorem exists_levels_store : ∀ (json : Json) {levels : List Nat} {memory : Memory} (level : Nat),
    Levelled levels memory → ∃ more, levels <+: more ∧ Levelled more (store json memory).2 ∧
      (store json memory).1.On more level
  | .null, levels, _, _, is => ⟨levels, List.prefix_rfl, is, trivial⟩
  | .bool _, levels, _, _, is => ⟨levels, List.prefix_rfl, is, trivial⟩
  | .int _, levels, _, _, is => ⟨levels, List.prefix_rfl, is, trivial⟩
  | .double _, levels, _, _, is => ⟨levels, List.prefix_rfl, is, trivial⟩
  | .str _, levels, _, _, is => ⟨levels, List.prefix_rfl, is, trivial⟩
  | .arr elements, _, _, level, is => by
    obtain ⟨more, grown, then', each⟩ := exists_levels_storeElements elements (level + 1) is
    refine ⟨more ++ [level], grown.trans (List.prefix_append _ _), then'.append each, ?_⟩
    show (more ++ [level])[_]? = some level
    rw [← then'.length, List.getElem?_concat_length]
  | .obj members, _, _, level, is => by
    obtain ⟨more, grown, then', each⟩ := exists_levels_storeMembers members (level + 1) is
    refine ⟨more ++ [level], grown.trans (List.prefix_append _ _), then'.append ?_, ?_⟩
    · intro value mem
      obtain ⟨member, inside, rfl⟩ := List.mem_map.mp mem
      exact each member inside
    · show (more ++ [level])[_]? = some level
      rw [← then'.length, List.getElem?_concat_length]

theorem exists_levels_storeElements : ∀ (elements : List Json) {levels : List Nat}
    {memory : Memory} (level : Nat), Levelled levels memory →
    ∃ more, levels <+: more ∧ Levelled more (storeElements elements memory).2 ∧
      ∀ value ∈ (storeElements elements memory).1, value.On more level
  | [], levels, _, _, is => ⟨levels, List.prefix_rfl, is, by simp [storeElements]⟩
  | element :: rest, _, memory, level, is => by
    obtain ⟨middle, first, then', own⟩ := exists_levels_store element level is
    obtain ⟨more, second, after, each⟩ := exists_levels_storeElements rest level then'
    exact ⟨more, first.trans second, after, List.forall_mem_cons.mpr ⟨own.grow second, each⟩⟩

theorem exists_levels_storeMembers : ∀ (members : List (String × Json)) {levels : List Nat}
    {memory : Memory} (level : Nat), Levelled levels memory →
    ∃ more, levels <+: more ∧ Levelled more (storeMembers members memory).2 ∧
      ∀ member ∈ (storeMembers members memory).1, member.2.On more level
  | [], levels, _, _, is => ⟨levels, List.prefix_rfl, is, by simp [storeMembers]⟩
  | (_, member) :: rest, _, memory, level, is => by
    obtain ⟨middle, first, then', own⟩ := exists_levels_store member level is
    obtain ⟨more, second, after, each⟩ := exists_levels_storeMembers rest level then'
    exact ⟨more, first.trans second, after, List.forall_mem_cons.mpr ⟨own.grow second, each⟩⟩

end

section Read

theorem isSome_mapM {α β : Type} {f : α → Option β} {row : List α}
    (each : ∀ x ∈ row, (f x).isSome) : (row.mapM f).isSome := by
  induction row with
  | nil => rfl
  | cons x rest ih =>
      obtain ⟨first, each⟩ := List.forall_mem_cons.mp each
      obtain ⟨y, own⟩ := Option.isSome_iff_exists.mp first
      obtain ⟨ys, others⟩ := Option.isSome_iff_exists.mp (ih each)
      rw [List.mapM_cons, own, others]
      rfl

theorem countP_lt (here : levels[address]? = some level) :
    levels.countP (level + 1 ≤ ·) < levels.countP (level ≤ ·) := by
  obtain ⟨before, after, rfl⟩ := List.append_of_mem (List.mem_of_getElem? here)
  have fewer (row : List Nat) : row.countP (level + 1 ≤ ·) ≤ row.countP (level ≤ ·) :=
    List.countP_mono_left fun at' _ => by simp only [decide_eq_true_eq]; omega
  have front := fewer before
  have rear := fewer after
  simp only [List.countP_append, List.countP_cons, decide_eq_true_eq, Nat.le_refl, if_true,
    Nat.not_succ_le_self, if_false]
  omega

/-- A value on a level is read in a depth of the number of cells from there on. -/
theorem Levelled.readWithin (is : Levelled levels memory) {depth : Nat}
    (on : value.On levels level) (enough : levels.countP (level ≤ ·) ≤ depth) :
    (readWithin depth memory value).isSome := by
  induction depth generalizing level value with
  | zero =>
      cases value with
      | atom => rfl
      | ref address => exact absurd (countP_lt on) (by omega)
  | succ depth ih =>
      cases value with
      | atom => rfl
      | ref address =>
          have fewer := countP_lt on
          have inside : address < memory.length :=
            is.length ▸ (List.getElem?_eq_some_iff.mp on).1
          have cell := List.getElem?_eq_getElem inside
          have each := is.below on cell
          rw [Memory.readWithin, cell]
          cases there : memory[address] with
          | arr elements =>
              rw [there] at each
              rw [Option.isSome_map]
              exact isSome_mapM fun element mem => ih (each element mem) (by omega)
          | obj members =>
              rw [there] at each
              rw [Option.isSome_map]
              refine isSome_mapM fun member mem => ?_
              rw [Option.isSome_map]
              exact ih (each member.2 (List.mem_map_of_mem mem)) (by omega)

theorem Levelled.read? (is : Levelled levels memory) (on : value.On levels level) :
    (memory.read? value).isSome :=
  is.readWithin on (is.length ▸ List.countP_le_length)

end Read

end SchemaForms.Memory

namespace SchemaForms

open Memory

/-- The level of the object at the end of an override's path, in a tree on level 0. -/
def Overlay.level (path : String) : Nat :=
  match pathTokens path with
  | .ok tokens => tokens.length
  | .error _ => 0

namespace StoredOverlay

/-- The memory is levelled with the extensions of each override one level below their target. -/
structure Fits (levels : List Nat) (memory : Memory) (overlay : StoredOverlay) : Prop where
  memory : Levelled levels memory
  extensions : ∀ override ∈ overlay, ∀ extension ∈ override.extensions,
    extension.2.On levels (Overlay.level override.path + 1)

variable {levels : List Nat} {memory : Memory} {level target : Nat} {value : Value}
  {tokens : List String} {overlay : StoredOverlay}

theorem find_level (is : Levelled levels memory) (on : value.On levels level)
    (found : find memory tokens value = .ok target) :
    Value.On levels (level + tokens.length) (.ref target) := by
  induction tokens generalizing value level with
  | nil =>
      cases value with
      | atom => cases found
      | ref address =>
          simp only [find] at found
          split at found
          · exact Except.ok.inj found ▸ on
          · cases found
  | cons token rest ih =>
      cases value with
      | atom => cases found
      | ref address =>
          have below : ∀ {cell : Cell}, memory[address]? = some cell → _ := is.below on
          rw [List.length_cons, Nat.add_comm rest.length, ← Nat.add_assoc]
          simp only [find] at found
          split at found
          · rename_i members cell
            split at found
            · rename_i member has
              exact ih (below cell _ (List.mem_map_of_mem (mem_of_lookup has))) found
            · cases found
          · rename_i elements cell
            split at found
            · cases found
            · split at found
              · rename_i element has
                obtain ⟨index, -, has⟩ := Option.bind_eq_some_iff.mp has
                exact ih (below cell _ (List.mem_of_getElem? has)) found
              · cases found
          · cases found

/-- An extension on the level below the target is put in; a merged one gets a cell on that level. -/
theorem exists_levels_putExtension {extension : String × Value} (is : Levelled levels memory)
    (here : Value.On levels level (.ref target)) (on : extension.2.On levels (level + 1)) :
    ∃ more, levels <+: more ∧ Levelled more (putExtension target memory extension) := by
  obtain ⟨key, value⟩ := extension
  have present : ∀ member ∈ (members? memory (.ref target)).getD [],
      member.2.On levels (level + 1) := is.members here
  simp only [putExtension]
  generalize (members? memory (.ref target)).getD [] = members at present ⊢
  split
  · have old : ∀ member ∈ ((members.lookup key).bind (members? memory)).getD [],
        member.2.On levels (level + 1 + 1) := by
      cases has : members.lookup key with
      | none => simp
      | some inner => exact is.members (present _ (mem_of_lookup has))
    generalize ((members.lookup key).bind (members? memory)).getD [] = present' at old ⊢
    have merged : Levelled (levels ++ [level + 1])
        (memory ++ [.obj (setAllNamed present' ((members? memory value).getD []))]) := by
      refine is.append fun _ mem => ?_
      obtain ⟨member, inside, rfl⟩ := List.mem_map.mp mem
      obtain inside | inside := mem_setAllNamed inside
      · exact old member inside
      · exact is.members on member inside
    have grown : levels <+: levels ++ [level + 1] := List.prefix_append _ _
    have inside : target < memory.length := is.length ▸ (List.getElem?_eq_some_iff.mp here).1
    refine ⟨levels ++ [level + 1], grown, ?_⟩
    rw [← List.set_append_left _ _ inside]
    refine merged.set (here.grow grown) fun _ mem => ?_
    obtain ⟨member, there, rfl⟩ := List.mem_map.mp mem
    obtain there | rfl := mem_setNamed there
    · exact (present member there).grow grown
    · show (levels ++ [level + 1])[memory.length]? = some (level + 1)
      rw [← is.length, List.getElem?_concat_length]
  · refine ⟨levels, List.prefix_rfl, is.set here fun _ mem => ?_⟩
    obtain ⟨member, inside, rfl⟩ := List.mem_map.mp mem
    obtain mem | rfl := mem_setNamed inside
    · exact present member mem
    · exact on

theorem exists_levels_foldl {extensions : List (String × Value)} (is : Levelled levels memory)
    (here : Value.On levels level (.ref target))
    (each : ∀ extension ∈ extensions, extension.2.On levels (level + 1)) :
    ∃ more, levels <+: more ∧
      Levelled more (extensions.foldl (putExtension target) memory) := by
  induction extensions generalizing levels memory with
  | nil => exact ⟨levels, List.prefix_rfl, is⟩
  | cons extension rest ih =>
      obtain ⟨own, each⟩ := List.forall_mem_cons.mp each
      obtain ⟨middle, first, then'⟩ := exists_levels_putExtension is here own
      obtain ⟨more, second, after⟩ := ih then'
        (here.grow first)
        fun extension mem => (each extension mem).grow first
      exact ⟨more, first.trans second, after⟩

theorem exists_levels_applyOverride {override : StoredOverride} {later : Memory}
    (is : Levelled levels memory) (root : value.On levels 0)
    (each : ∀ extension ∈ override.extensions,
      extension.2.On levels (Overlay.level override.path + 1))
    (run : applyOverride override value memory = .ok later) :
    ∃ more, levels <+: more ∧ Levelled more later := by
  simp only [applyOverride] at run
  split at run
  · cases run
  · rename_i tokens isPath
    split at run
    · cases run
    · rename_i target found
      have here := find_level is root found
      rw [Nat.zero_add] at here
      simp only [Overlay.level, isPath] at each
      exact Except.ok.inj run ▸ exists_levels_foldl is here each

theorem Fits.grow {more : List Nat} {later : Memory} (fits : Fits levels memory overlay)
    (is : Levelled more later) (grown : levels <+: more) : Fits more later overlay where
  memory := is
  extensions override there extension mem :=
    (fits.extensions override there extension mem).grow grown

theorem Fits.applyOverrides (fits : Fits levels memory overlay) (root : value.On levels 0) :
    ∃ more, levels <+: more ∧
      Levelled more (applyOverrides overlay value memory).1 := by
  induction overlay generalizing levels memory with
  | nil => exact ⟨levels, List.prefix_rfl, fits.memory⟩
  | cons override rest ih =>
      obtain ⟨own, others⟩ := List.forall_mem_cons.mp fits.extensions
      simp only [StoredOverlay.applyOverrides]
      split
      · rename_i later run
        obtain ⟨middle, first, then'⟩ := exists_levels_applyOverride fits.memory root own run
        obtain ⟨more, second, after⟩ :=
          ih (Fits.grow ⟨fits.memory, others⟩ then' first) (root.grow first)
        exact ⟨more, first.trans second, after⟩
      · exact ⟨levels, List.prefix_rfl, fits.memory⟩

/-- A tree that is stored behind the overlay is put on level 0, and what the overlay makes of it has
levels, too. -/
theorem Fits.apply (fits : Fits levels memory overlay) (tree : Json) :
    ∃ more, Fits more
        (overlay.apply (Memory.store tree memory).1 (Memory.store tree memory).2).1 overlay ∧
      (Memory.store tree memory).1.On more 0 := by
  obtain ⟨middle, first, stored, root⟩ := exists_levels_store tree 0 fits.memory
  have fits' := fits.grow stored first
  unfold StoredOverlay.apply
  split
  · exact ⟨middle, fits', root⟩
  · obtain ⟨more, second, after⟩ := fits'.applyOverrides root
    exact ⟨more, fits'.grow after second, root.grow second⟩

/-- Each extension of a stored overlay is put on the level below its target. -/
theorem exists_fits_store (overrides : List Override) (is : Levelled levels memory) :
    ∃ more, levels <+: more ∧ Fits more (store overrides memory).2 (store overrides memory).1 := by
  induction overrides generalizing levels memory with
  | nil => exact ⟨levels, List.prefix_rfl, is, by simp [store]⟩
  | cons override rest ih =>
      obtain ⟨middle, first, then', own⟩ := exists_levels_storeMembers override.extensions
        (Overlay.level override.path + 1) is
      obtain ⟨more, second, after⟩ := ih then'
      refine ⟨more, first.trans second, after.memory, ?_⟩
      refine List.forall_mem_cons.mpr ⟨fun extension mem => ?_, after.extensions⟩
      exact (own extension mem).grow second

end StoredOverlay

namespace Catalog

variable {stored : StoredOverlay} {start memory : Memory}

/-- What the memory of an overlay may have become in uses, of whatever documents. -/
inductive Used (stored : StoredOverlay) (start : Memory) : Memory → Prop
  | start : Used stored start start
  | use {memory : Memory} (used : Used stored start memory) (stack : Stack)
      (loader : Option Loader) (resolveOptions : ResolveOptions) (current : String)
      (options : FormOptions) (document : Document) :
      Used stored start
        (Catalog.use stack loader resolveOptions current options (some stored) document memory).2

theorem exists_fits_use (fits : ∃ levels, stored.Fits levels memory) (stack : Stack)
    (loader : Option Loader) (resolveOptions : ResolveOptions) (current : String)
    (options : FormOptions) (document : Document) :
    ∃ levels, stored.Fits levels
      (use stack loader resolveOptions current options (some stored) document memory).2 := by
  simp only [use]
  split
  · exact fits
  · rename_i payload resolved _
    obtain ⟨levels, fits⟩ := fits
    obtain ⟨more, after, -⟩ := fits.apply (.obj resolved)
    simp only [overlaidInMemory, kept]
    split
    · exact ⟨levels, fits⟩
    · exact ⟨more, after⟩

theorem exists_fits_of_used (fits : ∃ levels, stored.Fits levels start)
    (used : Used stored start memory) : ∃ levels, stored.Fits levels memory := by
  induction used with
  | start => exact fits
  | use _ stack loader resolveOptions current options document ih =>
      exact exists_fits_use ih stack loader resolveOptions current options document

/-- However often an overlay has been used, a tree is read behind its next use: it never comes to
contain itself. -/
theorem overlaidInMemory_of_used {overlay : Overlay}
    (used : Used (StoredOverlay.store overlay.overrides []).1
      (StoredOverlay.store overlay.overrides []).2 memory) (tree : Json) (location : String) :
    ∃ later changed failure,
      (StoredOverlay.store overlay.overrides []).1.apply (Memory.store tree memory).1
        (Memory.store tree memory).2 = (later, failure) ∧
      later.read? (Memory.store tree memory).1 = some changed ∧
      overlaidInMemory (some (StoredOverlay.store overlay.overrides []).1) tree location memory =
        (match failure with
          | some error => .error error
          | none => .ok changed, kept memory later) := by
  obtain ⟨levels, -, stored⟩ := StoredOverlay.exists_fits_store overlay.overrides Levelled.nil
  obtain ⟨levels, fits⟩ := exists_fits_of_used ⟨levels, stored⟩ used
  generalize (StoredOverlay.store overlay.overrides []).1 = stored at fits ⊢
  obtain ⟨more, after, root⟩ := fits.apply tree
  cases run : stored.apply (Memory.store tree memory).1 (Memory.store tree memory).2 with
  | mk later failure =>
      rw [run] at after
      obtain ⟨changed, read⟩ := Option.isSome_iff_exists.mp (after.memory.read? root)
      refine ⟨later, changed, failure, rfl, read, ?_⟩
      simp only [overlaidInMemory, run, read]
      cases failure <;> rfl

end Catalog

end SchemaForms
