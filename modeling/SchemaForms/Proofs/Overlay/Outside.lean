import SchemaForms.Form.Use
import SchemaForms.Proofs.Overlay.Stored

/-!
# Overlays that stay as they are

What an overlay shares with a tree stands under the names of extensions. So an override whose path
does not lead through one changes only the tree, and an overlay of such overrides is the same behind
every use.
-/

namespace SchemaForms

open Memory

/-- The path does not lead through an extension, and extensions are all that is put in, as in every
overlay that is read. -/
structure StoredOverride.Outside (override : StoredOverride) : Prop where
  path : ∀ tokens, Overlay.pathTokens override.path = .ok tokens →
    ∀ token ∈ tokens, Overlay.isExtension token = false
  extensions : ∀ extension ∈ override.extensions, Overlay.isExtension extension.1 = true

namespace StoredOverlay

/-- Whatever a value leads to, but not through an extension, has an address from a given one on. -/
inductive Sealed (start : Nat) (memory : Memory) : Value → Prop
  | atom (a : Atom) : Sealed start memory (.atom a)
  | arr {address : Nat} {elements : List Value} (late : start ≤ address)
      (cell : memory[address]? = some (.arr elements))
      (each : ∀ element ∈ elements, Sealed start memory element) :
      Sealed start memory (.ref address)
  | obj {address : Nat} {members : List (String × Value)} (late : start ≤ address)
      (cell : memory[address]? = some (.obj members))
      (each : ∀ member ∈ members, Overlay.isExtension member.1 = false →
        Sealed start memory member.2) :
      Sealed start memory (.ref address)

variable {start target : Nat} {memory later : Memory} {value : Value} {tokens : List String}
  {layout : Layout}

theorem sealed_of_fits (fits : Layout.Fits memory layout)
    (late : ∀ address ∈ layout.addresses, start ≤ address) :
    Sealed start memory layout.value := by
  induction fits with
  | atom a => exact .atom a
  | arr cell each ih =>
      rw [Layout.addresses_arr] at late
      obtain ⟨own, below⟩ := List.forall_mem_cons.mp late
      refine .arr own cell fun _ mem => ?_
      obtain ⟨element, inside, rfl⟩ := List.mem_map.mp mem
      exact ih element inside fun address there =>
        below address (List.mem_flatMap_of_mem inside there)
  | obj cell each ih =>
      rw [Layout.addresses_obj] at late
      obtain ⟨own, below⟩ := List.forall_mem_cons.mp late
      refine .obj own cell fun _ mem _ => ?_
      obtain ⟨member, inside, rfl⟩ := List.mem_map.mp mem
      exact ih member inside fun address there =>
        below address (List.mem_flatMap_of_mem inside there)

/-- A path that does not lead through an extension ends in the sealed part. -/
theorem Sealed.find (is : Sealed start memory value)
    (outside : ∀ token ∈ tokens, Overlay.isExtension token = false)
    (found : find memory tokens value = .ok target) : start ≤ target := by
  induction tokens generalizing value with
  | nil =>
      cases is with
      | atom => cases found
      | arr _ cell =>
          rw [StoredOverlay.find, cell] at found
          cases found
      | obj late cell =>
          rw [StoredOverlay.find, cell] at found
          exact Except.ok.inj found ▸ late
  | cons token rest ih =>
      obtain ⟨own, outside⟩ := List.forall_mem_cons.mp outside
      cases is with
      | atom => cases found
      | @arr address elements _ cell each =>
          simp only [StoredOverlay.find, cell] at found
          split at found
          · cases found
          · rename_i index
            split at found
            · rename_i element has
              obtain ⟨index, -, has⟩ := Option.bind_eq_some_iff.mp has
              exact ih (each element (List.mem_of_getElem? has)) outside found
            · cases found
      | obj _ cell each =>
          simp only [StoredOverlay.find, cell] at found
          split at found
          · rename_i element has
            exact ih (each _ (mem_of_lookup has) own) outside found
          · cases found

/-- An extension that is put in changes one cell under its name, and there may be new cells. -/
theorem exists_putExtension (target : Nat) (memory : Memory) (extension : String × Value) :
    ∃ value,
      (target < memory.length → (putExtension target memory extension)[target]? =
        some (.obj (setNamed ((members? memory (.ref target)).getD []) extension.1 value))) ∧
      (∀ address < memory.length, address ≠ target →
        (putExtension target memory extension)[address]? = memory[address]?) ∧
      memory.length ≤ (putExtension target memory extension).length := by
  have shape : ∃ value new, putExtension target memory extension = memory.set target
      (.obj (setNamed ((members? memory (.ref target)).getD []) extension.1 value)) ++ new := by
    simp only [putExtension]
    split
    · exact ⟨_, _, rfl⟩
    · exact ⟨_, [], (List.append_nil _).symm⟩
  obtain ⟨value, new, run⟩ := shape
  rw [run]
  refine ⟨value, fun inside => ?_, fun address less ne => ?_, by simp⟩
  · rw [List.getElem?_append_left (by simpa using inside), List.getElem?_set_self inside]
  · exact Layout.getElem?_set_append less ne

/-- A later memory has the same cells before a given address, and what was sealed from there on still
is. -/
structure Keeps (start : Nat) (memory later : Memory) : Prop where
  take : later.take start = memory.take start
  length : start ≤ later.length
  sealed : ∀ {value : Value}, Sealed start memory value → Sealed start later value

theorem Keeps.refl (enough : start ≤ memory.length) : Keeps start memory memory :=
  ⟨rfl, enough, id⟩

theorem Keeps.trans {middle : Memory} (first : Keeps start memory middle)
    (second : Keeps start middle later) : Keeps start memory later :=
  ⟨second.take.trans first.take, second.length, second.sealed ∘ first.sealed⟩

theorem Sealed.putExtension {extension : String × Value} (is : Sealed start memory value)
    (named : Overlay.isExtension extension.1 = true) (target : Nat) :
    Sealed start (putExtension target memory extension) value := by
  obtain ⟨new, changed, others, -⟩ := exists_putExtension target memory extension
  have inside : ∀ {address : Nat} {cell : Cell}, memory[address]? = some cell →
      address < memory.length := fun cell => (List.getElem?_eq_some_iff.mp cell).1
  induction is with
  | atom a => exact .atom a
  | @arr address elements late cell each ih =>
      by_cases here : address = target
      · subst here
        refine .obj late (changed (inside cell)) fun member mem not => ?_
        simp only [members?, cell, Option.getD_none] at mem
        obtain mem | rfl := mem_setNamed mem
        · cases mem
        · rw [named] at not
          cases not
      · exact .arr late ((others address (inside cell) here).trans cell) ih
  | @obj address members late cell each ih =>
      by_cases here : address = target
      · subst here
        refine .obj late (changed (inside cell)) fun member mem not => ?_
        simp only [members?, cell, Option.getD_some] at mem
        obtain mem | rfl := mem_setNamed mem
        · exact ih member mem not
        · rw [named] at not
          cases not
      · exact .obj late ((others address (inside cell) here).trans cell) ih

theorem keeps_putExtension {extension : String × Value}
    (named : Overlay.isExtension extension.1 = true) (late : start ≤ target)
    (enough : start ≤ memory.length) :
    Keeps start memory (putExtension target memory extension) where
  take := by
    obtain ⟨-, -, others, -⟩ := exists_putExtension target memory extension
    apply List.ext_getElem?
    intro address
    rw [List.getElem?_take, List.getElem?_take]
    split
    · exact others address (by omega) (by omega)
    · rfl
  length := by
    obtain ⟨-, -, -, longer⟩ := exists_putExtension target memory extension
    exact Nat.le_trans enough longer
  sealed is := is.putExtension named target

theorem keeps_foldl {extensions : List (String × Value)}
    (named : ∀ extension ∈ extensions, Overlay.isExtension extension.1 = true)
    (late : start ≤ target) (enough : start ≤ memory.length) :
    Keeps start memory (extensions.foldl (putExtension target) memory) := by
  induction extensions generalizing memory with
  | nil => exact .refl enough
  | cons extension rest ih =>
      obtain ⟨own, named⟩ := List.forall_mem_cons.mp named
      have first : Keeps start memory _ := keeps_putExtension own late enough
      exact first.trans (ih named first.length)

/-- Overrides whose paths do not lead through extensions change only what is sealed. -/
theorem keeps_applyOverrides {overlay : StoredOverlay}
    (outside : ∀ override ∈ overlay, override.Outside) (is : Sealed start memory value)
    (enough : start ≤ memory.length) :
    Keeps start memory (applyOverrides overlay value memory).1 := by
  induction overlay generalizing memory with
  | nil => exact .refl enough
  | cons override rest ih =>
      obtain ⟨own, outside⟩ := List.forall_mem_cons.mp outside
      simp only [applyOverrides]
      split
      · rename_i later run
        have first : Keeps start memory later := by
          simp only [applyOverride] at run
          split at run
          · cases run
          · rename_i tokens isPath
            split at run
            · cases run
            · rename_i target found
              rw [← Except.ok.inj run]
              exact keeps_foldl own.extensions (is.find (own.path tokens isPath) found) enough
        exact first.trans (ih outside (first.sealed is) first.length)
      · exact .refl enough

/-- So the memory of the overlay is the same behind a use. -/
theorem prefix_apply {overlay : StoredOverlay} (outside : ∀ override ∈ overlay, override.Outside)
    (tree : Json) (memory : Memory) :
    memory <+: (overlay.apply (Memory.store tree memory).1 (Memory.store tree memory).2).1 := by
  obtain ⟨layout, later, -, run, added⟩ := Layout.exists_store tree memory
  have fits : Layout.Fits later layout := added.fits layout List.mem_cons_self
  have is : Sealed memory.length later layout.value :=
    sealed_of_fits fits fun address mem => added.fresh address (by simpa using mem)
  rw [run]
  unfold apply
  split
  · exact added.grown
  · have keeps := keeps_applyOverrides outside is added.grown.length_le
    have same : later.take memory.length = memory := List.prefix_iff_eq_take.mp added.grown |>.symm
    rw [List.prefix_iff_eq_take, keeps.take, same]

end StoredOverlay

theorem Catalog.overlaidInMemory_outside {overlay : Option StoredOverlay}
    (outside : ∀ stored ∈ overlay, ∀ override ∈ stored, override.Outside) (tree : Json)
    (location : String) (memory : Memory) :
    (overlaidInMemory overlay tree location memory).2 = memory := by
  cases overlay with
  | none => rfl
  | some stored =>
      have kept := StoredOverlay.prefix_apply (outside stored rfl) tree memory
      simp only [overlaidInMemory, Catalog.kept]
      rw [if_pos (List.isPrefixOf_iff_prefix.mpr kept)]

end SchemaForms
