import SchemaForms.Proofs.Overlay.Patched
import SchemaForms.Proofs.Overlay.Targets

/-!
# The effect of an overlay

Overrides are applied one after another, each to the tree that those before it have left. As long as
no path leads into an extension, this makes no difference for where the paths lead: every path means
the object that it means in the first tree (`edit_patch`). So the tree behind a row of overrides is the
first tree with extensions put in, and each of its objects is given what the overrides that address it
carry, in order (`applyOverrides_append`).

Two paths may address one object, since an index may have zeros in front and a token may be escaped;
`place` tells the object by the steps to it.
-/

namespace SchemaForms.Overlay

variable {added : Additions} {root value old : Json} {members extensions : Members}
variable {elements : List Json} {tokens : List String} {token path : String}
variable {steps : List Json.Step} {fault : TargetFault}

/-- The steps that a row of tokens takes to an object. -/
def locate : List String → Json → Except TargetFault (List Json.Step)
  | [], .obj _ => .ok []
  | [], _ => .error (.overlay .targetNotObject)
  | token :: rest, .obj members =>
    match Members.get? members token with
    | some value => (locate rest value).map (.key token :: ·)
    | none => .error (.overlay .pathNotFound)
  | token :: rest, .arr elements =>
    match Pointer.index token elements.length with
    | .error fault => .error (.digits fault)
    | .ok none => .error (.overlay .pathNotFound)
    | .ok (some index) =>
      match elements[index]? with
      | some value => (locate rest value).map (.index index :: ·)
      | none => .error (.overlay .pathNotFound)
  | _ :: _, _ => .error (.overlay .pathNotFound)

/-- The steps to the object that an override's path means. -/
def place (root : Json) (path : String) : Except TargetFault (List Json.Step) :=
  ((pathTokens path).mapError .overlay).bind (locate · root)

/-- The tokens lead to the object at the end of the steps that they take, or fail as these do. -/
inductive Leads (tokens : List String) (root : Json) : Prop
  | object (steps : List Json.Step) (members : Members)
      (located : locate tokens root = .ok steps) (found : find tokens root = .ok members)
      (there : root.follow? steps = some (.obj members))
  | nowhere (fault : TargetFault) (located : locate tokens root = .error fault)
      (found : find tokens root = .error fault)

/-- A first token that leads to a value goes on as the others do from there. -/
theorem Leads.cons {rest : List String} {step : Json.Step} (below : Leads rest value)
    (locates : locate (token :: rest) root = (locate rest value).map (step :: ·))
    (finds : find (token :: rest) root = find rest value)
    (follows : ∀ steps, root.follow? (step :: steps) = value.follow? steps) :
    Leads (token :: rest) root := by
  cases below with
  | object steps members located found there =>
      refine .object (step :: steps) members ?_ (finds.trans found) ((follows steps).trans there)
      rw [locates, located]
      rfl
  | nowhere fault located found =>
      refine .nowhere fault ?_ (finds.trans found)
      rw [locates, located]
      rfl

theorem leads (tokens : List String) (root : Json) : Leads tokens root := by
  induction tokens generalizing root with
  | nil =>
      cases root with
      | obj members => exact .object [] members rfl rfl rfl
      | _ => exact .nowhere (.overlay .targetNotObject) rfl rfl
  | cons token rest ih =>
      cases root with
      | obj members =>
          cases has : Members.get? members token with
          | none =>
              exact .nowhere (.overlay .pathNotFound) (by simp [locate, has]) (by simp [find, has])
          | some value =>
              exact (ih value).cons (by simp [locate, has]; rfl) (by simp [find, has])
                fun steps => by simp [Json.follow?, has]
      | arr elements =>
          cases read : Pointer.index token elements.length with
          | error fault =>
              exact .nowhere (.digits fault) (by simp [locate, read]) (by simp [find, read])
          | ok number =>
              cases has : number.bind (elements[·]?) with
              | none =>
                  refine .nowhere (.overlay .pathNotFound) ?_ (by simp [find, read, has])
                  cases number with
                  | none => simp [locate, read]
                  | some number => simp_all [locate]
              | some value =>
                  obtain ⟨number, rfl, there⟩ := Option.bind_eq_some_iff.mp has
                  exact (ih value).cons (by simp [locate, read, there]; rfl)
                    (by simp [find, read, there]) fun steps => by simp [Json.follow?, there]
      | _ => exact .nowhere (.overlay .pathNotFound) rfl rfl

theorem outside_cons {step : Json.Step} (first : ∀ name, step = .key name → isExtension name = false)
    (below : Outside steps) : Outside (step :: steps) := by
  intro name mem
  obtain here | mem := List.mem_cons.mp mem
  · exact first name here.symm
  · exact below name mem

theorem outside_of_locate (outside : ∀ token ∈ tokens, isExtension token = false)
    (located : locate tokens root = .ok steps) : Outside steps := by
  induction tokens generalizing root steps with
  | nil =>
      cases root with
      | obj members =>
          cases located
          intro name mem
          cases mem
      | _ => cases located
  | cons token rest ih =>
      obtain ⟨other, outside⟩ := List.forall_mem_cons.mp outside
      cases root with
      | obj members =>
          rw [locate] at located
          split at located
          · obtain ⟨below, run, rfl⟩ := except_map_eq_ok.mp located
            refine outside_cons (fun name same => ?_) (ih outside run)
            rwa [← Json.Step.key.inj same]
          · cases located
      | arr elements =>
          rw [locate] at located
          split at located
          · cases located
          · cases located
          · split at located
            · obtain ⟨below, run, rfl⟩ := except_map_eq_ok.mp located
              exact outside_cons nofun (ih outside run)
            · cases located
      | _ => cases located

theorem place_eq_ok : place root path = .ok steps ↔
    ∃ tokens, pathTokens path = .ok tokens ∧ locate tokens root = .ok steps := by
  unfold place
  cases pathTokens path with
  | error fault => exact ⟨nofun, nofun⟩
  | ok tokens =>
      constructor
      · intro located
        exact ⟨tokens, rfl, located⟩
      · rintro ⟨_, ⟨⟩, located⟩
        exact located

theorem target_of_place (placed : place root path = .ok steps) :
    ∃ members, target root path = .ok members ∧ root.follow? steps = some (.obj members) := by
  obtain ⟨tokens, isPath, located⟩ := place_eq_ok.mp placed
  cases leads tokens root with
  | object steps' members located' found there =>
      obtain rfl : steps' = steps := Except.ok.inj (located'.symm.trans located)
      exact ⟨members, by simp [target, isPath, found, Except.mapError], there⟩
  | nowhere fault located' found => cases located'.symm.trans located

theorem target_of_place_error (missing : place root path = .error fault) :
    target root path = .error (fault.error path) := by
  unfold place at missing
  unfold target
  cases isPath : pathTokens path with
  | error fault' =>
      rw [isPath] at missing
      cases missing
      rfl
  | ok tokens =>
      rw [isPath] at missing
      cases leads tokens root with
      | object steps members located found there => cases located.symm.trans missing
      | nowhere fault' located found =>
          obtain rfl : fault' = fault := Except.error.inj (located.symm.trans missing)
          simp [found, Except.mapError]

/-- A token of an override's path is too long for an index. -/
def HasOverlong (path : String) : Prop :=
  ∃ tokens, pathTokens path = .ok tokens ∧ ∃ token ∈ tokens, Pointer.Overlong token

theorem overlong_of_locate {digits : Text.DigitFault}
    (located : locate tokens root = .error (.digits digits)) :
    ∃ token ∈ tokens, Pointer.Overlong token := by
  induction tokens generalizing root with
  | nil => cases root <;> cases located
  | cons token rest ih =>
      have below {value : Json} {step : Json.Step}
          (run : (locate rest value).map (step :: ·) = .error (.digits digits)) :
          ∃ token' ∈ token :: rest, Pointer.Overlong token' := by
        cases inner : locate rest value with
        | ok steps =>
            rw [inner] at run
            cases run
        | error fault =>
            rw [inner] at run
            cases run
            obtain ⟨later, mem, long⟩ := ih inner
            exact ⟨later, List.mem_cons_of_mem _ mem, long⟩
      cases root with
      | obj members =>
          rw [locate] at located
          split at located
          · exact below located
          · cases located
      | arr elements =>
          rw [locate] at located
          split at located
          · rename_i read
            exact ⟨token, List.mem_cons_self, Pointer.overlong_of_index read⟩
          · cases located
          · split at located
            · exact below located
            · cases located
      | _ => cases located

/-- What is wrong with a path that means no object is reported with the path, unless a token of the
path is too long for an index. -/
theorem place_error (missing : place root path = .error fault) :
    (∃ cause, fault.error path = error cause path) ∨
      (∃ digits, fault.error path = .digits digits) ∧ HasOverlong path := by
  unfold place at missing
  cases fault with
  | overlay cause => exact .inl ⟨cause, rfl⟩
  | digits digits =>
      refine .inr ⟨⟨digits, rfl⟩, ?_⟩
      cases isPath : pathTokens path with
      | error cause =>
          rw [isPath] at missing
          cases missing
      | ok tokens =>
          rw [isPath] at missing
          exact ⟨tokens, isPath, overlong_of_locate missing⟩

/-! ## One override -/

theorem patchMembers_congr {other : Additions}
    (same : ∀ key, added.below (.key key) = other.below (.key key)) (members : Members) :
    patchMembers added members = patchMembers other members := by
  induction members with
  | nil => rfl
  | cons member rest ih => rw [patchMembers, patchMembers, same, ih]

/-- To give something to a place below one member is to change this member. -/
theorem set_patchMembers (distinct : (Members.keys members).Nodup)
    (has : Members.get? members token = some old) (other : isExtension token = false)
    (steps : List Json.Step) (extensions : Members) :
    Members.set (patchMembers added members) token
        (patch ((added.below (.key token)).append (.only steps extensions)) old) =
      patchMembers (added.append (.only (.key token :: steps) extensions)) members := by
  have there : token ∈ Members.keys (patchMembers added members) := mem_keys_patchMembers has
  have order : Members.keys (Members.set (patchMembers added members) token
      (patch ((added.below (.key token)).append (.only steps extensions)) old)) =
        Members.keys members := by
    rw [Members.keys_set, if_pos there, keys_patchMembers]
  refine Members.eq_of_get? (by rw [order, keys_patchMembers]) (by rwa [order]) fun key => ?_
  rw [get?_patchMembers _ _ key, Additions.append_below]
  by_cases same : token = key
  · subst same
    rw [Members.get?_set_self, has, Additions.only_below_self]
    simp [other]
  · have ne : Json.Step.key token ≠ .key key := fun h => same (Json.Step.key.inj h)
    rw [Members.get?_set_of_ne same, get?_patchMembers, Additions.only_below_of_ne ne,
      Additions.append_none]

/-- To give something to a place below one element is to change this element. -/
theorem set_patchElements {index : Nat} (has : elements[index]? = some old)
    (steps : List Json.Step) (extensions : Members) :
    (patchElements added 0 elements).set index
        (patch ((added.below (.index index)).append (.only steps extensions)) old) =
      patchElements (added.append (.only (.index index :: steps) extensions)) 0 elements := by
  refine List.ext_getElem? fun i => ?_
  rw [List.getElem?_set, getElem?_patchElements (added.append _), Nat.zero_add,
    Additions.append_below]
  by_cases same : index = i
  · subst same
    have inside : index < (patchElements added 0 elements).length := by
      rw [length_patchElements]
      exact (List.getElem?_eq_some_iff.mp has).1
    rw [if_pos rfl, if_pos inside, has, Additions.only_below_self]
    rfl
  · have ne : Json.Step.index index ≠ .index i := fun h => same (Json.Step.index.inj h)
    rw [if_neg same, getElem?_patchElements, Nat.zero_add, Additions.only_below_of_ne ne,
      Additions.append_none]

/-- Wherever extensions have been put in before, tokens outside of extensions take the steps that they
take in the first tree, and what is put in there comes behind what was. -/
theorem edit_patch (carries : added.Carries)
    (outside : ∀ token ∈ tokens, isExtension token = false) (distinct : root.Distinct)
    (extensions : Members) :
    edit (putAll · extensions) tokens (patch added root) =
      (locate tokens root).map fun steps => patch (added.append (.only steps extensions)) root := by
  induction tokens generalizing added root with
  | nil =>
      cases root with
      | obj members =>
          have same : patchMembers (added.append (.only [] extensions)) members =
              patchMembers added members := by
            refine patchMembers_congr (fun key => ?_) members
            rw [Additions.append_below, Additions.only_nil_below, Additions.append_none]
          show Except.ok (Json.obj (putAll (putAll _ _) _)) = Except.ok (Json.obj (putAll _ _))
          rw [same, ← putAll_append]
          rfl
      | _ => rfl
  | cons token rest ih =>
      obtain ⟨other, outside⟩ := List.forall_mem_cons.mp outside
      cases root with
      | obj members =>
          rw [patch, edit, locate, get?_patch carries other]
          cases has : Members.get? members token with
          | none => rfl
          | some old =>
              simp only [Option.map_some]
              rw [ih (carries.below (.key token)) outside (distinct.2.get? has)]
              cases locate rest old with
              | error fault => rfl
              | ok steps =>
                  show Except.ok (Json.obj _) = Except.ok (Json.obj _)
                  rw [set_putAll (carries []) other (mem_keys_patchMembers has),
                    set_patchMembers distinct.1 has other]
                  simp [Additions.append, Additions.only]
      | arr elements =>
          rw [patch, edit, locate, length_patchElements]
          cases Pointer.index token elements.length with
          | error fault => rfl
          | ok number =>
              cases number with
              | none => rfl
              | some index =>
                  simp only [getElem?_patchElements, Nat.zero_add]
                  cases has : elements[index]? with
                  | none => rfl
                  | some old =>
                      simp only [Option.map_some]
                      rw [ih (carries.below (.index index)) outside
                        (Json.DistinctElements.getElem? distinct has)]
                      cases locate rest old with
                      | error fault => rfl
                      | ok steps => exact congrArg (Except.ok ∘ Json.arr) (set_patchElements has _ _)
      | _ => rfl

/-! ## A row of overrides -/

/-- The extensions that overrides carry to each place of a tree, in order. -/
def carried (root : Json) (overrides : List Override) : Additions := fun steps =>
  (overrides.filter fun override => (place root override.path).toOption = some steps).flatMap
    (·.extensions)

/-- No token of an override's path is the name of an extension. -/
def StaysOutside (override : Override) : Prop :=
  ∀ tokens, pathTokens override.path = .ok tokens → ∀ token ∈ tokens, isExtension token = false

/-- The path of an override means an object of the tree. -/
def Resolves (root : Json) (override : Override) : Prop :=
  ∃ members, target root override.path = .ok members

/-- The override may be applied without touching what it does not address. -/
structure Fits (override : Override) : Prop where
  all : AllExtensions override.extensions
  outside : StaysOutside override

variable {override : Override} {overrides before after : List Override}

theorem Fits.outside_place (fits : Fits override) (placed : place root override.path = .ok steps) :
    Outside steps := by
  obtain ⟨tokens, isPath, located⟩ := place_eq_ok.mp placed
  exact outside_of_locate (fits.outside tokens isPath) located

theorem exists_place (resolves : Resolves root override) :
    ∃ steps, place root override.path = .ok steps := by
  cases placed : place root override.path with
  | ok steps => exact ⟨steps, rfl⟩
  | error fault =>
      obtain ⟨members, found⟩ := resolves
      cases (target_of_place_error placed).symm.trans found

theorem carried_cons (placed : place root override.path = .ok steps) (overrides : List Override) :
    carried root (override :: overrides) =
      (Additions.only steps override.extensions).append (carried root overrides) := by
  funext steps'
  simp only [carried, Additions.append, Additions.only, List.filter_cons, placed, Except.toOption,
    Option.some.injEq, eq_comm (a := steps)]
  split <;> simp_all

theorem carries_carried (fits : ∀ override ∈ overrides, Fits override) (root : Json) :
    (carried root overrides).Carries := by
  intro steps member mem
  obtain ⟨override, kept, inside⟩ := List.mem_flatMap.mp mem
  exact (fits override (List.mem_filter.mp kept).1).all member inside

/-- One override, wherever extensions have been put in before. -/
theorem applyOverride_patch (carries : added.Carries) (fits : Fits override)
    (distinct : root.Distinct) :
    applyOverride override (patch added root) =
      ((place root override.path).map fun steps =>
        patch (added.append (.only steps override.extensions)) root).mapError
          (TargetFault.error override.path) := by
  unfold applyOverride place
  cases isPath : pathTokens override.path with
  | error fault => rfl
  | ok tokens =>
      exact congrArg (Except.mapError (TargetFault.error override.path))
        (edit_patch carries (fits.outside tokens isPath) distinct override.extensions)

theorem applyOverrides_of_ok {edited : Json} (run : applyOverride override root = .ok edited)
    (rest : List Override) :
    applyOverrides (override :: rest) root = applyOverrides rest edited := by
  conv_lhs => unfold applyOverrides
  rw [run]

theorem applyOverrides_of_error {e : Error} (run : applyOverride override root = .error e)
    (rest : List Override) : applyOverrides (override :: rest) root = (root, some e) := by
  unfold applyOverrides
  rw [run]

/-- A row of overrides whose paths all lead to objects gives each object what they carry to it. -/
theorem applyOverrides_append (carries : added.Carries) (fits : ∀ override ∈ before, Fits override)
    (distinct : root.Distinct) (resolve : ∀ override ∈ before, Resolves root override)
    (after : List Override) :
    applyOverrides (before ++ after) (patch added root) =
      applyOverrides after (patch (added.append (carried root before)) root) := by
  induction before generalizing added with
  | nil =>
      rw [show carried root [] = .none from rfl, Additions.append_none]
      rfl
  | cons override rest ih =>
      obtain ⟨first, fits⟩ := List.forall_mem_cons.mp fits
      obtain ⟨here, resolve⟩ := List.forall_mem_cons.mp resolve
      obtain ⟨steps, placed⟩ := exists_place here
      have carries' := carries.append (Additions.carries_only first.all steps)
      have run := applyOverride_patch carries first distinct
      rw [placed] at run
      rw [List.cons_append, applyOverrides_of_ok run, ih carries' fits resolve, carried_cons placed,
        Additions.append_assoc]

/-- The override whose path is the first that means no object is the one that fails. -/
theorem applyOverrides_error (carries : added.Carries) (fits : ∀ override ∈ before, Fits override)
    (own : Fits override) (distinct : root.Distinct)
    (resolve : ∀ override ∈ before, Resolves root override)
    (missing : place root override.path = .error fault) (after : List Override) :
    applyOverrides (before ++ override :: after) (patch added root) =
      (patch (added.append (carried root before)) root, some (fault.error override.path)) := by
  have carries' := carries.append (carries_carried fits root)
  have run := applyOverride_patch carries' own distinct
  rw [missing] at run
  rw [applyOverrides_append carries fits distinct resolve, applyOverrides_of_error run]

/-- Of overrides that do not all resolve, there is a first one that does not. -/
theorem exists_first_missing (missing : ∃ override ∈ overrides, ¬ Resolves root override) :
    ∃ before override after fault, overrides = before ++ override :: after ∧
      (∀ earlier ∈ before, Resolves root earlier) ∧ place root override.path = .error fault := by
  induction overrides with
  | nil =>
      obtain ⟨_, mem, -⟩ := missing
      cases mem
  | cons override rest ih =>
      cases placed : place root override.path with
      | error fault => exact ⟨[], override, rest, fault, rfl, List.forall_mem_nil _, placed⟩
      | ok steps =>
          obtain ⟨members, found, -⟩ := target_of_place placed
          have here : Resolves root override := ⟨members, found⟩
          obtain ⟨other, mem, fails⟩ := missing
          have later : other ∈ rest := by
            obtain rfl | later := List.mem_cons.mp mem
            · exact absurd here fails
            · exact later
          obtain ⟨before, failing, after, fault, rfl, resolve, error⟩ := ih ⟨other, later, fails⟩
          exact ⟨override :: before, failing, after, fault, rfl,
            List.forall_mem_cons.mpr ⟨here, resolve⟩, error⟩

theorem apply_eq (overlay : Overlay) (root : Json) :
    overlay.apply root =
      if root = .obj [] then (root, none) else applyOverrides overlay.overrides root := by
  unfold apply
  split
  · rfl
  · rename_i nonempty
    rw [if_neg nonempty]

/-- An overlay whose paths lead into no extension gives each object of a tree what its overrides carry
to this object, if all of them mean an object of the tree, and to apply it once more changes nothing.
Otherwise the first override that means none fails, behind the effect of those before it, and the error
carries its path unless a token of the path is too long for an index. The object that an override means
is the one at its place. -/
theorem apply_effect {overlay : Overlay} (written : overlay.Written)
    (outside : ∀ override ∈ overlay.overrides, StaysOutside override)
    (nonempty : members ≠ []) (distinct : (Json.obj members).Distinct) :
    (∀ override ∈ overlay.overrides, ∀ steps, place (.obj members) override.path = .ok steps →
      Outside steps ∧ ∃ inner, target (.obj members) override.path = .ok inner ∧
        (Json.obj members).follow? steps = some (.obj inner)) ∧
    ((∀ override ∈ overlay.overrides, Resolves (.obj members) override) →
      ∃ edited, overlay.apply (.obj members) = (edited, none) ∧
        Patched (carried (.obj members) overlay.overrides) (.obj members) edited ∧
        overlay.apply edited = (edited, none)) ∧
    ((∃ override ∈ overlay.overrides, ¬ Resolves (.obj members) override) →
      ∃ before override after failure edited, overlay.overrides = before ++ override :: after ∧
        (∀ earlier ∈ before, Resolves (.obj members) earlier) ∧
        target (.obj members) override.path = .error failure ∧
        overlay.apply (.obj members) = (edited, some failure) ∧
        Patched (carried (.obj members) before) (.obj members) edited ∧
        ((∃ fault, failure = error fault override.path) ∨
          (∃ fault, failure = .digits fault) ∧ HasOverlong override.path)) := by
  have fits : ∀ override ∈ overlay.overrides, Fits override :=
    fun override mem => ⟨written.allExtensions override mem, outside override mem⟩
  have start : overlay.apply (.obj members) =
      applyOverrides overlay.overrides (patch .none (.obj members)) := by
    rw [apply_eq, if_neg (by simpa using nonempty), patch_none]
  refine ⟨?_, ?_, ?_⟩
  · intro override mem steps placed
    exact ⟨(fits override mem).outside_place placed, target_of_place placed⟩
  · intro resolve
    have run {added : Additions} (carries : added.Carries) :
        applyOverrides overlay.overrides (patch added (.obj members)) =
          (patch (added.append (carried (.obj members) overlay.overrides)) (.obj members), none) := by
      have all := applyOverrides_append carries fits distinct resolve []
      rwa [List.append_nil] at all
    have carries := carries_carried fits (.obj members)
    refine ⟨_, start.trans (run Additions.carries_none), patched_patch carries _, ?_⟩
    rw [Additions.none_append, apply_eq, run carries, patch_append_self _ distinct, ite_self]
  · intro missing
    obtain ⟨before, override, after, fault, same, resolve, absent⟩ := exists_first_missing missing
    rw [same] at fits
    obtain ⟨earlier, later⟩ := List.forall_mem_append.mp fits
    have own := (List.forall_mem_cons.mp later).1
    refine ⟨before, override, after, _, _, same, resolve, target_of_place_error absent, ?_,
      patched_patch (carries_carried earlier _) _, place_error absent⟩
    rw [start, same, applyOverrides_error Additions.carries_none earlier own distinct resolve absent,
      Additions.none_append]

namespace Sample

/-- A list of objects of one kind, which has a note of its own. -/
def list : Members :=
  [("items", .obj [("oneOf", .arr [.obj [("x-formgen", .obj [("order", .int 1)])]])])]

/-- An overlay that addresses the kind of the objects twice, and their list in between. -/
def notesText : String :=
  "\x7b\"$schema\":\"x-ui-overlay/v1\",\"overrides\":[" ++
    "\x7b\"path\":\"/items/oneOf/0\",\"x-formgen\":\x7b\"order\":2\x7d\x7d," ++
    "\x7b\"path\":\"/items\",\"x-admin-note\":\"a\"\x7d," ++
    "\x7b\"path\":\"#/items/oneOf/00\",\"x-formgen\":\x7b\"order\":3\x7d\x7d]\x7d"

def notes : Overlay := ⟨[
  ⟨"/items/oneOf/0", [("x-formgen", .obj [("order", .int 2)])]⟩,
  ⟨"/items", [("x-admin-note", .str "a")]⟩,
  ⟨"#/items/oneOf/00", [("x-formgen", .obj [("order", .int 3)])]⟩]⟩

theorem notes_written : notes.Written := by
  have read : (ofText notesText).toOption = some notes := by decide +kernel
  exact .inr ⟨notesText, eq_ok_of_toOption read⟩

theorem notes_outside : ∀ override ∈ notes.overrides, StaysOutside override := by
  have all : ∀ override ∈ notes.overrides,
      (pathTokens override.path).toOption.all (·.all (!isExtension ·)) = true := by
    decide +kernel
  intro override mem tokens isPath token inside
  have known := all override mem
  rw [isPath] at known
  simpa using List.all_eq_true.mp known token inside

theorem notes_resolve : ∀ override ∈ notes.overrides, Resolves (.obj list) override := by
  have all : ∀ override ∈ notes.overrides,
      (target (.obj list) override.path).toOption.isSome = true := by
    decide +kernel
  intro override mem
  obtain ⟨members, found⟩ := Option.isSome_iff_exists.mp (all override mem)
  exact ⟨members, eq_ok_of_toOption found⟩

def bare : Members := [("items", .obj [])]

theorem notes_missing : ∃ override ∈ notes.overrides, ¬ Resolves (.obj bare) override := by
  have absent : (target (.obj bare) "/items/oneOf/0").toOption = none := by decide +kernel
  refine ⟨_, List.mem_cons_self, ?_⟩
  rintro ⟨members, found⟩
  cases absent.symm.trans (congrArg Except.toOption found)

theorem list_distinct : (Json.obj list).Distinct := by
  simp [list, Json.Distinct, Json.DistinctMembers, Json.DistinctElements, Members.keys]

end Sample

/-- The overrides of the sample that address one object by two paths are both carried to it; where there
is no such object, the overlay fails. -/
theorem apply_effect_notes : Sample.notes.Written ∧
    carried (.obj Sample.list) Sample.notes.overrides [.key "items", .key "oneOf", .index 0] =
      [("x-formgen", .obj [("order", .int 2)]), ("x-formgen", .obj [("order", .int 3)])] ∧
    (∃ edited, Sample.notes.apply (.obj Sample.list) = (edited, none) ∧
      Patched (carried (.obj Sample.list) Sample.notes.overrides) (.obj Sample.list) edited ∧
      Sample.notes.apply edited = (edited, none)) ∧
    ∃ edited error, Sample.notes.apply (.obj Sample.bare) = (edited, some error) := by
  refine ⟨Sample.notes_written, by decide +kernel, ?_, ?_⟩
  · exact (apply_effect Sample.notes_written Sample.notes_outside (by simp [Sample.list])
      Sample.list_distinct).2.1 Sample.notes_resolve
  · have distinct : (Json.obj Sample.bare).Distinct := by
      simp [Sample.bare, Json.Distinct, Json.DistinctMembers, Members.keys]
    obtain ⟨_, _, _, _, edited, -, -, -, fails, -⟩ :=
      (apply_effect Sample.notes_written Sample.notes_outside (by simp [Sample.bare]) distinct).2.2
        Sample.notes_missing
    exact ⟨edited, _, fails⟩

namespace Sample

/-- An overlay, as it is written, with a note for an element whose number is written in ones. -/
def highValue (count : Nat) : Json :=
  .obj [("$schema", .str dialect), ("overrides", .arr [
    .obj [("path", .str (Pointer.Sample.beyond count)), ("x-admin-note", .str "a")]])]

def high (count : Nat) : Overlay :=
  ⟨[⟨Pointer.Sample.beyond count, [("x-admin-note", .str "a")]⟩]⟩

theorem high_read (count : Nat) : ofJson (highValue count) = .ok (high count) := by
  have named : Text.dropFinal '#' (Text.trim dialect) = dialect := by decide +kernel
  have ne : dialect ≠ "" := by decide
  have path : Text.trim (Pointer.Sample.beyond count) = Pointer.Sample.beyond count :=
    Pointer.Sample.trim_beyond count
  have some : Pointer.Sample.beyond count ≠ "" := by simp [Pointer.Sample.beyond]
  have note : isMerged "x-admin-note" = false ∧ isSingleValue "x-admin-note" = true := by
    decide +kernel
  have other : isMerged "path" = false ∧ isSingleValue "path" = false := by decide +kernel
  simp [ofJson, highValue, Members.text, Json.string?, named, ne, readOverrides, readOverride, path,
    some, readExtensions, note, other, high, Except.map, bind, Except.bind, pure, Except.pure]

theorem tokens_high (count : Nat) :
    pathTokens (Pointer.Sample.beyond count) = .ok ["a", Pointer.Sample.ones count] := by
  rw [pathTokens_of_slash (Pointer.Sample.stripped_beyond count) (Pointer.Sample.slash_beyond count)
    (Pointer.Sample.ne_slash_beyond count), Pointer.Sample.tokens_beyond]

theorem not_isExtension_ones (count : Nat) : isExtension (Pointer.Sample.ones count) = false := by
  have other : Dialect.isVendorExtension (Pointer.Sample.ones count) = false := by
    have dark : Text.isBlank '1' = false := by decide
    unfold Dialect.isVendorExtension Pointer.Sample.ones
    rw [String.toList_ofList]
    cases count with
    | zero => rfl
    | succ count =>
        rw [List.replicate_succ, List.dropWhile_cons, dark, if_neg (by simp)]
        cases count <;> rfl
  exact eq_false_of_ne_true fun extension => by
    rw [isVendorExtension_of_isExtension extension] at other
    cases other

theorem high_apply {count : Nat} (many : Text.digitLimit < count) :
    (high count).apply (.obj Pointer.Sample.empty) =
      (.obj Pointer.Sample.empty, some (.digits (.read count))) := by
  have fails : edit (putAll · [("x-admin-note", .str "a")]) ["a", Pointer.Sample.ones count]
      (.obj Pointer.Sample.empty) = .error (.digits (.read count)) := by
    have has : Members.get? Pointer.Sample.empty "a" = some (.arr []) := rfl
    simp [edit, has, Pointer.Sample.index_ones many, Except.map]
  have run : applyOverride ⟨Pointer.Sample.beyond count, [("x-admin-note", .str "a")]⟩
      (.obj Pointer.Sample.empty) = .error (.digits (.read count)) := by
    rw [applyOverride, tokens_high]
    exact congrArg (Except.mapError _) fails
  rw [apply_eq, if_neg (by simp [Pointer.Sample.empty])]
  exact applyOverrides_of_error run []

end Sample

/-- An overlay whose path means no object in a tree fails with an error that does not tell the path, if
the path has an index of five thousand digits. -/
theorem apply_overlong :
    ofJson (Sample.highValue 5000) = .ok (Sample.high 5000) ∧
      (∀ override ∈ (Sample.high 5000).overrides, StaysOutside override ∧
        ¬ Resolves (.obj Pointer.Sample.empty) override) ∧
      (Sample.high 5000).apply (.obj Pointer.Sample.empty) =
        (.obj Pointer.Sample.empty, some (.digits (.read 5000))) ∧
      ∀ fault path, Error.digits (.read 5000) ≠ error fault path := by
  refine ⟨Sample.high_read _, ?_, Sample.high_apply (by decide), nofun⟩
  intro override mem
  obtain rfl := List.mem_singleton.mp mem
  constructor
  · intro tokens isPath token inside
    cases (Sample.tokens_high _).symm.trans isPath
    obtain rfl | inside := List.mem_cons.mp inside
    · decide +kernel
    · obtain rfl := List.mem_singleton.mp inside
      exact Sample.not_isExtension_ones _
  · rintro ⟨members, found⟩
    cases (Sample.target_beyond (by decide)).symm.trans found

end SchemaForms.Overlay
