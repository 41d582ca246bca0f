import Mathlib.Data.List.Nodup
import SchemaForms.Proofs.Expansion.Addresses
import SchemaForms.Proofs.Session.Targets

/-!
# Objects with references

`SessionState.refObjects` lists the objects with a `$ref` in all documents of a session, at whatever
place they stand. Such an object gives one key at most, that of the target which its reference
denotes, since what a reference denotes depends on nothing but its document and its text: where the
reference stands shows in messages only.
-/

namespace SchemaForms

namespace Pointer

theorem at?_of_child {value found : Json} {token : String} (h : child value token = .ok found) :
    ∃ index, value.child? index = some found := by
  cases value with
  | obj members =>
      simp only [child] at h
      split at h
      · rename_i other has
        obtain rfl := Except.ok.inj h
        exact List.mem_iff_getElem?.mp (List.mem_map_of_mem (Members.mem_of_get? has))
      · cases h
  | arr elements =>
      simp only [child] at h
      split at h
      · cases h
      · split at h
        · rename_i other has
          obtain rfl := Except.ok.inj h
          obtain ⟨index, _, has⟩ := Option.bind_eq_some_iff.mp has
          exact ⟨index, has⟩
        · cases h
  | null | bool | int | double | str => cases h

theorem at?_of_descend {value found : Json} {tokens : List String}
    (h : descend value tokens = .ok found) : ∃ address, value.at? address = some found := by
  induction tokens generalizing value with
  | nil =>
      obtain rfl := Except.ok.inj h
      exact ⟨[], rfl⟩
  | cons token rest ih =>
      obtain ⟨next, first, h⟩ := except_bind_eq_ok.mp h
      obtain ⟨index, has⟩ := at?_of_child first
      obtain ⟨address, below⟩ := ih h
      exact ⟨index :: address, by rw [Json.at?, has, Option.bind_some, below]⟩

end Pointer

theorem at?_of_resolvePointer {root value : Json} {pointer place : String}
    (h : resolvePointer root pointer place = .ok value) :
    ∃ address, root.at? address = some value := by
  obtain ⟨-, rfl⟩ | ⟨-, found⟩ := resolvePointer_ok_iff.mp h
  · exact ⟨[], rfl⟩
  · exact Pointer.at?_of_descend found

namespace Entry

variable {entry : Entry} {fragment place : String} {target : Target}

/-- The target of a reference is a value inside its document. -/
theorem at?_of_target (h : entry.target fragment place = .ok target) :
    ∃ address, (Json.obj entry.data).at? address = some target.value := by
  obtain ⟨⟨path, value⟩, read, rfl⟩ := except_map_eq_ok.mp h
  have resolved {pointer path' : String} (read : (resolvePointer (.obj entry.data) pointer place).map
      (fun value => (path', value)) = .ok (path, value)) :
      ∃ address, (Json.obj entry.data).at? address = some value := by
    obtain ⟨found, resolved, same⟩ := except_map_eq_ok.mp read
    obtain ⟨rfl, rfl⟩ := Prod.mk.inj same
    exact at?_of_resolvePointer resolved
  unfold Entry.fragment at read
  simp only at read
  split at read
  · obtain ⟨rfl, rfl⟩ := Prod.mk.inj (Except.ok.inj read)
    exact ⟨[], rfl⟩
  · split at read
    · exact resolved read
    · split at read
      · cases read
      · split at read
        · obtain ⟨rfl, rfl⟩ := Prod.mk.inj (Except.ok.inj read)
          exact ⟨[], rfl⟩
        · exact resolved read

end Entry

section Place

/-! Where something is written shows in messages only. -/

variable {α β : Type} (place other : String)

theorem toOption_map (f : α → β) (result : Except Error α) :
    (result.map f).toOption = result.toOption.map f := by
  cases result <;> rfl

theorem toOption_bind (result : Except Error α) (next : α → Except Error β) :
    (result >>= next).toOption = result.toOption.bind fun value => (next value).toOption := by
  cases result <;> rfl

theorem toOption_resolvePointer (root : Json) (pointer : String) :
    (resolvePointer root pointer place).toOption = (resolvePointer root pointer other).toOption := by
  unfold resolvePointer
  split
  · rfl
  · split
    · rfl
    · split <;> rfl

/-- What a fragment denotes does not depend on where it is written. -/
theorem toOption_target (entry : Entry) (fragment : String) :
    (entry.target fragment place).toOption = (entry.target fragment other).toOption := by
  unfold Entry.target Entry.fragment
  rw [toOption_map, toOption_map]
  simp only
  congr 1
  split
  · rfl
  · split
    · rw [toOption_map, toOption_map, toOption_resolvePointer place other]
    · split
      · rfl
      · split
        · rfl
        · rw [toOption_map, toOption_map, toOption_resolvePointer place other]

theorem toOption_refText (node : Members) :
    (Expansion.refText node place).toOption = (Expansion.refText node other).toOption := by
  unfold Expansion.refText
  split
  · split <;> rfl
  · rfl

theorem toOption_cleanFile (options : ResolveOptions) (current root directory path ref : String) :
    (Sandbox.cleanFile options current root directory path ref place).toOption =
      (Sandbox.cleanFile options current root directory path ref other).toOption := by
  unfold Sandbox.cleanFile
  simp only
  split <;> rfl

theorem toOption_cleanName (options : ResolveOptions) (root directory path ref : String) :
    (Sandbox.cleanName options root directory path ref place).toOption =
      (Sandbox.cleanName options root directory path ref other).toOption := by
  unfold Sandbox.cleanName
  simp only
  generalize Path.dropSlashes (Path.normalize root) = root
  split <;> split <;> rfl

theorem toOption_fileSource (session : Session) (state : SessionState) (entry : Entry)
    (path ref : String) :
    (session.fileSource state entry path ref place).toOption =
      (session.fileSource state entry path ref other).toOption := by
  unfold Session.fileSource
  split
  · rfl
  · split
    · split
      · simp only [toOption_bind]
        rw [toOption_cleanFile place other]
      · rfl
    · rfl

theorem toOption_relativeSource (session : Session) (state : SessionState) (entry : Entry)
    (ref : String) :
    (session.relativeSource state entry ref place).toOption =
      (session.relativeSource state entry ref other).toOption := by
  unfold Session.relativeSource
  simp only
  split
  · simp only [toOption_bind]
    rw [toOption_cleanFile place other]
  · simp only [toOption_bind]
    rw [toOption_cleanName place other]
  · split <;> rfl

/-- What the members beside a reference make of its target does not depend on where they stand. -/
theorem toOption_merge (target : Json) (node : Members) :
    (Reference.merge target node place).toOption =
      (Reference.merge target node other).toOption := by
  have row (siblings : Members) : ∀ members : Members,
      (siblings.foldlM (Reference.mergeSibling place) members).toOption =
        (siblings.foldlM (Reference.mergeSibling other) members).toOption := by
    induction siblings with
    | nil => exact fun _ => rfl
    | cons sibling rest ih =>
        intro members
        have step : (Reference.mergeSibling place members sibling).toOption =
            (Reference.mergeSibling other members sibling).toOption := by
          unfold Reference.mergeSibling
          split <;> rfl
        rw [List.foldlM_cons, List.foldlM_cons, toOption_bind, toOption_bind, step, funext ih]
  unfold Reference.merge
  split
  · rw [toOption_map, toOption_map, row]
  · split <;> rfl

/-- Which source a reference names does not depend on where the reference stands. -/
theorem toOption_sourceOf (session : Session) (state : SessionState) (entry : Entry)
    (ref path : String) :
    (session.sourceOf state entry ref path place).toOption =
      (session.sourceOf state entry ref path other).toOption := by
  unfold Session.sourceOf
  split
  · rfl
  · split
    · split <;> rfl
    · split
      · exact toOption_fileSource place other session state entry _ ref
      · split
        · rfl
        · exact toOption_relativeSource place other session state entry path

end Place

/-- What is known without regard to where something is written holds wherever it is written. -/
theorem ok_of_toOption_eq {α : Type} {first second : Except Error α} {value : α}
    (same : first.toOption = second.toOption) (h : first = .ok value) : second = .ok value := by
  apply eq_ok_of_toOption
  rw [← same, h]
  rfl

theorem Session.locate_place {session : Session} {entry : Entry} {ref place : String}
    {state after : SessionState} {target : Target} (other : String)
    (run : (session.locate entry ref place).outcome state = (.ok target, after)) :
    (session.locate entry ref other).outcome state = (.ok target, after) := by
  have moved {entry : Entry} {fragment : String}
      (read : entry.target fragment place = .ok target) :
      entry.target fragment other = .ok target :=
    ok_of_toOption_eq (toOption_target place other entry fragment) read
  rw [locate_eq] at run ⊢
  split at run
  · rename_i here
    obtain ⟨read, rfl⟩ := Prod.mk.inj run
    rw [if_pos here, Run.outcome_lift, moved read]
  · rename_i elsewhere
    rw [if_neg elsewhere]
    obtain ⟨source, named, run⟩ :=
      Run.outcome_lift_bind_eq_ok.mp (Run.outcome_get_bind_eq_ok.mp run)
    obtain ⟨document, middle, loaded, read⟩ := Run.outcome_bind_eq_ok.mp run
    rw [Run.outcome_lift, Prod.mk.injEq] at read
    obtain ⟨read, rfl⟩ := read
    refine Run.outcome_get_bind_eq_ok.mpr (Run.outcome_lift_bind_eq_ok.mpr ⟨source, ?_, ?_⟩)
    · exact ok_of_toOption_eq (toOption_sourceOf place other _ _ _ _ _) named
    · refine Run.outcome_bind_eq_ok.mpr ⟨document, middle, loaded, ?_⟩
      rw [Run.outcome_lift, moved read]

/-- What a reference denotes does not depend on where it stands. -/
theorem Session.Denotes.place {session : Session} {library : SessionState} {entry : Entry}
    {node : Members} {place : String} {target : Target} (other : String)
    (h : session.Denotes library entry node place target) :
    session.Denotes library entry node other target := by
  obtain ⟨ref, written, run⟩ := h
  have written := ok_of_toOption_eq (toOption_refText place other _) written
  exact ⟨ref, written, Session.locate_place other run⟩

structure RefObject where
  entry : Entry
  /-- Where the object stands in the document. -/
  address : List Nat
  members : Members

def Entry.refObjects (entry : Entry) : List RefObject :=
  ((Json.obj entry.data).objects.filter fun object => Members.has object.2 "$ref").map
    fun object => ⟨entry, object.1, object.2⟩

def SessionState.refObjects (state : SessionState) : List RefObject :=
  state.cache.flatMap Entry.refObjects

theorem Entry.mem_refObjects {entry : Entry} {object : RefObject} :
    object ∈ entry.refObjects ↔ object.entry = entry ∧
      (object.address, object.members) ∈ (Json.obj entry.data).objects ∧
      Members.has object.members "$ref" = true := by
  simp only [refObjects, List.mem_map, List.mem_filter]
  constructor
  · rintro ⟨⟨address, members⟩, ⟨inside, has⟩, rfl⟩
    exact ⟨rfl, inside, has⟩
  · rintro ⟨rfl, inside, has⟩
    exact ⟨(object.address, object.members), ⟨inside, has⟩, rfl⟩

theorem Entry.nodup_refObjects (entry : Entry) : entry.refObjects.Nodup := by
  apply List.Nodup.map_on
  · rintro ⟨address, members⟩ _ ⟨address', members'⟩ _ same
    obtain ⟨-, rfl, rfl⟩ := RefObject.mk.inj same
    rfl
  · exact (List.Nodup.of_map _ (Json.nodup_objects _)).filter _

/-- The list of a session's objects with references holds just the objects that are found with a
`$ref` at an address in one of its documents. -/
theorem SessionState.mem_refObjects {state : SessionState} {object : RefObject} :
    object ∈ state.refObjects ↔ object.entry ∈ state.cache ∧
      (Json.obj object.entry.data).at? object.address = some (.obj object.members) ∧
      Members.has object.members "$ref" = true := by
  simp only [refObjects, List.mem_flatMap, Entry.mem_refObjects, Json.mem_objects]
  constructor
  · rintro ⟨entry, mem, rfl, found, has⟩
    exact ⟨mem, found, has⟩
  · rintro ⟨mem, found, has⟩
    exact ⟨object.entry, mem, rfl, found, has⟩

/-- No object is listed twice, if the documents are told apart by their keys. -/
theorem SessionState.nodup_refObjects {state : SessionState}
    (distinct : (state.cache.map Entry.key).Nodup) : state.refObjects.Nodup := by
  rw [refObjects, List.nodup_flatMap]
  refine ⟨fun entry _ => entry.nodup_refObjects, ?_⟩
  refine (List.Nodup.of_map _ distinct).imp ?_
  intro entry other different object inside inside'
  have first := (Entry.mem_refObjects.mp inside).1
  have second := (Entry.mem_refObjects.mp inside').1
  exact different (first.symm.trans second)

namespace Session

variable {session : Session} {library : SessionState}

/-- By what has been read, the reference of the object denotes a target with the key. -/
def Gives (session : Session) (library : SessionState) (object : RefObject) (key : String) :
    Prop :=
  ∃ place target, session.Denotes library object.entry object.members place target ∧
    target.key = key

theorem Gives.unique {object : RefObject} {key key' : String}
    (h : session.Gives library object key) (h' : session.Gives library object key') :
    key = key' := by
  obtain ⟨place, target, denotes, rfl⟩ := h
  obtain ⟨place', target', denotes', rfl⟩ := h'
  rw [(denotes.place place').unique denotes']

theorem exists_gives_of_mem {objects : List RefObject} {keys : List String} {object : RefObject}
    (gives : List.Forall₂ (session.Gives library) objects keys) (mem : object ∈ objects) :
    ∃ key ∈ keys, session.Gives library object key := by
  induction gives with
  | nil => cases mem
  | cons head _ ih =>
      obtain rfl | mem := List.mem_cons.mp mem
      · exact ⟨_, List.mem_cons_self, head⟩
      · obtain ⟨key, among, given⟩ := ih mem
        exact ⟨key, List.mem_cons_of_mem _ among, given⟩

theorem nodup_of_gives {objects : List RefObject} {keys : List String}
    (gives : List.Forall₂ (session.Gives library) objects keys) (distinct : keys.Nodup) :
    objects.Nodup := by
  induction gives with
  | nil => exact List.nodup_nil
  | cons head tail ih =>
      obtain ⟨new, distinct⟩ := List.nodup_cons.mp distinct
      refine List.nodup_cons.mpr ⟨?_, ih distinct⟩
      intro mem
      obtain ⟨key, among, given⟩ := exists_gives_of_mem tail mem
      exact new (head.unique given ▸ among)

end Session

end SchemaForms
