import Mathlib.Data.List.Perm.Subperm
import SchemaForms.Proofs.Expansion.SelfContained
import SchemaForms.Proofs.Session.Limits
import SchemaForms.Proofs.Session.RefObjects
import SchemaForms.Proofs.Session.Refused
import SchemaForms.Proofs.Session.Trails

/-!
# The stack of references

Each reference that is being expanded is that of an object in one of the documents that a run reads:
what a frame expands is a value inside a document but for members that stand beside a reference, so
the objects with references that it comes to are objects of the document. `Frame.Traced` is the
invariant that says so for all references being expanded, and it holds of every frame of a run.

With the check for cycles the keys of these references are distinct. So there are no more of them
than objects with references, and a limit above that number is never reached.
-/

namespace SchemaForms

namespace Expansion.Frame

open Reference Session

variable {session : Session} {library : SessionState} {frame inner : Frame}
variable {node : Members × String} {earlier later : List (Members × String)} {state : SessionState}

/-- The frame in which the content of a root document is expanded. -/
def root (session : Session) (root : Entry) : Frame :=
  ⟨session.options.maxDepth, root, "#", .obj root.data, .opened root⟩

theorem outcome_root (session : Session) (root : Entry) :
    (session.resolveNode root (.obj root.data) "#").outcome (.opened root) =
      (Frame.root session root).outcome session := by
  rw [resolveNode, Run.outcome_bind, Run.outcome_get]
  rfl

/-- What is known of a frame of a run that has read the library in the end. -/
structure Traced (session : Session) (library : SessionState) (frame : Frame) : Prop where
  budget : frame.state.trail.depth + frame.budget = session.options.maxDepth
  sound : frame.state.trail.Sound
  grows : SessionState.Grows (frame.outcome session).2 library
  known : frame.entry ∈ library.cache
  found : ∃ address value, (Json.obj frame.entry.data).at? address = some value ∧
    SameCore value frame.value
  traced : ∃ objects, List.Forall₂ (session.Gives library) objects frame.state.trail.stack ∧
    objects ⊆ library.refObjects

theorem traced_root {root : Entry} :
    Traced session ((Frame.root session root).outcome session).2 (Frame.root session root) where
  budget := Nat.zero_add _
  sound := Trail.sound_empty
  grows := ⟨List.prefix_refl _, rfl⟩
  known := (grows_of_meets (fetches session (Frame.root session root))).cache.subset
    (List.mem_singleton_self root)
  found := ⟨[], _, rfl, .refl _⟩
  traced := ⟨[], .nil, List.nil_subset _⟩

/-- The target that a frame is entered for, by what has been read when the frame ends, or later. -/
theorem Enters.target (enters : frame.Enters session node state inner)
    (grows : SessionState.Grows (inner.outcome session).2 library) :
    ∃ target, session.Denotes library frame.entry node.1 (frame.place node) target ∧
      inner.entry = target.entry ∧ inner.path = target.path ∧
      SameCore target.value inner.value ∧ inner.state.trail = state.trail.push target.key := by
  have reads := grows_of_meets (fetches session inner)
  obtain ⟨budget, written, located, passes, put⟩ := enters
  have later := reads.trans grows
  refine ⟨_, ⟨_, written, locate_again located ⟨later.cache, later.root⟩⟩, rfl, rfl,
    sameCore_of_merge put, ?_⟩
  rw [← trail_of_locate located]

/-- An object with a reference that a frame comes to is written in its document, but for members that
stand beside the reference. -/
theorem Traced.written (h : frame.Traced session library) (mem : node ∈ frame.references) :
    ∃ object ∈ library.refObjects, object.entry = frame.entry ∧
      Members.get? object.members "$ref" = Members.get? node.1 "$ref" := by
  obtain ⟨address, value, found, core⟩ := h.found
  obtain ⟨below, members, inside, same, has⟩ := exists_object_of_core core mem
  refine ⟨⟨frame.entry, address ++ below, members⟩, SessionState.mem_refObjects.mpr ⟨h.known, ?_, ?_⟩,
    rfl, same⟩
  · rw [Json.at?_append, found, Option.bind_some, Json.mem_objects.mp inside]
  · rw [Members.has, same]
    exact has

/-- Such an object gives the key of the target that is denoted. -/
theorem Traced.object (h : frame.Traced session library) (mem : node ∈ frame.references)
    {target : Target} (denotes : session.Denotes library frame.entry node.1 (frame.place node) target) :
    ∃ object ∈ library.refObjects, session.Gives library object target.key := by
  obtain ⟨object, listed, entry, same⟩ := h.written mem
  obtain ⟨ref, written, run⟩ := denotes
  refine ⟨object, listed, frame.place node, target, ⟨ref, ?_, entry ▸ run⟩, rfl⟩
  rw [← written, refText, refText, same]

/-- The frame that a reference leads to is traced if the one around it is. -/
theorem Traced.enters (checks : session.detectsCycles = true) (h : frame.Traced session library)
    (passes : frame.Passes session earlier (node :: later) state)
    (enters : frame.Enters session node state inner) : inner.Traced session library := by
  have grows := (enters.grows passes).trans h.grows
  obtain ⟨target, denotes, entry, -, core, pushed⟩ := enters.target grows
  rw [passes.trail checks] at pushed
  have balanced := Balanced.enters checks ⟨h.sound, h.budget⟩ passes enters
  have mem : node ∈ frame.references := by
    rw [passes.split]
    exact List.mem_append_right _ List.mem_cons_self
  obtain ⟨known, fragment, read⟩ := denotes.read h.known
  obtain ⟨address, found⟩ := Entry.at?_of_target read
  obtain ⟨object, listed, gives⟩ := h.object mem denotes
  obtain ⟨objects, traced, among⟩ := h.traced
  -- What has been read when the inner frame ends tells all of this, and it is in the library.
  refine ⟨balanced.budget, balanced.sound, grows, entry ▸ known, ?_, ?_⟩
  · rw [entry]
    exact ⟨address, target.value, found, core⟩
  · rw [pushed]
    exact ⟨object :: objects, .cons gives traced, List.cons_subset.mpr ⟨listed, among⟩⟩

theorem Inside.traced (checks : session.detectsCycles = true) {start : Frame}
    (h : start.Traced session library) (inside : Inside session start frame) :
    frame.Traced session library := by
  induction inside with
  | start => exact h
  | enters _ passes enters ih => exact ih.enters checks passes enters

end Expansion.Frame

namespace Session

open Expansion

variable {session : Session} {document : Document} {payload : Json}

/-- A moment of a run: in one of its frames, some references of the frame's value have been followed
and the others not yet. From one moment to the next a target is looked for, which leaves the
references being expanded alone, and a frame begins or ends. -/
inductive Moment (session : Session) (document : Document) (payload : Json)
    (moment : SessionState) : Prop
  | intro {root : Entry} {frame : Frame} {earlier later : List (Members × String)}
      (opens : session.Opens document payload root)
      (inside : Frame.Inside session (Frame.root session root) frame)
      (passes : frame.Passes session earlier later moment) : Moment session document payload moment

/-- A run that opens its root ends as the root's frame does. -/
theorem ends_of_opens {root : Entry} (opens : session.Opens document payload root) :
    (session.runRoot document payload).2 = ((Frame.root session root).outcome session).2 := by
  have run : session.runRoot document payload =
      (session.resolveRoot document payload).outcome {} := rfl
  rw [run, resolveRoot, Run.outcome_bind, opens.run]
  simp only [Run.outcome_bind, Frame.outcome_root]
  obtain ⟨result, after⟩ := (Frame.root session root).outcome session
  cases result with
  | error error => rfl
  | ok value => cases value <;> rfl

/-- Such a run comes to a tree just if the root's frame does. -/
theorem Opens.runRoot_eq_ok {root : Entry} (opens : session.Opens document payload root)
    {tree : Members} {after : SessionState} :
    session.runRoot document payload = (.ok tree, after) ↔
      (Frame.root session root).outcome session = (.ok (.obj tree), after) := by
  have run : session.runRoot document payload =
      (session.resolveRoot document payload).outcome {} := rfl
  rw [run, resolveRoot, Run.outcome_bind, opens.run]
  simp only [Run.outcome_bind, Frame.outcome_root]
  obtain ⟨result, ended⟩ := (Frame.root session root).outcome session
  cases result with
  | error error => simp
  | ok value => cases value <;> simp

/-- The documents of a run are told apart by their keys. -/
theorem distinct_of_runRoot (session : Session) (document : Document) (payload : Json) :
    ((session.runRoot document payload).2.cache.map Entry.key).Nodup := by
  obtain ⟨error, failed⟩ | ⟨root, opens, ended, -⟩ := session.runRoot_ends document payload
  · rw [failed]
    exact List.nodup_nil
  · have meets : session.fetching.Meets (session.resolveNode root payload "#") (.opened root) _ :=
      resolveNode_meets (finds_fetching session) trivial
    obtain ⟨-, requests, fetched⟩ := fetched_of_meets meets
    rw [ended]
    exact (Log.of_fetched fetched).nodup (List.nodup_singleton root.key)

/-- The references that are being expanded have distinct keys, and are those of distinct objects. -/
theorem traced_stack {library : SessionState} {frame : Frame} (h : frame.Traced session library)
    {moment : SessionState} (same : moment.trail = frame.state.trail) :
    moment.trail.stack.Nodup ∧
      (∃ objects, objects.Nodup ∧ objects ⊆ library.refObjects ∧
        List.Forall₂ (session.Gives library) objects moment.trail.stack) ∧
      moment.trail.depth ≤ library.refObjects.length := by
  obtain ⟨objects, traced, among⟩ := h.traced
  have distinct := nodup_of_gives traced h.sound.1
  rw [same]
  refine ⟨h.sound.1, ⟨objects, distinct, among, traced⟩, ?_⟩
  calc frame.state.trail.depth = objects.length := traced.length_eq.symm
    _ ≤ library.refObjects.length := (List.subperm_of_subset distinct among).length_le

/-- An error about the depth of references is the loader's if there are fewer objects with references
than the limit allows to be nested. -/
theorem refused_of_depth (checks : session.detectsCycles = true)
    (few : (session.runRoot document payload).2.refObjects.length < session.options.maxDepth)
    {error : Error} (deep : ¬ error.Shallow)
    (run : (session.runRoot document payload).1 = .error error) :
    session.Refused (session.runRoot document payload).2 error := by
  obtain placed | ⟨root, opens, run⟩ := runRoot_error run
  · exact absurd (placed "").ordinary.shallow deep
  rw [Frame.outcome_root] at run
  obtain ⟨inner, earlier, node, later, state, ended, inside, passes, stops, -, requests⟩ :=
    Frame.Inside.start.fails run
  have traced := inside.traced checks Frame.traced_root
  rw [← ends_of_opens opens] at traced
  cases stops with
  | text failed => exact absurd (refText_placed error failed).ordinary.shallow deep
  | locate _ failed =>
      obtain placed | ⟨loader, earlier, source, some, last, replied⟩ | unreported :=
        locate_error failed
      · exact absurd placed.ordinary.shallow deep
      · exact ⟨loader, earlier, source, some, requests.trans last, replied⟩
      · exact absurd unreported.shallow deep
  | depth spent =>
      have bounded := (traced_stack traced rfl).2.2
      have total := traced.budget
      omega
  | cycle => exact absurd nofun deep
  | merge failed => exact absurd (Reference.merge_placed error failed).ordinary.shallow deep

/-- A run with endless references fails, whatever is read for them. -/
theorem error_of_endless {later : SessionState}
    (grows : SessionState.Grows (session.runRoot document payload).2 later)
    (endless : ∀ depth, session.Nested document payload later depth) :
    ∃ error, (session.runRoot document payload).1 = .error error := by
  cases run : (session.runRoot document payload).1 with
  | error error => exact ⟨error, rfl⟩
  | ok tree =>
      obtain ⟨root, resolved⟩ := resolved_of_ok run
      obtain ⟨root', opens, nests⟩ := endless (session.options.maxDepth + 1)
      obtain rfl := resolved.opens.unique opens rfl
      have completes := resolved.completes.mono_found fun _ _ _ _ denotes => denotes.later grows
      have bounded := nests.le_of_completes (session.denotes_unique later) completes
      omega

/-- The check for cycles is complete. At every moment of a run the references being expanded have
distinct keys and are those of distinct objects with a `$ref` in the documents that are read, so
there are no more of them than such objects. If the limit of the depth is above their number, it is
never exceeded: only a loader may report that. Endless references end the run then, and if it would
be the limit that ends it without the check, then it is the check that does so. -/
theorem cycle_check_complete (loader : Option Loader) (options : ResolveOptions) (current : String)
    (document : Document) (payload : Json) :
    let session : Session := { loader := loader, options := options.effective, current := current }
    let unchecked : Session :=
      { loader := loader, options := options.effective, current := current, detectsCycles := false }
    let library := (session.runRoot document payload).2
    let depthError (limit : Nat) (place : String) : Error := .schema (.limit (.depth limit)) place
    library.refObjects.Nodup ∧
    (∀ moment, session.Moment document payload moment →
      moment.trail.stack.Nodup ∧
      (∃ objects, objects.Nodup ∧ objects ⊆ library.refObjects ∧
        List.Forall₂ (session.Gives library) objects moment.trail.stack) ∧
      moment.trail.depth ≤ library.refObjects.length) ∧
    (library.refObjects.length < options.effective.maxDepth →
      (∀ limit place, resolve loader options current document payload =
        .error (depthError limit place) → session.Refused library (depthError limit place)) ∧
      (∀ later, SessionState.Grows library later →
        (∀ depth, session.Nested document payload later depth) →
          ∃ error, resolve loader options current document payload = .error error) ∧
      ∀ limit place, (unchecked.runRoot document payload).1 = .error (depthError limit place) →
        (∃ ref place, resolve loader options current document payload =
          .error (.schema (.cycle ref) place)) ∨
        session.Refused library (depthError limit place)) := by
  intro session unchecked library depthError
  have deep (limit : Nat) (place : String) : ¬ (depthError limit place).Shallow :=
    fun shallow => shallow limit place rfl
  refine ⟨SessionState.nodup_refObjects (session.distinct_of_runRoot document payload), ?_, ?_⟩
  · rintro moment ⟨opens, inside, passes⟩
    have traced := inside.traced rfl Frame.traced_root
    rw [← ends_of_opens opens] at traced
    exact traced_stack traced (passes.trail rfl)
  · intro few
    have reported (limit : Nat) (place : String)
        (run : resolve loader options current document payload = .error (depthError limit place)) :
        session.Refused library (depthError limit place) :=
      refused_of_depth rfl few (deep limit place) run
    refine ⟨reported, fun later grows endless => error_of_endless grows endless, ?_⟩
    intro limit place run
    have stricter : session.Stricter unchecked :=
      ⟨rfl, rfl, rfl, id, Nat.le_refl _, Nat.le_refl _, Nat.le_refl _, nofun⟩
    obtain same | ⟨error, failed, bars, -⟩ := stricter.runRoot document payload
    · exact .inr (reported limit place ((congrArg Prod.fst same).trans run))
    · cases bars with
      | size less | documents less | depth less => exact absurd less (Nat.lt_irrefl _)
      | http off on => cases off.symm.trans on
      | cycle => exact .inl ⟨_, _, failed⟩

end Session

namespace Sample

open Expansion

def loop : Members := [("items", .obj [("$ref", .str "#")])]

def loopRoot : Entry := ⟨Origin.ofSource "/" root.source, .fs, loop, []⟩

theorem loopRoot_target (place : String) :
    loopRoot.target (Session.fragmentPart "#") place = .ok ⟨loopRoot, "#", .obj loop⟩ := rfl

theorem locate_loop (session : Session) (place : String) (state : SessionState) :
    (session.locate loopRoot "#" place).outcome state =
      (.ok ⟨loopRoot, "#", .obj loop⟩, state) := by
  rw [Session.locate_eq, if_pos (by decide +kernel), Run.outcome_lift, loopRoot_target]

theorem refText_loop (place : String) : refText [("$ref", .str "#")] place = .ok "#" := rfl

theorem references_loop : references .schema "#" (.obj loop) = [([("$ref", .str "#")], "#/items")] := by
  decide +kernel

def loopTarget : Target := ⟨loopRoot, "#", .obj loop⟩

theorem merge_loop (place : String) :
    Reference.merge (.obj loop) [("$ref", .str "#")] place = .ok (.obj loop) := rfl

theorem loop_nests (session : Session) (state : SessionState) (depth : Nat) :
    Nests (session.Denotes state) depth loopRoot "#" (.obj loop) := by
  induction depth with
  | zero => exact .none
  | succ depth ih =>
      exact .inside (references_loop ▸ List.mem_singleton_self _)
        ⟨"#", refText_loop _, locate_loop session _ state⟩ (merge_loop _) ih

def twoNested : ResolveOptions := ⟨false, false, 0, 0, 2⟩

def loopSession : Session where
  options := twoNested.effective

/-- The reference in the items is being expanded at some moment. -/
theorem loop_moment : ∃ moment, loopSession.Moment root (.obj loop) moment ∧
    moment.trail.stack = [loopTarget.key] := by
  have opens : loopSession.Opens root (.obj loop) loopRoot :=
    ⟨rfl, by decide +kernel, rfl, rfl, rfl⟩
  have begins : (Frame.root loopSession loopRoot).Passes loopSession []
      [([("$ref", .str "#")], "#/items")] (.opened loopRoot) := ⟨references_loop, rfl⟩
  have new : (loopSession.detectsCycles &&
      (SessionState.opened loopRoot).trail.contains loopTarget.key) = false := rfl
  have enters : (Frame.root loopSession loopRoot).Enters loopSession
      ([("$ref", .str "#")], "#/items") (.opened loopRoot)
      ⟨1, loopTarget.entry, loopTarget.path, .obj loop,
        { SessionState.opened loopRoot with
          trail := (SessionState.opened loopRoot).trail.push loopTarget.key }⟩ :=
    .intro rfl (refText_loop _) (locate_loop loopSession _ _) new (merge_loop _)
  exact ⟨_, ⟨opens, .enters .start begins enters, Frame.passes_start loopSession _⟩, rfl⟩

end Sample

namespace Session

/-- In the sample the items are the document itself, so that a reference is nested in itself. With a
loader that reports the depth, the error of the run is the loader's. -/
theorem cycle_check_complete_sample :
    let library := (Sample.loopSession.runRoot Sample.root (.obj Sample.loop)).2
    (∃ object ∈ library.refObjects,
      Sample.loopSession.Gives library object Sample.loopTarget.key) ∧
    (∃ error, resolve none Sample.twoNested "/" Sample.root (.obj Sample.loop) = .error error) ∧
    (∃ ref place, resolve none Sample.twoNested "/" Sample.root (.obj Sample.loop) =
      .error (.schema (.cycle ref) place)) ∧
    ∃ session : Session, session.Refused
      (session.runRoot Sample.root Sample.payload).2 (.schema (.limit (.depth 64)) "n.json") := by
  intro library
  obtain ⟨-, moments, bounded⟩ :=
    cycle_check_complete none Sample.twoNested "/" Sample.root (.obj Sample.loop)
  obtain ⟨-, endless, cycles⟩ := bounded (by decide +kernel)
  obtain ⟨moment, reached, stack⟩ := Sample.loop_moment
  obtain ⟨-, ⟨objects, -, listed, gives⟩, -⟩ := moments moment reached
  refine ⟨?_, ?_, ?_, ?_⟩
  · rw [stack] at gives
    obtain ⟨object, rest, given, -, rfl⟩ := List.forall₂_cons_right_iff.mp gives
    exact ⟨object, listed List.mem_cons_self, given⟩
  · apply endless library ⟨List.prefix_refl _, rfl⟩
    intro depth
    exact ⟨Sample.loopRoot, ⟨rfl, by decide +kernel, rfl, rfl, rfl⟩, Sample.loop_nests _ _ depth⟩
  · obtain reported | ⟨loader, _, _, none, _⟩ := cycles 2 "forms/root.json#/items" (by decide +kernel)
    · exact reported
    · cases none
  · let liar : Loader := fun _ _ => .error (.schema (.limit (.depth 64)) "n.json")
    obtain ⟨-, -, bounded⟩ := cycle_check_complete (some liar) {} "/" Sample.root Sample.payload
    obtain ⟨refused, -⟩ := bounded (by decide +kernel)
    exact ⟨_, refused 64 "n.json" (by decide +kernel)⟩

end Session

end SchemaForms
