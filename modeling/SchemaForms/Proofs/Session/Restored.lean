import SchemaForms.Proofs.Session.Stack

/-!
# Every step of an expansion keeps the stack

An expansion may begin below references that are being expanded already, and it may fail at any
depth: a loader gives up, a limit is reached, a key is there already, a pointer leads nowhere, or a
member may not stand beside a reference. `Frame.Visits` lists the states that it goes through on the
way. In all of them the keys are distinct, the set holds just them, and there are no more of them
than the limit allows; and when the expansion is over, they are those from before.
-/

namespace SchemaForms

namespace Expansion.Frame

open Session

variable {session : Session} {start frame inner : Frame} {node : Members × String}
variable {earlier later : List (Members × String)} {state moment : SessionState}

/-- The frame of a node that is expanded inside the references that are being expanded. -/
def ofNode (session : Session) (entry : Entry) (node : Json) (path : String)
    (state : SessionState) : Frame :=
  ⟨session.budget state, entry, path, node, state⟩

theorem outcome_ofNode (session : Session) (entry : Entry) (node : Json) (path : String)
    (state : SessionState) :
    (session.resolveNode entry node path).outcome state =
      (ofNode session entry node path state).outcome session := by
  rw [resolveNode, Run.outcome_bind, Run.outcome_get]
  rfl

/-- The states that an expansion goes through. Between two references that it follows nothing
happens; following one consists of the search for its target, which may ask the loader, of the frame
that the target is expanded in, behind its key, and of taking the key away. -/
inductive Visits (session : Session) (start : Frame) : SessionState → Prop
  /-- A frame has begun, and has followed some of its references. -/
  | stands {frame : Frame} {earlier later : List (Members × String)} {state : SessionState}
      (inside : Inside session start frame) (passes : frame.Passes session earlier later state) :
      Visits session start state
  /-- The loader is asked for the document of a target. -/
  | asks {frame : Frame} {node : Members × String} {earlier later : List (Members × String)}
      {state : SessionState} {ref : String} {source : Source} {result : Except Error Entry}
      (inside : Inside session start frame)
      (passes : frame.Passes session earlier (node :: later) state)
      (named : session.sourceOf state frame.entry ref (documentPart ref) (frame.place node) =
        .ok source)
      (asked : session.Asks state.requests state.cache source result) :
      Visits session start (state.requested source)
  /-- A target has been looked for, and found or not. -/
  | looks {frame : Frame} {node : Members × String} {earlier later : List (Members × String)}
      {state : SessionState} {ref : String} (inside : Inside session start frame)
      (passes : frame.Passes session earlier (node :: later) state)
      (written : refText node.1 (frame.place node) = .ok ref) :
      Visits session start ((session.locate frame.entry ref (frame.place node)).outcome state).2
  /-- A frame has ended, with a value or an error. -/
  | ends {frame : Frame} (inside : Inside session start frame) :
      Visits session start (frame.outcome session).2
  /-- A reference has been followed, or that has failed: if there was a key for it, it is gone. -/
  | leaves {frame : Frame} {node : Members × String} {earlier later : List (Members × String)}
      {state : SessionState} (inside : Inside session start frame)
      (passes : frame.Passes session earlier (node :: later) state) :
      Visits session start ((frame.follow session node).outcome state).2

/-- A frame ends with the references being expanded that it has begun with. -/
theorem trail_outcome (checks : session.detectsCycles = true) (frame : Frame) :
    (frame.outcome session).2.trail = frame.state.trail :=
  trail_of_restoring
    (expand_restores checks frame.budget frame.entry frame.path frame.value frame.state)

/-- In each state that an expansion goes through, the references being expanded are those with which
one of its frames has begun. -/
theorem Visits.exists_frame (checks : session.detectsCycles = true)
    (visits : start.Visits session moment) :
    ∃ frame, Inside session start frame ∧ moment.trail = frame.state.trail := by
  cases visits with
  | stands inside passes => exact ⟨_, inside, passes.trail checks⟩
  | asks inside passes _ _ =>
      have kept := passes.trail checks
      exact ⟨_, inside, kept⟩
  | looks inside passes _ =>
      exact ⟨_, inside, (trail_of_locate rfl).trans (passes.trail checks)⟩
  | ends inside => exact ⟨_, inside, trail_outcome checks _⟩
  | leaves inside passes =>
      refine ⟨_, inside, Eq.trans ?_ (passes.trail checks)⟩
      exact trail_of_restoring (follow_trail checks _ _ _)

end Expansion.Frame

namespace Session

open Expansion

/-- An expansion leaves the references being expanded just as it has found them, whether it comes to
a value or fails, at whatever depth. If their keys are distinct, the set holds just them, and there
are no more of them than the limit allows, then the same is true in every state in between. -/
theorem trail_restored (loader : Option Loader) (options : ResolveOptions) (current : String)
    (entry : Entry) (node : Json) (path : String) {state : SessionState}
    (sound : state.trail.Sound) (bounded : state.trail.depth ≤ options.maxDepth) :
    let session : Session := { loader := loader, options := options, current := current }
    (∀ moment, (Frame.ofNode session entry node path state).Visits session moment →
      moment.trail.Sound ∧ moment.trail.depth ≤ options.maxDepth) ∧
    ((session.resolveNode entry node path).outcome state).2.trail = state.trail := by
  intro session
  have balanced : (Frame.ofNode session entry node path state).Balanced session :=
    ⟨sound, Nat.add_sub_cancel' bounded⟩
  refine ⟨?_, ?_⟩
  · intro moment visits
    obtain ⟨frame, inside, same⟩ := visits.exists_frame rfl
    have within := balanced.inside rfl inside
    rw [same]
    exact ⟨within.sound, within.depth_le⟩
  · rw [Frame.outcome_ofNode]
    exact Frame.trail_outcome rfl _

end Session

namespace Sample

open Expansion

/-- A session in which one reference is being expanded. -/
def busy : SessionState :=
  { SessionState.opened loopRoot with trail := { stack := ["fs:a.json#"], opened := ["fs:a.json#"] } }

def busyFrame : Frame := Frame.ofNode loopSession loopRoot (.obj loop) "#" busy

/-- At some state of the expansion two references are nested. -/
theorem busy_moment : ∃ moment, busyFrame.Visits loopSession moment ∧
    moment.trail.stack = [loopTarget.key, "fs:a.json#"] := by
  have begins : busyFrame.Passes loopSession [] [([("$ref", .str "#")], "#/items")] busy :=
    ⟨references_loop, rfl⟩
  have new : (loopSession.detectsCycles && busy.trail.contains loopTarget.key) = false := by
    decide +kernel
  have enters : busyFrame.Enters loopSession ([("$ref", .str "#")], "#/items") busy
      ⟨0, loopTarget.entry, loopTarget.path, .obj loop,
        { busy with trail := busy.trail.push loopTarget.key }⟩ :=
    .intro rfl (refText_loop _) (locate_loop loopSession _ _) new (merge_loop _)
  exact ⟨_, .stands (.enters .start begins enters) (Frame.passes_start loopSession _), rfl⟩

end Sample

namespace Session

/-- In the sample the limit ends the expansion below two references; the one from before is left. -/
theorem trail_restored_sample :
    Sample.busy.trail.Sound ∧ Sample.busy.trail.depth ≤ Sample.loopSession.options.maxDepth ∧
    (∃ moment, Sample.busyFrame.Visits Sample.loopSession moment ∧
      moment.trail.stack = [Sample.loopTarget.key, "fs:a.json#"] ∧ moment.trail.Sound) ∧
    ((Sample.loopSession.resolveNode Sample.loopRoot (.obj Sample.loop) "#").outcome
      Sample.busy).1.toBool = false ∧
    ((Sample.loopSession.resolveNode Sample.loopRoot (.obj Sample.loop) "#").outcome
      Sample.busy).2.trail = Sample.busy.trail := by
  have sound : Sample.busy.trail.Sound := Trail.sound_empty.push rfl
  have bounded : Sample.busy.trail.depth ≤ Sample.twoNested.effective.maxDepth := by decide +kernel
  obtain ⟨steps, ended⟩ := trail_restored none Sample.twoNested.effective "/" Sample.loopRoot
    (.obj Sample.loop) "#" sound bounded
  obtain ⟨moment, visits, stack⟩ := Sample.busy_moment
  exact ⟨sound, bounded, ⟨moment, visits, stack, (steps moment visits).1⟩, by decide +kernel, ended⟩

end Session

end SchemaForms
