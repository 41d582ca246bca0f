import SchemaForms.Proofs.Expansion.References
import SchemaForms.Proofs.Session.Fetched

/-!
# The expansions inside an expansion

What an expansion does to the session it does by following the references of its value, one after
the other: `walk_followed` leaves out the results of a walk and keeps its steps. A `Frame` is an
expansion that begins in some state. By `Frame.Enters` a reference leads to another frame, inside
the first one, and `Frame.Inside` collects all frames that a run goes through.

The references that are being expanded change only where a frame begins or ends, so what holds of
them in all frames holds throughout the run.
-/

namespace SchemaForms.Expansion

/-- Follow objects with references, one after the other. -/
def followAll (follow : Members × String → Run Json) : List (Members × String) → Run Unit
  | [] => pure ()
  | node :: rest => do
    let _ ← follow node
    followAll follow rest

section Walk

variable (follow : Members × String → Run Json)

theorem followAll_append (earlier later : List (Members × String)) :
    followAll follow (earlier ++ later) =
      followAll follow earlier >>= fun _ => followAll follow later := by
  induction earlier with
  | nil => simp [followAll]
  | cons node rest ih => simp [followAll, ih]

/-- A walk in two parts, of which only the steps are kept. -/
theorem followAll_parts {α β γ : Type} {first : Run α} {second : Run β} {build : α → β → γ}
    {earlier later : List (Members × String)}
    (head : (fun _ => ()) <$> first = followAll follow earlier)
    (tail : (fun _ => ()) <$> second = followAll follow later) :
    (fun _ => ()) <$> (do return build (← first) (← second)) =
      followAll follow (earlier ++ later) := by
  rw [followAll_append, ← head, ← tail]
  simp

mutual

/-- The steps of a walk are to follow the references of the value. -/
theorem walk_followed : ∀ (value : Json) (place : Place) (path : String),
    (fun _ => ()) <$> walk (fun node path => follow (node, path)) place path value =
      followAll follow (references place path value)
  | .obj members, place, path => by
      cases place with
      | schema =>
          by_cases isReference : Members.has members "$ref" = true
          · simp [walk, references, isReference, followAll]
          · have inner := walkMembers_followed members Place.ofMember path
            simpa [walk, references, isReference] using inner
      | schemaMap =>
          have inner := walkMembers_followed members (fun _ => .schema) path
          simpa [walk, references] using inner
      | schemaList | data => simp [walk, references, followAll]
  | .arr elements, place, path => by
      cases place with
      | schema | schemaList =>
          have inner := walkElements_followed elements path 0
          simpa [walk, references] using inner
      | schemaMap | data => simp [walk, references, followAll]
  | .null, place, _ | .bool _, place, _ | .int _, place, _ | .double _, place, _
  | .str _, place, _ => by cases place <;> simp [walk, references, followAll]

theorem walkElements_followed : ∀ (elements : List Json) (path : String) (index : Nat),
    (fun _ => ()) <$> walkElements (fun node path => follow (node, path)) path index elements =
      followAll follow (referencesOfElements path index elements)
  | [], _, _ => by simp [walkElements, referencesOfElements, followAll]
  | value :: rest, path, index =>
      followAll_parts follow (walk_followed value .schema _)
        (walkElements_followed rest path (index + 1))

theorem walkMembers_followed : ∀ (members : List (String × Json)) (placeOf : String → Place)
    (path : String),
    (fun _ => ()) <$> walkMembers (fun node path => follow (node, path)) placeOf path members =
      followAll follow (referencesOfMembers placeOf path members)
  | [], _, _ => by simp [walkMembers, referencesOfMembers, followAll]
  | (key, value) :: rest, placeOf, path =>
      followAll_parts follow (walk_followed value (placeOf key) _)
        (walkMembers_followed rest placeOf path)

end

end Walk

theorem followAll_meets {effect : Effect} {follow : Members × String → Run Json}
    {nodes : List (Members × String)}
    (each : ∀ node state, effect.Meets (follow node) state fun _ _ => True) (state : SessionState) :
    effect.Meets (followAll follow nodes) state fun _ _ => True := by
  induction nodes generalizing state with
  | nil => exact Effect.meets_pure trivial
  | cons node rest ih =>
      apply Effect.Meets.bind
      apply (each node state).mono
      intro middle _ _ _
      exact ih middle

/-- Following references fails at one of them, after those before it. -/
theorem followAll_error {follow : Members × String → Run Json} {nodes : List (Members × String)}
    {state after : SessionState} {error : Error}
    (run : (followAll follow nodes).outcome state = (.error error, after)) :
    ∃ earlier node later middle, nodes = earlier ++ node :: later ∧
      (followAll follow earlier).outcome state = (.ok (), middle) ∧
      (follow node).outcome middle = (.error error, after) := by
  induction nodes generalizing state with
  | nil => cases run
  | cons first rest ih =>
      obtain failed | ⟨value, middle, ended, run⟩ := Run.outcome_bind_eq_error.mp run
      · exact ⟨[], first, rest, state, rfl, rfl, failed⟩
      · obtain ⟨earlier, node, later, last, rfl, followed, failed⟩ := ih run
        refine ⟨first :: earlier, node, later, last, rfl, ?_, failed⟩
        exact Run.outcome_bind_eq_ok.mpr ⟨value, middle, ended, followed⟩

/-- An expansion that begins in a state. -/
structure Frame where
  budget : Nat
  entry : Entry
  path : String
  value : Json
  state : SessionState

namespace Frame

variable {session : Session}

def outcome (session : Session) (frame : Frame) : Except Error Json × SessionState :=
  (expand session frame.budget frame.entry .schema frame.path frame.value).outcome frame.state

/-- How the expansion follows an object with a reference. -/
def follow (session : Session) (frame : Frame) (node : Members × String) : Run Json :=
  expand.follow session frame.entry (descent session frame.budget) node.1 node.2

/-- The objects with references that the expansion follows. -/
def references (frame : Frame) : List (Members × String) :=
  Expansion.references .schema frame.path frame.value

/-- Where messages say that an object of the frame stands. -/
def place (frame : Frame) (node : Members × String) : String :=
  frame.entry.location ++ node.2

/-- From a state the reference of an object leads to the frame in which its target is expanded. -/
inductive Enters (session : Session) (frame : Frame) (node : Members × String)
    (state : SessionState) : Frame → Prop
  | intro {less : Nat} {ref : String} {target : Target} {found : SessionState} {merged : Json}
      (budget : frame.budget = less + 1) (written : refText node.1 (frame.place node) = .ok ref)
      (located : (session.locate frame.entry ref (frame.place node)).outcome state =
        (.ok target, found))
      (passes : (session.detectsCycles && found.trail.contains target.key) = false)
      (put : Reference.merge target.value node.1 (frame.place node) = .ok merged) :
      Enters session frame node state
        ⟨less, target.entry, target.path, merged,
          { found with trail := found.trail.push target.key }⟩

/-- The expansion has followed the earlier references of its value, the later ones not yet. -/
structure Passes (session : Session) (frame : Frame) (earlier later : List (Members × String))
    (state : SessionState) : Prop where
  split : frame.references = earlier ++ later
  followed : (followAll (frame.follow session) earlier).outcome frame.state = (.ok (), state)

/-- In the beginning all references of a frame are still to be followed. -/
theorem passes_start (session : Session) (frame : Frame) :
    frame.Passes session [] frame.references frame.state :=
  ⟨rfl, rfl⟩

/-- The frames inside a frame: itself, and those that references of frames inside it lead to. -/
inductive Inside (session : Session) (start : Frame) : Frame → Prop
  | start : Inside session start start
  | enters {frame inner : Frame} {node : Members × String} {earlier later : List (Members × String)}
      {state : SessionState} (inside : Inside session start frame)
      (passes : frame.Passes session earlier (node :: later) state)
      (enters : frame.Enters session node state inner) : Inside session start inner

/-- To follow a reference into a frame is to run the frame, and to leave it. -/
theorem Enters.outcome {frame inner : Frame} {node : Members × String} {state : SessionState}
    (h : frame.Enters session node state inner) :
    (frame.follow session node).outcome state =
      ((inner.outcome session).1, { (inner.outcome session).2 with
        trail := (inner.outcome session).2.trail.pop }) := by
  obtain ⟨budget, written, located, passes, put⟩ := h
  unfold place at written located put
  simp only [Frame.follow, budget, descent, expand.follow, Run.outcome_bind, Run.outcome_lift,
    written, located, Run.outcome_get, passes, Bool.false_eq_true, if_false, put, outcome_nested]
  rfl

/-- The errors that following a reference can come to by itself, before its target is expanded. -/
inductive Stops (session : Session) (frame : Frame) (node : Members × String)
    (state : SessionState) : Error → SessionState → Prop
  | text {error : Error} (h : refText node.1 (frame.place node) = .error error) :
      Stops session frame node state error state
  | locate {ref : String} {error : Error} {after : SessionState}
      (written : refText node.1 (frame.place node) = .ok ref)
      (h : (session.locate frame.entry ref (frame.place node)).outcome state =
        (.error error, after)) : Stops session frame node state error after
  | depth {after : SessionState} (none : frame.budget = 0) : Stops session frame node state
      (.schema (.limit (.depth session.options.maxDepth)) (frame.place node)) after
  | cycle {ref : String} {target : Target} {found after : SessionState}
      (written : refText node.1 (frame.place node) = .ok ref)
      (located : (session.locate frame.entry ref (frame.place node)).outcome state =
        (.ok target, found))
      (again : found.trail.contains target.key = true) :
      Stops session frame node state (.schema (.cycle ref) (frame.place node)) after
  | merge {target : Target} {error : Error} {after : SessionState}
      (h : Reference.merge target.value node.1 (frame.place node) = .error error) :
      Stops session frame node state error after

/-- Following a reference fails by itself, or in the frame that it leads to. -/
theorem follow_fails {frame : Frame} {node : Members × String} {state after : SessionState}
    {error : Error} (run : (frame.follow session node).outcome state = (.error error, after)) :
    frame.Stops session node state error after ∨
      ∃ inner ended, frame.Enters session node state inner ∧
        inner.outcome session = (.error error, ended) ∧
          after.cache = ended.cache ∧ after.requests = ended.requests := by
  unfold Frame.follow expand.follow at run
  obtain ⟨failed, rfl⟩ | ⟨ref, written, run⟩ := Run.outcome_lift_bind_eq_error.mp run
  · exact .inl (.text failed)
  obtain failed | ⟨target, found, located, run⟩ := Run.outcome_bind_eq_error.mp run
  · exact .inl (.locate written failed)
  cases budget : frame.budget with
  | zero =>
      rw [budget] at run
      obtain ⟨rfl, -⟩ := Run.outcome_throw_eq_error.mp run
      exact .inl (.depth budget)
  | succ less =>
      rw [budget] at run
      have run := Run.outcome_get_bind_eq_error.mp run
      split at run
      · rename_i again
        obtain failed | ⟨_, _, impossible, _⟩ := Run.outcome_bind_eq_error.mp run
        · obtain ⟨rfl, -⟩ := Run.outcome_throw_eq_error.mp failed
          exact .inl (.cycle written located (Bool.and_eq_true_iff.mp again).2)
        · cases impossible
      · rename_i passes
        obtain ⟨failed, -⟩ | ⟨merged, put, run⟩ := Run.outcome_lift_bind_eq_error.mp run
        · exact .inl (.merge failed)
        · rw [outcome_nested] at run
          obtain ⟨failed, rfl⟩ := Prod.mk.inj run
          exact .inr ⟨_, _, .intro budget written located (eq_false_of_ne_true passes) put,
            Prod.ext failed rfl, rfl, rfl⟩

/-- An expansion comes to what its references come to, one after the other. -/
theorem outcome_references (session : Session) (frame : Frame) :
    (followAll (frame.follow session) frame.references).outcome frame.state =
      ((frame.outcome session).1.map fun _ => (), (frame.outcome session).2) := by
  rw [references, ← walk_followed, Run.outcome_map, outcome, expand_eq]
  rfl

/-- An expansion that fails does so at one of its references. -/
theorem outcome_error {frame : Frame} {error : Error} {after : SessionState}
    (run : frame.outcome session = (.error error, after)) :
    ∃ earlier node later state, frame.Passes session earlier (node :: later) state ∧
      (frame.follow session node).outcome state = (.error error, after) := by
  have fails := outcome_references session frame
  rw [run] at fails
  obtain ⟨earlier, node, later, state, split, followed, failed⟩ := followAll_error fails
  exact ⟨earlier, node, later, state, ⟨split, followed⟩, failed⟩

/-- An expansion fails in a frame inside it, where a reference is not followed further. -/
theorem Inside.fails {start frame : Frame} {error : Error} {after : SessionState}
    (inside : Inside session start frame) (run : frame.outcome session = (.error error, after)) :
    ∃ inner earlier node later state ended, Inside session start inner ∧
      inner.Passes session earlier (node :: later) state ∧
      inner.Stops session node state error ended ∧
        after.cache = ended.cache ∧ after.requests = ended.requests := by
  -- A frame has less budget than the one around it, so the failure is followed inwards to its end.
  induction eq : frame.budget generalizing frame after with
  | zero =>
      obtain ⟨earlier, node, later, state, passes, failed⟩ := outcome_error run
      obtain stops | ⟨inner, ended, ⟨more, _, _, _, _⟩, _⟩ := follow_fails failed
      · exact ⟨frame, earlier, node, later, state, after, inside, passes, stops, rfl, rfl⟩
      · cases eq.symm.trans more
  | succ budget ih =>
      obtain ⟨earlier, node, later, state, passes, failed⟩ := outcome_error run
      obtain stops | ⟨inner, ended, enters, failed, cache, requests⟩ := follow_fails failed
      · exact ⟨frame, earlier, node, later, state, after, inside, passes, stops, rfl, rfl⟩
      · have less : inner.budget = budget := by
          obtain ⟨more, _, _, _, _⟩ := enters
          exact Nat.succ.inj (more.symm.trans eq)
        obtain ⟨last, earlier, node, later, state, ended', found⟩ :=
          ih (inside.enters passes enters) failed less
        obtain ⟨inside, passes, stops, cache', requests'⟩ := found
        exact ⟨last, earlier, node, later, state, ended', inside, passes, stops,
          cache.trans cache', requests.trans requests'⟩

end Frame

end SchemaForms.Expansion
