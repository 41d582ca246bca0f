import SchemaForms.Proofs.Session.Load

/-!
# What finding a target does

A reference without a path stays in its document and only reads it. Any other names a source, and
finding its target does to the session what loading that source does.
-/

namespace SchemaForms

/-- What a fragment denotes in a document, as the target of a reference. -/
def Entry.target (entry : Entry) (fragment place : String) : Except Error Target :=
  (entry.fragment fragment place).map fun found => ⟨entry, found.1, found.2⟩

theorem entry_of_target {entry : Entry} {fragment place : String} {target : Target}
    (h : entry.target fragment place = .ok target) : target.entry = entry := by
  obtain ⟨found, -, rfl⟩ := except_map_eq_ok.mp h
  rfl

namespace Session

/-- The part of a reference that names a document; it is empty if the reference stays in its own. -/
def documentPart (ref : String) : String := (Text.cut '#' ref).1

/-- The part of a reference that names a place in a document. -/
def fragmentPart (ref : String) : String := (Text.cut '#' ref).2.getD ""

/-- A reference is followed in two steps: from document to document, and to a place there. -/
theorem locate_eq (session : Session) (entry : Entry) (ref place : String) :
    session.locate entry ref place =
      if documentPart ref = "" then liftM (entry.target (fragmentPart ref) place)
      else (do
        let state ← get
        let source ← session.sourceOf state entry ref (documentPart ref) place
        let other ← session.load source
        liftM (other.target (fragmentPart ref) place)) := by
  have read (other : Entry) : (do
      let found ← (other.fragment (fragmentPart ref) place : Run _)
      return ⟨other, found.1, found.2⟩ : Run Target) =
        liftM (other.target (fragmentPart ref) place) := by
    unfold Entry.target
    cases other.fragment (fragmentPart ref) place <;> rfl
  simp only [← read]
  rfl

variable {effect : Effect} {session : Session} {entry : Entry} {ref place : String}
variable {state : SessionState} {post : SessionState → Target → Prop}

theorem locate_meets
    (stay : documentPart ref = "" → ∀ target,
      entry.target (fragmentPart ref) place = .ok target → post state target)
    (go : documentPart ref ≠ "" → ∀ source,
      session.sourceOf state entry ref (documentPart ref) place = .ok source →
      effect.Meets (session.load source) state fun after other => ∀ target,
        other.target (fragmentPart ref) place = .ok target → post after target) :
    effect.Meets (session.locate entry ref place) state post := by
  rw [locate_eq]
  split
  · rename_i here
    exact Effect.meets_lift (stay here)
  · rename_i elsewhere
    apply Effect.Meets.bind
    apply Effect.meets_get
    apply Effect.Meets.bind
    apply Effect.meets_lift
    intro source named
    apply Effect.Meets.bind
    apply (go elsewhere source named).mono
    intro after other _ reads
    exact Effect.meets_lift reads

/-- Looking for a target leaves the references that are being expanded as they are, whether it is
found or not. -/
theorem trail_of_locate {after : SessionState} {result : Except Error Target}
    (run : (session.locate entry ref place).outcome state = (result, after)) :
    after.trail = state.trail := by
  have keeps : (Effect.keeping fun other => other.trail = state.trail).Meets
      (session.locate entry ref place) state fun _ _ => True := by
    apply locate_meets
    · exact fun _ _ _ => trivial
    · intro _ source _
      apply load_meets
      intro ended ends
      cases ends with
      | found => exact ⟨id, fun _ _ => trivial⟩
      | full | noLoader | refused => exact id
      | accepted => exact ⟨id, fun _ _ => trivial⟩
  have kept := keeps.kept rfl
  rw [run] at kept
  exact kept

end Session

end SchemaForms
