import SchemaForms.Proofs.Session.Load
import SchemaForms.Reference.Expansion

/-!
# How a session begins

A session begins with the opening of its root document, which either fails and leaves no trace, or
puts the root into an empty session. What is left of a run is then the expansion of the root's
content, so a fact about whole runs is one about expansions that begin in such a state.
-/

namespace SchemaForms

/-- The session that has read nothing but its root document. -/
def SessionState.opened (root : Entry) : SessionState :=
  { cache := [root], root := some root }

namespace Session

variable {session : Session} {document : Document} {payload : Json} {root : Entry}

/-- The document with the payload has become the root of a session. -/
structure Opens (session : Session) (document : Document) (payload : Json) (root : Entry) :
    Prop where
  held : payload = .obj root.data
  size : document.size ≤ session.options.maxDocumentSize
  anchors : Anchors.index payload root.location "#" = .ok root.anchors
  origin : root.origin = session.originOf document.source
  kind : root.kind = document.kind

/-- Opening a root document fails without a trace, or puts the root into the session. -/
theorem openRoot_ends (session : Session) (document : Document) (payload : Json) :
    (∃ error, (session.openRoot document payload).outcome {} = (.error error, {})) ∨
      ∃ root, session.Opens document payload root ∧
        (session.openRoot document payload).outcome {} = (.ok root, .opened root) := by
  cases payload with
  | obj members =>
      simp only [openRoot, Run.outcome_bind, Run.outcome_pure, Run.outcome_lift,
        ofSource_eq_originOf]
      cases size : session.checkSize document (session.originOf document.source).location with
      | error error => exact .inl ⟨error, rfl⟩
      | ok _ =>
          cases indexed : Anchors.index (.obj members)
              (session.originOf document.source).location "#" with
          | error error => exact .inl ⟨error, rfl⟩
          | ok anchors =>
              let root : Entry :=
                ⟨session.originOf document.source, document.kind, members, anchors⟩
              have opens : session.Opens document (.obj members) root :=
                ⟨rfl, checkSize_eq_ok.mp size, indexed, rfl, rfl⟩
              exact .inr ⟨root, opens, rfl⟩
  | _ => exact .inl ⟨_, rfl⟩

/-- A root document that has been opened is all that the session has. -/
theorem opens_of_openRoot {start : SessionState}
    (run : (session.openRoot document payload).outcome {} = (.ok root, start)) :
    session.Opens document payload root ∧ start = .opened root := by
  obtain ⟨error, failed⟩ | ⟨other, opens, opened⟩ := session.openRoot_ends document payload
  · rw [failed] at run
    cases run
  · rw [opened, Prod.mk.injEq, Except.ok.injEq] at run
    obtain ⟨rfl, rfl⟩ := run
    exact ⟨opens, rfl⟩

/-- A document that can become the root of a session does so. -/
theorem Opens.run (h : session.Opens document payload root) :
    (session.openRoot document payload).outcome {} = (.ok root, .opened root) := by
  obtain ⟨origin, kind, data, anchors⟩ := root
  obtain ⟨rfl, size, indexed, rfl, rfl⟩ := h
  have fits : session.checkSize document (session.originOf document.source).location = .ok () :=
    checkSize_eq_ok.mpr size
  have indexes : Anchors.index (.obj data) (session.originOf document.source).location "#" =
      .ok anchors := indexed
  simp only [openRoot, Run.outcome_bind, Run.outcome_pure, Run.outcome_lift, ofSource_eq_originOf,
    fits, indexes]
  rfl

/-- A run fails with its root document, or is the expansion of the root's content. -/
theorem runRoot_ends (session : Session) (document : Document) (payload : Json) :
    (∃ error, session.runRoot document payload = (.error error, {})) ∨
      ∃ root, session.Opens document payload root ∧
        (session.runRoot document payload).2 =
          ((session.resolveNode root payload "#").outcome (.opened root)).2 ∧
        ∀ tree, (session.runRoot document payload).1 = .ok tree ↔
          ((session.resolveNode root payload "#").outcome (.opened root)).1 = .ok (.obj tree) := by
  have run : session.runRoot document payload =
      (session.resolveRoot document payload).outcome {} := rfl
  rw [run, resolveRoot, Run.outcome_bind]
  obtain ⟨error, failed⟩ | ⟨root, opens, opened⟩ := session.openRoot_ends document payload
  · rw [failed]
    exact .inl ⟨error, rfl⟩
  · rw [opened]
    simp only [Run.outcome_bind]
    rw [← opens.held]
    refine .inr ⟨root, opens, ?_, ?_⟩
    all_goals
      obtain ⟨ended, after⟩ := (session.resolveNode root payload "#").outcome (.opened root)
      cases ended with
      | error error => simp
      | ok result => cases result <;> simp

end Session

end SchemaForms
