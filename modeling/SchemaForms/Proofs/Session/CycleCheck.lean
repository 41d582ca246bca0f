import SchemaForms.Proofs.Expansion.SelfContained
import SchemaForms.Proofs.Session.Targets

/-!
# The cycle check

With or without the check for cycles a session comes to the same whenever it comes to a result at
all. A run that succeeds has no way down on which a target is opened twice, as then its expansion
could not have completed; so the check, if it is made, finds nothing, and the two sessions take the
same steps.
-/

namespace SchemaForms

namespace Session

variable {session : Session}

def checking (session : Session) (checks : Bool) : Session :=
  { session with detectsCycles := checks }

theorem checking_openRoot (checks : Bool) (document : Document) (payload : Json) :
    (session.checking checks).openRoot document payload = session.openRoot document payload := rfl

theorem checking_load (checks : Bool) (source : Source) :
    (session.checking checks).load source = session.load source := rfl

theorem checking_sourceOf (checks : Bool) (state : SessionState) (entry : Entry)
    (ref path place : String) :
    (session.checking checks).sourceOf state entry ref path place =
      session.sourceOf state entry ref path place := rfl

theorem checking_locate (checks : Bool) (entry : Entry) (ref place : String) :
    (session.checking checks).locate entry ref place = session.locate entry ref place := by
  simp only [locate_eq, checking_load, checking_sourceOf]

end Session

namespace Expansion

variable {session : Session}

/-- If the target of a reference is not open and its expansion is the same with and without the
check for cycles, then so is following the reference. -/
theorem follow_again (checks : Bool) {budget : Nat} {library : SessionState} {entry : Entry}
    {trail : Trail} {node : Members × String}
    (fresh : ∀ target, session.Denotes library entry node.1 (entry.location ++ node.2) target →
      target.key ∉ trail.opened)
    (below : ∀ less target merged state after result, budget = less + 1 →
      session.Denotes library entry node.1 (entry.location ++ node.2) target →
      Reference.merge target.value node.1 (entry.location ++ node.2) = .ok merged →
      state.trail = trail.push target.key → SessionState.Grows after library →
      (expand session less target.entry .schema target.path merged).outcome state =
        (.ok result, after) →
      (expand (session.checking checks) less target.entry .schema target.path merged).outcome
        state = (.ok result, after) ∧ after.trail = state.trail) :
    AgreesOn (expand.follow session entry (descent session budget))
      (expand.follow (session.checking checks) entry (descent (session.checking checks) budget))
      (fun state => state.trail = trail) (SessionState.Grows · library) node := by
  rintro state after result rfl grows run
  obtain ⟨ref, target, middle, _, merged, written, located, allowed, -, put, run⟩ :=
    follow_eq_ok.mp run
  cases budget with
  | zero => cases allowed
  | succ less =>
      cases allowed
      obtain ⟨ended, inner, rfl⟩ := nested_eq_ok.mp run
      have grows : SessionState.Grows ended library := ⟨grows.cache, grows.root⟩
      have same := Session.trail_of_locate located
      have grown : SessionState.Grows middle library := by
        have done := ((expand_meets (Session.finds_fetching session) less trivial).ok inner).1
        have pushed := (Session.grows_of_fetching done).trans grows
        exact ⟨pushed.cache, pushed.root⟩
      have denotes : session.Denotes library entry node.1 (entry.location ++ node.2) target :=
        ⟨ref, written, Session.locate_again located grown⟩
      have new : middle.trail.contains target.key = false := by
        rw [same]
        simpa [Trail.contains] using fresh target denotes
      obtain ⟨again, kept⟩ := below less target merged _ ended result rfl denotes put
        (by rw [same]) grows inner
      -- The target is new, so the check passes if it is made, and is forgotten afterwards.
      constructor
      · rw [follow_eq_ok]
        refine ⟨ref, target, middle, _, merged, written, ?_, rfl, ?_, put, ?_⟩
        · rw [Session.checking_locate]
          exact located
        · rw [new, Bool.and_false]
        · exact nested_eq_ok.mpr ⟨ended, again, rfl⟩
      · rw [kept, Trail.pop_push new, same]

/-- An expansion that opens nothing twice is the same with and without the check for cycles. The
documents are those at the end of the run, or at any time after it. -/
theorem expand_again (checks : Bool) (budget : Nat) {library : SessionState} {entry : Entry}
    {path : String} {value result : Json} {state after : SessionState}
    (clear : Clear (session.Denotes library) state.trail.opened entry path value)
    (grows : SessionState.Grows after library)
    (run : (expand session budget entry .schema path value).outcome state = (.ok result, after)) :
    (expand (session.checking checks) budget entry .schema path value).outcome state =
      (.ok result, after) ∧ after.trail = state.trail := by
  -- What references denote is read off the documents at the end, which are the same at every step,
  -- so that only the open targets change along the induction.
  induction budget using Nat.strong_induction_on
    generalizing entry path value result state after with
  | _ budget ih =>
      rw [expand_eq] at run ⊢
      obtain ⟨fresh, further⟩ := clear
      have agree : ∀ node ∈ references .schema path value,
          AgreesOn (expand.follow session entry (descent session budget))
            (expand.follow (session.checking checks) entry
              (descent (session.checking checks) budget))
            (fun other => other.trail = state.trail) (SessionState.Grows · library) node := by
        intro node mem
        apply follow_again checks (fresh node mem)
        rintro less target merged first last result rfl denotes put pushed ends run
        have new := fresh node mem target denotes
        apply ih less less.lt_succ_self _ ends run
        have opened : first.trail.opened = target.key :: state.trail.opened := by
          rw [pushed, Trail.push, if_neg (by simpa using new)]
        rw [opened]
        exact further node mem target merged denotes put
      exact walk_again (follows_fetching session budget entry)
        (fun done low => (Session.grows_of_fetching done).trans low) value .schema path agree state
        after result rfl grows run

end Expansion

namespace Session

variable {session : Session} {document : Document} {payload : Json}

/-- An expansion of the root's content that succeeds is the same with and without the check for
cycles, if no document that it has read has a `#` in its key. -/
theorem resolveNode_again (checks : Bool) {root : Entry} {result : Json} {after : SessionState}
    (opens : session.Opens document payload root)
    (noHash : ∀ entry ∈ after.cache, '#' ∉ entry.key.toList)
    (run : (session.resolveNode root payload "#").outcome (.opened root) = (.ok result, after)) :
    ((session.checking checks).resolveNode root payload "#").outcome (.opened root) =
      (.ok result, after) := by
  obtain ⟨done, expanded⟩ :=
    (Expansion.resolveNode_meets (finds_fetching session) trivial).ok run
  have library : after.Library := library_of_fetched opens done.2 noHash
  have known : root ∈ after.cache := done.2.cache.subset (List.mem_singleton_self root)
  have clear : Expansion.Clear (session.Denotes after) [] root "#" payload := by
    apply Expansion.clear_of_completes (determined library) known expanded.completes
    intro _ _ _ _ _ _ _ isOpen
    cases isOpen
  rw [resolveNode, Run.outcome_get_bind_eq_ok] at run ⊢
  exact (Expansion.expand_again checks _ clear ⟨List.prefix_refl _, rfl⟩ run).1

/-- A run that succeeds is the same with and without the check for cycles, if no document that it
has read has a `#` in its key. -/
theorem runRoot_again (checks : Bool) {tree : Members}
    (noHash : ∀ entry ∈ (session.runRoot document payload).2.cache, '#' ∉ entry.key.toList)
    (run : (session.runRoot document payload).1 = .ok tree) :
    (session.checking checks).runRoot document payload = session.runRoot document payload := by
  have runs (session : Session) : session.runRoot document payload =
      (session.resolveRoot document payload).outcome {} := rfl
  simp only [runs, resolveRoot, Run.outcome_bind, checking_openRoot] at run noHash ⊢
  obtain ⟨error, failed⟩ | ⟨root, opens, opened⟩ := session.openRoot_ends document payload
  · rw [failed] at run
    cases run
  · simp only [opened] at run noHash ⊢
    rw [← opens.held] at run noHash ⊢
    cases expands : (session.resolveNode root payload "#").outcome (.opened root) with
    | mk ended after =>
        rw [expands] at run noHash
        cases ended with
        | error error => cases run
        | ok result =>
            have reads : ∀ entry ∈ after.cache, '#' ∉ entry.key.toList := by
              cases result <;> exact noHash
            rw [resolveNode_again checks opens reads expands]

/-- So a session comes to a tree with the check for cycles just if it does so without. -/
theorem runRoot_ok_iff (checks : Bool) {tree : Members}
    (noHash : ∀ entry ∈ (session.runRoot document payload).2.cache, '#' ∉ entry.key.toList)
    (noHash' : ∀ entry ∈ ((session.checking checks).runRoot document payload).2.cache,
      '#' ∉ entry.key.toList) :
    (session.runRoot document payload).1 = .ok tree ↔
      ((session.checking checks).runRoot document payload).1 = .ok tree := by
  constructor
  · intro run
    exact (congrArg Prod.fst (runRoot_again checks noHash run)).trans run
  · intro run
    have back : (session.checking checks).checking session.detectsCycles = session := rfl
    have again := runRoot_again session.detectsCycles noHash' run
    rw [back] at again
    exact (congrArg Prod.fst again).trans run

/-- The check for cycles has no false alarms: if no document that is read has a `#` in its key, a
root document is resolved to the same tree with and without the check. So a cycle is only ever
reported where no tree would be found. -/
theorem cycle_check_harmless (loader : Option Loader) (options : ResolveOptions) (current : String)
    (document : Document) (payload : Json) :
    let session : Session := { loader := loader, options := options.effective, current := current }
    let unchecked : Session :=
      { loader := loader, options := options.effective, current := current, detectsCycles := false }
    (∀ entry ∈ (session.runRoot document payload).2.cache, '#' ∉ entry.key.toList) →
    (∀ entry ∈ (unchecked.runRoot document payload).2.cache, '#' ∉ entry.key.toList) →
    (∀ tree, resolve loader options current document payload = .ok tree ↔
      (unchecked.runRoot document payload).1 = .ok tree) ∧
    ∀ ref place,
      resolve loader options current document payload = .error (.schema (.cycle ref) place) →
        ∀ tree, (unchecked.runRoot document payload).1 ≠ .ok tree := by
  intro session unchecked noHash noHash'
  have same (tree : Members) : (session.runRoot document payload).1 = .ok tree ↔
      (unchecked.runRoot document payload).1 = .ok tree := runRoot_ok_iff false noHash noHash'
  refine ⟨same, ?_⟩
  intro ref place reported tree run
  have found := (same tree).mpr run
  rw [resolve] at reported
  cases reported.symm.trans found

/-- The sample, in which a chain of references ends in another document, has one tree. -/
theorem cycle_check_harmless_sample :
    let unchecked : Session :=
      { loader := some Sample.loader, options := ResolveOptions.effective {}, current := "/",
        detectsCycles := false }
    resolve (some Sample.loader) {} "/" Sample.root Sample.payload = .ok Sample.tree ∧
      (unchecked.runRoot Sample.root Sample.payload).1 = .ok Sample.tree := by
  intro unchecked
  obtain ⟨same, -⟩ := cycle_check_harmless (some Sample.loader) {} "/" Sample.root Sample.payload
    (by decide +kernel) (by decide +kernel)
  exact ⟨Sample.resolved, (same Sample.tree).mp Sample.resolved⟩

end Session

end SchemaForms
