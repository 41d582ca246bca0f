import Mathlib.Order.Bounds.Defs
import SchemaForms.Proofs.Expansion.Nesting
import SchemaForms.Proofs.Expansion.Stricter
import SchemaForms.Proofs.Session.Cache

/-!
# Limits are thresholds

A run that comes to a tree needs so many references nested in one another, so many documents, and
documents of such a size, and all that is said by what it has read. With limits that allow this the
run comes to the same tree; with any others it ends at a limit. Two sets of limits are compared
through the greater of each, of which both are stricter.
-/

namespace SchemaForms.Session

open Expansion

variable {session other : Session} {document : Document} {payload : Json}

/-- So many references of the root document are nested in one another, by what has been read. -/
def Nested (session : Session) (document : Document) (payload : Json) (library : SessionState)
    (depth : Nat) : Prop :=
  ∃ root, session.Opens document payload root ∧
    Nests (session.Denotes library) depth root "#" payload

/-- The size of the root document, or of one that has been loaded. -/
def HasSize (session : Session) (document : Document) (library : SessionState) (size : Nat) :
    Prop :=
  size = document.size ∨ ∃ other, session.Loads library other ∧ size = other.size

/-- What is known of the session behind a run that has come to a tree. -/
structure Resolved (session : Session) (document : Document) (payload : Json) (root : Entry)
    (library : SessionState) : Prop where
  opens : session.Opens document payload root
  fetched : session.Fetched (.opened root) library.requests library.cache
  completes : Completes (session.Denotes library) session.options.maxDepth root "#" payload

theorem resolved_of_ok {tree : Members}
    (run : (session.runRoot document payload).1 = .ok tree) :
    ∃ root, session.Resolved document payload root (session.runRoot document payload).2 := by
  obtain ⟨error, failed⟩ | ⟨root, opens, ended, result⟩ := session.runRoot_ends document payload
  · rw [failed] at run
    cases run
  · refine ⟨root, ?_⟩
    have succeeds := (result tree).mp run
    rw [ended]
    obtain ⟨done, expanded⟩ :=
      (resolveNode_meets (finds_fetching session) trivial).ok (Prod.ext succeeds rfl)
    exact ⟨opens, done.2, expanded.completes⟩

/-- A request of a run that has come to a tree has brought a document that is not too large. -/
theorem Fetched.accepts {root : Entry} {requests : List Source} {cache : List Entry}
    (h : session.Fetched (.opened root) requests cache) {earlier later : List Source}
    {source : Source} (split : requests = earlier ++ source :: later) :
    ∃ loader other entry, session.loader = some loader ∧ loader earlier source = .ok other ∧
      session.Accepts source.kind (session.originOf source) other entry := by
  induction h generalizing later with
  | start => exact absurd split (by simp [SessionState.opened])
  | accepted _ asks ih =>
      obtain ⟨rfl, rfl, rfl⟩ | ⟨rest, rfl, rfl⟩ := Log.split_concat split
      · obtain ⟨loader, some, reply⟩ := asks.replied
        obtain ⟨other, replied, accepts⟩ := reply_eq_ok.mp reply
        exact ⟨loader, other, _, some, replied, accepts⟩
      · exact ih rfl

theorem Fetched.size_le {root : Entry} {library : SessionState}
    (h : session.Fetched (.opened root) library.requests library.cache) {other : Document}
    (loads : session.Loads library other) : other.size ≤ session.options.maxDocumentSize := by
  obtain ⟨loader, earlier, source, later, some, split, replied⟩ := loads
  obtain ⟨loader', other', entry, some', replied', accepts⟩ := h.accepts split
  obtain rfl := Option.some.inj (some.symm.trans some')
  obtain rfl := Except.ok.inj (replied.symm.trans replied')
  exact accepts.size

/-- What a session begins with does not depend on its limits. -/
theorem Opens.unique {root root' : Entry} (h : session.Opens document payload root)
    (h' : other.Opens document payload root') (current : other.current = session.current) :
    root' = root := by
  have origin : root'.origin = root.origin := by
    rw [h'.origin, h.origin, originOf, originOf, current]
  have data : root'.data = root.data := by
    have same := h'.held.symm.trans h.held
    injection same
  have anchors : root'.anchors = root.anchors := by
    have same := h'.anchors
    rw [Entry.location, origin, ← Entry.location, h.anchors] at same
    exact (Except.ok.inj same).symm
  have kind : root'.kind = root.kind := h'.kind.trans h.kind.symm
  cases root
  cases root'
  simp_all

theorem denotes_unique (session : Session) (library : SessionState) (entry : Entry)
    (node : Members) (place : String) (target target' : Target)
    (h : session.Denotes library entry node place target)
    (h' : session.Denotes library entry node place target') : target = target' :=
  h.unique h'

/-- A run that has come to a tree has kept the limits. -/
theorem Resolved.kept {root : Entry} {library : SessionState}
    (h : session.Resolved document payload root library) :
    (∀ depth, session.Nested document payload library depth → depth ≤ session.options.maxDepth) ∧
      (0 < session.options.maxDocuments →
        1 + library.requests.length ≤ session.options.maxDocuments) ∧
      ∀ size, session.HasSize document library size → size ≤ session.options.maxDocumentSize := by
  refine ⟨?_, ?_, ?_⟩
  · rintro depth ⟨again, opens, nests⟩
    obtain rfl := h.opens.unique opens rfl
    exact nests.le_of_completes (session.denotes_unique library) h.completes
  · intro space
    have bounded := (Log.of_fetched h.fetched).bounded space
    have keys := congrArg List.length h.fetched.keys
    simp only [List.length_map, List.length_cons] at keys
    omega
  · rintro size (rfl | ⟨other, loads, rfl⟩)
    · exact h.opens.size
    · exact h.fetched.size_le loads

/-- The sessions differ in their limits only. -/
structure Alike (session other : Session) : Prop where
  loader : other.loader = session.loader
  current : other.current = session.current
  traversal : other.options.allowTraversal = session.options.allowTraversal
  http : other.options.allowHttp = session.options.allowHttp
  cycles : other.detectsCycles = session.detectsCycles

/-- The session with the greater of its limits and those of another one. -/
def relaxed (session other : Session) : Session :=
  { session with
    options := { session.options with
      maxDocumentSize := max session.options.maxDocumentSize other.options.maxDocumentSize
      maxDocuments := max session.options.maxDocuments other.options.maxDocuments
      maxDepth := max session.options.maxDepth other.options.maxDepth } }

theorem stricter_relaxed (session other : Session) : session.Stricter (session.relaxed other) where
  loader := rfl
  current := rfl
  traversal := rfl
  http := id
  size := Nat.le_max_left _ _
  documents := Nat.le_max_left _ _
  depth := Nat.le_max_left _ _
  cycles := id

theorem Alike.stricter_relaxed (h : session.Alike other) :
    other.Stricter (session.relaxed other) where
  loader := h.loader
  current := h.current
  traversal := h.traversal
  http := fun on => h.http ▸ on
  size := Nat.le_max_right _ _
  documents := Nat.le_max_right _ _
  depth := Nat.le_max_right _ _
  cycles := fun on => h.cycles ▸ on

/-- A stricter session that comes to a tree does what a lax one does. -/
theorem Stricter.runRoot_eq {strict lax : Session} (h : strict.Stricter lax) {tree : Members}
    (run : (strict.runRoot document payload).1 = .ok tree) :
    strict.runRoot document payload = lax.runRoot document payload := by
  obtain same | ⟨error, failed, -⟩ := h.runRoot document payload
  · exact same
  · rw [run] at failed
    cases failed

/-- What a reference denotes in a strict session it denotes in a lax one. -/
theorem Stricter.denotes {strict lax : Session} (h : strict.Stricter lax) {library : SessionState}
    {entry : Entry} {node : Members} {place : String} {target : Target}
    (denotes : strict.Denotes library entry node place target) :
    lax.Denotes library entry node place target := by
  obtain ⟨ref, written, run⟩ := denotes
  refine ⟨ref, written, ?_⟩
  obtain same | ⟨error, stopped, failed, -⟩ := (h.locate entry ref place library).agrees
  · rw [← same, run]
  · rw [run] at failed
    cases failed

/-- The limits of a session allow what has been read by a run that has come to a tree. -/
structure Suffices (session : Session) (document : Document) (payload : Json) (other : Session) :
    Prop where
  depth : ∀ depth, session.Nested document payload (session.runRoot document payload).2 depth →
    depth ≤ other.options.maxDepth
  documents :
    1 + (session.runRoot document payload).2.requests.length ≤ other.options.maxDocuments
  size : ∀ size, session.HasSize document (session.runRoot document payload).2 size →
    size ≤ other.options.maxDocumentSize

section Thresholds

variable {tree : Members} (alike : session.Alike other)
variable (run : (session.runRoot document payload).1 = .ok tree)

include alike run

/-- With other limits a run comes to the same, or it ends at a limit. -/
theorem Alike.same_or_limit :
    other.runRoot document payload = session.runRoot document payload ∨
      (∃ fault place, (other.runRoot document payload).1 = .error (.schema (.limit fault) place)) ∧
        Forbids other (session.relaxed other) document payload
          (session.runRoot document payload).2 := by
  have lax := (session.stricter_relaxed other).runRoot_eq run
  obtain same | ⟨error, failed, bars, forbids⟩ :=
    alike.stricter_relaxed.runRoot document payload
  · exact .inl (same.trans lax.symm)
  · rw [← lax] at forbids
    refine .inr ⟨?_, forbids tree run⟩
    cases bars with
    | size | documents | depth => exact ⟨_, _, failed⟩
    | http off on =>
        rw [alike.http] at off
        rw [show session.options.allowHttp = true from on] at off
        cases off
    | cycle on off =>
        rw [alike.cycles] at on
        rw [show session.detectsCycles = false from off] at on
        cases on

/-- Limits that suffice do not forbid anything. -/
theorem Alike.not_forbids (enough : session.Suffices document payload other) :
    ¬ Forbids other (session.relaxed other) document payload
      (session.runRoot document payload).2 := by
  obtain ⟨root, resolved⟩ := resolved_of_ok run
  rintro (more | exceeds | ⟨opens, incomplete⟩)
  · exact absurd (enough.size _ (.inl rfl)) (Nat.not_le.mpr more)
  · cases exceeds with
    | size loads more =>
        exact absurd (enough.size _ (.inr ⟨_, loads, rfl⟩)) (Nat.not_le.mpr more)
    | documents more =>
        have documents := enough.documents
        have keys := congrArg List.length resolved.fetched.keys
        simp only [List.length_map, List.length_cons] at keys
        omega
    | http off on =>
        rw [alike.http, show session.options.allowHttp = true from on] at off
        cases off
    | cycle on off =>
        rw [alike.cycles, show session.detectsCycles = false from off] at on
        cases on
  · obtain rfl := resolved.opens.unique opens rfl
    refine incomplete (Completes.mono_found (fun _ _ _ _ => ?_) (resolved.completes.of_nests
      fun n nests => enough.depth n ⟨_, resolved.opens, nests⟩))
    exact (session.stricter_relaxed other).denotes

theorem Alike.suffices_of_ok (space : 0 < other.options.maxDocuments)
    (same : other.runRoot document payload = session.runRoot document payload) :
    session.Suffices document payload other := by
  have ran : (other.runRoot document payload).1 = .ok tree := by rw [same, run]
  obtain ⟨root, resolved⟩ := resolved_of_ok ran
  obtain ⟨depth, documents, size⟩ := resolved.kept
  rw [same] at resolved depth documents size
  refine ⟨?_, documents space, ?_⟩
  · rintro n ⟨root', opens, nests⟩
    obtain rfl := resolved.opens.unique opens alike.current.symm
    -- Both sessions stand below the one with the greater limits, where references denote one thing.
    have nests' := nests.mono fun _ _ _ _ => (session.stricter_relaxed other).denotes
    have completes : Completes
        ((session.relaxed other).Denotes (session.runRoot document payload).2)
        other.options.maxDepth root' "#" payload :=
      resolved.completes.mono_found fun _ _ _ _ => alike.stricter_relaxed.denotes
    exact nests'.le_of_completes (denotes_unique _ _) completes
  · rintro n (rfl | ⟨document, loads, rfl⟩)
    · exact size _ (.inl rfl)
    · obtain ⟨loader, earlier, source, later, some, rest⟩ := loads
      exact size _ (.inr ⟨_, ⟨loader, earlier, source, later, alike.loader.trans some, rest⟩, rfl⟩)

end Thresholds

/-- The sizes of what has been read have a greatest. -/
theorem exists_greatest_size {tree : Members}
    (run : (session.runRoot document payload).1 = .ok tree) :
    ∃ size, IsGreatest
      {size | session.HasSize document (session.runRoot document payload).2 size} size := by
  classical
  obtain ⟨root, resolved⟩ := resolved_of_ok run
  have bounded := resolved.kept.2.2
  refine ⟨Nat.findGreatest (session.HasSize document (session.runRoot document payload).2)
    session.options.maxDocumentSize, ?_, ?_⟩
  · exact Nat.findGreatest_spec (bounded _ (.inl rfl)) (.inl rfl)
  · intro size has
    exact Nat.le_findGreatest (bounded size has) has

/-- Limits are thresholds. If a root document is resolved to a tree, there are a depth, a number of
documents and a size, which are those of what has been read: limits that are not less in any of them
give the same tree, and all others end the run at a limit. Allowing more references over HTTP keeps
the tree. -/
theorem limits_exact (loader : Option Loader) (options : ResolveOptions) (current : String)
    (document : Document) (payload : Json) (tree : Members)
    (resolved : resolve loader options current document payload = .ok tree) :
    let session : Session := { loader := loader, options := options.effective, current := current }
    let library := (session.runRoot document payload).2
    ∃ depth documents size,
      IsGreatest {depth | session.Nested document payload library depth} depth ∧
      documents = 1 + library.requests.length ∧
      IsGreatest {size | session.HasSize document library size} size ∧
      (∀ limits : ResolveOptions, limits.Positive → limits.allowHttp = options.allowHttp →
        limits.allowTraversal = options.allowTraversal →
        let allows := depth ≤ limits.maxDepth ∧ documents ≤ limits.maxDocuments ∧
          size ≤ limits.maxDocumentSize
        (allows → resolve loader limits current document payload = .ok tree) ∧
          (¬ allows → ∃ fault place, resolve loader limits current document payload =
            .error (.schema (.limit fault) place))) ∧
      resolve loader { options with allowHttp := true } current document payload = .ok tree := by
  intro session library
  have run : (session.runRoot document payload).1 = .ok tree := resolved
  obtain ⟨root, known⟩ := resolved_of_ok run
  obtain ⟨depth, nests, deepest⟩ := known.completes.exists_greatest (session.denotes_unique library)
  have greatestDepth : IsGreatest {n | session.Nested document payload library n} depth := by
    refine ⟨⟨root, known.opens, nests⟩, ?_⟩
    rintro n ⟨again, opens, others⟩
    obtain rfl := known.opens.unique opens rfl
    exact deepest n others
  obtain ⟨size, greatestSize⟩ := exists_greatest_size run
  refine ⟨depth, _, size, greatestDepth, rfl, greatestSize, ?_, ?_⟩
  · intro limits positive http traversal allows
    let other : Session := { loader := loader, options := limits, current := current }
    have alike : session.Alike other := ⟨rfl, rfl, traversal, http, rfl⟩
    have ends : resolve loader limits current document payload =
        (other.runRoot document payload).1 := by
      rw [resolve, ResolveOptions.effective_of_positive positive]
    have iff : allows ↔ session.Suffices document payload other := by
      constructor
      · rintro ⟨enough, documents, large⟩
        exact ⟨fun n nested => (greatestDepth.2 nested).trans enough, documents,
          fun n has => (greatestSize.2 has).trans large⟩
      · rintro ⟨enough, documents, large⟩
        exact ⟨enough depth greatestDepth.1, documents, large size greatestSize.1⟩
    rw [iff, ends]
    obtain same | ⟨limit, forbids⟩ := alike.same_or_limit run
    · refine ⟨fun _ => same ▸ run, fun insufficient => ?_⟩
      exact absurd (alike.suffices_of_ok run positive.2.1 same) insufficient
    · exact ⟨fun enough => absurd forbids (alike.not_forbids run enough), fun _ => limit⟩
  · let other : Session :=
      { loader := loader, options := { options.effective with allowHttp := true },
        current := current }
    have stricter : session.Stricter other :=
      ⟨rfl, rfl, rfl, fun _ => rfl, Nat.le_refl _, Nat.le_refl _, Nat.le_refl _, id⟩
    have same := stricter.runRoot_eq run
    have ends : resolve loader { options with allowHttp := true } current document payload =
        (other.runRoot document payload).1 := rfl
    rw [ends, ← same, run]

theorem limits_exact_sample :
    resolve (some Sample.loader) {} "/" Sample.root Sample.payload = .ok Sample.tree ∧
      (∃ fault place, resolve (some Sample.loader) ⟨false, false, 100, 1, 10⟩ "/" Sample.root
        Sample.payload = .error (.schema (.limit fault) place)) ∧
      resolve (some Sample.loader) ⟨true, false, 0, 0, 0⟩ "/" Sample.root Sample.payload =
        .ok Sample.tree := by
  obtain ⟨depth, documents, size, -, count, -, exact, http⟩ :=
    limits_exact (some Sample.loader) {} "/" Sample.root Sample.payload Sample.tree Sample.resolved
  have requests : (Session.runRoot
      { loader := some Sample.loader, options := ResolveOptions.effective {}, current := "/" }
      Sample.root Sample.payload).2.requests.length = 1 := by decide +kernel
  rw [requests] at count
  obtain ⟨-, limited⟩ := exact ⟨false, false, 100, 1, 10⟩ ⟨by decide, by decide, by decide⟩ rfl rfl
  refine ⟨Sample.resolved, limited ?_, http⟩
  rintro ⟨-, few, -⟩
  rw [count] at few
  exact absurd few (by decide)

end SchemaForms.Session
