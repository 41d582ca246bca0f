import SchemaForms.Proofs.Expansion.Replay
import SchemaForms.Proofs.Session.Cache

/-!
# References are transparent

What a node of a document is resolved to depends on the document and the node alone. Once it has
been resolved, it is resolved to the same value from then on, whatever the session is used for in
between, without a request, at any path, and inside any references of which no more are being
expanded. The same is true of the target of a reference that stands alone: the two can be exchanged,
each being read in its own document.
-/

namespace SchemaForms

namespace Trail

/-- The set holds just the keys on the stack. -/
def Agrees (trail : Trail) : Prop :=
  ∀ key, key ∈ trail.opened ↔ key ∈ trail.stack

theorem within_of_subset {trail outer : Trail} (agrees : trail.Agrees) (agrees' : outer.Agrees)
    (subset : trail.stack ⊆ outer.stack) : trail.Within outer := by
  intro key mem
  simp only [contains, List.contains_iff_mem] at mem ⊢
  exact (agrees' key).mpr (subset ((agrees key).mp mem))

theorem Within.trans {first second third : Trail} (h : first.Within second)
    (h' : second.Within third) : first.Within third :=
  fun key mem => h' key (h key mem)

end Trail

theorem Reference.merge_alone (target ref : Json) (place : String) :
    Reference.merge target [("$ref", ref)] place = .ok target := by
  have none : Reference.siblings [("$ref", ref)] = [] := by
    simp [Reference.siblings, Members.erase]
  cases target <;> simp only [Reference.merge, none] <;> rfl

namespace Session

variable {session : Session}

theorem grows_call (session : Session) (state : SessionState) (call : Call) :
    SessionState.Grows state (session.call state call) := by
  cases call with
  | load source => exact grows_of_meets (session.load_fetching source state)
  | resolve entry node path trail =>
      have grows : SessionState.Grows { state with trail := trail }
          (session.call state (.resolve entry node path trail)) :=
        grows_of_meets (Expansion.resolveNode_meets (finds_fetching session) trivial)
      exact ⟨grows.cache, grows.root⟩

theorem grows_calls (session : Session) (state : SessionState) (row : List Call) :
    SessionState.Grows state (session.calls state row) := by
  induction row generalizing state with
  | nil => exact .refl state
  | cons call row ih => exact (session.grows_call state call).trans (ih (session.call state call))

/-- In whatever way the session is used from the state on, the node is resolved to the value and
nothing is done to the session, at any path and inside any references that are being expanded on the
trail, as long as they are not more. -/
def ResolvesTo (session : Session) (state : SessionState) (trail : Trail) (entry : Entry)
    (node value : Json) : Prop :=
  ∀ (row : List Call) (inner : Trail) (path : String),
    inner.Agrees → inner.depth ≤ trail.depth → inner.stack ⊆ trail.stack →
      (session.resolveNode entry node path).outcome
          { session.calls state row with trail := inner } =
        (.ok value, { session.calls state row with trail := inner })

theorem resolvesTo_of_replays {state after : SessionState} {trail : Trail} {entry : Entry}
    {node value : Json} {budget : Nat} (agrees : trail.Agrees)
    (replays : Expansion.Replays session entry node budget state value)
    (grows : SessionState.Grows state after) (within : trail.Within state.trail)
    (enough : budget ≤ session.options.maxDepth - trail.depth) :
    session.ResolvesTo after trail entry node value := by
  intro row inner path agrees' depth subset
  rw [resolveNode, Run.outcome_get_bind_eq_ok]
  have grown := grows.trans (session.grows_calls after row)
  refine replays _ _ path ⟨grown.cache, grown.root⟩ ?_ ?_
  · exact (Trail.within_of_subset agrees' agrees subset).trans within
  · show budget ≤ session.options.maxDepth - inner.depth
    omega

/-- A node that has been resolved is resolved to the same value from then on, without a request to
the loader. If it is nothing but a reference, so is what the reference denotes, in the document where
that stands. -/
theorem resolveNode_transparent (loader : Option Loader) (options : ResolveOptions)
    (current : String) :
    let session : Session := { loader := loader, options := options.effective, current := current }
    ∀ (entry : Entry) (node value : Json) (path : String) (state after : SessionState),
      state.trail.Agrees →
      (session.resolveNode entry node path).outcome state = (.ok value, after) →
      session.ResolvesTo after state.trail entry node value ∧
      ∀ ref, node = .obj [("$ref", ref)] →
        ∃ target, (∀ row place,
            session.Denotes (session.calls after row) entry [("$ref", ref)] place target) ∧
          session.ResolvesTo after state.trail target.entry target.value value := by
  intro session entry node value path state after agrees run
  rw [resolveNode, Run.outcome_get_bind_eq_ok] at run
  constructor
  · obtain ⟨⟨-, trail⟩, replays⟩ :=
      (Expansion.expand_replays rfl (session.budget state) entry path node state).ok run
    refine resolvesTo_of_replays agrees replays (.refl after) ?_ (Nat.le_refl _)
    rw [trail]
    exact .refl _
  · rintro ref rfl
    have has : Members.has [("$ref", ref)] "$ref" = true := by simp [Members.has]
    rw [Expansion.expand_eq, Expansion.walk, if_pos has] at run
    obtain ⟨text, target, middle, _, merged, written, located, allowed, _, put, run⟩ :=
      Expansion.follow_eq_ok.mp run
    rw [Reference.merge_alone] at put
    cases put
    cases budget : session.budget state with
    | zero =>
        rw [budget] at allowed
        cases allowed
    | succ less =>
        rw [budget] at allowed
        cases allowed
        obtain ⟨ended, inner, rfl⟩ := Expansion.nested_eq_ok.mp run
        obtain ⟨⟨grown, opened⟩, replays⟩ :=
          (Expansion.expand_replays rfl less _ _ _ _).ok inner
        refine ⟨target, ?_, ?_⟩
        · intro row place
          refine ⟨text, ok_of_toOption_eq (toOption_refText _ _ _) written, ?_⟩
          have read : SessionState.Grows middle { ended with trail := ended.trail.pop } :=
            ⟨grown.cache, grown.root⟩
          exact locate_again (locate_place _ located) (read.trans (session.grows_calls _ row))
        · refine resolvesTo_of_replays agrees replays ⟨List.prefix_refl _, rfl⟩ ?_ ?_
          · rw [opened, ← trail_of_locate located]
            exact Trail.within_push _ _
          · have depth : session.options.maxDepth - state.trail.depth = less + 1 := budget
            omega

namespace Sample

def entry : Entry where
  origin := Sample.session.originOf SchemaForms.Sample.root.source
  kind := .fs
  data := []
  anchors := []

/-- A reference to another document, and nothing else. -/
def alone : Members := [("$ref", .str "n.json#a")]

def other : Json :=
  .obj [("$schema", .str "https://json-schema.org/draft/2020-12/schema"), ("$anchor", .str "a")]

end Sample

/-- The reference of the sample is resolved to another document, and that document to itself. -/
theorem resolveNode_transparent_sample :
    (SessionState.opened Sample.entry).trail.Agrees ∧ ∃ after target,
      (Sample.session.resolveNode Sample.entry (.obj Sample.alone) "#").outcome
          (.opened Sample.entry) = (.ok Sample.other, after) ∧
        Sample.session.ResolvesTo after {} Sample.entry (.obj Sample.alone) Sample.other ∧
        Sample.session.Denotes after Sample.entry Sample.alone "" target ∧
        Sample.session.ResolvesTo after {} target.entry target.value Sample.other := by
  have agrees : (SessionState.opened Sample.entry).trail.Agrees := fun _ => Iff.rfl
  have resolves : ((Sample.session.resolveNode Sample.entry (.obj Sample.alone) "#").outcome
      (.opened Sample.entry)).1.toOption = some Sample.other := by
    decide +kernel
  generalize run : (Sample.session.resolveNode Sample.entry (.obj Sample.alone) "#").outcome
    (.opened Sample.entry) = ended at resolves
  obtain ⟨result, after⟩ := ended
  obtain rfl : result = .ok Sample.other := eq_ok_of_toOption resolves
  obtain ⟨again, exchange⟩ := resolveNode_transparent (some Sample.loader) {} "/" Sample.entry
    (.obj Sample.alone) Sample.other "#" (.opened Sample.entry) after agrees run
  obtain ⟨target, denotes, resolved⟩ := exchange _ rfl
  exact ⟨agrees, after, target, rfl, again, denotes [] "", resolved⟩

end Session

end SchemaForms
