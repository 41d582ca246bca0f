import SchemaForms.Proofs.Session.Stack

/-!
# References that are followed

`Session.ComesTo` names the objects with references that a run comes to: all those before the first
one that makes it fail, and that one. If a run succeeds these are all objects with references in the
values that it expands, and each of them leads to a value that is expanded in its turn.

What makes a run fail is a report on a schema, as long as the loader makes no other errors. The
exceptions are those of `Session.Unreported`.
-/

namespace SchemaForms

namespace Expansion

/-- References are followed to the end just if each is, after those before it. -/
theorem followAll_ok {follow : Members × String → Run Json} {nodes : List (Members × String)}
    {state after : SessionState} (run : (followAll follow nodes).outcome state = (.ok (), after))
    {node : Members × String} (mem : node ∈ nodes) :
    ∃ earlier later middle value last, nodes = earlier ++ node :: later ∧
      (followAll follow earlier).outcome state = (.ok (), middle) ∧
      (follow node).outcome middle = (.ok value, last) := by
  induction nodes generalizing state with
  | nil => cases mem
  | cons first rest ih =>
      obtain ⟨value, middle, ended, run⟩ := Run.outcome_bind_eq_ok.mp run
      obtain rfl | mem := List.mem_cons.mp mem
      · exact ⟨[], rest, state, value, middle, rfl, rfl, ended⟩
      · obtain ⟨earlier, later, middle', value', last, rfl, followed, found⟩ := ih run mem
        refine ⟨first :: earlier, later, middle', value', last, rfl, ?_, found⟩
        exact Run.outcome_bind_eq_ok.mpr ⟨value, middle, ended, followed⟩

namespace Frame

variable {session : Session} {frame : Frame} {node : Members × String}

/-- An expansion that succeeds has followed each of its references into another one that succeeds. -/
theorem enters_of_ok {result : Json} {after : SessionState}
    (run : frame.outcome session = (.ok result, after)) (mem : node ∈ frame.references) :
    ∃ earlier later state inner value last, frame.Passes session earlier (node :: later) state ∧
      frame.Enters session node state inner ∧ inner.outcome session = (.ok value, last) := by
  have all := outcome_references session frame
  rw [run] at all
  obtain ⟨earlier, later, state, value, last, split, followed, found⟩ := followAll_ok all mem
  obtain ⟨ref, target, middle, _, merged, written, located, allowed, passes, put, run⟩ :=
    follow_eq_ok.mp found
  cases budget : frame.budget with
  | zero =>
      rw [budget] at allowed
      cases allowed
  | succ less =>
      rw [budget] at allowed
      cases allowed
      obtain ⟨ended, inner, -⟩ := nested_eq_ok.mp run
      exact ⟨earlier, later, state, _, value, ended, ⟨split, followed⟩,
        .intro budget written located passes put, inner⟩

/-- A frame of a run that succeeds, by the end of which the library has been read. -/
structure Reached (session : Session) (root : Entry) (library : SessionState) (frame : Frame) :
    Prop where
  inside : Inside session (Frame.root session root) frame
  ends : ∃ value last, frame.outcome session = (.ok value, last)
  grows : SessionState.Grows (frame.outcome session).2 library

/-- In such a run each reference is come to, and its target is reached. -/
theorem Reached.target {root : Entry} {library : SessionState}
    (h : frame.Reached session root library) (mem : node ∈ frame.references) {target : Target}
    {merged : Json} (denotes : session.Denotes library frame.entry node.1 (frame.place node) target)
    (put : Reference.merge target.value node.1 (frame.place node) = .ok merged) :
    (∃ earlier later state, frame.Passes session earlier (node :: later) state) ∧
      ∃ budget state, Reached session root library
        ⟨budget, target.entry, target.path, merged, state⟩ := by
  obtain ⟨value, last, run⟩ := h.ends
  obtain ⟨earlier, later, state, inner, value', last', passes, enters, ends⟩ := enters_of_ok run mem
  have grows := (enters.grows passes).trans h.grows
  have reads := Session.grows_of_meets (fetches session inner)
  have inside := h.inside.enters passes enters
  obtain ⟨-, written, located, -, put'⟩ := enters
  have later := reads.trans grows
  obtain rfl := denotes.unique ⟨_, written, Session.locate_again located ⟨later.cache, later.root⟩⟩
  obtain rfl := Except.ok.inj (put.symm.trans put')
  exact ⟨⟨_, _, _, passes⟩, _, _, inside, ⟨_, _, ends⟩, grows⟩

/-- What following a reference of such a frame does, if it succeeds in time for the library: it finds
the target, and expands what is put together with it, which is reached as well. -/
inductive Leads (session : Session) (root : Entry) (library : SessionState) (frame : Frame)
    (node : Members × String) (state : SessionState) (result : Json) : Nat → SessionState → Prop
  | intro {less : Nat} {ref : String} {target : Target} {middle ended : SessionState} {merged : Json}
      (written : refText node.1 (frame.place node) = .ok ref)
      (located : (session.locate frame.entry ref (frame.place node)).outcome state =
        (.ok target, middle))
      (passes : (session.detectsCycles && middle.trail.contains target.key) = false)
      (put : Reference.merge target.value node.1 (frame.place node) = .ok merged)
      (inner : (expand session less target.entry .schema target.path merged).outcome
        { middle with trail := middle.trail.push target.key } = (.ok result, ended))
      (found : SessionState.Grows middle library) (ends : SessionState.Grows ended library)
      (comes : ∃ earlier later moment, frame.Passes session earlier (node :: later) moment)
      (further : ∃ budget state,
        Reached session root library ⟨budget, target.entry, target.path, merged, state⟩) :
      Leads session root library frame node state result (less + 1)
        { ended with trail := ended.trail.pop }

theorem Reached.leads {root : Entry} {library : SessionState}
    (h : frame.Reached session root library) (mem : node ∈ frame.references) {budget : Nat}
    {state after : SessionState} {result : Json}
    (run : (expand.follow session frame.entry (descent session budget) node.1 node.2).outcome state =
      (.ok result, after)) (grows : SessionState.Grows after library) :
    frame.Leads session root library node state result budget after := by
  obtain ⟨ref, target, middle, _, merged, written, located, allowed, passes, put, run⟩ :=
    follow_eq_ok.mp run
  cases budget with
  | zero => cases allowed
  | succ less =>
      cases allowed
      obtain ⟨ended, inner, rfl⟩ := nested_eq_ok.mp run
      have ends : SessionState.Grows ended library := ⟨grows.cache, grows.root⟩
      have found : SessionState.Grows middle library := by
        have done := ((expand_meets (Session.finds_fetching session) less trivial).ok inner).1
        have pushed := (Session.grows_of_fetching done).trans ends
        exact ⟨pushed.cache, pushed.root⟩
      obtain ⟨comes, further⟩ := h.target mem ⟨ref, written, Session.locate_again located found⟩ put
      exact .intro written located passes put inner found ends comes further

/-- The errors that following a reference can come to by itself are reported at its place, if their
cause lies in it; or else they are the loader's, or no reports. -/
theorem Stops.pointsTo {state ended : SessionState} {error : Error}
    (stops : frame.Stops session node state error ended) :
    error.PointsTo (· = frame.place node) ∨ session.Refused ended error ∨
      ∃ ref, refText node.1 (frame.place node) = .ok ref ∧
        session.Unreported frame.entry ref ended error := by
  cases stops with
  | text failed => exact .inl (refText_placed _ failed).pointsTo
  | locate written failed =>
      obtain placed | refused | unreported := Session.locate_error failed
      · exact .inl placed.pointsTo
      · exact .inr (.inl refused)
      · exact .inr (.inr ⟨_, written, unreported⟩)
  | depth | cycle => exact .inl ⟨_, _, rfl, fun _ => rfl⟩
  | merge failed => exact .inl (Reference.merge_placed _ failed).pointsTo

end Frame

end Expansion

namespace Session

open Expansion

variable {session : Session} {document : Document} {payload : Json}

/-- A run that comes to a tree has expanded the content of its root document to that. -/
theorem reached_of_ok {tree : Members} (run : (session.runRoot document payload).1 = .ok tree) :
    ∃ root, session.Opens document payload root ∧
      (Frame.root session root).Reached session root (session.runRoot document payload).2 ∧
      (Frame.root session root).outcome session =
        (.ok (.obj tree), (session.runRoot document payload).2) := by
  obtain ⟨error, failed⟩ | ⟨root, opens, -⟩ := session.runRoot_ends document payload
  · rw [failed] at run
    cases run
  · have ends := opens.runRoot_eq_ok.mp (Prod.ext run rfl)
    exact ⟨root, opens, ⟨.start, ⟨_, _, ends⟩, by rw [ends]; exact .refl _⟩, ends⟩

/-- At a moment a run has come to an object with a reference, in a document: the reference is to be
followed next. Whether it can be followed is another question. -/
inductive ComesTo (session : Session) (document : Document) (payload : Json)
    (moment : SessionState) : Entry → Members × String → Prop
  | intro {root : Entry} {frame : Frame} {node : Members × String}
      {earlier later : List (Members × String)} (opens : session.Opens document payload root)
      (inside : Frame.Inside session (Frame.root session root) frame)
      (passes : frame.Passes session earlier (node :: later) moment) :
      ComesTo session document payload moment frame.entry node

/-- The references that a run comes to are written in the documents that it has read by the end. -/
theorem ComesTo.written (checks : session.detectsCycles = true) {moment : SessionState}
    {entry : Entry} {node : Members × String}
    (h : session.ComesTo document payload moment entry node) :
    ∃ object ∈ (session.runRoot document payload).2.refObjects, object.entry = entry ∧
      Members.get? object.members "$ref" = Members.get? node.1 "$ref" := by
  obtain ⟨opens, inside, passes⟩ := h
  have traced := inside.traced checks Frame.traced_root
  rw [← ends_of_opens opens] at traced
  apply traced.written
  rw [passes.split]
  exact List.mem_append_right _ List.mem_cons_self

theorem ComesTo.text (checks : session.detectsCycles = true) {moment : SessionState} {entry : Entry}
    {node : Members × String} (h : session.ComesTo document payload moment entry node) {ref : String}
    (written : refText node.1 (entry.location ++ node.2) = .ok ref) :
    ∃ object ∈ (session.runRoot document payload).2.refObjects,
      refText object.members "" = .ok ref := by
  obtain ⟨object, listed, -, same⟩ := h.written checks
  have here : refText node.1 "" = .ok ref := ok_of_toOption_eq (toOption_refText _ _ _) written
  exact ⟨object, listed, by rw [← here, refText, refText, same]⟩

/-- A run fails with a report, or as the loader does, or at a reference that it has come to and that
ends without a report. -/
theorem runRoot_reports {error : Error}
    (run : (session.runRoot document payload).1 = .error error) :
    error.IsReport ∨ (∃ after, session.Refused after error) ∨
      ∃ moment entry node ref, session.ComesTo document payload moment entry node ∧
        refText node.1 (entry.location ++ node.2) = .ok ref ∧
        session.Unreported entry ref (session.runRoot document payload).2 error := by
  obtain placed | ⟨root, opens, run⟩ := runRoot_error run
  · exact .inl (placed "").ordinary.isReport
  rw [Frame.outcome_root] at run
  obtain ⟨inner, earlier, node, later, state, ended, inside, passes, stops, cache, requests⟩ :=
    Frame.Inside.start.fails run
  obtain ⟨fault, path, report, -⟩ | refused | ⟨ref, written, unreported⟩ := stops.pointsTo
  · exact .inl ⟨fault, path, report⟩
  · exact .inr (.inl ⟨_, refused⟩)
  · exact .inr (.inr ⟨_, _, node, ref, .intro opens inside passes, written,
      unreported.congr cache requests⟩)

end Session

/-- If the loader makes no errors but reports, resolving a root document gives a tree or fails with a
report, but for three kinds of references that the run may come to: over HTTP, if that is allowed, one
that does not make up a URL, by itself or with the URL of its document; one whose pointer has a token
that is too long for an index; and one to a document in which an integer has too many digits. -/
theorem resolve_reports (loader : Option Loader) (options : ResolveOptions) (current : String)
    (document : Document) (payload : Json) (error : Error)
    (reports : ∀ asked, loader = some asked →
      ∀ earlier source error, asked earlier source = .error error → error.IsReport)
    (failed : resolve loader options current document payload = .error error) :
    let session : Session := { loader := loader, options := options.effective, current := current }
    error.IsReport ∨ ∃ moment entry node ref,
      session.ComesTo document payload moment entry node ∧
      Expansion.refText node.1 (entry.location ++ node.2) = .ok ref ∧
      session.Unreported entry ref (session.runRoot document payload).2 error := by
  intro session
  obtain report | ⟨after, asked, earlier, source, some, -, replied⟩ | unreported :=
    session.runRoot_reports failed
  · exact .inl report
  · exact .inl (reports asked some earlier source error replied)
  · exact .inr unreported

namespace Sample

/-- A loader that has no documents, and says so. -/
def empty : Loader :=
  Loader.ofFetch (Fetch.fromTable [])

theorem empty_reports (earlier : List Source) (source : Source) (error : Error)
    (replied : empty earlier source = .error error) : error.IsReport := by
  obtain rfl := Except.error.inj replied
  exact ⟨_, _, rfl⟩

def elsewhere (ref : String) : Json :=
  .obj [("items", .obj [("$ref", .str ref)])]

def online : ResolveOptions := { allowHttp := true }

end Sample

theorem resolve_reports_sample :
    let missing : Error := .schema (.load (.missingDocument "forms/n.json")) ""
    resolve (some Sample.empty) {} "/" Sample.root (Sample.elsewhere "n.json") = .error missing ∧
      missing.IsReport := by
  intro missing
  have failed : resolve (some Sample.empty) {} "/" Sample.root (Sample.elsewhere "n.json") =
      .error missing := by decide +kernel
  refine ⟨failed, ?_⟩
  have reports : ∀ asked, some Sample.empty = some asked →
      ∀ earlier source error, asked earlier source = .error error → error.IsReport := by
    rintro _ ⟨⟩
    exact Sample.empty_reports
  obtain report | ⟨_, _, _, _, -, -, unreported⟩ := resolve_reports _ _ _ _ _ _ reports failed
  · exact report
  · exact absurd ⟨_, _, rfl⟩ unreported.not_isReport

/-- A reference over HTTP without a host is not reported, and neither is one from a document whose URL
has a scheme without relative references. -/
theorem resolve_misaddressed :
    let bucket : Document :=
      ⟨⟨.url, "s3://bucket/root.json"⟩, Sample.root.raw, Sample.root.raw_ne_nil⟩
    (resolve (some Sample.empty) Sample.online "/" Sample.root (Sample.elsewhere "http:x") =
        .error (.source (.incompleteUrl "http:x")) ∧
      ¬ (Error.source (.incompleteUrl "http:x")).IsReport) ∧
    resolve (some Sample.empty) Sample.online "/" bucket (Sample.elsewhere "n.json") =
        .error (.source (.incompleteUrl "n.json")) ∧
      ¬ (Error.source (.incompleteUrl "n.json")).IsReport := by
  intro bucket
  refine ⟨⟨?_, nofun⟩, ?_, nofun⟩
  · decide +kernel
  · decide +kernel

end SchemaForms
