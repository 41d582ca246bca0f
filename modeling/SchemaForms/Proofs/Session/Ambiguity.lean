import SchemaForms.Proofs.Session.Cache
import SchemaForms.Proofs.Session.Restored

/-!
# Ambiguous keys

A reference is taken for a cycle if the key of its target is among those of the references being
expanded. Each of these is the key of a target that is being expanded (`Inside.expanding`), and
targets with one key are the same or overlap. So what is reported is a cycle or an overlap.

`Sample.overlapping` is a root document with an overlap: it has no cycle, but one is reported.
-/

namespace SchemaForms

namespace Session

variable {session : Session} {document : Document} {payload : Json} {root entry : Entry}
variable {ref place : String} {state after : SessionState} {target : Target}

/-- What a reference from a document of the session leads to is a value of such a document. -/
theorem holds_of_locate (opens : session.Opens document payload root)
    (log : session.Log (.opened root) state.requests state.cache) (known : entry ∈ state.cache)
    (run : (session.locate entry ref place).outcome state = (.ok target, after)) :
    session.Log (.opened root) after.requests after.cache ∧ state.cache <+: after.cache ∧
      after.Holds target := by
  obtain ⟨⟨-, fetched⟩, other, among, read⟩ :=
    (session.locate_fetching entry ref place state).ok run
  have log' := log.trans (Log.of_fetched fetched)
  have mem : other ∈ after.cache := by
    obtain rfl | mem := among
    · exact fetched.cache.subset known
    · exact mem
  exact ⟨log', fetched.cache, .of_target mem (anchored_of_log opens log' other mem) read⟩

/-- A reference from a document that the session has leads to a target, and to a later state of the
session. -/
def Leads (session : Session) (state : SessionState) (ref : String) (target : Target)
    (after : SessionState) : Prop :=
  ∃ entry ∈ state.cache, ∃ place,
    (session.locate entry ref place).outcome state = (.ok target, after)

end Session

namespace Expansion.Frame

open Session

variable {session : Session} {start frame inner : Frame} {node : Members × String}
variable {earlier later : List (Members × String)} {state ended : SessionState} {root : Entry}
variable {document : Document} {payload : Json} {ref place : String} {target opened : Target}

/-- The frame is inside one in which the target of a reference is expanded. -/
inductive Expanding (session : Session) (start : Frame) (target : Target) (frame : Frame) : Prop
  | intro {around inner : Frame} {node : Members × String} {earlier later : List (Members × String)}
      {state found : SessionState} {ref : String} (inside : Inside session start around)
      (passes : around.Passes session earlier (node :: later) state)
      (written : refText node.1 (around.place node) = .ok ref)
      (located : (session.locate around.entry ref (around.place node)).outcome state =
        (.ok target, found))
      (enters : around.Enters session node state inner) (entry : inner.entry = target.entry)
      (path : inner.path = target.path) (below : Inside session inner frame) :
      Expanding session start target frame

theorem Expanding.enters (expanding : Expanding session start target frame)
    (passes : frame.Passes session earlier (node :: later) state)
    (enters : frame.Enters session node state inner) : Expanding session start target inner := by
  obtain ⟨inside, passed, written, located, entered, entry, path, below⟩ := expanding
  exact .intro inside passed written located entered entry path (below.enters passes enters)

/-- While the target `opened` is being expanded, a reference is read that leads to a target. -/
inductive Reaches (session : Session) (start : Frame) (opened : Target) (ref place : String)
    (target : Target) : Prop
  | intro {frame : Frame} {node : Members × String} {earlier later : List (Members × String)}
      {state found : SessionState} (expanding : Expanding session start opened frame)
      (passes : frame.Passes session earlier (node :: later) state)
      (stands : frame.place node = place) (written : refText node.1 place = .ok ref)
      (located : (session.locate frame.entry ref place).outcome state = (.ok target, found)) :
      Reaches session start opened ref place target

/-- In a session with the given root the frame begins with documents that are on record, its own
among them. -/
structure Settled (session : Session) (root : Entry) (frame : Frame) : Prop where
  log : session.Log (.opened root) frame.state.requests frame.state.cache
  known : frame.entry ∈ frame.state.cache

theorem Passes.log (passes : frame.Passes session earlier later state) :
    session.Log frame.state state.requests state.cache :=
  Log.of_fetched ((followAll_fetches session frame earlier frame.state).ok passes.followed).1.2

/-- A reference of such a frame leads to a target that the session holds then. -/
theorem Settled.locate (opens : session.Opens document payload root)
    (settled : frame.Settled session root)
    (passes : frame.Passes session earlier (node :: later) state)
    (located : (session.locate frame.entry ref place).outcome state = (.ok target, ended)) :
    session.Log (.opened root) ended.requests ended.cache ∧
      frame.state.cache <+: ended.cache ∧ ended.Holds target := by
  have known := passes.log.keeps.subset settled.known
  obtain ⟨log, keeps, holds⟩ := holds_of_locate opens (settled.log.trans passes.log) known located
  exact ⟨log, passes.log.keeps.trans keeps, holds⟩

/-- The frame that a reference leads to is of that kind as well, and keeps the documents. -/
theorem Settled.enters (opens : session.Opens document payload root)
    (settled : frame.Settled session root)
    (passes : frame.Passes session earlier (node :: later) state)
    (enters : frame.Enters session node state inner) :
    inner.Settled session root ∧ frame.state.cache <+: inner.state.cache := by
  obtain ⟨-, -, located, -, -⟩ := enters
  obtain ⟨log, keeps, holds⟩ := settled.locate opens passes located
  exact ⟨⟨log, holds.known⟩, keeps⟩

theorem Inside.settled (opens : session.Opens document payload root)
    (settled : start.Settled session root) (inside : Inside session start frame) :
    frame.Settled session root := by
  induction inside with
  | start => exact settled
  | enters _ passes enters ih => exact (ih.enters opens passes enters).1

/-- Every key among the references being expanded is that of a target which is being expanded. -/
theorem Inside.expanding (checks : session.detectsCycles = true)
    (opens : session.Opens document payload root) (settled : start.Settled session root)
    (empty : start.state.trail.stack = []) (inside : Inside session start frame) :
    ∀ key ∈ frame.state.trail.stack, ∃ target, Expanding session start target frame ∧
      frame.state.Holds target ∧ target.key = key := by
  induction inside with
  | start => simp [empty]
  | enters inside passes enters ih =>
      have settled := inside.settled opens settled
      obtain ⟨-, keeps⟩ := settled.enters opens passes enters
      -- The step is taken apart for its target, and is needed as a whole for the frames below.
      have entered := enters
      obtain ⟨-, written, located, -, -⟩ := enters
      intro key mem
      obtain rfl | before := List.mem_cons.mp mem
      · obtain ⟨-, -, holds⟩ := settled.locate opens passes located
        exact ⟨_, .intro inside passes written located entered rfl rfl .start,
          ⟨holds.known, holds.found⟩, rfl⟩
      · rw [trail_of_locate located, passes.trail checks] at before
        obtain ⟨target, expanding, holds, rfl⟩ := ih key before
        exact ⟨target, expanding.enters passes entered, holds.mono keeps, rfl⟩

/-- A cycle is the loader's report, or is reported for a reference to a target that is being
expanded already or overlaps with one that is. -/
theorem reaches_of_cycle (checks : session.detectsCycles = true)
    (opens : session.Opens document payload root) (settled : start.Settled session root)
    (balanced : start.Balanced session) (empty : start.state.trail.stack = [])
    (run : start.outcome session = (.error (.schema (.cycle ref) place), ended)) :
    session.Refused ended (.schema (.cycle ref) place) ∨
      ∃ opened target, start.Reaches session opened ref place target ∧
        (opened = target ∨ opened.Overlaps target ∨ target.Overlaps opened) := by
  obtain ⟨frame, earlier, node, later, state, last, inside, passes, stops, -, requests⟩ :=
    Inside.start.fails run
  -- Neither reading a reference nor finding its target reports a cycle, unless a loader does so.
  generalize reported : Error.schema (.cycle ref) place = error at stops
  cases stops with
  | text failed =>
      subst reported
      exact absurd (refText_placed _ failed) Error.Placed.ne_cycle
  | locate written failed =>
      subst reported
      obtain placed | ⟨loader, asked, source, some, final, replied⟩ | unreported :=
        locate_error failed
      · exact absurd placed Error.Placed.ne_cycle
      · exact .inl ⟨loader, asked, source, some, requests.trans final, replied⟩
      · exact absurd ⟨_, _, rfl⟩ unreported.not_isReport
  | depth => cases reported
  | @cycle text target found _ written located again =>
      cases reported
      have same := (trail_of_locate located).trans (passes.trail checks)
      have listed : target.key ∈ frame.state.trail.stack := by
        rw [← (balanced.inside checks inside).sound.2, ← same]
        simpa [Trail.contains] using again
      obtain ⟨opened, expanding, holds, key⟩ := inside.expanding checks opens settled empty _ listed
      obtain ⟨log, keeps, holds'⟩ := (inside.settled opens settled).locate opens passes located
      have distinct := log.nodup (List.nodup_singleton root.key)
      exact .inr ⟨opened, target, .intro expanding passes rfl written located,
        ((holds.mono keeps).key_eq_iff distinct holds').mp key⟩
  | merge failed =>
      subst reported
      exact absurd (Reference.merge_placed _ failed) Error.Placed.ne_cycle

end Expansion.Frame

namespace Session

open Expansion

variable {session : Session} {document : Document} {payload : Json} {root : Entry}

/-- A run that reports a cycle does so as the expansion of its root does. -/
theorem reaches_of_resolveRoot (checks : session.detectsCycles = true) {ref place : String}
    (run : (session.runRoot document payload).1 = .error (.schema (.cycle ref) place)) :
    session.Refused (session.runRoot document payload).2 (.schema (.cycle ref) place) ∨
      ∃ root opened target, session.Opens document payload root ∧
        (Frame.root session root).Reaches session opened ref place target ∧
        (opened = target ∨ opened.Overlaps target ∨ target.Overlaps opened) := by
  obtain placed | ⟨root, opens, run⟩ := runRoot_error run
  · exact absurd (placed "") Error.Placed.ne_cycle
  · rw [Frame.outcome_root] at run
    have settled : (Frame.root session root).Settled session root :=
      ⟨.start, List.mem_singleton_self root⟩
    have balanced : (Frame.root session root).Balanced session :=
      ⟨Trail.sound_empty, Nat.zero_add _⟩
    obtain refused | ⟨opened, target, reaches, alike⟩ :=
      Frame.reaches_of_cycle checks opens settled balanced rfl run
    · exact .inl refused
    · exact .inr ⟨root, opened, target, opens, reaches, alike⟩

/-- What the keys of targets tell. In a session, after its root has been opened and in whatever way
it is used then, two references lead to targets of one key if and only if the targets are the same
or overlap. So where a cycle is reported, and not by a loader, a reference leads to a target that is
being expanded, or to one that overlaps with such a target. -/
theorem cycle_keys_exact (loader : Option Loader) (options : ResolveOptions) (current : String) :
    let session : Session := { loader := loader, options := options.effective, current := current }
    (∀ (document : Document) (payload : Json) (root : Entry) (start : SessionState),
      (session.openRoot document payload).outcome {} = (.ok root, start) → ∀ row : List Call,
        (∀ (between : List Call) (ref ref' : String) (target target' : Target)
          (first second : SessionState),
          session.Leads (session.calls start row) ref target first →
          session.Leads (session.calls first between) ref' target' second →
            (target.key = target'.key ↔
              target = target' ∨ target.Overlaps target' ∨ target'.Overlaps target)) ∧
        ∀ (entry : Entry) (node : Json) (path ref place : String) (ended : SessionState),
          let state : SessionState := { session.calls start row with trail := {} }
          entry ∈ state.cache →
          (session.resolveNode entry node path).outcome state =
              (.error (.schema (.cycle ref) place), ended) →
            session.Refused ended (.schema (.cycle ref) place) ∨
              ∃ opened target,
                (Frame.ofNode session entry node path state).Reaches session opened ref place
                  target ∧
                (opened = target ∨ opened.Overlaps target ∨ target.Overlaps opened)) ∧
    ∀ (document : Document) (payload : Json) (ref place : String),
      resolve loader options current document payload = .error (.schema (.cycle ref) place) →
        session.Refused (session.runRoot document payload).2 (.schema (.cycle ref) place) ∨
          ∃ root opened target, session.Opens document payload root ∧
            (Frame.root session root).Reaches session opened ref place target ∧
            (opened = target ∨ opened.Overlaps target ∨ target.Overlaps opened) := by
  intro session
  refine ⟨?_, fun document payload ref place => reaches_of_resolveRoot rfl⟩
  intro document payload root start run row
  obtain ⟨opens, rfl⟩ := opens_of_openRoot run
  have log := session.log_calls (.opened root) row
  refine ⟨?_, ?_⟩
  · rintro between ref ref' target target' first second ⟨entry, known, place, located⟩
      ⟨entry', known', place', located'⟩
    obtain ⟨logged, -, holds⟩ := holds_of_locate opens log known located
    have more := session.log_calls first between
    obtain ⟨logged', keeps, holds'⟩ := holds_of_locate opens (logged.trans more) known' located'
    exact (holds.mono (more.keeps.trans keeps)).key_eq_iff
      (logged'.nodup (List.nodup_singleton root.key)) holds'
  · intro entry node path ref place ended state known failed
    rw [Frame.outcome_ofNode] at failed
    exact Frame.reaches_of_cycle rfl opens ⟨log, known⟩ ⟨Trail.sound_empty, Nat.zero_add _⟩ rfl
      failed

end Session

namespace Sample

def short : Document where
  source := ⟨.fs, "a"⟩
  raw := [0x7B, 0x7D]
  raw_ne_nil := List.cons_ne_nil _ _

def hashed : Members :=
  [("items", .obj [("$ref", .str "a%23/b")])]

/-- The content of the root document: its items are a definition with a `#` in its name. -/
def overlapping : Members :=
  [("items", .obj [("$ref", .str "#/b#")]), ("b#", .obj hashed)]

def overlapText : String :=
  "\x7b\"$schema\":\"https://json-schema.org/draft/2020-12/schema\",\"title\":\"T\"\x7d"

def overlapLoader : Loader :=
  Loader.ofFetch (Fetch.fromTable [("a#/b", overlapText.toList.map fun c => UInt8.ofNat c.toNat)])

def overlapSession : Session where
  loader := some overlapLoader
  options := ResolveOptions.effective {}

def overlapRoot : Entry := ⟨Origin.ofSource "/" short.source, .fs, overlapping, []⟩

def hashedTarget : Target := ⟨overlapRoot, "#/b#", .obj hashed⟩

theorem overlap_opens : overlapSession.Opens short (.obj overlapping) overlapRoot :=
  ⟨rfl, by decide +kernel, rfl, rfl, rfl⟩

theorem overlap_leads : overlapSession.Leads (.opened overlapRoot) "#/b#" hashedTarget
    (.opened overlapRoot) := by
  have read : overlapRoot.target (Session.fragmentPart "#/b#") "" = .ok hashedTarget := by rfl
  refine ⟨overlapRoot, List.mem_singleton_self _, "", ?_⟩
  rw [Session.locate_eq, if_pos (by decide +kernel), Run.outcome_lift, read]

/-- The reference behind it leads to another document, and to a target of the same key. -/
theorem overlap_leads_on : ∃ target after,
    overlapSession.Leads (.opened overlapRoot) "a%23/b" target after ∧
      hashedTarget.key = target.key ∧ target.entry.key = "fs:a#/b" ∧ target.path = "#" := by
  have found : ((overlapSession.locate overlapRoot "a%23/b" "").outcome
      (.opened overlapRoot)).1.toOption.map
        (fun target => (target.key, target.entry.key, target.path)) =
      some ("fs:a#/b#", "fs:a#/b", "#") := by decide +kernel
  have same : hashedTarget.key = "fs:a#/b#" := by decide +kernel
  cases run : (overlapSession.locate overlapRoot "a%23/b" "").outcome (.opened overlapRoot) with
  | mk result after =>
      rw [run] at found
      cases result with
      | error error => cases found
      | ok target =>
          obtain ⟨key, parts⟩ := Prod.mk.inj (Option.some.inj found)
          obtain ⟨document, path⟩ := Prod.mk.inj parts
          exact ⟨target, after, ⟨overlapRoot, List.mem_singleton_self _, "", run⟩,
            same.trans key.symm, document, path⟩

def overlapTree : Members :=
  let title : Json := .obj
    [("$schema", .str "https://json-schema.org/draft/2020-12/schema"), ("title", .str "T")]
  [("items", .obj [("items", title)]), ("b#", .obj hashed)]

end Sample

namespace Session

/-- In the sample a cycle is reported for a target of another document than the one that is being
expanded. There is no cycle, as the session resolves the document without the check. -/
theorem cycle_keys_overlap :
    ∃ target target' after,
      (Sample.overlapSession.openRoot Sample.short (.obj Sample.overlapping)).outcome {} =
        (.ok Sample.overlapRoot, .opened Sample.overlapRoot) ∧
      Sample.overlapSession.Leads (.opened Sample.overlapRoot) "#/b#" target
        (.opened Sample.overlapRoot) ∧
      Sample.overlapSession.Leads (.opened Sample.overlapRoot) "a%23/b" target' after ∧
      target.key = target'.key ∧ target.entry.key ≠ target'.entry.key ∧ target.path ≠ target'.path ∧
      resolve (some Sample.overlapLoader) {} "/" Sample.short (.obj Sample.overlapping) =
        .error (.schema (.cycle "a%23/b") "a#/b#/items") ∧
      (runRoot { Sample.overlapSession with detectsCycles := false } Sample.short
        (.obj Sample.overlapping)).1 = .ok Sample.overlapTree := by
  obtain ⟨target', after, leads', same, document, path⟩ := Sample.overlap_leads_on
  refine ⟨Sample.hashedTarget, target', after, Sample.overlap_opens.run, Sample.overlap_leads,
    leads', same, ?_, ?_, by decide +kernel, eq_ok_of_toOption (by decide +kernel)⟩
  · rw [document]
    decide +kernel
  · rw [path]
    decide +kernel

/-- The two targets of the sample overlap. In the sample whose items are the document itself, the
cycle that is reported is one. -/
theorem cycle_keys_exact_sample :
    (∃ target target' after,
      Sample.overlapSession.Leads (.opened Sample.overlapRoot) "#/b#" target
        (.opened Sample.overlapRoot) ∧
      Sample.overlapSession.Leads (.opened Sample.overlapRoot) "a%23/b" target' after ∧
      target ≠ target' ∧ (target.Overlaps target' ∨ target'.Overlaps target)) ∧
    (∃ opened target,
      (Expansion.Frame.ofNode Sample.loopSession Sample.loopRoot (.obj Sample.loop) "#"
        (.opened Sample.loopRoot)).Reaches Sample.loopSession opened "#" "forms/root.json#/items"
          target ∧
      (opened = target ∨ opened.Overlaps target ∨ target.Overlaps opened)) ∧
    ∃ root opened target, Sample.loopSession.Opens Sample.root (.obj Sample.loop) root ∧
      (Expansion.Frame.root Sample.loopSession root).Reaches Sample.loopSession opened "#"
        "forms/root.json#/items" target ∧
      (opened = target ∨ opened.Overlaps target ∨ target.Overlaps opened) := by
  obtain ⟨keys, -⟩ := cycle_keys_exact (some Sample.overlapLoader) {} "/"
  obtain ⟨expansions, runs⟩ := cycle_keys_exact none Sample.twoNested "/"
  have opens : Sample.loopSession.Opens Sample.root (.obj Sample.loop) Sample.loopRoot :=
    ⟨rfl, by decide +kernel, rfl, rfl, rfl⟩
  have noLoader {state : SessionState} {error : Error} :
      ¬ Sample.loopSession.Refused state error := by
    rintro ⟨loader, _, _, none, _⟩
    cases none
  refine ⟨?_, ?_, ?_⟩
  · obtain ⟨target, after, leads, same, -, path⟩ := Sample.overlap_leads_on
    obtain ⟨told, -⟩ := keys _ _ _ _ Sample.overlap_opens.run []
    have differ : Sample.hashedTarget ≠ target := by
      rintro rfl
      exact absurd path (by decide)
    have alike := (told [] _ _ _ _ _ _ Sample.overlap_leads leads).mp same
    exact ⟨_, target, after, Sample.overlap_leads, leads, differ, alike.resolve_left differ⟩
  · have failed : ((Sample.loopSession.resolveNode Sample.loopRoot (.obj Sample.loop) "#").outcome
        (.opened Sample.loopRoot)).1 =
          .error (.schema (.cycle "#") "forms/root.json#/items") := by decide +kernel
    obtain refused | reached := (expansions _ _ _ _ opens.run []).2 Sample.loopRoot _ _ _ _ _
      (List.mem_singleton_self _) (Prod.ext failed rfl)
    · exact absurd refused noLoader
    · exact reached
  · obtain refused | reached := runs Sample.root (.obj Sample.loop) "#" "forms/root.json#/items"
      (by decide +kernel)
    · exact absurd refused noLoader
    · exact reached

end Session

end SchemaForms
