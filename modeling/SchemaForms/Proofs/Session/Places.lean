import SchemaForms.Proofs.Expansion.Paths
import SchemaForms.Proofs.Session.Followed

/-!
# Where references are reported

The place of an error that a reference makes is the location of a document, followed by a path. The
path has grown from two sources: a frame begins with the path of its target, which a pointer or an
anchor has given, and the walk goes on from there. And what is walked is not the document, but a target
with members put into it.

`Frame.Stands` is the invariant that keeps them together: the path of a frame is a pointer behind a
`#`, and in the document there is a value at that pointer which the frame's value differs from only in
members that may stand beside a reference. So the path of each reference leads to an object of the
document that has one.
-/

namespace SchemaForms

/-- The text names an object with a reference: it is the location of a document of the session, followed
by a pointer behind a `#`, and there is such an object at the pointer. -/
def SessionState.NamesReference (library : SessionState) (place : String) : Prop :=
  ∃ entry ∈ library.cache, ∃ pointer members, IsPointer pointer ∧
    place = entry.location ++ "#" ++ pointer ∧
    resolvePointer (.obj entry.data) pointer "" = .ok (.obj members) ∧
    Members.has members "$ref" = true

namespace Expansion.Frame

open Reference Session

variable {session : Session} {library : SessionState} {start frame inner : Frame}
variable {node : Members × String} {earlier later : List (Members × String)}
variable {state ended : SessionState}

/-- The value of a frame stands in its document at the pointer behind the `#` of its path, but for
members that may stand beside a reference. -/
def Stands (frame : Frame) : Prop :=
  ∃ pointer raw, IsPointer pointer ∧ frame.path = "#" ++ pointer ∧
    resolvePointer (.obj frame.entry.data) pointer "" = .ok raw ∧ SameCore raw frame.value

theorem stands_root (session : Session) (root : Entry) : (Frame.root session root).Stands :=
  ⟨"", _, .inl rfl, by simp [Frame.root], rfl, .refl _⟩

/-- The frame that a reference leads to stands where its target does. -/
theorem Enters.stands (enters : frame.Enters session node state inner)
    (traced : frame.Traced session library)
    (passes : frame.Passes session earlier (node :: later) state)
    (anchored : ∀ entry ∈ library.cache, ∀ anchor ∈ entry.anchors,
      ∃ pointer, IsPointer pointer ∧ anchor.2 = "#" ++ pointer) : inner.Stands := by
  have grows := (enters.grows passes).trans traced.grows
  obtain ⟨target, denotes, entry, path, core, -⟩ := enters.target grows
  obtain ⟨known, fragment, read⟩ := denotes.read traced.known
  obtain ⟨pointer, isPointer, written, found⟩ := Entry.target_stands (anchored _ known) read
  refine ⟨pointer, target.value, isPointer, path.trans written, ?_, core⟩
  rw [entry]
  exact resolvePointer_place "" found

/-- So all frames of a run stand somewhere. -/
theorem Inside.stands (checks : session.detectsCycles = true) (inside : Inside session start frame)
    (traced : start.Traced session library) (stands : start.Stands)
    (anchored : ∀ entry ∈ library.cache, ∀ anchor ∈ entry.anchors,
      ∃ pointer, IsPointer pointer ∧ anchor.2 = "#" ++ pointer) : frame.Stands := by
  cases inside with
  | start => exact stands
  | enters inside passes enters =>
      exact enters.stands (inside.traced checks traced) passes anchored

/-- Each reference of a frame is named by its place. -/
theorem Stands.names (stands : frame.Stands) (mem : frame.entry ∈ library.cache)
    (known : (Json.obj frame.entry.data).Addressable) (listed : node ∈ frame.references) :
    library.NamesReference (frame.place node) := by
  obtain ⟨pointer, raw, isPointer, path, found, core⟩ := stands
  have inner : raw.Addressable := known.descend ((resolvePointer_eq_ok isPointer).mp found)
  have ne : frame.path ≠ "" := by simp [path]
  obtain ⟨object, has, row, leads, written⟩ := exists_leadsTo_of_core core inner ne listed
  refine ⟨frame.entry, mem, pointer ++ Pointer.written row, object,
    isPointer.append (isPointer_written row), ?_, leads.resolves isPointer found "", has⟩
  rw [place, written, leads.join_eq ne, path]
  simp only [String.append_assoc]

end Expansion.Frame

namespace Session

open Expansion Frame

variable {session : Session} {document : Document} {payload : Json}

/-- In a run no document has an object with two members of one name, if the root has none. -/
theorem distinct_of_fetched {root : Entry} {requests : List Source} {cache : List Entry}
    (opens : session.Opens document payload root) (distinct : payload.Distinct)
    (fetched : session.Fetched (.opened root) requests cache) {entry : Entry}
    (mem : entry ∈ cache) : (Json.obj entry.data).Distinct := by
  obtain before | ⟨kind, origin, document, accepts⟩ := accepted_of_log (Log.of_fetched fetched) mem
  · obtain rfl := List.mem_singleton.mp before
    rwa [← opens.held]
  · exact Json.distinct_of_ofOctets (object_of_parse accepts.parsed)

/-- If a run fails and the cause lies in a reference, the path of the error names an object with a
reference, in the root or in another document of the session: it is the location of the document
followed by a pointer behind a `#`, and the pointer denotes the object in what the document holds.
Names have to be legible for that, in all documents. Else it is the loader that has replied with the
error, or the run has come to a reference that ends without a report: its pointer has a token that is
too long for an index, it does not make up a URL, or an integer in its document has too many digits. -/
theorem reference_error_points (loader : Option Loader) (options : ResolveOptions)
    (current : String) (document : Document) {payload : Json} (distinct : payload.Distinct) :
    let session : Session := { loader := loader, options := options.effective, current := current }
    let library := (session.runRoot document payload).2
    (∀ entry ∈ library.cache, (Json.obj entry.data).LegibleNames) →
      ∀ error, resolve loader options current document payload = .error error →
        error.PointsTo library.NamesReference ∨ session.Refused library error ∨
          ∃ moment entry node ref, session.ComesTo document payload moment entry node ∧
            refText node.1 (entry.location ++ node.2) = .ok ref ∧
            session.Unreported entry ref library error := by
  intro session library legible error failed
  obtain placed | ⟨root, opens, run⟩ := runRoot_error failed
  · exact .inl (Error.Placed.pointsTo_any placed _)
  rw [Frame.outcome_root] at run
  obtain ⟨frame, earlier, node, later, state, ended, inside, passes, stops, cache, requests⟩ :=
    Inside.start.fails run
  have start : (Frame.root session root).Traced session library := by
    have traced : (Frame.root session root).Traced session _ := traced_root
    rwa [← ends_of_opens opens] at traced
  obtain ⟨-, requested, fetched⟩ := fetched_of_meets (fetches session (Frame.root session root))
  rw [← outcome, ← ends_of_opens opens] at fetched
  have traced := inside.traced rfl start
  have stands := inside.stands rfl start (stands_root session root)
    (anchored_of_log opens (Log.of_fetched fetched))
  have known : (Json.obj frame.entry.data).Addressable :=
    ⟨distinct_of_fetched opens distinct fetched traced.known, legible _ traced.known⟩
  have listed : node ∈ frame.references := by
    rw [passes.split]
    exact List.mem_append_right _ List.mem_cons_self
  obtain ⟨fault, path, rfl, placed⟩ | ⟨asked, earlier, source, some, last, replied⟩ |
    ⟨ref, written, unreported⟩ := stops.pointsTo
  · refine .inl ⟨fault, path, rfl, fun own => ?_⟩
    obtain rfl := placed own
    exact stands.names traced.known known listed
  · exact .inr (.inl ⟨asked, earlier, source, some, requests.trans last, replied⟩)
  · exact .inr (.inr ⟨_, _, node, ref, .intro opens inside passes, written,
      unreported.congr cache requests⟩)

end Session

namespace Sample

/-- A document in which a property of an object with an anchor is nowhere. -/
def lostText : String :=
  "\x7b\"$schema\":\"https://json-schema.org/draft/2020-12/schema\",\"$defs\":\x7b\"n\":\x7b" ++
    "\"$anchor\":\"a\",\"properties\":\x7b\"p/q\":\x7b\"$ref\":\"#/gone\"\x7d\x7d\x7d\x7d\x7d"

def lost : Loader :=
  Loader.ofFetch (Fetch.fromTable
    [("forms/n.json", lostText.toList.map fun c => UInt8.ofNat c.toNat)])

/-- The errors of a loader with a table of documents do not lie in a reference. -/
theorem fromTable_error {table : List (String × Octets)} {source : Source} {fault : Fault}
    {path : String} (failed : Fetch.fromTable table source = .error (.schema fault path)) :
    fault.ofReference = false := by
  unfold Fetch.fromTable at failed
  split at failed
  · cases failed
    rfl
  · obtain ⟨_, -, impossible⟩ := except_mapError_eq_error.mp failed
    cases impossible

/-- Items that are the object with the anchor, with a title of their own. -/
def titledItems : Json :=
  .obj [("items", .obj [("$ref", .str "n.json#a"), ("title", .str "N")])]

def lostLibrary : SessionState :=
  (Session.runRoot { loader := some lost, options := ResolveOptions.effective {}, current := "/" }
    root titledItems).2

def lostPlace : String :=
  "forms/n.json#/$defs/n/properties/p~1q"

theorem lost_run :
    resolve (some lost) {} "/" root titledItems =
        .error (.schema (.reference (.pointerNotFound "/gone")) lostPlace) ∧
      ∀ entry ∈ lostLibrary.cache, (Json.obj entry.data).LegibleNames := by
  decide +kernel

end Sample

namespace Session

/-- The reference that fails is found behind an anchor, in what is walked after a title has been put
into it. -/
theorem reference_error_points_sample :
    resolve (some Sample.lost) {} "/" Sample.root Sample.titledItems =
        .error (.schema (.reference (.pointerNotFound "/gone")) Sample.lostPlace) ∧
      (∀ entry ∈ Sample.lostLibrary.cache, (Json.obj entry.data).LegibleNames) ∧
      Sample.lostLibrary.NamesReference Sample.lostPlace := by
  obtain ⟨failed, legible⟩ := Sample.lost_run
  have distinct : Sample.titledItems.Distinct := by
    simp [Sample.titledItems, Json.Distinct, Json.DistinctMembers, Members.keys]
  refine ⟨failed, legible, ?_⟩
  rw [Sample.lostLibrary] at legible ⊢
  obtain ⟨fault, path, same, names⟩ | ⟨asked, earlier, source, some, -, replied⟩ |
    ⟨_, _, _, _, -, -, unreported⟩ :=
    reference_error_points (some Sample.lost) {} "/" Sample.root distinct legible _ failed
  · obtain ⟨rfl, rfl⟩ := Error.schema.inj same
    exact names rfl
  · obtain rfl := Option.some.inj some
    cases Sample.fromTable_error replied
  · exact absurd ⟨_, _, rfl⟩ unreported.not_isReport

end Session

namespace Sample

open Pointer.Sample (beyond)
open Expansion

/-- The items are an element whose number is written in ones. -/
def high (count : Nat) : Members :=
  [("a", .arr []), ("items", .obj [("$ref", .str ("#" ++ beyond count))])]

variable {count : Nat}

theorem refText_high (count : Nat) (place : String) :
    refText [("$ref", .str ("#" ++ beyond count))] place = .ok ("#" ++ beyond count) := by
  have trimmed : Text.trim ("#" ++ beyond count) = "#" ++ beyond count :=
    Text.trim_append (by decide +kernel) (Pointer.Sample.trim_beyond count) (by decide) (by simp [beyond])
  simp [refText, trimmed]

theorem locate_high (many : Text.digitLimit < count) (session : Session) {entry : Entry}
    (data : entry.data = high count) (place : String) (state : SessionState) :
    (session.locate entry ("#" ++ beyond count) place).outcome state =
      (.error (.digits (.read count)), state) := by
  have parts : Session.documentPart ("#" ++ beyond count) = "" ∧
      Session.fragmentPart ("#" ++ beyond count) = beyond count := by
    simp [Session.documentPart, Session.fragmentPart, Text.cut, Text.cutChars]
  have same : Text.dropLeading '#' (beyond count) = beyond count := by
    rw [Text.dropLeading, Pointer.Sample.toList_beyond]
    rfl
  have fails : entry.target (beyond count) place = .error (.digits (.read count)) := by
    have ne : beyond count ≠ "" := by simp [beyond]
    have walked : Pointer.walk (.obj (high count)) (beyond count) =
        .error (.digits (.read count)) := Pointer.Sample.walk_beyond many _
    unfold Entry.target Entry.fragment
    simp only [same, if_neg ne, if_pos (Pointer.Sample.slash_beyond count),
      resolvePointer_of_slash (Pointer.Sample.slash_beyond count), data, walked]
    rfl
  rw [Session.locate_eq, if_pos parts.1, parts.2, fails]
  rfl

/-- Following the reference fails before anything else is looked at. -/
theorem resolve_high (many : Text.digitLimit < count) :
    resolve none {} "/" root (.obj (high count)) = .error (.digits (.read count)) := by
  let session : Session := { options := ResolveOptions.effective {}, current := "/" }
  let entry : Entry := ⟨session.originOf root.source, root.kind, high count, []⟩
  have opens : session.Opens root (.obj (high count)) entry := by
    refine ⟨rfl, by decide, ?_, rfl, rfl⟩
    rfl
  have data : entry.data = high count := rfl
  have follows (budget : Nat) (path : String) (state : SessionState) :
      (expand.follow session entry (descent session budget)
        [("$ref", .str ("#" ++ beyond count))] path).outcome state =
          (.error (.digits (.read count)), state) := by
    simp only [expand.follow, Run.outcome_bind, Run.outcome_lift, refText_high,
      locate_high many session data]
  have fails : (session.resolveNode entry (.obj entry.data) "#").outcome (.opened entry) =
      (.error (.digits (.read count)), .opened entry) := by
    have ref : ¬ Members.has (high count) "$ref" = true := by simp [high, Members.has]
    have inner : Members.has [("$ref", .str ("#" ++ beyond count))] "$ref" = true := rfl
    have places : Place.ofMember "a" = .data ∧ Place.ofMember "items" = .schema := by decide
    rw [data, Session.resolveNode, Run.outcome_bind, Run.outcome_get]
    simp only [expand_eq, walk, if_neg ref]
    simp only [high, walkMembers, places, walk, if_pos inner, Run.outcome_map, Run.outcome_bind,
      Run.outcome_pure, follows]
    rfl
  have ends : (session.runRoot root (.obj (high count))).1 = .error (.digits (.read count)) := by
    show ((session.resolveRoot root (.obj (high count))).outcome {}).1 = _
    unfold Session.resolveRoot
    rw [Run.outcome_bind, opens.run]
    simp only [Run.outcome_bind]
    rw [fails]
  exact ends

end Sample

/-- A reference to an element whose number has five thousand digits fails, since the array has no
elements, but the error tells no path. -/
theorem reference_overlong :
    (Json.obj (Sample.high 5000)).LegibleNames ∧
      resolve none {} "/" Sample.root (.obj (Sample.high 5000)) =
        .error (.digits (.read 5000)) ∧
      ∀ fault path, Error.digits (.read 5000) ≠ .schema fault path := by
  refine ⟨?_, Sample.resolve_high (by decide), nofun⟩
  decide +kernel

end SchemaForms
