import SchemaForms.Proofs.Expansion.Frames
import SchemaForms.Proofs.Json.Reading
import SchemaForms.Proofs.Pointer.Written
import SchemaForms.Proofs.Schema.NodeErrors
import SchemaForms.Proofs.Session.Root

/-!
# Who reports what

The steps of a session report on schemas, each with causes of its own. That too many references are
nested in one another is found out by an expansion whose budget is spent, and by nothing else that a
session does. All other reports are `Error.Ordinary`.

Three things end in an error that is no report on a schema, and `Session.Unreported` lists them: a
reference over HTTP that names no host, or that cannot be joined to the URL of its document; a pointer
with a token that is too long for an index; and a document in which an integer has too many digits.

A loader may reply to a request with any error; the request is the last one of the run then.
-/

namespace SchemaForms

/-- The error does not say that too many references are nested. -/
def Error.Shallow (error : Error) : Prop :=
  ∀ limit place, error ≠ .schema (.limit (.depth limit)) place

/-- The error is a report on a schema. -/
def Error.IsReport (error : Error) : Prop :=
  ∃ fault place, error = .schema fault place

/-- The error is a report on a schema, but not that too many references are nested. -/
inductive Error.Ordinary : Error → Prop
  | intro {fault : Fault} {place : String} (shallow : ∀ limit, fault ≠ .limit (.depth limit)) :
      Ordinary (.schema fault place)

theorem Error.Ordinary.shallow {error : Error} (h : error.Ordinary) : error.Shallow := by
  rintro limit place rfl
  obtain ⟨other⟩ := h
  exact other limit rfl

theorem Error.Ordinary.isReport {error : Error} (h : error.Ordinary) : error.IsReport := by
  obtain ⟨-⟩ := h
  exact ⟨_, _, rfl⟩

/-- The cause lies in a reference: in what it says, where it leads, or what stands beside it. -/
def Fault.ofReference : Fault → Bool
  | .reference fault =>
    match fault with
    | .notText | .invalid _ | .unsupportedScheme _ | .anchorNotFound _ _ | .invalidPointer _
    | .pointerNotFound _ | .targetNotObject | .unsupportedSibling _ => true
    | .payloadNotObject | .resultNotObject | .noSource | .duplicateAnchor _ => false
  | .cycle _ | .traversal _ | .httpDisabled _ | .limit (.depth _) => true
  | _ => false

/-- The error is an ordinary one and reports no cycle, and if its cause lies in a reference, it is
reported at the given place. -/
inductive Error.Placed (place : String) : Error → Prop
  | intro {fault : Fault} {path : String} (shallow : ∀ limit, fault ≠ .limit (.depth limit))
      (straight : ∀ ref, fault ≠ .cycle ref)
      (placed : fault.ofReference = true → path = place) : Placed place (.schema fault path)

theorem Error.Placed.ordinary {place : String} {error : Error} (h : error.Placed place) :
    error.Ordinary := by
  obtain ⟨shallow, -, -⟩ := h
  exact ⟨shallow⟩

theorem Error.Placed.ne_cycle {place path ref : String} :
    ¬ Error.Placed place (.schema (.cycle ref) path) := by
  rintro ⟨-, straight, -⟩
  exact straight ref rfl

/-- The error is a report on a schema, and if its cause lies in a reference, the path is one of those
that name a reference. -/
def Error.PointsTo (names : String → Prop) (error : Error) : Prop :=
  ∃ fault path, error = .schema fault path ∧ (fault.ofReference = true → names path)

theorem Error.Placed.pointsTo {place : String} {error : Error} (h : error.Placed place) :
    error.PointsTo (· = place) := by
  obtain ⟨-, -, placed⟩ := h
  exact ⟨_, _, rfl, placed⟩

/-- The cause does not lie in a reference if its error may be placed anywhere. -/
theorem Error.Placed.pointsTo_any {error : Error} (h : ∀ place, error.Placed place)
    (names : String → Prop) : error.PointsTo names := by
  obtain ⟨fault, path, rfl, here⟩ := (h "").pointsTo
  obtain ⟨_, _, same, there⟩ := (h "#").pointsTo
  obtain ⟨rfl, rfl⟩ := Error.schema.inj same
  refine ⟨fault, path, rfl, fun own => ?_⟩
  exact absurd ((here own).symm.trans (there own)) (by decide)

theorem Reports.foldlM {α β : Type} {allowed : Error → Prop} {step : α → β → Except Error α}
    (each : ∀ value item, Reports allowed (step value item)) (items : List β) (value : α) :
    Reports allowed (items.foldlM step value) := by
  induction items generalizing value with
  | nil => exact .ok value
  | cons item rest ih => exact (each value item).bind ih

section Steps

variable {place : String}

/-- A fragment names a pointer in a document: itself, or by an anchor with the path of the pointer. -/
inductive Entry.Names (entry : Entry) (fragment : String) : String → Prop
  | pointer : Names entry fragment (Text.dropLeading '#' fragment)
  | anchor {path : String}
      (has : entry.anchors.find? (Text.dropLeading '#' fragment) = some path) :
      Names entry fragment (Text.dropLeading '#' path)

/-- The error of a fragment whose pointer has a token that is too long for an index. -/
inductive Entry.Miscounted (entry : Entry) (fragment : String) : Error → Prop
  | intro {pointer : String} {fault : Text.DigitFault} (names : entry.Names fragment pointer)
      (long : Pointer.HasOverlong pointer) : Miscounted entry fragment (.digits fault)

theorem resolvePointer_placed {entry : Entry} {fragment pointer : String} {root : Json}
    (names : entry.Names fragment pointer) :
    Reports (fun error => Error.Placed place error ∨ entry.Miscounted fragment error)
      (resolvePointer root pointer place) := by
  intro error failed
  obtain ⟨fault, kind, rfl⟩ | ⟨⟨fault, rfl⟩, long⟩ := resolvePointer_error failed
  · refine .inl ⟨nofun, nofun, fun _ => rfl⟩
  · exact .inr ⟨names, long⟩

/-- What a fragment denotes is found, or the reference is at fault, or a token is too long. -/
theorem Entry.target_placed {entry : Entry} {fragment : String} :
    Reports (fun error => Error.Placed place error ∨ entry.Miscounted fragment error)
      (entry.target fragment place) := by
  apply Reports.map
  unfold Entry.fragment
  simp only
  split
  · exact .ok _
  · split
    · exact (resolvePointer_placed .pointer).map
    · split
      · exact .error (.inl ⟨nofun, nofun, fun _ => rfl⟩)
      · rename_i has
        split
        · exact .ok _
        · exact (resolvePointer_placed (.anchor has)).map

/-- That an anchor occurs twice is no fault of a reference. -/
theorem Anchors.index_placed {value : Json} {location path : String} :
    Reports (Error.Placed place) (Anchors.index value location path) := by
  apply Reports.foldlM
  intro anchors anchor
  unfold Anchors.add
  split
  · exact .error ⟨nofun, nofun, nofun⟩
  · exact .ok _

theorem Reference.merge_placed {target : Json} {node : Members} :
    Reports (Error.Placed place) (Reference.merge target node place) := by
  unfold Reference.merge
  split
  · apply Reports.map
    apply Reports.foldlM
    intro members sibling
    unfold Reference.mergeSibling
    split
    · exact .ok _
    · exact .error ⟨nofun, nofun, fun _ => rfl⟩
  · split
    · exact .ok _
    · exact .error ⟨nofun, nofun, fun _ => rfl⟩

theorem Expansion.refText_placed {node : Members} :
    Reports (Error.Placed place) (Expansion.refText node place) := by
  unfold Expansion.refText
  split
  · split
    · exact .error ⟨nofun, nofun, fun _ => rfl⟩
    · exact .ok _
  · exact .error ⟨nofun, nofun, fun _ => rfl⟩

theorem Sandbox.cleanFile_placed {options : ResolveOptions}
    {current root directory path ref : String} :
    Reports (Error.Placed place)
      (Sandbox.cleanFile options current root directory path ref place) := by
  unfold Sandbox.cleanFile
  simp only
  split
  · exact .ok _
  · exact .error ⟨nofun, nofun, fun _ => rfl⟩

theorem Sandbox.cleanName_placed {options : ResolveOptions} {root directory path ref : String} :
    Reports (Error.Placed place) (Sandbox.cleanName options root directory path ref place) := by
  unfold Sandbox.cleanName
  simp only
  generalize Path.dropSlashes (Path.normalize root) = root
  split
  · split
    · exact .ok _
    · exact .error ⟨nofun, nofun, fun _ => rfl⟩
  · split
    · exact .ok _
    · exact .error ⟨nofun, nofun, fun _ => rfl⟩

end Steps

namespace Session

variable {session : Session} {state : SessionState} {entry : Entry} {ref path place : String}

theorem fileSource_placed :
    Reports (Error.Placed place) (session.fileSource state entry path ref place) := by
  unfold fileSource
  split
  · exact .ok _
  · split
    · split
      · exact Sandbox.cleanFile_placed.bind fun _ => .ok _
      · exact .error ⟨nofun, nofun, fun _ => rfl⟩
    · exact .error ⟨nofun, nofun, fun _ => rfl⟩

/-- A reference that names no document at a URL, for all that it may be over HTTP: it names no host,
or with the URL of its document it does not make up a URL. -/
inductive Misaddressed (entry : Entry) (path : String) : Error → Prop
  | hostless {uri : Uri} (parsed : Uri.parse path = .ok uri)
      (http : uri.scheme = "http" ∨ uri.scheme = "https") (hostless : uri.authority = "") :
      Misaddressed entry path (.source (.incompleteUrl path))
  | unjoined {uri : Uri} {fault : Uri.Fault} (parsed : Uri.parse path = .ok uri)
      (relative : uri.scheme = "") (kind : entry.kind = .url)
      (fails : Uri.join entry.location path = .error fault) : Misaddressed entry path (.url fault)
  | incomplete {uri : Uri} {url : String} {fault : SourceFault} (parsed : Uri.parse path = .ok uri)
      (relative : uri.scheme = "") (kind : entry.kind = .url)
      (joined : Uri.join entry.location path = .ok url) (fails : Source.ofUrl url = .error fault) :
      Misaddressed entry path (.source fault)

/-- A URL with a scheme makes a source, unless it has no host. -/
theorem ofUrl_eq_error {url : String} {uri : Uri} {fault : SourceFault}
    (parsed : Uri.parse url = .ok uri) (scheme : uri.scheme ≠ "")
    (fails : Source.ofUrl url = .error fault) :
    uri.authority = "" ∧ fault = .incompleteUrl url := by
  unfold Source.ofUrl at fails
  split at fails
  · rename_i empty
    subst empty
    obtain rfl : Uri.mk "" "" "" "" "" = uri := Except.ok.inj parsed
    exact absurd rfl scheme
  · simp only [parsed] at fails
    split at fails
    · rename_i incomplete
      exact ⟨by simpa [scheme] using incomplete, (Except.error.inj fails).symm⟩
    · cases fails

theorem relativeSource_error {error : Error} {uri : Uri} (parsed : Uri.parse path = .ok uri)
    (relative : uri.scheme = "")
    (failed : session.relativeSource state entry path place = .error error) :
    error.Placed place ∨ session.options.allowHttp = true ∧ Misaddressed entry path error := by
  unfold relativeSource at failed
  simp only at failed
  split at failed
  · exact .inl ((Sandbox.cleanFile_placed.bind fun _ => .ok _) error failed)
  · exact .inl ((Sandbox.cleanName_placed.bind fun _ => .ok _) error failed)
  · rename_i kind
    split at failed
    · rename_i allowed
      refine .inr ⟨allowed, ?_⟩
      split at failed
      · rename_i fault fails
        obtain rfl := Except.error.inj failed
        exact .unjoined parsed relative kind fails
      · rename_i url joined
        obtain ⟨fault, fails, rfl⟩ := except_mapError_eq_error.mp failed
        exact .incomplete parsed relative kind joined fails
    · obtain rfl := Except.error.inj failed
      exact .inl ⟨nofun, nofun, fun _ => rfl⟩

/-- Only over HTTP may a reference fail to name a source without a report on the schema. -/
theorem sourceOf_error {error : Error}
    (failed : session.sourceOf state entry ref path place = .error error) :
    error.Placed place ∨ session.options.allowHttp = true ∧ Misaddressed entry path error := by
  unfold sourceOf at failed
  split at failed
  · obtain rfl := Except.error.inj failed
    exact .inl ⟨nofun, nofun, fun _ => rfl⟩
  · rename_i uri parsed
    split at failed
    · rename_i http
      have http : uri.scheme = "http" ∨ uri.scheme = "https" := by simpa using http
      split at failed
      · rename_i allowed
        obtain ⟨fault, fails, rfl⟩ := except_mapError_eq_error.mp failed
        have scheme : uri.scheme ≠ "" := by
          rintro empty
          simp [empty] at http
        obtain ⟨hostless, rfl⟩ := ofUrl_eq_error parsed scheme fails
        exact .inr ⟨allowed, .hostless parsed http hostless⟩
      · obtain rfl := Except.error.inj failed
        exact .inl ⟨nofun, nofun, fun _ => rfl⟩
    · split at failed
      · exact .inl (fileSource_placed error failed)
      · split at failed
        · obtain rfl := Except.error.inj failed
          exact .inl ⟨nofun, nofun, fun _ => rfl⟩
        · rename_i relative
          exact relativeSource_error parsed (by simpa using relative) failed

theorem checkSize_placed {document : Document} {location : String} :
    Reports (Error.Placed place) (session.checkSize document location) := by
  unfold checkSize
  split
  · exact .error ⟨nofun, nofun, nofun⟩
  · exact .ok _

/-- What is wrong with a document is no fault of a reference, and it is reported unless an integer in
the document has too many digits. -/
theorem accept_placed {kind : SourceKind} {origin : Origin} {document : Document} :
    Reports (fun error => Error.Placed place error ∨ ∃ fault, error = .digits fault ∧
        Json.ofOctets (Dialect.trimOctets document.raw) = .error (.digits fault))
      (session.accept kind origin document) := by
  have parsed : Reports (fun error => Error.Placed place error ∨ ∃ fault, error = .digits fault ∧
        Json.ofOctets (Dialect.trimOctets document.raw) = .error (.digits fault))
      (Dialect.parse document.raw origin.location) := by
    unfold Dialect.parse
    simp only
    split
    · exact .error (.inl ⟨nofun, nofun, nofun⟩)
    · split
      · rename_i fault read
        cases fault with
        | digits fault => exact .error (.inr ⟨fault, rfl, read⟩)
        | undecodable | malformed => exact .error (.inl ⟨nofun, nofun, nofun⟩)
      · exact .ok _
      · exact .error (.inl ⟨nofun, nofun, nofun⟩)
  have validated (data : Members) :
      Reports (Error.Placed place) (Dialect.validate data origin.location) := by
    unfold Dialect.validate
    simp only
    split
    · exact .error ⟨nofun, nofun, nofun⟩
    · split
      · exact .ok _
      · exact .error ⟨nofun, nofun, nofun⟩
  exact (checkSize_placed.mono fun _ => .inl).bind fun _ => parsed.bind fun data =>
    ((validated data).mono fun _ => .inl).bind fun _ =>
      (Anchors.index_placed.mono fun _ => .inl).bind fun _ => .ok _

/-- The loader has replied to the last request with the error. -/
def Refused (session : Session) (state : SessionState) (error : Error) : Prop :=
  ∃ loader earlier source, session.loader = some loader ∧
    state.requests = earlier ++ [source] ∧ loader earlier source = .error error

/-- The loader has replied to the last request with a document that cannot be read, because an integer
in it has too many digits. -/
inductive Unread (session : Session) (state : SessionState) : Error → Prop
  | intro {loader : Loader} {earlier : List Source} {source : Source} {document : Document}
      {fault : Text.DigitFault} (some : session.loader = some loader)
      (last : state.requests = earlier ++ [source]) (reply : loader earlier source = .ok document)
      (read : Json.ofOctets (Dialect.trimOctets document.raw) = .error (.digits fault)) :
      Unread session state (.digits fault)

/-- What cannot be read has more digits in a row than an integer may have. -/
theorem Unread.exists_overlong {state : SessionState} {error : Error}
    (unread : session.Unread state error) :
    ∃ loader earlier source document cs front rest fault, session.loader = some loader ∧
      loader earlier source = .ok document ∧
      Text.decodeJsonText (Dialect.trimOctets document.raw) = .ok cs ∧ cs = front ++ rest ∧
      Json.BeginsOverlong fault rest ∧ error = .digits fault := by
  obtain ⟨some, -, reply, read⟩ := unread
  obtain ⟨cs, front, rest, decoded, split, overlong⟩ := Json.overlong_of_ofOctets read
  exact ⟨_, _, _, _, cs, front, rest, _, some, reply, decoded, split, overlong, rfl⟩

/-- The errors that a reference can come to without a report on the schema. -/
inductive Unreported (session : Session) (entry : Entry) (ref : String) (after : SessionState) :
    Error → Prop
  /-- The reference does not make up a URL. -/
  | url {error : Error} (allowed : session.options.allowHttp = true)
      (misaddressed : Misaddressed entry (documentPart ref) error) :
      Unreported session entry ref after error
  /-- In the document that it leads to, it has a token that is too long for an index. -/
  | index {other : Entry} {error : Error} (known : other = entry ∨ other ∈ after.cache)
      (miscounted : other.Miscounted (fragmentPart ref) error) :
      Unreported session entry ref after error
  /-- The document that it leads to cannot be read. -/
  | literal {error : Error} (unread : session.Unread after error) :
      Unreported session entry ref after error

theorem Unreported.not_isReport {error : Error} {after : SessionState}
    (h : session.Unreported entry ref after error) : ¬ error.IsReport := by
  rintro ⟨fault, place, rfl⟩
  obtain ⟨-, misaddressed⟩ | ⟨-, miscounted⟩ | ⟨unread⟩ := h
  · cases misaddressed
  · cases miscounted
  · cases unread

theorem Unreported.shallow {error : Error} {after : SessionState}
    (h : session.Unreported entry ref after error) : error.Shallow := by
  rintro limit place rfl
  exact h.not_isReport ⟨_, _, rfl⟩

/-- What has been read and asked for by the end counts, not what is being expanded then. -/
theorem Unreported.congr {error : Error} {after later : SessionState}
    (h : session.Unreported entry ref after error) (cache : later.cache = after.cache)
    (requests : later.requests = after.requests) : session.Unreported entry ref later error := by
  obtain ⟨allowed, misaddressed⟩ | ⟨known, miscounted⟩ | ⟨some, last, reply, read⟩ := h
  · exact .url allowed misaddressed
  · exact .index (by rwa [cache]) miscounted
  · exact .literal ⟨some, requests.trans last, reply, read⟩

/-- Loading a document fails with a report, or with an error of the loader, or because an integer has
too many digits. -/
theorem load_error {source : Source} {error : Error} {after : SessionState}
    (run : (session.load source).outcome state = (.error error, after)) :
    error.Placed place ∨ session.Refused after error ∨ session.Unread after error := by
  have ends := session.load_ends source state
  rw [run] at ends
  cases ends with
  | full => exact .inl ⟨nofun, nofun, nofun⟩
  | noLoader => exact .inl ⟨nofun, nofun, nofun⟩
  | refused asks =>
      obtain ⟨loader, some, reply⟩ := asks.replied
      unfold Session.reply at reply
      cases replied : loader state.requests source with
      | error fault =>
          rw [replied] at reply
          obtain rfl := Except.error.inj reply
          exact .inr (.inl ⟨loader, state.requests, source, some, rfl, replied⟩)
      | ok document =>
          rw [replied] at reply
          obtain placed | ⟨fault, rfl, read⟩ := accept_placed error reply
          · exact .inl placed
          · exact .inr (.inr ⟨some, rfl, replied, read⟩)

/-- A reference does not lead to a target because of what is reported at its place, because of the
loader, or without a report. -/
theorem locate_error {error : Error} {after : SessionState}
    (run : (session.locate entry ref place).outcome state = (.error error, after)) :
    error.Placed place ∨ session.Refused after error ∨
      session.Unreported entry ref after error := by
  rw [locate_eq] at run
  split at run
  · obtain placed | miscounted := Entry.target_placed error (Prod.mk.inj run).1
    · exact .inl placed
    · exact .inr (.inr (.index (.inl rfl) miscounted))
  · have run := Run.outcome_get_bind_eq_error.mp run
    obtain ⟨failed, -⟩ | ⟨source, -, run⟩ := Run.outcome_lift_bind_eq_error.mp run
    · obtain placed | ⟨allowed, misaddressed⟩ := sourceOf_error failed
      · exact .inl placed
      · exact .inr (.inr (.url allowed misaddressed))
    · obtain failed | ⟨other, middle, loaded, read⟩ := Run.outcome_bind_eq_error.mp run
      · exact (load_error failed).imp_right (Or.imp_right .literal)
      · obtain ⟨failed, rfl⟩ := Prod.mk.inj read
        have known := SessionState.mem_of_find? ((session.load_fetching source state).ok loaded).2
        obtain placed | miscounted := Entry.target_placed error failed
        · exact .inl placed
        · exact .inr (.inr (.index (.inr known) miscounted))

variable {document : Document} {payload : Json} {error : Error} {after : SessionState}

/-- Opening a root document does not look at its references. -/
theorem openRoot_error
    (run : (session.openRoot document payload).outcome state = (.error error, after)) :
    ∀ place, error.Placed place := by
  intro place
  cases payload with
  | obj members =>
      obtain ⟨failed, -⟩ | ⟨_, _, run⟩ := Run.outcome_lift_bind_eq_error.mp run
      · cases failed
      obtain ⟨failed, -⟩ | ⟨_, _, run⟩ := Run.outcome_lift_bind_eq_error.mp run
      · exact checkSize_placed error failed
      obtain ⟨failed, -⟩ | ⟨_, _, run⟩ := Run.outcome_lift_bind_eq_error.mp run
      · exact Anchors.index_placed error failed
      · cases run
  | null | bool | int | double | str | arr =>
      obtain rfl := Except.error.inj (Prod.mk.inj run).1
      exact ⟨nofun, nofun, nofun⟩

/-- A run fails with its root document, or as the expansion of the root's content does, or because
that does not give an object. -/
theorem runRoot_error (run : (session.runRoot document payload).1 = .error error) :
    (∀ place, error.Placed place) ∨ ∃ root, session.Opens document payload root ∧
      (session.resolveNode root (.obj root.data) "#").outcome (.opened root) =
        (.error error, (session.runRoot document payload).2) := by
  have run : (session.resolveRoot document payload).outcome {} =
      (.error error, (session.runRoot document payload).2) := Prod.ext run rfl
  obtain failed | ⟨root, opened, begins, run⟩ := Run.outcome_bind_eq_error.mp run
  · exact .inl (openRoot_error failed)
  obtain ⟨fault, failed⟩ | ⟨root', opens, begins'⟩ := session.openRoot_ends document payload
  · cases failed.symm.trans begins
  obtain ⟨same, rfl⟩ := Prod.mk.inj (begins'.symm.trans begins)
  obtain rfl := Except.ok.inj same
  obtain failed | ⟨result, after, _, run⟩ := Run.outcome_bind_eq_error.mp run
  · exact .inr ⟨root', opens, failed⟩
  · cases result with
    | obj => cases run
    | null | bool | int | double | str | arr =>
        obtain ⟨rfl, -⟩ := Run.outcome_throw_eq_error.mp run
        exact .inl fun _ => ⟨nofun, nofun, nofun⟩

end Session

end SchemaForms
