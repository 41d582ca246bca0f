import SchemaForms.Proofs.Path.Normal
import SchemaForms.Proofs.Session.Followed

/-!
# The sandbox lifted

Where a session may leave the directory of its root document, the paths of references are not looked
at any more, but they are put together as before. So whatever a sandboxed session comes to, a session
without the sandbox comes to as well, by the same requests.

There is one kind of reference for which that is not so. The path of a reference with the scheme
`file` is taken as it is written if there is no sandbox, and in a sandbox it starts in the directory
of the document, as that of a reference without a scheme does. The two are different files unless the
path begins at the root.
-/

namespace SchemaForms

namespace Session

/-- The session without the sandbox of relative references. -/
def lifted (session : Session) : Session :=
  { session with options := { session.options with allowTraversal := true } }

/-- The reference has the scheme `file` and a path that does not begin at the root. -/
def isRelativeFile (ref : String) : Bool :=
  match Uri.parse (documentPart ref) with
  | .ok uri => uri.scheme = "file" && !Path.isAbsolute (Text.percentDecode uri.path)
  | .error _ => false

variable {session : Session} {state after : SessionState} {entry : Entry}
variable {ref path place : String} {source : Source}

/-- A path that is accepted is the same without the sandbox. -/
theorem cleanFile_lifted {root directory accepted : String}
    (ok : Sandbox.cleanFile session.options session.current root directory path ref place =
      .ok accepted) :
    accepted = Path.normalize (Path.append directory path) ∧
      Sandbox.cleanFile session.lifted.options session.lifted.current root directory path ref place =
        .ok accepted := by
  unfold Sandbox.cleanFile at ok ⊢
  simp only at ok
  split at ok
  · obtain rfl := Except.ok.inj ok
    exact ⟨rfl, rfl⟩
  · cases ok

theorem cleanName_lifted {root directory accepted : String}
    (ok : Sandbox.cleanName session.options root directory path ref place = .ok accepted) :
    Sandbox.cleanName session.lifted.options root directory path ref place = .ok accepted := by
  unfold Sandbox.cleanName at ok ⊢
  simp only at ok
  generalize Path.dropSlashes (Path.normalize root) = root at ok ⊢
  split at ok
  all_goals
    split at ok
    · obtain rfl := Except.ok.inj ok
      rfl
    · cases ok

/-- A path from the root means the same file with and without the sandbox. -/
theorem fileSource_lifted (rooted : Path.isAbsolute path = true)
    (ok : session.fileSource state entry path ref place = .ok source) :
    session.lifted.fileSource state entry path ref place = .ok source := by
  have free : session.lifted.fileSource state entry path ref place = .ok (Source.ofFile path) := rfl
  rw [free]
  unfold fileSource at ok
  split at ok
  · exact ok
  · split at ok
    · split at ok
      · obtain ⟨accepted, clean, named⟩ := except_bind_eq_ok.mp ok
        obtain ⟨rfl, -⟩ := cleanFile_lifted clean
        rw [← named, Path.append, if_pos rooted, Source.ofFile, Source.ofFile,
          Path.normalize_normalize]
        rfl
      · cases ok
    · cases ok

theorem relativeSource_lifted (ok : session.relativeSource state entry path place = .ok source) :
    session.lifted.relativeSource state entry path place = .ok source := by
  unfold relativeSource at ok ⊢
  simp only at ok ⊢
  split at ok
  · obtain ⟨accepted, clean, named⟩ := except_bind_eq_ok.mp ok
    exact except_bind_eq_ok.mpr ⟨accepted, (cleanFile_lifted clean).2, named⟩
  · obtain ⟨accepted, clean, named⟩ := except_bind_eq_ok.mp ok
    exact except_bind_eq_ok.mpr ⟨accepted, cleanName_lifted clean, named⟩
  · exact ok

/-- A reference that is accepted in the sandbox names the same source without it. -/
theorem sourceOf_lifted (rooted : isRelativeFile ref = false)
    (ok : session.sourceOf state entry ref (documentPart ref) place = .ok source) :
    session.lifted.sourceOf state entry ref (documentPart ref) place = .ok source := by
  unfold isRelativeFile at rooted
  unfold sourceOf at ok ⊢
  cases parsed : Uri.parse (documentPart ref) with
  | error fault =>
      rw [parsed] at ok
      cases ok
  | ok uri =>
      rw [parsed] at rooted
      simp only [parsed] at ok rooted ⊢
      by_cases http : (uri.scheme = "http" || uri.scheme = "https") = true
      · rw [if_pos http] at ok ⊢
        exact ok
      rw [if_neg http] at ok ⊢
      by_cases file : uri.scheme = "file"
      · rw [if_pos file] at ok ⊢
        exact fileSource_lifted (by simpa [file] using rooted) ok
      rw [if_neg file] at ok ⊢
      by_cases other : uri.scheme ≠ ""
      · rw [if_pos other] at ok
        cases ok
      · rw [if_neg other] at ok ⊢
        exact relativeSource_lifted ok

/-- A target that is found in the sandbox is found without it, by the same request if there is one. -/
theorem locate_lifted {target : Target} (rooted : isRelativeFile ref = false)
    (run : (session.locate entry ref place).outcome state = (.ok target, after)) :
    (session.lifted.locate entry ref place).outcome state = (.ok target, after) := by
  rw [locate_eq] at run ⊢
  split at run
  · rename_i here
    rw [if_pos here]
    exact run
  · rename_i elsewhere
    rw [if_neg elsewhere]
    obtain ⟨source, named, run⟩ :=
      Run.outcome_lift_bind_eq_ok.mp (Run.outcome_get_bind_eq_ok.mp run)
    exact Run.outcome_get_bind_eq_ok.mpr
      (Run.outcome_lift_bind_eq_ok.mpr ⟨source, sourceOf_lifted rooted named, run⟩)

/-- A session without the sandbox opens its root document as one with it does. -/
theorem Opens.lifted {document : Document} {payload : Json} {root : Entry}
    (opens : session.Opens document payload root) : session.lifted.Opens document payload root :=
  ⟨opens.held, opens.size, opens.anchors, opens.origin, opens.kind⟩

open Expansion

variable {document : Document} {payload : Json} {root : Entry} {library : SessionState}

/-- An expansion of what a run has expanded comes to the same without the sandbox, if no reference
that the run comes to is a relative one with the scheme `file`. -/
theorem expand_lifted (opens : session.Opens document payload root)
    (rooted : ∀ moment entry node ref, session.ComesTo document payload moment entry node →
      refText node.1 (entry.location ++ node.2) = .ok ref → isRelativeFile ref = false)
    (budget : Nat) {frame : Frame} (reached : frame.Reached session root library)
    {result : Json} (grows : SessionState.Grows after library)
    (run : (expand session budget frame.entry .schema frame.path frame.value).outcome state =
      (.ok result, after)) :
    (expand session.lifted budget frame.entry .schema frame.path frame.value).outcome state =
      (.ok result, after) := by
  -- What references denote is read off the library, so the states of the two runs do not matter.
  induction budget using Nat.strong_induction_on generalizing frame result state after with
  | _ budget ih =>
      rw [expand_eq] at run ⊢
      have agree : ∀ node ∈ frame.references,
          AgreesOn (expand.follow session frame.entry (descent session budget))
            (expand.follow session.lifted frame.entry (descent session.lifted budget))
            (fun _ => True) (SessionState.Grows · library) node := by
        intro node mem first last value _ later run
        refine ⟨?_, trivial⟩
        obtain @⟨less, ref, target, middle, ended, merged, written, located, passes, put, inner, -,
          ends, ⟨_, _, _, comes⟩, _, _, further⟩ := reached.leads mem run later
        have absolute := rooted _ _ node ref (.intro opens reached.inside comes) written
        rw [follow_eq_ok]
        refine ⟨ref, target, middle, _, merged, written, locate_lifted absolute located, rfl,
          passes, put, ?_⟩
        exact nested_eq_ok.mpr ⟨ended, ih less less.lt_succ_self further ends inner, rfl⟩
      exact (walk_again (follows_fetching session budget frame.entry)
        (fun done low => (grows_of_fetching done).trans low) frame.value .schema frame.path agree
        state after result trivial grows run).1

/-- Without the sandbox a session comes to the same as with it, if the sandboxed one comes to a tree
and to no relative reference with the scheme `file`. -/
theorem runRoot_lifted {tree : Members}
    (run : (session.runRoot document payload).1 = .ok tree)
    (rooted : ∀ moment entry node ref, session.ComesTo document payload moment entry node →
      refText node.1 (entry.location ++ node.2) = .ok ref → isRelativeFile ref = false) :
    session.lifted.runRoot document payload = session.runRoot document payload := by
  obtain ⟨root, opens, reached, ends⟩ := reached_of_ok run
  have again := expand_lifted opens rooted _ reached (.refl _) ends
  rw [opens.lifted.runRoot_eq_ok.mpr again, ← run]

/-- Lifting the sandbox only widens what is accepted, except for relative references with the scheme
`file`. Any other reference that is followed in the sandbox leads to the same target without it. A run
in the sandbox that comes to a tree, and to no such reference, is the same without it: the same tree,
after the same requests. -/
theorem sandbox_lifted (session : Session) (document : Document) (payload : Json) :
    (∀ entry ref place target state after, isRelativeFile ref = false →
      (session.locate entry ref place).outcome state = (.ok target, after) →
      (session.lifted.locate entry ref place).outcome state = (.ok target, after)) ∧
    ∀ tree, (session.runRoot document payload).1 = .ok tree →
      (∀ moment entry node ref, session.ComesTo document payload moment entry node →
        refText node.1 (entry.location ++ node.2) = .ok ref → isRelativeFile ref = false) →
      (session.lifted.runRoot document payload).1 = .ok tree ∧
        (session.lifted.runRoot document payload).2.requests =
          (session.runRoot document payload).2.requests := by
  constructor
  · intro entry ref place target state after rooted run
    exact locate_lifted rooted run
  · intro tree run rooted
    have same := runRoot_lifted run rooted
    exact ⟨(congrArg Prod.fst same).trans run, by rw [same]⟩

end Session

namespace Sample

def titled (title : String) : Octets :=
  ("\x7b\"$schema\":\"https://json-schema.org/draft/2020-12/schema\",\"title\":\"" ++ title ++
    "\"\x7d").toList.map fun c => UInt8.ofNat c.toNat

/-- Two files of one name, in the directory of the root document and in the current directory. -/
def twice : Loader :=
  Loader.ofFetch (Fetch.fromTable [("/forms/n.json", titled "forms"), ("n.json", titled "here")])

def file : Document where
  source := ⟨.file, "/forms/root.json"⟩
  raw := root.raw
  raw_ne_nil := root.raw_ne_nil

end Sample

namespace Session

open Expansion

/-- The run of the sample comes to the reference in the items, and to none that is relative and has
the scheme `file`. -/
theorem sandbox_lifted_sample :
    (∃ moment entry, Sample.session.ComesTo Sample.root Sample.payload moment entry
      ([("$ref", .str "#/$defs/n")], "#/items")) ∧
      (Sample.session.lifted.runRoot Sample.root Sample.payload).1 = .ok Sample.tree ∧
      (Sample.session.lifted.runRoot Sample.root Sample.payload).2.requests =
        (Sample.session.runRoot Sample.root Sample.payload).2.requests := by
  have resolved : (Sample.session.runRoot Sample.root Sample.payload).1 = .ok Sample.tree :=
    Sample.resolved
  have texts : ∀ object ∈ (Sample.session.runRoot Sample.root Sample.payload).2.refObjects,
      (refText object.members "").toOption.all (!isRelativeFile ·) = true := by decide +kernel
  refine ⟨?_, (sandbox_lifted Sample.session Sample.root Sample.payload).2 _ resolved ?_⟩
  · obtain ⟨root, opened⟩ := resolved_of_ok resolved
    have start := Frame.passes_start Sample.session (Frame.root Sample.session root)
    have first : (Frame.root Sample.session root).references =
        references .schema "#" Sample.payload := by rw [opened.opens.held]; rfl
    have listed : references .schema "#" Sample.payload = [([("$ref", .str "#/$defs/n")], "#/items"),
        ([("$ref", .str "n.json#a"), ("title", .str "N")], "#/$defs/n")] := by decide +kernel
    rw [first, listed] at start
    exact ⟨_, _, .intro opened.opens .start start⟩
  · intro moment entry node ref comes written
    obtain ⟨object, listed, there⟩ := comes.text rfl written
    have plain := texts object listed
    rw [there] at plain
    simpa [Except.toOption] using plain

/-- A relative reference with the scheme `file` denotes another document once the sandbox is
lifted. -/
theorem lifted_elsewhere :
    let session : Session :=
      { loader := some Sample.twice, options := ResolveOptions.effective {}, current := "/" }
    let tree (title : String) : Members :=
      [("items", .obj [("$schema", .str "https://json-schema.org/draft/2020-12/schema"),
        ("title", .str title)])]
    let payload : Json := Sample.elsewhere "file:n.json"
    session.options.allowTraversal = false ∧
      ((session.runRoot Sample.file payload).1 = .ok (tree "forms") ∧
        (session.runRoot Sample.file payload).2.requests = [⟨.file, "/forms/n.json"⟩]) ∧
      (session.lifted.runRoot Sample.file payload).1 = .ok (tree "here") ∧
        (session.lifted.runRoot Sample.file payload).2.requests = [⟨.file, "n.json"⟩] := by
  intro session tree payload
  refine ⟨rfl, ?_, ?_⟩
  · decide +kernel
  · decide +kernel

end Session

end SchemaForms
