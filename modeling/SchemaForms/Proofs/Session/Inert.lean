import SchemaForms.Proofs.Session.Followed
import SchemaForms.Proofs.Session.Images

/-!
# Data does not take part in a resolution

Two root documents that are the same but for their data are resolved alike, as long as no reference
that is followed leads into data in which they differ: the same documents are requested, and the
trees are the same but for their data.

There is one way for data to take part. The anchors of a document are collected from all of it, so
an `$anchor` in data uses up a name. If another object has that name the document is not opened.
-/

namespace SchemaForms

open Json (SameButData sharesFragment)

namespace Session

open Expansion

variable {session : Session} {f : Json → Json} {root image entry' : Entry}
variable {document other : Document} {payload payload' : Json}

/-- A run on the image of a root document, told from the run on the root. -/
def mirror (session : Session) (root image : Entry) (library : SessionState) : Mirror where
  effect := session.fetching
  counts state := SessionState.Grows state library
  earlier done later := (grows_of_fetching done).trans later
  twins := SessionState.Twins root image

/-- A reference that the run comes to leads to a place of the root document, by this fragment. -/
inductive Addresses (session : Session) (document : Document) (payload : Json) : String → Prop
  | intro {moment : SessionState} {entry : Entry} {node : Members × String} {ref : String}
      {target : Target} (comes : session.ComesTo document payload moment entry node)
      (written : refText node.1 (entry.location ++ node.2) = .ok ref)
      (located : (session.locate entry ref (entry.location ++ node.2)).outcome
        (session.runRoot document payload).2 = (.ok target, (session.runRoot document payload).2))
      (inRoot : session.Opens document payload target.entry) :
      Addresses session document payload (fragmentPart ref)

/-- Within the budget, expansions in the run are told from those of what is the same but for
data. -/
def ExpandsAlike (session : Session) (f : Json → Json) (root image : Entry) (library : SessionState)
    (budget : Nat) : Prop :=
  ∀ (frame : Frame) (entry' : Entry) (value' : Json), frame.Reached session root library →
    Entry.Pairs root image frame.entry entry' → SameButData f false frame.value value' →
    (session.mirror root image library).Maps (SameButData f false)
      (expand session budget frame.entry .schema frame.path frame.value)
      (expand session budget entry' .schema frame.path value')

/-- To follow a reference is told from following the other one, if this is known of what lies behind
it. -/
theorem follow_maps (imaged : root.Imaged f image) (opens : session.Opens document payload root)
    (shared : ∀ fragment, session.Addresses document payload fragment →
      sharesFragment f (.obj root.data) (.obj image.data) fragment = true)
    {budget : Nat} (below : ∀ less, budget = less + 1 →
      session.ExpandsAlike f root image (session.runRoot document payload).2 less)
    {frame : Frame} (reached : frame.Reached session root (session.runRoot document payload).2)
    (pairs : Entry.Pairs root image frame.entry entry') {node : Members × String}
    (mem : node ∈ frame.references) {others : Members}
    (alike : Json.mapDataMembers f false others = Json.mapDataMembers f false node.1) :
    (session.mirror root image (session.runRoot document payload).2).Maps (SameButData f false)
      (expand.follow session frame.entry (descent session budget) node.1 node.2)
      (expand.follow session entry' (descent session budget) others node.2) := by
  refine ⟨fun state => (follows_fetching session budget frame.entry).meets _ _ state trivial, ?_⟩
  intro state state' after result twins later run
  have location : entry'.location = frame.entry.location :=
    congrArg Origin.location (pairs.origin imaged)
  obtain @⟨less, ref, target, middle, ended, merged, written, located, passes, put, inner, found,
    ends, ⟨_, _, _, comes⟩, _, _, further⟩ := reached.leads mem run later
  have addresses (here : target.entry = root) :
      session.Addresses document payload (fragmentPart ref) :=
    .intro (.intro opens reached.inside comes) written (locate_again located found) (here ▸ opens)
  -- The second run finds the target's counterpart, and what is put together is like the first.
  obtain ⟨target', middle', located', like, twins⟩ :=
    locate_twins imaged twins pairs (fun here => shared _ (addresses here)) located
  obtain ⟨merged', put', alike'⟩ := Reference.merge_sameButData like.value alike put
  have key := like.key imaged
  have pushed : SessionState.Twins root image
      { middle with trail := middle.trail.push target.key }
      { middle' with trail := middle'.trail.push target'.key } :=
    ⟨twins.cache, twins.root, twins.image, twins.requests, by rw [twins.trail, key]⟩
  obtain ⟨result', ended', inner', results, twins'⟩ :=
    (below less rfl _ _ _ further like.entry alike').follows pushed ends inner
  refine ⟨result', { ended' with trail := ended'.trail.pop }, ?_, results, ?_⟩
  · rw [follow_eq_ok, location]
    refine ⟨ref, target', middle', _, merged', ?_, located', rfl, ?_, put', ?_⟩
    · rw [refText_congr alike]
      exact written
    · rw [twins.trail, key, passes]
    · rw [← like.path] at inner'
      exact nested_eq_ok.mpr ⟨ended', inner', rfl⟩
  · exact ⟨twins'.cache, twins'.root, twins'.image, twins'.requests, by rw [twins'.trail]⟩

/-- The induction over nested references: all expansions in the run are told from their
counterparts. -/
theorem expandsAlike (imaged : root.Imaged f image) (opens : session.Opens document payload root)
    (shared : ∀ fragment, session.Addresses document payload fragment →
      sharesFragment f (.obj root.data) (.obj image.data) fragment = true) (budget : Nat) :
    session.ExpandsAlike f root image (session.runRoot document payload).2 budget := by
  have step {budget : Nat} (below : ∀ less, budget = less + 1 →
      session.ExpandsAlike f root image (session.runRoot document payload).2 less) :
      session.ExpandsAlike f root image (session.runRoot document payload).2 budget := by
    intro frame entry' value' reached pairs same
    rw [expand_eq, expand_eq]
    refine walk_maps frame.value value' .schema frame.path same ?_
    intro node mem others alike
    exact follow_maps imaged opens shared below reached pairs mem alike
  induction budget with
  | zero => exact step nofun
  | succ budget ih => exact step fun less same => Nat.succ.inj same ▸ ih

/-- The document can be the root of a session: it is not too large, and no anchor is declared
twice. -/
structure Admits (session : Session) (document : Document) (payload : Json) : Prop where
  size : document.size ≤ session.options.maxDocumentSize
  anchors : ((Anchors.declared "#" payload).map (·.1)).Nodup

theorem Admits.exists_opens {members : Members} (h : session.Admits document (.obj members)) :
    ∃ root, session.Opens document (.obj members) root :=
  ⟨⟨session.originOf document.source, document.kind, members, _⟩, rfl, h.size,
    Anchors.index_eq_ok.mpr ⟨h.anchors, rfl⟩, rfl, rfl⟩

theorem Opens.admits (h : session.Opens document payload root) : session.Admits document payload :=
  ⟨h.size, (Anchors.index_eq_ok.mp h.anchors).1⟩

theorem Opens.declared (h : session.Opens document payload root) :
    root.anchors = Anchors.declared "#" (.obj root.data) := by
  rw [← h.held]
  exact (Anchors.index_eq_ok.mp h.anchors).2

/-- The run on a document that is the same but for its data gives a tree if the run on the one does,
the same but for data, by the same requests. -/
theorem runRoot_inert {tree : Members} (source : other.source = document.source)
    (same : SameButData f false payload payload')
    (admits : session.Admits document payload → session.Admits other payload')
    (shared : ∀ fragment, session.Addresses document payload fragment →
      sharesFragment f payload payload' fragment = true)
    (run : (session.runRoot document payload).1 = .ok tree) :
    ∃ tree', (session.runRoot other payload').1 = .ok tree' ∧
      SameButData f false (.obj tree) (.obj tree') ∧
      (session.runRoot other payload').2.requests =
        (session.runRoot document payload).2.requests := by
  obtain ⟨root, opens, reached, ends⟩ := reached_of_ok run
  obtain rfl := opens.held
  obtain ⟨members, rfl, -⟩ := same.obj
  obtain ⟨image, opens'⟩ := (admits opens.admits).exists_opens
  rw [opens'.held] at same shared
  have imaged : root.Imaged f image := by
    refine ⟨?_, ?_, same, opens.declared, opens'.declared, opens'.declared ▸ ?_⟩
    · rw [opens'.origin, opens.origin, source]
    · rw [opens'.kind, opens.kind, Document.kind, Document.kind, source]
    · exact opens'.held ▸ opens'.admits.anchors
  obtain ⟨result, after, run', like, twins⟩ :=
    (expandsAlike imaged opens shared _ _ _ _ reached .root same).follows (twins_opened root image)
      (.refl _) ends
  obtain ⟨tree', rfl, -⟩ := like.obj
  rw [opens'.runRoot_eq_ok.mpr run']
  exact ⟨tree', rfl, like, twins.requests⟩

/-- Data is inert, but for the anchors in it. Let two documents at one place be the same but for
their data, let both of them be admitted or none, and let no reference that is followed in either of
them lead into data in which they differ. Then the one run gives a tree just if the other one does,
and the trees are the same but for their data, by the same requests. -/
theorem data_inert (session : Session) (f : Json → Json) (document other : Document)
    (payload payload' : Json) (source : other.source = document.source)
    (same : SameButData f false payload payload')
    (admits : session.Admits document payload ↔ session.Admits other payload')
    (shared : ∀ fragment, session.Addresses document payload fragment →
      sharesFragment f payload payload' fragment = true)
    (shared' : ∀ fragment, session.Addresses other payload' fragment →
      sharesFragment f payload' payload fragment = true) :
    ((∃ tree, (session.runRoot document payload).1 = .ok tree) ↔
      ∃ tree, (session.runRoot other payload').1 = .ok tree) ∧
    ∀ tree tree', (session.runRoot document payload).1 = .ok tree →
      (session.runRoot other payload').1 = .ok tree' →
      SameButData f false (.obj tree) (.obj tree') ∧
        (session.runRoot other payload').2.requests =
          (session.runRoot document payload).2.requests := by
  refine ⟨⟨?_, ?_⟩, ?_⟩
  · rintro ⟨tree, run⟩
    obtain ⟨tree', run', -⟩ := runRoot_inert source same admits.mp shared run
    exact ⟨tree', run'⟩
  · rintro ⟨tree, run⟩
    obtain ⟨tree', run', -⟩ := runRoot_inert source.symm same.symm admits.mpr shared' run
    exact ⟨tree', run'⟩
  · intro tree tree' run run'
    obtain ⟨found, again, like, requests⟩ := runRoot_inert source same admits.mp shared run
    obtain rfl := Except.ok.inj (again.symm.trans run')
    exact ⟨like, requests⟩

/-- The fragments by which a run addresses its root document are written in what it has read, so it
is enough to look at those. -/
theorem shared_of_written (checks : session.detectsCycles = true)
    (texts : ∀ object ∈ (session.runRoot document payload).2.refObjects,
      (refText object.members "").toOption.all fun ref =>
        sharesFragment f payload payload' (fragmentPart ref)) :
    ∀ fragment, session.Addresses document payload fragment →
      sharesFragment f payload payload' fragment = true := by
  rintro _ ⟨comes, written, -, -⟩
  obtain ⟨object, listed, text⟩ := comes.text checks written
  have shared := texts object listed
  rw [text] at shared
  exact shared

end Session

namespace Sample

/-- A document with a constant, in which a property is called `default`. -/
def holding (data : Json) : Json :=
  .obj [("const", data), ("$defs", .obj [("n", .obj [("$anchor", .str "a")])]),
    ("properties", .obj [("default", .obj [("$ref", .str "#a")])]),
    ("items", .obj [("$ref", .str "#/$defs/n")])]

def held (data : Json) : Members :=
  [("const", data), ("$defs", .obj [("n", .obj [("$anchor", .str "a")])]),
    ("properties", .obj [("default", .obj [("$anchor", .str "a")])]),
    ("items", .obj [("$anchor", .str "a")])]

def lookalike (name : String) : Json :=
  .obj [("$anchor", .str name), ("$ref", .str "#/$defs/n")]

/-- Nothing of the data counts. -/
def hidden : Json → Json := fun _ => .null

end Sample

namespace Session

/-- Data that looks like a schema stays as it is, and so does everything else. -/
theorem data_inert_sample :
    (∃ tree, (Sample.session.runRoot Sample.root (Sample.holding (Sample.lookalike "b"))).1 =
      .ok tree) ∧
    ∀ tree tree',
      (Sample.session.runRoot Sample.root (Sample.holding (Sample.lookalike "b"))).1 = .ok tree →
      (Sample.session.runRoot Sample.root (Sample.holding (.int 1))).1 = .ok tree' →
      SameButData Sample.hidden false (.obj tree) (.obj tree') := by
  have first : Sample.session.Admits Sample.root (Sample.holding (Sample.lookalike "b")) :=
    ⟨by decide +kernel, by decide +kernel⟩
  have second : Sample.session.Admits Sample.root (Sample.holding (.int 1)) :=
    ⟨by decide +kernel, by decide +kernel⟩
  have inert := data_inert Sample.session Sample.hidden Sample.root Sample.root
    (Sample.holding (Sample.lookalike "b")) (Sample.holding (.int 1)) rfl (by decide +kernel)
    (iff_of_true first second) (shared_of_written rfl (by decide +kernel))
    (shared_of_written rfl (by decide +kernel))
  have run : (Sample.session.runRoot Sample.root (Sample.holding (.int 1))).1 =
      .ok (Sample.held (.int 1)) := eq_ok_of_toOption (by decide +kernel)
  exact ⟨inert.1.mpr ⟨_, run⟩, fun tree tree' ran ran' => (inert.2 tree tree' ran ran').1⟩

/-- An anchor in data uses up a name: with it the document is not opened, and without it the
document has a tree. -/
theorem data_indexed :
    let payload := Sample.holding (Sample.lookalike "a")
    let payload' := Sample.holding (.int 1)
    SameButData Sample.hidden false payload payload' ∧
    (∀ fragment, Sample.session.Addresses Sample.root payload fragment →
      sharesFragment Sample.hidden payload payload' fragment = true) ∧
    (∀ fragment, Sample.session.Addresses Sample.root payload' fragment →
      sharesFragment Sample.hidden payload' payload fragment = true) ∧
    (Sample.session.runRoot Sample.root payload).1 =
      .error (.schema (.reference (.duplicateAnchor "a")) "forms/root.json#/$defs/n") ∧
    (Sample.session.runRoot Sample.root payload').1 = .ok (Sample.held (.int 1)) := by
  intro payload payload'
  refine ⟨by decide +kernel, shared_of_written rfl (by decide +kernel),
    shared_of_written rfl (by decide +kernel), ?_, eq_ok_of_toOption (by decide +kernel)⟩
  decide +kernel

end Session

end SchemaForms
