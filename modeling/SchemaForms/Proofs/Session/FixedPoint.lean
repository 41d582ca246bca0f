import SchemaForms.Proofs.Expansion.SelfContained
import SchemaForms.Proofs.Session.Anchors
import SchemaForms.Proofs.Session.Root

/-!
# Expanding a result again

A tree without references, put in the place of a root document's content, is expanded to itself, by
any loader or none. The expansion itself cannot fail, so the one thing that can go wrong is that
the document is not opened: a definition keeps its `$anchor` wherever it is copied to, and so a name
that one object of the document has may be that of several objects of the result.
-/

namespace SchemaForms

namespace Session

variable {session : Session} {document : Document} {payload : Json} {tree : Members} {root : Entry}

/-- A run on a root without references gives it back, and reads nothing else. -/
theorem Opens.runRoot_of_refFree (opens : session.Opens document (.obj tree) root)
    (free : RefFree (.obj tree)) :
    session.runRoot document (.obj tree) = (.ok tree, .opened root) := by
  have held : Json.obj tree = .obj root.data := opens.held
  have expanded : (session.resolveNode root (.obj root.data) "#").outcome (.opened root) =
      (.ok (.obj tree), .opened root) := by
    rw [← held]
    exact session.resolveNode_of_refFree root "#" free (.opened root)
  show (session.resolveRoot document (.obj tree)).outcome {} = _
  rw [resolveRoot, Run.outcome_bind, opens.run]
  simp only [Run.outcome_bind, expanded, Run.outcome_pure]

/-- A document of which there is no table of anchors is not opened. -/
theorem runRoot_of_index_eq_error {error : Error}
    (size : document.size ≤ session.options.maxDocumentSize)
    (failed : Anchors.index (.obj tree) (session.originOf document.source).location "#" =
      .error error) :
    session.runRoot document (.obj tree) = (.error error, {}) := by
  have fits : session.checkSize document (session.originOf document.source).location = .ok () :=
    checkSize_eq_ok.mpr size
  show (session.resolveRoot document (.obj tree)).outcome {} = _
  simp only [resolveRoot, openRoot, Run.outcome_bind, Run.outcome_pure, Run.outcome_lift,
    ofSource_eq_originOf, fits, failed]

end Session

/-- The result of a run as the content of its document once more, under the same options: if no two
of its objects have one name, it is its own result, with any loader or none, and nothing is
requested. Otherwise the run fails with the first name that comes again. -/
theorem resolve_resolved {loader : Option Loader} {options : ResolveOptions} {current : String}
    {document : Document} {payload : Json} {tree : Members}
    (resolved : resolve loader options current document payload = .ok tree)
    (other : Option Loader) :
    let session : Session := { loader := other, options := options.effective, current := current }
    let anchors := Anchors.declared "#" (.obj tree)
    ((anchors.map (·.1)).Nodup →
      resolve other options current document (.obj tree) = .ok tree ∧
        (session.runRoot document (.obj tree)).2.requests = []) ∧
    (¬ (anchors.map (·.1)).Nodup →
      ∃ again, Anchors.FirstRepeated anchors again ∧
        resolve other options current document (.obj tree) =
          .error (.schema (.reference (.duplicateAnchor again.1))
            ((session.originOf document.source).location ++ again.2))) := by
  intro session anchors
  let before : Session := { loader := loader, options := options.effective, current := current }
  have run : (before.resolveRoot document payload).outcome {} =
      (.ok tree, (before.runRoot document payload).2) := Prod.ext resolved rfl
  have free : RefFree (.obj tree) := Session.refFree_of_resolveRoot run
  -- the limit on the size of the document is the same in both runs
  have size : document.size ≤ session.options.maxDocumentSize := by
    obtain ⟨error, failed⟩ | ⟨root, opens, -⟩ := before.runRoot_ends document payload
    · have : resolve loader options current document payload = .error error :=
        congrArg Prod.fst failed
      rw [resolved] at this
      cases this
    · exact opens.size
  constructor
  · intro distinct
    let origin := session.originOf document.source
    have opens : session.Opens document (.obj tree) ⟨origin, document.kind, tree, anchors⟩ :=
      ⟨rfl, size, Anchors.index_eq_ok.mpr ⟨distinct, rfl⟩, rfl, rfl⟩
    have run := opens.runRoot_of_refFree free
    exact ⟨congrArg Prod.fst run, by rw [run]; rfl⟩
  · intro repeated
    obtain ⟨again, first⟩ := Anchors.exists_firstRepeated repeated
    have run := Session.runRoot_of_index_eq_error size (Anchors.index_eq_error first)
    exact ⟨again, first, congrArg Prod.fst run⟩

namespace Sample

/-- The items are a definition, which has the given members besides its title. -/
def shared (members : Members) : Json :=
  .obj [("$anchor", .str "top"), ("items", .obj [("$ref", .str "#/$defs/n")]),
    ("$defs", .obj [("n", .obj (("title", .str "N") :: members))])]

def sharedTree (members : Members) : Members :=
  [("$anchor", .str "top"), ("items", .obj (("title", .str "N") :: members)),
    ("$defs", .obj [("n", .obj (("title", .str "N") :: members))])]

end Sample

theorem resolve_resolved_sample :
    resolve none {} "/" Sample.root (Sample.shared []) = .ok (Sample.sharedTree []) ∧
      resolve none {} "/" Sample.root (.obj (Sample.sharedTree [])) =
        .ok (Sample.sharedTree []) := by
  have resolved : resolve none {} "/" Sample.root (Sample.shared []) = .ok (Sample.sharedTree []) :=
    eq_ok_of_toOption (by decide +kernel)
  have distinct :
      ((Anchors.declared "#" (.obj (Sample.sharedTree []))).map (·.1)).Nodup := by
    decide +kernel
  exact ⟨resolved, ((resolve_resolved resolved none).1 distinct).1⟩

/-- A definition with an anchor has been copied, and so the result is not one of its own. -/
theorem resolve_anchored_twice :
    resolve none {} "/" Sample.root (Sample.shared [("$anchor", .str "a")]) =
        .ok (Sample.sharedTree [("$anchor", .str "a")]) ∧
      resolve none {} "/" Sample.root (.obj (Sample.sharedTree [("$anchor", .str "a")])) =
        .error (.schema (.reference (.duplicateAnchor "a")) "forms/root.json#/$defs/n") := by
  constructor
  · decide +kernel
  · decide +kernel

end SchemaForms
