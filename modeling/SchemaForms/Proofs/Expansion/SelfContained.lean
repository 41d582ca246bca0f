import SchemaForms.Loader.Basic
import SchemaForms.Proofs.Expansion.ReferenceFree
import SchemaForms.Proofs.Schema.Resolved

/-!
# Results of an expansion stand by themselves

The tree that the references of a root document are expanded to has no reference at any schema
position, so normalizing it never meets one. On a tree that is so already the expansion does
nothing.
-/

namespace SchemaForms

/-- The effect of any step at all. -/
def Effect.any : Effect where
  done _ _ := True
  failed _ _ := True
  refl _ := trivial
  trans _ _ := trivial
  stop _ := trivial
  after _ _ := trivial

theorem Effect.any_meets {α : Type} (step : Run α) (state : SessionState)
    {post : SessionState → α → Prop} (h : ∀ after value, post after value) :
    Effect.any.Meets step state post :=
  Effect.meets_of_outcome (fun value after _ => ⟨trivial, h after value⟩) fun _ _ _ => trivial

namespace Expansion

/-- Of any session it is known that targets are found or not. -/
theorem finds_any (session : Session) :
    Finds Effect.any (fun _ _ => True) (fun _ _ _ _ _ => True) session where
  ignoresTrail := ⟨fun _ _ => trivial, fun _ _ => trivial⟩
  keep _ _ := trivial
  lasting _ _ := trivial
  locate _ _ := Effect.any_meets _ _ fun _ _ => ⟨trivial, trivial⟩

end Expansion

namespace Session

theorem refFree_of_resolveRoot {session : Session} {document : Document} {payload : Json}
    {state after : SessionState} {tree : Members}
    (run : (session.resolveRoot document payload).outcome state = (.ok tree, after)) :
    RefFree (.obj tree) := by
  have opened : Effect.any.Meets (session.openRoot document payload) state fun _ _ => True :=
    Effect.any_meets _ _ fun _ _ => trivial
  obtain ⟨-, root, budget, expanded⟩ :=
    (Expansion.resolveRoot_meets (Expansion.finds_any session) opened).ok run
  exact expanded.refFree

/-- A tree without references is its own expansion, and finding that out needs nothing of the
session. -/
theorem resolveNode_of_refFree (session : Session) (entry : Entry) {node : Json} (path : String)
    (free : RefFree node) (state : SessionState) :
    (session.resolveNode entry node path).outcome state = (.ok node, state) := by
  change (Expansion.expand session (session.budget state) entry .schema path node).outcome state = _
  rw [Expansion.expand_eq, Expansion.walk_of_freeAt _ node .schema path free, Run.outcome_pure]

end Session

/-- What an expansion gives has no reference at a schema position, and so normalizing it, in
whatever context, never reports one. A node without references is given back as it is, without a
request to the loader or any other change of the session. -/
theorem resolve_selfContained :
    (∀ (loader : Option Loader) (options : ResolveOptions) (current : String)
        (document : Document) (payload : Json) (tree : Members),
      resolve loader options current document payload = .ok tree →
        RefFree (.obj tree) ∧
        ∀ path context ref place, Schema.normalize path context (.obj tree) ≠
          .error (Keywords.error (.unresolvedReference ref) place)) ∧
    ∀ (session : Session) (entry : Entry) (node : Json) (path : String) (state : SessionState),
      RefFree node → (session.resolveNode entry node path).outcome state = (.ok node, state) := by
  constructor
  · intro loader options current document payload tree resolved
    let session : Session := { loader := loader, options := options.effective, current := current }
    have run : (session.resolveRoot document payload).outcome {} =
        (.ok tree, (session.runRoot document payload).2) := Prod.ext resolved rfl
    have free := Session.refFree_of_resolveRoot run
    refine ⟨free, ?_⟩
    intro path context ref place reported
    exact (Schema.normalize_reports _ path context free _ reported).ne_unresolved ref place rfl
  · intro session entry node path state free
    exact session.resolveNode_of_refFree entry path free state

namespace Sample

/-- A root document whose references start in the directory `forms` of the loader. -/
def root : Document where
  source := ⟨.fs, "forms/root.json"⟩
  raw := [0x7B, 0x7D]
  raw_ne_nil := by simp

def text : String :=
  "\x7b\"$schema\":\"https://json-schema.org/draft/2020-12/schema\",\"$anchor\":\"a\"\x7d"

def loader : Loader :=
  Loader.ofFetch (Fetch.fromTable
    [("forms/n.json", text.toList.map fun c => UInt8.ofNat c.toNat)])

/-- The items are a definition, which is a document of its own with another title. -/
def payload : Json :=
  .obj [("items", .obj [("$ref", .str "#/$defs/n")]),
    ("$defs", .obj [("n", .obj [("$ref", .str "n.json#a"), ("title", .str "N")])])]

def definition : Json :=
  .obj [("$schema", .str "https://json-schema.org/draft/2020-12/schema"), ("$anchor", .str "a"),
    ("title", .str "N")]

def tree : Members :=
  [("items", definition), ("$defs", .obj [("n", definition)])]

/-- The session in which the root document is resolved. -/
def session : Session where
  loader := some loader
  options := ResolveOptions.effective {}

theorem resolved : resolve (some loader) {} "/" root payload = .ok tree :=
  eq_ok_of_toOption (by decide +kernel)

end Sample

/-- A chain of references that ends in another document leaves none of them. -/
theorem resolve_selfContained_sample :
    resolve (some Sample.loader) {} "/" Sample.root Sample.payload = .ok Sample.tree ∧
      RefFree (.obj Sample.tree) ∧
      (Session.resolveNode {} ⟨⟨"", "", ""⟩, .fs, [], []⟩ (.obj Sample.tree) "#").outcome {} =
        (.ok (.obj Sample.tree), {}) := by
  have free : RefFree (.obj Sample.tree) :=
    (resolve_selfContained.1 _ _ _ _ _ _ Sample.resolved).1
  exact ⟨Sample.resolved, free, resolve_selfContained.2 _ _ _ _ _ free⟩

end SchemaForms
