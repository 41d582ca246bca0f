import SchemaForms.Proofs.Expansion.SelfContained
import SchemaForms.Proofs.Session.Load

/-!
# Loaders that go by keys

Sources of one key mean one document, and a session keeps it under that key. The key tells all of
the origin, and the kind of the source as well. So if what a loader finds depends on the key of a
source only, it does not matter by which source, or after which requests, a document comes to a
session.
-/

namespace SchemaForms

namespace Origin

/-- Sources of one key are of one kind and have one origin. -/
theorem eq_of_key {current : String} {source other : Source}
    (same : (ofSource current source).key = (ofSource current other).key) :
    source.kind = other.kind ∧ ofSource current source = ofSource current other := by
  obtain ⟨kind, location⟩ := source
  obtain ⟨kind', location'⟩ := other
  -- The prefixes of the kinds differ in their first two characters.
  cases kind <;> cases kind' <;>
    simp only [ofSource, ← String.toList_inj, String.toList_append, String.reduceToList,
      List.cons_append, List.nil_append, List.cons.injEq, Char.reduceEq, true_and, false_and] at same ⊢
  all_goals simp_all [String.toList_inj]

end Origin

/-- What the loader finds depends on the key of the source only. -/
def Loader.Keyed (current : String) (loader : Loader) : Prop :=
  ∀ earlier earlier' source source',
    (Origin.ofSource current source).key = (Origin.ofSource current source').key →
      (loader earlier source).map Document.raw = (loader earlier' source').map Document.raw

namespace Session

variable {session : Session}

theorem accept_congr {kind : SourceKind} {origin : Origin} {document other : Document}
    (same : document.raw = other.raw) :
    session.accept kind origin document = session.accept kind origin other := by
  obtain ⟨_, raw, _⟩ := document
  obtain rfl : raw = other.raw := same
  rfl

/-- A request for a key is worth the same at any time and by any source. -/
theorem reply_eq_of_key {loader : Loader} (keyed : loader.Keyed session.current)
    (earlier earlier' : List Source) {source other : Source}
    (same : (session.originOf source).key = (session.originOf other).key) :
    session.reply loader earlier source = session.reply loader earlier' other := by
  obtain ⟨kind, origin⟩ := Origin.eq_of_key same
  have raw := keyed earlier earlier' source other same
  rw [reply, reply, originOf, originOf, kind, origin]
  cases replied : loader earlier source with
  | error error =>
      cases replied' : loader earlier' other with
      | error error' =>
          rw [replied, replied'] at raw
          rw [show error = error' from Except.error.inj raw]
      | ok document' =>
          rw [replied, replied'] at raw
          cases raw
  | ok document =>
      cases replied' : loader earlier' other with
      | error error' =>
          rw [replied, replied'] at raw
          cases raw
      | ok document' =>
          rw [replied, replied'] at raw
          exact accept_congr (Except.ok.inj raw)

end Session

namespace Sample

def octets (text : String) : Octets :=
  text.toList.map fun c => UInt8.ofNat c.toNat

theorem octets_text_ne_nil : octets text ≠ [] := by
  decide +kernel

/-- A loader that has one document, by its key, in whatever way the source is written. -/
def byKey (raw : Octets) (some : raw ≠ []) : Loader := fun _ source =>
  if (Origin.ofSource "/" source).key = "fs:forms/n.json" then .ok ⟨source, raw, some⟩
  else .error (.schema (.load (.missingDocument (Origin.ofSource "/" source).key)) "")

theorem byKey_keyed (raw : Octets) (some : raw ≠ []) : (byKey raw some).Keyed "/" := by
  intro earlier earlier' source source' same
  simp only [byKey, same]
  split
  · rfl
  · rfl

end Sample

end SchemaForms
