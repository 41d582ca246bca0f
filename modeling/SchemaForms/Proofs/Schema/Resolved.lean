import SchemaForms.Proofs.Schema.Assembled
import SchemaForms.Proofs.Schema.Positions

/-!
# What normalizing a value reports

The values that are normalized below a value stand at its schema positions. So every error is one of
a node's own keywords there, or that of a reference which has been left there. A value of which no
object has a `$ref` never reports a reference.

Errors are reports on the schema, with two exceptions: an integer bound that is beyond all floating
point numbers stops the normalizer without a report, and so does an integer that the report would
have to show with too many digits.
-/

namespace SchemaForms

/-- An error of some node, wherever it is. -/
def NodeError.Somewhere (error : Error) : Prop :=
  ∃ node path, NodeError node path error

/-- An error of a node's own keywords is not that of a reference. -/
theorem NodeError.Somewhere.ne_unresolved {error : Error} (h : NodeError.Somewhere error)
    (ref path : String) : error ≠ Keywords.error (.unresolvedReference ref) path := by
  rintro rfl
  obtain ⟨node, place, ⟨other⟩⟩ := h
  exact other ref rfl

namespace Schema

/-- What normalizing a value may report: an error of a node at one of its schema positions, or a
reference that such a node still has. -/
inductive Reported (value : Json) : Error → Prop
  | node {node : Json} {path : String} {error : Error} (position : SchemaPosition value node)
      (own : NodeError node path error) : Reported value error
  | reference {members : Members} {ref : Json} {path : String}
      (position : SchemaPosition value (.obj members))
      (has : Members.get? members "$ref" = some ref) :
      Reported value (Keywords.showing .unresolvedReference ref path)

/-- What is reported below a value is reported of the value, as far as positions in the one are
positions in the other. -/
theorem Reported.lift {inner outer : Json} {outcome : Outcome}
    (h : Reports (Reported inner) outcome)
    (positions : ∀ node, SchemaPosition inner node → SchemaPosition outer node) :
    Reports (Reported outer) outcome := by
  intro error failed
  cases h error failed with
  | node position own => exact .node (positions _ position) own
  | reference position has => exact .reference (positions _ position) has

/-- What lies below a node reports what may be reported of the node, if that is so for each of its
parts, in whatever context. -/
theorem partsOf_report (path : String) (members : Members)
    (below : Below (fun value => ∀ path context,
      Reports (Reported value) (normalize path context value)) members) :
    (partsOf path members).Report (Reported (.obj members)) members where
  named key map children has outcome mem := by
    rw [named_partsOf (by simpa using map) has, normalizeNamed_eq_map] at mem
    obtain ⟨child, inside, rfl⟩ := List.mem_map.mp mem
    exact Reported.lift (below.named key map children has child inside _ _)
      fun _ => .named map (Members.mem_of_get? has) inside
  items item has outcome found := by
    cases (lookup_items has).symm.trans found
    exact Reported.lift (below.items _ has _ _) fun _ => .items (Members.mem_of_get? has)
  listed elements has outcome mem := by
    rw [listed_partsOf has] at mem
    obtain ⟨number, element, found, rfl⟩ := mem_normalizeVariants mem
    have inside := List.mem_of_getElem? found
    exact Reported.lift (below.listed elements has element inside _ _)
      fun _ => .listed (by simp [schemaLists]) (Members.mem_of_get? has) inside

/-- Every error in normalizing a value is accounted for by a node at a schema position of it. -/
theorem normalize_reported (value : Json) :
    ∀ path context, Reports (Reported value) (normalize path context value) := by
  induction value using Json.node_induction with
  | node members below =>
      intro path context
      apply assemble_reports
      · intro error own
        exact .node (.here _) own
      · exact partsOf_report path members below
      · intro ref has
        exact .reference (.here _) has
  | leaf value scalar =>
      intro path context
      cases value with
      | obj members => exact absurd rfl (scalar members)
      | _ => exact .error (.node (.here _) (.keyword (by simp)))

/-- The errors of a value without references are those of its nodes. -/
theorem normalize_reports (value : Json) (path : String) (context : NodeContext)
    (free : RefFree value) : Reports NodeError.Somewhere (normalize path context value) := by
  intro error failed
  cases normalize_reported value path context error failed with
  | node _ own => exact ⟨_, _, own⟩
  | reference position has =>
      have hasNot := free _ position
      simp [Members.has, has] at hasNot

/-- At one of its schema positions a value holds an integer bound that no floating point number is
near. -/
def HasVastBound (value : Json) : Prop :=
  ∃ members, SchemaPosition value (.obj members) ∧ ∃ key ∈ Keywords.bounds, ∃ n : Int,
    Members.get? members key = some (.int n) ∧ Binary64.ofInt? n = none

/-- At one of its schema positions a value has a `$ref` or a `type` in which an integer with too many
digits stands. -/
def HasUnshown (value : Json) : Prop :=
  ∃ members, SchemaPosition value (.obj members) ∧ ∃ key ∈ ["$ref", "type"], ∃ shown,
    Members.get? members key = some shown ∧ shown.HoldsOverlong

/-- Normalizing a value gives a schema or reports what is wrong with it. Two things make it end
otherwise: an integer bound beyond the floating point numbers, with an overflow, and an integer with
too many digits in a value that a message is to show, because it cannot be written. -/
theorem normalize_ends (value : Json) (path : String) (context : NodeContext) :
    (∃ schema, normalize path context value = .ok schema) ∨
      (∃ fault place, normalize path context value = .error (Keywords.error fault place)) ∨
      (normalize path context value = .error .overflow ∧ HasVastBound value) ∨
      (normalize path context value = .error (.digits .write) ∧ HasUnshown value) := by
  cases run : normalize path context value with
  | ok schema => exact .inl ⟨schema, rfl⟩
  | error error =>
      right
      cases normalize_reported value path context error run with
      | @reference members ref place position has =>
          obtain ⟨text, shown⟩ | ⟨unshown, overlong⟩ :=
            Keywords.showing_cases .unresolvedReference ref place
          · exact .inl ⟨_, _, congrArg Except.error shown⟩
          · rw [unshown]
            exact .inr (.inr ⟨rfl, _, position, _, by simp, _, has, overlong⟩)
      | node position own =>
          cases own with
          | keyword => exact .inl ⟨_, _, rfl⟩
          | overflow object bound has beyond =>
              subst object
              exact .inr (.inl ⟨rfl, _, position, _, bound, _, has, beyond⟩)
          | unshown object has overlong =>
              subst object
              exact .inr (.inr ⟨rfl, _, position, _, by simp, _, has, overlong⟩)

namespace Sample

/-- A schema whose minimum is an integer with four hundred zeros. -/
def vast : Json :=
  .obj [("minimum", .int (Int.ofNat (Nat.pow 10 400)))]

end Sample

/-- Neither a schema nor a report comes of a minimum that is too large. -/
theorem normalize_overflows :
    normalize "#" {} Sample.vast = .error .overflow ∧
      ∀ fault place, normalize "#" {} Sample.vast ≠ .error (Keywords.error fault place) := by
  have ends : (match normalize "#" {} Sample.vast with
      | .ok _ => none
      | .error error => some error) = some Error.overflow := by decide +kernel
  cases run : normalize "#" {} Sample.vast with
  | ok schema => simp [run] at ends
  | error error =>
      obtain rfl : error = .overflow := by simpa [run] using ends
      exact ⟨rfl, fun fault place => by simp [Keywords.error]⟩

end Schema

end SchemaForms
