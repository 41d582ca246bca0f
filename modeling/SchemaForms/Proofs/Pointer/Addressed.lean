import SchemaForms.Proofs.Json.Distinct
import SchemaForms.Proofs.Json.Objects
import SchemaForms.Proofs.Pointer.Written
import SchemaForms.Proofs.Session.Effect

/-!
# Paths that lead back

The path of a value grows by one token for each step that is taken into it. `Pointer.Leads` says that
a row of such tokens leads from one value to another, and that each token is legible; then the pointer
that writes the row denotes the value. Behind another pointer it still does, so a path may begin at
any place of a document and go on from there.

In an `Addressable` value every step is of that kind: names occur once and are legible, and so are
the numbers of elements.
-/

namespace SchemaForms

namespace Pointer

open Text

theorem written_append (first second : List String) :
    written (first ++ second) = written first ++ written second := by
  induction first with
  | nil => simp
  | cons token rest ih => simp [written_cons, ih, String.append_assoc]

/-- Two pointers that are put together are read one after the other. -/
theorem tokens_append (pointer : String) {row : List String}
    (plain : ∀ token ∈ row, hasEscape token.toList = false) :
    tokens (pointer ++ written row) = tokens pointer ++ row := by
  obtain empty | slash := isPointer_written row
  · have none : row = [] := by
      cases row with
      | nil => rfl
      | cons token rest => simp [written_cons] at empty
    subst none
    simp
  · rw [tokens_append_slash pointer slash, tokens_written plain]

theorem legible_toString (index : Nat) : Legible (toString index) := by
  refine ⟨?_, hasEscape_of_not_mem fun mem => absurd (isDigit_of_mem_toString mem) (by decide)⟩
  intro empty
  have chars := congrArg String.toList empty
  rw [Nat.toString_eq_ofList_toDigits, String.toList_ofList] at chars
  exact Nat.toDigits_ne_nil chars

/-- A row of legible tokens leads from one value to another inside it. -/
structure Leads (root : Json) (row : List String) (value : Json) : Prop where
  found : descend root row = .ok value
  legible : ∀ token ∈ row, Legible token

namespace Leads

variable {root value node : Json} {row more : List String}

theorem here (value : Json) : Leads value [] value :=
  ⟨rfl, nofun⟩

theorem trans (first : Leads root row value) (second : Leads value more node) :
    Leads root (row ++ more) node := by
  refine ⟨?_, List.forall_mem_append.mpr ⟨first.legible, second.legible⟩⟩
  rw [descend_append, first.found]
  exact second.found

theorem member {members : Members} {key : String} (has : Members.get? members key = some value)
    (legible : Legible key) : Leads (.obj members) [key] value := by
  refine ⟨?_, List.forall_mem_singleton.mpr legible⟩
  rw [descend_cons, child_member has]
  rfl

theorem element {elements : List Json} {index : Nat} (has : elements[index]? = some value) :
    Leads (.arr elements) [toString index] value := by
  refine ⟨?_, List.forall_mem_singleton.mpr (legible_toString index)⟩
  rw [descend_cons, child_element has]
  rfl

theorem plain (h : Leads root row value) : ∀ token ∈ row, hasEscape token.toList = false :=
  fun token mem => (h.legible token mem).2

/-- The path that grows along the row ends in the pointer that writes it. -/
theorem join_eq (h : Leads root row value) {path : String} (ne : path ≠ "") :
    join path row = path ++ written row :=
  join_eq_append_written ne fun token mem => (h.legible token mem).1

end Leads

end Pointer

theorem resolvePointer_eq_ok {root value : Json} {pointer place : String} (h : IsPointer pointer) :
    resolvePointer root pointer place = .ok value ↔
      Pointer.descend root (Pointer.tokens pointer) = .ok value := by
  obtain rfl | slash := h
  · have none : Pointer.tokens "" = [] := by decide +kernel
    rw [none]
    simp [resolvePointer]
  · rw [resolvePointer_of_slash slash, Pointer.walk]
    cases Pointer.descend root (Pointer.tokens pointer) <;> simp [Except.mapError]

/-- A pointer that is gone on with denotes what lies there. -/
theorem Pointer.Leads.resolves {root value node : Json} {pointer place : String} {row : List String}
    (h : Pointer.Leads value row node) (start : IsPointer pointer)
    (denotes : resolvePointer root pointer place = .ok value) (place' : String) :
    resolvePointer root (pointer ++ Pointer.written row) place' = .ok node := by
  rw [resolvePointer_eq_ok start] at denotes
  rw [resolvePointer_eq_ok (start.append (isPointer_written row)), Pointer.tokens_append _ h.plain,
    Pointer.descend_append, denotes]
  exact h.found

namespace Json

/-- All names of members in the value are legible. -/
def LegibleNames (value : Json) : Prop :=
  value.Throughout fun members => ∀ name ∈ Members.keys members, Pointer.Legible name

instance (value : Json) : Decidable value.LegibleNames :=
  inferInstanceAs (Decidable (value.Throughout _))

/-- Everything in the value is known by the names and numbers on the way to it. -/
structure Addressable (value : Json) : Prop where
  distinct : value.Distinct
  legible : value.LegibleNames

namespace Addressable

variable {members : Members} {elements : List Json} {key : String} {value : Json}

theorem get? (h : (Json.obj members).Addressable) (has : Members.get? members key = some value) :
    value.Addressable :=
  ⟨h.distinct.2.get? has, Throughout.member h.legible (Members.mem_of_get? has)⟩

theorem getElem? (h : (Json.arr elements).Addressable) {index : Nat}
    (has : elements[index]? = some value) : value.Addressable :=
  ⟨DistinctElements.getElem? h.distinct has,
    Throughout.element h.legible (List.mem_of_getElem? has)⟩

theorem has_of_mem (h : (Json.obj members).Addressable) (mem : (key, value) ∈ members) :
    Members.get? members key = some value :=
  Members.get?_of_mem h.distinct.1 mem

theorem leads_member (h : (Json.obj members).Addressable)
    (has : Members.get? members key = some value) : Pointer.Leads (.obj members) [key] value :=
  .member has (Throughout.own h.legible key (Members.mem_keys_of_get? has))

theorem descend {root : Json} {row : List String} (h : root.Addressable)
    (found : Pointer.descend root row = .ok value) : value.Addressable := by
  induction row generalizing root with
  | nil =>
      cases found
      exact h
  | cons token rest ih =>
      rw [Pointer.descend_cons] at found
      obtain ⟨inner, child, found⟩ := except_bind_eq_ok.mp found
      refine ih ?_ found
      unfold Pointer.child at child
      split at child
      · split at child
        · rename_i has
          rw [← Except.ok.inj child]
          exact h.get? has
        · cases child
      · split at child
        · cases child
        · split at child
          · rename_i has
            obtain ⟨index, -, has⟩ := Option.bind_eq_some_iff.mp has
            rw [← Except.ok.inj child]
            exact h.getElem? has
          · cases child
      · cases child

end Addressable

end Json

end SchemaForms
