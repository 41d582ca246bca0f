import SchemaForms.Overlay
import SchemaForms.Proofs.Pointer.Written
import SchemaForms.Proofs.Session.Effect

/-!
# Overlay paths and reference pointers

The path of an override and the pointer of a reference are followed by two procedures of their own.
They agree: a path that is a pointer, once blanks and a leading `#` are taken from it, means the
object that a reference would find at this pointer. Where a reference finds nothing or something that
is no object, an override fails, and its error is at the path as it was written. Only a token that is
too long for an index stops both of them with an error that tells no path.

Only the single slash means something else: to an override it is the root, and to a reference the
member with the empty name.
-/

namespace SchemaForms.Overlay

open Pointer.Sample (beyond stripped_beyond slash_beyond ne_slash_beyond walk_beyond)

variable {root : Json} {path pointer : String}

/-- What an override makes of a lookup that fails. -/
def TargetFault.ofLookup : Pointer.LookupFault → TargetFault
  | .digits fault => .digits fault
  | _ => .overlay .pathNotFound

/-- What an override makes of a value that is found. -/
def asObject : Json → Except TargetFault Members
  | .obj members => .ok members
  | _ => .error (.overlay .targetNotObject)

/-- An override finds the object that is found along its tokens, step by step. -/
theorem find_eq_descend (tokens : List String) (root : Json) :
    find tokens root =
      ((Pointer.descend root tokens).mapError TargetFault.ofLookup).bind asObject := by
  induction tokens generalizing root with
  | nil => cases root <;> rfl
  | cons token rest ih =>
      rw [Pointer.descend_cons]
      cases root with
      | obj members =>
          rw [find, Pointer.child]
          cases Members.get? members token with
          | none => rfl
          | some value => exact ih value
      | arr elements =>
          rw [find, Pointer.child]
          cases Pointer.index token elements.length with
          | error fault => rfl
          | ok number =>
              dsimp only
              cases number.bind (elements[·]?) with
              | none => rfl
              | some value => exact ih value
      | _ => rfl

/-- The tokens of a path that is a pointer, blanks and a leading `#` aside. -/
theorem pathTokens_of_slash (stripped : Text.dropLeading '#' (Text.trim path) = pointer)
    (slash : Text.startsWith '/' pointer = true) (longer : pointer ≠ "/") :
    pathTokens path = .ok (Pointer.tokens pointer) := by
  have ne : pointer ≠ "" := by
    rintro rfl
    cases slash
  simp [pathTokens, stripped, slash, ne, longer]

/-- The object of a path is what a reference finds at the pointer that the path is. -/
theorem target_eq_resolvePointer (stripped : Text.dropLeading '#' (Text.trim path) = pointer)
    (slash : Text.startsWith '/' pointer = true) (longer : pointer ≠ "/") (root : Json)
    (place : String) :
    target root path =
      match resolvePointer root pointer place with
      | .ok (.obj members) => .ok members
      | .ok _ => .error (error .targetNotObject path)
      | .error (.digits fault) => .error (.digits fault)
      | .error _ => .error (error .pathNotFound path) := by
  rw [target, pathTokens_of_slash stripped slash longer, resolvePointer_of_slash slash,
    Pointer.walk]
  simp only [find_eq_descend]
  cases Pointer.descend root (Pointer.tokens pointer) with
  | error fault => cases fault <;> rfl
  | ok value => cases value <;> rfl

/-- An override's path means the object that a reference finds at the same pointer. Where a
reference finds no object, the path is at fault, unless one of its tokens is too long for an index. -/
theorem target_agrees (stripped : Text.dropLeading '#' (Text.trim path) = pointer)
    (slash : Text.startsWith '/' pointer = true) (longer : pointer ≠ "/") (root : Json)
    (place : String) :
    (∀ members, target root path = .ok members ↔
        resolvePointer root pointer place = .ok (.obj members)) ∧
      ((∀ members, resolvePointer root pointer place ≠ .ok (.obj members)) →
        (∃ fault, target root path = .error (error fault path)) ∨
          (∃ fault, target root path = .error (.digits fault)) ∧ Pointer.HasOverlong pointer) := by
  rw [target_eq_resolvePointer stripped slash longer root place]
  cases found : resolvePointer root pointer place with
  | error failure =>
      refine ⟨?_, fun _ => ?_⟩
      · intro members
        cases failure <;> simp
      · obtain ⟨fault, -, rfl⟩ | ⟨⟨fault, rfl⟩, long⟩ := resolvePointer_error found
        · exact .inl ⟨.pathNotFound, rfl⟩
        · exact .inr ⟨⟨fault, rfl⟩, long⟩
  | ok value =>
      cases value with
      | obj members => exact ⟨by simp, fun none => absurd rfl (none members)⟩
      | _ => exact ⟨by simp, fun _ => .inl ⟨.targetNotObject, rfl⟩⟩

namespace Sample

/-- A tree whose element of number one is an object, while the one of number zero is none. -/
def pages : Json :=
  .obj [("a/b", .arr [.null, .obj [("type", .str "string")]])]

/-- A path with too many digits in it means nothing, and the error does not tell the path. -/
theorem target_beyond {count : Nat} (many : Text.digitLimit < count) :
    target (.obj Pointer.Sample.empty) (beyond count) =
      .error (.digits (.read count)) := by
  have walked := walk_beyond many []
  rw [List.append_nil] at walked
  rw [target_eq_resolvePointer (stripped_beyond count) (slash_beyond count) (ne_slash_beyond count)
    _ "", resolvePointer_of_slash (slash_beyond count), walked]
  rfl

end Sample

/-- Blanks, the `#` and zeros in front of an index make no difference, and an element that is no
object is not found by its index. -/
theorem target_agrees_sample :
    target Sample.pages " #/a~1b/01 " = .ok [("type", .str "string")] ∧
      resolvePointer Sample.pages "/a~1b/01" "" = .ok (.obj [("type", .str "string")]) ∧
      resolvePointer Sample.pages "/a~1b/0" "" = .ok .null ∧
      ∃ fault, target Sample.pages "/a~1b/0" = .error (error fault "/a~1b/0") := by
  have found : resolvePointer Sample.pages "/a~1b/01" "" =
      .ok (.obj [("type", .str "string")]) := eq_ok_of_toOption (by decide +kernel)
  have other : resolvePointer Sample.pages "/a~1b/0" "" = .ok .null :=
    eq_ok_of_toOption (by decide +kernel)
  have stripped : Text.dropLeading '#' (Text.trim " #/a~1b/01 ") = "/a~1b/01" := by
    decide +kernel
  have bare : Text.dropLeading '#' (Text.trim "/a~1b/0") = "/a~1b/0" := by decide +kernel
  have short : ¬ Pointer.HasOverlong "/a~1b/0" := by decide +kernel
  have agrees := (target_agrees stripped (by decide) (by decide) Sample.pages "").1
  have fails := (target_agrees bare (by decide) (by decide) Sample.pages "").2
  refine ⟨(agrees _).mpr found, found, other, ?_⟩
  obtain fault | ⟨-, long⟩ := fails fun members same => by cases other.symm.trans same
  · exact fault
  · exact absurd long short

/-- A path to an element whose number has five thousand digits is a pointer, and the array there has no
elements. The error does not tell the path. -/
theorem target_overlong :
    Text.dropLeading '#' (Text.trim (beyond 5000)) = beyond 5000 ∧
      Text.startsWith '/' (beyond 5000) = true ∧
      beyond 5000 ≠ "/" ∧
      target (.obj Pointer.Sample.empty) (beyond 5000) =
        .error (.digits (.read 5000)) ∧
      ∀ fault, target (.obj Pointer.Sample.empty) (beyond 5000) ≠
        .error (error fault (beyond 5000)) := by
  have many : Text.digitLimit < 5000 := by decide
  have fails := Sample.target_beyond many
  refine ⟨stripped_beyond _, slash_beyond _, ne_slash_beyond _, fails, ?_⟩
  intro fault same
  cases fails.symm.trans same

end SchemaForms.Overlay
