import SchemaForms.Proofs.Pointer.Written
import SchemaForms.Proofs.Session.Targets

/-!
# Anchors denote the objects that declare them

A reference by an anchor is followed in two steps: the anchor's path is looked up in the table of
the document, and the value at that path is found again in the document. `Anchors.Reached` says
where an object lies apart from both, by the names and indices on the way to it, so that the paths
of the table can be held against it.

The way back works if all names on the way are `Pointer.Legible`. The path of an object leaves empty
names out, and reading a path decodes the percent escapes that writing it has left as they are. So
below other names an anchor may denote another value, or none.
-/

namespace SchemaForms

namespace Anchors

/-- The value lies in another one at the end of a row of names and indices, none of the names being
that of a vendor extension. -/
inductive Reached : Json → List String → Json → Prop
  | here (value : Json) : Reached value [] value
  | member {members : Members} {key : String} {row : List String} {value node : Json}
      (has : Members.get? members key = some value)
      (ordinary : Dialect.isVendorExtension key = false) (below : Reached value row node) :
      Reached (.obj members) (key :: row) node
  | element {elements : List Json} {index : Nat} {row : List String} {value node : Json}
      (has : elements[index]? = some value) (below : Reached value row node) :
      Reached (.arr elements) (toString index :: row) node

theorem Reached.descend {root node : Json} {row : List String} (h : Reached root row node) :
    Pointer.descend root row = .ok node := by
  induction h with
  | here => rfl
  | member has _ _ ih => rw [Pointer.descend_cons, Pointer.child_member has, Except.bind, ih]
  | element has _ ih => rw [Pointer.descend_cons, Pointer.child_element has, Except.bind, ih]

theorem mem_declaredMembers {members : Members} {key path : String} {value : Json}
    {anchor : String × String} (has : Members.get? members key = some value)
    (ordinary : Dialect.isVendorExtension key = false)
    (h : anchor ∈ declared (Pointer.join path [key]) value) :
    anchor ∈ declaredMembers path members := by
  induction members with
  | nil => cases has
  | cons member rest ih =>
      obtain ⟨name, other⟩ := member
      rw [declaredMembers, List.mem_append]
      rw [Members.get?_cons] at has
      split at has
      · rename_i same
        obtain rfl := Option.some.inj has
        exact .inl (by simpa [same, ordinary] using h)
      · exact .inr (ih has)

theorem mem_declaredElements {elements : List Json} (index : Nat) {start : Nat} {path : String}
    {value : Json} {anchor : String × String} (has : elements[index]? = some value)
    (h : anchor ∈ declared (Pointer.join path [toString (start + index)]) value) :
    anchor ∈ declaredElements path start elements := by
  induction elements generalizing index start with
  | nil => simp at has
  | cons head rest ih =>
      rw [declaredElements, List.mem_append]
      cases index with
      | zero =>
          obtain rfl : head = value := by simpa using has
          exact .inl h
      | succ index =>
          refine .inr (ih index (by simpa using has) ?_)
          rwa [Nat.add_assoc, Nat.add_comm 1 index]

/-- An object with an anchor is in the table, with the path that leads to it. -/
theorem Reached.mem_declared {root : Json} {members : Members} {row : List String} {name : String}
    (h : Reached root row (.obj members)) (own : own? members = some name) {path : String}
    (ne : path ≠ "") : (name, Pointer.join path row) ∈ declared path root := by
  generalize node : Json.obj members = value at h
  induction h generalizing path with
  | here =>
      subst node
      simp [declared, own, Pointer.join, ne]
  | member has ordinary _ ih =>
      rw [Pointer.join_cons ne, declared, List.mem_append]
      exact .inr (mem_declaredMembers has ordinary (ih (join_ne_empty ne _) node))
  | @element elements index row _ _ has _ ih =>
      rw [Pointer.join_cons ne, declared]
      apply mem_declaredElements _ has
      rw [Nat.zero_add]
      exact ih (join_ne_empty ne _) node

end Anchors

theorem dropLeading_of_not_startsWith {c : Char} {text : String}
    (h : Text.startsWith c text = false) : Text.dropLeading c text = text := by
  unfold Text.startsWith at h
  unfold Text.dropLeading
  split
  · rename_i head rest chars
    rw [if_neg]
    simpa [chars] using h
  · rfl

/-- An anchor denotes the object that declares it, at the path that leads there, if the names on the
way are legible. -/
theorem Entry.fragment_of_declared {entry : Entry} {location : String}
    (indexed : Anchors.index (.obj entry.data) location "#" = .ok entry.anchors)
    {row : List String} {members : Members}
    (reached : Anchors.Reached (.obj entry.data) row (.obj members)) {text : String}
    (declares : Members.get? members "$anchor" = some (.str text))
    (named : Text.trim text ≠ "") (slash : Text.startsWith '/' (Text.trim text) = false)
    (hash : Text.startsWith '#' (Text.trim text) = false)
    (legible : ∀ token ∈ row, Pointer.Legible token)
    (place : String) :
    entry.fragment (Text.trim text) place = .ok (Pointer.join "#" row, .obj members) := by
  have own : Anchors.own? members = some (Text.trim text) := by simp [Anchors.own?, declares, named]
  obtain ⟨nodup, table⟩ := Anchors.index_eq_ok.mp indexed
  have found : entry.anchors.find? (Text.trim text) = some (Pointer.join "#" row) := by
    rw [table]
    exact Anchors.find?_of_mem nodup (reached.mem_declared own (by decide))
  have path : Pointer.join "#" row = "#" ++ Pointer.written row :=
    Pointer.join_eq_append_written (by decide) fun token mem => (legible token mem).1
  have back : resolvePointer (.obj entry.data) (Pointer.written row) place = .ok (.obj members) :=
    resolvePointer_written place (fun token mem => (legible token mem).2) reached.descend
  rw [path] at found ⊢
  simp only [Entry.fragment, dropLeading_of_not_startsWith hash, if_neg named, slash, found,
    dropLeading_hash, Bool.false_eq_true, if_false]
  split
  · rename_i here
    rw [here] at back ⊢
    exact congrArg (Except.map _) back
  · rw [back]
    rfl

/-- The name before the object has a slash and a tilde in it, and the object is the second of an
array. -/
theorem Entry.fragment_of_declared_sample :
    let node : Members := [("$anchor", .str " a "), ("type", .str "string")]
    let entry : Entry := ⟨⟨"fs:r.json", "r.json", "."⟩, .fs,
      [("a/~b", .arr [.null, .obj node])], [("a", "#/a~1~0b/1")]⟩
    entry.fragment "a" "" = .ok ("#/a~1~0b/1", .obj node) := by
  intro node entry
  have second : [Json.null, .obj node][1]? = some (.obj node) := rfl
  have inside : Anchors.Reached (.arr [.null, .obj node]) ["1"] (.obj node) :=
    .element second (.here _)
  have reached : Anchors.Reached (.obj entry.data) ["a/~b", "1"] (.obj node) :=
    .member rfl (by decide) inside
  have indexed : Anchors.index (.obj entry.data) "r.json" "#" = .ok entry.anchors :=
    eq_ok_of_toOption (by decide +kernel)
  have declares : Members.get? node "$anchor" = some (.str " a ") := rfl
  exact entry.fragment_of_declared indexed reached declares (by decide) (by decide) (by decide)
    (by decide) ""

/-- Below the empty name, and below one that a percent escape begins in, an anchor denotes another
value than the object that declares it. -/
theorem Entry.fragment_below_illegible :
    let node : Members := [("$anchor", .str "a")]
    let entry (name path : String) : Entry := ⟨⟨"fs:r.json", "r.json", "."⟩, .fs,
      [("$defs", .obj [(name, .obj node), ("A", .null)])], [("a", path)]⟩
    let misses (name path : String) (other : Json) : Prop :=
      Anchors.index (.obj (entry name path).data) "r.json" "#" = .ok (entry name path).anchors ∧
        Anchors.Reached (.obj (entry name path).data) ["$defs", name] (.obj node) ∧
        (entry name path).fragment "a" "" = .ok (path, other) ∧ other ≠ .obj node
    misses "" "#/$defs" (.obj [("", .obj node), ("A", .null)]) ∧
      misses "%41" "#/$defs/%41" .null := by
  intro node entry misses
  have reached (name path : String) (ordinary : Dialect.isVendorExtension name = false) :
      Anchors.Reached (.obj (entry name path).data) ["$defs", name] (.obj node) :=
    .member rfl (by decide) (.member (if_pos rfl) ordinary (.here _))
  refine ⟨⟨?_, reached _ _ (by decide), ?_, by decide⟩, ?_, reached _ _ (by decide), ?_, by decide⟩
  all_goals exact eq_ok_of_toOption (by decide +kernel)

end SchemaForms
