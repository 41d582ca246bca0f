import Mathlib.Data.List.Nodup
import SchemaForms.Proofs.Json.Distinct
import SchemaForms.Proofs.Pointer.Positions
import SchemaForms.Proofs.Session.Declared

/-!
# The bearers of anchors

The table of a document's anchors is put together on one walk through the document, and that walk
stops at the first name that comes again. `Anchors.Bears` says which object bears which name apart
from any walk, by the row that leads to the object. The table has just the names that are borne, each
once, and there is none if and only if two objects bear one name.

Between the two stands `Anchors.bearers`, the list of all objects that bear a name, with their rows.
What is declared is this list without the rows, and no row is in it twice.
-/

namespace SchemaForms.Anchors

/-- The object at the end of the row bears the name: its `$anchor` is a string, of which the name is
what is left without blanks at both ends. -/
def Bears (value : Json) (row : List String) (name : String) : Prop :=
  ∃ members text, Reached value row (.obj members) ∧
    Members.get? members "$anchor" = some (.str text) ∧ Text.trim text = name ∧ name ≠ ""

/-- Two objects bear the name. -/
def Shared (value : Json) (name : String) : Prop :=
  ∃ row other, row ≠ other ∧ Bears value row name ∧ Bears value other name

/-- Objects that bear names below a token, as seen from in front of it. -/
def behind (token : String) (inner : List (List String × String)) : List (List String × String) :=
  inner.map fun bearer => (token :: bearer.1, bearer.2)

mutual

/-- The rows of the objects that bear a name, with the names. -/
def bearers : Json → List (List String × String)
  | .obj members => ((own? members).toList.map fun name => ([], name)) ++ bearersOfMembers members
  | .arr elements => bearersOfElements 0 elements
  | _ => []

/-- The rows and names in the elements of an array, the first of which has the given index. -/
def bearersOfElements (index : Nat) : List Json → List (List String × String)
  | [] => []
  | value :: rest => behind (toString index) (bearers value) ++ bearersOfElements (index + 1) rest

/-- The rows and names in the members of an object. -/
def bearersOfMembers : List (String × Json) → List (List String × String)
  | [] => []
  | (key, value) :: rest =>
    (if Dialect.isVendorExtension key then [] else behind key (bearers value)) ++
      bearersOfMembers rest

end

section Bears

variable {members : Members} {elements : List Json} {value : Json} {row : List String}
variable {name : String}

theorem own?_eq_some : own? members = some name ↔
    ∃ text, Members.get? members "$anchor" = some (.str text) ∧ Text.trim text = name ∧
      name ≠ "" := by
  unfold own?
  split
  · rename_i text has
    simp only [has, Option.some.injEq, Json.str.injEq, exists_eq_left']
    split
    · rename_i blank
      simp only [blank, reduceCtorEq, false_iff, not_and, not_not]
      exact Eq.symm
    · rename_i named
      simp only [Option.some.injEq]
      exact ⟨fun same => ⟨same, same ▸ named⟩, And.left⟩
  · rename_i other
    simp only [reduceCtorEq, false_iff]
    rintro ⟨text, has, -⟩
    exact other text has

/-- A name inside an object is borne by the object itself, or inside a member that is not a vendor
extension. -/
theorem bears_obj : Bears (.obj members) row name ↔ row = [] ∧ own? members = some name ∨
    ∃ key below value, row = key :: below ∧ Members.get? members key = some value ∧
      Dialect.isVendorExtension key = false ∧ Bears value below name := by
  constructor
  · rintro ⟨inner, text, reached, bears⟩
    cases reached with
    | here => exact .inl ⟨rfl, own?_eq_some.mpr ⟨text, bears⟩⟩
    | member has ordinary below =>
        exact .inr ⟨_, _, _, rfl, has, ordinary, inner, text, below, bears⟩
  · rintro (⟨rfl, own⟩ | ⟨key, below, value, rfl, has, ordinary, inner, text, reached, bears⟩)
    · obtain ⟨text, bears⟩ := own?_eq_some.mp own
      exact ⟨members, text, .here _, bears⟩
    · exact ⟨inner, text, .member has ordinary reached, bears⟩

/-- A name inside an array is borne inside one of its elements. -/
theorem bears_arr : Bears (.arr elements) row name ↔
    ∃ (index : Nat) (below : List String) (value : Json), row = toString index :: below ∧
      elements[index]? = some value ∧ Bears value below name := by
  constructor
  · rintro ⟨inner, text, reached, bears⟩
    cases reached with
    | element has below => exact ⟨_, _, _, rfl, has, inner, text, below, bears⟩
  · rintro ⟨index, below, value, rfl, has, inner, text, reached, bears⟩
    exact ⟨inner, text, .element has reached, bears⟩

theorem mem_behind {token : String} {inner : List (List String × String)} :
    (row, name) ∈ behind token inner ↔ ∃ below, row = token :: below ∧ (below, name) ∈ inner := by
  simp only [behind, List.mem_map, Prod.mk.injEq, Prod.exists]
  constructor
  · rintro ⟨below, _, mem, rfl, rfl⟩
    exact ⟨below, rfl, mem⟩
  · rintro ⟨below, rfl, mem⟩
    exact ⟨below, name, mem, rfl, rfl⟩

end Bears

mutual

theorem mem_bearers : ∀ {value : Json}, value.Distinct → ∀ {row : List String} {name : String},
    (row, name) ∈ bearers value ↔ Bears value row name
  | .obj members, distinct, row, name => by
      have own : (row, name) ∈ (own? members).toList.map (fun name => (([] : List String), name)) ↔
          row = [] ∧ own? members = some name := by
        cases own? members <;> simp [eq_comm]
      rw [bearers, List.mem_append, mem_bearersOfMembers distinct.1 distinct.2, bears_obj, own]
  | .arr elements, distinct, row, name => by
      rw [bearers, mem_bearersOfElements distinct, bears_arr]
      simp only [Nat.zero_add]
  | .null, _, _, _ | .bool _, _, _, _ | .int _, _, _, _ | .double _, _, _, _ | .str _, _, _, _ => by
      refine iff_of_false List.not_mem_nil ?_
      rintro ⟨inner, text, reached, -⟩
      cases reached

theorem mem_bearersOfElements : ∀ {elements : List Json}, Json.DistinctElements elements →
    ∀ {start : Nat} {row : List String} {name : String},
      (row, name) ∈ bearersOfElements start elements ↔
        ∃ index below value, row = toString (start + index) :: below ∧
          elements[index]? = some value ∧ Bears value below name
  | [], _, _, _, _ => by simp [bearersOfElements]
  | value :: rest, distinct, start, row, name => by
      rw [bearersOfElements, List.mem_append, mem_behind, mem_bearersOfElements distinct.2]
      simp only [mem_bearers distinct.1]
      constructor
      · rintro (⟨below, rfl, bears⟩ | ⟨index, below, inner, rfl, has, bears⟩)
        · exact ⟨0, below, value, rfl, rfl, bears⟩
        · exact ⟨index + 1, below, inner, by rw [Nat.add_right_comm]; rfl, has, bears⟩
      · rintro ⟨index, below, inner, rfl, has, bears⟩
        cases index with
        | zero =>
            cases has
            exact .inl ⟨below, rfl, bears⟩
        | succ index =>
            exact .inr ⟨index, below, inner, by rw [Nat.add_right_comm]; rfl, has, bears⟩

theorem mem_bearersOfMembers : ∀ {members : List (String × Json)}, (Members.keys members).Nodup →
    Json.DistinctMembers members → ∀ {row : List String} {name : String},
      (row, name) ∈ bearersOfMembers members ↔
        ∃ key below value, row = key :: below ∧ Members.get? members key = some value ∧
          Dialect.isVendorExtension key = false ∧ Bears value below name
  | [], _, _, _, _ => by simp [bearersOfMembers]
  | (key, value) :: rest, names, distinct, row, name => by
      obtain ⟨fresh, names⟩ := List.nodup_cons.mp names
      rw [bearersOfMembers, List.mem_append, mem_bearersOfMembers names distinct.2]
      constructor
      · rintro (first | ⟨other, below, inner, rfl, has, ordinary, bears⟩)
        · split at first
          · cases first
          · rename_i ordinary
            obtain ⟨below, rfl, mem⟩ := mem_behind.mp first
            exact ⟨key, below, value, rfl, if_pos rfl, by simpa using ordinary,
              (mem_bearers distinct.1).mp mem⟩
        · have ne : key ≠ other := by
            rintro rfl
            exact fresh (Members.mem_keys_of_get? has)
          exact ⟨other, below, inner, rfl, by rw [Members.get?_cons, if_neg ne, has], ordinary,
            bears⟩
      · rintro ⟨other, below, inner, rfl, has, ordinary, bears⟩
        rw [Members.get?_cons] at has
        split at has
        · rename_i same
          obtain rfl := Option.some.inj has
          subst same
          rw [if_neg (by simp [ordinary]), mem_behind]
          exact .inl ⟨below, rfl, (mem_bearers distinct.1).mpr bears⟩
        · exact .inr ⟨other, below, inner, rfl, has, ordinary, bears⟩

end

section Nodup

variable {inner others : List (List String × String)} {token : String}

theorem nodup_behind (distinct : (inner.map (·.1)).Nodup) :
    ((behind token inner).map (·.1)).Nodup := by
  have rows : (behind token inner).map (·.1) = (inner.map (·.1)).map (token :: ·) := by
    simp [behind]
  rw [rows]
  exact distinct.map fun _ _ same => (List.cons.inj same).2

/-- No row goes both behind a token and on from another one. -/
theorem disjoint_behind (apart : ∀ bearer ∈ others, ∃ first below,
    bearer.1 = first :: below ∧ first ≠ token) :
    ((behind token inner).map (·.1)).Disjoint (others.map (·.1)) := by
  intro row first second
  obtain ⟨⟨_, _⟩, mem, rfl⟩ := List.mem_map.mp first
  obtain ⟨below, rfl, -⟩ := mem_behind.mp mem
  obtain ⟨other, mem', same⟩ := List.mem_map.mp second
  obtain ⟨first', below', eq, ne⟩ := apart other mem'
  exact ne (List.cons.inj (eq.symm.trans same)).1

end Nodup

mutual

theorem nodup_bearers : ∀ {value : Json}, value.Distinct → ((bearers value).map (·.1)).Nodup
  | .obj members, distinct => by
      rw [bearers, List.map_append]
      refine List.Nodup.append ?_ (nodup_bearersOfMembers distinct.1 distinct.2) ?_
      · cases own? members <;> simp
      · intro row first second
        obtain ⟨⟨_, _⟩, mem, rfl⟩ := List.mem_map.mp second
        obtain ⟨key, below, -, rfl, -⟩ := (mem_bearersOfMembers distinct.1 distinct.2).mp mem
        simp at first
  | .arr elements, distinct => nodup_bearersOfElements distinct 0
  | .null, _ | .bool _, _ | .int _, _ | .double _, _ | .str _, _ => List.nodup_nil

theorem nodup_bearersOfElements : ∀ {elements : List Json}, Json.DistinctElements elements →
    ∀ start, ((bearersOfElements start elements).map (·.1)).Nodup
  | [], _, _ => List.nodup_nil
  | value :: rest, distinct, start => by
      rw [bearersOfElements, List.map_append]
      refine (nodup_behind (nodup_bearers distinct.1)).append
        (nodup_bearersOfElements distinct.2 (start + 1)) (disjoint_behind ?_)
      rintro ⟨_, _⟩ mem
      obtain ⟨index, below, -, rfl, -⟩ := (mem_bearersOfElements distinct.2).mp mem
      refine ⟨_, below, rfl, fun same => ?_⟩
      have numbers := congrArg Pointer.number? same
      rw [Pointer.number?_toString, Pointer.number?_toString, Option.some.injEq] at numbers
      omega

theorem nodup_bearersOfMembers : ∀ {members : List (String × Json)},
    (Members.keys members).Nodup → Json.DistinctMembers members →
      ((bearersOfMembers members).map (·.1)).Nodup
  | [], _, _ => List.nodup_nil
  | (key, value) :: rest, names, distinct => by
      obtain ⟨fresh, names⟩ := List.nodup_cons.mp names
      have others := nodup_bearersOfMembers names distinct.2
      rw [bearersOfMembers]
      split
      · exact others
      · rw [List.map_append]
        refine (nodup_behind (nodup_bearers distinct.1)).append others (disjoint_behind ?_)
        rintro ⟨_, _⟩ mem
        obtain ⟨other, below, _, rfl, has, -⟩ := (mem_bearersOfMembers names distinct.2).mp mem
        refine ⟨other, below, rfl, ?_⟩
        rintro rfl
        exact fresh (Members.mem_keys_of_get? has)

end

/-- The anchor of an object, as the table has it: the name, and the path that leads there. -/
def anchorAt (path : String) (bearer : List String × String) : String × String :=
  (bearer.2, Pointer.join path bearer.1)

theorem anchorAt_behind {path : String} (ne : path ≠ "") (token : String)
    (inner : List (List String × String)) :
    (behind token inner).map (anchorAt path) =
      inner.map (anchorAt (Pointer.join path [token])) := by
  rw [behind, List.map_map]
  refine List.map_congr_left fun bearer _ => ?_
  rw [Function.comp_apply, anchorAt, anchorAt, Pointer.join_cons ne]

mutual

/-- What is declared are the names of the objects that bear one, at the paths that lead to them. -/
theorem declared_eq : ∀ (value : Json) {path : String}, path ≠ "" →
    declared path value = (bearers value).map (anchorAt path)
  | .obj members, path, ne => by
      rw [declared, bearers, List.map_append, declaredMembers_eq members ne]
      cases own? members <;> simp [anchorAt, Pointer.join, ne]
  | .arr elements, path, ne => declaredElements_eq elements 0 ne
  | .null, _, _ | .bool _, _, _ | .int _, _, _ | .double _, _, _ | .str _, _, _ => rfl

theorem declaredElements_eq : ∀ (elements : List Json) (index : Nat) {path : String}, path ≠ "" →
    declaredElements path index elements =
      (bearersOfElements index elements).map (anchorAt path)
  | [], _, _, _ => rfl
  | value :: rest, index, path, ne => by
      rw [declaredElements, bearersOfElements, List.map_append, anchorAt_behind ne,
        declared_eq value (join_ne_empty ne _), declaredElements_eq rest (index + 1) ne]

theorem declaredMembers_eq : ∀ (members : List (String × Json)) {path : String}, path ≠ "" →
    declaredMembers path members = (bearersOfMembers members).map (anchorAt path)
  | [], _, _ => rfl
  | (key, value) :: rest, path, ne => by
      rw [declaredMembers, bearersOfMembers, List.map_append, declaredMembers_eq rest ne]
      split
      · rfl
      · rw [anchorAt_behind ne, declared_eq value (join_ne_empty ne _)]

end

section Declared

variable {value : Json} {name location path place : String}

/-- An object's name is declared at the path that leads to the object, and no other is. -/
theorem mem_declared_iff (distinct : value.Distinct) (ne : path ≠ "") {anchor : String × String} :
    anchor ∈ declared path value ↔
      ∃ row, Bears value row anchor.1 ∧ anchor.2 = Pointer.join path row := by
  rw [declared_eq value ne, List.mem_map]
  constructor
  · rintro ⟨⟨row, name⟩, mem, rfl⟩
    exact ⟨row, (mem_bearers distinct).mp mem, rfl⟩
  · rintro ⟨row, bears, same⟩
    exact ⟨(row, anchor.1), (mem_bearers distinct).mpr bears, Prod.ext rfl same.symm⟩

theorem mem_names_declared_iff (distinct : value.Distinct) (ne : path ≠ "") :
    name ∈ (declared path value).map (·.1) ↔ ∃ row, Bears value row name := by
  rw [List.mem_map]
  constructor
  · rintro ⟨anchor, mem, rfl⟩
    obtain ⟨row, bears, -⟩ := (mem_declared_iff distinct ne).mp mem
    exact ⟨row, bears⟩
  · rintro ⟨row, bears⟩
    exact ⟨(name, Pointer.join path row), (mem_declared_iff distinct ne).mpr ⟨row, bears, rfl⟩, rfl⟩

/-- No name is declared twice just if no two objects share one. -/
theorem nodup_declared_iff (distinct : value.Distinct) (ne : path ≠ "") :
    ((declared path value).map (·.1)).Nodup ↔ ∀ name, ¬ Shared value name := by
  have names : (declared path value).map (·.1) = (bearers value).map (·.2) := by
    rw [declared_eq value ne, List.map_map]
    rfl
  rw [names, List.nodup_map_iff_inj_on (nodup_bearers distinct).of_map]
  constructor
  · rintro injective name ⟨row, other, ne, bears, bears'⟩
    have same := injective _ ((mem_bearers distinct).mpr bears) _
      ((mem_bearers distinct).mpr bears') rfl
    exact ne (Prod.mk.inj same).1
  · rintro alone ⟨row, name⟩ mem ⟨other, _⟩ mem' rfl
    by_contra apart
    refine alone name ⟨row, other, ?_, (mem_bearers distinct).mp mem,
      (mem_bearers distinct).mp mem'⟩
    rintro rfl
    exact apart rfl

/-- The first name that comes again is shared, and the path that comes with it leads to an object
that bears it. -/
theorem shared_of_firstRepeated (distinct : value.Distinct) (ne : path ≠ "")
    {again : String × String} (h : FirstRepeated (declared path value) again) :
    Shared value again.1 ∧ ∃ row, Bears value row again.1 ∧ again.2 = Pointer.join path row := by
  obtain ⟨before, after, split, -, mem⟩ := h
  rw [declared_eq value ne] at split
  obtain ⟨front, back, all, rfl, tail⟩ := List.map_eq_append_iff.mp split
  obtain ⟨⟨row, name⟩, rest, rfl, rfl, rfl⟩ := List.map_eq_cons_iff.mp tail
  have bears {bearer : List String × String} (mem : bearer ∈ front ++ (row, name) :: rest) :
      Bears value bearer.1 bearer.2 :=
    (mem_bearers distinct).mp (all ▸ mem)
  have own : Bears value row name := bears (List.mem_append_right _ List.mem_cons_self)
  rw [List.map_map, List.mem_map] at mem
  obtain ⟨other, earlier, same⟩ := mem
  have named : other.2 = name := same
  have apart : row ≠ other.1 := by
    have rows := nodup_bearers distinct
    rw [all, List.map_append, List.map_cons, List.nodup_append'] at rows
    rintro rfl
    exact rows.2.2 (List.mem_map_of_mem earlier) List.mem_cons_self
  exact ⟨⟨row, other.1, apart, own, named ▸ bears (List.mem_append_left _ earlier)⟩, row, own, rfl⟩

/-- If a name is declared twice, the first that comes again is the error. -/
theorem exists_refusal (location : String) (twice : ¬ ((declared path value).map (·.1)).Nodup) :
    ∃ again, FirstRepeated (declared path value) again ∧ index value location path =
      .error (.schema (.reference (.duplicateAnchor again.1)) (location ++ again.2)) := by
  obtain ⟨again, first⟩ := exists_firstRepeated twice
  exact ⟨again, first, index_eq_error first⟩

/-- The error names a name that is shared, and leads to an object that bears it. -/
theorem shared_of_index_eq_error (distinct : value.Distinct) (ne : path ≠ "")
    (failed : index value location path =
      .error (.schema (.reference (.duplicateAnchor name)) place)) :
    Shared value name ∧ ∃ row, Bears value row name ∧ place = location ++ Pointer.join path row := by
  have twice : ¬ ((declared path value).map (·.1)).Nodup := by
    intro once
    rw [index_eq_ok.mpr ⟨once, rfl⟩] at failed
    cases failed
  obtain ⟨again, first, error⟩ := exists_refusal location twice
  rw [error] at failed
  simp only [Except.error.injEq, Error.schema.injEq, Fault.reference.injEq,
    ReferenceFault.duplicateAnchor.injEq] at failed
  obtain ⟨rfl, rfl⟩ := failed
  obtain ⟨shared, row, bears, leads⟩ := shared_of_firstRepeated distinct ne first
  exact ⟨shared, row, bears, by rw [leads]⟩

end Declared

/-- There is no table of the anchors of a value if and only if two objects in it, outside vendor
extensions, bear one name; the error then names such a name and leads to an object that bears it.
Otherwise the table has just the names that are borne, each once and with the path of its object. No
value that octets write has two members of one name in an object (`Json.distinct_of_ofOctets`). -/
theorem index_exact {value : Json} (distinct : value.Distinct) (location : String) :
    ((∃ name place, index value location "#" =
        .error (.schema (.reference (.duplicateAnchor name)) place)) ↔
      ∃ name, Shared value name) ∧
    (∀ name place, index value location "#" =
        .error (.schema (.reference (.duplicateAnchor name)) place) →
      Shared value name ∧ ∃ row, Bears value row name ∧ place = location ++ Pointer.join "#" row) ∧
    ((¬ ∃ name, Shared value name) →
      ∃ anchors, index value location "#" = .ok anchors ∧ (anchors.map (·.1)).Nodup ∧
        (∀ name, name ∈ anchors.map (·.1) ↔ ∃ row, Bears value row name) ∧
        ∀ anchor ∈ anchors, ∃ row, Bears value row anchor.1 ∧
          anchor.2 = Pointer.join "#" row) := by
  have root : "#" ≠ "" := by decide
  have alone := nodup_declared_iff distinct root
  refine ⟨⟨?_, ?_⟩, fun _ _ => shared_of_index_eq_error distinct root, ?_⟩
  · rintro ⟨name, place, failed⟩
    exact ⟨name, (shared_of_index_eq_error distinct root failed).1⟩
  · rintro ⟨name, shared⟩
    obtain ⟨again, -, error⟩ := exists_refusal location fun once => alone.mp once name shared
    exact ⟨_, _, error⟩
  · intro single
    have once := alone.mpr (not_exists.mp single)
    exact ⟨declared "#" value, index_eq_ok.mpr ⟨once, rfl⟩, once,
      fun _ => mem_names_declared_iff distinct root,
      fun _ mem => (mem_declared_iff distinct root).mp mem⟩

namespace Sample

/-- Two objects with an anchor: one in a member of the given name, and one in an array, with blanks
around its anchor. -/
def anchored (key : String) : Json :=
  .obj [(key, .obj [("$anchor", .str "n")]), ("oneOf", .arr [.null, .obj [("$anchor", .str " n ")]])]

theorem anchored_distinct (key : String) (ne : key ≠ "oneOf") : (anchored key).Distinct := by
  simp [anchored, Json.Distinct, Json.DistinctMembers, Json.DistinctElements, Members.keys, ne]

theorem bears_listed {key : String} (ne : key ≠ "oneOf") :
    Bears (anchored key) ["oneOf", "1"] "n" := by
  have list : Members.get? [(key, Json.obj [("$anchor", .str "n")]),
      ("oneOf", .arr [.null, .obj [("$anchor", .str " n ")]])] "oneOf" = _ := if_neg ne
  have second : [Json.null, .obj [("$anchor", .str " n ")]][1]? = _ := rfl
  exact ⟨_, " n ", .member list (by decide) (.element second (.here _)), rfl, by decide, by decide⟩

theorem bears_member {key : String} (ordinary : Dialect.isVendorExtension key = false) :
    Bears (anchored key) [key] "n" :=
  ⟨_, "n", .member (if_pos rfl) ordinary (.here _), rfl, by decide, by decide⟩

end Sample

/-- The two objects share the name, unless one of them is in a vendor extension, which may be spelled
with blanks and in either case. -/
theorem index_exact_sample :
    (∃ name place, index (Sample.anchored "items") "r" "#" =
      .error (.schema (.reference (.duplicateAnchor name)) place)) ∧
    ∃ anchors, index (Sample.anchored " X-note") "r" "#" = .ok anchors ∧
      "n" ∈ anchors.map (·.1) := by
  have twice := index_exact (Sample.anchored_distinct "items" (by decide)) "r"
  have once := index_exact (Sample.anchored_distinct " X-note" (by decide)) "r"
  have shared : Shared (Sample.anchored "items") "n" :=
    ⟨["items"], ["oneOf", "1"], by decide, Sample.bears_member (by decide),
      Sample.bears_listed (by decide)⟩
  have single : ∀ name, ¬ Shared (Sample.anchored " X-note") name :=
    (nodup_declared_iff (Sample.anchored_distinct " X-note" (by decide)) (by decide)).mp
      (show ((declared "#" _).map (·.1)).Nodup by decide +kernel)
  obtain ⟨anchors, indexed, -, names, -⟩ := once.2.2 (not_exists.mpr single)
  exact ⟨twice.1.mpr ⟨"n", shared⟩, anchors, indexed,
    (names "n").mpr ⟨_, Sample.bears_listed (by decide)⟩⟩

end SchemaForms.Anchors
