import SchemaForms.Proofs.Json.Shown
import SchemaForms.Proofs.Schema.Discriminator
import SchemaForms.Schema.Normalize

/-!
# Errors of a schema node

Each reader of keywords reports at the path of its node, and none of them reports a reference: the
only check that does is the first check of a node. An error that is no report at all comes only from
an integer: a bound that no floating point number is near, or one with too many digits among types
that are to be shown. `Reports` collects what may be said of the
errors of an outcome, whatever the order in which the checks are made, and `assemble_reports` is the
statement for a node as a whole, given the outcomes below it.
-/

namespace SchemaForms

variable {α β : Type}

theorem mem_insertByName {pair member : String × α} {pairs : List (String × α)} :
    member ∈ insertByName pair pairs ↔ member = pair ∨ member ∈ pairs := by
  induction pairs with
  | nil => simp [insertByName]
  | cons head rest ih =>
      unfold insertByName
      split
      · simp
      · simp only [List.mem_cons, ih]
        exact or_left_comm

theorem mem_sortByName {member : String × α} {pairs : List (String × α)} :
    member ∈ sortByName pairs ↔ member ∈ pairs := by
  have fold : ∀ sorted : List (String × α),
      member ∈ pairs.foldl (fun sorted pair => insertByName pair sorted) sorted ↔
        member ∈ pairs ∨ member ∈ sorted := by
    induction pairs with
    | nil => simp
    | cons head rest ih =>
        intro sorted
        rw [List.foldl_cons, ih, mem_insertByName, List.mem_cons, or_left_comm, or_assoc]
  simpa [sortByName] using fold []

/-- Every error that the outcome may be satisfies the predicate. -/
def Reports (allowed : Error → Prop) (outcome : Except Error α) : Prop :=
  ∀ error, outcome = .error error → allowed error

namespace Reports

variable {allowed allowed' : Error → Prop} {outcome : Except Error α}

theorem ok (value : α) : Reports allowed (.ok value : Except Error α) := by
  rintro error ⟨⟩

theorem error {error : Error} (h : allowed error) :
    Reports allowed (.error error : Except Error α) := by
  rintro _ ⟨⟩
  exact h

theorem mono (h : Reports allowed outcome) (imp : ∀ error, allowed error → allowed' error) :
    Reports allowed' outcome :=
  fun error eq => imp error (h error eq)

theorem bind {next : α → Except Error β} (first : Reports allowed outcome)
    (rest : ∀ value, Reports allowed (next value)) : Reports allowed (outcome >>= next) := by
  cases outcome with
  | ok value => exact rest value
  | error fault => exact .error (first fault rfl)

theorem map {f : α → β} (h : Reports allowed outcome) : Reports allowed (outcome.map f) := by
  cases outcome with
  | ok value => exact .ok _
  | error fault => exact .error (h fault rfl)

end Reports

def Keywords.bounds : List String := ["minimum", "maximum", "exclusiveMinimum", "exclusiveMaximum"]

/-- An error of the node at the path itself: a keyword that is not as it has to be, but not a
reference that is left, a bound beyond all floating point numbers, or types with an integer that
cannot be shown. -/
inductive NodeError (node : Json) (path : String) : Error → Prop
  | keyword {fault : NormalizationFault} (h : ∀ ref, fault ≠ .unresolvedReference ref) :
      NodeError node path (Keywords.error fault path)
  | overflow {members : Members} {key : String} {n : Int} (object : node = .obj members)
      (bound : key ∈ Keywords.bounds) (has : Members.get? members key = some (.int n))
      (beyond : Binary64.ofInt? n = none) : NodeError node path .overflow
  | unshown {members : Members} {types : Json} (object : node = .obj members)
      (has : Members.get? members "type" = some types) (overlong : types.HoldsOverlong) :
      NodeError node path (.digits .write)

namespace Keywords

variable {node : Json} {members : Members} {path : String}

theorem nonNull?_eq_none {member : Option Json} :
    member.bind Json.nonNull? = none ↔ member = none ∨ member = some .null := by
  obtain _ | ⟨⟨⟩⟩ := member <;> simp [Json.nonNull?]

theorem nonNull?_eq_some {member : Option Json} {value : Json} :
    member.bind Json.nonNull? = some value ↔ member = some value ∧ value ≠ .null := by
  obtain _ | ⟨⟨⟩⟩ := member <;> simp [Json.nonNull?] <;> rintro rfl <;> simp

/-- A keyword's fault, as long as it is not that of a reference. -/
theorem reports_fault {fault : NormalizationFault} (h : ∀ ref, fault ≠ .unresolvedReference ref) :
    Reports (NodeError node path) (.error (error fault path) : Except Error α) :=
  .error (.keyword h)

theorem check_reports : Reports (NodeError node path) (check members path) := by
  unfold check
  split
  · exact reports_fault (by simp)
  · exact .ok _

theorem checkType_reports {type : String} : Reports (NodeError node path) (checkType type path) := by
  unfold checkType
  split
  · exact .ok _
  · exact reports_fault (by simp)

/-- A cause is reported with the value it shows, unless the value cannot be shown. -/
theorem showing_cases (cause : String → NormalizationFault) (value : Json) (path : String) :
    (∃ text, showing cause value path = error (cause text) path) ∨
      showing cause value path = .digits .write ∧ value.HoldsOverlong := by
  unfold showing
  split
  · exact .inl ⟨_, rfl⟩
  · rename_i unshown
    obtain ⟨rfl, overlong⟩ := Json.shown_eq_error.mp unshown
    exact .inr ⟨rfl, overlong⟩

/-- A union of types is reported, unless it cannot be shown. -/
theorem unsupportedUnion_reports {types : Json} (has : Members.get? members "type" = some types) :
    Reports (NodeError (.obj members) path)
      (.error (showing .unsupportedUnion types path) : Except Error α) := by
  obtain ⟨text, shown⟩ | ⟨unshown, overlong⟩ := showing_cases .unsupportedUnion types path
  · rw [shown]
    exact reports_fault (by simp)
  · rw [unshown]
    exact .error (.unshown rfl has overlong)

theorem readType_reports : Reports (NodeError (.obj members) path) (readType members path) := by
  unfold readType
  split
  · exact .ok _
  · exact checkType_reports.map
  · rename_i has
    split
    · exact checkType_reports.map
    · exact unsupportedUnion_reports (nonNull?_eq_some.mp has).1
  · rename_i has
    exact unsupportedUnion_reports (nonNull?_eq_some.mp has).1
  · exact reports_fault (by simp)

theorem readText_reports {key : String} :
    Reports (NodeError node path) (readText members key path) := by
  unfold readText
  split
  · exact .ok _
  · exact .ok _
  · exact reports_fault (by simp)

theorem readEnum_reports : Reports (NodeError node path) (readEnum members path) := by
  unfold readEnum
  split
  · exact .ok _
  · exact .ok _
  · exact reports_fault (by simp)

theorem readNames_reports (values : List Json) (index : Nat) :
    Reports (NodeError node path) (readNames path index values) := by
  induction values generalizing index with
  | nil => exact .ok _
  | cons value rest ih =>
      cases value with
      | str name =>
          simp only [readNames]
          split
          · exact reports_fault (by simp)
          · exact (ih (index + 1)).map
      | _ => exact reports_fault (by simp)

theorem readRequired_reports : Reports (NodeError node path) (readRequired members path) := by
  unfold readRequired
  split
  · exact .ok _
  · exact readNames_reports _ 0
  · exact reports_fault (by simp)

theorem number_reports {value : Json} {key : String} (bound : key ∈ bounds)
    (has : Members.get? members key = some value) :
    Reports (NodeError (.obj members) path) (number value key path) := by
  unfold number
  split
  · exact .ok _
  · split
    · exact .ok _
    · rename_i beyond
      exact .error (.overflow rfl bound has beyond)
  · exact reports_fault (by simp)

theorem readBound_reports {key : String} (bound : key ∈ bounds) :
    Reports (NodeError (.obj members) path) (readBound members key path) := by
  unfold readBound
  split
  · exact .ok _
  · rename_i has
    exact (number_reports bound has).map

theorem readExclusive_reports {value : Option Binary64} {key exclusiveKey : String}
    (bound : exclusiveKey ∈ bounds) :
    Reports (NodeError (.obj members) path)
      (readExclusive members value key exclusiveKey path) := by
  unfold readExclusive
  split
  · exact .ok _
  · exact .ok _
  · rename_i has
    apply (number_reports bound has).bind
    intro x
    split
    · exact reports_fault (by simp)
    · exact .ok _

theorem readBounds_reports : Reports (NodeError (.obj members) path) (readBounds members path) := by
  unfold readBounds
  apply (readBound_reports (by simp [bounds])).bind
  intro minimum
  apply (readBound_reports (by simp [bounds])).bind
  intro maximum
  apply (readExclusive_reports (by simp [bounds])).bind
  intro lower
  apply (readExclusive_reports (by simp [bounds])).bind
  intro upper
  exact .ok _

theorem readLength_reports {key : String} :
    Reports (NodeError node path) (readLength members key path) := by
  unfold readLength
  split
  · exact .ok _
  · exact .ok _
  · split
    · exact .ok _
    · exact reports_fault (by simp)
  · exact reports_fault (by simp)

theorem readPattern_reports : Reports (NodeError node path) (readPattern members path) := by
  unfold readPattern
  split
  · exact .ok _
  · exact .ok _
  · exact reports_fault (by simp)

end Keywords

namespace Schema

variable {allowed : Error → Prop} {members : Members} {path : String}

theorem findDiscriminator_reports {node : Json} {schema : Schema} :
    Reports (NodeError node path) (schema.findDiscriminator path) := by
  unfold findDiscriminator
  simp only
  split
  · exact Keywords.reports_fault (by simp)
  · split
    · exact Keywords.reports_fault (by simp)
    · exact Keywords.reports_fault (by simp)
    · split
      · exact Keywords.reports_fault (by simp)
      · split
        · exact Keywords.reports_fault (by simp)
        · exact .ok _

theorem discriminate_reports {node : Json} {schema : Schema} :
    Reports (NodeError node path) (schema.discriminate path) := by
  rw [discriminate_eq]
  split
  · rename_i failed
    exact .error (findDiscriminator_reports _ failed)
  · split
    · exact .ok _
    · exact Keywords.reports_fault (by simp)

theorem collect_reports {outcomes : List Outcome}
    (h : ∀ outcome ∈ outcomes, Reports allowed outcome) : Reports allowed (collect outcomes) := by
  induction outcomes with
  | nil => exact .ok _
  | cons outcome rest ih =>
      obtain ⟨head, tail⟩ := List.forall_mem_cons.mp h
      exact head.bind fun _ => (ih tail).bind fun _ => .ok _

theorem collectNamed_reports {outcomes : List (String × Outcome)}
    (h : ∀ outcome ∈ outcomes, Reports allowed outcome.2) :
    Reports allowed (collectNamed outcomes) := by
  induction outcomes with
  | nil => exact .ok _
  | cons outcome rest ih =>
      obtain ⟨head, tail⟩ := List.forall_mem_cons.mp h
      exact head.bind fun _ => (ih tail).bind fun _ => .ok _

/-- What a node takes from below its members reports only what is allowed. -/
structure Parts.Report (allowed : Error → Prop) (members : Members) (parts : Parts) : Prop where
  named : ∀ key ∈ ["$defs", "properties"], ∀ children,
    Members.get? members key = some (.obj children) →
    ∀ outcome ∈ parts.named key, Reports allowed outcome.2
  items : ∀ item, Members.get? members "items" = some (.obj item) →
    ∀ outcome, parts.lookup "items" = some (.single outcome) → Reports allowed outcome
  listed : ∀ elements, Members.get? members "oneOf" = some (.arr elements) →
    ∀ outcome ∈ parts.listed "oneOf", Reports allowed outcome

section Assemble

variable {parts : Parts} {context : NodeContext}
variable (own : ∀ error, NodeError (.obj members) path error → allowed error)
variable (below : parts.Report allowed members)

include own below

theorem readNamed_reports {key : String} (map : key ∈ ["$defs", "properties"]) :
    Reports allowed (readNamed members parts key path) := by
  unfold readNamed
  split
  · exact .ok _
  · rename_i children has
    apply Reports.map
    apply collectNamed_reports
    intro outcome mem
    exact below.named key map children has outcome (mem_sortByName.mp mem)
  · exact (Keywords.reports_fault (by simp)).mono own

theorem readItems_reports : Reports allowed (readItems members parts path) := by
  unfold readItems
  split
  · exact .ok _
  · exact (Keywords.reports_fault (by simp)).mono own
  · rename_i item has
    split
    · rename_i outcome found
      exact (below.items item has outcome found).map
    · exact .ok _
  · exact (Keywords.reports_fault (by simp)).mono own

theorem readVariants_reports : Reports allowed (readVariants members parts context path) := by
  unfold readVariants
  split
  · exact .ok _
  · rename_i has
    split
    · exact (Keywords.reports_fault (by simp)).mono own
    · split
      · exact (Keywords.reports_fault (by simp)).mono own
      · exact (collect_reports (below.listed _ has)).map
      · exact (Keywords.reports_fault (by simp)).mono own

/-- A node reports a reference of its own, errors of its keywords, and else what lies below it
reports. -/
theorem assemble_reports (left : ∀ ref, Members.get? members "$ref" = some ref →
      allowed (Keywords.showing .unresolvedReference ref path)) :
    Reports allowed (assemble path context members parts) := by
  unfold assemble
  cases found : Members.get? members "$ref" with
  | some ref => exact .error (left ref found)
  | none =>
      apply (Keywords.check_reports.mono own).bind
      rintro ⟨⟩
      apply (Keywords.readType_reports.mono own).bind
      rintro ⟨type, nullable⟩
      apply (Keywords.readText_reports.mono own).bind
      intro title
      apply (Keywords.readText_reports.mono own).bind
      intro description
      apply (Keywords.readText_reports.mono own).bind
      intro format
      apply (Keywords.readEnum_reports.mono own).bind
      intro enum
      apply (Keywords.readRequired_reports.mono own).bind
      intro required
      apply (Keywords.readBounds_reports.mono own).bind
      rintro ⟨lower, upper⟩
      apply (Keywords.readLength_reports.mono own).bind
      intro minLength
      apply (Keywords.readLength_reports.mono own).bind
      intro maxLength
      apply (Keywords.readPattern_reports.mono own).bind
      intro pattern
      apply (readNamed_reports own below (by simp)).bind
      intro defs
      apply (readNamed_reports own below (by simp)).bind
      intro properties
      apply (readItems_reports own below).bind
      intro items
      apply (readVariants_reports own below).bind
      intro oneOf
      split
      · exact discriminate_reports.mono own
      · exact .ok _

end Assemble

end Schema

end SchemaForms
