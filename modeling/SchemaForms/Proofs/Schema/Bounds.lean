import SchemaForms.Proofs.Decimal.Nearest
import SchemaForms.Proofs.Schema.Nullable

/-!
# The meaning of numeric bounds

Four keywords become two bounds with a flag each. `Keywords.Declares` says what a keyword and its
exclusive form ask of a number, `Schema.Admits` which numbers the bounds of a schema admit, and both
come to the same. The two directions are one notion with an order as parameter: a number is beyond a
lower bound if it is greater, and beyond an upper bound if it is less.

The bounds of a schema are numbers of the binary format. An integer that the format does not have
stands for the nearest number that it has, so the meaning of a keyword depends on what its value is
taken for: `Json.Equals` takes it as it is written, and `Json.RoundsTo` as it is kept.
-/

namespace SchemaForms

/-- The value is this number. -/
def Json.Equals : Json → ℚ → Prop
  | .int n, r => r = n
  | .double y, r => y.toRat? = some r
  | _, _ => False

/-- The value becomes this number in the binary format. -/
def Json.RoundsTo : Json → ℚ → Prop
  | .int n, r => Binary64.Rounds n r
  | .double y, r => y.toRat? = some r
  | _, _ => False

/-- The binary format has the value, if it is an integer. -/
def Json.IsExact : Json → Prop
  | .int n => ∃ negative m e, Binary64.InFormat m e ∧
      (n : ℚ) = Binary64.sign negative * Binary64.magnitude m e
  | _ => True

/-- A value that the format has is kept as it is written. -/
theorem Json.IsExact.equals_iff {value : Json} (exact : value.IsExact) (r : ℚ) :
    value.Equals r ↔ value.RoundsTo r := by
  cases value with
  | int n =>
      obtain ⟨negative, m, e, inside, same⟩ := exact
      have itself : Binary64.Rounds n n := by
        rw [same]
        exact inside.rounds negative
      constructor
      · rintro rfl
        exact itself
      · intro rounds
        exact rounds.unique itself
  | _ => rfl

namespace Keywords

variable {means : Json → ℚ → Prop} {beyond : ℚ → ℚ → Prop} {x : ℚ} {members : Members}
variable {key exclusiveKey path : String} {value : Json}

/-- A bound admits what is beyond it, and itself if it is not exclusive. No bound admits all; nothing is
beyond a bound that is not finite. -/
def Bound.Admits (beyond : ℚ → ℚ → Prop) (bound : Bound) (x : ℚ) : Prop :=
  ∀ y, bound.value = some y →
    ∃ r, y.toRat? = some r ∧ (beyond r x ∨ bound.isExclusive = false ∧ r = x)

/-- What a keyword for a bound and its exclusive form ask of a number. -/
structure Declares (means : Json → ℚ → Prop) (beyond : ℚ → ℚ → Prop) (members : Members)
    (key exclusiveKey : String) (x : ℚ) : Prop where
  inclusive : ∀ value, Members.get? members key = some value →
    ∃ r, means value r ∧
      (beyond r x ∨ Members.get? members exclusiveKey ≠ some (.bool true) ∧ r = x)
  exclusive : ∀ value, Members.get? members exclusiveKey = some value →
    (∀ b, value ≠ .bool b) → ∃ r, means value r ∧ beyond r x

theorem declares_iff : Declares means beyond members key exclusiveKey x ↔
    (∀ value, Members.get? members key = some value → ∃ r, means value r ∧
      (beyond r x ∨ Members.get? members exclusiveKey ≠ some (.bool true) ∧ r = x)) ∧
    (∀ value, Members.get? members exclusiveKey = some value → (∀ b, value ≠ .bool b) →
      ∃ r, means value r ∧ beyond r x) :=
  ⟨fun h => ⟨h.inclusive, h.exclusive⟩, fun h => ⟨h.1, h.2⟩⟩

/-- The number satisfies the keywords for bounds. -/
def Satisfies (means : Json → ℚ → Prop) (members : Members) (x : ℚ) : Prop :=
  Declares means (· < ·) members "minimum" "exclusiveMinimum" x ∧
    Declares means (· > ·) members "maximum" "exclusiveMaximum" x

/-- The number that is read is the one that the value rounds to. -/
theorem roundsTo_iff_of_number {y : Binary64} {r : ℚ} (read : number value key path = .ok y) :
    value.RoundsTo r ↔ y.toRat? = some r := by
  cases value with
  | double z =>
      cases read
      rfl
  | int n =>
      simp only [number] at read
      split at read
      · rename_i found
        cases read
        obtain ⟨nearest, same, rounds⟩ := Binary64.ofInt?_rounds found
        rw [same, Option.some_inj]
        constructor
        · exact fun rounds' => rounds.unique rounds'
        · rintro rfl
          exact rounds
      · cases read
  | _ => cases read

/-- What holds of the number that is read is what holds of the one that the value rounds to. -/
theorem exists_toRat_iff {y : Binary64} {holds : ℚ → Prop} (read : number value key path = .ok y) :
    (∃ r, y.toRat? = some r ∧ holds r) ↔ ∃ r, value.RoundsTo r ∧ holds r :=
  exists_congr fun _ => and_congr_left' (roundsTo_iff_of_number read).symm

/-- What the keyword asks of its value is what holds of the bound that is read. -/
theorem forall_bound_iff {bound : Option Binary64} {holds : ℚ → Prop}
    (read : readBound members key path = .ok bound) :
    (∀ y, bound = some y → ∃ r, y.toRat? = some r ∧ holds r) ↔
      ∀ value, Members.get? members key = some value → ∃ r, value.RoundsTo r ∧ holds r := by
  unfold readBound at read
  cases has : Members.get? members key with
  | none =>
      rw [has] at read
      cases read
      simp
  | some value =>
      rw [has] at read
      obtain ⟨y, found, rfl⟩ := except_map_eq_ok.mp read
      simp [exists_toRat_iff found]

theorem number_ne_bool {y : Binary64} {b : Bool} (read : number value key path = .ok y) :
    value ≠ .bool b := by
  rintro rfl
  cases read

theorem admits_iff_declares {bound : Option Binary64} {result : Bound}
    (inclusive : readBound members key path = .ok bound)
    (exclusive : readExclusive members bound key exclusiveKey path = .ok result) :
    result.Admits beyond x ↔ Declares Json.RoundsTo beyond members key exclusiveKey x := by
  rw [declares_iff, ← forall_bound_iff inclusive]
  unfold readExclusive at exclusive
  split at exclusive
  · -- no exclusive form
    rename_i absent
    cases exclusive
    simp [Bound.Admits, absent]
  · -- a flag, which only counts for a bound that is present
    rename_i b has
    cases exclusive
    cases bound <;> cases b <;> simp [Bound.Admits, has]
  · -- a bound of its own, which is the only one
    rename_i value flag has
    obtain ⟨y, read, last⟩ := except_bind_eq_ok.mp exclusive
    cases bound with
    | some _ => cases last
    | none =>
        cases last
        have number : ∀ b, value ≠ .bool b := fun b => number_ne_bool read
        simp [Bound.Admits, has, exists_toRat_iff read, number]

def boundKeys : List String := ["minimum", "maximum", "exclusiveMinimum", "exclusiveMaximum"]

/-- Every integer bound of the node is a number of the binary format. -/
def BoundsExact (members : Members) : Prop :=
  ∀ key ∈ boundKeys, ∀ value, Members.get? members key = some value → value.IsExact

theorem declares_congr {means' : Json → ℚ → Prop}
    (inclusive : ∀ value, Members.get? members key = some value → ∀ r, means value r ↔ means' value r)
    (exclusive : ∀ value, Members.get? members exclusiveKey = some value →
      ∀ r, means value r ↔ means' value r) :
    Declares means beyond members key exclusiveKey x ↔
      Declares means' beyond members key exclusiveKey x := by
  rw [declares_iff, declares_iff]
  refine and_congr (forall₂_congr fun value has => ?_) (forall₂_congr fun value has => ?_)
  · simp only [inclusive value has]
  · simp only [exclusive value has]

/-- Exact bounds are satisfied as they are written. -/
theorem satisfies_equals_iff (exact : BoundsExact members) :
    Satisfies Json.Equals members x ↔ Satisfies Json.RoundsTo members x := by
  have same : ∀ name ∈ boundKeys, ∀ value, Members.get? members name = some value →
      ∀ r, value.Equals r ↔ value.RoundsTo r :=
    fun name listed value has r => (exact name listed value has).equals_iff r
  exact and_congr
    (declares_congr (same "minimum" (by decide)) (same "exclusiveMinimum" (by decide)))
    (declares_congr (same "maximum" (by decide)) (same "exclusiveMaximum" (by decide)))

end Keywords

namespace Schema

variable {path : String} {context : NodeContext} {members : Members} {schema : Schema}

/-- The number lies within the bounds of the schema. -/
def Admits (schema : Schema) (x : ℚ) : Prop :=
  Keywords.Bound.Admits (· < ·) ⟨schema.minimum, schema.exclusiveMinimum⟩ x ∧
    Keywords.Bound.Admits (· > ·) ⟨schema.maximum, schema.exclusiveMaximum⟩ x

theorem Reads.admits_iff {parts : Parts} {reading : Reading}
    (reads : Reads path context members parts reading) (x : ℚ) :
    (reading.schema members).Admits x ↔ Keywords.Satisfies Json.RoundsTo members x := by
  have bounds := reads.bounds
  simp only [Keywords.readBounds, except_bind_eq_ok] at bounds
  obtain ⟨minimum, hMinimum, maximum, hMaximum, lower, hLower, upper, hUpper, last⟩ := bounds
  cases last
  exact and_congr (Keywords.admits_iff_declares hMinimum hLower)
    (Keywords.admits_iff_declares hMaximum hUpper)

theorem admits_finish {result : Schema} (last : finish path context schema = .ok result) (x : ℚ) :
    result.Admits x ↔ schema.Admits x := by
  unfold finish at last
  split at last
  · obtain ⟨-, properties, _, text, -, -, -, -, rfl⟩ := discriminate_eq_ok.mp last
    rfl
  · cases last
    rfl

/-- The bounds of a node admit just the numbers that satisfy its keywords as they are kept, which is as
they are written where the integers among them are numbers of the binary format. -/
theorem admits_iff_satisfies (run : normalize path context (.obj members) = .ok schema) (x : ℚ) :
    (schema.Admits x ↔ Keywords.Satisfies Json.RoundsTo members x) ∧
      (Keywords.BoundsExact members →
        (schema.Admits x ↔ Keywords.Satisfies Json.Equals members x)) := by
  obtain ⟨reading, reads, last⟩ := assemble_eq_ok.mp run
  have kept : schema.Admits x ↔ Keywords.Satisfies Json.RoundsTo members x :=
    (admits_finish last x).trans (reads.admits_iff x)
  refine ⟨kept, fun exact => ?_⟩
  rw [kept, Keywords.satisfies_equals_iff exact]

namespace Sample

def bounded : Members := [("minimum", .int 1), ("exclusiveMaximum", .int 3)]

theorem bounded_exact : Keywords.BoundsExact bounded := by
  have one : (Json.int 1).IsExact :=
    ⟨false, 2 ^ 52, -52, ⟨by decide, by decide, by decide, .inl (by decide)⟩,
      by norm_num [Binary64.sign, Binary64.magnitude]⟩
  have three : (Json.int 3).IsExact :=
    ⟨false, 3 * 2 ^ 51, -51, ⟨by decide, by decide, by decide, .inl (by decide)⟩,
      by norm_num [Binary64.sign, Binary64.magnitude]⟩
  intro key listed value has
  simp only [Keywords.boundKeys, List.mem_cons, List.not_mem_nil, or_false] at listed
  obtain rfl | rfl | rfl | rfl := listed <;> cases has
  · exact one
  · exact three

/-- A node whose bound needs one bit more than the binary format has. -/
def wide : Members := [("minimum", .int (2 ^ 53 + 1))]

end Sample

/-- The sample admits its least number and not its greatest one. -/
theorem admits_iff_satisfies_bounded : ∃ schema, normalize "#" {} (.obj Sample.bounded) = .ok schema ∧
    schema.Admits 1 ∧ ¬ schema.Admits 3 := by
  have accepted : (normalize "#" {} (.obj Sample.bounded)).toOption.isSome = true := by decide +kernel
  obtain ⟨schema, found⟩ := Option.isSome_iff_exists.mp accepted
  have run := eq_ok_of_toOption found
  refine ⟨schema, run, ?_, ?_⟩
  · rw [(admits_iff_satisfies run 1).2 Sample.bounded_exact]
    constructor <;> constructor <;> intro value has
    · cases has
      exact ⟨1, by norm_num [Json.Equals], .inr ⟨nofun, rfl⟩⟩
    · cases has
    · cases has
    · cases has
      intro _
      exact ⟨3, by norm_num [Json.Equals], by norm_num⟩
  · rw [(admits_iff_satisfies run 3).2 Sample.bounded_exact]
    rintro ⟨-, -, exclusive⟩
    obtain ⟨r, same, less⟩ := exclusive (.int 3) rfl nofun
    rw [show r = 3 from same] at less
    exact lt_irrefl _ less

/-- A bound that the binary format does not have admits a number that the keyword does not. -/
theorem admits_below_wide : ∃ schema, normalize "#" {} (.obj Sample.wide) = .ok schema ∧
    schema.Admits (2 ^ 53) ∧ ¬ Keywords.Satisfies Json.Equals Sample.wide (2 ^ 53) := by
  have rounded : (normalize "#" {} (.obj Sample.wide)).toOption.any (fun schema =>
      schema.minimum = some (.finite false (2 ^ 52) 1) ∧ schema.exclusiveMinimum = false ∧
        schema.maximum = none) = true := by
    decide +kernel
  obtain ⟨schema, found, holds⟩ := (Option.any_eq_true _ _).mp rounded
  obtain ⟨minimum, inclusive, maximum⟩ := of_decide_eq_true holds
  refine ⟨schema, eq_ok_of_toOption found, ⟨?_, ?_⟩, ?_⟩
  · rintro y same
    rw [show y = .finite false (2 ^ 52) 1 from Option.some.inj (same.symm.trans minimum)]
    exact ⟨2 ^ 53, by norm_num [Binary64.toRat?, Binary64.sign, Binary64.magnitude],
      .inr ⟨inclusive, rfl⟩⟩
  · rintro y same
    cases same.symm.trans maximum
  · rintro ⟨⟨declared, -⟩, -⟩
    obtain ⟨r, same, less | ⟨-, equal⟩⟩ := declared (.int (2 ^ 53 + 1)) rfl
    · rw [show r = ((2 ^ 53 + 1 : ℤ) : ℚ) from same] at less
      norm_num at less
    · rw [show r = ((2 ^ 53 + 1 : ℤ) : ℚ) from same] at equal
      norm_num at equal

end Schema

end SchemaForms
