import Mathlib.Algebra.Divisibility.Basic
import Mathlib.Algebra.Group.Nat.Defs
import SchemaForms.Proofs.Schema.Assembled
import SchemaForms.Proofs.Schema.Positions

/-!
# The grammar of schemas

Which values are schemas that can be normalized is said here by their members alone, without the
order in which a normalizer looks at them, what it reads from them or what it reports. `Acceptable`
is the grammar: `KeywordsFit` covers the members of a node that hold no schemas, and the
constructor those that do, with the context in which each of them stands.

Beside each rule stands what it means for its reader: the reader succeeds just if the rule is met.
The one thing that the grammar leaves out is the size of integers, as a bound has to become a
floating point number.
-/

namespace SchemaForms

/-- The number is finite and has no fraction. -/
def Binary64.IsIntegral : Binary64 → Prop
  | .finite _ significand exponent =>
    ∃ n : Nat, significand * 2 ^ exponent.toNat = n * 2 ^ (-exponent).toNat
  | _ => False

theorem Binary64.toInt?_isSome {x : Binary64} : x.toInt?.isSome = true ↔ x.IsIntegral := by
  cases x with
  | nan => simp [toInt?, IsIntegral]
  | infinite => simp [toInt?, IsIntegral]
  | finite negative m e =>
      cases e with
      | ofNat k => simp [toInt?, IsIntegral]
      | negSucc k =>
          have positive : (-Int.negSucc k).toNat = k + 1 := rfl
          have none : (Int.negSucc k).toNat = 0 := rfl
          rw [toInt?, IsIntegral, positive, none]
          have divides : (∃ n : Nat, m * 2 ^ 0 = n * 2 ^ (k + 1)) ↔ m % 2 ^ (k + 1) = 0 := by
            rw [← Nat.dvd_iff_mod_eq_zero, dvd_iff_exists_eq_mul_left, Nat.pow_zero, Nat.mul_one]
          rw [divides, Option.isSome_map]
          split <;> simp_all

/-- The member of the given name, if there is one, has the property. -/
def Members.Each (members : Members) (key : String) (p : Json → Prop) : Prop :=
  ∀ value, Members.get? members key = some value → p value

instance {members : Members} {key : String} {p : Json → Prop} [DecidablePred p] :
    Decidable (Members.Each members key p) :=
  match has : Members.get? members key with
  | none => isTrue fun value some => by cases has.symm.trans some
  | some value => decidable_of_iff (p value)
      ⟨fun holds _ some => Option.some.inj (has.symm.trans some) ▸ holds, fun each => each value has⟩

/-- The value is a number of either kind. -/
def Json.IsNumber : Json → Prop
  | .int _ | .double _ => True
  | _ => False

/-- The value is a number without a fraction. -/
def Json.IsInteger : Json → Prop
  | .int _ => True
  | .double x => x.IsIntegral
  | _ => False

/-- If the value is an integer, some floating point number is near it. -/
def Json.Converts : Json → Prop
  | .int n => (Binary64.ofInt? n).isSome = true
  | _ => True

instance : DecidablePred Json.Converts
  | .int n => inferInstanceAs (Decidable ((Binary64.ofInt? n).isSome = true))
  | .null | .bool _ | .double _ | .str _ | .arr _ | .obj _ => isTrue trivial

namespace Schema

/-- A node with these members is of the type; the empty type is that of a node without one. -/
inductive HasType (members : Members) : String → Prop
  | absent (h : Members.get? members "type" = none ∨ Members.get? members "type" = some .null) :
      HasType members ""
  | single {type : String} (has : Members.get? members "type" = some (.str type))
      (supported : Text.trim type = "" ∨ Text.trim type ∈ Keywords.types) :
      HasType members (Text.trim type)
  | nullable {other : String}
      (pair : Members.get? members "type" = some (.arr [.str "null", .str other]) ∨
        Members.get? members "type" = some (.arr [.str other, .str "null"]))
      (one : other ≠ "null") (supported : Text.trim other ∈ Keywords.types) :
      HasType members (Text.trim other)

/-- An exclusive bound is a boolean, or a number beside which the bound itself is absent. -/
def ExclusiveFits (members : Members) (key exclusiveKey : String) : Prop :=
  Members.Each members exclusiveKey fun value =>
    (∃ b, value = .bool b) ∨ (value.IsNumber ∧ Members.get? members key = none)

/-- What the members of a node have to be, apart from those that hold schemas. -/
structure KeywordsFit (members : Members) : Prop where
  free : Members.get? members "$ref" = none
  known : ∀ key ∈ Members.keys members,
    Dialect.isVendorExtension key = true ∨ key ∈ Keywords.supported
  type : ∃ type, HasType members type
  texts : ∀ key ∈ ["title", "description", "format"],
    Members.Each members key fun value => value = .null ∨ ∃ text, value = .str text
  enum : Members.Each members "enum" fun value => ∃ values, value = .arr values
  required : Members.Each members "required" fun value => ∃ names, value = .arr names ∧
    ∀ name ∈ names, ∃ text, name = .str text ∧ Text.trim text ≠ ""
  bounds : ∀ key ∈ ["minimum", "maximum"], Members.Each members key Json.IsNumber
  lower : ExclusiveFits members "minimum" "exclusiveMinimum"
  upper : ExclusiveFits members "maximum" "exclusiveMaximum"
  lengths : ∀ key ∈ ["minLength", "maxLength"], Members.Each members key Json.IsInteger
  pattern : Members.Each members "pattern" fun value => ∃ text, value = .str text

/-- The only text that a node with these members admits, as a constant or as the one value that it
enumerates, is not blank. -/
inductive AdmitsOneText (members : Members) : Prop
  | const {text : String} (has : Members.get? members "const" = some (.str text))
      (notBlank : Text.trim text ≠ "")
  | enum {text : String} (has : Members.get? members "enum" = some (.arr [.str text]))
      (notBlank : Text.trim text ≠ "")

/-- A variant is an object that is told apart from others by a property that admits one text. -/
structure Discriminated (members : Members) : Prop where
  object : HasType members "" ∨ HasType members "object"
  property : ∃ properties property,
    Members.get? members "properties" = some (.obj properties) ∧
      Members.get? properties "_type" = some (.obj property) ∧
      (HasType property "" ∨ HasType property "string") ∧ AdmitsOneText property

/-- The value is a schema that can be normalized in the context. -/
inductive Acceptable : NodeContext → Json → Prop
  | node {context : NodeContext} {members : Members} (keywords : KeywordsFit members)
      (maps : ∀ key ∈ ["$defs", "properties"],
        Members.Each members key fun value => ∃ children, value = .obj children)
      (named : ∀ key ∈ ["$defs", "properties"], ∀ children,
        Members.get? members key = some (.obj children) →
          ∀ child ∈ children, Acceptable {} child.2)
      (items : ∀ item, Members.get? members "items" = some item → Acceptable .items item)
      (variants : Members.Each members "oneOf" fun value => context.allowsOneOf = true ∧
        ∃ first rest, value = .arr (first :: rest))
      (listed : ∀ elements, Members.get? members "oneOf" = some (.arr elements) →
        ∀ element ∈ elements, Acceptable .variant element)
      (told : context.requiresDiscriminator = true → Discriminated members) :
      Acceptable context (.obj members)

/-- Every integer that is given as a bound, at any node, has a floating point number near it. -/
def BoundsConvert (value : Json) : Prop :=
  ∀ members, SchemaPosition value (.obj members) →
    ∀ key ∈ ["minimum", "maximum", "exclusiveMinimum", "exclusiveMaximum"],
      Members.Each members key Json.Converts

end Schema

end SchemaForms
