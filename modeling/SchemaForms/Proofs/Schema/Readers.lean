import Mathlib.Tactic.Push
import SchemaForms.Proofs.Schema.Grammar
import SchemaForms.Proofs.Schema.Sorted

/-!
# Readers accept what the grammar says

Each reader of keywords succeeds just if the grammar's rule for them is met. Of most readers it does
not matter here what they give; the type of a node decides more than its own rule, so its reader
comes with what it gives.

The readers of bounds also fail at an integer beyond all floating point numbers, of which the
grammar knows nothing; `Json.Converts` keeps such integers away.
-/

namespace SchemaForms

theorem exists_map_eq_ok {ε α β : Type} {outcome : Except ε α} {f : α → β} :
    (∃ result, outcome.map f = .ok result) ↔ ∃ value, outcome = .ok value := by
  cases outcome <;> simp [Except.map]

namespace Keywords

open Schema

variable {members : Members} {path key : String}

theorem mem_sortNames {name : String} {names : List String} :
    name ∈ sortNames names ↔ name ∈ names := by
  simp [sortNames, mem_sortByName]

theorem isSupported_eq_true :
    isSupported key = true ↔ Dialect.isVendorExtension key = true ∨ key ∈ supported := by
  simp [isSupported]

theorem check_eq_ok :
    check members path = .ok () ↔ ∀ key ∈ Members.keys members,
      Dialect.isVendorExtension key = true ∨ key ∈ supported := by
  have all : (sortNames (Members.keys members)).find? (!isSupported ·) = none ↔
      ∀ key ∈ Members.keys members, Dialect.isVendorExtension key = true ∨ key ∈ supported := by
    simp [List.find?_eq_none, mem_sortNames, isSupported_eq_true]
  rw [← all, check]
  split
  · rename_i found
    simp [found]
  · rename_i none
    simp [none]

theorem checkType_eq_ok {type result : String} :
    checkType type path = .ok result ↔ (type = "" ∨ type ∈ types) ∧ type = result := by
  rw [checkType]
  by_cases fits : type = "" ∨ type ∈ types
  · rw [if_pos (by simpa using fits)]
    simp [fits]
  · rw [if_neg (by simpa using fits)]
    simp [fits]

/-- Of a pair with exactly one `null`, the other type is taken unless it is blank. -/
theorem otherType?_eq_some {first second type : String} :
    otherType? first second = some type ↔ ∃ other,
      ((first = "null" ∧ second = other) ∨ (first = other ∧ second = "null")) ∧
        other ≠ "null" ∧ Text.trim other ≠ "" ∧ Text.trim other = type := by
  have left : (∃ other, (first = "null" ∧ second = other) ∧ other ≠ "null" ∧
      Text.trim other ≠ "" ∧ Text.trim other = type) ↔ first = "null" ∧ second ≠ "null" ∧
      Text.trim second ≠ "" ∧ Text.trim second = type := by
    simp
  have right : (∃ other, (first = other ∧ second = "null") ∧ other ≠ "null" ∧
      Text.trim other ≠ "" ∧ Text.trim other = type) ↔ second = "null" ∧ first ≠ "null" ∧
      Text.trim first ≠ "" ∧ Text.trim first = type := by
    simp
  simp only [or_and_right, exists_or, left, right]
  rw [otherType?]
  by_cases isFirst : first = "null" <;> by_cases isSecond : second = "null" <;>
    simp [isFirst, isSecond, Option.ite_none_left_eq_some]

theorem ne_empty_of_mem_types {type : String} (h : type ∈ types) : type ≠ "" := by
  rintro rfl
  revert h
  decide

/-- The reader of types gives a type just if the node is of it. -/
theorem readType_eq_ok (path : String) {type : String} :
    (∃ nullable, readType members path = .ok (type, nullable)) ↔ HasType members type := by
  constructor
  · rintro ⟨nullable, run⟩
    unfold readType at run
    split at run
    · rename_i absent
      cases run
      exact .absent (nonNull?_eq_none.mp absent)
    · rename_i text has
      obtain ⟨checked, found, pair⟩ := except_map_eq_ok.mp run
      cases pair
      obtain ⟨fits, rfl⟩ := checkType_eq_ok.mp found
      exact .single (nonNull?_eq_some.mp has).1 fits
    · rename_i first second has
      split at run
      · rename_i other isOther
        obtain ⟨checked, found, pair⟩ := except_map_eq_ok.mp run
        cases pair
        obtain ⟨fits, rfl⟩ := checkType_eq_ok.mp found
        obtain ⟨other, isPair, one, notBlank, rfl⟩ := otherType?_eq_some.mp isOther
        refine .nullable ?_ one (fits.resolve_left notBlank)
        rw [(nonNull?_eq_some.mp has).1]
        obtain ⟨rfl, rfl⟩ | ⟨rfl, rfl⟩ := isPair
        · exact .inl rfl
        · exact .inr rfl
      · cases run
    · cases run
    · cases run
  · intro has
    cases has with
    | absent h => exact ⟨false, by rw [readType, nonNull?_eq_none.mpr h]⟩
    | @single type has supported =>
        have present := nonNull?_eq_some.mpr ⟨has, Json.noConfusion⟩
        refine ⟨false, ?_⟩
        rw [readType, present]
        exact except_map_eq_ok.mpr ⟨_, checkType_eq_ok.mpr ⟨supported, rfl⟩, rfl⟩
    | @nullable other pair one supported =>
        obtain ⟨first, second, has, isPair⟩ : ∃ first second,
            Members.get? members "type" = some (.arr [.str first, .str second]) ∧
              ((first = "null" ∧ second = other) ∨ (first = other ∧ second = "null")) := by
          obtain has | has := pair
          · exact ⟨_, _, has, .inl ⟨rfl, rfl⟩⟩
          · exact ⟨_, _, has, .inr ⟨rfl, rfl⟩⟩
        have present := nonNull?_eq_some.mpr ⟨has, Json.noConfusion⟩
        have isOther := otherType?_eq_some.mpr
          ⟨other, isPair, one, ne_empty_of_mem_types supported, rfl⟩
        refine ⟨true, ?_⟩
        simp only [readType, present, isOther]
        exact except_map_eq_ok.mpr ⟨_, checkType_eq_ok.mpr ⟨.inr supported, rfl⟩, rfl⟩

theorem readText_ok :
    (∃ text, readText members key path = .ok text) ↔
      Members.Each members key fun value => value = .null ∨ ∃ text, value = .str text := by
  rw [readText, Members.Each]
  cases Members.get? members key with
  | none => simp
  | some value => cases value <;> simp [Json.nonNull?]

theorem readEnum_ok :
    (∃ values, readEnum members path = .ok values) ↔
      Members.Each members "enum" fun value => ∃ values, value = .arr values := by
  rw [readEnum, Members.Each]
  cases Members.get? members "enum" with
  | none => simp
  | some value => cases value <;> simp

theorem readNames_ok {names : List Json} (index : Nat) :
    (∃ read, readNames path index names = .ok read) ↔
      ∀ name ∈ names, ∃ text, name = .str text ∧ Text.trim text ≠ "" := by
  induction names generalizing index with
  | nil => simp [readNames]
  | cons name rest ih =>
      rw [List.forall_mem_cons, ← ih (index + 1)]
      cases name with
      | str text =>
          by_cases blank : Text.trim text = ""
          · simp [readNames, blank]
          · simp [readNames, blank, exists_map_eq_ok]
      | _ => simp [readNames]

theorem readRequired_ok :
    (∃ names, readRequired members path = .ok names) ↔
      Members.Each members "required" fun value => ∃ names, value = .arr names ∧
        ∀ name ∈ names, ∃ text, name = .str text ∧ Text.trim text ≠ "" := by
  rw [readRequired, Members.Each]
  cases Members.get? members "required" with
  | none => simp
  | some value => cases value <;> simp [readNames_ok]

section Bounds

variable {exclusiveKey : String} {value : Json} {bound : Option Binary64}

theorem number_ok (converts : value.Converts) :
    (∃ x, number value key path = .ok x) ↔ value.IsNumber := by
  cases value with
  | int n =>
      obtain ⟨x, found⟩ := Option.isSome_iff_exists.mp converts
      simp [number, found, Json.IsNumber]
  | _ => simp [number, Json.IsNumber]

theorem readBound_ok (converts : Members.Each members key Json.Converts) :
    (∃ bound, readBound members key path = .ok bound) ↔ Members.Each members key Json.IsNumber := by
  rw [readBound, Members.Each]
  cases has : Members.get? members key with
  | none => simp
  | some value => simpa [exists_map_eq_ok] using number_ok (converts value has)

/-- A bound is read just if its keyword is present. -/
theorem eq_none_of_readBound (h : readBound members key path = .ok bound) :
    bound = none ↔ Members.get? members key = none := by
  unfold readBound at h
  split at h
  · rename_i absent
    cases h
    simp [absent]
  · rename_i value present
    obtain ⟨x, -, rfl⟩ := except_map_eq_ok.mp h
    simp [present]

theorem readExclusive_ok (converts : Members.Each members exclusiveKey Json.Converts)
    (read : bound = none ↔ Members.get? members key = none) :
    (∃ bounds, readExclusive members bound key exclusiveKey path = .ok bounds) ↔
      ExclusiveFits members key exclusiveKey := by
  simp only [readExclusive, ExclusiveFits, Members.Each, ← read]
  clear read
  cases has : Members.get? members exclusiveKey with
  | none => simp
  | some value =>
      have reads : (∃ x, number value exclusiveKey path = .ok x) ↔ value.IsNumber :=
        number_ok (converts value has)
      cases value with
      | bool b => simp
      | _ => cases bound <;> simp [Functor.map, exists_map_eq_ok, except_bind_eq_ok, ← reads]

theorem readBounds_ok
    (converts : ∀ key ∈ ["minimum", "maximum", "exclusiveMinimum", "exclusiveMaximum"],
      Members.Each members key Json.Converts) :
    (∃ bounds, readBounds members path = .ok bounds) ↔
      (∀ key ∈ ["minimum", "maximum"], Members.Each members key Json.IsNumber) ∧
        ExclusiveFits members "minimum" "exclusiveMinimum" ∧
        ExclusiveFits members "maximum" "exclusiveMaximum" := by
  simp only [List.forall_mem_cons] at converts ⊢
  obtain ⟨minimum, maximum, lower, upper, -⟩ := converts
  constructor
  · rintro ⟨bounds, run⟩
    rw [readBounds] at run
    simp only [except_bind_eq_ok] at run
    obtain ⟨first, hFirst, second, hSecond, third, hThird, fourth, hFourth, -⟩ := run
    exact ⟨⟨(readBound_ok minimum).mp ⟨_, hFirst⟩, (readBound_ok maximum).mp ⟨_, hSecond⟩, by simp⟩,
      (readExclusive_ok lower (eq_none_of_readBound hFirst)).mp ⟨_, hThird⟩,
      (readExclusive_ok upper (eq_none_of_readBound hSecond)).mp ⟨_, hFourth⟩⟩
  · rintro ⟨⟨hMinimum, hMaximum, -⟩, hLower, hUpper⟩
    obtain ⟨first, hFirst⟩ := (readBound_ok minimum).mpr hMinimum
    obtain ⟨second, hSecond⟩ := (readBound_ok maximum).mpr hMaximum
    obtain ⟨third, hThird⟩ := (readExclusive_ok lower (eq_none_of_readBound hFirst)).mpr hLower
    obtain ⟨fourth, hFourth⟩ := (readExclusive_ok upper (eq_none_of_readBound hSecond)).mpr hUpper
    refine ⟨(third, fourth), ?_⟩
    simp only [readBounds, except_bind_eq_ok]
    exact ⟨_, hFirst, _, hSecond, _, hThird, _, hFourth, rfl⟩

end Bounds

theorem readLength_ok :
    (∃ length, readLength members key path = .ok length) ↔
      Members.Each members key Json.IsInteger := by
  rw [readLength, Members.Each]
  cases Members.get? members key with
  | none => simp
  | some value =>
      cases value with
      | double x => cases whole : x.toInt? <;> simp [whole, Json.IsInteger, ← Binary64.toInt?_isSome]
      | _ => simp [Json.IsInteger]

theorem readPattern_ok :
    (∃ text, readPattern members path = .ok text) ↔
      Members.Each members "pattern" fun value => ∃ text, value = .str text := by
  rw [readPattern, Members.Each]
  cases Members.get? members "pattern" with
  | none => simp
  | some value => cases value <;> simp

end Keywords

end SchemaForms
