import SchemaForms.Json.Basic

/-!
# Members that have been set

Setting members one after another leaves what was there in its place, and the last value that a name
has been given. Two rows of members with the same names in the same order are equal if all of them
have the same values, provided that no name occurs twice.
-/

namespace SchemaForms.Members

variable {members others updates : Members} {key : String} {value : Json}

theorem get?_eq_none_iff : get? members key = none ↔ key ∉ keys members := by
  rw [← has_iff_mem_keys, has]
  simp

theorem mem_keys_of_get? (found : get? members key = some value) : key ∈ keys members := by
  rw [← has_iff_mem_keys, has, found, Option.isSome_some]

theorem setAll_cons (members rest : Members) (update : String × Json) :
    setAll members (update :: rest) = setAll (set members update.1 update.2) rest := rfl

theorem keys_cons (update : String × Json) (rest : Members) :
    keys (update :: rest) = update.1 :: keys rest := rfl

theorem setAll_append (members first second : Members) :
    setAll members (first ++ second) = setAll (setAll members first) second :=
  List.foldl_append

theorem get?_append (first second : Members) (key : String) :
    get? (first ++ second) key = (get? first key).or (get? second key) := by
  induction first with
  | nil => rfl
  | cons member rest ih =>
      obtain ⟨name, value⟩ := member
      rw [List.cons_append, get?_cons, get?_cons, ih]
      split <;> rfl

theorem get?_reverse_eq_none_iff : get? members.reverse key = none ↔ key ∉ keys members := by
  rw [get?_eq_none_iff, keys, keys, List.map_reverse, List.mem_reverse]

/-- The value that a name has been given last is found, and behind that what was there. -/
theorem get?_setAll_reverse (members updates : Members) (key : String) :
    get? (setAll members updates) key = (get? updates.reverse key).or (get? members key) := by
  induction updates generalizing members with
  | nil => rfl
  | cons update rest ih =>
      obtain ⟨name, value⟩ := update
      rw [setAll_cons, ih, List.reverse_cons, get?_append, Option.or_assoc, get?_cons, get?_nil]
      by_cases same : name = key
      · subst same
        rw [if_pos rfl, get?_set_self]
        rfl
      · rw [if_neg same, get?_set_of_ne same]
        rfl

/-- What has been set is found, and behind that what was there. -/
theorem get?_setAll (distinct : (keys updates).Nodup) (members : Members) (key : String) :
    get? (setAll members updates) key = (get? updates key).or (get? members key) := by
  induction updates generalizing members with
  | nil => rfl
  | cons update rest ih =>
      obtain ⟨name, value⟩ := update
      obtain ⟨fresh, distinct⟩ := List.nodup_cons.mp distinct
      rw [setAll_cons, ih distinct, get?_cons]
      by_cases same : name = key
      · subst same
        rw [if_pos rfl, get?_eq_none_iff.mpr fresh, get?_set_self]
        rfl
      · rw [if_neg same, get?_set_of_ne same]

theorem mem_keys_set {name : String} {value : Json} :
    name ∈ keys (set members key value) ↔ name = key ∨ name ∈ keys members := by
  rw [keys_set]
  split
  · rename_i there
    constructor
    · exact .inr
    · rintro (rfl | mem)
      · exact there
      · exact mem
  · rw [List.mem_append, List.mem_singleton, or_comm]

theorem mem_keys_setAll {name : String} :
    name ∈ keys (setAll members updates) ↔ name ∈ keys updates ∨ name ∈ keys members := by
  induction updates generalizing members with
  | nil => simp [setAll, keys]
  | cons update rest ih =>
      rw [setAll_cons, ih, mem_keys_set, keys_cons, List.mem_cons, or_left_comm, or_assoc]

theorem nodup_keys_setAll (distinct : (keys members).Nodup) (updates : Members) :
    (keys (setAll members updates)).Nodup := by
  induction updates generalizing members with
  | nil => exact distinct
  | cons update rest ih => exact ih (nodup_keys_set distinct update.1 update.2)

/-- Setting a member to the value that it has changes nothing. -/
theorem set_of_get? (has : get? members key = some value) : set members key value = members := by
  induction members with
  | nil => cases has
  | cons member rest ih =>
      obtain ⟨name, old⟩ := member
      rw [get?_cons] at has
      rw [set]
      by_cases here : name = key
      · rw [if_pos here] at has
        rw [if_pos here, Option.some.inj has]
      · rw [if_neg here] at has
        rw [if_neg here, ih has]

/-- Members with different names are known by the order of the names and by the values. -/
theorem eq_of_get? (order : keys members = keys others) (distinct : (keys members).Nodup)
    (values : ∀ key, get? members key = get? others key) : members = others := by
  induction members generalizing others with
  | nil => exact (List.map_eq_nil_iff.mp order.symm).symm
  | cons member rest ih =>
      obtain ⟨name, value⟩ := member
      obtain ⟨⟨name', value'⟩, rest', rfl, same, tail⟩ := List.map_eq_cons_iff.mp order.symm
      obtain rfl : name' = name := same
      obtain ⟨fresh, distinct⟩ := List.nodup_cons.mp distinct
      have first := values name'
      rw [get?_cons, get?_cons, if_pos rfl, if_pos rfl] at first
      rw [Option.some.inj first, ih tail.symm distinct fun key => ?_]
      have second := values key
      rw [get?_cons, get?_cons] at second
      by_cases same : name' = key
      · subst same
        have fresh' : name' ∉ keys rest' := by rwa [keys, tail]
        rw [get?_eq_none_iff.mpr fresh, get?_eq_none_iff.mpr fresh']
      · rwa [if_neg same, if_neg same] at second

/-- Which names there are after a member has been set depends on the names only. -/
theorem keys_set_congr (same : keys members = keys others) (key : String) (value value' : Json) :
    keys (set members key value) = keys (set others key value') := by
  rw [keys_set, keys_set, same]

theorem keys_setAll_congr (same : keys members = keys others) (updates : Members) :
    keys (setAll members updates) = keys (setAll others updates) := by
  induction updates generalizing members others with
  | nil => exact same
  | cons update rest ih => exact ih (keys_set_congr same _ _ _)

theorem keys_setAll_of_subset (there : ∀ key ∈ keys updates, key ∈ keys members) :
    keys (setAll members updates) = keys members := by
  induction updates generalizing members with
  | nil => rfl
  | cons update rest ih =>
      obtain ⟨first, others⟩ := List.forall_mem_cons.mp there
      have same : keys (set members update.1 update.2) = keys members := by
        rw [keys_set, if_pos first]
      rw [setAll_cons, ih (by rwa [same]), same]

/-- Setting the same members once more changes nothing. -/
theorem setAll_setAll_self (distinct : (keys members).Nodup) (updates : Members) :
    setAll (setAll members updates) updates = setAll members updates := by
  have there : ∀ key ∈ keys updates, key ∈ keys (setAll members updates) :=
    fun key mem => mem_keys_setAll.mpr (.inl mem)
  have order := keys_setAll_of_subset there
  refine eq_of_get? order ?_ fun key => ?_
  · rw [order]
    exact nodup_keys_setAll distinct updates
  · rw [get?_setAll_reverse _ _ key, get?_setAll_reverse members]
    cases get? updates.reverse key <;> rfl

/-- A member that is there may be set before or after another one. -/
theorem set_comm {other : String} (ne : key ≠ other) (there : other ∈ keys members)
    (value value' : Json) :
    set (set members key value) other value' = set (set members other value') key value := by
  induction members with
  | nil => cases there
  | cons member rest ih =>
      obtain ⟨name, old⟩ := member
      by_cases first : name = key
      · subst first
        simp [set, ne]
      · by_cases second : name = other
        · subst second
          simp [set, first]
        · have there : other ∈ keys rest := (List.mem_cons.mp there).resolve_left (Ne.symm second)
          simp [set, first, second, ih there]

end SchemaForms.Members
