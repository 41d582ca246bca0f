import Mathlib.Data.List.Induction
import SchemaForms.Form.Catalog
import SchemaForms.Proofs.Schema.Sorted

/-!
# What a catalog holds

A catalog made from forms with keys has every key once, in the place where it came first, and holds
under it the form that came last. So its forms can be looked up or read off the list alike.
-/

namespace SchemaForms.Catalog

/-- The catalog has no key twice. -/
def Distinct (catalog : Catalog) : Prop :=
  (catalog.forms.map Prod.fst).Nodup

/-- Putting a form in leaves the keys as they are, except that a new one goes to the end. -/
theorem keys_insertIn (key : String) (form : Form) (forms : List (String × Form)) :
    (insertIn key form forms).map Prod.fst =
      if key ∈ forms.map Prod.fst then forms.map Prod.fst else forms.map Prod.fst ++ [key] := by
  induction forms with
  | nil => rfl
  | cons pair rest ih =>
      obtain ⟨other, old⟩ := pair
      by_cases same : other = key
      · simp [insertIn, same]
      · have differ : key ≠ other := Ne.symm same
        rw [insertIn, if_neg same, List.map_cons, List.map_cons, ih]
        by_cases mem : key ∈ rest.map Prod.fst
        · rw [if_pos mem, if_pos (List.mem_cons_of_mem _ mem)]
        · rw [if_neg mem, if_neg (List.not_mem_cons_of_ne_of_not_mem differ mem), List.cons_append]

theorem Distinct.insert {catalog : Catalog} (distinct : catalog.Distinct) (key : String)
    (form : Form) : (catalog.insert key form).Distinct := by
  show ((insertIn key form catalog.forms).map Prod.fst).Nodup
  rw [keys_insertIn]
  split
  · exact distinct
  · rename_i new
    refine List.nodup_append.mpr ⟨distinct, List.pairwise_singleton _ key, ?_⟩
    intro other mem own only same
    rw [same, List.mem_singleton.mp only] at mem
    exact new mem

theorem distinct_ofPairs (pairs : List (String × Form)) : (ofPairs pairs).Distinct :=
  List.foldlRecOn pairs _ List.nodup_nil fun _ distinct pair _ => distinct.insert pair.1 pair.2

/-- What stands in a list without repeated keys is found in it. -/
theorem lookup_of_mem {forms : List (String × Form)} {key : String} {form : Form}
    (distinct : (forms.map Prod.fst).Nodup) (mem : (key, form) ∈ forms) :
    forms.lookup key = some form := by
  induction forms with
  | nil => cases mem
  | cons pair rest ih =>
      rw [List.map_cons, List.nodup_cons] at distinct
      obtain ⟨new, distinct⟩ := distinct
      rw [lookup_cons_eq_if]
      obtain rfl | mem := List.mem_cons.mp mem
      · rw [if_pos rfl]
      · rw [if_neg, ih distinct mem]
        intro same
        exact new (List.mem_map.mpr ⟨_, mem, same⟩)

/-- In a catalog without repeated keys the forms are those that are found by their keys. -/
theorem Distinct.mem_forms {catalog : Catalog} (distinct : catalog.Distinct) {key : String}
    {form : Form} : (key, form) ∈ catalog.forms ↔ catalog.find? key = some form := by
  constructor
  · exact lookup_of_mem distinct
  · intro found
    obtain ⟨before, after, split, -⟩ := List.lookup_eq_some_iff.mp found
    rw [split]
    exact List.mem_append_right _ List.mem_cons_self

theorem find?_insert_of_ne {key wanted : String} (differ : wanted ≠ key) (catalog : Catalog)
    (form : Form) : (catalog.insert key form).find? wanted = catalog.find? wanted := by
  obtain ⟨forms⟩ := catalog
  show (insertIn key form forms).lookup wanted = forms.lookup wanted
  induction forms with
  | nil => rw [insertIn, lookup_cons_eq_if, if_neg differ]
  | cons pair rest ih =>
      obtain ⟨other, old⟩ := pair
      by_cases same : other = key
      · rw [insertIn, if_pos same, lookup_cons_eq_if, lookup_cons_eq_if]
        show (if wanted = other then _ else _) = if wanted = other then _ else _
        rw [if_neg (same ▸ differ), if_neg (same ▸ differ)]
      · rw [insertIn, if_neg same, lookup_cons_eq_if, lookup_cons_eq_if, ih]

theorem ofPairs_concat (pairs : List (String × Form)) (pair : String × Form) :
    ofPairs (pairs ++ [pair]) = (ofPairs pairs).insert pair.1 pair.2 := by
  rw [ofPairs, List.foldl_append, List.foldl_cons, List.foldl_nil, ofPairs]

/-- Under each key a catalog holds the last of the forms that it was made from with that key. -/
theorem find?_ofPairs (pairs : List (String × Form)) (key : String) :
    (ofPairs pairs).find? key = (pairs.findRev? fun pair => pair.1 = key).map Prod.snd := by
  rw [List.findRev?_eq_find?_reverse]
  induction pairs using List.reverseRecOn with
  | nil => rfl
  | append_singleton pairs pair ih =>
      rw [ofPairs_concat, List.reverse_concat, List.find?_cons]
      by_cases same : pair.1 = key
      · rw [same, find?_insert_self, decide_eq_true rfl]
        rfl
      · rw [find?_insert_of_ne (Ne.symm same), ih, decide_eq_false same]

end SchemaForms.Catalog
