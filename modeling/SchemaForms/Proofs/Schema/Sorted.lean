import SchemaForms.Proofs.Schema.NodeErrors

/-!
# Pairs in the order of their names

`sortByName` puts pairs into increasing order of their names, and of pairs with one name the first
stays in front. So looking a name up gives the same before and after. If no two names have the same
code points, each name comes strictly before those behind it. What the names stand for has no part
in it, so a function may be applied to that before or after.
-/

namespace SchemaForms

variable {α : Type}

theorem nameBefore_irrefl (name : String) : nameBefore name name = false := by
  simp [nameBefore]

theorem nameBefore_trans {first second third : String} (h : nameBefore first second = true)
    (h' : nameBefore second third = true) : nameBefore first third = true := by
  simp only [nameBefore, decide_eq_true_eq] at h h' ⊢
  exact List.lt_trans h h'

/-- What comes before a name comes before every name that does not come before it. -/
theorem nameBefore_of_not_before {first second third : String}
    (h : nameBefore first second = true) (h' : nameBefore third second = false) :
    nameBefore first third = true := by
  simp only [nameBefore, decide_eq_true_eq, decide_eq_false_iff_not] at h h' ⊢
  refine Decidable.byContradiction fun notBefore => h' ?_
  exact List.lt_of_le_of_lt (List.not_lt.mp notBefore) h

/-- No name comes before one that stands in front of it. -/
def Ordered (pairs : List (String × α)) : Prop :=
  pairs.Pairwise fun first second => nameBefore second.1 first.1 = false

theorem ordered_insertByName {pair : String × α} {pairs : List (String × α)} (h : Ordered pairs) :
    Ordered (insertByName pair pairs) := by
  induction pairs with
  | nil => exact List.pairwise_singleton _ _
  | cons head rest ih =>
      obtain ⟨first, tail⟩ := List.pairwise_cons.mp h
      rw [insertByName]
      split
      · rename_i before
        refine List.pairwise_cons.mpr ⟨?_, h⟩
        intro other mem
        apply eq_false_of_ne_true
        intro after
        have early := nameBefore_trans after before
        obtain rfl | mem := List.mem_cons.mp mem
        · rw [nameBefore_irrefl] at early
          cases early
        · rw [first other mem] at early
          cases early
      · rename_i notBefore
        refine List.pairwise_cons.mpr ⟨?_, ih tail⟩
        intro other mem
        obtain rfl | mem := mem_insertByName.mp mem
        · exact eq_false_of_ne_true notBefore
        · exact first other mem

theorem lookup_cons_eq_if (name : String) (pair : String × α) (rest : List (String × α)) :
    (pair :: rest).lookup name = if name = pair.1 then some pair.2 else rest.lookup name := by
  rw [List.lookup_cons]
  by_cases same : name = pair.1
  · simp [same]
  · simp [same, beq_eq_false_iff_ne.mpr same]

/-- What comes before the first of some pairs comes before all of them. -/
theorem before_of_ordered {name : String} {head : String × α} {rest : List (String × α)}
    (h : Ordered (head :: rest)) (before : nameBefore name head.1 = true) :
    ∀ pair ∈ head :: rest, name ≠ pair.1 := by
  intro pair mem same
  rw [same] at before
  obtain rfl | mem := List.mem_cons.mp mem
  · rw [nameBefore_irrefl] at before
    cases before
  · rw [(List.pairwise_cons.mp h).1 pair mem] at before
    cases before

/-- A pair that is inserted is found by its name unless there has been one of that name. -/
theorem lookup_insertByName {pair : String × α} {pairs : List (String × α)} (h : Ordered pairs)
    (name : String) :
    (insertByName pair pairs).lookup name =
      (pairs.lookup name).or (if name = pair.1 then some pair.2 else none) := by
  induction pairs with
  | nil => simp [insertByName, lookup_cons_eq_if]
  | cons head rest ih =>
      rw [insertByName]
      split
      · rename_i before
        rw [lookup_cons_eq_if]
        split
        · rename_i same
          have absent : (head :: rest).lookup name = none := by
            rw [List.lookup_eq_none_iff]
            intro other mem
            rw [bne_iff_ne, same]
            exact before_of_ordered h before other mem
          rw [absent, Option.none_or]
        · rw [Option.or_none]
      · rw [lookup_cons_eq_if, lookup_cons_eq_if, ih (List.pairwise_cons.mp h).2]
        split <;> simp

theorem lookup_sortByName (name : String) (pairs : List (String × α)) :
    (sortByName pairs).lookup name = pairs.lookup name := by
  have fold : ∀ sorted : List (String × α), Ordered sorted →
      (pairs.foldl (fun sorted pair => insertByName pair sorted) sorted).lookup name =
        (sorted.lookup name).or (pairs.lookup name) := by
    induction pairs with
    | nil => simp
    | cons head rest ih =>
        intro sorted ordered
        rw [List.foldl_cons, ih _ (ordered_insertByName ordered), lookup_insertByName ordered,
          Option.or_assoc, lookup_cons_eq_if]
        split <;> simp
  simpa [sortByName] using fold [] List.Pairwise.nil

theorem ordered_sortByName (pairs : List (String × α)) : Ordered (sortByName pairs) := by
  have fold : ∀ sorted : List (String × α), Ordered sorted →
      Ordered (pairs.foldl (fun sorted pair => insertByName pair sorted) sorted) := by
    induction pairs with
    | nil => exact fun _ ordered => ordered
    | cons head rest ih =>
        intro sorted ordered
        exact ih _ (ordered_insertByName ordered)
  exact fold [] List.Pairwise.nil

theorem perm_insertByName (pair : String × α) (pairs : List (String × α)) :
    (insertByName pair pairs).Perm (pair :: pairs) := by
  induction pairs with
  | nil => exact .refl _
  | cons head rest ih =>
      rw [insertByName]
      split
      · exact .refl _
      · exact (ih.cons head).trans (.swap pair head rest)

theorem perm_sortByName (pairs : List (String × α)) : (sortByName pairs).Perm pairs := by
  have fold : ∀ sorted : List (String × α),
      (pairs.foldl (fun sorted pair => insertByName pair sorted) sorted).Perm (pairs ++ sorted) := by
    induction pairs with
    | nil => exact fun sorted => .refl sorted
    | cons head rest ih =>
        intro sorted
        rw [List.foldl_cons, List.cons_append]
        exact (ih _).trans (((perm_insertByName head sorted).append_left rest).trans
          List.perm_middle)
  simpa [sortByName] using fold []

theorem insertByName_of_before {pair : String × α} {pairs : List (String × α)}
    (before : ∀ other ∈ pairs, nameBefore pair.1 other.1 = true) :
    insertByName pair pairs = pair :: pairs := by
  cases pairs with
  | nil => rfl
  | cons head rest => rw [insertByName, if_pos (before head List.mem_cons_self)]

/-- Whether pairs are left out before or after another one is inserted makes no difference. -/
theorem insertByName_filter {keep : String × α → Bool} {pair : String × α}
    {pairs : List (String × α)} (h : Ordered pairs) (kept : keep pair = true) :
    insertByName pair (pairs.filter keep) = (insertByName pair pairs).filter keep := by
  induction pairs with
  | nil => simp [insertByName, kept]
  | cons head rest ih =>
      obtain ⟨first, tail⟩ := List.pairwise_cons.mp h
      by_cases before : nameBefore pair.1 head.1 = true
      · rw [insertByName_of_before, insertByName, if_pos before, List.filter_cons_of_pos kept]
        intro other mem
        obtain rfl | mem := List.mem_cons.mp (List.mem_filter.mp mem).1
        · exact before
        · exact nameBefore_of_not_before before (first other mem)
      · rw [insertByName, if_neg before]
        by_cases stays : keep head = true
        · rw [List.filter_cons_of_pos stays, List.filter_cons_of_pos stays, insertByName,
            if_neg before, ih tail]
        · rw [List.filter_cons_of_neg stays, List.filter_cons_of_neg stays, ih tail]

theorem filter_insertByName_of_neg {keep : String × α → Bool} {pair : String × α}
    (pairs : List (String × α)) (left : ¬ keep pair = true) :
    (insertByName pair pairs).filter keep = pairs.filter keep := by
  induction pairs with
  | nil => simp [insertByName, left]
  | cons head rest ih =>
      rw [insertByName]
      split
      · rw [List.filter_cons_of_neg left]
      · rw [List.filter_cons, List.filter_cons, ih]

/-- Whether pairs are left out before or after the others are ordered makes no difference. -/
theorem sortByName_filter (keep : String × α → Bool) (pairs : List (String × α)) :
    sortByName (pairs.filter keep) = (sortByName pairs).filter keep := by
  have fold : ∀ sorted : List (String × α), Ordered sorted →
      (pairs.filter keep).foldl (fun sorted pair => insertByName pair sorted)
          (sorted.filter keep) =
        (pairs.foldl (fun sorted pair => insertByName pair sorted) sorted).filter keep := by
    induction pairs with
    | nil => exact fun _ _ => rfl
    | cons head rest ih =>
        intro sorted ordered
        rw [List.foldl_cons, ← ih _ (ordered_insertByName ordered)]
        by_cases stays : keep head = true
        · rw [List.filter_cons_of_pos stays, List.foldl_cons, insertByName_filter ordered stays]
        · rw [List.filter_cons_of_neg stays, filter_insertByName_of_neg sorted stays]
  exact fold [] List.Pairwise.nil

/-- The names of the pairs are strictly increasing by their code points. -/
def Increasing (pairs : List (String × α)) : Prop :=
  (pairs.map (·.1)).Pairwise fun first second => nameBefore first second = true

theorem nameBefore_of_ne {first second : String} (h : nameBefore second first = false)
    (other : Text.codesOf first ≠ Text.codesOf second) : nameBefore first second = true := by
  simp only [nameBefore, decide_eq_false_iff_not, decide_eq_true_eq, List.not_lt] at h ⊢
  refine Decidable.byContradiction fun notBefore => other ?_
  exact List.le_antisymm h (List.not_lt.mp notBefore)

/-- Pairs whose names differ in their code points are put into strictly increasing order. -/
theorem increasing_sortByName {pairs : List (String × α)}
    (differ : (pairs.map fun pair => Text.codesOf pair.1).Nodup) :
    Increasing (sortByName pairs) := by
  have differ' : ((sortByName pairs).map fun pair => Text.codesOf pair.1).Nodup :=
    ((perm_sortByName pairs).map _).nodup_iff.mpr differ
  refine List.pairwise_map.mpr ?_
  exact ((ordered_sortByName pairs).and (List.pairwise_map.mp differ')).imp
    fun h => nameBefore_of_ne h.1 h.2

/-- Two pairs may be inserted in either order if their names differ in their code points. -/
theorem insertByName_comm {first second : String × α}
    (differ : Text.codesOf first.1 ≠ Text.codesOf second.1) (pairs : List (String × α)) :
    insertByName first (insertByName second pairs) =
      insertByName second (insertByName first pairs) := by
  -- Exactly one of the two names comes before the other.
  have total : nameBefore first.1 second.1 = !nameBefore second.1 first.1 := by
    cases before : nameBefore second.1 first.1 with
    | false => exact nameBefore_of_ne before differ
    | true =>
        apply eq_false_of_ne_true
        intro both
        have loop := nameBefore_trans both before
        rw [nameBefore_irrefl] at loop
        cases loop
  induction pairs with
  | nil => cases before : nameBefore second.1 first.1 <;> simp [insertByName, total, before]
  | cons head rest ih =>
      cases early : nameBefore first.1 head.1 <;> cases early' : nameBefore second.1 head.1
      · simp [insertByName, early, early', ih]
      · have before := nameBefore_of_not_before early' early
        simp [insertByName, early, early', total, before]
      · have before := nameBefore_of_not_before early early'
        rw [total, Bool.not_eq_true'] at before
        simp [insertByName, early, early', before]
      · cases before : nameBefore second.1 first.1 <;>
          simp [insertByName, early, early', total, before]

/-- Apply a function to what stands under a name. -/
def under {β : Type} (f : α → β) (pair : String × α) : String × β :=
  (pair.1, f pair.2)

section Maps

variable {β : Type}

theorem insertByName_map_of_names {g : String × α → String × β}
    (names : ∀ pair, (g pair).1 = pair.1) (pair : String × α) (pairs : List (String × α)) :
    insertByName (g pair) (pairs.map g) = (insertByName pair pairs).map g := by
  induction pairs with
  | nil => rfl
  | cons head rest ih =>
      rw [List.map_cons, insertByName, insertByName, ih, names, names]
      split <;> rfl

/-- A function that keeps the names may be applied before or after. -/
theorem sortByName_map_of_names (g : String × α → String × β)
    (names : ∀ pair, (g pair).1 = pair.1) (pairs : List (String × α)) :
    sortByName (pairs.map g) = (sortByName pairs).map g := by
  have fold : ∀ sorted : List (String × α),
      (pairs.map g).foldl (fun sorted pair => insertByName pair sorted) (sorted.map g) =
        (pairs.foldl (fun sorted pair => insertByName pair sorted) sorted).map g := by
    induction pairs with
    | nil => exact fun _ => rfl
    | cons head rest ih =>
        intro sorted
        rw [List.map_cons, List.foldl_cons, List.foldl_cons, insertByName_map_of_names names, ih]
  exact fold []

theorem sortByName_map (f : α → β) (pairs : List (String × α)) :
    sortByName (pairs.map (under f)) = (sortByName pairs).map (under f) :=
  sortByName_map_of_names (under f) (fun _ => rfl) pairs

theorem lookup_map_under (f : α → β) (name : String) (pairs : List (String × α)) :
    (pairs.map (under f)).lookup name = (pairs.lookup name).map f := by
  induction pairs with
  | nil => rfl
  | cons head rest ih =>
      rw [List.map_cons, lookup_cons_eq_if, lookup_cons_eq_if, ih]
      show (if name = head.1 then _ else _) = _
      split <;> rfl

end Maps

end SchemaForms
