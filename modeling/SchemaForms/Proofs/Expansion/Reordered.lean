import SchemaForms.Proofs.Expansion.Siblings
import SchemaForms.Proofs.Json.Reordered

/-!
# Expansions of reordered values

Values that are the same but for the order of members have the same anchors, their pointers lead to
values that are the same but for the order of members, and so are what is put together of such
targets and such members beside a reference.

A walk over the one value is not told step by step from a walk over the other, since the two come to
the references in different orders. `Walked` does not know of that order. So `Walked.reordered` takes
what a walk may give over to the other value, and `Walked.runs` walks over a value for which it is
known of each single reference that it can be followed from all states of interest.
-/

namespace SchemaForms

namespace Json

/-- The values are the same but for the order of the members of objects, wherever these are. -/
abbrev SameButOrder (value other : Json) : Prop :=
  Reordered .everywhere () value other

/-- The members of two objects are the same but for their order, and for the order of members in
their values. -/
abbrev SameMembers (members others : Members) : Prop :=
  ReorderedMembers .everywhere (fun _ => ()) members others

theorem sameButOrder_obj {members others : Members} :
    SameButOrder (.obj members) (.obj others) ↔ SameMembers members others := by
  constructor
  · intro same
    cases same with
    | same => exact .refl _ _
    | obj _ each => exact each
  · exact .obj trivial

theorem SameButOrder.exists_obj {members : Members} {other : Json}
    (same : SameButOrder (.obj members) other) :
    ∃ others, other = .obj others ∧ SameMembers members others := by
  cases same with
  | same => exact ⟨members, rfl, .refl _ _⟩
  | obj _ each => exact ⟨_, rfl, each⟩

theorem SameButOrder.str_eq {text : String} {other : Json} (same : SameButOrder (.str text) other) :
    other = .str text := by
  cases same
  rfl

section Members

variable {members others : Members}

/-- If the one object has a member of the name, so has the other. -/
theorem SameMembers.exists_get? (same : SameMembers members others) {key : String} {value : Json}
    (has : Members.get? members key = some value) :
    ∃ other, Members.get? others key = some other ∧ SameButOrder value other := by
  have both := same.get? key
  rw [has] at both
  generalize Members.get? others key = found at both
  cases both with
  | some like => exact ⟨_, rfl, like⟩

theorem SameMembers.has (same : SameMembers members others) (key : String) :
    Members.has others key = Members.has members key := by
  have both := same.get? key
  unfold Members.has
  generalize Members.get? members key = found at both
  generalize Members.get? others key = found' at both
  cases both <;> rfl

theorem SameMembers.get?_str (same : SameMembers members others) {key text : String} :
    Members.get? members key = some (.str text) ↔ Members.get? others key = some (.str text) := by
  constructor
  · intro has
    obtain ⟨_, has', like⟩ := same.exists_get? has
    rw [has', like.str_eq]
  · intro has
    obtain ⟨_, has', like⟩ := SameMembers.exists_get? same.symm has
    rw [has', like.str_eq]

theorem filter_cons_same (keep : String → Bool) {key : String} {old new : Json}
    (head : SameButOrder old new) {rest rest' : Members}
    (below : SameMembers (rest.filter fun member => keep member.1)
      (rest'.filter fun member => keep member.1)) :
    SameMembers (((key, old) :: rest).filter fun member => keep member.1)
      (((key, new) :: rest').filter fun member => keep member.1) := by
  rw [List.filter_cons, List.filter_cons]
  cases keep key with
  | true => exact .cons head below
  | false => exact below

theorem filter_swap_same (keep : String → Bool) {first second : String × Json}
    (differ : Text.codesOf first.1 ≠ Text.codesOf second.1) (rest : Members) :
    SameMembers ((first :: second :: rest).filter fun member => keep member.1)
      ((second :: first :: rest).filter fun member => keep member.1) := by
  rw [List.filter_cons, List.filter_cons, List.filter_cons, List.filter_cons]
  cases keep first.1 with
  | false => exact .refl _ _
  | true =>
      cases keep second.1 with
      | false => exact .refl _ _
      | true => exact .swap _ differ

theorem SameMembers.filter (keep : String → Bool) : ∀ {spots : String → Unit}
    {members others : Members}, ReorderedMembers .everywhere spots members others →
      SameMembers (members.filter fun member => keep member.1)
        (others.filter fun member => keep member.1)
  | _, _, _, .nil => .nil
  | _, _, _, .cons head tail => filter_cons_same keep head (SameMembers.filter keep tail)
  | _, _, _, .swap rest differ => filter_swap_same keep differ rest
  | _, _, _, .trans first second =>
      .trans (SameMembers.filter keep first) (SameMembers.filter keep second)

theorem set_same_members (rest : Members) (key : String) {value other : Json}
    (like : SameButOrder value other) :
    SameMembers (Members.set rest key value) (Members.set rest key other) := by
  induction rest with
  | nil => exact .cons like .nil
  | cons member rest ih =>
      rw [Members.set, Members.set]
      split
      · exact .cons like (.refl _ rest)
      · exact .cons (.same _ member.2) ih

theorem set_cons_same {key name : String} {value other old new : Json}
    (like : SameButOrder value other) (head : SameButOrder old new) {rest rest' : Members}
    (tail : SameMembers rest rest')
    (below : SameMembers (Members.set rest key value) (Members.set rest' key other)) :
    SameMembers (Members.set ((name, old) :: rest) key value)
      (Members.set ((name, new) :: rest') key other) := by
  rw [Members.set, Members.set]
  split
  · exact .cons like tail
  · exact .cons head below

theorem set_swap_same {key : String} {value other : Json} (like : SameButOrder value other)
    {first second : String × Json} (differ : Text.codesOf first.1 ≠ Text.codesOf second.1)
    (rest : Members) :
    SameMembers (Members.set (first :: second :: rest) key value)
      (Members.set (second :: first :: rest) key other) := by
  obtain ⟨name, old⟩ := first
  obtain ⟨name', old'⟩ := second
  have names : name ≠ name' := fun same => differ (congrArg Text.codesOf same)
  by_cases here : name = key
  · subst here
    simp only [Members.set, if_true, names.symm, if_false]
    exact .trans (.swap rest differ) (.cons (.same _ _) (.cons like (.refl _ _)))
  · by_cases there : name' = key
    · subst there
      simp only [Members.set, if_true, names, if_false]
      exact .trans (.swap rest differ) (.cons like (.refl _ _))
    · simp only [Members.set, here, there, if_false]
      exact .trans (.swap _ differ)
        (.cons (.same _ _) (.cons (.same _ _) (set_same_members rest key like)))

theorem SameMembers.set (key : String) {value other : Json} (like : SameButOrder value other) :
    ∀ {spots : String → Unit} {members others : Members},
      ReorderedMembers .everywhere spots members others →
      SameMembers (Members.set members key value) (Members.set others key other)
  | _, _, _, .nil => .cons like .nil
  | _, _, _, .cons head tail => set_cons_same like head tail (SameMembers.set key like tail)
  | _, _, _, .swap rest differ => set_swap_same like differ rest
  | _, _, _, .trans first second =>
      .trans (SameMembers.set key (.same _ value) first) (SameMembers.set key like second)

/-- Two members of different names may be set in either order. -/
theorem set_set_same {key key' : String} (differ : Text.codesOf key ≠ Text.codesOf key')
    (members : Members) (value value' : Json) :
    SameMembers (Members.set (Members.set members key value) key' value')
      (Members.set (Members.set members key' value') key value) := by
  have names : key ≠ key' := fun same => differ (congrArg Text.codesOf same)
  induction members with
  | nil =>
      simp only [Members.set, names, names.symm, if_false]
      exact .swap [] differ
  | cons member rest ih =>
      obtain ⟨name, old⟩ := member
      by_cases here : name = key
      · subst here
        simp only [Members.set, names, if_true, if_false]
        exact .refl _ _
      · by_cases there : name = key'
        · subst there
          simp only [Members.set, here, if_true, if_false]
          exact .refl _ _
        · simp only [Members.set, here, there, if_false]
          exact .cons (.same _ old) ih

end Members

end Json

open Json (SameButOrder SameMembers sameButOrder_obj Reordered ReorderedElements ReorderedMembers)

/-- A pointer leads to a value in both if it leads to one in the first, and the two are the same but
for the order of members. -/
theorem Pointer.descend_reordered {tokens : List String} {value other found : Json}
    (same : SameButOrder value other) (run : descend value tokens = .ok found) :
    ∃ found', descend other tokens = .ok found' ∧ SameButOrder found found' := by
  have step {value other inner : Json} {token : String} (same : SameButOrder value other)
      (run : child value token = .ok inner) :
      ∃ inner', child other token = .ok inner' ∧ SameButOrder inner inner' := by
    cases same with
    | same => exact ⟨inner, run, .same _ inner⟩
    | @obj _ members others _ each =>
        unfold child at run
        cases has : Members.get? members token with
        | none => simp [has] at run
        | some value =>
            obtain ⟨value', has', like⟩ := Json.SameMembers.exists_get? each has
            simp only [has, Except.ok.injEq] at run
            subst run
            exact ⟨value', by simp [child, has'], like⟩
    | @arr _ elements others each =>
        simp only [child, each.length] at run
        cases at' : index token others.length with
        | error fault => simp [at'] at run
        | ok place =>
            cases place with
            | none => simp [at'] at run
            | some number =>
                have both := each.getElem? number
                simp only [at', Option.bind_some] at run
                generalize elements[number]? = first at both run
                generalize second : others[number]? = found at both
                cases both with
                | none => simp at run
                | @some value value' like =>
                    simp only [Except.ok.injEq] at run
                    subst run
                    exact ⟨value', by simp [child, at', second], like⟩
  induction tokens generalizing value other with
  | nil =>
      obtain rfl := Except.ok.inj run
      exact ⟨other, rfl, same⟩
  | cons token rest ih =>
      rw [descend_cons] at run
      obtain ⟨inner, first, run⟩ := except_bind_eq_ok.mp run
      obtain ⟨inner', first', like⟩ := step same first
      obtain ⟨found', run', like'⟩ := ih like run
      exact ⟨found', by rw [descend_cons, first']; exact run', like'⟩

namespace Reference

/-- The same members are put into targets that are the same but for the order of members. -/
theorem foldlM_mergeSibling_same {place : String} (siblings : Members)
    {target target' merged : Members} (same : SameMembers target target')
    (put : siblings.foldlM (mergeSibling place) target = .ok merged) :
    ∃ merged', siblings.foldlM (mergeSibling place) target' = .ok merged' ∧
      SameMembers merged merged' := by
  induction siblings generalizing target target' with
  | nil =>
      obtain rfl := Except.ok.inj put
      exact ⟨target', rfl, same⟩
  | cons sibling rest ih =>
      obtain ⟨allowed, put⟩ := foldlM_mergeSibling_cons.mp put
      obtain ⟨merged', put', like⟩ := ih (Json.SameMembers.set _ (.same _ _) same) put
      exact ⟨merged', foldlM_mergeSibling_cons.mpr ⟨allowed, put'⟩, like⟩

/-- Two members of different names may be put in in either order. -/
theorem foldlM_mergeSibling_swap {place : String} {first second : String × Json}
    (differ : Text.codesOf first.1 ≠ Text.codesOf second.1) (rest : Members)
    {target target' merged : Members} (same : SameMembers target target')
    (put : (first :: second :: rest).foldlM (mergeSibling place) target = .ok merged) :
    ∃ merged', (second :: first :: rest).foldlM (mergeSibling place) target' = .ok merged' ∧
      SameMembers merged merged' := by
  obtain ⟨allowed, put⟩ := foldlM_mergeSibling_cons.mp put
  obtain ⟨allowed', put⟩ := foldlM_mergeSibling_cons.mp put
  have both : SameMembers (Members.set (Members.set target first.1 first.2) second.1 second.2)
      (Members.set (Members.set target' second.1 second.2) first.1 first.2) := by
    refine .trans ?_ (Json.set_set_same differ target' _ _)
    exact Json.SameMembers.set _ (.same _ _) (Json.SameMembers.set _ (.same _ _) same)
  obtain ⟨merged', put', like⟩ := foldlM_mergeSibling_same rest both put
  exact ⟨merged', foldlM_mergeSibling_cons.mpr ⟨allowed', foldlM_mergeSibling_cons.mpr
    ⟨allowed, put'⟩⟩, like⟩

/-- The order in which members are put into a target matters only for the order of its members. -/
theorem foldlM_mergeSibling_reordered {place : String} :
    ∀ {spots : String → Unit} {siblings siblings' : Members},
      ReorderedMembers .everywhere spots siblings siblings' →
      ∀ {target target' merged : Members}, SameMembers target target' →
        siblings.foldlM (mergeSibling place) target = .ok merged →
        ∃ merged', siblings'.foldlM (mergeSibling place) target' = .ok merged' ∧
          SameMembers merged merged'
  | _, _, _, .nil, _, _, _, same, put => foldlM_mergeSibling_same [] same put
  | _, _, _, .cons head tail, _, _, _, same, put => by
      obtain ⟨allowed, put⟩ := foldlM_mergeSibling_cons.mp put
      obtain ⟨merged', put', like⟩ :=
        foldlM_mergeSibling_reordered tail (Json.SameMembers.set _ head same) put
      exact ⟨merged', foldlM_mergeSibling_cons.mpr ⟨allowed, put'⟩, like⟩
  | _, _, _, .swap rest differ, _, _, _, same, put =>
      foldlM_mergeSibling_swap differ rest same put
  | _, _, _, .trans first second, target, _, _, same, put => by
      obtain ⟨middle, put, like⟩ := foldlM_mergeSibling_reordered first (.refl _ target) put
      obtain ⟨merged', put, like'⟩ := foldlM_mergeSibling_reordered second same put
      exact ⟨merged', put, .trans like like'⟩

/-- What is put together of things that are the same but for the order of members is so as well. -/
theorem merge_reordered {target target' merged : Json} {node node' : Members} {place : String}
    (same : SameButOrder target target') (beside : SameMembers node node')
    (put : merge target node place = .ok merged) :
    ∃ merged', merge target' node' place = .ok merged' ∧ SameButOrder merged merged' := by
  have siblings' : SameMembers (siblings node) (siblings node') :=
    Json.SameMembers.filter (fun key => key ≠ "$ref") beside
  have alone {value : Json} (put : (if (siblings node).isEmpty then Except.ok value
      else .error (Error.schema (.reference .targetNotObject) place)) = .ok merged) :
      (siblings node').isEmpty = true ∧ value = merged := by
    split at put
    · rename_i empty
      exact ⟨siblings'.isEmpty.trans empty, Except.ok.inj put⟩
    · cases put
  cases target with
  | obj members =>
      obtain ⟨members', rfl, each⟩ := same.exists_obj
      obtain ⟨found, filled, rfl⟩ : ∃ found,
          (siblings node).foldlM (mergeSibling place) members = .ok found ∧ .obj found = merged :=
        except_map_eq_ok.mp put
      obtain ⟨found', filled', like⟩ := foldlM_mergeSibling_reordered siblings' each filled
      refine ⟨.obj found', ?_, sameButOrder_obj.mpr like⟩
      rw [merge, filled']
      rfl
  | arr elements =>
      obtain ⟨empty, rfl⟩ := alone put
      cases same with
      | same => exact ⟨_, if_pos empty, .same _ _⟩
      | arr each => exact ⟨_, if_pos empty, .arr each⟩
  | null | bool | int | double | str =>
      obtain ⟨empty, rfl⟩ := alone put
      cases same
      exact ⟨_, if_pos empty, .same _ _⟩

end Reference

namespace Anchors

theorem own?_reordered {members others : Members} (same : SameMembers members others) :
    own? others = own? members := by
  have both := same.get? "$anchor"
  unfold own?
  generalize Members.get? members "$anchor" = found at both
  generalize Members.get? others "$anchor" = found' at both
  cases both with
  | none => rfl
  | some like =>
      cases like with
      | same | arr | obj => rfl

mutual

theorem declared_reordered : ∀ {place : Unit} {value other : Json},
    Reordered .everywhere place value other →
      ∀ path, (declared path value).Perm (declared path other)
  | _, _, _, .same _ _, _ => .refl _
  | _, _, _, .arr each, path => declaredElements_reordered each path 0
  | _, _, _, .obj _ each, path => by
      rw [declared, declared, own?_reordered each]
      exact (declaredMembers_reordered each path).append_left _

theorem declaredElements_reordered : ∀ {place : Unit} {elements others : List Json},
    ReorderedElements .everywhere place elements others →
      ∀ path index, (declaredElements path index elements).Perm (declaredElements path index others)
  | _, _, _, .nil, _, _ => .refl _
  | _, _, _, .cons head tail, path, index =>
      (declared_reordered head _).append (declaredElements_reordered tail path (index + 1))

theorem declaredMembers_reordered : ∀ {placeOf : String → Unit} {members others : Members},
    ReorderedMembers .everywhere placeOf members others →
      ∀ path, (declaredMembers path members).Perm (declaredMembers path others)
  | _, _, _, .nil, _ => .refl _
  | _, _, _, .cons head tail, path => by
      rw [declaredMembers, declaredMembers]
      refine List.Perm.append ?_ (declaredMembers_reordered tail path)
      split
      · exact .refl _
      · exact declared_reordered head _
  | _, _, _, .swap rest _, path => by
      simp only [declaredMembers, ← List.append_assoc]
      exact List.perm_append_comm.append_right _
  | _, _, _, .trans first second, path =>
      (declaredMembers_reordered first path).trans (declaredMembers_reordered second path)

end

end Anchors

namespace Expansion

theorem refText_reordered {node others : Members} (same : SameMembers node others)
    {place ref : String} (written : refText node place = .ok ref) :
    refText others place = .ok ref := by
  unfold refText at written ⊢
  split at written
  · rename_i text has
    rw [same.get?_str.mp has]
    exact written
  · cases written

section Walked

variable {gives : Members → String → Json → Prop}

theorem keeps_reordered {place : Place} {value other : Json} {spot : Unit}
    (same : Reordered .everywhere spot value other) : keeps place other = keeps place value := by
  cases same <;> cases place <;> rfl

mutual

/-- What a walk over a value may give, a walk over the reordered value may give in another order, if
what is given for a reference is given for it in any order of its members. -/
theorem Walked.reordered
    (closed : ∀ (node others : Members) (path : String) (result : Json), gives node path result →
      SameMembers node others → gives others path result) :
    ∀ {spot : Unit} {place : Place} {path : String} {value other result : Json},
      Reordered .everywhere spot value other → Walked gives place path value result →
        ∃ result', SameButOrder result result' ∧ Walked gives place path other result'
  | _, _, _, _, _, result, .same _ _, walked => ⟨result, .same _ result, walked⟩
  | _, place, path, _, _, result, .arr each, walked => by
      cases walked with
      | kept h =>
          have same : SameButOrder (.arr _) (.arr _) := .arr each
          exact ⟨_, same, .kept ((keeps_reordered same).trans h)⟩
      | elements list walked =>
          obtain ⟨results', like, walked'⟩ := WalkedElements.reordered closed each walked
          exact ⟨.arr results', .arr like, .elements list walked'⟩
  | _, place, path, _, _, result, .obj _ each, walked => by
      cases walked with
      | kept h =>
          exact ⟨_, .obj trivial each, .kept ((keeps_reordered (.obj trivial each)).trans h)⟩
      | reference has followed =>
          have has' := (Json.SameMembers.has each "$ref").trans has
          exact ⟨result, .same _ result, .reference has' (closed _ _ _ _ followed each)⟩
      | schema hasNot walked =>
          have hasNot' := (Json.SameMembers.has each "$ref").trans hasNot
          obtain ⟨results', like, walked'⟩ := WalkedMembers.reordered closed each walked
          exact ⟨.obj results', .obj trivial like, .schema hasNot' walked'⟩
      | schemaMap walked =>
          obtain ⟨results', like, walked'⟩ := WalkedMembers.reordered closed each walked
          exact ⟨.obj results', .obj trivial like, .schemaMap walked'⟩

theorem WalkedElements.reordered
    (closed : ∀ (node others : Members) (path : String) (result : Json), gives node path result →
      SameMembers node others → gives others path result) :
    ∀ {spot : Unit} {path : String} {index : Nat} {elements others results : List Json},
      ReorderedElements .everywhere spot elements others →
      WalkedElements gives path index elements results →
        ∃ results', ReorderedElements .everywhere () results results' ∧
          WalkedElements gives path index others results'
  | _, _, _, _, _, _, .nil, .nil => ⟨[], .nil, .nil⟩
  | _, _, _, _, _, _, .cons head tail, .cons first rest => by
      obtain ⟨result', like, first'⟩ := Walked.reordered closed head first
      obtain ⟨results', likes, rest'⟩ := WalkedElements.reordered closed tail rest
      exact ⟨result' :: results', .cons like likes, .cons first' rest'⟩

theorem WalkedMembers.reordered
    (closed : ∀ (node others : Members) (path : String) (result : Json), gives node path result →
      SameMembers node others → gives others path result) :
    ∀ {spots : String → Unit} {placeOf : String → Place} {path : String}
      {members others results : Members},
      ReorderedMembers .everywhere spots members others →
      WalkedMembers gives placeOf path members results →
        ∃ results', SameMembers results results' ∧ WalkedMembers gives placeOf path others results'
  | _, _, _, _, _, _, .nil, .nil => ⟨[], .nil, .nil⟩
  | _, _, _, _, _, _, .cons head tail, .cons first rest => by
      obtain ⟨result', like, first'⟩ := Walked.reordered closed head first
      obtain ⟨results', likes, rest'⟩ := WalkedMembers.reordered closed tail rest
      exact ⟨_, .cons like likes, .cons first' rest'⟩
  | _, _, _, _, _, _, .swap _ differ, .cons first (.cons second rest) =>
      ⟨_, .swap _ differ, .cons second (.cons first rest)⟩
  | _, _, _, _, _, _, .trans before after, walked => by
      obtain ⟨middle, like, walked⟩ := WalkedMembers.reordered closed before walked
      obtain ⟨results', like', walked⟩ := WalkedMembers.reordered closed after walked
      exact ⟨results', .trans like like', walked⟩

end

/-- From every good state the step succeeds, with a value like the given one, and leaves a good
state. -/
def Succeeds {α : Type} (good : SessionState → Prop) (like : α → α → Prop) (step : Run α)
    (value : α) : Prop :=
  ∀ state, good state → ∃ value' after, step.outcome state = (.ok value', after) ∧
    like value value' ∧ good after

namespace Succeeds

variable {α β γ : Type} {good : SessionState → Prop} {like : α → α → Prop} {like' : β → β → Prop}

theorem pure {value : α} (same : like value value) : Succeeds good like (Pure.pure value) value :=
  fun state ready => ⟨value, state, rfl, same, ready⟩

theorem map {step : Run α} {value : α} {f : α → β} (h : Succeeds good like step value)
    (mapped : ∀ {value value'}, like value value' → like' (f value) (f value')) :
    Succeeds good like' (f <$> step) (f value) := by
  intro state ready
  obtain ⟨value', after, run, same, ready'⟩ := h state ready
  exact ⟨f value', after, Run.outcome_map_eq_ok.mpr ⟨value', run, rfl⟩, mapped same, ready'⟩

/-- Two steps, one after the other, of which both values are kept. -/
theorem both {like'' : γ → γ → Prop} {step : Run α} {next : Run β} {value : α} {more : β}
    {build : α → β → γ} (h : Succeeds good like step value) (h' : Succeeds good like' next more)
    (built : ∀ {value' more'}, like value value' → like' more more' →
      like'' (build value more) (build value' more')) :
    Succeeds good like'' (do return build (← step) (← next)) (build value more) := by
  intro state ready
  obtain ⟨value', middle, first, same, ready'⟩ := h state ready
  obtain ⟨more', after, second, same', ready''⟩ := h' middle ready'
  refine ⟨build value' more', after, ?_, built same same', ready''⟩
  refine Run.outcome_bind_eq_ok.mpr ⟨value', middle, first, ?_⟩
  exact Run.outcome_bind_eq_ok.mpr ⟨more', after, second, rfl⟩

end Succeeds

variable {good : SessionState → Prop} {follow : Follow}

mutual

/-- A walk succeeds from every good state with what it may give, but for the order of members, if
following each of the references does. -/
theorem Walked.runs
    (each : ∀ node path result, gives node path result →
      Succeeds good SameButOrder (follow node path) result) :
    ∀ {place : Place} {path : String} {value result : Json}, Walked gives place path value result →
      Succeeds good SameButOrder (walk follow place path value) result
  | _, _, _, _, .kept keeps => by
      rw [walk_of_keeps keeps]
      exact .pure (.same _ _)
  | _, _, _, _, .reference has followed => by
      simp only [walk, if_pos has]
      exact each _ _ _ followed
  | _, _, _, _, .schema hasNot walked => by
      simp only [walk, hasNot, Bool.false_eq_true, if_false]
      exact (walked.runs each).map sameButOrder_obj.mpr
  | _, _, _, _, .schemaMap walked => (walked.runs each).map sameButOrder_obj.mpr
  | _, _, _, _, .elements (.inl rfl) walked => (walked.runs each).map .arr
  | _, _, _, _, .elements (.inr rfl) walked => (walked.runs each).map .arr

theorem WalkedElements.runs
    (each : ∀ node path result, gives node path result →
      Succeeds good SameButOrder (follow node path) result) :
    ∀ {path : String} {index : Nat} {values results : List Json},
      WalkedElements gives path index values results →
        Succeeds good (ReorderedElements .everywhere ()) (walkElements follow path index values)
          results
  | _, _, _, _, .nil => .pure .nil
  | _, _, _, _, .cons head tail => (head.runs each).both (tail.runs each) .cons

theorem WalkedMembers.runs
    (each : ∀ node path result, gives node path result →
      Succeeds good SameButOrder (follow node path) result) :
    ∀ {placeOf : String → Place} {path : String} {values results : Members},
      WalkedMembers gives placeOf path values results →
        Succeeds good SameMembers (walkMembers follow placeOf path values) results
  | _, _, _, _, .nil => .pure .nil
  | _, _, _, _, .cons head tail =>
      (head.runs each).both (tail.runs each) fun like likes => .cons like likes

end

end Walked

end Expansion

end SchemaForms
