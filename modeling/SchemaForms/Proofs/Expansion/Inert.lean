import SchemaForms.Proofs.Expansion.ReferenceFree
import SchemaForms.Proofs.Expansion.References
import SchemaForms.Proofs.Json.Data

/-!
# Data does not take part in an expansion

What a walk does at a value does not depend on the data in it. Values that are the same but for
their data have their references at the same paths; the references have the same text, and what is
put into their targets is the same but for data. So a walk over the one value is told from a walk over
the other, as soon as this is known of following their references.

A `Mirror` says what it means to tell one run from another: whenever a step of the first run
succeeds, so does the step of the second one, with a value like that of the first. It is one-sided.
`Mirror.Maps` is kept by putting steps together.
-/

namespace SchemaForms

open Json

section Merge

variable {f : Json → Json} {place : String}

theorem set_mapDataMembers (f : Json → Json) (isMap : Bool) (members : Members) (key : String)
    (value : Json) :
    Members.set (mapDataMembers f isMap members) key (mapDataMember f isMap key value) =
      mapDataMembers f isMap (Members.set members key value) := by
  induction members with
  | nil => rfl
  | cons member rest ih =>
      obtain ⟨name, old⟩ := member
      by_cases same : name = key
      · subst same
        simp [mapDataMembers, mapDataMember, Members.set]
      · simp [mapDataMembers, Members.set, same, ih]

namespace Reference

theorem siblings_mapDataMembers (f : Json → Json) (isMap : Bool) (node : Members) :
    siblings (mapDataMembers f isMap node) = mapDataMembers f isMap (siblings node) := by
  simp only [siblings, Members.erase, mapDataMembers_eq_map, List.filter_map]
  rfl

theorem mergeSibling_mapData (f : Json → Json) (place : String) (target : Members)
    (sibling : String × Json) :
    mergeSibling place (mapDataMembers f false target)
        (sibling.1, mapDataMember f false sibling.1 sibling.2) =
      (mergeSibling place target sibling).map (mapDataMembers f false) := by
  unfold mergeSibling
  split
  · rw [set_mapDataMembers]
    rfl
  · rfl

theorem foldlM_mergeSibling_mapData (f : Json → Json) (place : String) (siblings target : Members) :
    (mapDataMembers f false siblings).foldlM (mergeSibling place) (mapDataMembers f false target) =
      (siblings.foldlM (mergeSibling place) target).map (mapDataMembers f false) := by
  induction siblings generalizing target with
  | nil => rfl
  | cons sibling rest ih =>
      obtain ⟨key, value⟩ := sibling
      have first := mergeSibling_mapData f place target (key, value)
      have split : mapDataMembers f false ((key, value) :: rest) =
          (key, mapDataMember f false key value) :: mapDataMembers f false rest := rfl
      rw [split, List.foldlM_cons, List.foldlM_cons, first]
      cases put : mergeSibling place target (key, value) with
      | error fault => rfl
      | ok next => exact ih next

/-- With something else in the place of their data, a target and the members beside a reference make
up what they do otherwise, with that in the place of its data. -/
theorem merge_mapData (f : Json → Json) (target : Json) (node : Members) (place : String) :
    merge (target.mapData f false) (mapDataMembers f false node) place =
      (merge target node place).map (mapData f false) := by
  unfold merge
  rw [siblings_mapDataMembers]
  cases target with
  | obj members =>
      simp only [mapData, foldlM_mergeSibling_mapData]
      cases (siblings node).foldlM (mergeSibling place) members <;> rfl
  | _ =>
      have empty : (mapDataMembers f false (siblings node)).isEmpty = (siblings node).isEmpty := by
        rw [mapDataMembers_eq_map, List.isEmpty_map]
      simp only [mapData, empty]
      split <;> rfl

/-- What is put together of the same things but for data is the same but for data. -/
theorem merge_sameButData {target other merged : Json} {node others : Members}
    (same : SameButData f false target other)
    (beside : mapDataMembers f false others = mapDataMembers f false node)
    (put : merge target node place = .ok merged) :
    ∃ merged', merge other others place = .ok merged' ∧ SameButData f false merged merged' := by
  have mapped := merge_mapData f other others place
  rw [beside, ← same, merge_mapData, put] at mapped
  obtain ⟨merged', put', eq⟩ := except_map_eq_ok.mp mapped.symm
  exact ⟨merged', put', Eq.symm eq⟩

end Reference

/-- Whether an object refers, and by which text, has nothing to do with its data. -/
theorem Expansion.refText_mapDataMembers (f : Json → Json) (node : Members) (place : String) :
    refText (mapDataMembers f false node) place = refText node place := by
  unfold refText
  rw [get?_mapDataMembers]
  cases Members.get? node "$ref" with
  | none => rfl
  | some value => cases value <;> rfl

theorem Expansion.refText_congr {node others : Members}
    (same : mapDataMembers f false others = mapDataMembers f false node) (place : String) :
    refText others place = refText node place := by
  rw [← refText_mapDataMembers, same, refText_mapDataMembers]

end Merge

/-- How one run is told from another: the effect of the steps of the first one, which of its states
are of interest, and to which states of the second one they are related. -/
structure Mirror where
  effect : Effect
  counts : SessionState → Prop
  earlier : ∀ {state after}, effect.done state after → counts after → counts state
  twins : SessionState → SessionState → Prop

namespace Mirror

variable {α β γ δ : Type} {mirror : Mirror}

/-- If the first step succeeds, and leaves a state of interest, then the second one succeeds from
any state related to the first one's, with a value like the first one's. -/
structure Maps (mirror : Mirror) (same : α → β → Prop) (step : Run α) (step' : Run β) : Prop where
  meets : ∀ state, mirror.effect.Meets step state fun _ _ => True
  follows : ∀ {state state' after value}, mirror.twins state state' → mirror.counts after →
    step.outcome state = (.ok value, after) →
      ∃ value' after', step'.outcome state' = (.ok value', after') ∧ same value value' ∧
        mirror.twins after after'

namespace Maps

variable {same : α → β → Prop} {step : Run α} {step' : Run β}

theorem pure {value : α} {value' : β} (h : same value value') :
    mirror.Maps same (Pure.pure value) (Pure.pure value') where
  meets _ := Effect.meets_pure trivial
  follows twins _ run := by
    rw [Run.outcome_pure, Prod.mk.injEq, Except.ok.injEq] at run
    obtain ⟨rfl, rfl⟩ := run
    exact ⟨value', _, rfl, h, twins⟩

theorem map {same' : γ → δ → Prop} {f : α → γ} {f' : β → δ} (h : mirror.Maps same step step')
    (mapped : ∀ {value value'}, same value value' → same' (f value) (f' value')) :
    mirror.Maps same' (f <$> step) (f' <$> step') where
  meets state := ((h.meets state).mono fun _ _ _ _ => trivial).map
  follows twins counts run := by
    obtain ⟨value, first, rfl⟩ := Run.outcome_map_eq_ok.mp run
    obtain ⟨value', after', first', like, twins⟩ := h.follows twins counts first
    exact ⟨f' value', after', Run.outcome_map_eq_ok.mpr ⟨value', first', rfl⟩, mapped like, twins⟩

theorem mono {same' : α → β → Prop} (h : mirror.Maps same step step')
    (imp : ∀ {value value'}, same value value' → same' value value') :
    mirror.Maps same' step step' where
  meets := h.meets
  follows twins counts run := by
    obtain ⟨value', after', run', like, twins⟩ := h.follows twins counts run
    exact ⟨value', after', run', imp like, twins⟩

/-- Two steps, one after the other, of which both values are kept. -/
theorem both {ε ζ : Type} {same' : γ → δ → Prop} {all : ε → ζ → Prop} {next : Run γ} {next' : Run δ}
    {build : α → γ → ε} {build' : β → δ → ζ} (h : mirror.Maps same step step')
    (h' : mirror.Maps same' next next')
    (built : ∀ {value value' more more'}, same value value' → same' more more' →
      all (build value more) (build' value' more')) :
    mirror.Maps all (do return build (← step) (← next)) (do return build' (← step') (← next')) where
  meets state := by
    apply Effect.Meets.bind
    apply (h.meets state).mono
    intro middle _ _ _
    apply Effect.Meets.bind
    exact (h'.meets middle).mono fun _ _ _ _ => Effect.meets_pure trivial
  follows twins counts run := by
    obtain ⟨value, middle, first, run⟩ := Run.outcome_bind_eq_ok.mp run
    obtain ⟨more, after, second, run⟩ := Run.outcome_bind_eq_ok.mp run
    rw [Run.outcome_pure, Prod.mk.injEq, Except.ok.injEq] at run
    obtain ⟨rfl, rfl⟩ := run
    have between := mirror.earlier ((h'.meets middle).ok second).1 counts
    obtain ⟨value', middle', first', like, twins⟩ := h.follows twins between first
    obtain ⟨more', after', second', like', twins⟩ := h'.follows twins counts second
    refine ⟨build' value' more', after', ?_, built like like', twins⟩
    refine Run.outcome_bind_eq_ok.mpr ⟨value', middle', first', ?_⟩
    exact Run.outcome_bind_eq_ok.mpr ⟨more', after', second', rfl⟩

end Maps

end Mirror

/-- The place is that of a map of schemas. -/
def Place.isMap : Place → Bool
  | .schemaMap => true
  | .schema | .schemaList | .data => false

namespace Expansion

/-- The members of an object that are data, or a map of schemas, have the places of these, and no
other member has that of a map. -/
structure Fits (isMap : Bool) (placeOf : String → Place) : Prop where
  data : ∀ key, isData isMap key = true → placeOf key = .data
  map : ∀ key, (placeOf key).isMap = holdsMap isMap key

theorem fits_ofMember : Fits false Place.ofMember where
  data key data := by
    have named : key = "const" ∨ key = "default" ∨ key = "enum" := by
      simpa [isData, dataKeys] using data
    obtain rfl | rfl | rfl := named <;> decide
  map key := by
    have named : (Place.ofMember key).isMap = true ↔ key ∈ schemaMaps := by
      rw [← Place.ofMember_eq_schemaMap_iff]
      cases Place.ofMember key <;> simp [Place.isMap]
    rw [Bool.eq_iff_iff, named]
    simp [holdsMap]

theorem fits_schemas : Fits true fun _ => .schema where
  data _ data := by cases data
  map _ := rfl

section Walk

variable {mirror : Mirror} {f : Json → Json} {follow follow' : Follow}

/-- Following the references is told from following those that are the same but for their data. -/
def FollowsAlike (mirror : Mirror) (f : Json → Json) (follow follow' : Follow)
    (nodes : List (Members × String)) : Prop :=
  ∀ node ∈ nodes, ∀ others, mapDataMembers f false others = mapDataMembers f false node.1 →
    mirror.Maps (SameButData f false) (follow node.1 node.2) (follow' others node.2)

theorem walk_maps_of_keeps {place : Place} {path : String} {value other : Json}
    (kept : keeps place value = true) (same : SameButData f place.isMap value other) :
    mirror.Maps (SameButData f place.isMap) (walk follow place path value)
      (walk follow' place path other) := by
  have kept' : keeps place other = true := by
    cases value <;> cases other <;> first | cases same; done | cases place <;> exact kept
  rw [walk_of_keeps kept, walk_of_keeps kept']
  exact .pure same

/-- Data stays what it is, and all other members are walked over. -/
theorem member_maps {isMap : Bool} {placeOf : String → Place} (fits : Fits isMap placeOf)
    {key path : String} {value other : Json}
    (same : mapDataMember f isMap key other = mapDataMember f isMap key value)
    (walked : SameButData f (placeOf key).isMap value other →
      mirror.Maps (SameButData f (placeOf key).isMap) (walk follow (placeOf key) path value)
        (walk follow' (placeOf key) path other)) :
    mirror.Maps
      (fun result result' => mapDataMember f isMap key result' = mapDataMember f isMap key result)
      (walk follow (placeOf key) path value) (walk follow' (placeOf key) path other) := by
  cases data : isData isMap key with
  | true =>
      rw [fits.data key data, walk_of_keeps rfl, walk_of_keeps rfl]
      exact .pure same
  | false =>
      simp only [mapDataMember_of_not_isData data, ← fits.map key] at same ⊢
      exact (walked same.symm).mono Eq.symm

mutual

/-- A walk over a value is told from the walk over one that is the same but for its data, and the
results are the same but for their data. -/
theorem walk_maps : ∀ (value other : Json) (place : Place) (path : String),
    SameButData f place.isMap value other →
    FollowsAlike mirror f follow follow' (references place path value) →
    mirror.Maps (SameButData f place.isMap) (walk follow place path value)
      (walk follow' place path other)
  | .obj members, other, place, path, same, each => by
      obtain ⟨others, rfl, alike⟩ := same.obj
      cases place with
      | schema =>
          have refers : Members.has others "$ref" = Members.has members "$ref" := by
            rw [← has_mapDataMembers f false others, ← has_mapDataMembers f false members]
            exact congrArg (Members.has · "$ref") alike
          by_cases isReference : Members.has members "$ref" = true
          · simp only [walk, references, refers, if_pos isReference] at each ⊢
            exact each _ (List.mem_singleton_self _) others alike
          · simp only [walk, references, refers, if_neg isReference] at each ⊢
            exact (walkMembers_maps fits_ofMember members others path alike each).map
              fun like => sameButData_obj.mpr like.symm
      | schemaMap =>
          exact (walkMembers_maps fits_schemas members others path alike each).map
            fun like => sameButData_obj.mpr like.symm
      | schemaList | data => exact walk_maps_of_keeps rfl same
  | .arr elements, other, place, path, same, each => by
      obtain ⟨others, rfl, alike⟩ := same.arr
      cases place with
      | schema | schemaList =>
          exact (walkElements_maps elements others path 0 alike each).map
            fun like => sameButData_arr.mpr like.symm
      | schemaMap | data => exact walk_maps_of_keeps rfl same
  | .null, _, place, _, same, _ | .bool _, _, place, _, same, _ | .int _, _, place, _, same, _
  | .double _, _, place, _, same, _ | .str _, _, place, _, same, _ =>
      walk_maps_of_keeps (by cases place <;> rfl) same

theorem walkElements_maps : ∀ (elements others : List Json) (path : String) (index : Nat),
    mapDataElements f others = mapDataElements f elements →
    FollowsAlike mirror f follow follow' (referencesOfElements path index elements) →
    mirror.Maps (fun results results' => mapDataElements f results' = mapDataElements f results)
      (walkElements follow path index elements) (walkElements follow' path index others)
  | [], [], _, _, _, _ => .pure rfl
  | value :: rest, other :: more, path, index, same, each => by
      obtain ⟨head, tail⟩ := List.cons.inj same
      obtain ⟨first, second⟩ := List.forall_mem_append.mp each
      refine (walk_maps value other .schema _ head.symm first).both
        (walkElements_maps rest more path (index + 1) tail second) ?_
      intro result result' results results' like like'
      have like : result.mapData f false = result'.mapData f false := like
      rw [mapDataElements, mapDataElements, like, like']

theorem walkMembers_maps {isMap : Bool} {placeOf : String → Place} (fits : Fits isMap placeOf) :
    ∀ (members others : List (String × Json)) (path : String),
    mapDataMembers f isMap others = mapDataMembers f isMap members →
    FollowsAlike mirror f follow follow' (referencesOfMembers placeOf path members) →
    mirror.Maps
      (fun results results' => mapDataMembers f isMap results' = mapDataMembers f isMap results)
      (walkMembers follow placeOf path members) (walkMembers follow' placeOf path others)
  | [], [], _, _, _ => .pure rfl
  | (key, value) :: rest, (name, other) :: more, path, same, each => by
      obtain ⟨member, tail⟩ := List.cons.inj same
      obtain ⟨rfl, head⟩ := Prod.mk.inj member
      obtain ⟨first, second⟩ := List.forall_mem_append.mp each
      have walked := fun alike => walk_maps value other (placeOf name) (Pointer.join path [name])
        alike first
      refine (member_maps fits head walked).both
        (walkMembers_maps fits rest more path tail second) ?_
      intro result result' results results' like like'
      show (name, mapDataMember f isMap name result') :: mapDataMembers f isMap results' = _
      rw [like, like']
      rfl

end

end Walk

end Expansion

end SchemaForms
