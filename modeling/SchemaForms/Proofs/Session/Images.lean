import SchemaForms.Proofs.Expansion.Inert
import SchemaForms.Proofs.Session.Anchors
import SchemaForms.Proofs.Session.Stricter

/-!
# Root documents that are the same but for their data

Let two sessions have read the same documents besides their roots, and let these be the same but for
their data. What is fetched for a reference is then the same in both, and so is what is found there,
but for data. The root document may be found again; then `Json.sharesFragment` has to say that it is
not entered where the two differ.

That condition is stated with the anchors of both documents. They are collected from data as well,
but those outside data are the same in all documents that are the same but for their data.
-/

namespace SchemaForms

namespace Anchors

variable {f : Json → Json}

theorem own?_mapDataMembers (f : Json → Json) (isMap : Bool) (members : Members) :
    own? (Json.mapDataMembers f isMap members) = own? members := by
  have kept : Json.isData isMap "$anchor" = false := by cases isMap <;> decide
  unfold own?
  rw [Json.get?_mapDataMembers]
  cases Members.get? members "$anchor" with
  | none => rfl
  | some value =>
      rw [Option.map_some, Json.mapDataMember_of_not_isData kept]
      cases value <;> rfl

mutual

/-- The anchors outside data are anchors of the value, whatever is put in the place of the data. -/
theorem declared_mapData (bare : ∀ path value, declared path (f value) = []) :
    ∀ (value : Json) (isMap : Bool) (path : String),
      (declared path (value.mapData f isMap)).Sublist (declared path value)
  | .obj members, isMap, path => by
      rw [Json.mapData, declared, declared, own?_mapDataMembers]
      exact (List.Sublist.refl _).append (declaredMembers_mapData bare members isMap path)
  | .arr elements, _, path => declaredElements_mapData bare elements path 0
  | .null, _, _ | .bool _, _, _ | .int _, _, _ | .double _, _, _ | .str _, _, _ => .refl _

theorem declaredElements_mapData (bare : ∀ path value, declared path (f value) = []) :
    ∀ (elements : List Json) (path : String) (index : Nat),
      (declaredElements path index (Json.mapDataElements f elements)).Sublist
        (declaredElements path index elements)
  | [], _, _ => .refl _
  | value :: rest, path, index =>
      (declared_mapData bare value false _).append
        (declaredElements_mapData bare rest path (index + 1))

theorem declaredMembers_mapData (bare : ∀ path value, declared path (f value) = []) :
    ∀ (members : List (String × Json)) (isMap : Bool) (path : String),
      (declaredMembers path (Json.mapDataMembers f isMap members)).Sublist
        (declaredMembers path members)
  | [], _, _ => .refl _
  | (key, value) :: rest, isMap, path => by
      refine List.Sublist.append ?_ (declaredMembers_mapData bare rest isMap path)
      by_cases vendor : Dialect.isVendorExtension key = true
      · simp only [if_pos vendor]
        exact .refl _
      · simp only [if_neg vendor]
        split
        · rw [bare]
          exact List.nil_sublist _
        · exact declared_mapData bare value _ _

end

/-- So an anchor outside data is one of all values that are the same but for their data. -/
theorem declared_of_sameButData (bare : ∀ path value, declared path (f value) = [])
    {value other : Json} {isMap : Bool} {path : String} (same : value.SameButData f isMap other) :
    declared path (value.mapData f isMap) ⊆ declared path other := by
  rw [same]
  exact (declared_mapData bare other isMap path).subset

end Anchors

/-- What a fragment leads to in the first document is no data in which the second one differs. An
anchor has to be one of both documents, as it is if it is outside data. -/
def Json.sharesFragment (f : Json → Json) (payload other : Json) (fragment : String) : Bool :=
  let fragment := Text.dropLeading '#' fragment
  if fragment = "" then true
  else if Text.startsWith '/' fragment then
    shares f false payload other (Pointer.tokens fragment)
  else match AnchorTable.find? (Anchors.declared "#" payload) fragment with
    | none => true
    | some path =>
      (fragment, path) ∈ Anchors.declared "#" other &&
        shares f false payload other (Pointer.tokens (Text.dropLeading '#' path))

open Json (SameButData shares sharesFragment)

/-- A fragment that keeps outside data leads into none in which the documents differ. It is a pointer
that stays outside, or an anchor that is left if the data is taken away, with a path that does. -/
theorem sharesFragment_of_staysOutside {f : Json → Json} {payload other : Json} {fragment : String}
    (bare : ∀ path value, Anchors.declared path (f value) = [])
    (same : SameButData f false payload other)
    (pointer : Text.startsWith '/' (Text.dropLeading '#' fragment) = true →
      Json.staysOutside false (Pointer.tokens (Text.dropLeading '#' fragment)) = true)
    (anchor : ∀ path, (Anchors.declared "#" payload).find? (Text.dropLeading '#' fragment) =
        some path →
      (Text.dropLeading '#' fragment, path) ∈ Anchors.declared "#" (payload.mapData f false) ∧
        Json.staysOutside false (Pointer.tokens (Text.dropLeading '#' path)) = true) :
    sharesFragment f payload other fragment = true := by
  unfold sharesFragment
  generalize Text.dropLeading '#' fragment = fragment at pointer anchor ⊢
  simp only
  split
  · rfl
  · split
    · rename_i slash
      exact Json.shares_of_staysOutside (pointer slash)
    · split
      · rfl
      · rename_i path found
        obtain ⟨kept, outside⟩ := anchor path found
        have declared := Anchors.declared_of_sameButData bare same kept
        rw [decide_eq_true declared, Bool.true_and]
        exact Json.shares_of_staysOutside outside

section Documents

variable {f : Json → Json} {root image : Entry} {place : String}

/-- The second document stands in the place of the first, and is the same but for its data. -/
structure Entry.Imaged (root : Entry) (f : Json → Json) (image : Entry) : Prop where
  origin : image.origin = root.origin
  kind : image.kind = root.kind
  data : SameButData f false (.obj root.data) (.obj image.data)
  anchors : root.anchors = Anchors.declared "#" (.obj root.data)
  anchors' : image.anchors = Anchors.declared "#" (.obj image.data)
  distinct' : (image.anchors.map (·.1)).Nodup

/-- A document of the first run and the one in its place in the second: the two root documents, or
one that both have read. -/
inductive Entry.Pairs (root image : Entry) : Entry → Entry → Prop
  | root : Pairs root image root image
  | other (entry : Entry) : Pairs root image entry entry

/-- A target of the first run and the one in its place in the second. -/
structure Target.Pairs (f : Json → Json) (root image : Entry) (target target' : Target) : Prop where
  entry : Entry.Pairs root image target.entry target'.entry
  path : target'.path = target.path
  value : SameButData f false target.value target'.value

theorem Entry.Pairs.origin (imaged : root.Imaged f image) {entry entry' : Entry}
    (pairs : Entry.Pairs root image entry entry') : entry'.origin = entry.origin := by
  cases pairs with
  | root => exact imaged.origin
  | other => rfl

theorem Entry.Pairs.kind (imaged : root.Imaged f image) {entry entry' : Entry}
    (pairs : Entry.Pairs root image entry entry') : entry'.kind = entry.kind := by
  cases pairs with
  | root => exact imaged.kind
  | other => rfl

theorem Target.Pairs.key (imaged : root.Imaged f image) {target target' : Target}
    (pairs : Target.Pairs f root image target target') : target'.key = target.key := by
  rw [Target.key, Target.key, Entry.key, Entry.key, pairs.entry.origin imaged, pairs.path]

theorem resolvePointer_shares {value other found : Json} {pointer : String}
    (same : SameButData f false value other)
    (shared : shares f false value other (Pointer.tokens pointer) = true)
    (read : resolvePointer value pointer place = .ok found) :
    ∃ found', resolvePointer other pointer place = .ok found' ∧
      SameButData f false found found' := by
  obtain ⟨here, rfl⟩ | ⟨slash, walked⟩ := resolvePointer_ok_iff.mp read
  · exact ⟨other, resolvePointer_ok_iff.mpr (.inl ⟨here, rfl⟩), same⟩
  · obtain ⟨found', walked', like⟩ := same.descend shared walked
    exact ⟨found', resolvePointer_ok_iff.mpr (.inr ⟨slash, walked'⟩), like⟩

theorem read_shares {value other found : Json} {pointer written path : String}
    (same : SameButData f false value other)
    (shared : shares f false value other (Pointer.tokens pointer) = true)
    (read : (resolvePointer value pointer place).map (fun inner => (written, inner)) =
      .ok (path, found)) :
    ∃ found', (resolvePointer other pointer place).map (fun inner => (written, inner)) =
      .ok (path, found') ∧ SameButData f false found found' := by
  obtain ⟨inner, resolved, built⟩ := except_map_eq_ok.mp read
  obtain ⟨rfl, rfl⟩ := Prod.mk.inj built
  obtain ⟨found', resolved', like⟩ := resolvePointer_shares same shared resolved
  exact ⟨found', by rw [resolved']; rfl, like⟩

/-- A fragment that leads into no data in which the documents differ leads to the same in both, but
for data. -/
theorem Entry.Imaged.target (imaged : root.Imaged f image) {fragment : String} {target : Target}
    (shared : sharesFragment f (.obj root.data) (.obj image.data) fragment = true)
    (read : root.target fragment place = .ok target) :
    ∃ target', image.target fragment place = .ok target' ∧
      Target.Pairs f root image target target' := by
  obtain ⟨⟨path, value⟩, found, rfl⟩ := except_map_eq_ok.mp read
  clear read
  have enough {value' : Json} (like : SameButData f false value value')
      (found : image.fragment fragment place = .ok (path, value')) :
      ∃ target', image.target fragment place = .ok target' ∧
        Target.Pairs f root image ⟨root, path, value⟩ target' :=
    ⟨⟨image, path, value'⟩, by rw [Entry.target, found]; rfl, .root, rfl, like⟩
  unfold sharesFragment at shared
  unfold Entry.fragment at found enough
  generalize Text.dropLeading '#' fragment = fragment at found shared enough
  have distinct := imaged.distinct'
  simp only [imaged.anchors, imaged.anchors'] at found shared enough distinct
  split at found
  · rename_i here
    rw [if_pos here] at enough
    obtain ⟨rfl, rfl⟩ := Prod.mk.inj (Except.ok.inj found)
    exact enough imaged.data rfl
  · rename_i elsewhere
    rw [if_neg elsewhere] at shared enough
    split at found
    · rename_i slash
      rw [if_pos slash] at shared enough
      obtain ⟨value', found', like⟩ := read_shares imaged.data shared found
      exact enough like found'
    · rename_i slash
      rw [if_neg slash] at shared enough
      split at found
      · cases found
      · rename_i anchor named
        simp only [named, Bool.and_eq_true, decide_eq_true_eq] at shared
        obtain ⟨declared, shared⟩ := shared
        have named' := Anchors.find?_of_mem distinct declared
        simp only [named'] at enough
        split at found
        · rename_i here
          rw [if_pos here] at enough
          obtain ⟨rfl, rfl⟩ := Prod.mk.inj (Except.ok.inj found)
          exact enough imaged.data rfl
        · rename_i elsewhere
          rw [if_neg elsewhere] at enough
          obtain ⟨value', found', like⟩ := read_shares imaged.data shared found
          exact enough like found'

end Documents

/-- The states of the two runs: they have read the same besides their roots, by the same requests,
and expand the same references. -/
structure SessionState.Twins (root image : Entry) (state state' : SessionState) : Prop where
  cache : ∃ rest, state.cache = root :: rest ∧ state'.cache = image :: rest
  root : state.root = some root
  image : state'.root = some image
  requests : state'.requests = state.requests
  trail : state'.trail = state.trail

namespace Session

variable {session : Session} {f : Json → Json} {root image entry entry' : Entry}
variable {ref place : String}
variable {state state' after : SessionState}

theorem twins_opened (root image : Entry) :
    SessionState.Twins root image (.opened root) (.opened image) :=
  ⟨⟨[], rfl, rfl⟩, rfl, rfl, rfl, rfl⟩

theorem find?_twins (imaged : root.Imaged f image)
    (twins : SessionState.Twins root image state state') (key : String) :
    (state.find? key = none ∧ state'.find? key = none) ∨
      ∃ entry entry', state.find? key = some entry ∧ state'.find? key = some entry' ∧
        Entry.Pairs root image entry entry' := by
  obtain ⟨rest, cache, cache'⟩ := twins.cache
  have same : image.key = root.key := congrArg Origin.key imaged.origin
  simp only [SessionState.find?, cache, cache', List.find?_cons, same]
  by_cases here : root.key = key
  · simp only [here, decide_true]
    exact .inr ⟨_, _, rfl, rfl, .root⟩
  · simp only [here, decide_false]
    cases List.find? (fun entry => entry.key = key) rest with
    | none => exact .inl ⟨rfl, rfl⟩
    | some entry => exact .inr ⟨entry, entry, rfl, rfl, .other entry⟩

/-- The second run loads what the first one does, or the other root in the place of the one. -/
theorem load_twins (imaged : root.Imaged f image)
    (twins : SessionState.Twins root image state state') {source : Source}
    (run : (session.load source).outcome state = (.ok entry, after)) :
    ∃ entry' after', (session.load source).outcome state' = (.ok entry', after') ∧
      Entry.Pairs root image entry entry' ∧ SessionState.Twins root image after after' := by
  have ends := session.load_ends source state
  rw [run] at ends
  have both := find?_twins imaged twins (session.originOf source).key
  cases ends with
  | found found =>
      obtain ⟨missing, -⟩ | ⟨first, entry', found₁, found', pairs⟩ := both
      · rw [found] at missing
        cases missing
      · obtain rfl := Option.some.inj (found₁.symm.trans found)
        exact ⟨entry', state', load_of_find? found', pairs, twins⟩
  | accepted asks =>
      have missing := SessionState.find?_eq_none_iff.mpr asks.missing
      obtain ⟨-, missing'⟩ | ⟨first, -, found, -⟩ := both
      · obtain ⟨rest, cache, cache'⟩ := twins.cache
        obtain ⟨loader, some, reply⟩ := asks.replied
        have length : state'.cache.length = state.cache.length := by rw [cache, cache']; rfl
        have asks' : session.Asks state'.requests state'.cache source (.ok entry) :=
          ⟨SessionState.find?_eq_none_iff.mp missing', length ▸ asks.space, loader, some,
            twins.requests ▸ reply⟩
        have run' : (session.load source).outcome state' =
            (.ok entry, (state'.requested source).store entry) := by
          rw [load_of_missing missing', if_neg (Nat.not_le.mpr asks'.space), some]
          simp only [twins.requests, reply]
        refine ⟨entry, _, run', .other entry, ?_⟩
        exact ⟨⟨rest ++ [entry], by rw [asks.cache, cache]; rfl, by rw [asks'.cache, cache']; rfl⟩,
          twins.root, twins.image, congrArg (· ++ [source]) twins.requests, twins.trail⟩
      · rw [missing] at found
        cases found

/-- Only what a document is known by and what kind it is decides on what its references name. -/
theorem sourceOf_twins (imaged : root.Imaged f image)
    (twins : SessionState.Twins root image state state')
    (pairs : Entry.Pairs root image entry entry') (path : String) :
    session.sourceOf state' entry' ref path place = session.sourceOf state entry ref path place := by
  have origin := pairs.origin imaged
  have kind := pairs.kind imaged
  simp only [sourceOf, fileSource, relativeSource, SessionState.rootDirectory, twins.root,
    twins.image, Option.map_some, Entry.directory, Entry.location, imaged.origin, imaged.kind,
    origin, kind]

/-- The second run finds what the first one does, unless it is in data of the root document. -/
theorem locate_twins (imaged : root.Imaged f image)
    (twins : SessionState.Twins root image state state')
    (pairs : Entry.Pairs root image entry entry') {target : Target}
    (shared : target.entry = root →
      sharesFragment f (.obj root.data) (.obj image.data) (fragmentPart ref) = true)
    (run : (session.locate entry ref place).outcome state = (.ok target, after)) :
    ∃ target' after', (session.locate entry' ref place).outcome state' = (.ok target', after') ∧
      Target.Pairs f root image target target' ∧ SessionState.Twins root image after after' := by
  have reads {first second : Entry} (pairs : Entry.Pairs root image first second)
      (read : first.target (fragmentPart ref) place = .ok target) :
      ∃ target', second.target (fragmentPart ref) place = .ok target' ∧
        Target.Pairs f root image target target' := by
    cases pairs with
    | root => exact imaged.target (shared (entry_of_target read)) read
    | other => exact ⟨target, read, .other _, rfl, .refl _ _ _⟩
  rw [locate_eq] at run ⊢
  split at run
  · rename_i here
    rw [if_pos here]
    rw [Run.outcome_lift, Prod.mk.injEq] at run
    obtain ⟨read, rfl⟩ := run
    obtain ⟨target', read', like⟩ := reads pairs read
    exact ⟨target', state', by rw [Run.outcome_lift, read'], like, twins⟩
  · rename_i elsewhere
    rw [if_neg elsewhere]
    obtain ⟨source, named, run⟩ :=
      Run.outcome_lift_bind_eq_ok.mp (Run.outcome_get_bind_eq_ok.mp run)
    obtain ⟨other, middle, loaded, run⟩ := Run.outcome_bind_eq_ok.mp run
    rw [Run.outcome_lift, Prod.mk.injEq] at run
    obtain ⟨read, rfl⟩ := run
    obtain ⟨other', after', loaded', pairs', twins'⟩ := load_twins imaged twins loaded
    obtain ⟨target', read', like⟩ := reads pairs' read
    refine ⟨target', after', ?_, like, twins'⟩
    refine Run.outcome_get_bind_eq_ok.mpr (Run.outcome_lift_bind_eq_ok.mpr ⟨source, ?_, ?_⟩)
    · rw [sourceOf_twins imaged twins pairs, named]
    · exact Run.outcome_bind_eq_ok.mpr ⟨other', after', loaded', by rw [Run.outcome_lift, read']⟩

end Session

end SchemaForms
