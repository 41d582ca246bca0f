import SchemaForms.Proofs.Expansion.Overlaid
import SchemaForms.Proofs.Session.Transparency

/-!
# Members along a chain of references

The target of a reference may be a reference itself, and so on. The members beside the first one are
put into the second, and what that comes to is put into the third with the reference of the second;
so the members beside all of them gather on the way to the end of the chain, where they are put into
the last target. `Gathered` is what has come together, and the induction along the chain carries it.
-/

namespace SchemaForms

open Reference Expansion

/-- The value of a member beside the first reference of the chain that has such a member. -/
def outermost (links : List Members) (key : String) : Option Json :=
  links.findSome? fun node => Members.get? (siblings node) key

theorem outermost_cons (node : Members) (links : List Members) (key : String) :
    outermost (node :: links) key =
      (Members.get? (siblings node) key).or (outermost links key) := by
  rw [outermost, List.findSome?_cons]
  cases Members.get? (siblings node) key <;> rfl

/-- The members beside the references of a chain have come to stand behind those that were there at
its beginning. -/
structure Gathered (links : List Members) (before after : Members) : Prop where
  allowed : AllAllowed after
  distinct : (Members.keys after).Nodup
  outermost : ∀ key, Members.get? after key =
    (Members.get? before key).or (SchemaForms.outermost links key)

namespace Session

variable {session : Session}

/-- A chain of references, as a session that begins in the state comes to them: each node is an
object whose reference denotes the next one, up to a last node that is none. At the end of the chain
its references are being expanded. -/
inductive Chain (session : Session) :
    SessionState → Target → List Members → SessionState → Target → Prop
  | last {state : SessionState} {target : Target}
      (ends : ∀ members, target.value = .obj members → Members.has members "$ref" = false) :
      Chain session state target [] state target
  | link {state middle after : SessionState} {entry : Entry} {path ref : String} {node : Members}
      {next last : Target} {links : List Members} (distinct : (Members.keys node).Nodup)
      (written : refText node (entry.location ++ path) = .ok ref)
      (located : (session.locate entry ref (entry.location ++ path)).outcome state =
        (.ok next, middle))
      (rest : Chain session { middle with trail := middle.trail.push next.key } next links after
        last) :
      Chain session state ⟨entry, path, .obj node⟩ (node :: links) after last

variable {state after : SessionState} {start last : Target} {links : List Members}

/-- All references of a chain are being expanded at its end. -/
theorem Chain.depth (chain : session.Chain state start links after last) :
    after.trail.depth = state.trail.depth + links.length := by
  induction chain with
  | last => rfl
  | link _ _ located _ ih =>
      rw [ih, ← trail_of_locate located, List.length_cons]
      simp only [Trail.depth, Trail.push, List.length_cons]
      omega

theorem Chain.ends (chain : session.Chain state start links after last) :
    ∀ members, last.value = .obj members → Members.has members "$ref" = false := by
  induction chain with
  | last ends => exact ends
  | link _ _ _ _ ih => exact ih

theorem has_of_refText {node : Members} {place ref : String}
    (written : refText node place = .ok ref) : Members.has node "$ref" = true := by
  unfold refText at written
  split at written
  · rename_i found
    rw [Members.has, found]
    rfl
  · cases written

/-- What has been put into a node leaves its reference alone. -/
theorem get?_ref_setAll {siblings : Members} (allowed : AllAllowed siblings)
    (distinct : (Members.keys siblings).Nodup) (node : Members) :
    Members.get? (Members.setAll node siblings) "$ref" = Members.get? node "$ref" := by
  rw [Members.get?_setAll distinct, get?_ref_of_allAllowed allowed]
  rfl

/-- The members beside a reference into which others have been put, if all of them are allowed. -/
theorem gathered_link {node before : Members} (allowed : AllAllowed before)
    (distinct : (Members.keys before).Nodup) (distinct' : (Members.keys node).Nodup)
    (all : AllAllowed (siblings (Members.setAll node before))) :
    AllAllowed (siblings node) ∧
      Gathered [node] before (siblings (Members.setAll node before)) := by
  refine ⟨?_, all, nodup_keys_siblings (Members.nodup_keys_setAll distinct' before), ?_⟩
  · intro member mem
    obtain ⟨there, other⟩ := mem_siblings.mp mem
    have key : member.1 ∈ Members.keys (Members.setAll node before) :=
      Members.mem_keys_setAll.mpr (.inr (List.mem_map_of_mem there))
    obtain ⟨merged, mem', same⟩ := List.mem_map.mp key
    rw [← same] at other ⊢
    exact all merged (mem_siblings.mpr ⟨mem', other⟩)
  · intro key
    rw [outermost_cons, outermost, List.findSome?_nil, Option.or_none]
    by_cases ref : key = "$ref"
    · rw [ref, get?_siblings_ref, get?_siblings_ref, get?_ref_of_allAllowed allowed]
      rfl
    · rw [get?_siblings_of_ne ref, get?_siblings_of_ne ref, Members.get?_setAll distinct]

/-- The expansion of a node into which members have been put is that of the last node of its chain,
into which all members on the way have been put. -/
theorem Chain.resolves (chain : session.Chain state start links after last) {before : Members}
    {value result : Json} {budget : Nat} {ended : SessionState} (allowed : AllAllowed before)
    (distinct : (Members.keys before).Nodup) (filled : Filled before start.value value)
    (run : (expand session budget start.entry .schema start.path value).outcome state =
      (.ok result, ended)) :
    (∀ node ∈ links, AllAllowed (siblings node)) ∧
      ∃ less total final ended', budget = less + links.length ∧ Gathered links before total ∧
        Filled total last.value final ∧
        (expand session less last.entry .schema last.path final).outcome after =
          (.ok result, ended') := by
  induction chain generalizing before value budget ended with
  | last =>
      have gathered : Gathered [] before before :=
        ⟨allowed, distinct, fun key => (Option.or_none).symm⟩
      exact ⟨by simp, budget, before, value, ended, rfl, gathered, filled, run⟩
  | @link state middle after entry path ref node next last links distinct' written located _ ih =>
      obtain rfl : value = .obj (Members.setAll node before) := by
        cases filled with
        | obj => rfl
        | other other => exact absurd rfl (other node)
      have same := get?_ref_setAll allowed distinct node
      have has : Members.has (Members.setAll node before) "$ref" = true := by
        rw [Members.has, same]
        exact has_of_refText written
      have written' : refText (Members.setAll node before) (entry.location ++ path) = .ok ref := by
        rwa [refText, same]
      rw [expand_eq, walk, if_pos has] at run
      obtain ⟨ref', target, middle', _, merged, text, found, below, -, put, run⟩ :=
        follow_eq_ok.mp run
      obtain rfl := Except.ok.inj (written'.symm.trans text)
      obtain ⟨⟨rfl⟩, rfl⟩ := Prod.mk.inj (located.symm.trans found)
      cases budget with
      | zero => cases below
      | succ less =>
          cases below
          obtain ⟨inner, run, -⟩ := nested_eq_ok.mp run
          obtain ⟨all, filled'⟩ := merge_eq_ok.mp put
          obtain ⟨own, gathered⟩ := gathered_link allowed distinct distinct' all
          obtain ⟨others, less', total, final, ended', rfl, gathered', filled', run⟩ :=
            ih all gathered.distinct filled' run
          refine ⟨List.forall_mem_cons.mpr ⟨own, others⟩, less', total, final, ended', rfl, ?_,
            filled', run⟩
          refine ⟨gathered'.allowed, gathered'.distinct, fun key => ?_⟩
          rw [gathered'.outermost, gathered.outermost, outermost_cons, outermost_cons,
            Option.or_assoc, outermost, List.findSome?_nil, Option.or_none]

/-- An object into which members have been put is expanded as the object is, and has them then. -/
theorem expand_setAll {members siblings : Members} {entry : Entry} {path : String} {budget : Nat}
    {result : Json} {ended : SessionState} (allowed : AllAllowed siblings)
    (distinct : (Members.keys siblings).Nodup) (hasNot : Members.has members "$ref" = false)
    (run : (expand session budget entry .schema path
      (.obj (Members.setAll members siblings))).outcome state = (.ok result, ended)) :
    ∃ own, result = .obj (Members.setAll own siblings) ∧
      (expand session budget entry .schema path (.obj members)).outcome state =
        (.ok (.obj own), ended) := by
  have hasNot' : Members.has (Members.setAll members siblings) "$ref" = false := by
    rwa [Members.has, get?_ref_setAll allowed distinct]
  have data : ∀ member ∈ siblings, Place.ofMember member.1 = .data := fun member mem =>
    ofMember_of_isAllowedSibling (allowed member mem)
  rw [expand_eq, walk, if_neg (by simp [hasNot']), walkMembers_setAll data] at run
  obtain ⟨_, mapped, rfl⟩ := Run.outcome_map_eq_ok.mp run
  obtain ⟨own, walked, rfl⟩ := Run.outcome_map_eq_ok.mp mapped
  refine ⟨own, rfl, ?_⟩
  rw [expand_eq, walk, if_neg (by simp [hasNot])]
  exact Run.outcome_map_eq_ok.mpr ⟨own, walked, rfl⟩

/-- If nothing has gathered along a chain, there are no members beside its references. -/
theorem siblings_of_gathered (gathered : Gathered links [] []) :
    ∀ node ∈ links, siblings node = [] := by
  intro node mem
  rw [List.eq_nil_iff_forall_not_mem]
  intro member there
  have none : outermost links member.1 = none := (gathered.outermost member.1).symm
  have missing := List.findSome?_eq_none_iff.mp none node mem
  exact Members.get?_eq_none_iff.mp missing (List.mem_map_of_mem there)

/-- What is known of a chain whose first node is resolved. -/
theorem Chain.of_resolved (chain : session.Chain state start links after last) {result : Json}
    {ended : SessionState}
    (run : (session.resolveNode start.entry start.value start.path).outcome state =
      (.ok result, ended)) :
    (∀ node ∈ links, AllAllowed (siblings node)) ∧
      ∃ total final ended', Gathered links [] total ∧ Filled total last.value final ∧
        (expand session (session.budget after) last.entry .schema last.path final).outcome after =
          (.ok result, ended') := by
  rw [resolveNode, Run.outcome_get_bind_eq_ok] at run
  have nothing : Filled [] start.value start.value := by
    cases start.value with
    | obj members => exact .obj members
    | _ => exact .other (by simp)
  obtain ⟨own, less, total, final, ended', enough, gathered, filled, run⟩ :=
    chain.resolves allAllowed_nil (by simp [Members.keys]) nothing run
  obtain rfl : less = session.budget after := by
    rw [budget] at enough ⊢
    rw [chain.depth]
    omega
  exact ⟨own, total, final, ended', gathered, filled, run⟩

/-- Members along a chain of references. If the last node is an object and the first one is resolved,
all members beside the references are allowed there, the result has of each the value next to the
beginning of the chain, and is otherwise what the last node is resolved to. A chain with a member
that is not allowed is not resolved, and neither is one with any member that ends at another value. -/
theorem siblings_along_chain (chain : session.Chain state start links after last) :
    let run := (session.resolveNode start.entry start.value start.path).outcome state
    (∀ members result, last.value = .obj members → run.1 = .ok result →
      (∀ node ∈ links, AllAllowed (siblings node)) ∧
        ∃ results own, result = .obj results ∧
          ((session.resolveNode last.entry last.value last.path).outcome after).1 = .ok (.obj own) ∧
          ∀ key, Members.get? results key = (outermost links key).or (Members.get? own key)) ∧
    ((∃ node ∈ links, ¬ AllAllowed (siblings node)) → ∃ error, run.1 = .error error) ∧
    ((∀ members, last.value ≠ .obj members) → (∃ node ∈ links, siblings node ≠ []) →
      ∃ error, run.1 = .error error) := by
  intro run
  have fails (h : ∀ result, run.1 ≠ .ok result) : ∃ error, run.1 = .error error := by
    cases ended : run.1 with
    | error error => exact ⟨error, rfl⟩
    | ok result => exact absurd ended (h result)
  refine ⟨?_, ?_, ?_⟩
  · intro members result value resolved
    obtain ⟨allowed, total, final, ended, gathered, filled, expanded⟩ :=
      chain.of_resolved (Prod.ext resolved rfl)
    refine ⟨allowed, ?_⟩
    rw [value] at filled ⊢
    obtain rfl : final = .obj (Members.setAll members total) := by
      cases filled with
      | obj => rfl
      | other other => exact absurd rfl (other members)
    obtain ⟨own, rfl, walked⟩ :=
      expand_setAll gathered.allowed gathered.distinct (chain.ends members value) expanded
    have alone : (session.resolveNode last.entry (.obj members) last.path).outcome after =
        (.ok (.obj own), ended) := by
      rw [resolveNode, Run.outcome_get_bind_eq_ok]
      exact walked
    refine ⟨_, own, rfl, by rw [alone], fun key => ?_⟩
    rw [Members.get?_setAll gathered.distinct, gathered.outermost]
    rfl
  · rintro ⟨node, mem, refused⟩
    apply fails
    intro result resolved
    exact refused ((chain.of_resolved (Prod.ext resolved rfl)).1 node mem)
  · rintro other ⟨node, mem, some⟩
    apply fails
    intro result resolved
    obtain ⟨-, total, final, -, gathered, filled, -⟩ :=
      chain.of_resolved (Prod.ext resolved rfl)
    generalize last.value = target at filled other
    cases filled with
    | obj members => exact other members rfl
    | other => exact some (siblings_of_gathered gathered node mem)

end Session

namespace Sample

def outer : Members := [("$ref", .str "#/$defs/n"), ("title", .str "Outer")]

def inner : Members :=
  [("$ref", .str "n.json#a"), ("title", .str "Inner"), ("description", .str "D")]

def linked : Entry where
  origin := session.originOf root.source
  kind := .fs
  data := [("items", .obj outer), ("$defs", .obj [("n", .obj inner)])]
  anchors := []

end Sample

/-- The definition and the other document are read with the outer title and the inner description. -/
theorem Session.siblings_along_chain_sample :
    ∃ after last, Sample.session.Chain (.opened Sample.linked)
        ⟨Sample.linked, "#/items", .obj Sample.outer⟩ [Sample.outer, Sample.inner] after last ∧
      ∃ results, ((Sample.session.resolveNode Sample.linked (.obj Sample.outer) "#/items").outcome
          (.opened Sample.linked)).1 = .ok (.obj results) ∧
        Members.get? results "title" = some (.str "Outer") ∧
        Members.get? results "description" = some (.str "D") := by
  let place := Sample.linked.location ++ "#/$defs/n"
  let next : Target := ⟨Sample.linked, "#/$defs/n", .obj Sample.inner⟩
  let inside : SessionState := { SessionState.opened Sample.linked with
    trail := Trail.push {} next.key }
  have first (place : String) : (Sample.session.locate Sample.linked "#/$defs/n" place).outcome
      (.opened Sample.linked) = (.ok next, .opened Sample.linked) := by
    rw [Session.locate_eq, if_pos (by decide +kernel), Run.outcome_lift]
    rfl
  have second : ((Sample.session.locate Sample.linked "n.json#a" place).outcome
      inside).1.toOption.map Target.value = some (.obj [("$schema",
        .str "https://json-schema.org/draft/2020-12/schema"), ("$anchor", .str "a")]) := by
    decide +kernel
  have resolved : ((Sample.session.resolveNode Sample.linked (.obj Sample.outer) "#/items").outcome
      (.opened Sample.linked)).1.toOption.isSome = true := by decide +kernel
  generalize located : (Sample.session.locate Sample.linked "n.json#a" place).outcome inside =
    found at second
  obtain ⟨found, after⟩ := found
  cases found with
  | error => cases second
  | ok last =>
      have value := Option.some.inj second
      have ends : ∀ members, last.value = .obj members → Members.has members "$ref" = false := by
        rintro members same
        obtain rfl := Json.obj.inj (value.symm.trans same)
        decide
      have chain : Sample.session.Chain (.opened Sample.linked)
          ⟨Sample.linked, "#/items", .obj Sample.outer⟩ [Sample.outer, Sample.inner]
          { after with trail := after.trail.push last.key } last :=
        .link (by decide) rfl (first _) (.link (by decide) rfl located (.last ends))
      cases run : ((Sample.session.resolveNode Sample.linked (.obj Sample.outer) "#/items").outcome
          (.opened Sample.linked)).1 with
      | error error =>
          rw [run] at resolved
          cases resolved
      | ok result =>
          obtain ⟨-, results, own, rfl, -, laid⟩ :=
            (Session.siblings_along_chain chain).1 _ result value run
          exact ⟨_, last, chain, results, rfl, laid "title", laid "description"⟩

end SchemaForms
