import Mathlib.Data.List.Perm.Subperm
import SchemaForms.Proofs.Session.Keyed
import SchemaForms.Proofs.Session.Stricter
import SchemaForms.Proofs.Session.Transparency

/-!
# Sessions that have read more

Two sessions with one root differ in what they have read. One is ahead of the other if it has all
documents that the other one has, and each document more is what any request for its key would bring
to the other one too. So is a session after any row of calls ahead of the one that it was at first, if
its loader goes by keys.

A step is `Unaware` if it comes to the same in both, and keeps the one ahead. Only one thing can come
between: the session that is ahead may have no space for a document, while the other one has.
`Unaware` is closed under doing one step after another, so a run is unaware because loading a
document is.
-/

namespace SchemaForms

namespace Session

variable {session : Session} {few many : SessionState} {α β : Type}

/-- Any request for the key of the document brings it. -/
def Brings (session : Session) (entry : Entry) : Prop :=
  ∃ loader, session.loader = some loader ∧ ∀ earlier source,
    (session.originOf source).key = entry.key → session.reply loader earlier source = .ok entry

/-- The second session has read what the first one has, and perhaps more that the first one would
read as well. -/
structure Ahead (session : Session) (few many : SessionState) : Prop where
  root : many.root = few.root
  trail : many.trail = few.trail
  keeps : few.cache ⊆ many.cache
  brings : ∀ entry ∈ many.cache, entry ∈ few.cache ∨ session.Brings entry
  distinct : (few.cache.map Entry.key).Nodup
  distinct' : (many.cache.map Entry.key).Nodup
  bounded : many.cache.length ≤ session.options.maxDocuments

namespace Ahead

/-- What the one session finds, the session ahead of it finds. -/
theorem find? (h : session.Ahead few many) {key : String} {entry : Entry}
    (found : few.find? key = some entry) : many.find? key = some entry := by
  rw [← SessionState.key_of_find? found]
  exact SessionState.find?_of_mem h.distinct' (h.keeps (SessionState.mem_of_find? found))

/-- What only the session ahead finds is what a request of the other one brings. -/
theorem brings_of_find? (h : session.Ahead few many) {key : String} {entry : Entry}
    (missing : few.find? key = none) (found : many.find? key = some entry) :
    session.Brings entry := by
  obtain mem | brings := h.brings entry (SessionState.mem_of_find? found)
  · rw [SessionState.find?_eq_none_iff, ← SessionState.key_of_find? found] at missing
    exact absurd (List.mem_map_of_mem mem) missing
  · exact brings

/-- A session has space for a document that only the session ahead of it has. -/
theorem space (h : session.Ahead few many) {key : String} {entry : Entry}
    (missing : few.find? key = none) (found : many.find? key = some entry) :
    few.cache.length < session.options.maxDocuments := by
  have fewer := SessionState.length_lt_of_missing h.distinct (List.map_subset Entry.key h.keeps)
    missing found
  have bounded := h.bounded
  omega

theorem length_le (h : session.Ahead few many) : few.cache.length ≤ many.cache.length := by
  have keys := List.map_subset Entry.key h.keeps
  simpa using (List.subperm_of_subset h.distinct keys).length_le

/-- The references that are being expanded may change, if they do so in both sessions. -/
theorem with_trail (h : session.Ahead few many) {trail trail' : Trail} (same : trail' = trail) :
    session.Ahead { few with trail := trail } { many with trail := trail' } :=
  ⟨h.root, same, h.keeps, h.brings, h.distinct, h.distinct', h.bounded⟩

theorem requested (h : session.Ahead few many) (source : Source) :
    session.Ahead (few.requested source) (many.requested source) :=
  ⟨h.root, h.trail, h.keeps, h.brings, h.distinct, h.distinct', h.bounded⟩

end Ahead

/-- The session reads a document that the session ahead of it has read before. -/
theorem Ahead.catch_up (h : session.Ahead few many) {source : Source} {entry : Entry}
    (missing : few.find? entry.key = none) (found : many.find? entry.key = some entry) :
    session.Ahead ((few.requested source).store entry) many := by
  have cache : ((few.requested source).store entry).cache = few.cache ++ [entry] :=
    SessionState.store_cache missing
  refine ⟨h.root, h.trail, ?_, ?_, ?_, h.distinct', h.bounded⟩
  · rw [cache]
    exact List.append_subset.mpr ⟨h.keeps, by simpa using SessionState.mem_of_find? found⟩
  · intro other mem
    rw [cache]
    exact (h.brings other mem).imp_left (List.mem_append_left _)
  · rw [cache]
    exact SessionState.distinct_concat h.distinct (SessionState.find?_eq_none_iff.mp missing)

theorem Ahead.store (h : session.Ahead few many) {entry : Entry}
    (missing : few.find? entry.key = none) (missing' : many.find? entry.key = none)
    (space : many.cache.length < session.options.maxDocuments) :
    session.Ahead (few.store entry) (many.store entry) := by
  have cache := SessionState.store_cache missing
  have cache' := SessionState.store_cache missing'
  refine ⟨h.root, h.trail, ?_, ?_, ?_, ?_, ?_⟩
  · rw [cache, cache']
    exact List.append_subset.mpr ⟨List.subset_append_of_subset_left _ h.keeps, by simp⟩
  · intro other mem
    rw [cache'] at mem
    rw [cache]
    obtain mem | mem := List.mem_append.mp mem
    · exact (h.brings other mem).imp_left (List.mem_append_left _)
    · exact .inl (List.mem_append_right _ mem)
  · rw [cache]
    exact SessionState.distinct_concat h.distinct (SessionState.find?_eq_none_iff.mp missing)
  · rw [cache']
    exact SessionState.distinct_concat h.distinct' (SessionState.find?_eq_none_iff.mp missing')
  · rw [cache', List.length_append, List.length_singleton]
    exact space

/-- The step has been stopped because there was no space for another document. -/
def Full (session : Session) (ended : Except Error α × SessionState) : Prop :=
  session.options.maxDocuments ≤ ended.2.cache.length ∧ ∃ location,
    ended.1 = .error (.schema (.limit (.documents session.options.maxDocuments)) location)

/-- In a session that is ahead of another one the step comes to the same as in that one, unless there
is no space for a document. -/
def Unaware (session : Session) (step : Run α) : Prop :=
  ∀ few many, session.Ahead few many →
    ((step.outcome many).1 = (step.outcome few).1 ∧
        session.Ahead (step.outcome few).2 (step.outcome many).2) ∨
      session.Full (step.outcome many)

namespace Unaware

theorem lift (result : Except Error α) : session.Unaware (liftM result) :=
  fun _ _ ahead => .inl ⟨rfl, ahead⟩

theorem pure (value : α) : session.Unaware (Pure.pure value) :=
  fun _ _ ahead => .inl ⟨rfl, ahead⟩

theorem throw (error : Error) : session.Unaware (MonadExcept.throw error : Run α) :=
  fun _ _ ahead => .inl ⟨rfl, ahead⟩

theorem bind {step : Run α} {next : α → Run β} (h : session.Unaware step)
    (h' : ∀ value, session.Unaware (next value)) : session.Unaware (step >>= next) := by
  intro few many ahead
  rw [Run.outcome_bind, Run.outcome_bind]
  obtain ⟨same, ahead'⟩ | ⟨full, location, stopped⟩ := h few many ahead
  · generalize step.outcome few = ended at same ahead' ⊢
    generalize step.outcome many = ended' at same ahead' ⊢
    obtain ⟨result, after⟩ := ended
    obtain ⟨result', after'⟩ := ended'
    obtain rfl : result' = result := same
    cases result' with
    | error error => exact .inl ⟨rfl, ahead'⟩
    | ok value => exact h' value after after' ahead'
  · right
    generalize step.outcome many = ended at full stopped ⊢
    obtain ⟨result, after⟩ := ended
    obtain rfl : result = _ := stopped
    exact ⟨full, location, rfl⟩

theorem map {f : α → β} {step : Run α} (h : session.Unaware step) :
    session.Unaware (f <$> step) := by
  rw [map_eq_pure_bind]
  exact h.bind fun value => .pure (f value)

/-- A step may look at the session, if it makes no difference whether that is ahead. -/
theorem look {next : SessionState → Run β} (h : ∀ state, session.Unaware (next state))
    (blind : ∀ few many, session.Ahead few many → next many = next few) :
    session.Unaware (get >>= next) := by
  intro few many ahead
  rw [Run.outcome_bind, Run.outcome_bind, Run.outcome_get, Run.outcome_get]
  simp only [blind few many ahead]
  exact h few few many ahead

end Unaware

/-- To load a document comes to the same whether it has been loaded before or not. -/
theorem load_unaware (keyed : ∀ loader, session.loader = some loader → loader.Keyed session.current)
    (source : Source) : session.Unaware (session.load source) := by
  intro few many ahead
  cases found : few.find? (session.originOf source).key with
  | some entry =>
      rw [load_of_find? found, load_of_find? (ahead.find? found)]
      exact .inl ⟨rfl, ahead⟩
  | none =>
      cases found' : many.find? (session.originOf source).key with
      | some entry =>
          obtain ⟨loader, some, brings⟩ := ahead.brings_of_find? found found'
          have space := ahead.space found found'
          have key := SessionState.key_of_find? found'
          have loaded : (session.load source).outcome few =
              (.ok entry, (few.requested source).store entry) := by
            rw [load_of_missing found, if_neg (by omega), some]
            simp only [brings few.requests source key.symm]
          rw [load_of_find? found', loaded]
          rw [← key] at found found'
          exact .inl ⟨rfl, ahead.catch_up found found'⟩
      | none =>
          rw [load_of_missing found, load_of_missing found']
          by_cases full : session.options.maxDocuments ≤ many.cache.length
          · rw [if_pos full]
            exact .inr ⟨full, _, rfl⟩
          · have fewer := ahead.length_le
            rw [if_neg full, if_neg (by omega)]
            cases some : session.loader with
            | none => exact .inl ⟨rfl, ahead⟩
            | some loader =>
                simp only [reply_eq_of_key (keyed loader some) many.requests few.requests
                  (Eq.refl (session.originOf source).key)]
                cases replied : session.reply loader few.requests source with
                | error error => exact .inl ⟨rfl, ahead.requested source⟩
                | ok entry =>
                    rw [← key_of_reply replied] at found found'
                    have space : many.cache.length < session.options.maxDocuments := by omega
                    exact .inl ⟨rfl, (ahead.requested source).store found found' space⟩

/-- So does finding what a reference denotes. -/
theorem locate_unaware
    (keyed : ∀ loader, session.loader = some loader → loader.Keyed session.current)
    (entry : Entry) (ref place : String) : session.Unaware (session.locate entry ref place) := by
  rw [locate_eq]
  split
  · exact .lift _
  · apply Unaware.look
    · intro state
      refine (Unaware.lift _).bind fun source => ?_
      refine (load_unaware keyed source).bind fun other => ?_
      exact .lift _
    · intro few many ahead
      rw [session.sourceOf_congr entry ref (documentPart ref) place ahead.root]

end Session

namespace Expansion

open Session

variable {session : Session} {follow : Follow}

mutual

/-- A walk is unaware of what has been read before, if following references is. -/
theorem walk_unaware (h : ∀ node path, session.Unaware (follow node path)) :
    ∀ (value : Json) (place : Place) (path : String),
      session.Unaware (walk follow place path value)
  | .obj members, place, path => by
      cases place with
      | schema =>
          simp only [walk]
          split
          · exact h members path
          · exact (walkMembers_unaware h members Place.ofMember path).map
      | schemaMap => exact (walkMembers_unaware h members (fun _ => .schema) path).map
      | schemaList | data => exact .pure _
  | .arr elements, place, path => by
      cases place with
      | schema | schemaList => exact (walkElements_unaware h elements path 0).map
      | schemaMap | data => exact .pure _
  | .null, _, _ | .bool _, _, _ | .int _, _, _ | .double _, _, _ | .str _, _, _ => .pure _

theorem walkElements_unaware (h : ∀ node path, session.Unaware (follow node path)) :
    ∀ (elements : List Json) (path : String) (index : Nat),
      session.Unaware (walkElements follow path index elements)
  | [], _, _ => .pure _
  | value :: rest, path, index => by
      refine (walk_unaware h value .schema _).bind fun _ => ?_
      refine (walkElements_unaware h rest path (index + 1)).bind fun _ => ?_
      exact .pure _

theorem walkMembers_unaware (h : ∀ node path, session.Unaware (follow node path)) :
    ∀ (members : List (String × Json)) (placeOf : String → Place) (path : String),
      session.Unaware (walkMembers follow placeOf path members)
  | [], _, _ => .pure _
  | (key, value) :: rest, placeOf, path => by
      refine (walk_unaware h value (placeOf key) _).bind fun _ => ?_
      refine (walkMembers_unaware h rest placeOf path).bind fun _ => ?_
      exact .pure _

end

/-- Nesting a step below a reference does the same to the references of both sessions. -/
theorem nested_unaware {α : Type} {key : String} {step : Run α} (h : session.Unaware step) :
    session.Unaware (nested key step) := by
  intro few many ahead
  rw [outcome_nested, outcome_nested]
  have pushed := ahead.with_trail (congrArg (Trail.push · key) ahead.trail)
  obtain ⟨same, ahead'⟩ | ⟨full, stopped⟩ := h _ _ pushed
  · exact .inl ⟨same, ahead'.with_trail (congrArg Trail.pop ahead'.trail)⟩
  · exact .inr ⟨full, stopped⟩

/-- To expand a value comes to the same whatever has been read before. -/
theorem expand_unaware
    (keyed : ∀ loader, session.loader = some loader → loader.Keyed session.current)
    (budget : Nat) (entry : Entry) (place : Place) (path : String) (value : Json) :
    session.Unaware (expand session budget entry place path value) := by
  induction budget generalizing entry place path value with
  | zero =>
      rw [expand_eq]
      apply walk_unaware
      intro node path
      refine (Unaware.lift _).bind fun ref => ?_
      refine (locate_unaware keyed entry ref _).bind fun target => ?_
      exact .throw _
  | succ budget ih =>
      rw [expand_eq]
      apply walk_unaware
      intro node path
      refine (Unaware.lift _).bind fun ref => ?_
      refine (locate_unaware keyed entry ref _).bind fun target => ?_
      apply Unaware.look
      · intro state
        have rest : session.Unaware (do
            let merged ← Reference.merge target.value node (entry.location ++ path)
            nested target.key (expand session budget target.entry .schema target.path merged)) :=
          (Unaware.lift _).bind fun merged => nested_unaware (ih _ _ _ _)
        split
        · exact (Unaware.throw _).bind fun _ => rest
        · exact rest
      · intro few many ahead
        rw [ahead.trail]

end Expansion

namespace Session

variable {session : Session}

theorem resolveNode_unaware
    (keyed : ∀ loader, session.loader = some loader → loader.Keyed session.current)
    (entry : Entry) (node : Json) (path : String) :
    session.Unaware (session.resolveNode entry node path) := by
  apply Unaware.look
  · intro state
    exact Expansion.expand_unaware keyed _ entry .schema path node
  · intro few many ahead
    rw [budget, budget, ahead.trail]

/-- All that a session has come to have, since some time, any request for its key would bring. -/
theorem Log.brings (keyed : ∀ loader, session.loader = some loader → loader.Keyed session.current)
    {before : SessionState} {requests : List Source} {cache : List Entry}
    (h : session.Log before requests cache) :
    ∀ entry ∈ cache, entry ∈ before.cache ∨ session.Brings entry := by
  induction h with
  | start => exact fun entry mem => .inl mem
  | refused _ _ ih => exact ih
  | @accepted requests cache source new _ asks ih =>
      intro entry mem
      obtain mem | mem := List.mem_append.mp mem
      · exact ih entry mem
      · obtain rfl := List.mem_singleton.mp mem
        obtain ⟨loader, some, replied⟩ := asks.replied
        refine .inr ⟨loader, some, ?_⟩
        intro earlier other same
        rw [← replied]
        exact reply_eq_of_key (keyed loader some) _ _ (same.trans asks.key)

/-- After any calls a session is ahead of the one that it was. -/
theorem ahead_calls (keyed : ∀ loader, session.loader = some loader → loader.Keyed session.current)
    {state : SessionState} (distinct : (state.cache.map Entry.key).Nodup)
    (bounded : state.cache.length ≤ session.options.maxDocuments) (row : List Call) (trail : Trail) :
    session.Ahead { state with trail := trail }
      { session.calls state row with trail := trail } where
  root := (session.grows_calls state row).root
  trail := rfl
  keeps := (session.log_calls state row).keeps.subset
  brings := (session.log_calls state row).brings keyed
  distinct := distinct
  distinct' := (session.log_calls state row).nodup distinct
  bounded := (session.log_calls state row).bounded bounded

/-- What a session has read before never changes what a reference means. If the loader goes by keys,
then a node of the root document, or of any other one, is resolved to the same value or fails with the
same error after any calls as in a session that has only been begun with the root. Only if there is
no space left for a document may it be stopped for that. -/
theorem resolveNode_ahead (loader : Option Loader) (options : ResolveOptions) (current : String)
    (keyed : ∀ fetch, loader = some fetch → fetch.Keyed current) :
    let session : Session := { loader := loader, options := options.effective, current := current }
    ∀ (document : Document) (payload : Json) (root : Entry) (start : SessionState),
      (session.openRoot document payload).outcome {} = (.ok root, start) →
      ∀ (row : List Call) (entry : Entry) (node : Json) (path : String) (trail : Trail),
        let fresh := (session.resolveNode entry node path).outcome { start with trail := trail }
        let used := (session.resolveNode entry node path).outcome
          { session.calls start row with trail := trail }
        used.1 = fresh.1 ∨ session.Full used := by
  intro session document payload root start run row entry node path trail fresh used
  obtain ⟨-, rfl⟩ := opens_of_openRoot run
  have space : (SessionState.opened root).cache.length ≤ session.options.maxDocuments :=
    options.positive_effective.2.1
  have distinct : ((SessionState.opened root).cache.map Entry.key).Nodup :=
    List.nodup_singleton root.key
  have ahead : session.Ahead _ _ := ahead_calls keyed distinct space row trail
  exact (resolveNode_unaware keyed entry node path _ _ ahead).imp_left And.left

namespace Sample

def byKey : Loader :=
  SchemaForms.Sample.byKey _ SchemaForms.Sample.octets_text_ne_nil

def keyed : Session where
  loader := some byKey
  options := ResolveOptions.effective {}

end Sample

/-- A reference of the sample comes to its document after a load that has failed and one that has
brought the document already. -/
theorem resolveNode_ahead_sample :
    let row : List Call := [.load ⟨.fs, "none.json"⟩, .load ⟨.fs, "/forms/./n.json"⟩]
    Sample.byKey.Keyed "/" ∧
      (Sample.keyed.openRoot SchemaForms.Sample.root (.obj [])).outcome {} =
        (.ok Sample.entry, .opened Sample.entry) ∧
      ((Sample.keyed.resolveNode Sample.entry (.obj Sample.alone) "#").outcome
        { Sample.keyed.calls (.opened Sample.entry) row with trail := {} }).1 = .ok Sample.other := by
  intro row
  have keyed : ∀ fetch, some Sample.byKey = some fetch → fetch.Keyed "/" := by
    rintro _ ⟨⟩
    exact SchemaForms.Sample.byKey_keyed _ _
  have opens : Sample.keyed.Opens SchemaForms.Sample.root (.obj []) Sample.entry :=
    ⟨rfl, by decide +kernel, rfl, rfl, rfl⟩
  have fresh : ((Sample.keyed.resolveNode Sample.entry (.obj Sample.alone) "#").outcome
      (.opened Sample.entry)).1 = .ok Sample.other := eq_ok_of_toOption (by decide +kernel)
  have space : ¬ Sample.keyed.Full ((Sample.keyed.resolveNode Sample.entry (.obj Sample.alone)
      "#").outcome { Sample.keyed.calls (.opened Sample.entry) row with trail := {} }) := by
    rintro ⟨full, -⟩
    exact absurd full (by decide +kernel)
  refine ⟨keyed _ rfl, opens.run, ?_⟩
  have general := resolveNode_ahead (some Sample.byKey) {} "/" keyed SchemaForms.Sample.root
    (.obj []) Sample.entry (.opened Sample.entry) opens.run
  obtain same | full := general row Sample.entry (.obj Sample.alone) "#" {}
  · exact same.trans fresh
  · exact absurd full space

end Session

end SchemaForms
