import SchemaForms.Proofs.Expansion.Replay
import SchemaForms.Proofs.Session.Counterparts
import SchemaForms.Proofs.Session.Stack

/-!
# Resolution does not depend on the order of members

The order of members decides on the order of loads, so two runs on reordered documents go through
sessions that have nothing to do with each other. But once the one run has come to its end, all that
it has read is there, and by `expand_replays` each of its expansions comes to the same again without
reading anything. So the other run is compared with the end of the first one, its library. It stays
`Within` that: it has read only counterparts of what is there. Whatever a reference denotes in the
library has a counterpart then that the other run finds, and it has space for it.

Documents are known by their keys, and so the loaders have to agree on all sources of one key. Two
sources may be spelled differently and have one key. If a loader knows only one of the spellings, the
order of members decides which of them it is asked for.
-/

namespace SchemaForms

open Json (SameButOrder SameMembers)

/-- The session has read counterparts of documents of the library, its root among them, and expands
the same references. -/
structure SessionState.Within (library state : SessionState) : Prop where
  trail : state.trail = library.trail
  root : ∃ root root', library.root = some root ∧ state.root = some root' ∧
    root.Counterpart root' ∧ root.key ∈ state.cache.map Entry.key
  known : ∀ entry' ∈ state.cache, ∃ entry, library.find? entry'.key = some entry ∧
    entry.Counterpart entry'
  distinct : (state.cache.map Entry.key).Nodup

namespace SessionState.Within

variable {library state : SessionState}

/-- The references that are being expanded may change, if they do so in both. -/
theorem with_trail (h : library.Within state) {trail trail' : Trail} (same : trail' = trail) :
    SessionState.Within { library with trail := trail } { state with trail := trail' } :=
  ⟨same, h.root, h.known, h.distinct⟩

theorem keys_subset (h : library.Within state) :
    state.cache.map Entry.key ⊆ library.cache.map Entry.key := by
  intro key mem
  obtain ⟨entry', mem', rfl⟩ := List.mem_map.mp mem
  obtain ⟨entry, found, -⟩ := h.known entry' mem'
  exact SessionState.key_mem_of_find? found

theorem store (h : library.Within state) {entry entry' : Entry} {source : Source}
    (found : library.find? entry'.key = some entry) (like : entry.Counterpart entry')
    (missing : state.find? entry'.key = none) :
    library.Within ((state.requested source).store entry') := by
  have cache : ((state.requested source).store entry').cache = state.cache ++ [entry'] :=
    SessionState.store_cache missing
  obtain ⟨root, root', rooted, rooted', roots, mem⟩ := h.root
  refine ⟨h.trail, ⟨root, root', rooted, rooted', roots, ?_⟩, ?_, ?_⟩
  · rw [cache, List.map_append]
    exact List.mem_append_left _ mem
  · intro other mem
    rw [cache] at mem
    obtain mem | mem := List.mem_append.mp mem
    · exact h.known other mem
    · rw [List.mem_singleton.mp mem]
      exact ⟨entry, found, like⟩
  · rw [cache]
    exact SessionState.distinct_concat h.distinct (SessionState.find?_eq_none_iff.mp missing)

end SessionState.Within

namespace Session

variable {session other : Session} {library state : SessionState}

/-- The session in which a run has ended that began with the root. -/
structure Library (session : Session) (root : Entry) (library : SessionState) : Prop where
  space : 0 < session.options.maxDocuments
  checks : session.detectsCycles = true
  rooted : library.root = some root
  fetched : session.Fetched (.opened root) library.requests library.cache

theorem Library.with_trail {root : Entry} (h : session.Library root library) (trail : Trail) :
    session.Library root { library with trail := trail } :=
  ⟨h.space, h.checks, h.rooted, h.fetched⟩

theorem Library.distinct {root : Entry} (h : session.Library root library) :
    (library.cache.map Entry.key).Nodup :=
  (Log.of_fetched h.fetched).nodup (List.nodup_singleton root.key)

theorem Library.bounded {root : Entry} (h : session.Library root library) :
    library.cache.length ≤ session.options.maxDocuments :=
  (Log.of_fetched h.fetched).bounded h.space

/-- What has been read was there, or it has come as a reply. -/
theorem Fetched.replied {before : SessionState} {requests : List Source} {cache : List Entry}
    (h : session.Fetched before requests cache) :
    ∀ entry ∈ cache, entry ∈ before.cache ∨ ∃ loader earlier source,
      session.loader = some loader ∧ session.reply loader earlier source = .ok entry := by
  induction h with
  | start => exact fun entry mem => .inl mem
  | accepted _ asks ih =>
      intro entry mem
      obtain mem | mem := List.mem_append.mp mem
      · exact ih entry mem
      · obtain rfl := List.mem_singleton.mp mem
        obtain ⟨loader, some, reply⟩ := asks.replied
        exact .inr ⟨loader, _, _, some, reply⟩

/-- The other session loads the counterpart of a document of the library, whether it has read it
already or has not. -/
theorem load_within (h : session.Counterpart other) {root : Entry}
    (read : session.Library root library) (within : library.Within state) {source : Source}
    {entry : Entry} (found : library.find? (session.originOf source).key = some entry) :
    ∃ entry' after, (other.load source).outcome state = (.ok entry', after) ∧
      entry.Counterpart entry' ∧ library.Within after := by
  have key := SessionState.key_of_find? found
  rw [← h.originOf] at found key
  cases found' : state.find? (other.originOf source).key with
  | some entry' =>
      obtain ⟨again, known, like⟩ := within.known entry' (SessionState.mem_of_find? found')
      rw [SessionState.key_of_find? found', found] at known
      obtain rfl := Option.some.inj known
      exact ⟨entry', state, load_of_find? found', like, within⟩
  | none =>
      obtain first | ⟨loader, earlier, asked, some, replied⟩ :=
        read.fetched.replied entry (SessionState.mem_of_find? found)
      · -- The root is there from the beginning.
        obtain ⟨root', _, rooted, -, -, mem⟩ := within.root
        obtain rfl := Option.some.inj (rooted.symm.trans read.rooted)
        obtain rfl := List.mem_singleton.mp first
        rw [← key, SessionState.find?_eq_none_iff] at found'
        exact absurd mem found'
      · obtain ⟨loader', some', replies⟩ := reply_counterpart h some replied
        obtain ⟨entry', replied', like⟩ := replies state.requests source key.symm
        have fewer := SessionState.length_lt_of_missing within.distinct within.keys_subset found'
          found
        have bounded := read.bounded
        have space : ¬ other.options.maxDocuments ≤ state.cache.length := by
          rw [h.options]
          omega
        have loaded : (other.load source).outcome state =
            (.ok entry', (state.requested source).store entry') := by
          rw [load_of_missing found', if_neg space, some']
          simp only [replied']
        rw [← key_of_reply replied'] at found found'
        exact ⟨entry', _, loaded, like, within.store found like found'⟩

theorem sourceOf_within (h : session.Counterpart other) (within : library.Within state)
    {entry entry' : Entry} (like : entry.Counterpart entry') (ref path place : String) :
    other.sourceOf state entry' ref path place = session.sourceOf library entry ref path place := by
  obtain ⟨root, root', rooted, rooted', roots, -⟩ := within.root
  simp only [sourceOf, fileSource, relativeSource, SessionState.rootDirectory, rooted, rooted',
    Option.map_some, Entry.directory, Entry.location, roots.origin, roots.kind, like.origin,
    like.kind, h.options, h.current]

/-- The other session finds the counterpart of what a reference denotes in the library. -/
theorem locate_within (h : session.Counterpart other) {root : Entry}
    (read : session.Library root library) (within : library.Within state) {entry entry' : Entry}
    (like : entry.Counterpart entry') {ref place : String} {target : Target}
    (run : (session.locate entry ref place).outcome library = (.ok target, library)) :
    ∃ target' after, (other.locate entry' ref place).outcome state = (.ok target', after) ∧
      target.Counterpart target' ∧ library.Within after := by
  rw [locate_eq] at run ⊢
  split at run
  · rename_i here
    rw [Run.outcome_lift, Prod.mk.injEq] at run
    obtain ⟨target', read', like'⟩ := like.target run.1
    exact ⟨target', state, by rw [if_pos here, Run.outcome_lift, read'], like', within⟩
  · rename_i elsewhere
    rw [if_neg elsewhere]
    obtain ⟨source, named, run⟩ :=
      Run.outcome_lift_bind_eq_ok.mp (Run.outcome_get_bind_eq_ok.mp run)
    obtain ⟨found, middle, loaded, run⟩ := Run.outcome_bind_eq_ok.mp run
    rw [Run.outcome_lift, Prod.mk.injEq] at run
    obtain ⟨reads, rfl⟩ := run
    have known := ((session.load_fetching source middle).ok loaded).2
    obtain ⟨found', after, loaded', like', within'⟩ := load_within h read within known
    obtain ⟨target', reads', targets⟩ := like'.target reads
    refine ⟨target', after, ?_, targets, within'⟩
    refine Run.outcome_get_bind_eq_ok.mpr (Run.outcome_lift_bind_eq_ok.mpr ⟨source, ?_, ?_⟩)
    · rw [sourceOf_within h within like, named]
    · exact Run.outcome_bind_eq_ok.mpr ⟨found', after, loaded', by rw [Run.outcome_lift, reads']⟩

end Session

namespace Expansion

open Session

variable {session other : Session} {library : SessionState}

/-- What an expansion has come to, it has come to by references that come to the same from then
on. -/
theorem expand_walked (checks : session.detectsCycles = true) (budget : Nat) (entry : Entry)
    (path : String) (value : Json) (state : SessionState) :
    reading.Meets (expand session budget entry .schema path value) state fun after result =>
      Walked (fun node _ result => Repeats (fun budget path =>
        expand.follow session entry (descent session budget) node path) budget after result)
        .schema path value result := by
  rw [expand_eq]
  have follows : Follows reading (fun _ => True)
      (fun state node _ result => Repeats
        (fun budget path => expand.follow session entry (descent session budget) node path)
        budget state result)
      (expand.follow session entry (descent session budget)) := by
    refine ⟨fun _ _ => trivial, fun repeats done => repeats.later done, ?_⟩
    intro node path state _
    apply follow_repeats checks
    intro less entry path value state _
    exact expand_replays checks less entry path value state
  exact walk_meets follows value .schema path state trivial

/-- In the library the expansion is there to be read off, with nothing left to read. -/
def Settled (step : Run Json) (library : SessionState) (result : Json) : Prop :=
  step.outcome library = (.ok result, library)

/-- In some order of its members, following the object is settled in the library. -/
def SettledInOrder (follow : Follow) (library : SessionState) (node : Members) (path : String)
    (result : Json) : Prop :=
  ∃ first, SameMembers first node ∧ Settled (follow first path) library result

theorem SettledInOrder.reordered {follow : Follow} {node others : Members} {path : String}
    {result : Json} (h : SettledInOrder follow library node path result)
    (same : SameMembers node others) : SettledInOrder follow library others path result := by
  obtain ⟨first, before, settled⟩ := h
  exact ⟨first, .trans before same, settled⟩

/-- What the one session has settled in its library, the other one comes to as well, but for the order
of members, as long as it stays within the library. -/
def ExpandsWithin (session other : Session) (root : Entry) (budget : Nat) : Prop :=
  ∀ ⦃library : SessionState⦄ ⦃entry entry' : Entry⦄ ⦃path : String⦄ ⦃value value' result : Json⦄,
    session.Library root library → entry.Counterpart entry' → SameButOrder value value' →
    Settled (expand session budget entry .schema path value) library result →
    Succeeds library.Within SameButOrder (expand other budget entry' .schema path value') result

/-- To follow a reference is to find the counterpart of its target and to expand that. -/
theorem follow_within (h : session.Counterpart other) {root : Entry} {budget : Nat}
    (below : ∀ less, budget = less + 1 → ExpandsWithin session other root less)
    (read : session.Library root library) {entry entry' : Entry} (like : entry.Counterpart entry')
    {node others : Members} {path : String} {result : Json} (same : SameMembers node others)
    (settled : Settled (expand.follow session entry (descent session budget) node path) library
      result) :
    Succeeds library.Within SameButOrder
      (expand.follow other entry' (descent other budget) others path) result := by
  intro state within
  obtain ⟨ref, target, middle, _, merged, written, located, allowed, passes, put, run⟩ :=
    follow_eq_ok.mp settled
  cases budget with
  | zero => cases allowed
  | succ less =>
      cases allowed
      obtain ⟨ended, inner, ends⟩ := nested_eq_ok.mp run
      obtain ⟨⟨grown, opened⟩, -⟩ := (expand_replays read.checks less _ _ _ _).ok inner
      have opened : ended.trail = middle.trail.push target.key := opened
      -- Nothing is read on the way, so all of it takes place in the library.
      obtain rfl : library = middle := by
        have grows : SessionState.Grows middle library := by
          rw [ends]
          exact ⟨grown.cache, grown.root⟩
        have again := locate_again located grows
        rw [located, Prod.mk.injEq] at again
        exact again.2.symm
      have settled : Settled (expand session less target.entry .schema target.path merged)
          { library with trail := library.trail.push target.key } result := by
        have same : ended = { library with trail := library.trail.push target.key } := by
          rw [← opened, ends]
        rw [Settled, inner, same]
      obtain ⟨target', middle', located', targets, within'⟩ :=
        locate_within h read within like located
      obtain ⟨merged', put', alike⟩ := Reference.merge_reordered targets.value same put
      have pushed := within'.with_trail (congrArg (Trail.push · target.key) within'.trail)
      obtain ⟨result', ended', inner', results, within''⟩ :=
        below less rfl (read.with_trail _) targets.entry alike settled _ pushed
      have location : entry'.location = entry.location := congrArg Origin.location like.origin
      refine ⟨result', { ended' with trail := ended'.trail.pop }, ?_, results, ?_⟩
      · rw [follow_eq_ok, location]
        refine ⟨ref, target', middle', _, merged', refText_reordered same written, located', rfl, ?_,
          put', ?_⟩
        · rw [h.cycles, targets.key, within'.trail]
          exact passes
        · rw [← targets.key, ← targets.path] at inner'
          exact nested_eq_ok.mpr ⟨ended', inner', rfl⟩
      · rw [read.checks, Bool.true_and] at passes
        have popped : ended'.trail.pop = library.trail := by
          rw [within''.trail]
          exact Trail.pop_push passes
        exact within''.with_trail popped

/-- The induction over nested references. -/
theorem expand_within (h : session.Counterpart other) (root : Entry) (budget : Nat) :
    ExpandsWithin session other root budget := by
  have step {budget : Nat}
      (below : ∀ less, budget = less + 1 → ExpandsWithin session other root less) :
      ExpandsWithin session other root budget := by
    intro library entry entry' path value value' result read like same settled
    have walked := ((expand_walked read.checks budget entry path value library).ok settled).2
    have settles : Walked (SettledInOrder
        (expand.follow session entry (descent session budget)) library)
        .schema path value result := by
      apply walked.mono
      intro node path result repeats
      exact ⟨node, .refl _ _, repeats library budget path (.refl library) (.refl _) (Nat.le_refl _)⟩
    obtain ⟨result', results, walked'⟩ := Walked.reordered
      (fun _ _ _ _ settled same => settled.reordered same) same settles
    have runs : Succeeds library.Within SameButOrder
        (walk (expand.follow other entry' (descent other budget)) .schema path value') result' := by
      apply walked'.runs
      rintro node path result ⟨first, before, settled⟩
      exact follow_within h below read like before settled
    intro state within
    rw [expand_eq]
    obtain ⟨value', after, run, like', within'⟩ := runs state within
    exact ⟨value', after, run, results.trans like', within'⟩
  induction budget with
  | zero => exact step nofun
  | succ budget ih => exact step fun less same => Nat.succ.inj same ▸ ih

end Expansion

namespace Session

open Expansion

variable {session other : Session} {document document' : Document} {payload payload' : Json}

theorem Opens.counterpart (h : session.Counterpart other) {root : Entry}
    (source : document'.source = document.source) (size : document'.size = document.size)
    (same : SameButOrder payload payload') (opens : session.Opens document payload root) :
    ∃ root', other.Opens document' payload' root' ∧ root.Counterpart root' := by
  obtain rfl := opens.held
  obtain ⟨members, rfl, each⟩ := same.exists_obj
  obtain ⟨anchors', indexed', finds⟩ := Anchors.index_reordered same opens.anchors
  have origin : other.originOf document'.source = root.origin := by
    rw [h.originOf, source, opens.origin]
  refine ⟨⟨root.origin, root.kind, members, anchors'⟩, ⟨rfl, ?_, indexed', origin.symm, ?_⟩,
    rfl, rfl, each, finds⟩
  · rw [size, h.options]
    exact opens.size
  · rw [Document.kind, source]
    exact opens.kind

/-- The other run comes to the counterpart of the tree, within what the first one has read. -/
theorem runRoot_within (h : session.Counterpart other) (space : 0 < session.options.maxDocuments)
    (checks : session.detectsCycles = true) (source : document'.source = document.source)
    (size : document'.size = document.size) (same : SameButOrder payload payload') {tree : Members}
    (run : (session.runRoot document payload).1 = .ok tree) :
    ∃ tree', (other.runRoot document' payload').1 = .ok tree' ∧ SameMembers tree tree' ∧
      (session.runRoot document payload).2.Within (other.runRoot document' payload').2 := by
  obtain ⟨root, resolved⟩ := resolved_of_ok run
  have opens := resolved.opens
  generalize ended : (session.runRoot document payload).2 = library at resolved ⊢
  have ends := opens.runRoot_eq_ok.mp (Prod.ext run ended)
  rw [Frame.outcome] at ends
  obtain ⟨⟨grows, trail⟩, replays⟩ := (expand_replays checks _ _ _ _ _).ok ends
  have settled := replays library _ "#" (.refl library) (.refl _) (Nat.le_refl _)
  obtain ⟨root', opens', like⟩ := opens.counterpart h source size same
  have read : session.Library root library := ⟨space, checks, grows.root, resolved.fetched⟩
  have within : library.Within (.opened root') := by
    refine ⟨trail.symm, ⟨root, root', grows.root, rfl, like, ?_⟩, ?_, List.nodup_singleton _⟩
    · exact List.mem_singleton.mpr like.key.symm
    · intro entry' mem
      obtain rfl := List.mem_singleton.mp mem
      refine ⟨root, ?_, like⟩
      rw [like.key]
      exact SessionState.find?_of_mem read.distinct (grows.cache.subset (List.mem_singleton_self _))
  have data : SameButOrder (.obj root.data) (.obj root'.data) := by
    rw [← opens.held, ← opens'.held]
    exact same
  obtain ⟨value', after, run', results, within'⟩ :=
    expand_within h root _ read like data settled _ within
  obtain ⟨tree', rfl, each⟩ := results.exists_obj
  have outcome : other.runRoot document' payload' = (.ok tree', after) := by
    apply opens'.runRoot_eq_ok.mpr
    rw [Frame.outcome, Frame.root, h.options]
    exact run'
  rw [outcome]
  exact ⟨tree', rfl, each, within'⟩

/-- Resolution does not depend on the order of members. Let two root documents at one place be as
large and the same but for the order of members, and let the loaders reply to all requests for one key
with documents of which this holds as well, or not at all. Then the one is resolved if and only if
the other is, the trees are the same but for the order of members, and the documents that have been
requested are the same. -/
theorem resolve_reordered (loader loader' : Option Loader) (options : ResolveOptions)
    (current : String) (document document' : Document) (payload payload' : Json)
    (source : document'.source = document.source) (size : document'.size = document.size)
    (same : SameButOrder payload payload')
    (loaders : Option.Rel (Loader.Counterpart current) loader loader') :
    let session : Session := { loader := loader, options := options.effective, current := current }
    let other : Session := { loader := loader', options := options.effective, current := current }
    let keys (library : SessionState) : List String :=
      library.requests.map fun source => (Origin.ofSource current source).key
    ((∃ tree, resolve loader options current document payload = .ok tree) ↔
      ∃ tree, resolve loader' options current document' payload' = .ok tree) ∧
    ∀ tree tree', resolve loader options current document payload = .ok tree →
      resolve loader' options current document' payload' = .ok tree' →
      SameMembers tree tree' ∧ (keys (session.runRoot document payload).2).Perm
        (keys (other.runRoot document' payload').2) := by
  intro session other keys
  have space : 0 < session.options.maxDocuments := options.positive_effective.2.1
  have h : session.Counterpart other := ⟨rfl, rfl, rfl, loaders⟩
  refine ⟨⟨?_, ?_⟩, ?_⟩
  · rintro ⟨tree, run⟩
    obtain ⟨tree', run', -⟩ := runRoot_within h space rfl source size same run
    exact ⟨tree', run'⟩
  · rintro ⟨tree, run⟩
    obtain ⟨tree', run', -⟩ := runRoot_within h.symm space rfl source.symm size.symm same.symm run
    exact ⟨tree', run'⟩
  · intro tree tree' run run'
    obtain ⟨found, again, like, within⟩ := runRoot_within h space rfl source size same run
    obtain ⟨-, -, -, within'⟩ :=
      runRoot_within h.symm space rfl source.symm size.symm same.symm run'
    obtain rfl := Except.ok.inj (again.symm.trans run')
    refine ⟨like, ?_⟩
    -- Either run has read within the other, and no document twice.
    obtain ⟨root, resolved⟩ := resolved_of_ok run
    obtain ⟨root', resolved'⟩ := resolved_of_ok run'
    have perm := (List.subperm_of_subset within'.distinct within'.keys_subset).antisymm
      (List.subperm_of_subset within.distinct within.keys_subset)
    have roots : root'.key = root.key := by
      rw [Entry.key, resolved'.opens.origin, h.originOf, source, ← resolved.opens.origin, Entry.key]
    rw [resolved.fetched.keys, resolved'.fetched.keys, roots] at perm
    exact perm.cons_inv

end Session

theorem Dialect.parse_of_object {raw : Octets} {members : Members}
    (object : Json.ofOctets (trimOctets raw) = .ok (.obj members)) (location : String) :
    parse raw location = .ok members := by
  have some : (trimOctets raw).isEmpty = false := by
    rw [Bool.eq_false_iff, Ne, List.isEmpty_iff]
    intro empty
    rw [empty] at object
    cases object
  simp only [parse, some, object]
  rfl

namespace Sample

/-- The document that has an anchor, with its members in the other order. -/
def turnedText : String :=
  "\x7b\"$anchor\":\"a\",\"$schema\":\"https://json-schema.org/draft/2020-12/schema\"\x7d"

/-- The payload of the sample, with its members in another order. -/
def turned : Json :=
  .obj [("$defs", .obj [("n", .obj [("title", .str "N"), ("$ref", .str "n.json#a")])]),
    ("items", .obj [("$ref", .str "#/$defs/n")])]

theorem payload_turned : SameButOrder payload turned := by
  have members : SameMembers [("$ref", .str "n.json#a"), ("title", .str "N")]
      [("title", .str "N"), ("$ref", .str "n.json#a")] := .swap [] (by decide +kernel)
  have definition : SameButOrder
      (.obj [("n", .obj [("$ref", .str "n.json#a"), ("title", .str "N")])])
      (.obj [("n", .obj [("title", .str "N"), ("$ref", .str "n.json#a")])]) :=
    .obj trivial (.cons (.obj trivial members) .nil)
  exact .obj trivial (.trans (.swap [] (by decide +kernel)) (.cons definition (.refl _ _)))

def straight : Loader := byKey (octets text) octets_text_ne_nil

def crossed : Loader := byKey (octets turnedText) (by decide +kernel)

theorem straight_crossed : straight.Counterpart "/" crossed := by
  intro earlier earlier' source source' same
  simp only [straight, crossed, byKey, same]
  split
  · have object : Json.ofOctets (Dialect.trimOctets (octets text)) = .ok (.obj
        [("$schema", .str "https://json-schema.org/draft/2020-12/schema"),
          ("$anchor", .str "a")]) := eq_ok_of_toOption (by decide +kernel)
    have object' : Json.ofOctets (Dialect.trimOctets (octets turnedText)) = .ok (.obj
        [("$anchor", .str "a"),
          ("$schema", .str "https://json-schema.org/draft/2020-12/schema")]) :=
      eq_ok_of_toOption (by decide +kernel)
    refine .gave ⟨?_, fun location => ?_⟩
    · show (octets turnedText).length = (octets text).length
      decide +kernel
    · rw [Dialect.parse_of_object object, Dialect.parse_of_object object']
      exact .gave (.swap [] (by decide +kernel))
  · exact .failed

def top : Document where
  source := ⟨.fs, "root.json"⟩
  raw := root.raw
  raw_ne_nil := root.raw_ne_nil

/-- A loader that has one document, whose key can be written in two ways as a source. -/
def spelled : Fetch :=
  Fetch.fromTable [(".", octets text)]

def referring (first second : String × String) : Json :=
  .obj [("properties", .obj [(first.1, .obj [("$ref", .str first.2)]),
    (second.1, .obj [("$ref", .str second.2)])])]

end Sample

namespace Session

/-- The members of the root document and of the one that it refers to change their order. -/
theorem resolve_reordered_sample :
    SameButOrder Sample.payload Sample.turned ∧ Sample.straight.Counterpart "/" Sample.crossed ∧
      resolve (some Sample.straight) {} "/" Sample.root Sample.payload = .ok Sample.tree ∧
      ∃ tree', resolve (some Sample.crossed) {} "/" Sample.root Sample.turned = .ok tree' ∧
        SameMembers Sample.tree tree' := by
  have resolved : resolve (some Sample.straight) {} "/" Sample.root Sample.payload =
      .ok Sample.tree := eq_ok_of_toOption (by decide +kernel)
  obtain ⟨iff, same⟩ := resolve_reordered (some Sample.straight) (some Sample.crossed) {} "/"
    Sample.root Sample.root Sample.payload Sample.turned rfl rfl Sample.payload_turned
    (.some Sample.straight_crossed)
  obtain ⟨tree', resolved'⟩ := iff.mp ⟨_, resolved⟩
  exact ⟨Sample.payload_turned, Sample.straight_crossed, resolved, tree', resolved',
    (same _ _ resolved resolved').1⟩

/-- If a loader knows only one of two spellings of a key, then the order of members may decide whether
a document is resolved, though the loader does not look at earlier requests. -/
theorem resolve_spelled :
    SameButOrder (Sample.referring ("a", "/") ("b", ".")) (Sample.referring ("b", ".") ("a", "/")) ∧
      (∀ source, EndsAlike Document.Counterpart (Sample.spelled source) (Sample.spelled source)) ∧
      (∃ tree, resolve (some (Loader.ofFetch Sample.spelled)) {} "/" Sample.top
        (Sample.referring ("b", ".") ("a", "/")) = .ok tree) ∧
      ¬ ∃ tree, resolve (some (Loader.ofFetch Sample.spelled)) {} "/" Sample.top
        (Sample.referring ("a", "/") ("b", ".")) = .ok tree := by
  refine ⟨?_, ?_, ?_, ?_⟩
  · refine .obj trivial (.cons (.obj trivial (.swap [] ?_)) .nil)
    decide +kernel
  · intro source
    cases Sample.spelled source with
    | error error => exact .failed
    | ok document => exact .gave (.refl document)
  · have resolves : (resolve (some (Loader.ofFetch Sample.spelled)) {} "/" Sample.top
        (Sample.referring ("b", ".") ("a", "/"))).toOption.isSome = true := by decide +kernel
    obtain ⟨tree, resolved⟩ := Option.isSome_iff_exists.mp resolves
    exact ⟨tree, eq_ok_of_toOption resolved⟩
  · rintro ⟨tree, resolved⟩
    have fails : (resolve (some (Loader.ofFetch Sample.spelled)) {} "/" Sample.top
        (Sample.referring ("a", "/") ("b", "."))).toOption = none := by decide +kernel
    rw [resolved] at fails
    cases fails

end Session

end SchemaForms
