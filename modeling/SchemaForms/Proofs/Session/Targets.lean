import SchemaForms.Proofs.Expansion.Completes
import SchemaForms.Proofs.Session.Log
import SchemaForms.Proofs.Session.Root

/-!
# Targets and their keys

The key of a target is that of its document with its path behind it. The path is a pointer behind a
`#`, whether a reference names the place by a pointer or by an anchor, and the value of the target
is the one at this pointer.

Nothing marks where in a key the document ends and the path begins, and a document may have a `#` in
its key as well. So two targets have one key if and only if they are the same, or the key of the one
document goes on, behind that of the other, just as a path does: such targets overlap. If no
document has a `#` in its key, the key of a target tells its document, its path and its value.
-/

namespace SchemaForms

/-- What a session has read when its documents are told apart by keys without a `#`. -/
structure SessionState.Library (state : SessionState) : Prop where
  distinct : (state.cache.map Entry.key).Nodup
  noHash : ∀ entry ∈ state.cache, '#' ∉ entry.key.toList
  anchored : ∀ entry ∈ state.cache, ∀ anchor ∈ entry.anchors,
    ∃ pointer, IsPointer pointer ∧ anchor.2 = "#" ++ pointer

theorem resolvePointer_place {root value : Json} {pointer place : String} (other : String)
    (h : resolvePointer root pointer place = .ok value) :
    resolvePointer root pointer other = .ok value :=
  resolvePointer_ok_iff.mpr (resolvePointer_ok_iff.mp h)

theorem dropLeading_hash (rest : String) : Text.dropLeading '#' ("#" ++ rest) = rest := by
  simp [Text.dropLeading]

/-- Where a fragment may lead in a document: to its root, to the value at a pointer, or to the one at
the pointer of an anchor. -/
inductive Entry.TargetAt (entry : Entry) (place : String) : String → Json → Prop
  | root : TargetAt entry place "#" (.obj entry.data)
  | pointer {pointer : String} {value : Json} (slash : Text.startsWith '/' pointer = true)
      (denotes : resolvePointer (.obj entry.data) pointer place = .ok value) :
      TargetAt entry place ("#" ++ pointer) value
  | anchor {name path : String} {value : Json} (listed : (name, path) ∈ entry.anchors)
      (denotes : resolvePointer (.obj entry.data) (Text.dropLeading '#' path) place = .ok value) :
      TargetAt entry place path value

theorem Entry.targetAt {entry : Entry} {fragment place : String} {target : Target}
    (h : entry.target fragment place = .ok target) :
    entry.TargetAt place target.path target.value := by
  obtain ⟨⟨path, value⟩, read, rfl⟩ := except_map_eq_ok.mp h
  unfold Entry.fragment at read
  generalize Text.dropLeading '#' fragment = fragment at read
  simp only at read
  split at read
  · obtain ⟨rfl, rfl⟩ := Prod.mk.inj (Except.ok.inj read)
    exact .root
  · split at read
    · rename_i slash
      obtain ⟨found, resolved, same⟩ := except_map_eq_ok.mp read
      obtain ⟨rfl, rfl⟩ := Prod.mk.inj same
      exact .pointer slash resolved
    · split at read
      · cases read
      · rename_i anchor named
        split at read
        · obtain ⟨rfl, rfl⟩ := Prod.mk.inj (Except.ok.inj read)
          exact .root
        · obtain ⟨found, resolved, same⟩ := except_map_eq_ok.mp read
          obtain ⟨rfl, rfl⟩ := Prod.mk.inj same
          exact .anchor (Anchors.mem_of_find? named) resolved

/-- A fragment leads to the value at a pointer, which is the path of the target behind its `#`, if
the paths of the anchors are pointers behind a `#`. -/
theorem Entry.target_stands {entry : Entry} {fragment place : String} {target : Target}
    (anchored : ∀ anchor ∈ entry.anchors, ∃ pointer, IsPointer pointer ∧ anchor.2 = "#" ++ pointer)
    (h : entry.target fragment place = .ok target) :
    ∃ pointer, IsPointer pointer ∧ target.path = "#" ++ pointer ∧
      resolvePointer (.obj entry.data) pointer place = .ok target.value := by
  have leads := Entry.targetAt h
  generalize target.path = path, target.value = value at leads ⊢
  cases leads with
  | root => exact ⟨"", .inl rfl, by simp, rfl⟩
  | pointer slash denotes => exact ⟨_, .inr slash, rfl, denotes⟩
  | anchor listed denotes =>
      obtain ⟨pointer, isPointer, eq⟩ := anchored _ listed
      obtain rfl : path = "#" ++ pointer := eq
      rw [dropLeading_hash] at denotes
      exact ⟨pointer, isPointer, rfl, denotes⟩

/-- The path of the target begins with what the key of the other's document has behind the key of
the target's own, and the rest of the path is the path of the other. -/
def Target.Overlaps (target other : Target) : Prop :=
  ∃ rest, other.entry.key = target.entry.key ++ "#/" ++ rest ∧
    target.path = "#/" ++ rest ++ other.path

theorem Target.Overlaps.key_eq {target other : Target} (h : target.Overlaps other) :
    target.key = other.key := by
  obtain ⟨rest, key, path⟩ := h
  rw [Target.key, Target.key, key, path]
  simp only [String.append_assoc]

/-- Only a document with a `#` in its key is overlapped. -/
theorem Target.Overlaps.hash_mem {target other : Target} (h : target.Overlaps other) :
    '#' ∈ other.entry.key.toList := by
  obtain ⟨rest, key, -⟩ := h
  simp [key]

/-- Where a key and a pointer behind a `#` are a longer key and a pointer behind a `#`, the longer
key goes on with a `#` and a slash. -/
theorem exists_rest_of_append {pointer pointer' more : String} (isPointer : IsPointer pointer)
    (same : "#" ++ pointer = more ++ ("#" ++ pointer')) :
    (more = "" ∧ pointer = pointer') ∨ ∃ rest, more = "#/" ++ rest := by
  have chars : '#' :: pointer.toList = more.toList ++ '#' :: pointer'.toList := by
    simpa using congrArg String.toList same
  cases cut : more.toList with
  | nil =>
      rw [cut] at chars
      exact .inl ⟨String.toList_eq_nil_iff.mp cut, String.toList_inj.mp (List.cons.inj chars).2⟩
  | cons c cs =>
      rw [cut] at chars
      obtain ⟨rfl, behind⟩ := List.cons.inj chars
      obtain rfl | slash := isPointer
      · simp at behind
      · obtain ⟨rest, begins⟩ := List.head?_eq_some_iff.mp (beq_iff_eq.mp slash)
        rw [begins] at behind
        cases cs with
        | nil =>
            obtain ⟨differ, -⟩ := List.cons.inj behind
            exact absurd differ (by decide)
        | cons d ds =>
            obtain ⟨rfl, -⟩ := List.cons.inj behind
            refine .inr ⟨String.ofList ds, String.toList_inj.mp ?_⟩
            rw [cut]
            simp

/-- A text that is a key and a pointer behind a `#` is cut in one way, or else one of the keys goes
on, behind the other, as a path does. -/
theorem key_cases {key key' pointer pointer' : String} (isPointer : IsPointer pointer)
    (isPointer' : IsPointer pointer')
    (same : key ++ ("#" ++ pointer) = key' ++ ("#" ++ pointer')) :
    (key = key' ∧ pointer = pointer') ∨
      (∃ rest, key' = key ++ "#/" ++ rest ∧ "#" ++ pointer = "#/" ++ rest ++ ("#" ++ pointer')) ∨
      ∃ rest, key = key' ++ "#/" ++ rest ∧ "#" ++ pointer' = "#/" ++ rest ++ ("#" ++ pointer) := by
  have chars : key.toList ++ ("#" ++ pointer).toList = key'.toList ++ ("#" ++ pointer').toList := by
    simpa using congrArg String.toList same
  obtain ⟨more, longer, behind⟩ | ⟨more, longer, behind⟩ := List.append_eq_append_iff.mp chars
  · have key' : key' = key ++ String.ofList more := String.toList_inj.mp (by simpa using longer)
    have path : "#" ++ pointer = String.ofList more ++ ("#" ++ pointer') :=
      String.toList_inj.mp (by simpa using behind)
    obtain ⟨none, rfl⟩ | ⟨rest, more⟩ := exists_rest_of_append isPointer path
    · exact .inl ⟨by rw [key', none, String.append_empty], rfl⟩
    · rw [more] at key' path
      exact .inr (.inl ⟨rest, by rw [key', String.append_assoc], path⟩)
  · have key : key = key' ++ String.ofList more := String.toList_inj.mp (by simpa using longer)
    have path : "#" ++ pointer' = String.ofList more ++ ("#" ++ pointer) :=
      String.toList_inj.mp (by simpa using behind)
    obtain ⟨none, rfl⟩ | ⟨rest, more⟩ := exists_rest_of_append isPointer' path
    · exact .inl ⟨by rw [key, none, String.append_empty], rfl⟩
    · rw [more] at key path
      exact .inr (.inr ⟨rest, by rw [key, String.append_assoc], path⟩)

/-- The target is a value of one of the session's documents, at the pointer that its path is. -/
structure SessionState.Holds (state : SessionState) (target : Target) : Prop where
  known : target.entry ∈ state.cache
  found : ∃ pointer, IsPointer pointer ∧ target.path = "#" ++ pointer ∧
    resolvePointer (.obj target.entry.data) pointer "" = .ok target.value

namespace SessionState.Holds

variable {state later : SessionState} {target other : Target}

theorem of_target {entry : Entry} {fragment place : String} (mem : entry ∈ state.cache)
    (anchored : ∀ anchor ∈ entry.anchors, ∃ pointer, IsPointer pointer ∧ anchor.2 = "#" ++ pointer)
    (h : entry.target fragment place = .ok target) : state.Holds target := by
  obtain rfl := entry_of_target h
  obtain ⟨pointer, isPointer, path, found⟩ := Entry.target_stands anchored h
  exact ⟨mem, pointer, isPointer, path, resolvePointer_place "" found⟩

theorem mono (h : state.Holds target) (keeps : state.cache <+: later.cache) :
    later.Holds target :=
  ⟨keeps.subset h.known, h.found⟩

/-- Targets of documents that are told apart by their keys have one key if and only if they are the
same or overlap. -/
theorem key_eq_iff (distinct : (state.cache.map Entry.key).Nodup) (h : state.Holds target)
    (h' : state.Holds other) :
    target.key = other.key ↔ target = other ∨ target.Overlaps other ∨ other.Overlaps target := by
  obtain ⟨pointer, isPointer, path, value⟩ := h.found
  obtain ⟨pointer', isPointer', path', value'⟩ := h'.found
  constructor
  · intro same
    rw [Target.key, Target.key, path, path'] at same
    obtain ⟨key, rfl⟩ | ⟨rest, key, behind⟩ | ⟨rest, key, behind⟩ :=
      key_cases isPointer isPointer' same
    · have entries := List.inj_on_of_nodup_map distinct h.known h'.known key
      have values : target.value = other.value := by
        rw [entries] at value
        exact Except.ok.inj (value.symm.trans value')
      obtain ⟨entry, path, value⟩ := target
      obtain ⟨entry', path', value'⟩ := other
      exact .inl (by simp_all)
    · exact .inr (.inl ⟨rest, key, by rw [path, path', behind]⟩)
    · exact .inr (.inr ⟨rest, key, by rw [path, path', behind]⟩)
  · rintro (rfl | overlaps | overlaps)
    · rfl
    · exact overlaps.key_eq
    · exact overlaps.key_eq.symm

end SessionState.Holds

namespace Session

variable {session : Session} {library : SessionState}

/-- What a reference from a document of the session denotes is read in such a document. -/
theorem Denotes.read {entry : Entry} {node : Members} {place : String} {target : Target}
    (h : session.Denotes library entry node place target) (mem : entry ∈ library.cache) :
    target.entry ∈ library.cache ∧ ∃ fragment, target.entry.target fragment place = .ok target := by
  obtain ⟨ref, -, run⟩ := h
  obtain ⟨-, other, among, read⟩ := (session.locate_fetching entry ref place library).ok run
  obtain rfl := entry_of_target read
  refine ⟨?_, fragmentPart ref, read⟩
  obtain same | other := among
  · exact same ▸ mem
  · exact other

/-- In a library the targets of references are told apart by their keys. -/
theorem Denotes.eq_of_key (h : library.Library) {entry entry' : Entry} {node node' : Members}
    {place place' : String} {target target' : Target}
    (mem : entry ∈ library.cache) (mem' : entry' ∈ library.cache)
    (denotes : session.Denotes library entry node place target)
    (denotes' : session.Denotes library entry' node' place' target')
    (same : target.key = target'.key) : target = target' := by
  obtain ⟨among, fragment, read⟩ := denotes.read mem
  obtain ⟨among', fragment', read'⟩ := denotes'.read mem'
  have holds : library.Holds target := .of_target among (h.anchored _ among) read
  have holds' : library.Holds target' := .of_target among' (h.anchored _ among') read'
  obtain same | overlaps | overlaps := (holds.key_eq_iff h.distinct holds').mp same
  · exact same
  · exact absurd overlaps.hash_mem (h.noHash _ among')
  · exact absurd overlaps.hash_mem (h.noHash _ among)

/-- In a library it is determined what references denote. -/
theorem determined (h : library.Library) :
    Expansion.Determined (session.Denotes library) (· ∈ library.cache) where
  unique := Denotes.unique
  byText same denotes := by
    obtain ⟨ref, written, run⟩ := denotes
    refine ⟨ref, ?_, run⟩
    rw [← written, Expansion.refText, Expansion.refText, same]
  keeps mem denotes := (denotes.read mem).1
  byKey := Denotes.eq_of_key h

/-- The paths of the anchors of a document are pointers behind a `#`. -/
theorem anchored_of_index {value : Json} {location : String} {anchors : AnchorTable}
    (h : Anchors.index value location "#" = .ok anchors) :
    ∀ anchor ∈ anchors, ∃ pointer, IsPointer pointer ∧ anchor.2 = "#" ++ pointer := by
  obtain ⟨-, rfl⟩ := Anchors.index_eq_ok.mp h
  exact Anchors.declared_path value "#" (by decide)

/-- Each document of the session is one that there was before, or has been accepted. -/
theorem accepted_of_log {before : SessionState} {requests : List Source} {cache : List Entry}
    (log : session.Log before requests cache) {entry : Entry} (mem : entry ∈ cache) :
    entry ∈ before.cache ∨
      ∃ kind origin document, session.Accepts kind origin document entry := by
  induction log with
  | start => exact .inl mem
  | refused _ _ ih => exact ih mem
  | accepted _ asks ih =>
      obtain earlier | now := List.mem_append.mp mem
      · exact ih earlier
      · obtain rfl := List.mem_singleton.mp now
        obtain ⟨loader, -, reply⟩ := asks.replied
        obtain ⟨document, -, accepts⟩ := reply_eq_ok.mp reply
        exact .inr ⟨_, _, document, accepts⟩

/-- In a session the anchors of all documents have such paths. -/
theorem anchored_of_log {document : Document} {payload : Json} {root : Entry}
    {requests : List Source} {cache : List Entry} (opens : session.Opens document payload root)
    (log : session.Log (.opened root) requests cache) :
    ∀ entry ∈ cache, ∀ anchor ∈ entry.anchors,
      ∃ pointer, IsPointer pointer ∧ anchor.2 = "#" ++ pointer := by
  intro entry mem
  obtain before | ⟨kind, origin, document, accepts⟩ := accepted_of_log log mem
  · obtain rfl := List.mem_singleton.mp before
    exact anchored_of_index opens.anchors
  · exact anchored_of_index accepts.anchors

/-- After a run that began with a root document only, the session has a library if no key has a
`#`. -/
theorem library_of_fetched {document : Document} {payload : Json} {root : Entry}
    (opens : session.Opens document payload root)
    (fetched : session.Fetched (.opened root) library.requests library.cache)
    (noHash : ∀ entry ∈ library.cache, '#' ∉ entry.key.toList) : library.Library where
  distinct := (Log.of_fetched fetched).nodup (List.nodup_singleton root.key)
  noHash := noHash
  anchored := anchored_of_log opens (Log.of_fetched fetched)

end Session

end SchemaForms
