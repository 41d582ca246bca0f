import SchemaForms.Proofs.Expansion.Reordered
import SchemaForms.Proofs.Session.Anchors
import SchemaForms.Proofs.Session.Keyed
import SchemaForms.Proofs.Session.Locate

/-!
# Documents with their members in another order

A document has a counterpart in another session if both are as large and write the same tree but for
the order of members. Then the one is accepted if the other is, its references name the same sources,
and what a fragment denotes in the one has a counterpart in the other.

A session knows documents by their keys. So the loaders of two sessions correspond if they reply with
counterparts to all requests for one key, whatever source is named and whenever that is done.
-/

namespace SchemaForms

open Json (SameButOrder SameMembers)

/-- Both computations fail, or both give values, and these are alike. -/
inductive EndsAlike {α β : Type} (like : α → β → Prop) : Except Error α → Except Error β → Prop
  | failed {error error' : Error} : EndsAlike like (.error error) (.error error')
  | gave {value : α} {other : β} (alike : like value other) :
      EndsAlike like (.ok value) (.ok other)

namespace EndsAlike

variable {α β : Type} {like : α → β → Prop} {like' : β → α → Prop}

theorem exists_ok {value : α} {other : Except Error β} (h : EndsAlike like (.ok value) other) :
    ∃ value', other = .ok value' ∧ like value value' := by
  cases h with
  | gave alike => exact ⟨_, rfl, alike⟩

theorem symm (imp : ∀ {value other}, like value other → like' other value)
    {first : Except Error α} {second : Except Error β} (h : EndsAlike like first second) :
    EndsAlike like' second first := by
  cases h with
  | failed => exact .failed
  | gave alike => exact .gave (imp alike)

end EndsAlike

/-- The documents are as large as each other, and both write nothing of use or objects that are the
same but for the order of members. -/
structure Document.Counterpart (document other : Document) : Prop where
  size : other.size = document.size
  parsed : ∀ location, EndsAlike SameMembers (Dialect.parse document.raw location)
    (Dialect.parse other.raw location)

theorem Document.Counterpart.refl (document : Document) : document.Counterpart document := by
  refine ⟨rfl, fun location => ?_⟩
  cases Dialect.parse document.raw location with
  | error error => exact .failed
  | ok members => exact .gave (.refl _ members)

theorem Document.Counterpart.symm {document other : Document} (h : document.Counterpart other) :
    other.Counterpart document :=
  ⟨h.size.symm, fun location => (h.parsed location).symm Json.ReorderedMembers.symm⟩

/-- Whatever source of a key the loaders are asked for, and whenever, they reply with counterparts or
not at all. -/
def Loader.Counterpart (current : String) (loader other : Loader) : Prop :=
  ∀ earlier earlier' source source',
    (Origin.ofSource current source).key = (Origin.ofSource current source').key →
      EndsAlike Document.Counterpart (loader earlier source) (other earlier' source')

theorem Loader.Counterpart.symm {current : String} {loader other : Loader}
    (h : loader.Counterpart current other) : other.Counterpart current loader :=
  fun earlier earlier' source source' same =>
    (h earlier' earlier source' source same.symm).symm Document.Counterpart.symm

/-- The documents stand in one place and are the same but for the order of members. -/
structure Entry.Counterpart (entry other : Entry) : Prop where
  origin : other.origin = entry.origin
  kind : other.kind = entry.kind
  data : SameMembers entry.data other.data
  anchors : ∀ name, other.anchors.find? name = entry.anchors.find? name

theorem Entry.Counterpart.key {entry other : Entry} (h : entry.Counterpart other) :
    other.key = entry.key :=
  congrArg Origin.key h.origin

/-- The targets stand at one path of documents that are counterparts. -/
structure Target.Counterpart (target other : Target) : Prop where
  entry : target.entry.Counterpart other.entry
  path : other.path = target.path
  value : SameButOrder target.value other.value

theorem Target.Counterpart.key {target other : Target} (h : target.Counterpart other) :
    other.key = target.key := by
  rw [Target.key, Target.key, h.entry.key, h.path]

/-- Members that are the same but for their order declare the same dialect. -/
theorem Dialect.validate_reordered {members others : Members} {location : String}
    (same : SameMembers members others) : validate others location = validate members location := by
  have both := same.get? "$schema"
  have text : Members.text others "$schema" = Members.text members "$schema" := by
    unfold Members.text
    generalize Members.get? members "$schema" = found at both ⊢
    generalize Members.get? others "$schema" = found' at both ⊢
    cases both with
    | none => rfl
    | some like => cases like <;> rfl
  rw [validate, validate, text]

/-- The tables of their anchors are the same but for the order, so they find the same. -/
theorem Anchors.index_reordered {value other : Json} {location path : String}
    {anchors : AnchorTable} (same : SameButOrder value other)
    (indexed : index value location path = .ok anchors) :
    ∃ anchors', index other location path = .ok anchors' ∧
      ∀ name, anchors'.find? name = anchors.find? name := by
  obtain ⟨distinct, rfl⟩ := index_eq_ok.mp indexed
  have perm := declared_reordered same path
  have distinct' : ((declared path other).map (·.1)).Nodup :=
    (perm.map (·.1)).nodup_iff.mp distinct
  refine ⟨_, index_eq_ok.mpr ⟨distinct', rfl⟩, ?_⟩
  intro name
  cases found : (declared path value).find? name with
  | none =>
      rw [find?_eq_none_iff] at found ⊢
      rwa [← (perm.map (·.1)).mem_iff]
  | some anchored => exact find?_of_mem distinct' (perm.subset (mem_of_find? found))

theorem resolvePointer_reordered {value other found : Json} {pointer place : String}
    (same : SameButOrder value other) (read : resolvePointer value pointer place = .ok found) :
    ∃ found', resolvePointer other pointer place = .ok found' ∧ SameButOrder found found' := by
  obtain ⟨here, rfl⟩ | ⟨slash, walked⟩ := resolvePointer_ok_iff.mp read
  · exact ⟨other, resolvePointer_ok_iff.mpr (.inl ⟨here, rfl⟩), same⟩
  · obtain ⟨found', walked', like⟩ := Pointer.descend_reordered same walked
    exact ⟨found', resolvePointer_ok_iff.mpr (.inr ⟨slash, walked'⟩), like⟩

theorem Entry.Counterpart.fragment {entry other : Entry} (h : entry.Counterpart other)
    {fragment place path : String} {value : Json}
    (read : entry.fragment fragment place = .ok (path, value)) :
    ∃ value', other.fragment fragment place = .ok (path, value') ∧ SameButOrder value value' := by
  have data : SameButOrder (.obj entry.data) (.obj other.data) := .obj trivial h.data
  have inside {pointer written : String}
      (read : (resolvePointer (.obj entry.data) pointer place).map (fun inner => (written, inner)) =
        .ok (path, value)) :
      ∃ value', (resolvePointer (.obj other.data) pointer place).map (fun inner => (written, inner)) =
        .ok (path, value') ∧ SameButOrder value value' := by
    obtain ⟨inner, resolved, built⟩ := except_map_eq_ok.mp read
    obtain ⟨rfl, rfl⟩ := Prod.mk.inj built
    obtain ⟨value', resolved', like⟩ := resolvePointer_reordered data resolved
    exact ⟨value', by rw [resolved']; rfl, like⟩
  unfold Entry.fragment at read ⊢
  generalize Text.dropLeading '#' fragment = fragment at read ⊢
  simp only at read
  simp only [h.anchors]
  split at read
  · rename_i here
    obtain ⟨rfl, rfl⟩ := Prod.mk.inj (Except.ok.inj read)
    exact ⟨_, if_pos here, data⟩
  · rename_i elsewhere
    rw [if_neg elsewhere]
    split at read
    · rename_i slash
      rw [if_pos slash]
      exact inside read
    · rename_i slash
      rw [if_neg slash]
      split at read
      · cases read
      · split at read
        · rename_i here
          obtain ⟨rfl, rfl⟩ := Prod.mk.inj (Except.ok.inj read)
          exact ⟨_, if_pos here, data⟩
        · rename_i elsewhere
          rw [if_neg elsewhere]
          exact inside read

theorem Entry.Counterpart.target {entry other : Entry} (h : entry.Counterpart other)
    {fragment place : String} {target : Target}
    (read : entry.target fragment place = .ok target) :
    ∃ target', other.target fragment place = .ok target' ∧ target.Counterpart target' := by
  obtain ⟨⟨path, value⟩, found, rfl⟩ := except_map_eq_ok.mp read
  obtain ⟨value', found', like⟩ := h.fragment found
  exact ⟨⟨other, path, value'⟩, by rw [Entry.target, found']; rfl, h, rfl, like⟩

/-- The second session is used in the same way, and its loader replies with counterparts. -/
structure Session.Counterpart (session other : Session) : Prop where
  options : other.options = session.options
  current : other.current = session.current
  cycles : other.detectsCycles = session.detectsCycles
  loader : Option.Rel (Loader.Counterpart session.current) session.loader other.loader

namespace Session

variable {session other : Session}

theorem Counterpart.symm (h : session.Counterpart other) : other.Counterpart session := by
  refine ⟨h.options.symm, h.current.symm, h.cycles.symm, ?_⟩
  have loaders := h.loader
  rw [h.current]
  generalize session.loader = loader at loaders ⊢
  generalize other.loader = loader' at loaders ⊢
  cases loaders with
  | none => exact .none
  | some like => exact .some like.symm

theorem Counterpart.originOf (h : session.Counterpart other) (source : Source) :
    other.originOf source = session.originOf source := by
  rw [Session.originOf, Session.originOf, h.current]

/-- The counterpart of a document that has been accepted is accepted. -/
theorem Accepts.counterpart (h : session.Counterpart other) {kind : SourceKind} {origin : Origin}
    {document document' : Document} {entry : Entry} (like : document.Counterpart document')
    (accepts : session.Accepts kind origin document entry) :
    ∃ entry', other.Accepts kind origin document' entry' ∧ entry.Counterpart entry' := by
  have parsed := like.parsed origin.location
  rw [accepts.parsed] at parsed
  obtain ⟨data', parsed', same⟩ := parsed.exists_ok
  obtain ⟨anchors', indexed', finds⟩ :=
    Anchors.index_reordered (Json.sameButOrder_obj.mpr same) accepts.anchors
  refine ⟨⟨origin, kind, data', anchors'⟩, ⟨?_, parsed', ?_, indexed', rfl, rfl⟩,
    accepts.origin.symm, accepts.kind.symm, same, finds⟩
  · rw [like.size, h.options]
    exact accepts.size
  · rw [Dialect.validate_reordered same]
    exact accepts.dialect

/-- What a request for a key has brought to the one session, a request for that key brings to the
other. -/
theorem reply_counterpart (h : session.Counterpart other) {loader : Loader}
    (some : session.loader = some loader) {earlier : List Source} {source : Source} {entry : Entry}
    (replied : session.reply loader earlier source = .ok entry) :
    ∃ loader', other.loader = .some loader' ∧ ∀ earlier' source',
      (other.originOf source').key = entry.key →
        ∃ entry', other.reply loader' earlier' source' = .ok entry' ∧ entry.Counterpart entry' := by
  have loaders := h.loader
  rw [some] at loaders
  generalize other.loader = found at loaders ⊢
  cases loaders with
  | @some _ loader' like =>
      refine ⟨loader', rfl, ?_⟩
      intro earlier' source' same
      obtain ⟨document, fetched, accepts⟩ := reply_eq_ok.mp replied
      rw [h.originOf, key_of_reply replied] at same
      have ends := like earlier earlier' source source' same.symm
      rw [fetched] at ends
      obtain ⟨document', fetched', documents⟩ := ends.exists_ok
      obtain ⟨kind, origin⟩ := Origin.eq_of_key same
      obtain ⟨entry', accepts', counterpart⟩ := accepts.counterpart h documents
      refine ⟨entry', reply_eq_ok.mpr ⟨document', fetched', ?_⟩, counterpart⟩
      rw [h.originOf, kind]
      rw [show session.originOf source' = session.originOf source from origin]
      exact accepts'

end Session

end SchemaForms
