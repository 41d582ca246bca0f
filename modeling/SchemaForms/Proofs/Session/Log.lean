import SchemaForms.Proofs.Session.Anchors
import SchemaForms.Proofs.Session.Fetched

/-!
# The record of a session

A session may be used for any number of calls after its root has been opened, and some of them may
fail. `Log` is the record of all requests since then: each was for a document that the session did
not have, with space left for it, and it has either brought that document or nothing. What is known
of the documents of a session is read off this record by induction.
-/

namespace SchemaForms.Session

variable {session : Session}

/-- The requests and documents of a session after any requests, in vain or not. -/
inductive Log (session : Session) (before : SessionState) : List Source → List Entry → Prop
  | start : Log session before before.requests before.cache
  | refused {requests : List Source} {cache : List Entry} {source : Source} {error : Error}
      (log : Log session before requests cache)
      (asks : session.Asks requests cache source (.error error)) :
      Log session before (requests ++ [source]) cache
  | accepted {requests : List Source} {cache : List Entry} {source : Source} {entry : Entry}
      (log : Log session before requests cache)
      (asks : session.Asks requests cache source (.ok entry)) :
      Log session before (requests ++ [source]) (cache ++ [entry])

/-- What came to the session as a reply of the loader: a document of its own key, not too large,
which writes an object of the supported dialect and names no anchor twice. -/
structure Vetted (session : Session) (source : Source) (document : Document) (entry : Entry) :
    Prop where
  key : entry.key = (session.originOf source).key
  kind : entry.kind = source.kind
  size : document.size ≤ session.options.maxDocumentSize
  object : Json.ofOctets (Dialect.trimOctets document.raw) = .ok (.obj entry.data)
  dialect : Dialect.isSupported (Text.trim (Members.text entry.data "$schema")) = true
  anchors : ((Anchors.declared "#" (.obj entry.data)).map (·.1)).Nodup

theorem object_of_parse {raw : Octets} {location : String} {members : Members}
    (h : Dialect.parse raw location = .ok members) :
    Json.ofOctets (Dialect.trimOctets raw) = .ok (.obj members) := by
  unfold Dialect.parse at h
  simp only at h
  split at h
  · cases h
  · split at h
    · cases h
    · rename_i read
      rw [read, Except.ok.inj h]
    · cases h

theorem isSupported_of_validate {schema : Members} {location : String}
    (h : Dialect.validate schema location = .ok ()) :
    Dialect.isSupported (Text.trim (Members.text schema "$schema")) = true := by
  unfold Dialect.validate at h
  generalize Text.trim (Members.text schema "$schema") = dialect at h ⊢
  by_contra other
  by_cases none : dialect = ""
  · simp [none] at h
  · simp [none, other] at h

theorem Accepts.vetted {source : Source} {document : Document} {entry : Entry}
    (h : session.Accepts source.kind (session.originOf source) document entry) :
    session.Vetted source document entry where
  key := by rw [Entry.key, h.origin]
  kind := h.kind
  size := h.size
  object := object_of_parse h.parsed
  dialect := isSupported_of_validate h.dialect
  anchors := (Anchors.index_eq_ok.mp h.anchors).1

namespace Log

variable {before : SessionState} {requests : List Source} {cache : List Entry}

theorem trans {first second : SessionState} (h : session.Log first second.requests second.cache)
    (h' : session.Log second requests cache) : session.Log first requests cache := by
  induction h' with
  | start => exact h
  | refused _ asks ih => exact ih.refused asks
  | accepted _ asks ih => exact ih.accepted asks

theorem of_fetched (h : session.Fetched before requests cache) :
    session.Log before requests cache := by
  induction h with
  | start => exact .start
  | accepted _ asks ih => exact ih.accepted asks

/-- The documents that were there stay, in front of all others. -/
theorem keeps (h : session.Log before requests cache) : before.cache <+: cache := by
  induction h with
  | start => exact List.prefix_refl _
  | refused _ _ ih => exact ih
  | accepted _ _ ih => exact ih.trans (List.prefix_append _ _)

theorem added (h : session.Log before requests cache) :
    ∃ new, requests = before.requests ++ new ∧
      ∀ source ∈ new, (session.originOf source).key ∉ before.cache.map Entry.key := by
  have step {requests : List Source} {cache : List Entry} {source : Source}
      (log : session.Log before requests cache)
      (missing : (session.originOf source).key ∉ cache.map Entry.key)
      (ih : ∃ new, requests = before.requests ++ new ∧
        ∀ source ∈ new, (session.originOf source).key ∉ before.cache.map Entry.key) :
      ∃ new, requests ++ [source] = before.requests ++ new ∧
        ∀ source ∈ new, (session.originOf source).key ∉ before.cache.map Entry.key := by
    obtain ⟨new, rfl, others⟩ := ih
    refine ⟨new ++ [source], List.append_assoc _ _ _, ?_⟩
    intro other mem
    obtain earlier | now := List.mem_append.mp mem
    · exact others other earlier
    · rw [List.mem_singleton.mp now]
      exact fun cached => missing ((log.keeps.map Entry.key).subset cached)
  induction h with
  | start => exact ⟨[], (List.append_nil _).symm, by simp⟩
  | refused log asks ih => exact step log asks.missing ih
  | accepted log asks ih => exact step log asks.missing ih

theorem bounded (h : session.Log before requests cache)
    (start : before.cache.length ≤ session.options.maxDocuments) :
    cache.length ≤ session.options.maxDocuments := by
  induction h with
  | start => exact start
  | refused _ _ ih => exact ih
  | accepted _ asks =>
      rw [List.length_append, List.length_singleton]
      exact asks.space

theorem nodup (h : session.Log before requests cache)
    (start : (before.cache.map Entry.key).Nodup) : (cache.map Entry.key).Nodup := by
  induction h with
  | start => exact start
  | refused _ _ ih => exact ih
  | @accepted requests cache source entry _ asks ih =>
      have missing := asks.missing
      rw [← asks.key] at missing
      exact SessionState.distinct_concat ih missing

/-- Every document that was not there at first has been requested and vetted. -/
theorem vetted (h : session.Log before requests cache) :
    ∀ entry ∈ cache, entry ∈ before.cache ∨ ∃ loader earlier source later document,
      session.loader = some loader ∧ requests = earlier ++ source :: later ∧
        loader earlier source = .ok document ∧ session.Vetted source document entry := by
  induction h with
  | start => exact fun entry mem => .inl mem
  | @refused requests cache last error _ _ ih =>
      intro entry mem
      obtain first | ⟨loader, earlier, source, later, document, some, rfl, rest⟩ := ih entry mem
      · exact .inl first
      · exact .inr ⟨loader, earlier, source, later ++ [last], document, some, by simp, rest⟩
  | @accepted requests cache last new _ asks ih =>
      intro entry mem
      obtain mem | mem := List.mem_append.mp mem
      · obtain first | ⟨loader, earlier, source, later, document, some, rfl, rest⟩ := ih entry mem
        · exact .inl first
        · exact .inr ⟨loader, earlier, source, later ++ [last], document, some, by simp, rest⟩
      · obtain rfl := List.mem_singleton.mp mem
        obtain ⟨loader, some, reply⟩ := asks.replied
        obtain ⟨document, replied, accepts⟩ := reply_eq_ok.mp reply
        exact .inr ⟨loader, requests, last, [], document, some, rfl, replied, accepts.vetted⟩

/-- Where a request stands in a row that ends with another one: at its end, or before that. -/
theorem split_concat {α : Type} {row earlier later : List α} {last one : α}
    (h : row ++ [last] = earlier ++ one :: later) :
    (row = earlier ∧ last = one ∧ later = []) ∨
      ∃ rest, later = rest ++ [last] ∧ row = earlier ++ one :: rest := by
  obtain rfl | ⟨rest, other, rfl⟩ := List.eq_nil_or_concat' later
  · obtain ⟨rfl, same⟩ := List.append_inj' h rfl
    exact .inl ⟨rfl, List.singleton_inj.mp same, rfl⟩
  · rw [← List.cons_append, ← List.append_assoc] at h
    obtain ⟨same, ends⟩ := List.append_inj' h rfl
    exact .inr ⟨rest, by rw [List.singleton_inj.mp ends], same⟩

/-- A request that was worth a document has brought it, and no later request has been for the key
of that document. -/
theorem once (h : session.Log before requests cache) {earlier later : List Source}
    {source : Source} {loader : Loader} {entry : Entry} (some : session.loader = some loader)
    (reply : session.reply loader earlier source = .ok entry) (new : before.requests <+: earlier)
    (split : requests = earlier ++ source :: later) :
    entry ∈ cache ∧ ∀ other ∈ later, (session.originOf other).key ≠ entry.key := by
  have again {cache : List Entry} {rest : List Source} {last : Source}
      (missing : (session.originOf last).key ∉ cache.map Entry.key)
      (ih : entry ∈ cache ∧ ∀ other ∈ rest, (session.originOf other).key ≠ entry.key) :
      ∀ other ∈ rest ++ [last], (session.originOf other).key ≠ entry.key := by
    intro other mem
    obtain earlier | now := List.mem_append.mp mem
    · exact ih.2 other earlier
    · rw [List.mem_singleton.mp now]
      rintro same
      exact missing (same ▸ List.mem_map_of_mem ih.1)
  induction h generalizing later with
  | start =>
      have short := new.length_le
      rw [split, List.length_append, List.length_cons] at short
      omega
  | @refused requests cache last error _ asks ih =>
      obtain ⟨rfl, rfl, rfl⟩ | ⟨rest, rfl, rfl⟩ := split_concat split
      · obtain ⟨other, same, refused⟩ := asks.replied
        obtain rfl := Option.some.inj (some.symm.trans same)
        rw [reply] at refused
        cases refused
      · have earlier := ih rfl
        exact ⟨earlier.1, again asks.missing earlier⟩
  | @accepted requests cache last next _ asks ih =>
      obtain ⟨rfl, rfl, rfl⟩ | ⟨rest, rfl, rfl⟩ := split_concat split
      · obtain ⟨other, same, accepted⟩ := asks.replied
        obtain rfl := Option.some.inj (some.symm.trans same)
        rw [reply] at accepted
        rw [Except.ok.inj accepted]
        exact ⟨by simp, by simp⟩
      · have earlier := ih rfl
        exact ⟨List.mem_append_left _ earlier.1, again asks.missing earlier⟩

/-- Whatever a step of a run comes to, its requests are on record. -/
theorem of_meets {α : Type} {step : Run α} {state : SessionState} {post : SessionState → α → Prop}
    (h : session.fetching.Meets step state post) :
    session.Log state (step.outcome state).2.requests (step.outcome state).2.cache := by
  cases run : step.outcome state with
  | mk ended after =>
      cases ended with
      | ok value => exact of_fetched (h.ok run).1.2
      | error fault =>
          obtain ⟨-, fetched | ⟨requests, source, error, eq, fetched, asks⟩⟩ := h.error run
          · exact of_fetched fetched
          · rw [eq]
            exact (of_fetched fetched).refused asks

end Log

end SchemaForms.Session
