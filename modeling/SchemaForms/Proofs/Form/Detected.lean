import SchemaForms.Proofs.Form.Selection
import SchemaForms.Proofs.Json.Opening
import SchemaForms.Proofs.Session.Log
import SchemaForms.Proofs.Text.Opening
import SchemaForms.Proofs.Text.Trimmed

/-!
# Documents that are detected

Octets are detected as a schema if they parse to an object with the members of one. Before they are
parsed, their first octet has to be a brace. This asks for nothing more where an ASCII character that
begins the text is the first octet: the text of an object begins with a brace behind spaces, and all
spaces at the ends of the octets have been removed. In the other encodings the first octet belongs to
a byte order mark or is zero, and the octets are not detected whatever their text is.
-/

namespace SchemaForms

namespace Dialect

variable {raw : Octets} {members : Members}

theorem parse_eq_ok_iff {location : String} :
    parse raw location = .ok members ↔ Json.ofOctets (trimOctets raw) = .ok (.obj members) := by
  constructor
  · exact Session.object_of_parse
  · intro read
    have some : (trimOctets raw).isEmpty = false := by
      cases octets : trimOctets raw with
      | nil =>
          rw [octets] at read
          cases read
      | cons => rfl
    simp only [parse, some, read, Bool.false_eq_true, if_false]

/-- A character that may stand between tokens is a blank octet. -/
theorem isBlankByte_of_isSpace {c : Char} (space : Json.isSpace c = true) :
    c.toNat < 0x80 ∧ Text.isBlankByte (UInt8.ofNat c.toNat) = true := by
  simp only [Json.isSpace, Bool.or_eq_true, decide_eq_true_eq] at space
  obtain ((rfl | rfl) | rfl) | rfl := space
  all_goals decide

/-- The octets of an object begin with a brace just if the text begins in its first octet. -/
theorem head?_eq_brace_iff (read : Json.ofOctets (trimOctets raw) = .ok (.obj members)) :
    (trimOctets raw).head? = some 0x7B ↔
      (Text.Encoding.detect (trimOctets raw)).beginsAsAscii = true := by
  have trimmed : Text.Trimmed Text.isBlankByte (trimOctets raw) := Text.trimmed_trimWhere _ _
  generalize trimOctets raw = octets at read trimmed ⊢
  constructor
  · intro brace
    obtain ⟨rest, rfl⟩ := List.head?_eq_some_iff.mp brace
    exact Text.Encoding.beginsAsAscii_detect (by decide) (by decide)
  · intro begins
    obtain ⟨cs, decoded, read⟩ := Json.exists_chars_of_ofOctets read
    obtain ⟨spaces, rest, rfl, all⟩ := Json.brace_of_ofTokens read
    cases spaces with
    | nil => exact Text.head_of_decodeJsonText begins decoded (by decide)
    | cons c spaces =>
        -- A space in front would be a blank octet, but these are gone.
        obtain ⟨ascii, blank⟩ := isBlankByte_of_isSpace (all c List.mem_cons_self)
        have first := Text.head_of_decodeJsonText begins decoded ascii
        rw [trimmed.head _ first] at blank
        cases blank

theorem detect_iff_head : detect raw = .ok true ↔ (trimOctets raw).head? = some 0x7B ∧
    ∃ members, Json.ofOctets (trimOctets raw) = .ok (.obj members) ∧
      looksLikeSchema members = true := by
  simp only [detect]
  split
  · rename_i brace
    split
    · rename_i members read
      simp [brace, read]
    · rename_i read
      simp [read]
    · rename_i others _
      simp only [Except.ok.injEq, Bool.false_eq_true, false_iff]
      rintro ⟨-, members, read, -⟩
      exact others members read
  · rename_i other
    simp [other]

/-- Octets are detected just if they parse to an object with the members of a schema, in an encoding
that begins as ASCII does. -/
theorem detect_iff (location : String) : detect raw = .ok true ↔
    (Text.Encoding.detect (trimOctets raw)).beginsAsAscii = true ∧
      ∃ members, parse raw location = .ok members ∧ looksLikeSchema members = true := by
  simp only [detect_iff_head, parse_eq_ok_iff]
  constructor
  · rintro ⟨brace, members, read, looks⟩
    exact ⟨(head?_eq_brace_iff read).mp brace, members, read, looks⟩
  · rintro ⟨begins, members, read, looks⟩
    exact ⟨(head?_eq_brace_iff read).mpr begins, members, read, looks⟩

/-- A schema of the supported dialect names it. -/
theorem has_schema_of_validate {location : String} (valid : validate members location = .ok ()) :
    Members.has members "$schema" = true := by
  by_contra absent
  have none : Members.get? members "$schema" = none := by
    simpa [Members.has] using absent
  have empty : Members.text members "$schema" = "" := by
    simp [Members.text, none]
  rw [validate, empty] at valid
  cases valid

/-- A document that names its dialect looks like a schema, if it does not look like something else. -/
theorem looksLikeSchema_iff (typical : Members.has members "$schema" = true) :
    looksLikeSchema members = true ↔ ∀ key ∈ foreignKeys, Members.has members key = false := by
  simp [looksLikeSchema, typicalKeys, typical]

end Dialect

namespace Catalog

/-- A document with a catalog is an object that declares the supported dialect. -/
theorem exists_payload {stack : Stack} {loader : Option Loader} {resolveOptions : ResolveOptions}
    {current : String} {options : FormOptions} {overlay : Option Overlay} {document : Document}
    {catalog : Catalog}
    (made : ofDocument stack loader resolveOptions current options overlay document = .ok catalog) :
    ∃ payload, Dialect.parse document.raw document.location = .ok payload ∧
      Dialect.validate payload document.location = .ok () := by
  obtain ⟨⟨payload, resolved⟩, expanded, -⟩ := except_bind_eq_ok.mp made
  have read := readDocument_of_expand stack loader resolveOptions current document expanded
  obtain ⟨parsed, isObject, read⟩ := except_bind_eq_ok.mp read
  obtain ⟨_, valid, -⟩ := except_bind_eq_ok.mp read
  exact ⟨parsed, isObject, valid⟩

end Catalog

namespace Dialect

/-- Detection agrees with parsing, for all octets in an encoding that begins as ASCII does; in the
others nothing is detected. If a document of the octets can be normalized, they are detected in these
encodings just if they are no document of another kind. -/
theorem detect_agrees (raw : Octets) (location : String) :
    (detect raw = .ok true ↔
      (Text.Encoding.detect (trimOctets raw)).beginsAsAscii = true ∧
        ∃ members, parse raw location = .ok members ∧ looksLikeSchema members = true) ∧
    ∀ stack loader resolveOptions current options overlay catalog, ∀ document : Document,
      document.raw = raw →
      Catalog.ofDocument stack loader resolveOptions current options overlay document = .ok catalog →
        ∃ members, parse raw document.location = .ok members ∧
          (detect raw = .ok true ↔
            (Text.Encoding.detect (trimOctets raw)).beginsAsAscii = true ∧
              ∀ key ∈ foreignKeys, Members.has members key = false) := by
  refine ⟨detect_iff location, ?_⟩
  rintro stack loader resolveOptions current options overlay catalog document rfl made
  obtain ⟨members, parsed, valid⟩ := Catalog.exists_payload made
  have looks := looksLikeSchema_iff (has_schema_of_validate valid)
  refine ⟨members, parsed, (detect_iff document.location).trans (and_congr_right ?_)⟩
  intro begins
  rw [← looks]
  constructor
  · rintro ⟨others, same, looks⟩
    rw [parsed] at same
    rwa [Except.ok.inj same]
  · intro looks
    exact ⟨members, parsed, looks⟩

end Dialect

namespace Sample

/-- A document of two forms, with a byte order mark in front. -/
def marked : Document where
  source := different.source
  raw := 0xEF :: 0xBB :: 0xBF :: different.raw
  raw_ne_nil := List.cons_ne_nil _ _

theorem exists_catalog (result : Except Error Catalog) (some : (summaries result).isSome = true) :
    ∃ catalog, result = .ok catalog := by
  obtain ⟨texts, same⟩ := Option.isSome_iff_exists.mp some
  obtain ⟨catalog, made, -⟩ := exists_forms result texts same
  exact ⟨catalog, made⟩

end Sample

namespace Dialect

/-- Without the mark it is detected. -/
theorem detect_agrees_sample :
    (∃ catalog, Catalog.ofDocument .unlimited none {} "/" {} none Sample.different = .ok catalog) ∧
      detect Sample.different.raw = .ok true := by
  obtain ⟨catalog, made⟩ :=
    Sample.exists_catalog (Catalog.ofDocument .unlimited none {} "/" {} none Sample.different)
      (by decide +kernel)
  obtain ⟨members, parsed, agrees⟩ :=
    (detect_agrees Sample.different.raw "").2 .unlimited none {} "/" {} none catalog Sample.different rfl made
  have own : (parse Sample.different.raw Sample.different.location).toOption.all
      (fun members => foreignKeys.all fun key => !Members.has members key) = true := by
    decide +kernel
  rw [parsed] at own
  refine ⟨⟨catalog, made⟩, agrees.mpr ⟨by decide +kernel, ?_⟩⟩
  intro key foreign
  exact Bool.not_eq_true' _ |>.mp (List.all_eq_true.mp own key foreign)

/-- With a byte order mark a document is parsed and normalized, but not detected. -/
theorem detect_marked :
    detect Sample.marked.raw = .ok false ∧
      (∃ members, parse Sample.marked.raw "form.json" = .ok members ∧
        looksLikeSchema members = true) ∧
      ∃ catalog, Catalog.ofDocument .unlimited none {} "/" {} none Sample.marked = .ok catalog := by
  have looks : (parse Sample.marked.raw "form.json").toOption.any looksLikeSchema = true := by
    decide +kernel
  obtain ⟨members, parsed, looks⟩ := Option.any_eq_true _ _ |>.mp looks
  exact ⟨by decide +kernel, ⟨members, eq_ok_of_toOption parsed, looks⟩,
    Sample.exists_catalog _ (by decide +kernel)⟩

end Dialect

end SchemaForms
