import SchemaForms.Proofs.Json.Reading
import SchemaForms.Proofs.Text.Decoded

/-!
# The texts of a JSON value

All strings and names of a value that octets write are spelled. A string is cut out of the decoded
text at quotation marks, which have no part in a pair, and its escapes are spelled as they are read.
The reader only puts together what the tokens bring.
-/

namespace SchemaForms

namespace Json

open Text (Spelled mark)

mutual

/-- All strings and names of the value are spelled. -/
def SpelledTexts : Json → Prop
  | .str text => Spelled text.toList
  | .arr elements => SpelledElements elements
  | .obj members => SpelledMembers members
  | _ => True

def SpelledElements : List Json → Prop
  | [] => True
  | value :: rest => value.SpelledTexts ∧ SpelledElements rest

/-- All names, and all strings and names of the members' values, are spelled. -/
def SpelledMembers : List (String × Json) → Prop
  | [] => True
  | (name, value) :: rest => Spelled name.toList ∧ value.SpelledTexts ∧ SpelledMembers rest

end

theorem spelledElements_iff {elements : List Json} :
    SpelledElements elements ↔ ∀ value ∈ elements, value.SpelledTexts := by
  induction elements with
  | nil => simp [SpelledElements]
  | cons value rest ih => rw [SpelledElements, ih, List.forall_mem_cons]

theorem SpelledMembers.get? {members : Members} (h : SpelledMembers members) {key : String}
    {value : Json} (found : Members.get? members key = some value) : value.SpelledTexts := by
  induction members with
  | nil => cases found
  | cons member rest ih =>
      obtain ⟨name, first⟩ := member
      obtain ⟨-, own, others⟩ := h
      rw [Members.get?_cons] at found
      split at found
      · rwa [← Option.some.inj found]
      · exact ih others found

theorem SpelledMembers.set {members : Members} (h : SpelledMembers members) {key : String}
    {value : Json} (named : Spelled key.toList) (own : value.SpelledTexts) :
    SpelledMembers (Members.set members key value) := by
  induction members with
  | nil => exact ⟨named, own, trivial⟩
  | cons member rest ih =>
      obtain ⟨name, first⟩ := member
      obtain ⟨there, old, others⟩ := h
      rw [Members.set]
      split
      · exact ⟨there, own, others⟩
      · exact ⟨there, old, ih others⟩

section Strings

/-- The digits of an escape by number are not the mark. -/
theorem mark_not_mem_escape {a b c d : Char} {n : Nat} (h : hex4? a b c d = some n) :
    mark ∉ ['u', a, b, c, d] := by
  have none : Text.hexDigit? mark = Option.none := by decide
  intro mem
  simp only [List.mem_cons, List.not_mem_nil, or_false] at mem
  obtain same | rfl | rfl | rfl | rfl := mem
  · exact absurd same (by decide)
  all_goals simp [hex4?, none] at h

theorem spelled_behind_escape {a b c d : Char} {rest : List Char} {n : Nat}
    (h : Spelled ('u' :: a :: b :: c :: d :: rest)) (written : hex4? a b c d = some n) :
    Spelled rest :=
  Spelled.drop (show Spelled (['u', a, b, c, d] ++ rest) from h) (mark_not_mem_escape written)

theorem ne_mark_of_shortEscape? {c char : Char} (h : shortEscape? c = some char) :
    c ≠ mark ∧ char ≠ mark := by
  unfold shortEscape? at h
  split at h
  all_goals first
    | (obtain rfl := Option.some.inj h; decide)
    | cases h

/-- An escape spells a text, and stands in front of the rest of one. -/
theorem spelled_readEscape {start position width : Nat} {cs chars : List Char} (h : Spelled cs)
    (read : readEscape start position cs = .ok (chars, width)) :
    Spelled chars ∧ Spelled (cs.drop width) := by
  unfold readEscape at read
  split at read
  · cases read
  · rename_i a b c d next rest
    split at read
    · cases read
    · rename_i unit written
      have behind : Spelled (next :: rest) := spelled_behind_escape h written
      have one : Spelled (Text.spell unit) ∧ Spelled (next :: rest) :=
        ⟨Text.spelled_spell unit, behind⟩
      split at read
      · split at read
        · rename_i e f g h' last after
          split at read
          · cases read
          · rename_i low written'
            split at read
            · obtain ⟨rfl, rfl⟩ := Prod.mk.inj (Except.ok.inj read)
              exact ⟨Text.spelled_spell _,
                spelled_behind_escape (behind.tail (by decide)) written'⟩
            · obtain ⟨rfl, rfl⟩ := Prod.mk.inj (Except.ok.inj read)
              exact one
        · obtain ⟨rfl, rfl⟩ := Prod.mk.inj (Except.ok.inj read)
          exact one
      · obtain ⟨rfl, rfl⟩ := Prod.mk.inj (Except.ok.inj read)
        exact one
  · cases read
  · rename_i c rest _ _
    split at read
    · rename_i char stands
      obtain ⟨rfl, rfl⟩ := Prod.mk.inj (Except.ok.inj read)
      obtain ⟨other, other'⟩ := ne_mark_of_shortEscape? stands
      exact ⟨.single other', h.tail other⟩
    · cases read

theorem spelled_readString {start : Nat} {text : String} {stop : Nat} (rest : List Char)
    (skip position : Nat) (done : List Char) (h : Spelled (done.reverse ++ rest.drop skip))
    (read : readString start skip position done rest = .ok (text, stop)) :
    Spelled text.toList := by
  induction rest generalizing skip position done with
  | nil => cases skip <;> cases read
  | cons c rest ih =>
      cases skip with
      | succ skip =>
          rw [readString] at read
          exact ih skip (position + 1) done h read
      | zero =>
          rw [readString] at read
          rw [List.drop_zero] at h
          split at read
          · rename_i closing
            rw [closing] at h
            obtain ⟨rfl, -⟩ := Prod.mk.inj (Except.ok.inj read)
            rw [String.toList_ofList]
            exact (h.cut (by decide)).1
          · split at read
            · rename_i escape
              rw [escape] at h
              obtain ⟨before, behind⟩ := h.cut (by decide)
              split at read
              · cases read
              · rename_i chars width escaped
                obtain ⟨own, after⟩ := spelled_readEscape (behind.tail (by decide)) escaped
                refine ih width (position + 1) _ ?_ read
                rw [List.reverse_append, List.reverse_reverse]
                exact (before.append own).append after
            · split at read
              · cases read
              · refine ih 0 (position + 1) _ ?_ read
                rwa [List.reverse_cons, List.append_assoc]

end Strings

section Tokens

/-- A token that is a value brings spelled texts only. -/
def Lexeme.SpelledTexts : Lexeme → Prop
  | .scalar value => value.SpelledTexts
  | _ => True

theorem spelledTexts_of_readNumber {cs : List Char} {value : Json} {width : Nat}
    (read : readNumber cs = some (.ok value, width)) : value.SpelledTexts := by
  obtain ⟨n, rfl⟩ | ⟨x, rfl⟩ := int_or_double_of_readNumber read <;> trivial

theorem spelledTexts_of_readLexeme (position : Nat) {cs : List Char}
    (h : ∃ front, Spelled (front ++ cs)) : (readLexeme position cs).1.SpelledTexts := by
  obtain ⟨front, h⟩ := h
  unfold readLexeme
  split
  case h_7 rest =>
    have inside : Spelled rest := (h.cut (by decide)).2.tail (by decide)
    split
    · rename_i read
      exact spelled_readString rest 0 _ [] inside read
    · trivial
  case h_14 =>
    split
    · rename_i read
      exact spelledTexts_of_readNumber read
    all_goals trivial
  all_goals trivial

/-- The tokens of a text that is spelled bring spelled texts only. -/
theorem bring_spelledTexts {cs : List Char} (h : Spelled cs) : Bring SpelledTexts (tokens cs) := by
  intro token mem value scalar
  obtain ⟨place, front, rest, rfl, read⟩ := exists_of_mem_tokensFrom mem
  have own := spelledTexts_of_readLexeme place ⟨front, h⟩
  rwa [← read, scalar] at own

end Tokens

/-- An incomplete container has spelled texts only. -/
def Frame.SpelledTexts : Frame → Prop
  | .elements done => SpelledElements done
  | .member done name => SpelledMembers done ∧ Spelled name.toList

theorem spelledTexts_builds : Builds SpelledTexts Frame.SpelledTexts where
  noElements := trivial
  noMembers := ⟨trivial, .nil⟩
  element done own := ⟨own, done⟩
  name done own := ⟨done.1, own⟩
  member done own := ⟨done.1.set done.2 own, .nil⟩
  array done := spelledElements_iff.mpr fun value mem =>
    spelledElements_iff.mp done value (List.mem_reverse.mp mem)
  object done := done.1
  only done := done.1

/-- All strings and names of a value that octets write are spelled. -/
theorem spelledTexts_of_ofOctets {octets : List UInt8} {value : Json}
    (read : ofOctets octets = .ok value) : value.SpelledTexts := by
  obtain ⟨cs, decoded, read⟩ := exists_chars_of_ofOctets read
  exact spelledTexts_builds.ofTokens (bring_spelledTexts (Text.spelled_decodeJsonText decoded)) read

end Json

end SchemaForms
