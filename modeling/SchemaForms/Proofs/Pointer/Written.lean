import SchemaForms.Proofs.Pointer.Indices
import SchemaForms.Proofs.Text.Trimmed
import SchemaForms.Reference.Session

/-!
# Pointers that write tokens

`Pointer.written` writes a row of tokens as a pointer, and reading that pointer gives the tokens
back as long as no percent escape begins in any of them: a token is written with its tildes and
slashes escaped, but with its percent signs as they are, and reading understands both. A path that
is extended token by token is such a pointer behind a `#`, with the empty tokens left out.

So a value is found again by the path that leads to it if the names on the way are `Legible`.
-/

namespace SchemaForms

namespace Text

def hasEscape : List Char → Bool
  | [] => false
  | c :: rest => (escape? c rest).isSome || hasEscape rest

theorem hasEscape_cons_eq_false {c : Char} {rest : List Char} :
    hasEscape (c :: rest) = false ↔ escape? c rest = none ∧ hasEscape rest = false := by
  simp [hasEscape]

theorem hasEscape_of_not_mem {cs : List Char} (h : '%' ∉ cs) : hasEscape cs = false := by
  induction cs with
  | nil => rfl
  | cons c rest ih =>
      obtain ⟨head, tail⟩ := not_or.mp (mt List.mem_cons.mpr h)
      exact hasEscape_cons_eq_false.mpr ⟨if_neg (Ne.symm head), ih tail⟩

theorem percentDecodeChars_of_hasEscape {cs : List Char} (h : hasEscape cs = false) :
    percentDecodeChars cs = cs := by
  apply percentDecodeFrom_of_no_escape
  intro before c after eq
  subst eq
  induction before with
  | nil => exact (hasEscape_cons_eq_false.mp h).1
  | cons head before ih => exact ih (hasEscape_cons_eq_false.mp h).2

theorem escape?_of_ne {c : Char} (h : c ≠ '%') (rest : List Char) : escape? c rest = none :=
  if_neg h

theorem hexDigit?_tilde : hexDigit? '~' = none := rfl

theorem octet?_eq_none {high low : Char} (h : hexDigit? high = none ∨ hexDigit? low = none) :
    octet? high low = none := by
  unfold octet?
  obtain h | h := h
  · rw [h]
    rfl
  · rw [h]
    cases hexDigit? high <;> rfl

end Text

namespace Pointer

open Text

theorem escapeChars_cons (c : Char) (cs : List Char) :
    escapeChars (c :: cs) =
      (if c = '~' then ['~', '0'] else if c = '/' then ['~', '1'] else [c]) ++ escapeChars cs :=
  List.flatMap_cons

theorem escapeChars_tilde (cs : List Char) :
    escapeChars ('~' :: cs) = '~' :: '0' :: escapeChars cs := rfl

theorem escapeChars_slash (cs : List Char) :
    escapeChars ('/' :: cs) = '~' :: '1' :: escapeChars cs := rfl

theorem escapeChars_plain {c : Char} (tilde : c ≠ '~') (slash : c ≠ '/') (cs : List Char) :
    escapeChars (c :: cs) = c :: escapeChars cs := by
  rw [escapeChars_cons, if_neg tilde, if_neg slash, List.singleton_append]

theorem escapeChars_of_plain {cs : List Char} (plain : ∀ c ∈ cs, c ≠ '~' ∧ c ≠ '/') :
    escapeChars cs = cs := by
  induction cs with
  | nil => rfl
  | cons c rest ih =>
      obtain ⟨⟨tilde, slash⟩, tail⟩ := List.forall_mem_cons.mp plain
      rw [escapeChars_plain tilde slash, ih tail]

/-- A written token begins with the token's first character, or with a tilde that stands for it. -/
theorem escapeChars_head (c : Char) (cs : List Char) :
    (∃ rest, escapeChars (c :: cs) = '~' :: rest ∧ hexDigit? c = none) ∨
      escapeChars (c :: cs) = c :: escapeChars cs := by
  by_cases tilde : c = '~'
  · subst tilde
    exact .inl ⟨_, escapeChars_tilde cs, rfl⟩
  · by_cases slash : c = '/'
    · subst slash
      exact .inl ⟨_, escapeChars_slash cs, rfl⟩
    · exact .inr (escapeChars_plain tilde slash cs)

/-- Writing a token neither makes nor breaks an escape behind a percent sign. -/
theorem escape?_escapeChars (c : Char) (cs : List Char) :
    escape? c (escapeChars cs) = escape? c cs := by
  by_cases percent : c = '%'
  · subst percent
    cases cs with
    | nil => rfl
    | cons high cs =>
        obtain ⟨rest, written, high'⟩ | written := escapeChars_head high cs
        · rw [written]
          cases rest <;> cases cs <;> simp [escape?, octet?_eq_none, high', hexDigit?_tilde]
        · rw [written]
          cases cs with
          | nil => rfl
          | cons low cs =>
              obtain ⟨rest, written, low'⟩ | written := escapeChars_head low cs
              · rw [written]
                simp [escape?, octet?_eq_none, low', hexDigit?_tilde]
              · rw [written]
                rfl
  · rw [escape?_of_ne percent, escape?_of_ne percent]

theorem hasEscape_escapeChars (cs : List Char) : hasEscape (escapeChars cs) = hasEscape cs := by
  induction cs with
  | nil => rfl
  | cons c cs ih =>
      by_cases tilde : c = '~'
      · subst tilde
        simp [escapeChars_tilde, hasEscape, escape?_of_ne, ih]
      · by_cases slash : c = '/'
        · subst slash
          simp [escapeChars_slash, hasEscape, escape?_of_ne, ih]
        · rw [escapeChars_plain tilde slash, hasEscape, hasEscape, escape?_escapeChars, ih]

/-- A token in which no escape begins is read as it was before it was written. -/
theorem unescapeToken_escapeToken {token : String} (h : hasEscape token.toList = false) :
    unescapeToken (escapeToken token) = token := by
  have same : percentDecodeChars (escapeChars token.toList) = escapeChars token.toList :=
    percentDecodeChars_of_hasEscape ((hasEscape_escapeChars _).trans h)
  simp [unescapeToken, escapeToken, unescapeChars, same, unescapeTildes_escapeChars]

theorem slash_not_mem_escapeChars (cs : List Char) : '/' ∉ escapeChars cs := by
  intro mem
  obtain ⟨c, -, mem⟩ := List.mem_flatMap.mp mem
  split at mem
  · simp at mem
  · split at mem
    · simp at mem
    · rename_i other
      exact other (List.mem_singleton.mp mem).symm

def slashed (texts : List String) : String :=
  texts.foldr (fun text rest => "/" ++ text ++ rest) ""

theorem slashed_cons (text : String) (rest : List String) :
    slashed (text :: rest) = "/" ++ text ++ slashed rest := rfl

theorem joinChars_slashed (first : List Char) (texts : List String) :
    joinChars '/' (first :: texts.map String.toList) = first ++ (slashed texts).toList := by
  induction texts generalizing first with
  | nil => simp [joinChars, slashed]
  | cons text rest ih =>
      rw [List.map_cons, joinChars, ih, slashed_cons]
      · simp
      · simp

theorem split_slashed {texts : List String} (h : ∀ text ∈ texts, '/' ∉ text.toList) :
    split '/' (slashed texts) = "" :: texts := by
  have pieces : pieces '/' (slashed texts).toList = [] :: texts.map String.toList := by
    rw [← List.nil_append (slashed texts).toList, ← joinChars_slashed]
    apply pieces_joinChars (List.cons_ne_nil _ _)
    intro piece mem
    obtain rfl | mem := List.mem_cons.mp mem
    · exact List.not_mem_nil
    · obtain ⟨text, listed, rfl⟩ := List.mem_map.mp mem
      exact h text listed
  rw [split, pieces]
  simp [Function.comp_def]

def written (tokens : List String) : String :=
  tokens.foldr (fun token rest => "/" ++ escapeToken token ++ rest) ""

@[simp] theorem written_nil : written [] = "" := rfl

theorem written_cons (token : String) (rest : List String) :
    written (token :: rest) = "/" ++ escapeToken token ++ written rest := rfl

theorem written_eq_slashed (tokens : List String) :
    written tokens = slashed (tokens.map escapeToken) := by
  rw [slashed, List.foldr_map]
  rfl

/-- A written pointer is cut at its slashes into its written tokens. -/
theorem split_written (tokens : List String) :
    split '/' (written tokens) = "" :: tokens.map escapeToken := by
  rw [written_eq_slashed]
  apply split_slashed
  intro text mem
  obtain ⟨token, -, rfl⟩ := List.mem_map.mp mem
  simpa [escapeToken] using slash_not_mem_escapeChars token.toList

/-- What a pointer is gone on with, behind a slash, is read by itself. -/
theorem tokens_append_slash (pointer : String) {more : String} (h : startsWith '/' more = true) :
    tokens (pointer ++ more) = tokens pointer ++ tokens more := by
  obtain ⟨rest, slash⟩ : ∃ rest, more.toList = '/' :: rest :=
    List.head?_eq_some_iff.mp (beq_iff_eq.mp h)
  have own : pieces '/' more.toList = [] :: pieces '/' rest := by
    rw [slash, pieces, if_pos rfl]
  have both : pieces '/' (pointer ++ more).toList =
      pieces '/' pointer.toList ++ pieces '/' rest := by
    rw [String.toList_append, slash, pieces_append]
  rw [tokens, tokens, tokens, split, split, split, own, both, List.map_append,
    List.tail_append_of_ne_nil (by simp [pieces_ne_nil]), List.map_append]
  rfl

/-- The name is found again by a path that it is written into: it is not empty, and no percent
escape begins in it. -/
def Legible (name : String) : Prop :=
  name ≠ "" ∧ hasEscape name.toList = false

instance (name : String) : Decidable (Legible name) :=
  inferInstanceAs (Decidable (_ ∧ _))

/-- A pointer is read as the tokens that it was written from, if no escape begins in them. -/
theorem tokens_written {row : List String} (h : ∀ token ∈ row, hasEscape token.toList = false) :
    tokens (written row) = row := by
  rw [tokens, split_written, List.tail_cons, List.map_map]
  calc row.map (unescapeToken ∘ escapeToken)
    _ = row.map id := List.map_congr_left fun token mem => unescapeToken_escapeToken (h token mem)
    _ = row := List.map_id row

theorem extend_ne_empty {path : String} (ne : path ≠ "") (token : String) :
    extend path token ≠ "" := by
  unfold extend
  split
  · exact ne
  · simp [ne]

/-- To extend a path by a row of tokens is to extend it by the first and then by the others. -/
theorem join_cons {path : String} (ne : path ≠ "") (token : String) (rest : List String) :
    join path (token :: rest) = join (join path [token]) rest := by
  simp [join, ne, extend_ne_empty]

/-- A path that is extended by tokens ends in the pointer that writes them. -/
theorem join_eq_append_written {path : String} (ne : path ≠ "") {row : List String}
    (h : ∀ token ∈ row, token ≠ "") : join path row = path ++ written row := by
  induction row generalizing path with
  | nil => simp [join, ne]
  | cons token rest ih =>
      obtain ⟨head, tail⟩ := List.forall_mem_cons.mp h
      have one : join path [token] = path ++ "/" ++ escapeToken token := by
        simp [join, ne, extend, head]
      rw [join_cons ne, ih (by simp [one, ne]) tail, one, written_cons]
      simp [String.append_assoc]

theorem child_member {members : Members} {key : String} {value : Json}
    (h : Members.get? members key = some value) : child (.obj members) key = .ok value := by
  simp [child, h]

theorem child_element {elements : List Json} {index : Nat} {value : Json}
    (h : elements[index]? = some value) : child (.arr elements) (toString index) = .ok value := by
  have lt : index < elements.length := (List.getElem?_eq_some_iff.mp h).1
  simp only [child, index_toString lt, Option.bind_some, h]

namespace Sample

def ones (count : Nat) : String :=
  String.ofList (List.replicate count '1')

def beyond (count : Nat) : String :=
  "/a/" ++ ones count

def empty : Members :=
  [("a", .arr [])]

variable {count : Nat}

theorem toList_beyond (count : Nat) : (beyond count).toList =
    '/' :: 'a' :: '/' :: List.replicate count '1' := by
  simp [beyond, ones]

theorem trim_beyond (count : Nat) :
    trim (beyond count) = beyond count := by
  have dark : ∀ c ∈ (beyond count).toList, isBlank c = false := by
    rw [toList_beyond]
    intro c mem
    simp only [List.mem_cons, List.mem_replicate] at mem
    obtain rfl | rfl | rfl | ⟨-, rfl⟩ := mem <;> decide
  exact trim_eq_self_iff.mpr
    ⟨fun c mem => dark c (List.mem_of_mem_head? mem), fun c mem => dark c (List.mem_of_getLast? mem)⟩

/-- Neither blanks nor a `#` are to be taken from the pointer. -/
theorem stripped_beyond (count : Nat) :
    dropLeading '#' (trim (beyond count)) = beyond count := by
  rw [trim_beyond, dropLeading, toList_beyond]
  rfl

theorem slash_beyond (count : Nat) : startsWith '/' (beyond count) = true := by
  simp [startsWith, beyond]

theorem ne_slash_beyond (count : Nat) : beyond count ≠ "/" := by
  intro same
  have chars := congrArg String.toList same
  simp [beyond] at chars

theorem overlong_ones (many : digitLimit < count) : Overlong (ones count) := by
  constructor
  · simp [ones]
  · simpa [ones] using many

theorem tokens_beyond (count : Nat) : tokens (beyond count) = ["a", ones count] := by
  have plain : escapeToken (ones count) = ones count := by
    rw [escapeToken, escapeChars_of_plain, String.ofList_toList]
    simp [ones]
  have row : beyond count = written ["a", ones count] := by
    rw [written_cons, written_cons, plain]
    simp [beyond, escapeToken, escapeChars, ← String.append_assoc]
  rw [row]
  apply tokens_written
  simp [hasEscape_of_not_mem, ones]

theorem index_ones (many : digitLimit < count) :
    index (ones count) 0 = .error (.read count) := by
  have length : (ones count).length = count := by simp [ones]
  rw [index_of_overlong (overlong_ones many) (Nat.zero_le _), length]

theorem walk_beyond (many : digitLimit < count) (rest : Members) :
    walk (.obj (empty ++ rest)) (beyond count) = .error (.digits (.read count)) := by
  have last : child (.arr []) (ones count) = .error (.digits (.read count)) := by
    simp [child, index_ones many]
  have first : child (.obj (empty ++ rest)) "a" = .ok (.arr []) := child_member rfl
  rw [walk, tokens_beyond, descend_cons, first]
  show descend (.arr []) [ones count] = _
  rw [descend_cons, last]
  rfl

end Sample

end Pointer

/-- The text is a pointer: it is empty or begins with a slash. -/
def IsPointer (pointer : String) : Prop :=
  pointer = "" ∨ Text.startsWith '/' pointer = true

theorem isPointer_written (row : List String) : IsPointer (Pointer.written row) := by
  cases row with
  | nil => exact .inl rfl
  | cons token rest =>
      right
      simp [Text.startsWith, Pointer.written_cons]

theorem IsPointer.append {first second : String} (h : IsPointer first) (h' : IsPointer second) :
    IsPointer (first ++ second) := by
  obtain rfl | slash := h
  · simpa using h'
  · right
    unfold Text.startsWith at slash ⊢
    rw [beq_iff_eq] at slash ⊢
    rw [String.toList_append, List.head?_append, slash, Option.some_or]

/-- What is reported at the place of a reference whose pointer has a fault. -/
def Pointer.LookupFault.error (pointer place : String) : Pointer.LookupFault → Error
  | .digits fault => .digits fault
  | _ => .schema (.reference (.pointerNotFound pointer)) place

/-- A pointer that begins with a slash is walked, and what is not found is reported at the place. -/
theorem resolvePointer_of_slash {pointer : String} (slash : Text.startsWith '/' pointer = true)
    (root : Json) (place : String) :
    resolvePointer root pointer place =
      (Pointer.walk root pointer).mapError (Pointer.LookupFault.error pointer place) := by
  have ne : pointer ≠ "" := by
    rintro rfl
    cases slash
  have ne' : pointer ≠ "#" := by
    rintro rfl
    revert slash
    decide
  unfold resolvePointer
  rw [if_neg (by simp [ne, ne']), if_neg (by simp [slash])]
  cases Pointer.walk root pointer with
  | ok value => rfl
  | error fault => cases fault <;> rfl

theorem resolvePointer_ok_iff {root value : Json} {pointer place : String} :
    resolvePointer root pointer place = .ok value ↔
      (pointer = "" ∨ pointer = "#") ∧ root = value ∨
        Text.startsWith '/' pointer = true ∧ Pointer.walk root pointer = .ok value := by
  by_cases slash : Text.startsWith '/' pointer = true
  · have other : pointer ≠ "" ∧ pointer ≠ "#" := by
      constructor <;> rintro rfl <;> revert slash <;> decide
    rw [resolvePointer_of_slash slash]
    cases Pointer.walk root pointer <;> simp [Except.mapError, slash, other]
  · by_cases here : pointer = "" ∨ pointer = "#" <;> simp [resolvePointer, slash, here]

/-- What stops a reference at its pointer is reported at the place, unless a token of the pointer is
too long for an index. -/
theorem resolvePointer_error {root : Json} {pointer place : String} {error : Error}
    (h : resolvePointer root pointer place = .error error) :
    (∃ fault ∈ [ReferenceFault.invalidPointer pointer, .pointerNotFound pointer],
        error = .schema (.reference fault) place) ∨
      (∃ fault, error = .digits fault) ∧ Pointer.HasOverlong pointer := by
  unfold resolvePointer at h
  split at h
  · cases h
  · split at h
    · obtain rfl := Except.error.inj h
      exact .inl ⟨_, by simp, rfl⟩
    · split at h
      · cases h
      · rename_i walked
        obtain rfl := Except.error.inj h
        exact .inr ⟨⟨_, rfl⟩, Pointer.overlong_of_descend walked⟩
      · obtain rfl := Except.error.inj h
        exact .inl ⟨_, by simp, rfl⟩

/-- A pointer that was written from tokens without escapes denotes what is found by descending along
them. -/
theorem resolvePointer_written {root value : Json} {row : List String} (place : String)
    (plain : ∀ token ∈ row, Text.hasEscape token.toList = false)
    (found : Pointer.descend root row = .ok value) :
    resolvePointer root (Pointer.written row) place = .ok value := by
  cases row with
  | nil => simpa [resolvePointer] using found
  | cons token rest =>
      have slash : Text.startsWith '/' (Pointer.written (token :: rest)) = true := by
        simp [Text.startsWith, Pointer.written_cons]
      rw [resolvePointer_of_slash slash, Pointer.walk, Pointer.tokens_written plain, found]
      rfl

end SchemaForms
