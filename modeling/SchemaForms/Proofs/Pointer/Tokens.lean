import SchemaForms.Proofs.Pointer.Written
import SchemaForms.Proofs.Text.Percent

/-!
# Tokens that are read back

A token is written by escaping its tildes and slashes, and reading also decodes percent escapes. So
exactly those tokens are read back in which no percent sign stands before two hexadecimal digits.

Writing neither makes such an escape nor breaks one, and what is read is never longer than the token
that was written. An escape makes it shorter: three characters give one octet, and octets are read
as no more characters than they are.

Writing and reading each take one pass. It comes to the same to write all tildes first and all
slashes then (`escapeChars_eq_flatMap`), and to put back all slashes first and all tildes then
(`unescapeTildes_eq_replacePair`).
-/

namespace SchemaForms

namespace Text

/-- A text with each occurrence of one character before another replaced, from left to right. -/
def replacePair (first second new : Char) : List Char → List Char
  | c :: d :: rest =>
    if c = first ∧ d = second then new :: replacePair first second new rest
    else c :: replacePair first second new (d :: rest)
  | cs => cs

section Pairs

variable {first second new : Char}

theorem replacePair_pair (rest : List Char) :
    replacePair first second new (first :: second :: rest) =
      new :: replacePair first second new rest := by
  simp [replacePair]

theorem replacePair_of_ne {c : Char} (h : c ≠ first) (rest : List Char) :
    replacePair first second new (c :: rest) = c :: replacePair first second new rest := by
  cases rest <;> simp [replacePair, h]

theorem replacePair_of_head {rest : List Char} (h : rest.head? ≠ some second) (c : Char) :
    replacePair first second new (c :: rest) = c :: replacePair first second new rest := by
  cases rest with
  | nil => rfl
  | cons d rest =>
      have ne : d ≠ second := fun same => h (congrArg some same)
      simp [replacePair, ne]

end Pairs

theorem octet?_isSome (high low : Char) :
    (octet? high low).isSome = ((hexDigit? high).isSome && (hexDigit? low).isSome) := by
  unfold octet?
  cases hexDigit? high <;> cases hexDigit? low <;> rfl

/-- An escape begins in a text where a percent sign stands before two hexadecimal digits. -/
theorem escape?_isSome {c : Char} {rest : List Char} : (escape? c rest).isSome = true ↔
    ∃ high low after, c :: rest = '%' :: high :: low :: after ∧
      (hexDigit? high).isSome = true ∧ (hexDigit? low).isSome = true := by
  unfold escape?
  by_cases percent : c = '%'
  · subst percent
    rw [if_pos rfl]
    split
    · simp [octet?_isSome, and_assoc]
    · rename_i short
      simp only [Option.isSome_none, Bool.false_eq_true, List.cons.injEq, true_and, false_iff]
      rintro ⟨high, low, after, rfl, -⟩
      exact short high low after rfl
  · simp [percent]

theorem hasEscape_iff {cs : List Char} : hasEscape cs = true ↔
    ∃ before high low after, cs = before ++ '%' :: high :: low :: after ∧
      (hexDigit? high).isSome = true ∧ (hexDigit? low).isSome = true := by
  induction cs with
  | nil => simp [hasEscape]
  | cons c rest ih =>
      rw [hasEscape, Bool.or_eq_true, escape?_isSome, ih]
      constructor
      · rintro (⟨high, low, after, eq, digits⟩ | ⟨before, high, low, after, rfl, digits⟩)
        · exact ⟨[], high, low, after, eq, digits⟩
        · exact ⟨c :: before, high, low, after, rfl, digits⟩
      · rintro ⟨before, high, low, after, eq, digits⟩
        cases before with
        | nil => exact .inl ⟨high, low, after, eq, digits⟩
        | cons d before =>
            obtain ⟨rfl, rfl⟩ := List.cons.inj eq
            exact .inr ⟨before, high, low, after, rfl, digits⟩

end Text

namespace Pointer

open Text

/-- One pass writes tildes and slashes as one that writes the tildes and one after it that writes
the slashes. -/
theorem escapeChars_eq_flatMap (cs : List Char) : escapeChars cs =
    (cs.flatMap fun c => if c = '~' then ['~', '0'] else [c]).flatMap fun c =>
      if c = '/' then ['~', '1'] else [c] := by
  rw [List.flatMap_assoc]
  apply congrArg (cs.flatMap ·)
  funext c
  by_cases tilde : c = '~'
  · subst tilde
    rfl
  · simp [tilde]

theorem unescapeTildes_plain {c : Char} (h : c ≠ '~') (cs : List Char) :
    unescapeTildes (c :: cs) = c :: unescapeTildes cs := by
  rw [unescapeTildes.eq_def]
  split <;> simp_all

theorem unescapeTildes_tilde {cs : List Char} (slash : cs.head? ≠ some '1')
    (tilde : cs.head? ≠ some '0') : unescapeTildes ('~' :: cs) = '~' :: unescapeTildes cs := by
  rw [unescapeTildes]
  · rintro rest - rfl
    exact slash rfl
  · rintro rest - rfl
    exact tilde rfl

/-- One pass undoes the writing of slashes and tildes as one that puts back the slashes and one
after it that puts back the tildes. -/
theorem unescapeTildes_eq_replacePair (cs : List Char) :
    unescapeTildes cs = replacePair '~' '0' '~' (replacePair '~' '1' '/' cs) := by
  fun_induction unescapeTildes cs with
  | case1 rest ih => rw [replacePair_pair, replacePair_of_ne (by decide), ih]
  | case2 rest ih =>
      have kept : replacePair '~' '1' '/' ('~' :: '0' :: rest) =
          '~' :: '0' :: replacePair '~' '1' '/' rest := by
        rw [replacePair_of_head (by simp), replacePair_of_ne (by decide)]
      rw [kept, replacePair_pair, ih]
  | case3 c rest slash tilde ih =>
      by_cases here : c = '~'
      · subst here
        have one : rest.head? ≠ some '1' := by
          intro head
          obtain ⟨after, rfl⟩ := List.head?_eq_some_iff.mp head
          exact slash after rfl rfl
        have zero : rest.head? ≠ some '0' := by
          intro head
          obtain ⟨after, rfl⟩ := List.head?_eq_some_iff.mp head
          exact tilde after rfl rfl
        -- What the first pass leaves begins with a zero only where the text does.
        have zero' : (replacePair '~' '1' '/' rest).head? ≠ some '0' := by
          cases rest with
          | nil => exact zero
          | cons d rest =>
              unfold replacePair
              grind
        rw [replacePair_of_head one, replacePair_of_head zero', ih]
      · rw [replacePair_of_ne here, replacePair_of_ne here, ih]
  | case4 => rfl

theorem length_unescapeTildes_cons_le (c : Char) (cs : List Char) :
    (unescapeTildes (c :: cs)).length ≤ (unescapeTildes cs).length + 1 := by
  by_cases tilde : c = '~'
  · subst tilde
    by_cases one : cs.head? = some '1'
    · obtain ⟨rest, rfl⟩ := List.head?_eq_some_iff.mp one
      simp [unescapeTildes]
    · by_cases zero : cs.head? = some '0'
      · obtain ⟨rest, rfl⟩ := List.head?_eq_some_iff.mp zero
        simp [unescapeTildes]
      · simp [unescapeTildes_tilde one zero]
  · simp [unescapeTildes_plain tilde]

theorem length_unescapeTildes_append_le (before after : List Char) :
    (unescapeTildes (before ++ after)).length ≤ before.length + (unescapeTildes after).length := by
  induction before with
  | nil => simp
  | cons c before ih =>
      have head := length_unescapeTildes_cons_le c (before ++ after)
      rw [List.cons_append, List.length_cons]
      omega

/-- What stands behind decoded octets is read as if nothing stood before, or as less. -/
theorem length_unescapeTildes_lossy_le (octets : List UInt8) (after : List Char) :
    (unescapeTildes (Utf8.lossy octets ++ after)).length ≤
      octets.length + (unescapeTildes after).length := by
  have parts := length_unescapeTildes_append_le (Utf8.lossy octets) after
  have written := Utf8.length_lossy_le octets
  omega

theorem escapeChars_of_escape? {c : Char} {cs : List Char} {octet : UInt8}
    (h : escape? c cs = some octet) : ∃ high low rest, cs = high :: low :: rest ∧
      escapeChars (c :: cs) = c :: high :: low :: escapeChars rest := by
  have some : (escape? c cs).isSome = true := h ▸ rfl
  obtain ⟨high, low, rest, eq, high', low'⟩ := escape?_isSome.mp some
  obtain ⟨rfl, rfl⟩ := List.cons.inj eq
  have plain {d : Char} (digit : (hexDigit? d).isSome = true) (cs : List Char) :
      escapeChars (d :: cs) = d :: escapeChars cs := by
    apply escapeChars_plain
    · rintro rfl
      cases digit
    · rintro rfl
      cases digit
  refine ⟨high, low, rest, rfl, ?_⟩
  rw [escapeChars_plain (by decide) (by decide), plain high', plain low']

/-- Where no escape begins, the escapes before are at their end, and the character is read as it was
written. -/
theorem percentDecodeFrom_escapeChars {c : Char} {cs : List Char} (octets : List UInt8)
    (h : escape? c cs = none) : percentDecodeFrom octets 0 (escapeChars (c :: cs)) =
      Utf8.lossy octets.reverse ++
        (escapeChars [c] ++ percentDecodeFrom [] 0 (escapeChars cs)) := by
  by_cases tilde : c = '~'
  · subst tilde
    simp [escapeChars, percentDecodeFrom, escape?_of_ne, Utf8.lossy, Utf8.lossyFrom]
  · by_cases slash : c = '/'
    · subst slash
      simp [escapeChars, percentDecodeFrom, escape?_of_ne, Utf8.lossy, Utf8.lossyFrom]
    · have plain : escapeChars [c] = [c] := escapeChars_plain tilde slash []
      have none : escape? c (escapeChars cs) = none := (escape?_escapeChars c cs).trans h
      rw [escapeChars_plain tilde slash, percentDecodeFrom, none, plain]
      rfl

/-- A character is read back from its writing, whatever stands behind. -/
theorem unescapeTildes_escapeChars_append (c : Char) (cs : List Char) :
    unescapeTildes (escapeChars [c] ++ cs) = c :: unescapeTildes cs := by
  by_cases tilde : c = '~'
  · subst tilde
    simp [escapeChars, unescapeTildes]
  · by_cases slash : c = '/'
    · subst slash
      simp [escapeChars, unescapeTildes]
    · have plain : escapeChars [c] = [c] := escapeChars_plain tilde slash []
      rw [plain, List.singleton_append, unescapeTildes_plain tilde]

/-- What is read of a written token, behind the octets of some escapes, is no longer than the octets
and the token, and shorter if an escape begins in the token. -/
theorem length_unescapeTildes_le (octets : List UInt8) (cs : List Char) :
    (unescapeTildes (percentDecodeFrom octets 0 (escapeChars cs))).length + (hasEscape cs).toNat ≤
      octets.length + cs.length := by
  match cs with
  | [] => simpa [escapeChars, percentDecodeFrom, hasEscape, unescapeTildes] using
      length_unescapeTildes_lossy_le octets.reverse []
  | c :: cs =>
      cases escaped : escape? c cs with
      | none =>
          have own : hasEscape (c :: cs) = hasEscape cs := by simp [hasEscape, escaped]
          have before := length_unescapeTildes_lossy_le octets.reverse
            (escapeChars [c] ++ percentDecodeFrom [] 0 (escapeChars cs))
          have behind := length_unescapeTildes_le [] cs
          rw [unescapeTildes_escapeChars_append] at before
          rw [percentDecodeFrom_escapeChars octets escaped, own]
          simp only [List.length_reverse, List.length_cons, List.length_nil] at before behind ⊢
          omega
      | some octet =>
          obtain ⟨high, low, rest, rfl, written⟩ := escapeChars_of_escape? escaped
          have read : escape? c (high :: low :: escapeChars rest) = some octet := by
            simpa [escape?] using escaped
          have behind := length_unescapeTildes_le (octet :: octets) rest
          have most := (hasEscape (c :: high :: low :: rest)).toNat_le
          rw [written, percentDecodeFrom, read]
          simp only [percentDecodeFrom, List.length_cons] at behind ⊢
          omega
termination_by cs.length

/-- The tokens that are read back as they were written are those in which no percent sign stands
before two hexadecimal digits. -/
theorem unescapeToken_escapeToken_eq_iff (token : String) :
    unescapeToken (escapeToken token) = token ↔
      ¬∃ before high low after, token.toList = before ++ '%' :: high :: low :: after ∧
        (hexDigit? high).isSome = true ∧ (hexDigit? low).isSome = true := by
  rw [← hasEscape_iff, Bool.not_eq_true]
  refine ⟨fun same => ?_, unescapeToken_escapeToken⟩
  have chars :
      unescapeTildes (percentDecodeFrom [] 0 (escapeChars token.toList)) = token.toList := by
    simpa [unescapeToken, escapeToken, unescapeChars, percentDecodeChars] using
      congrArg String.toList same
  have shorter := length_unescapeTildes_le [] token.toList
  rw [chars, List.length_nil] at shorter
  rw [← Bool.toNat_eq_zero]
  omega

example : unescapeToken (escapeToken "~1/%7E%F0%9F%2g") = "~1/~\uFFFD%2g" := by decide +kernel

end Pointer

end SchemaForms
