/-!
# Surrogate halves

UTF-16 writes a character beyond U+FFFF as two halves, whose numbers no character has. JSON text
can nevertheless hold a half that stands alone, so a text is a row of numbers below 0x110000, each
of them a code point or a half.

Such a row is spelled as characters. A code point is spelled by its character, and a half by two
characters, a mark and a private character that stands for the half. The mark is the last code
point of all; where a text holds it, it is spelled twice. `codes` reads a spelling, and
`codes_spellAll` says that every row is read back from its spelling. Texts are spelled in this way
everywhere in the library; `spellText` and `plainText` are for texts that come from outside and go
there.
-/

namespace SchemaForms.Text

/-- A unit of UTF-16 that is the first half of a surrogate pair. -/
def isHighSurrogate (n : Nat) : Bool := 0xD800 ≤ n && n < 0xDC00

/-- A unit of UTF-16 that is the second half of a surrogate pair. -/
def isLowSurrogate (n : Nat) : Bool := 0xDC00 ≤ n && n < 0xE000

/-- A half of a surrogate pair. -/
def isSurrogate (n : Nat) : Bool := 0xD800 ≤ n && n < 0xE000

/-- The code point of a surrogate pair. -/
def joinSurrogates (high low : Nat) : Nat :=
  0x10000 + (high - 0xD800) * 0x400 + (low - 0xDC00)

/-- The character that is put in the place of what is no text. -/
def replacement : Char := '\uFFFD'

/-- The character with which the spelling of a half begins. -/
def mark : Char := Char.ofNat 0x10FFFF

/-- How far a private character is from the half that it stands for. -/
def standInOffset : Nat := 0x100000

/-- The private character that stands for a half, behind the mark. -/
def standIn (half : Nat) : Char :=
  Char.ofNat (standInOffset + half)

/-- The half that a private character stands for, behind the mark. -/
def half? (c : Char) : Option Nat :=
  if standInOffset + 0xD800 ≤ c.toNat && c.toNat < standInOffset + 0xE000 then
    some (c.toNat - standInOffset)
  else none

/-- The spelling of a code point or a half; any other number is replaced. -/
def spell (n : Nat) : List Char :=
  if isSurrogate n then [mark, standIn n]
  else if n = 0x10FFFF then [mark, mark]
  else if n.isValidChar then [Char.ofNat n]
  else [replacement]

/-- The spelling of a row of code points and halves. -/
def spellAll (ns : List Nat) : List Char :=
  ns.flatMap spell

/-- The numbers that a character spells behind a mark; behind a mark that begins no spelling it
stands for itself, and so does the mark. -/
def markedCodes (c : Char) : List Nat :=
  if c = mark then [0x10FFFF]
  else match half? c with
    | some half => [half]
    | none => [0x10FFFF, c.toNat]

/-- The code points and halves that characters spell, given that there is a mark just before. -/
def codesFrom : Bool → List Char → List Nat
  | false, [] => []
  | true, [] => [0x10FFFF]
  | false, c :: rest =>
    if c = mark then codesFrom true rest else c.toNat :: codesFrom false rest
  | true, c :: rest => markedCodes c ++ codesFrom false rest

/-- The code points and halves that characters spell. -/
def codes (cs : List Char) : List Nat :=
  codesFrom false cs

def codesOf (s : String) : List Nat :=
  codes s.toList

/-- A text that comes from outside, as the library spells it. -/
def spellText (s : String) : String :=
  String.ofList (spellAll (s.toList.map Char.toNat))

/-- The characters of a text, with a replacement for each half. -/
def plainChars (cs : List Char) : List Char :=
  (codes cs).map fun n => if n.isValidChar then Char.ofNat n else replacement

/-- A text as it goes outside. -/
def plainText (s : String) : String :=
  String.ofList (plainChars s.toList)

theorem toNat_ofNat {n : Nat} (h : n.isValidChar) : (Char.ofNat n).toNat = n := by
  rw [Char.ofNat, dif_pos h]
  rfl

theorem toNat_mark : mark.toNat = 0x10FFFF :=
  toNat_ofNat (Or.inr (by omega))

/-- A character that is not the mark is read by itself. -/
theorem codes_cons_of_ne_mark {c : Char} (h : c ≠ mark) (rest : List Char) :
    codes (c :: rest) = c.toNat :: codes rest := by
  rw [codes, codesFrom, if_neg h, codes]

/-- Behind a mark, a character is read with it. -/
theorem codes_mark_cons (c : Char) (rest : List Char) :
    codes (mark :: c :: rest) = markedCodes c ++ codes rest := by
  rw [codes, codesFrom, if_pos rfl, codesFrom, codes]

/-- The private character for a half stands for that half, and is not the mark. -/
theorem half?_standIn {n : Nat} (h : isSurrogate n) :
    half? (standIn n) = some n ∧ standIn n ≠ mark := by
  have hrange : 0xD800 ≤ n ∧ n < 0xE000 := by simpa [isSurrogate] using h
  have hoffset : standInOffset = 0x100000 := rfl
  have hnat : (standIn n).toNat = standInOffset + n := toNat_ofNat (Or.inr (by omega))
  refine ⟨?_, fun heq => ?_⟩
  · unfold half?
    rw [hnat, if_pos (by simp; omega)]
    simp
  · have := congrArg Char.toNat heq
    rw [hnat, toNat_mark] at this
    omega

/-- A number that is spelled is read first, whatever follows it. -/
theorem codes_spell_append {n : Nat} (h : n < 0x110000) (rest : List Char) :
    codes (spell n ++ rest) = n :: codes rest := by
  unfold spell
  split
  · rename_i hs
    obtain ⟨hhalf, hne⟩ := half?_standIn hs
    rw [List.cons_append, List.singleton_append, codes_mark_cons, markedCodes, if_neg hne, hhalf]
    rfl
  · rename_i hs
    split
    · rename_i hn
      rw [List.cons_append, List.singleton_append, codes_mark_cons, markedCodes, if_pos rfl, hn]
      rfl
    · rename_i hn
      have hvalid : n.isValidChar := by
        simp [isSurrogate] at hs
        by_cases hlow : n < 0xD800
        · exact Or.inl hlow
        · exact Or.inr ⟨by omega, h⟩
      have hne : Char.ofNat n ≠ mark := by
        intro heq
        have := congrArg Char.toNat heq
        rw [toNat_ofNat hvalid, toNat_mark] at this
        exact hn this
      rw [if_pos hvalid, List.singleton_append, codes_cons_of_ne_mark hne, toNat_ofNat hvalid]

/-- A row of code points and halves is read back from its spelling. -/
theorem codes_spellAll {ns : List Nat} (h : ∀ n ∈ ns, n < 0x110000) : codes (spellAll ns) = ns := by
  induction ns with
  | nil => rfl
  | cons n rest ih =>
    rw [spellAll, List.flatMap_cons, codes_spell_append (h n (by simp))]
    exact congrArg (n :: ·) (ih fun m hm => h m (by simp [hm]))

end SchemaForms.Text
