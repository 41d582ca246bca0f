import SchemaForms.Proofs.Text.Decoded

/-!
# The first octet of a JSON text

In UTF-8, and in units whose lowest octet comes first, an ASCII character at the beginning of a text
is the first octet, unless a byte order mark stands before it. In these encodings a reader that looks
at octets and one that decodes them first see the same beginning: an octet that is no ASCII character
never begins the text of one.
-/

namespace SchemaForms.Text

variable {c : Char} {cs : List Char} {octet : UInt8} {octets rest : List UInt8}

/-- An ASCII character at the beginning of a text is written in the first octet, as it is in ASCII
itself. -/
def Encoding.beginsAsAscii : Encoding → Bool
  | .utf8 0 | .utf16 .little 0 | .utf32 .little 0 => true
  | _ => false

theorem Encoding.beginsAsAscii_iff {encoding : Encoding} : encoding.beginsAsAscii = true ↔
    encoding = .utf8 0 ∨ encoding = .utf16 .little 0 ∨ encoding = .utf32 .little 0 := by
  unfold beginsAsAscii
  split <;> simp_all

/-- The encoding is told by a byte order mark at the beginning, or else by the zero octets. -/
theorem Encoding.detect_cases (octets : List UInt8) : detect octets = unmarked octets ∨
    ∃ entry ∈ marks, entry.1 <+: octets ∧ detect octets = entry.2 := by
  unfold detect marked?
  cases found : marks.find? fun entry => entry.1.isPrefixOf octets with
  | none => exact .inl rfl
  | some entry =>
      have holds := List.find?_some found
      exact .inr ⟨entry, List.mem_of_find?_eq_some found, List.isPrefixOf_iff_prefix.mp holds, rfl⟩

theorem Encoding.detect_of_beginsAsAscii (begins : (detect octets).beginsAsAscii = true) :
    detect octets = unmarked octets := by
  have none : ∀ entry ∈ marks, entry.2.beginsAsAscii = false := by decide
  obtain told | ⟨entry, mem, -, told⟩ := detect_cases octets
  · exact told
  · rw [told, none entry mem] at begins
    cases begins

theorem Encoding.beginsAsAscii_unmarked (ne : octet ≠ 0) :
    (unmarked (octet :: rest)).beginsAsAscii = true := by
  unfold unmarked
  split
  · rename_i same
    obtain ⟨rfl, -⟩ := List.cons.inj same
    rw [if_neg ne]
    split
    · split <;> rfl
    · rfl
  · rename_i same
    obtain ⟨rfl, -⟩ := List.cons.inj same
    rw [if_neg ne]
    split <;> rfl
  · rfl

/-- Octets that begin with an ASCII character, other than the one of number zero, are taken to be in
such an encoding. -/
theorem Encoding.beginsAsAscii_detect (ne : octet ≠ 0) (ascii : octet.toNat < 0x80) :
    (detect (octet :: rest)).beginsAsAscii = true := by
  obtain told | ⟨entry, mem, isPrefix, -⟩ := detect_cases (octet :: rest)
  · rw [told]
    exact beginsAsAscii_unmarked ne
  · -- The first octet of a mark is zero or no ASCII character.
    simp only [marks, List.mem_cons, List.not_mem_nil, or_false] at mem
    obtain rfl | rfl | rfl | rfl | rfl := mem
    all_goals
      obtain ⟨rfl, -⟩ := List.cons_prefix_cons.mp isPrefix
      contradiction

/-- Units of two octets, the lower one first, are told by a second octet that is zero. -/
theorem Encoding.octets_of_utf16 (told : unmarked octets = .utf16 .little 0) :
    ∃ octet rest, octets = octet :: 0 :: rest := by
  unfold unmarked at told
  split at told
  · rename_i a b c d rest
    have zero : b = 0 := by grind
    exact ⟨a, c :: d :: rest, by rw [zero]⟩
  · rename_i a b
    have zero : b = 0 := by grind
    exact ⟨a, [], by rw [zero]⟩
  · cases told

/-- Units of four octets, the lowest one first, are told by three octets that are zero. -/
theorem Encoding.octets_of_utf32 (told : unmarked octets = .utf32 .little 0) :
    ∃ octet rest, octets = octet :: 0 :: 0 :: 0 :: rest := by
  unfold unmarked at told
  split at told
  · rename_i a b c d rest
    have zeros : b = 0 ∧ c = 0 ∧ d = 0 := by grind
    exact ⟨a, rest, by rw [zeros.1, zeros.2.1, zeros.2.2]⟩
  · grind
  · cases told

/-- A code point that is no ASCII character is not spelled with one. -/
theorem head_spell {n : Nat} (wide : 0x80 ≤ n) :
    ∃ first rest, spell n = first :: rest ∧ 0x80 ≤ first.toNat := by
  unfold spell
  split
  · exact ⟨mark, _, rfl, by decide⟩
  · split
    · exact ⟨mark, _, rfl, by decide⟩
    · split
      · rename_i valid
        exact ⟨_, _, rfl, by rwa [toNat_ofNat valid]⟩
      · exact ⟨replacement, _, rfl, by decide⟩

theorem Continues.begins {n : Nat} (h : Continues ((spell n).reverse ++ []).reverse cs) :
    Continues (spell n) cs := by
  rwa [List.append_nil, List.reverse_reverse] at h

/-- An ASCII character at the beginning of a text is the first code point. -/
theorem Continues.first {n : Nat} (h : Continues (spell n) (c :: cs)) (ascii : c.toNat < 0x80) :
    n = c.toNat := by
  obtain ⟨ns, same⟩ := h
  by_cases own : n < 0x80
  · rw [spell_of_lt own] at same
    obtain ⟨rfl, -⟩ := List.cons.inj same
    exact (toNat_ofNat (.inl (by omega))).symm
  · obtain ⟨first, rest, spelled, wide⟩ := head_spell (Nat.le_of_not_lt own)
    rw [spelled] at same
    obtain ⟨rfl, -⟩ := List.cons.inj same
    omega

namespace Utf8

/-- The incomplete character is no ASCII character, whatever octets complete it. -/
structure Partial.Wide (p : Partial) : Prop where
  high : p.high ≤ 0xBF
  value : 2 ≤ p.value ∨ 2 ≤ p.owed ∧ (1 ≤ p.value ∨ 0x82 ≤ p.low)

namespace Partial.Wide

variable {p : Partial}

theorem extend (wide : p.Wide) (accepted : p.accepts octet = true) : (p.extend octet).Wide := by
  obtain ⟨high, value⟩ := wide
  simp only [accepts, Bool.and_eq_true, decide_eq_true_eq] at accepted
  refine ⟨Nat.le_refl _, .inl ?_⟩
  show 2 ≤ p.value * 64 + octet.toNat % 64
  omega

theorem complete (wide : p.Wide) (last : p.owed = 1) : 0x80 ≤ (p.extend octet).value := by
  have value := wide.value
  show 0x80 ≤ p.value * 64 + octet.toNat % 64
  omega

theorem of_lead (led : lead? octet = some p) : p.Wide := by
  simp only [lead?] at led
  repeat' split at led
  all_goals cases led
  all_goals
    constructor
    all_goals
      dsimp only
      omega

theorem of_leadOrSurrogate (led : leadOrSurrogate? octet = some p) : p.Wide := by
  obtain ⟨start, first, rfl⟩ := Option.map_eq_some_iff.mp led
  have wide := of_lead first
  split
  · exact ⟨Nat.le_refl _, wide.value⟩
  · exact wide

end Partial.Wide

/-- A text of which only the first octets of its first character are read does not begin with an
ASCII character. -/
theorem continues_of_partial {p : Partial} {firstOctet : UInt8} {position : Nat} (wide : p.Wide)
    (read : decodeFrom position (some (p, firstOctet)) [] octets = .ok cs) :
    ∃ n, 0x80 ≤ n ∧ Continues (spell n) cs := by
  induction octets generalizing p position with
  | nil => cases read
  | cons octet rest ih =>
      rw [decodeFrom] at read
      split at read
      · rename_i accepted
        split at read
        · rename_i last
          exact ⟨_, wide.complete last, (continues_of_decodeFrom read).begins⟩
        · exact ih (wide.extend accepted) read
      · cases read

/-- The first octet is the first character, if that is an ASCII character. -/
theorem head_of_decode (decoded : decode octets = .ok (c :: cs)) (ascii : c.toNat < 0x80) :
    ∃ octet rest, octets = octet :: rest ∧ octet.toNat = c.toNat := by
  unfold decode at decoded
  cases octets with
  | nil => cases decoded
  | cons octet rest =>
      refine ⟨octet, rest, rfl, ?_⟩
      rw [decodeFrom] at decoded
      split at decoded
      · rename_i own
        have continued := continues_of_decodeFrom decoded
        rw [List.reverse_singleton, ← spell_of_lt own] at continued
        exact continued.first ascii
      · split at decoded
        · rename_i led
          obtain ⟨n, wide, continued⟩ := continues_of_partial (.of_leadOrSurrogate led) decoded
          have same := continued.first ascii
          omega
        · cases decoded

end Utf8

/-- The first unit is the first character, if its octets but the lowest are zero. -/
theorem head_of_decode16
    (decoded : decode16 .little 0 none [] (octet :: 0 :: rest) = .ok (c :: cs))
    (ascii : c.toNat < 0x80) : octet.toNat = c.toNat := by
  have unit : ByteOrder.little.unit16 octet 0 = octet.toNat := by simp [ByteOrder.unit16]
  have whole : isHighSurrogate octet.toNat = false := by
    have bound : octet.toNat < 256 := octet.toNat_lt
    simp only [isHighSurrogate, Bool.and_eq_false_imp, decide_eq_true_eq, decide_eq_false_iff_not]
    omega
  simp only [decode16, unit, whole, Bool.false_eq_true, if_false] at decoded
  have continued := continues_of_decode16 _ _ _ _ _ _ decoded
  exact continued.begins.first ascii

theorem head_of_decode32
    (decoded : decode32 .little 0 [] (octet :: 0 :: 0 :: 0 :: rest) = .ok (c :: cs))
    (ascii : c.toNat < 0x80) : octet.toNat = c.toNat := by
  have unit : ByteOrder.little.unit32 octet 0 0 0 = octet.toNat := by
    simp [ByteOrder.unit32, ByteOrder.unit16]
  have bound : octet.toNat < 0x110000 := Nat.lt_trans octet.toNat_lt (by decide)
  simp only [decode32, unit, if_pos bound] at decoded
  have continued := continues_of_decode32 _ _ _ _ _ decoded
  exact continued.begins.first ascii

/-- In an encoding that begins as ASCII does, an ASCII character at the beginning of the text is the
first octet. -/
theorem head_of_decodeJsonText (begins : (Encoding.detect octets).beginsAsAscii = true)
    (decoded : decodeJsonText octets = .ok (c :: cs)) (ascii : c.toNat < 0x80) :
    octets.head? = some (UInt8.ofNat c.toNat) := by
  have found : ∃ octet rest, octets = octet :: rest ∧ octet.toNat = c.toNat := by
    unfold decodeJsonText at decoded
    have unmarked := Encoding.detect_of_beginsAsAscii begins
    obtain told | told | told := Encoding.beginsAsAscii_iff.mp begins
    · rw [told] at decoded
      exact Utf8.head_of_decode decoded ascii
    · obtain ⟨octet, rest, rfl⟩ := Encoding.octets_of_utf16 (unmarked.symm.trans told)
      rw [told, Encoding.decode, List.drop_zero] at decoded
      exact ⟨octet, _, rfl, head_of_decode16 decoded ascii⟩
    · obtain ⟨octet, rest, rfl⟩ := Encoding.octets_of_utf32 (unmarked.symm.trans told)
      rw [told, Encoding.decode, List.drop_zero] at decoded
      exact ⟨octet, _, rfl, head_of_decode32 decoded ascii⟩
  obtain ⟨octet, rest, rfl, same⟩ := found
  rw [← same, UInt8.ofNat_toNat]
  rfl

end SchemaForms.Text
