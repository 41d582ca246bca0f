import SchemaForms.Proofs.Text.Spelled
import SchemaForms.Text.Encoding

/-!
# Decoded texts

Whatever octets are decoded to, in any of the encodings, is a spelling. The decoders write one code
point after the other behind what they have, so they only continue it.
-/

namespace SchemaForms.Text

variable {done cs : List Char}

/-- The text is the given one, and then the spelling of some row of code points and halves. -/
def Continues (front cs : List Char) : Prop :=
  ∃ ns, cs = front ++ spellAll ns

namespace Continues

theorem refl (cs : List Char) : Continues cs cs :=
  ⟨[], (List.append_nil cs).symm⟩

theorem drop {ns : List Nat} (h : Continues ((spellAll ns).reverse ++ done).reverse cs) :
    Continues done.reverse cs := by
  obtain ⟨others, rfl⟩ := h
  refine ⟨ns ++ others, ?_⟩
  rw [List.reverse_append, List.reverse_reverse, List.append_assoc, spellAll, spellAll, spellAll,
    List.flatMap_append]

theorem drop_spell {n : Nat} (h : Continues ((spell n).reverse ++ done).reverse cs) :
    Continues done.reverse cs := by
  have single : spell n = spellAll [n] := (List.append_nil (spell n)).symm
  rw [single] at h
  exact h.drop

theorem spelled {front : List Char} (h : Continues front cs) (own : Spelled front) : Spelled cs := by
  obtain ⟨ns, rfl⟩ := h
  exact own.append (spelled_spellAll ns)

end Continues

theorem spell_of_lt {n : Nat} (ascii : n < 0x80) : spell n = [Char.ofNat n] := by
  have whole : isSurrogate n = false := by
    simp only [isSurrogate, Bool.and_eq_false_imp, decide_eq_true_eq, decide_eq_false_iff_not]
    omega
  rw [spell, whole, if_neg (by simp), if_neg (by omega), if_pos (.inl (by omega))]

theorem Utf8.continues_of_decodeFrom {octets : List UInt8} {position : Nat}
    {state : Option (Partial × UInt8)} (read : decodeFrom position state done octets = .ok cs) :
    Continues done.reverse cs := by
  induction octets generalizing position state done with
  | nil =>
      cases state with
      | none =>
          rw [← Except.ok.inj read]
          exact .refl _
      | some => cases read
  | cons octet rest ih =>
      cases state with
      | none =>
          rw [decodeFrom] at read
          split at read
          · rename_i ascii
            have later := ih read
            rw [← List.singleton_append, ← List.reverse_singleton, ← spell_of_lt ascii] at later
            exact later.drop_spell
          · split at read
            · exact ih read
            · cases read
      | some state =>
          rw [decodeFrom] at read
          split at read
          · split at read
            · exact (ih read).drop_spell
            · exact ih read
          · cases read

theorem continues_of_decode16 (order : ByteOrder) : ∀ (octets : List UInt8) (position : Nat)
    (half : Option Nat) (done cs : List Char),
      decode16 order position half done octets = .ok cs → Continues done.reverse cs
  | [], _, none, _, _, read => by
      rw [← Except.ok.inj read]
      exact .refl _
  | [], _, some high, _, _, read => by
      rw [← Except.ok.inj read]
      exact ⟨[high], by simp [spellAll]⟩
  | [_], _, _, _, _, read => by cases read
  | a :: b :: rest, _, none, _, _, read => by
      simp only [decode16] at read
      split at read
      · exact continues_of_decode16 order rest _ _ _ _ read
      · exact (continues_of_decode16 order rest _ _ _ _ read).drop_spell
  | a :: b :: rest, _, some high, _, _, read => by
      simp only [decode16] at read
      split at read
      · exact (continues_of_decode16 order rest _ _ _ _ read).drop_spell
      · split at read
        · exact (continues_of_decode16 order rest _ _ _ _ read).drop_spell
        · exact (continues_of_decode16 order rest _ _ _ _ read).drop

theorem continues_of_decode32 (order : ByteOrder) : ∀ (octets : List UInt8) (position : Nat)
    (done cs : List Char), decode32 order position done octets = .ok cs → Continues done.reverse cs
  | [], _, _, _, read => by
      rw [← Except.ok.inj read]
      exact .refl _
  | a :: b :: c :: d :: rest, _, _, _, read => by
      simp only [decode32] at read
      split at read
      · exact (continues_of_decode32 order rest _ _ _ read).drop_spell
      · cases read
  | [_], _, _, _, read | [_, _], _, _, _, read | [_, _, _], _, _, _, read => by cases read

/-- The text of the octets of a JSON text is spelled. -/
theorem spelled_decodeJsonText {octets : List UInt8} (read : decodeJsonText octets = .ok cs) :
    Spelled cs := by
  unfold decodeJsonText at read
  have whole : Continues (List.reverse []) cs := by
    cases encoding : Encoding.detect octets with
    | utf8 mark =>
        rw [encoding] at read
        exact Utf8.continues_of_decodeFrom read
    | utf16 order mark =>
        rw [encoding] at read
        exact continues_of_decode16 order _ _ _ _ _ read
    | utf32 order mark =>
        rw [encoding] at read
        exact continues_of_decode32 order _ _ _ _ read
  exact whole.spelled .nil

end SchemaForms.Text
