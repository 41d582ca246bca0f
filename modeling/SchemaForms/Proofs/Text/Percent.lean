import SchemaForms.Text.Percent

/-!
# What percent escapes write

Octets are never read as more characters than there are octets (`Utf8.length_lossy_le`), so an
escape, which is three characters, is read as less than it takes. That a text has changed when an
escape was decoded in it follows from its length alone.

On the other hand every text has a spelling that is read as the text: the one in which each percent
sign is escaped. The percent signs in a row are then read together, as ASCII octets in a row.
-/

namespace SchemaForms.Text

namespace Utf8

/-- How many octets the machine has taken for the character that is not complete yet. -/
def taken : Option Partial → Nat
  | none => 0
  | some p => p.width

/-- A character that is not complete yet has begun. -/
def Begun (state : Option Partial) : Prop :=
  ∀ p ∈ state, 0 < p.width

theorem width_of_lead? {octet : UInt8} {p : Partial} (h : lead? octet = some p) : p.width = 1 := by
  unfold lead? at h
  grind

theorem length_spell_le (n : Nat) : (spell n).length ≤ 2 := by
  unfold spell
  grind

/-- What the machine writes for the first octet of a character, or for one that begins none. -/
theorem length_first_le (octet : UInt8) :
    (first octet).1.length + taken (first octet).2 ≤ 1 ∧ Begun (first octet).2 := by
  unfold first
  split
  · simp [taken, Begun]
  · split
    · rename_i p lead
      have width := width_of_lead? lead
      simp [taken, Begun, width]
    · simp [taken, Begun]

/-- Each step of the machine writes no more than the octets that it has taken. -/
theorem length_step_le {state : Option Partial} (begun : Begun state) (octet : UInt8) :
    (step state octet).1.length + taken (step state octet).2 ≤ taken state + 1 ∧
      Begun (step state octet).2 := by
  obtain ⟨length, begins⟩ := length_first_le octet
  cases state with
  | none => exact ⟨by simpa [step, taken] using length, begins⟩
  | some p =>
      have width : 0 < p.width := begun p rfl
      have spelled := length_spell_le (p.extend octet).value
      rw [step]
      split
      · split
        · refine ⟨?_, by simp [Begun]⟩
          simp only [taken]
          omega
        · simp [taken, Begun, Partial.extend]
      · refine ⟨?_, begins⟩
        simp only [List.length_cons]
        change _ ≤ p.width + 1
        omega

theorem length_lossyFrom_le {state : Option Partial} (begun : Begun state) (octets : List UInt8) :
    (lossyFrom state octets).length ≤ taken state + octets.length := by
  induction octets generalizing state with
  | nil =>
      cases state with
      | none => simp [lossyFrom]
      | some p =>
          have width : 0 < p.width := begun p rfl
          simp only [lossyFrom, taken, List.length_singleton, List.length_nil]
          omega
  | cons octet rest ih =>
      obtain ⟨written, begun'⟩ := length_step_le begun octet
      have later := ih begun'
      rw [lossyFrom, List.length_append, List.length_cons]
      omega

/-- Octets are read as no more characters than there are octets. -/
theorem length_lossy_le (octets : List UInt8) : (lossy octets).length ≤ octets.length := by
  have begun : Begun none := nofun
  simpa [lossy, taken] using length_lossyFrom_le begun octets

end Utf8

/-- A text with its percent signs escaped. -/
def escapePercents (cs : List Char) : List Char :=
  cs.flatMap fun c => if c = '%' then ['%', '2', '5'] else [c]

theorem escapePercents_percent (cs : List Char) :
    escapePercents ('%' :: cs) = '%' :: '2' :: '5' :: escapePercents cs := rfl

theorem escapePercents_plain {c : Char} (h : c ≠ '%') (cs : List Char) :
    escapePercents (c :: cs) = c :: escapePercents cs := by
  rw [escapePercents, List.flatMap_cons, if_neg h]
  rfl

/-- Escapes of percent signs in a row, and what follows them, are read as it was before. -/
theorem percentDecodeFrom_escapePercents (count : Nat) (cs : List Char) :
    percentDecodeFrom (List.replicate count 0x25) 0 (escapePercents cs) =
      List.replicate count '%' ++ cs := by
  have ascii (count : Nat) :
      Utf8.lossy (List.replicate count 0x25).reverse = List.replicate count '%' := by
    rw [List.reverse_replicate, Utf8.lossy_ascii, List.map_replicate]
    · rfl
    · intro octet mem
      rw [List.eq_of_mem_replicate mem]
      decide
  induction cs generalizing count with
  | nil =>
      rw [List.append_nil, ← ascii]
      rfl
  | cons c cs ih =>
      by_cases percent : c = '%'
      · subst percent
        have octet : escape? '%' ('2' :: '5' :: escapePercents cs) = some 0x25 := rfl
        rw [escapePercents_percent, percentDecodeFrom, octet]
        calc percentDecodeFrom (0x25 :: List.replicate count 0x25) 0 (escapePercents cs)
          _ = percentDecodeFrom (List.replicate (count + 1) 0x25) 0 (escapePercents cs) := rfl
          _ = List.replicate (count + 1) '%' ++ cs := ih (count + 1)
          _ = List.replicate count '%' ++ '%' :: cs := by
            rw [List.replicate_succ', List.append_assoc, List.singleton_append]
      · have none : escape? c (escapePercents cs) = none := if_neg percent
        rw [escapePercents_plain percent, percentDecodeFrom, none, ascii]
        exact congrArg (List.replicate count '%' ++ c :: ·) (ih 0)

/-- A text whose percent signs are escaped is read as it was. -/
theorem percentDecodeChars_escapePercents (cs : List Char) :
    percentDecodeChars (escapePercents cs) = cs :=
  percentDecodeFrom_escapePercents 0 cs

end SchemaForms.Text
