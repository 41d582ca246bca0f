import Mathlib.Data.List.DropRight
import SchemaForms.Text.Blank
import SchemaForms.Text.Surrogate

/-!
# Spelled texts

Not every row of characters is the spelling of a text: behind a mark there has to be another mark or
the private character of a half. `Spelled` rows are told apart by the code points that they spell.
They can be put together, and they can be cut at any character that has no part in a pair, so a blank
end can be removed.
-/

namespace SchemaForms.Text

/-- The character stands behind a mark only: it is the mark again, or stands for a half. -/
def isSecond (c : Char) : Bool :=
  c = mark || (half? c).isSome

/-- The characters spell a text. -/
inductive Spelled : List Char → Prop
  | nil : Spelled []
  | plain {c : Char} {rest : List Char} (other : c ≠ mark) (tail : Spelled rest) :
      Spelled (c :: rest)
  | pair {c : Char} {rest : List Char} (second : isSecond c = true) (tail : Spelled rest) :
      Spelled (mark :: c :: rest)

namespace Spelled

variable {front rest cs cs' : List Char} {c : Char}

theorem append (h : Spelled front) (h' : Spelled rest) : Spelled (front ++ rest) := by
  induction h with
  | nil => exact h'
  | plain other _ ih => exact .plain other ih
  | pair second _ ih => exact .pair second ih

theorem single (other : c ≠ mark) : Spelled [c] :=
  .plain other .nil

theorem tail (h : Spelled (c :: rest)) (other : c ≠ mark) : Spelled rest := by
  cases h with
  | plain _ tail => exact tail
  | pair => exact absurd rfl other

/-- What is behind characters that are not the mark is spelled. -/
theorem drop (h : Spelled (front ++ rest)) (others : mark ∉ front) : Spelled rest := by
  induction front with
  | nil => exact h
  | cons c front ih =>
      obtain ⟨other, others⟩ := not_or.mp (List.mem_cons.not.mp others)
      exact ih (h.tail (Ne.symm other)) others

/-- A spelling can be cut in front of a character that has no part in a pair. -/
theorem cut (h : Spelled (front ++ c :: rest)) (other : isSecond c = false) :
    Spelled front ∧ Spelled (c :: rest) := by
  generalize whole : front ++ c :: rest = cs at h
  induction h generalizing front with
  | nil => simp at whole
  | @plain d after ne tail ih =>
      cases front with
      | nil =>
          rw [List.nil_append] at whole
          rw [whole]
          exact ⟨.nil, .plain ne tail⟩
      | cons first front =>
          obtain ⟨rfl, inner⟩ := List.cons.inj whole
          obtain ⟨before, behind⟩ := ih inner
          exact ⟨.plain ne before, behind⟩
  | @pair d after second tail ih =>
      cases front with
      | nil =>
          obtain ⟨rfl, -⟩ := List.cons.inj whole
          simp [isSecond] at other
      | cons first front =>
          obtain ⟨rfl, inner⟩ := List.cons.inj whole
          cases front with
          | nil =>
              obtain ⟨rfl, -⟩ := List.cons.inj inner
              rw [second] at other
              cases other
          | cons next front =>
              obtain ⟨rfl, last⟩ := List.cons.inj inner
              obtain ⟨before, behind⟩ := ih last
              exact ⟨.pair second before, behind⟩

end Spelled

section Codes

theorem toNat_ne_of_ne_mark {c : Char} (other : c ≠ mark) : c.toNat ≠ 0x10FFFF := by
  intro same
  exact other (Char.toNat_inj.mp (same.trans toNat_mark.symm))

theorem not_isSurrogate_toNat (c : Char) : isSurrogate c.toNat = false := by
  have valid : c.toNat < 0xD800 ∨ 0xDFFF < c.toNat ∧ c.toNat < 0x110000 := c.valid
  simp only [isSurrogate, Bool.and_eq_false_iff, decide_eq_false_iff_not]
  omega

theorem toNat_of_half? {c : Char} {half : Nat} (h : half? c = some half) :
    isSurrogate half = true ∧ c.toNat = standInOffset + half := by
  unfold half? at h
  split at h
  · rename_i range
    obtain rfl := Option.some.inj h
    rw [Bool.and_eq_true, decide_eq_true_eq, decide_eq_true_eq] at range
    simp only [isSurrogate, Bool.and_eq_true, decide_eq_true_eq]
    omega
  · cases h

/-- A pair spells one code point, the mark or a half. -/
theorem codes_pair {c : Char} (second : isSecond c = true) (rest : List Char) :
    ∃ n, codes (mark :: c :: rest) = n :: codes rest ∧
      (c = mark ∧ n = 0x10FFFF ∨ half? c = some n) := by
  rw [codes_mark_cons, markedCodes]
  by_cases twice : c = mark
  · rw [if_pos twice]
    exact ⟨0x10FFFF, rfl, .inl ⟨twice, rfl⟩⟩
  · have stands : (half? c).isSome = true := by simpa [isSecond, twice] using second
    obtain ⟨half, stands⟩ := Option.isSome_iff_exists.mp stands
    rw [if_neg twice, stands]
    exact ⟨half, rfl, .inr rfl⟩

/-- A plain character and a pair spell different code points. -/
theorem codes_plain_ne_pair {c d : Char} (other : c ≠ mark) (second : isSecond d = true)
    (rest rest' : List Char) : codes (c :: rest) ≠ codes (mark :: d :: rest') := by
  obtain ⟨n, pair, meaning⟩ := codes_pair second rest'
  rw [codes_cons_of_ne_mark other, pair]
  intro same
  have own : c.toNat = n := (List.cons.inj same).1
  obtain ⟨-, last⟩ | stands := meaning
  · exact toNat_ne_of_ne_mark other (own.trans last)
  · have half := (toNat_of_half? stands).1
    rw [← own, not_isSurrogate_toNat] at half
    cases half

/-- A pair is known by the code point that it spells. -/
theorem second_eq_of_codes {c d : Char} (second : isSecond c = true) (second' : isSecond d = true)
    {rest rest' : List Char} (same : codes (mark :: c :: rest) = codes (mark :: d :: rest')) :
    c = d ∧ codes rest = codes rest' := by
  obtain ⟨n, pair, meaning⟩ := codes_pair second rest
  obtain ⟨n', pair', meaning'⟩ := codes_pair second' rest'
  rw [pair, pair'] at same
  obtain ⟨rfl, behind⟩ := List.cons.inj same
  refine ⟨?_, behind⟩
  obtain ⟨rfl, last⟩ | stands := meaning
  · obtain ⟨rfl, -⟩ | stands' := meaning'
    · rfl
    · have half := (toNat_of_half? stands').1
      rw [last] at half
      cases half
  · obtain ⟨rfl, last⟩ | stands' := meaning'
    · have half := (toNat_of_half? stands).1
      rw [last] at half
      cases half
    · exact Char.toNat_inj.mp ((toNat_of_half? stands).2.trans (toNat_of_half? stands').2.symm)

theorem Spelled.eq_nil_of_codes {cs : List Char} (h : Spelled cs) (none : codes cs = []) :
    cs = [] := by
  cases h with
  | nil => rfl
  | plain other =>
      rw [codes_cons_of_ne_mark other] at none
      cases none
  | @pair c rest second =>
      obtain ⟨n, pair, -⟩ := codes_pair second rest
      rw [pair] at none
      cases none

theorem Spelled.eq_of_codes {cs cs' : List Char} (h : Spelled cs) (h' : Spelled cs')
    (same : codes cs = codes cs') : cs = cs' := by
  induction h generalizing cs' with
  | nil => exact (h'.eq_nil_of_codes same.symm).symm
  | plain other tail ih =>
      cases h' with
      | nil => exact (Spelled.plain other tail).eq_nil_of_codes same
      | plain other' tail' =>
          rw [codes_cons_of_ne_mark other, codes_cons_of_ne_mark other'] at same
          obtain ⟨head, behind⟩ := List.cons.inj same
          rw [Char.toNat_inj.mp head, ih tail' behind]
      | pair second => exact absurd same (codes_plain_ne_pair other second _ _)
  | pair second tail ih =>
      cases h' with
      | nil => exact (Spelled.pair second tail).eq_nil_of_codes same
      | plain other => exact absurd same.symm (codes_plain_ne_pair other second _ _)
      | pair second' tail' =>
          obtain ⟨rfl, behind⟩ := second_eq_of_codes second second' same
          rw [ih tail' behind]

end Codes

section Made

/-- Whatever number is spelled, the spelling is one. -/
theorem spelled_spell (n : Nat) : Spelled (spell n) := by
  unfold spell
  split
  · rename_i half
    have second : isSecond (standIn n) = true := by simp [isSecond, (half?_standIn half).1]
    exact .pair second .nil
  · split
    · exact .pair (by simp [isSecond]) .nil
    · rename_i last
      split
      · rename_i valid
        apply Spelled.single
        intro same
        exact last ((toNat_ofNat valid).symm.trans ((congrArg Char.toNat same).trans toNat_mark))
      · exact .single (by decide)

theorem spelled_spellAll (ns : List Nat) : Spelled (spellAll ns) := by
  induction ns with
  | nil => exact .nil
  | cons n rest ih => exact (spelled_spell n).append ih

/-- A blank character is not the mark, and does not stand for a half. -/
theorem not_isSecond_of_isBlank {c : Char} (blank : isBlank c = true) :
    c ≠ mark ∧ isSecond c = false := by
  have small : c.toNat ≤ 0x3000 := by
    simp only [isBlank, Bool.or_eq_true, Bool.and_eq_true, decide_eq_true_eq, beq_iff_eq] at blank
    omega
  have other : c ≠ mark := by
    rintro rfl
    rw [toNat_mark] at small
    omega
  refine ⟨other, ?_⟩
  cases stands : half? c with
  | none => simp [isSecond, other, stands]
  | some half =>
      have large := (toNat_of_half? stands).2
      rw [standInOffset] at large
      omega

theorem Spelled.dropWhile {cs : List Char} (h : Spelled cs) : Spelled (cs.dropWhile isBlank) := by
  have whole : Spelled (cs.takeWhile isBlank ++ cs.dropWhile isBlank) := by
    rwa [List.takeWhile_append_dropWhile]
  refine whole.drop ?_
  intro mem
  exact (not_isSecond_of_isBlank (List.mem_takeWhile_imp mem)).1 rfl

theorem Spelled.rdropWhile {cs : List Char} (h : Spelled cs) : Spelled (cs.rdropWhile isBlank) := by
  induction cs using List.reverseRecOn with
  | nil => exact .nil
  | append_singleton front c ih =>
      by_cases blank : isBlank c = true
      · rw [List.rdropWhile_concat_pos _ _ _ blank]
        exact ih (h.cut (not_isSecond_of_isBlank blank).2).1
      · rwa [List.rdropWhile_concat_neg _ _ _ blank]

/-- What is left of a spelled text without its blank ends is spelled. -/
theorem Spelled.trim {s : String} (h : Spelled s.toList) : Spelled (trim s).toList := by
  rw [toList_trim]
  exact h.dropWhile.rdropWhile

end Made

end SchemaForms.Text
