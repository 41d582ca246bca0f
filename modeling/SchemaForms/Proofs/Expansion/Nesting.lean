import SchemaForms.Proofs.Expansion.Completes

/-!
# References nested in one another

`Nests found n` says that from a value one can go down through `n` references, each found in what
the one before it leads to. A value completes within a budget just if no more references than that
are nested below it, as long as it completes at all.
-/

namespace SchemaForms.Expansion

/-- So many references are nested in one another below a value of a document. -/
inductive Nests (found : Entry → Members → String → Target → Prop) :
    Nat → Entry → String → Json → Prop
  | none {entry : Entry} {path : String} {value : Json} : Nests found 0 entry path value
  | inside {depth : Nat} {entry : Entry} {path : String} {value merged : Json}
      {node : Members × String} {target : Target} (mem : node ∈ references .schema path value)
      (denoted : found entry node.1 (entry.location ++ node.2) target)
      (put : Reference.merge target.value node.1 (entry.location ++ node.2) = .ok merged)
      (rest : Nests found depth target.entry target.path merged) :
      Nests found (depth + 1) entry path value

variable {found found' : Entry → Members → String → Target → Prop}
variable {budget depth : Nat} {entry : Entry} {path : String} {value : Json}

theorem Nests.mono (imp : ∀ entry node place target, found entry node place target →
    found' entry node place target) (h : Nests found depth entry path value) :
    Nests found' depth entry path value := by
  induction h with
  | none => exact .none
  | inside mem denoted put _ ih => exact .inside mem (imp _ _ _ _ denoted) put ih

theorem Completes.mono_found (imp : ∀ entry node place target, found entry node place target →
    found' entry node place target) (h : Completes found budget entry path value) :
    Completes found' budget entry path value := by
  induction budget generalizing entry path value with
  | zero => exact h
  | succ budget ih =>
      intro node mem
      obtain ⟨target, merged, denoted, put, rest⟩ := h node mem
      exact ⟨target, merged, imp _ _ _ _ denoted, put, ih rest⟩

/-- What completes within a budget has no more references nested below it. -/
theorem Nests.le_of_completes
    (unique : ∀ entry node place target target', found entry node place target →
      found entry node place target' → target = target')
    (nests : Nests found depth entry path value) (h : Completes found budget entry path value) :
    depth ≤ budget := by
  induction nests generalizing budget with
  | none => exact Nat.zero_le _
  | inside mem denoted put _ ih =>
      obtain ⟨less, target, merged, lt, denoted', put', rest⟩ := h.below mem
      obtain rfl := unique _ _ _ _ _ denoted denoted'
      obtain rfl := Except.ok.inj (put.symm.trans put')
      exact Nat.lt_of_le_of_lt (ih rest) lt

/-- What completes at all does so within any budget that is not less than the references nested
below it. -/
theorem Completes.of_nests (h : Completes found budget entry path value)
    (bounded : ∀ n, Nests found n entry path value → n ≤ depth) :
    Completes found depth entry path value := by
  induction depth generalizing budget entry path value with
  | zero =>
      apply List.eq_nil_iff_forall_not_mem.mpr
      intro node mem
      obtain ⟨_, target, merged, _, denoted, put, _⟩ := h.below mem
      exact absurd (bounded 1 (.inside mem denoted put .none)) (by omega)
  | succ depth ih =>
      intro node mem
      obtain ⟨_, target, merged, _, denoted, put, rest⟩ := h.below mem
      refine ⟨target, merged, denoted, put, ih rest ?_⟩
      intro n nests
      exact Nat.le_of_succ_le_succ (bounded (n + 1) (.inside mem denoted put nests))

/-- There is a greatest number of references nested below what completes. -/
theorem Completes.exists_greatest
    (unique : ∀ entry node place target target', found entry node place target →
      found entry node place target' → target = target')
    (h : Completes found budget entry path value) :
    ∃ depth, Nests found depth entry path value ∧
      ∀ n, Nests found n entry path value → n ≤ depth := by
  classical
  refine ⟨Nat.findGreatest (Nests found · entry path value) budget, ?_, ?_⟩
  · exact Nat.findGreatest_spec (P := (Nests found · entry path value)) (Nat.zero_le budget) Nests.none
  · intro n nests
    exact Nat.le_findGreatest (nests.le_of_completes unique h) nests

end SchemaForms.Expansion
