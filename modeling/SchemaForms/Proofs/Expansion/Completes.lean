import Mathlib.Order.Nat
import SchemaForms.Proofs.Expansion.Siblings

/-!
# Expansions that complete open nothing twice

`Completes found budget` says that all references of a value can be expanded within the budget, and
`Clear found opened` that on no way down from it a target is opened that is open already. The first
implies the second. A value that completes has a least budget with which it does, and each of its
references needs less. If a target were opened inside itself, with whatever other members put into
it, it would come to the same references again, and so would need less than it needs.
-/

namespace SchemaForms.Expansion

open Reference

/-- All references of a value of a document can be expanded, and those that come up in that, nested
in each other as often as the budget says. -/
def Completes (found : Entry → Members → String → Target → Prop) :
    Nat → Entry → String → Json → Prop
  | 0, _, path, value => references .schema path value = []
  | budget + 1, entry, path, value => ∀ node ∈ references .schema path value, ∃ target merged,
      found entry node.1 (entry.location ++ node.2) target ∧
      merge target.value node.1 (entry.location ++ node.2) = .ok merged ∧
      Completes found budget target.entry target.path merged

/-- On no way down from a value of a document a reference comes to a target whose key is open. -/
inductive Clear (found : Entry → Members → String → Target → Prop) :
    List String → Entry → String → Json → Prop
  | intro {opened : List String} {entry : Entry} {path : String} {value : Json}
      (fresh : ∀ node ∈ references .schema path value, ∀ target,
        found entry node.1 (entry.location ++ node.2) target → target.key ∉ opened)
      (below : ∀ node ∈ references .schema path value, ∀ target merged,
        found entry node.1 (entry.location ++ node.2) target →
        merge target.value node.1 (entry.location ++ node.2) = .ok merged →
        Clear found (target.key :: opened) target.entry target.path merged) :
      Clear found opened entry path value

/-- What references denote is determined: by the text of the reference, and of targets in known
documents by their keys. -/
structure Determined (found : Entry → Members → String → Target → Prop) (known : Entry → Prop) :
    Prop where
  unique : ∀ {entry node place target target'}, found entry node place target →
    found entry node place target' → target = target'
  byText : ∀ {entry node node' place target},
    Members.get? node "$ref" = Members.get? node' "$ref" →
    found entry node place target → found entry node' place target
  keeps : ∀ {entry node place target}, known entry → found entry node place target →
    known target.entry
  byKey : ∀ {entry entry' node node' place place' target target'}, known entry → known entry' →
    found entry node place target → found entry' node' place' target' →
    target.key = target'.key → target = target'

variable {found : Entry → Members → String → Target → Prop} {known : Entry → Prop}

theorem Completes.succ {budget : Nat} {entry : Entry} {path : String} {value : Json}
    (h : Completes found budget entry path value) :
    Completes found (budget + 1) entry path value := by
  induction budget generalizing entry path value with
  | zero =>
      have none : references .schema path value = [] := h
      intro node mem
      rw [none] at mem
      cases mem
  | succ budget ih =>
      intro node mem
      obtain ⟨target, merged, denoted, put, rest⟩ := h node mem
      exact ⟨target, merged, denoted, put, ih rest⟩

theorem Completes.mono {budget more : Nat} {entry : Entry} {path : String} {value : Json}
    (h : Completes found budget entry path value) (le : budget ≤ more) :
    Completes found more entry path value := by
  induction le with
  | refl => exact h
  | step _ ih => exact ih.succ

theorem Expanded.completes {budget : Nat} {entry : Entry} {path : String} {value result : Json}
    (h : Expanded found budget entry path value result) :
    Completes found budget entry path value := by
  induction budget generalizing entry path value result with
  | zero =>
      apply List.eq_nil_iff_forall_not_mem.mpr
      intro node mem
      obtain ⟨_, impossible⟩ := Walked.followed h node mem
      exact impossible
  | succ budget ih =>
      intro node mem
      obtain ⟨_, target, merged, denoted, put, rest⟩ := Walked.followed h node mem
      exact ⟨target, merged, denoted, put, ih rest⟩

/-- Each reference of a value that completes leads to a value that does so with less. -/
theorem Completes.below {budget : Nat} {entry : Entry} {path : String} {value : Json}
    (h : Completes found budget entry path value) {node : Members × String}
    (mem : node ∈ references .schema path value) :
    ∃ less target merged, less < budget ∧
      found entry node.1 (entry.location ++ node.2) target ∧
      merge target.value node.1 (entry.location ++ node.2) = .ok merged ∧
      Completes found less target.entry target.path merged := by
  cases budget with
  | zero =>
      have none : references .schema path value = [] := h
      rw [none] at mem
      cases mem
  | succ less =>
      obtain ⟨target, merged, denoted, put, rest⟩ := h node mem
      exact ⟨less, target, merged, less.lt_succ_self, denoted, put, rest⟩

/-- It is enough to know of each reference that it leads to a value that completes with less. -/
theorem completes_of_below {budget : Nat} {entry : Entry} {path : String} {value : Json}
    (h : ∀ node ∈ references .schema path value, ∃ less target merged, less < budget ∧
      found entry node.1 (entry.location ++ node.2) target ∧
      merge target.value node.1 (entry.location ++ node.2) = .ok merged ∧
      Completes found less target.entry target.path merged) :
    Completes found budget entry path value := by
  cases budget with
  | zero =>
      apply List.eq_nil_iff_forall_not_mem.mpr
      intro node mem
      obtain ⟨less, _, _, impossible, _⟩ := h node mem
      exact less.not_lt_zero impossible
  | succ budget =>
      intro node mem
      obtain ⟨less, target, merged, lt, denoted, put, rest⟩ := h node mem
      exact ⟨target, merged, denoted, put, rest.mono (Nat.le_of_lt_succ lt)⟩

/-- A value that completes at all does so with any budget with which one of its core does. Below
equal references there is nothing to show; a value that is a reference itself leads on to a target
whose forms have one core again. -/
theorem Completes.of_sameCore (h : Determined found known) {budget other : Nat} {entry : Entry}
    {path : String} {value value' : Json} (same : SameCore value value')
    (completes : Completes found other entry path value)
    (completes' : Completes found budget entry path value') :
    Completes found budget entry path value := by
  induction budget using Nat.strong_induction_on generalizing other entry path value value' with
  | _ budget ih =>
      apply completes_of_below
      intro node mem
      cases same with
      | refl => exact completes'.below mem
      | @obj members others same =>
          cases isReference : Members.has members "$ref" with
          | false =>
              rw [references_of_core same isReference] at mem
              exact completes'.below mem
          | true =>
              have isReference' : Members.has others "$ref" = true := by
                rwa [Members.has, ← get?_ref_of_core same]
              have mem' : (others, path) ∈ references .schema path (.obj others) := by
                simp [references_of_has isReference']
              obtain ⟨_, target, merged, -, denoted, put, rest⟩ := completes.below mem
              obtain ⟨less, target', merged', lt, denoted', put', rest'⟩ := completes'.below mem'
              rw [references_of_has isReference, List.mem_singleton] at mem
              subst mem
              obtain rfl := h.unique denoted (h.byText (get?_ref_of_core same).symm denoted')
              have core := (sameCore_of_merge put).symm.trans (sameCore_of_merge put')
              exact ⟨less, target, merged, lt, denoted, put, ih less lt core rest rest'⟩

/-- Along a way down the least budgets decrease. So if no target that is open completes with less
than a value does, none of them is opened again below the value. -/
theorem clear_of_completes (h : Determined found known) {budget : Nat} {opened : List String}
    {entry : Entry} {path : String} {value : Json} (start : known entry)
    (completes : Completes found budget entry path value)
    (costly : ∀ other node place target merged, known other → found other node place target →
      target.key ∈ opened → merge target.value node place = .ok merged →
      ∀ less < budget, ¬ Completes found less target.entry target.path merged) :
    Clear found opened entry path value := by
  classical
  induction budget using Nat.strong_induction_on generalizing opened entry path value with
  | _ budget ih =>
      refine .intro ?_ ?_
      · intro node mem target denoted isOpen
        obtain ⟨less, target', merged, lt, denoted', put, rest⟩ := completes.below mem
        obtain rfl := h.unique denoted denoted'
        exact costly entry node.1 _ target merged start denoted isOpen put less lt rest
      · intro node mem target merged denoted put
        obtain ⟨less, target', merged', lt, denoted', put', rest⟩ := completes.below mem
        obtain rfl := h.unique denoted denoted'
        obtain rfl := Except.ok.inj (put.symm.trans put')
        have some : ∃ least, Completes found least target.entry target.path merged := ⟨less, rest⟩
        have le : Nat.find some ≤ less := Nat.find_min' some rest
        apply ih (Nat.find some) (by omega) (h.keeps start denoted) (Nat.find_spec some)
        intro other spot where' again merged'' knows denoted'' isOpen putAgain less' lt' rest'
        obtain same | earlier := List.mem_cons.mp isOpen
        · -- The target itself, perhaps with other members: it would need less than it needs.
          obtain rfl := h.byKey knows start denoted'' denoted same
          have core := (sameCore_of_merge put).symm.trans (sameCore_of_merge putAgain)
          exact Nat.find_min some lt' (rest.of_sameCore h core rest')
        · exact costly other spot where' again merged'' knows denoted'' earlier putAgain less'
            (by omega) rest'

end SchemaForms.Expansion
