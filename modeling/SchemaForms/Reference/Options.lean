/-!
# Options of the resolution

What references may do, and how much work they may cause. A limit of zero stands for the usual
limit.
-/

namespace SchemaForms

structure ResolveOptions where
  allowHttp : Bool := false
  allowTraversal : Bool := false
  maxDocumentSize : Nat := 0
  maxDocuments : Nat := 0
  maxDepth : Nat := 0
deriving DecidableEq, Repr

namespace ResolveOptions

/-- The usual limit on the octets of a document: five mebibytes. -/
def usualDocumentSize : Nat := 5 * Nat.pow 2 20

/-- The usual limit on the number of documents, the root included. -/
def usualDocuments : Nat := 128

def usualDepth : Nat := 64

/-- A limit, or the usual one in place of zero. -/
def limitOr (usual limit : Nat) : Nat :=
  if limit = 0 then usual else limit

/-- The options with the usual limits in place of zeros. -/
def effective (options : ResolveOptions) : ResolveOptions :=
  { options with
    maxDocumentSize := limitOr usualDocumentSize options.maxDocumentSize
    maxDocuments := limitOr usualDocuments options.maxDocuments
    maxDepth := limitOr usualDepth options.maxDepth }

/-- No limit is zero. -/
def Positive (options : ResolveOptions) : Prop :=
  0 < options.maxDocumentSize ∧ 0 < options.maxDocuments ∧ 0 < options.maxDepth

theorem limitOr_pos {usual : Nat} (h : 0 < usual) (limit : Nat) : 0 < limitOr usual limit := by
  unfold limitOr
  split <;> omega

theorem positive_effective (options : ResolveOptions) : options.effective.Positive :=
  ⟨limitOr_pos (by decide) _, limitOr_pos (by decide) _, limitOr_pos (by decide) _⟩

theorem effective_of_positive {options : ResolveOptions} (h : options.Positive) :
    options.effective = options := by
  obtain ⟨hs, hd, hr⟩ := h
  unfold effective limitOr
  simp [Nat.ne_of_gt hs, Nat.ne_of_gt hd, Nat.ne_of_gt hr]

end ResolveOptions

end SchemaForms
