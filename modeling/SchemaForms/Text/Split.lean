/-!
# Cutting text at a separator

A text is cut at every occurrence of a separator character (`split`) or at the first one only
(`cut`), and any list at every occurrence of an element (`pieces`). Cutting everywhere and joining
again with the separator gives the text back, and the pieces themselves never hold the separator.
-/

namespace SchemaForms.Text

/-- The pieces between the occurrences of `sep`; there is always at least one. -/
def pieces {α : Type} [DecidableEq α] (sep : α) : List α → List (List α)
  | [] => [[]]
  | c :: cs =>
    if c = sep then [] :: pieces sep cs
    else match pieces sep cs with
      | [] => [[c]]
      | piece :: rest => (c :: piece) :: rest

/-- The pieces of a text between the occurrences of `sep`. -/
def split (sep : Char) (s : String) : List String :=
  (pieces sep s.toList).map String.ofList

theorem pieces_ne_nil {α : Type} [DecidableEq α] (sep : α) (cs : List α) : pieces sep cs ≠ [] := by
  cases cs with
  | nil => simp [pieces]
  | cons c cs =>
    simp only [pieces]
    split
    · simp
    · split <;> simp

theorem pieces_of_not_mem {α : Type} [DecidableEq α] {sep : α} {cs : List α} (h : sep ∉ cs) :
    pieces sep cs = [cs] := by
  induction cs with
  | nil => rfl
  | cons c cs ih =>
    have hc : c ≠ sep := fun heq => h (by simp [heq])
    have hcs : sep ∉ cs := fun hmem => h (List.mem_cons_of_mem c hmem)
    rw [pieces, if_neg hc, ih hcs]

theorem not_mem_of_mem_pieces {α : Type} [DecidableEq α] {sep : α} {cs piece : List α}
    (h : piece ∈ pieces sep cs) : sep ∉ piece := by
  induction cs generalizing piece with
  | nil => simp_all [pieces]
  | cons c cs ih =>
    simp only [pieces] at h
    split at h
    · rcases List.mem_cons.mp h with rfl | h
      · simp
      · exact ih h
    · rename_i hc
      split at h
      · rw [List.mem_singleton.mp h, List.mem_singleton]
        exact Ne.symm hc
      · rename_i p ps hps
        rcases List.mem_cons.mp h with rfl | h
        · have hp : sep ∉ p := ih (by simp [hps])
          simp [hp, Ne.symm hc]
        · exact ih (by simp [hps, h])

/-- The texts joined with `sep` between each two of them. -/
def joinChars (sep : Char) : List (List Char) → List Char
  | [] => []
  | [piece] => piece
  | piece :: pieces => piece ++ sep :: joinChars sep pieces

def join (sep : Char) (pieces : List String) : String :=
  String.ofList (joinChars sep (pieces.map String.toList))

/-- Cutting at a separator that is known leaves the two sides to be cut. -/
theorem pieces_append {α : Type} [DecidableEq α] (sep : α) (before after : List α) :
    pieces sep (before ++ sep :: after) = pieces sep before ++ pieces sep after := by
  induction before with
  | nil => simp [pieces]
  | cons c before ih =>
    by_cases h : c = sep
    · simp [pieces, h, ih]
    · cases hs : pieces sep before with
      | nil => exact absurd hs (pieces_ne_nil sep before)
      | cons p ps => simp [pieces, h, ih, hs]

/-- Joining texts without the separator and cutting them again gives the texts back. -/
theorem pieces_joinChars {sep : Char} {texts : List (List Char)} (ne : texts ≠ [])
    (h : ∀ text ∈ texts, sep ∉ text) : pieces sep (joinChars sep texts) = texts := by
  induction texts with
  | nil => exact absurd rfl ne
  | cons text rest ih =>
    have hText := pieces_of_not_mem (h text List.mem_cons_self)
    cases rest with
    | nil => exact hText
    | cons next rest =>
      have hRest := ih (by simp) fun text mem => h text (List.mem_cons_of_mem _ mem)
      rw [joinChars, pieces_append, hText, hRest]
      · rfl
      · simp

/-- The text before the first `sep`, and the text after it if there is one. -/
def cutChars (sep : Char) : List Char → List Char × Option (List Char)
  | [] => ([], none)
  | c :: cs =>
    if c = sep then ([], some cs)
    else
      let (before, after) := cutChars sep cs
      (c :: before, after)

/-- The text before the first `sep`, and the text after it if there is one. -/
def cut (sep : Char) (s : String) : String × Option String :=
  let (before, after) := cutChars sep s.toList
  (String.ofList before, after.map String.ofList)

/-- The text without a leading `c`, when it has one. -/
def dropLeading (c : Char) (s : String) : String :=
  match s.toList with
  | d :: rest => if d = c then String.ofList rest else s
  | [] => s

/-- The text without a final `c`, when it has one. -/
def dropFinal (c : Char) (s : String) : String :=
  match s.toList.reverse with
  | d :: rest => if d = c then String.ofList rest.reverse else s
  | [] => s

def startsWith (c : Char) (s : String) : Bool :=
  s.toList.head? == some c

end SchemaForms.Text
