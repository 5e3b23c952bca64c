/-!
# Cutting texts

`splitOn sep cs` cuts a text at every occurrence of a character. The pieces put together again with the
separator give the text back (`join_splitOn`), and no piece holds the separator
(`not_mem_of_mem_splitOn`); a text without the separator is its own only piece (`splitOn_of_not_mem`).
The other way round, pieces that do not hold the separator are found again in the text that they make up
(`splitOn_join`). `basename` is what follows the last slash of a path.
-/

namespace Pinpoint.Text

/-- The pieces of `cs` between the occurrences of `sep`; never an empty list. -/
def splitOn (sep : Char) : List Char → List (List Char)
  | [] => [[]]
  | c :: rest =>
    if c = sep then [] :: splitOn sep rest
    else match splitOn sep rest with
      | [] => [[c]]
      | piece :: pieces => (c :: piece) :: pieces

/-- The pieces one after the other, with `sep` between neighbours. -/
def join (sep : Char) : List (List Char) → List Char
  | [] => []
  | [piece] => piece
  | piece :: pieces => piece ++ sep :: join sep pieces

/-- The text before the first `sep`, or all of it. -/
def before (sep : Char) (cs : List Char) : List Char :=
  cs.takeWhile (· ≠ sep)

theorem splitOn_ne_nil (sep : Char) (cs : List Char) : splitOn sep cs ≠ [] := by
  cases cs with
  | nil => simp [splitOn]
  | cons c rest =>
    unfold splitOn
    split
    · simp
    · split <;> simp

/-- Cutting loses nothing. -/
theorem join_splitOn (sep : Char) (cs : List Char) : join sep (splitOn sep cs) = cs := by
  induction cs with
  | nil => rfl
  | cons c rest ih =>
    unfold splitOn
    split
    next h =>
      cases hs : splitOn sep rest with
      | nil => exact absurd hs (splitOn_ne_nil sep rest)
      | cons piece pieces => simp [join, ← hs, ih, h]
    next h =>
      split
      next hs => exact absurd hs (splitOn_ne_nil sep rest)
      next piece pieces hs =>
        rw [hs] at ih
        cases pieces with
        | nil => simp_all [join]
        | cons p ps => simp_all [join]

/-- No piece holds the separator. -/
theorem not_mem_of_mem_splitOn {sep : Char} {cs piece : List Char}
    (h : piece ∈ splitOn sep cs) : sep ∉ piece := by
  induction cs generalizing piece with
  | nil => simp_all [splitOn]
  | cons c rest ih =>
    unfold splitOn at h
    split at h
    next hc =>
      rcases List.mem_cons.mp h with rfl | h
      · simp
      · exact ih h
    next hc =>
      split at h
      next hs => exact absurd hs (splitOn_ne_nil sep rest)
      next p ps hs =>
        rcases List.mem_cons.mp h with rfl | h
        · have hp : sep ∉ p := ih (by simp [hs])
          simp [hp, Ne.symm hc]
        · exact ih (by simp [hs, h])

/-- A text without the separator is its own only piece. -/
theorem splitOn_of_not_mem {sep : Char} {cs : List Char} (h : sep ∉ cs) : splitOn sep cs = [cs] := by
  induction cs with
  | nil => rfl
  | cons c rest ih =>
    obtain ⟨hc, hrest⟩ := not_or.mp (mt List.mem_cons.mpr h)
    unfold splitOn
    rw [if_neg fun heq => hc heq.symm, ih hrest]

/-- What stands before the first separator is the first piece. -/
theorem splitOn_append {sep : Char} {piece : List Char} (h : sep ∉ piece) (rest : List Char) :
    splitOn sep (piece ++ sep :: rest) = piece :: splitOn sep rest := by
  induction piece with
  | nil => simp [splitOn]
  | cons c piece ih =>
    obtain ⟨hc, hpiece⟩ := not_or.mp (mt List.mem_cons.mpr h)
    rw [List.cons_append, splitOn, if_neg fun heq => hc heq.symm, ih hpiece]

/-- Pieces without the separator are found again. -/
theorem splitOn_join {sep : Char} {pieces : List (List Char)} (hne : pieces ≠ [])
    (h : ∀ piece ∈ pieces, sep ∉ piece) : splitOn sep (join sep pieces) = pieces := by
  induction pieces with
  | nil => exact absurd rfl hne
  | cons piece pieces ih =>
    obtain ⟨hpiece, hpieces⟩ := List.forall_mem_cons.mp h
    cases pieces with
    | nil => exact splitOn_of_not_mem hpiece
    | cons next pieces =>
      rw [join, splitOn_append hpiece, ih (List.cons_ne_nil next pieces) hpieces]
      exact List.cons_ne_nil next pieces

/-- What is in a piece is in what the pieces make up. -/
theorem mem_join_of_mem {sep c : Char} {piece : List Char} {pieces : List (List Char)} (hpiece : piece ∈ pieces)
    (hc : c ∈ piece) : c ∈ join sep pieces := by
  induction pieces with
  | nil => cases hpiece
  | cons first pieces ih =>
    cases pieces with
    | nil =>
      obtain rfl := List.mem_singleton.mp hpiece
      exact hc
    | cons next pieces =>
      rw [join, List.mem_append, List.mem_cons]
      · rcases List.mem_cons.mp hpiece with rfl | hpiece
        · exact .inl hc
        · exact .inr (.inr (ih hpiece))
      · exact List.cons_ne_nil next pieces

/-- Nothing is cut off before the first separator. -/
theorem before_append {sep : Char} {cs : List Char} (h : sep ∉ cs) (rest : List Char) :
    before sep (cs ++ rest) = cs ++ before sep rest := by
  refine List.takeWhile_append_of_pos fun c hc => decide_eq_true ?_
  rintro rfl
  exact h hc

/-- What is cut off starts with the separator. -/
theorem exists_append_before (sep : Char) (cs : List Char) :
    ∃ rest, cs = before sep cs ++ rest ∧ (rest = [] ∨ ∃ more, rest = sep :: more) := by
  induction cs with
  | nil => exact ⟨[], rfl, .inl rfl⟩
  | cons c cs ih =>
    by_cases hc : c = sep
    · exact ⟨c :: cs, by simp [before, hc], .inr ⟨cs, by rw [hc]⟩⟩
    · obtain ⟨rest, hrest, hsep⟩ := ih
      have hbefore : before sep (c :: cs) = c :: before sep cs := by simp [before, hc]
      exact ⟨rest, by rw [hbefore, List.cons_append, ← hrest], hsep⟩

theorem not_mem_before (sep : Char) (cs : List Char) : sep ∉ before sep cs := by
  induction cs with
  | nil => simp [before]
  | cons c cs ih =>
    by_cases hc : c = sep
    · simp [before, hc]
    · have hbefore : before sep (c :: cs) = c :: before sep cs := by simp [before, hc]
      rw [hbefore, List.mem_cons, not_or]
      exact ⟨Ne.symm hc, ih⟩

/-- Joining adds nothing but the separator. -/
theorem mem_join {sep c : Char} {pieces : List (List Char)} (h : c ∈ join sep pieces) :
    c = sep ∨ ∃ piece ∈ pieces, c ∈ piece := by
  induction pieces with
  | nil => cases h
  | cons piece pieces ih =>
    cases pieces with
    | nil => exact .inr ⟨piece, List.mem_cons_self, h⟩
    | cons next pieces =>
      rw [join, List.mem_append, List.mem_cons] at h
      · rcases h with h | rfl | h
        · exact .inr ⟨piece, List.mem_cons_self, h⟩
        · exact .inl rfl
        · rcases ih h with rfl | ⟨p, hp, hc⟩
          · exact .inl rfl
          · exact .inr ⟨p, List.mem_cons_of_mem piece hp, hc⟩
      · exact List.cons_ne_nil next pieces

/-- The last component of a path: what follows its last slash. -/
def basename (path : String) : String :=
  String.ofList (path.toList.reverse.takeWhile (· ≠ '/')).reverse

end Pinpoint.Text
