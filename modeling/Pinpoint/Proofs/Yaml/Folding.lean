import Pinpoint.Proofs.Yaml.Gaps

/-!
# How long texts are folded

A text that goes on over several lines is written in runs: the spaces that stand together, the line feeds that stand
together, and the other characters one by one. Only a run of a single space can become the end of a line
(`folded_spaces`), and a run of line feeds is written with one line feed more (`folded_lineFeeds`).
-/

namespace Pinpoint.Yaml.Writer

variable {write : Char → List Char} {column : Nat} {before : Option Char} {cs : List Char} {c : Char}

/-- A text begins with a run of its first character, behind which another one follows, or none. -/
theorem exists_run (c : Char) (cs : List Char) :
    ∃ (n : Nat) (rest : List Char), c :: cs = List.replicate (n + 1) c ++ rest ∧ rest.head? ≠ some c := by
  induction cs with
  | nil => exact ⟨0, [], rfl, nofun⟩
  | cons d cs ih =>
    by_cases hd : d = c
    · subst hd
      obtain ⟨n, rest, hrun, hrest⟩ := ih
      exact ⟨n + 1, rest, by rw [hrun, List.replicate_succ (n := n + 1), List.cons_append], hrest⟩
    · exact ⟨0, d :: cs, rfl, fun h => hd (Option.some.inj h)⟩

/-- A character that is neither a space nor a line feed is written where it stands. -/
theorem folded_cons (hspace : c ≠ ' ') (hfeed : c ≠ '\n') :
    folded write column before (c :: cs) = write c ++ folded write (column + (write c).length) (some c) cs := by
  rw [folded, if_neg hspace, if_neg hfeed]

/-- Behind a space the line is not broken. -/
theorem folded_spaces_of_space (n : Nat) :
    folded write column (some ' ') (List.replicate n ' ' ++ cs)
      = List.replicate n ' ' ++ folded write (column + n) (some ' ') cs := by
  induction n generalizing column with
  | zero => rfl
  | succ n ih =>
    have hbreaks : breaksAt column (some ' ') (List.replicate n ' ' ++ cs) = false := by simp [breaksAt]
    rw [List.replicate_succ, List.cons_append, folded, if_pos rfl, hbreaks, if_neg Bool.false_ne_true, ih,
      List.cons_append, Nat.add_assoc, Nat.add_comm 1 n]

/-- **Spaces are written as they are,** but for a single one inside the text, which may become the end of a line. -/
theorem folded_spaces (write : Char → List Char) (column : Nat) (before : Option Char) (n : Nat) (cs : List Char) :
    folded write column before (List.replicate (n + 1) ' ' ++ cs)
        = List.replicate (n + 1) ' ' ++ folded write (column + (n + 1)) (some ' ') cs ∨
      n = 0 ∧ folded write column before (List.replicate (n + 1) ' ' ++ cs)
        = '\n' :: (indentation ++ folded write margin (some ' ') cs) := by
  rw [List.replicate_succ, List.cons_append, folded, if_pos rfl]
  cases hbreaks : breaksAt column before (List.replicate n ' ' ++ cs) with
  | false =>
    rw [if_neg Bool.false_ne_true, folded_spaces_of_space, Nat.add_assoc, Nat.add_comm 1 n]
    exact .inl rfl
  | true =>
    -- another space behind this one would have kept the line together
    have hn : n = 0 := by
      cases n with
      | zero => rfl
      | succ n => simp [breaksAt, List.replicate_succ] at hbreaks
    subst hn
    rw [if_pos rfl]
    exact .inr ⟨rfl, rfl⟩

theorem folded_lineFeeds_of_lineFeed (n : Nat) (hcs : cs.head? ≠ some '\n') :
    folded write column (some '\n') (List.replicate (n + 1) '\n' ++ cs)
      = List.replicate (n + 1) '\n' ++ (indentation ++ folded write margin (some '\n') cs) := by
  have hspace : ('\n' : Char) ≠ ' ' := by decide
  induction n generalizing column with
  | zero =>
    rw [List.replicate_one, List.singleton_append, folded, if_neg hspace, if_pos rfl, if_pos rfl, if_neg hcs,
      List.nil_append]
    rfl
  | succ n ih =>
    have hnext : (List.replicate (n + 1) '\n' ++ cs).head? = some '\n' := rfl
    rw [List.replicate_succ, List.cons_append, folded, if_neg hspace, if_pos rfl, if_pos rfl, if_pos hnext, ih]
    rfl

/-- **Line feeds are written with one more,** and the text goes on in a new line. -/
theorem folded_lineFeeds (write : Char → List Char) (column : Nat) (n : Nat) (hcs : cs.head? ≠ some '\n')
    (hbefore : before ≠ some '\n') :
    folded write column before (List.replicate (n + 1) '\n' ++ cs)
      = List.replicate (n + 2) '\n' ++ (indentation ++ folded write margin (some '\n') cs) := by
  have hspace : ('\n' : Char) ≠ ' ' := by decide
  rw [List.replicate_succ, List.cons_append, folded, if_neg hspace, if_pos rfl, if_neg hbefore]
  cases n with
  | zero =>
    rw [List.replicate_zero, List.nil_append, if_neg hcs]
    rfl
  | succ n =>
    have hnext : (List.replicate (n + 1) '\n' ++ cs).head? = some '\n' := rfl
    rw [if_pos hnext, folded_lineFeeds_of_lineFeed n hcs]
    rfl

end Pinpoint.Yaml.Writer
