import Mathlib.Data.List.Basic
import Pinpoint.Yaml.Reader
import Pinpoint.Yaml.Writer

/-!
# Gaps and tidy texts

What the writer puts down besides the characters of a text is spaces and line feeds. Here is what the reader makes of
them: spaces before something else are kept (`gap_spaces`), one line feed becomes a space, and of several the first is
dropped (`gap_lineFeeds`); between tokens all of them are skipped (`settle_lineFeed`, `settle_spaces`).

A text is *tidy* (`IsTidy`) if it is made of printable ASCII and line feeds and none of its lines can be taken for a
document mark. A tidy text is one document, read as it stands (`parse_of_isTidy`).
-/

namespace Pinpoint.Yaml

open Writer (isVisible indentation margin)

/-! ### Visible characters -/

section Visible

variable {c : Char}

theorem isVisible_iff : isVisible c = true ↔ 0x20 ≤ c.toNat ∧ c.toNat ≤ 0x7E := by
  simp [isVisible]

theorem isBreak_of_isVisible (h : isVisible c = true) : isBreak c = false := by
  have hc := isVisible_iff.mp h
  have hfeed : c ≠ '\n' := by
    rintro rfl
    exact absurd hc.1 (by decide)
  simp only [isBreak, Bool.or_eq_false_iff, beq_eq_false_iff_ne]
  exact ⟨⟨⟨hfeed, by omega⟩, by omega⟩, by omega⟩

theorem isBreak_lineFeed : isBreak '\n' = true := rfl

theorem ne_lineFeed_of_isVisible (h : isVisible c = true) : c ≠ '\n' := by
  rintro rfl
  cases h

/-- A visible character is no gap, but for the space. -/
theorem isGap_of_isVisible (h : isVisible c = true) (hspace : c ≠ ' ') : isGap c = false := by
  have htab : c ≠ '\t' := by
    rintro rfl
    cases h
  simp only [isGap, Bool.or_eq_false_iff, beq_eq_false_iff_ne]
  exact ⟨⟨hspace, htab⟩, isBreak_of_isVisible h⟩

theorem isAllowed_of_isVisible (h : isVisible c = true) : isAllowed c = true := by
  have hc := isVisible_iff.mp h
  simp [isAllowed, hc.1, hc.2]

end Visible

/-! ### Fuel -/

/-- Fuel for a text is one step, and fuel for a shorter text. -/
theorem exists_fuel {m n fuel : Nat} (hfuel : n ≤ fuel) (h : m < n) : ∃ f, fuel = f + 1 ∧ m ≤ f :=
  ⟨fuel - 1, by omega, by omega⟩

/-! ### Gaps inside a scalar -/

/-- The text does not begin with a gap. -/
def IsSolid (cs : List Char) : Prop := ∀ c ∈ cs.head?, isGap c = false

theorem isSolid_nil : IsSolid [] := nofun

theorem isSolid_cons {c : Char} {cs : List Char} : IsSolid (c :: cs) ↔ isGap c = false := by
  simp [IsSolid]

/-- What may count as a blank: the space does, and only gaps that end no line do. -/
structure IsBlankTest (p : Char → Bool) : Prop where
  space : p ' ' = true
  gap : ∀ c, p c = true → isGap c = true
  lineFeed : p '\n' = false

theorem isBlankTest_space : IsBlankTest (· = ' ') :=
  ⟨rfl, fun c h => by rw [of_decide_eq_true h]; rfl, rfl⟩

theorem isBlankTest_spaceOrTab : IsBlankTest fun c => c = ' ' || c = '\t' where
  space := rfl
  gap c h := by
    rcases Bool.or_eq_true_iff.mp h with h | h
    · rw [of_decide_eq_true h]
      rfl
    · rw [of_decide_eq_true h]
      rfl
  lineFeed := rfl

section Gap

variable {p : Char → Bool} {rest : List Char}

theorem takeWhile_blanks (hp : IsBlankTest p) (hrest : rest.head?.all (!p ·)) (n : Nat) :
    (List.replicate n ' ' ++ rest).takeWhile p = List.replicate n ' ' := by
  have hspaces : ∀ c ∈ List.replicate n ' ', p c = true := by
    intro c hc
    rw [List.eq_of_mem_replicate hc, hp.space]
  have hstop : rest.takeWhile p = [] := by
    cases rest with
    | nil => rfl
    | cons c rest =>
      have hc : p c = false := by simpa using hrest
      simp [hc]
  rw [List.takeWhile_append_of_pos hspaces, hstop, List.append_nil]

theorem not_blank_of_isSolid (hp : IsBlankTest p) (hrest : IsSolid rest) : rest.head?.all (!p ·) := by
  cases rest with
  | nil => rfl
  | cons c rest =>
    have hgap := isSolid_cons.mp hrest
    have hc : p c = false := by
      cases h : p c with
      | false => rfl
      | true => rw [hp.gap c h] at hgap; cases hgap
    simp [hc]

/-- Spaces before something else are kept. -/
theorem gap_spaces (hp : IsBlankTest p) (hrest : IsSolid rest) (n line column : Nat) :
    gap p ⟨List.replicate n ' ' ++ rest, line, column⟩ = (List.replicate n ' ', ⟨rest, line, column + n⟩) := by
  have hblanks := takeWhile_blanks hp (not_blank_of_isSolid hp hrest) n
  have hdrop : (List.replicate n ' ' ++ rest).drop n = rest := List.drop_left' List.length_replicate
  simp only [gap, Cursor.advance, hblanks, List.length_replicate, hdrop]
  cases rest with
  | nil => rfl
  | cons c rest =>
    have hbreak : isBreak c = false := by
      have hgap := isSolid_cons.mp hrest
      simp only [isGap, Bool.or_eq_false_iff] at hgap
      exact hgap.2
    simp only [hbreak, Bool.false_eq_true, if_false]

/-- Blanks at the start of a line are skipped. -/
theorem foldBreaks_spaces (hp : IsBlankTest p) (hrest : IsSolid rest) (k line column : Nat) :
    foldBreaks p line column (List.replicate k ' ' ++ rest) = ([], ⟨rest, line, column + k⟩) := by
  induction k generalizing column with
  | zero =>
    rw [List.replicate_zero, List.nil_append, Nat.add_zero]
    cases rest with
    | nil => rfl
    | cons c rest =>
      have hblank := not_blank_of_isSolid hp hrest
      have hgap := isSolid_cons.mp hrest
      simp only [isGap, Bool.or_eq_false_iff] at hgap
      simp only [List.head?_cons, Option.all_some, Bool.not_eq_true'] at hblank
      rw [foldBreaks, hgap.2, hblank]
      rfl
  | succ k ih =>
    have hspace : isBreak ' ' = false := rfl
    rw [List.replicate_succ, List.cons_append, foldBreaks, hspace, hp.space, if_neg Bool.false_ne_true, if_pos rfl,
      ih, Nat.add_assoc, Nat.add_comm 1 k]

/-- Line feeds, and the spaces behind the last of them, are skipped and counted. -/
theorem foldBreaks_lineFeeds (hp : IsBlankTest p) (hrest : IsSolid rest) (n k line column : Nat) :
    foldBreaks p line column (List.replicate (n + 1) '\n' ++ (List.replicate k ' ' ++ rest))
      = (List.replicate (n + 1) '\n', ⟨rest, line + (n + 1), k⟩) := by
  induction n generalizing line column with
  | zero =>
    rw [List.replicate_one, List.singleton_append, foldBreaks, isBreak_lineFeed, if_pos rfl,
      foldBreaks_spaces hp hrest, Nat.zero_add]
    rfl
  | succ n ih =>
    rw [List.replicate_succ, List.cons_append, foldBreaks, isBreak_lineFeed, if_pos rfl, ih, Nat.add_assoc,
      Nat.add_comm 1 (n + 1)]
    rfl

/-- **One line feed becomes a space, and of several the first is dropped** (`joinLines`); the spaces behind them do not
count. -/
theorem gap_lineFeeds (hp : IsBlankTest p) (hrest : IsSolid rest) (n k line column : Nat) :
    gap p ⟨List.replicate (n + 1) '\n' ++ (List.replicate k ' ' ++ rest), line, column⟩
      = (joinLines (List.replicate (n + 1) '\n'), ⟨rest, line + (n + 1), k⟩) := by
  have hnone : (List.replicate (n + 1) '\n' ++ (List.replicate k ' ' ++ rest)).takeWhile p = [] := by
    rw [List.replicate_succ, List.cons_append, List.takeWhile_cons, hp.lineFeed]
    rfl
  have hfold := foldBreaks_lineFeeds hp hrest n k line column
  rw [List.replicate_succ, List.cons_append] at hnone hfold ⊢
  simp only [gap, Cursor.advance, hnone, List.length_nil, List.drop_zero, Nat.add_zero, isBreak_lineFeed, if_true,
    hfold]

/-- **A line end is read as a space** if the next line goes on with the text. -/
theorem gap_fold (hp : IsBlankTest p) (hrest : IsSolid rest) (line column : Nat) :
    gap p ⟨'\n' :: (indentation ++ rest), line, column⟩ = ([' '], ⟨rest, line + 1, margin⟩) :=
  gap_lineFeeds hp hrest 0 margin line column

end Gap

/-! ### Gaps between tokens -/

section Settle

variable {rest : List Char}

/-- At a token that is no comment there is nothing to skip. -/
theorem settle_of_isSolid (hrest : IsSolid rest) (hcomment : rest.head? ≠ some '#') (line column : Nat) :
    Cursor.settle ⟨rest, line, column⟩ = ⟨rest, line, column⟩ := by
  cases rest with
  | nil => rfl
  | cons c rest =>
    have hgap := isSolid_cons.mp hrest
    simp only [isGap, Bool.or_eq_false_iff, beq_eq_false_iff_ne] at hgap
    have hsharp : c ≠ '#' := fun h => hcomment (congrArg some h)
    simp only [Cursor.settle, Cursor.settleFrom, hgap.2, hgap.1.1, hsharp, Bool.false_eq_true, if_false]

/-- Spaces between tokens are skipped. -/
theorem settle_spaces (k line column : Nat) :
    Cursor.settle ⟨List.replicate k ' ' ++ rest, line, column⟩ = Cursor.settle ⟨rest, line, column + k⟩ := by
  induction k generalizing column with
  | zero => rfl
  | succ k ih =>
    have hspace : Cursor.settle ⟨' ' :: (List.replicate k ' ' ++ rest), line, column⟩
        = Cursor.settle ⟨List.replicate k ' ' ++ rest, line, column + 1⟩ := rfl
    rw [List.replicate_succ, List.cons_append, hspace, ih, Nat.add_assoc, Nat.add_comm 1 k]

/-- A line feed between tokens is skipped. -/
theorem settle_lineFeed (line column : Nat) :
    Cursor.settle ⟨'\n' :: rest, line, column⟩ = Cursor.settle ⟨rest, line + 1, 0⟩ := rfl

theorem settleFrom_comment {comment : List Char} (h : ∀ c ∈ comment, isVisible c = true) (line column : Nat) :
    Cursor.settleFrom true line column (comment ++ '\n' :: rest) = Cursor.settle ⟨rest, line + 1, 0⟩ := by
  induction comment generalizing column with
  | nil => rfl
  | cons c comment ih =>
    obtain ⟨hc, hcomment⟩ := List.forall_mem_cons.mp h
    rw [List.cons_append, Cursor.settleFrom, isBreak_of_isVisible hc, if_neg Bool.false_ne_true, if_pos rfl,
      ih hcomment]

/-- A comment is skipped up to the end of its line. -/
theorem settle_comment {comment : List Char} (h : ∀ c ∈ comment, isVisible c = true) (line column : Nat) :
    Cursor.settle ⟨'#' :: (comment ++ '\n' :: rest), line, column⟩ = Cursor.settle ⟨rest, line + 1, 0⟩ :=
  settleFrom_comment h line (column + 1)

end Settle

/-! ### Tidy texts -/

/-- Printable ASCII and line feeds, in lines that do not begin like a document mark. `lineStart` tells whether the
text starts a line. -/
def IsTidy (lineStart : Bool) : List Char → Prop
  | [] => True
  | c :: rest =>
    (isVisible c = true ∨ c = '\n') ∧ (lineStart = true → c ≠ '-' ∧ c ≠ '.') ∧ IsTidy (c == '\n') rest

instance instDecidableIsTidy (lineStart : Bool) : (cs : List Char) → Decidable (IsTidy lineStart cs)
  | [] => isTrue trivial
  | c :: rest =>
    have : Decidable (IsTidy (c == '\n') rest) := instDecidableIsTidy (c == '\n') rest
    inferInstanceAs (Decidable (_ ∧ _ ∧ _))

section IsTidy

variable {lineStart : Bool} {cs more : List Char} {c : Char}

theorem IsTidy.inLine (h : IsTidy true cs) : IsTidy lineStart cs := by
  cases cs with
  | nil => trivial
  | cons c rest => exact ⟨h.1, fun _ => h.2.1 rfl, h.2.2⟩

/-- One tidy text behind another is tidy, if it could start a line. -/
theorem IsTidy.append (h : IsTidy lineStart cs) (hmore : IsTidy true more) : IsTidy lineStart (cs ++ more) := by
  induction cs generalizing lineStart with
  | nil => exact hmore.inLine
  | cons c rest ih => exact ⟨h.1, h.2.1, ih h.2.2⟩

/-- A visible character in the middle of a line. -/
theorem IsTidy.cons (hc : isVisible c = true) (h : IsTidy false cs) : IsTidy false (c :: cs) := by
  have hfeed : (c == '\n') = false := beq_eq_false_iff_ne.mpr (ne_lineFeed_of_isVisible hc)
  refine ⟨.inl hc, nofun, ?_⟩
  rw [hfeed]
  exact h

/-- A visible character at the start of a line, if it does not begin a document mark. -/
theorem IsTidy.consLine (hc : isVisible c = true) (hmark : c ≠ '-' ∧ c ≠ '.') (h : IsTidy false cs) :
    IsTidy true (c :: cs) :=
  ⟨.inl hc, fun _ => hmark, (h.cons hc).2.2⟩

/-- Visible characters in the middle of a line. -/
theorem IsTidy.append_visible {front : List Char} (hfront : ∀ c ∈ front, isVisible c = true)
    (h : IsTidy false cs) : IsTidy false (front ++ cs) := by
  induction front with
  | nil => exact h
  | cons c front ih =>
    obtain ⟨hc, hfront⟩ := List.forall_mem_cons.mp hfront
    exact (ih hfront).cons hc

/-- A line feed. -/
theorem IsTidy.lineFeed (h : IsTidy true cs) : IsTidy true ('\n' :: cs) :=
  ⟨.inr rfl, fun _ => by decide, h⟩

theorem IsTidy.lineFeeds (h : IsTidy true cs) (n : Nat) : IsTidy true (List.replicate n '\n' ++ cs) := by
  induction n with
  | zero => exact h
  | succ n ih => exact ih.lineFeed

theorem IsTidy.indented (h : IsTidy false cs) : IsTidy true (indentation ++ cs) :=
  have hspaces : [' ', ' ', ' '].all isVisible = true := rfl
  .consLine rfl (by decide) (.append_visible (List.all_eq_true.mp hspaces) h)

theorem IsTidy.visible_or_lineFeed (h : IsTidy lineStart cs) (hc : c ∈ cs) : isVisible c = true ∨ c = '\n' := by
  induction cs generalizing lineStart with
  | nil => cases hc
  | cons d rest ih =>
    rcases List.mem_cons.mp hc with rfl | hc
    · exact h.1
    · exact ih h.2.2 hc

/-- There is no document mark in a tidy text. -/
theorem IsTidy.cutAtMark_eq (h : IsTidy lineStart cs) : cutAtMark lineStart cs = (cs, none) := by
  induction cs generalizing lineStart with
  | nil => rfl
  | cons c rest ih =>
    obtain ⟨hc, hstart, hrest⟩ := h
    have hbreak : isBreak c = (c == '\n') := by
      rcases hc with hc | rfl
      · rw [isBreak_of_isVisible hc, beq_eq_false_iff_ne.mpr (ne_lineFeed_of_isVisible hc)]
      · rfl
    have hmark : (if lineStart then mark? (c :: rest) else none) = none := by
      split
      next hline =>
        obtain ⟨hdash, hdot⟩ := hstart hline
        unfold mark?
        split
        · next heq => exact absurd (List.cons.inj heq).1 hdash
        · next heq => exact absurd (List.cons.inj heq).1 hdot
        · rfl
      next => rfl
    rw [cutAtMark, hmark, hbreak, ih hrest]

theorem IsTidy.all_isAllowed (h : IsTidy lineStart cs) : cs.all isAllowed = true := by
  rw [List.all_eq_true]
  intro c hc
  rcases h.visible_or_lineFeed hc with hc | rfl
  · exact isAllowed_of_isVisible hc
  · rfl

/-- A tidy text has no other line ends than line feeds. -/
theorem IsTidy.not_mem_return (h : IsTidy lineStart cs) : '\r' ∉ cs := by
  intro hc
  rcases h.visible_or_lineFeed hc with hc | hc
  · cases hc
  · cases hc

/-- **A tidy text is one document.** -/
theorem parse_of_isTidy (h : IsTidy true cs) : parse cs = document false cs := by
  have horder : dropOrderMark cs = cs := by
    unfold dropOrderMark
    split
    next rest =>
      rcases h.1 with hc | hc
      · cases hc
      · cases hc
    next => rfl
  rw [parse, h.all_isAllowed, horder, h.cutAtMark_eq]
  rfl

end IsTidy

end Pinpoint.Yaml
