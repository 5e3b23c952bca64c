import Mathlib.Tactic.Ring
import Pinpoint.Proofs.Yaml.Folding

/-!
# Texts between quotes

What may stand between two quotes is said by `QuotedText`, which relates a text to the ways of writing it: characters
as they are, a single quote doubled, gaps, and between double quotes escapes and line ends that are taken back. The
reader undoes each of them (`quotedRest_quotedText`), and what the writer puts between quotes is always such a text:
between single quotes for a text that is visible but for line feeds away from spaces (`quotedText_folded`), between
double quotes for any text (`quotedText_escaped`).
-/

namespace Pinpoint.Yaml

open Writer (isVisible indentation margin folded double hasEdge continuation escaped)

variable {q c : Char} {cs ws rest done : List Char} {fuel line column : Nat}

/-- What stands behind a backslash for a character: a letter, or a letter and hexadecimal digits. -/
inductive Escapes (c : Char) : List Char → Prop
  | letter {e : Char} (visible : isVisible e = true) (stands : escaped? e = some c) : Escapes c [e]
  | digits {e : Char} {ds : List Char} {code : Nat} (notLetter : escaped? e = none)
      (width : escapeWidth? e = some ds.length) (visible : ∀ d ∈ e :: ds, isVisible d = true)
      (number : hexNumber? ds = some code) (char : charOf code = .ok c) : Escapes c (e :: ds)

/-- A text and how it may be written between quotes `q`. -/
inductive QuotedText (q : Char) : List Char → List Char → Prop
  | nil : QuotedText q [] []
  | char {c : Char} {cs ws : List Char} (visible : isVisible c = true) (noSpace : c ≠ ' ') (noQuote : c ≠ q)
      (noEscape : ¬(c = '\\' ∧ q = '"')) (more : QuotedText q cs ws) : QuotedText q (c :: cs) (c :: ws)
  | quote {cs ws : List Char} (single : q = '\'') (more : QuotedText q cs ws) :
      QuotedText q ('\'' :: cs) ('\'' :: '\'' :: ws)
  | spaces {cs ws : List Char} (n : Nat) (solid : IsSolid ws) (more : QuotedText q cs ws) :
      QuotedText q (List.replicate (n + 1) ' ' ++ cs) (List.replicate (n + 1) ' ' ++ ws)
  | fold {cs ws : List Char} (solid : IsSolid ws) (more : QuotedText q cs ws) :
      QuotedText q (' ' :: cs) ('\n' :: (indentation ++ ws))
  | lineFeeds {cs ws : List Char} (n : Nat) (solid : IsSolid ws) (more : QuotedText q cs ws) :
      QuotedText q (List.replicate (n + 1) '\n' ++ cs) (List.replicate (n + 2) '\n' ++ (indentation ++ ws))
  | escape {c : Char} {cs ws written : List Char} (two : q = '"') (escapes : Escapes c written)
      (more : QuotedText q cs ws) : QuotedText q (c :: cs) ('\\' :: (written ++ ws))
  | continued {cs ws : List Char} (two : q = '"') (solid : IsSolid ws) (more : QuotedText q cs ws) :
      QuotedText q cs (continuation ++ ws)

/-- One of the two quotes. -/
def IsQuote (q : Char) : Prop := q = '\'' ∨ q = '"'

theorem IsQuote.visible (hq : IsQuote q) : isVisible q = true := by
  rcases hq with rfl | rfl <;> rfl

theorem IsQuote.not_isGap (hq : IsQuote q) : isGap q = false := by
  rcases hq with rfl | rfl <;> rfl

theorem IsQuote.isSolid_append (hq : IsQuote q) (h : IsSolid ws) : IsSolid (ws ++ q :: rest) := by
  cases ws with
  | nil => exact isSolid_cons.mpr hq.not_isGap
  | cons c ws => exact isSolid_cons.mpr (isSolid_cons.mp h)

/-! ### Reading -/

section Reading

/-- A character that means itself. -/
theorem quotedRest_char (hgap : isGap c = false) (hquote : c ≠ q) (hescape : ¬(c = '\\' ∧ q = '"')) :
    quotedRest (fuel + 1) q done ⟨c :: rest, line, column⟩
      = quotedRest fuel q (done ++ [c]) ⟨rest, line, column + 1⟩ := by
  rw [quotedRest]
  simp only [if_neg hquote, hgap, Bool.false_eq_true, if_false, if_neg hescape]
  rfl

/-- A gap. -/
theorem quotedRest_gap (hq : IsQuote q) (hgap : isGap c = true) {text : List Char} {next : Cursor}
    (h : gap (fun e => e = ' ' || e = '\t') ⟨c :: rest, line, column⟩ = (text, next)) :
    quotedRest (fuel + 1) q done ⟨c :: rest, line, column⟩ = quotedRest fuel q (done ++ text) next := by
  have hquote : c ≠ q := by
    rintro rfl
    rw [hq.not_isGap] at hgap
    cases hgap
  rw [quotedRest]
  simp only [if_neg hquote, hgap, if_true, h]

/-- A quote that is doubled. -/
theorem quotedRest_doubled :
    quotedRest (fuel + 1) '\'' done ⟨'\'' :: '\'' :: rest, line, column⟩
      = quotedRest fuel '\'' (done ++ ['\'']) ⟨rest, line, column + 2⟩ := by
  rw [quotedRest]
  rfl

/-- The closing quote. -/
theorem quotedRest_close (hnext : q = '\'' → rest.head? ≠ some '\'') :
    quotedRest (fuel + 1) q done ⟨q :: rest, line, column⟩
      = .ok (.str (String.ofList done), ⟨rest, line, column + 1⟩) := by
  have hsingle : ¬(q = '\'' ∧ rest.head? = some '\'') := fun h => hnext h.1 h.2
  rw [quotedRest]
  simp only [if_true, if_neg hsingle]
  rfl

/-- An escape. -/
theorem quotedRest_escape {written : List Char} (h : Escapes c written) :
    quotedRest (fuel + 1) '"' done ⟨'\\' :: (written ++ rest), line, column⟩
      = quotedRest fuel '"' (done ++ [c]) ⟨rest, line, column + (written.length + 1)⟩ := by
  have hquote : ('\\' : Char) ≠ '"' := by decide
  have hgap : isGap '\\' = false := rfl
  cases h with
  | @letter e hvisible hstands =>
    rw [quotedRest]
    simp only [if_neg hquote, hgap, Bool.false_eq_true, if_false, and_self, if_true, List.singleton_append,
      isBreak_of_isVisible hvisible, hstands]
    rfl
  | @digits e ds code hletter hwidth hvisible hnumber hchar =>
    have hbreak := isBreak_of_isVisible (hvisible e List.mem_cons_self)
    have hlength : ¬ (ds ++ rest).length < ds.length := by
      rw [List.length_append]
      omega
    have htake : (ds ++ rest).take ds.length = ds := List.take_left
    have hdrop : ('\\' :: e :: (ds ++ rest)).drop (ds.length + 2) = rest := List.drop_left
    rw [quotedRest]
    simp only [if_neg hquote, hgap, Bool.false_eq_true, if_false, and_self, if_true, List.cons_append, hbreak,
      hletter, hwidth, if_neg hlength, htake, hnumber, hchar, Cursor.advance, hdrop]
    rfl

/-- A line end that is taken back. -/
theorem quotedRest_continuation (h : IsSolid rest) :
    quotedRest (fuel + 1) '"' done ⟨continuation ++ rest, line, column⟩
      = quotedRest fuel '"' done ⟨rest, line + 1, margin⟩ := by
  have hquote : ('\\' : Char) ≠ '"' := by decide
  have hgap : isGap '\\' = false := rfl
  have hfold := foldBreaks_lineFeeds isBlankTest_spaceOrTab h 0 margin line column
  have hcontinuation : continuation ++ rest
      = '\\' :: '\n' :: (List.replicate margin ' ' ++ rest) := rfl
  rw [List.replicate_one, List.singleton_append] at hfold
  rw [hcontinuation, quotedRest]
  simp only [if_neg hquote, hgap, Bool.false_eq_true, if_false, and_self, if_true, isBreak_lineFeed, hfold]
  simp

/-- **Between quotes every way of writing a text is undone.** -/
theorem quotedRest_quotedText (hq : IsQuote q) (h : QuotedText q cs ws)
    (hnext : q = '\'' → rest.head? ≠ some '\'') (hfuel : ws.length < fuel) (done : List Char) (line column : Nat) :
    ∃ line' column', quotedRest fuel q done ⟨ws ++ q :: rest, line, column⟩
      = .ok (.str (String.ofList (done ++ cs)), ⟨rest, line', column'⟩) := by
  induction h generalizing fuel done line column with
  | nil =>
    obtain ⟨fuel, rfl⟩ : ∃ f, fuel = f + 1 := ⟨fuel - 1, by omega⟩
    rw [List.append_nil]
    exact ⟨line, column + 1, quotedRest_close hnext⟩
  | @char c cs ws hvisible hspace hquote hescape hmore ih =>
    obtain ⟨fuel, rfl, hless⟩ := exists_fuel hfuel (Nat.lt_succ_self (ws.length + 1))
    obtain ⟨line', column', hread⟩ := ih hless (done ++ [c]) line (column + 1)
    refine ⟨line', column', ?_⟩
    rw [List.cons_append, quotedRest_char (isGap_of_isVisible hvisible hspace) hquote hescape, hread,
      List.append_assoc, List.singleton_append]
  | @quote cs ws hsingle hmore ih =>
    subst hsingle
    have hshorter : ws.length + 1 < ('\'' :: '\'' :: ws).length + 1 := by simp
    obtain ⟨fuel, rfl, hless⟩ := exists_fuel hfuel hshorter
    obtain ⟨line', column', hread⟩ := ih hless (done ++ ['\'']) line (column + 2)
    refine ⟨line', column', ?_⟩
    rw [List.cons_append, List.cons_append, quotedRest_doubled, hread, List.append_assoc, List.singleton_append]
  | @spaces cs ws n hsolid hmore ih =>
    have hshorter : ws.length + 1 < (List.replicate (n + 1) ' ' ++ ws).length + 1 := by simp
    obtain ⟨fuel, rfl, hless⟩ := exists_fuel hfuel hshorter
    have hsolid' : IsSolid (ws ++ q :: rest) := hq.isSolid_append hsolid
    obtain ⟨line', column', hread⟩ := ih hless (done ++ List.replicate (n + 1) ' ') line (column + (n + 1))
    refine ⟨line', column', ?_⟩
    rw [List.append_assoc]
    have hgap := gap_spaces isBlankTest_spaceOrTab hsolid' (n + 1) line column
    rw [List.replicate_succ, List.cons_append] at hgap ⊢
    rw [quotedRest_gap hq rfl hgap, ← List.replicate_succ, hread, List.append_assoc]
  | @fold cs ws hsolid hmore ih =>
    have hshorter : ws.length + 1 < ('\n' :: (indentation ++ ws)).length + 1 := by
      simp only [List.length_cons, List.length_append]
      omega
    obtain ⟨fuel, rfl, hless⟩ := exists_fuel hfuel hshorter
    have hsolid' : IsSolid (ws ++ q :: rest) := hq.isSolid_append hsolid
    obtain ⟨line', column', hread⟩ := ih hless (done ++ [' ']) (line + 1) margin
    refine ⟨line', column', ?_⟩
    rw [List.cons_append, List.append_assoc,
      quotedRest_gap hq rfl (gap_fold isBlankTest_spaceOrTab hsolid' line column), hread, List.append_assoc,
      List.singleton_append]
  | @lineFeeds cs ws n hsolid hmore ih =>
    have hshorter : ws.length + 1 < (List.replicate (n + 2) '\n' ++ (indentation ++ ws)).length + 1 := by
      simp only [List.length_append, List.length_replicate]
      omega
    obtain ⟨fuel, rfl, hless⟩ := exists_fuel hfuel hshorter
    have hsolid' : IsSolid (ws ++ q :: rest) := hq.isSolid_append hsolid
    obtain ⟨line', column', hread⟩ := ih hless (done ++ List.replicate (n + 1) '\n') (line + (n + 2)) margin
    refine ⟨line', column', ?_⟩
    -- of the line feeds that stand there, the first is the one too many
    have hgap : gap (fun e => e = ' ' || e = '\t')
        ⟨'\n' :: (List.replicate (n + 1) '\n' ++ (indentation ++ (ws ++ q :: rest))), line, column⟩
        = (List.replicate (n + 1) '\n', ⟨ws ++ q :: rest, line + (n + 2), margin⟩) :=
      gap_lineFeeds isBlankTest_spaceOrTab hsolid' (n + 1) margin line column
    rw [List.append_assoc, List.append_assoc, List.replicate_succ, List.cons_append, quotedRest_gap hq rfl hgap,
      hread, List.append_assoc]
  | @escape c cs ws written htwo hescapes hmore ih =>
    subst htwo
    have hshorter : ws.length + 1 < ('\\' :: (written ++ ws)).length + 1 := by
      simp only [List.length_cons, List.length_append]
      omega
    obtain ⟨fuel, rfl, hless⟩ := exists_fuel hfuel hshorter
    obtain ⟨line', column', hread⟩ := ih hless (done ++ [c]) line (column + (written.length + 1))
    refine ⟨line', column', ?_⟩
    rw [List.cons_append, List.append_assoc, quotedRest_escape hescapes, hread, List.append_assoc,
      List.singleton_append]
  | @continued cs ws htwo hsolid hmore ih =>
    subst htwo
    have hshorter : ws.length + 1 < (continuation ++ ws).length + 1 := by
      simp only [continuation, List.length_append, List.length_cons]
      omega
    obtain ⟨fuel, rfl, hless⟩ := exists_fuel hfuel hshorter
    obtain ⟨line', column', hread⟩ := ih hless done (line + 1) margin
    refine ⟨line', column', ?_⟩
    rw [List.append_assoc, quotedRest_continuation (hq.isSolid_append hsolid), hread]

/-- A scalar between quotes is read back. -/
theorem quoted_quotedText (hq : IsQuote q) (h : QuotedText q cs ws) (hnext : q = '\'' → rest.head? ≠ some '\'')
    (line column : Nat) : ∃ line' column', quoted q ⟨q :: (ws ++ q :: rest), line, column⟩
      = .ok (.str (String.ofList cs), ⟨rest, line', column'⟩) := by
  have hfuel : ws.length < (q :: (ws ++ q :: rest)).length + 1 := by
    rw [List.length_cons, List.length_append]
    omega
  exact quotedRest_quotedText hq h hnext hfuel [] line (column + 1)

end Reading

/-! ### Writing between single quotes -/

theorem Escapes.visible {written : List Char} (h : Escapes c written) : ∀ d ∈ written, isVisible d = true := by
  cases h with
  | letter hvisible _ => simpa using hvisible
  | digits _ _ hvisible _ _ => exact hvisible

theorem Escapes.ne_nil {written : List Char} (h : Escapes c written) : written ≠ [] := by
  cases h with
  | letter _ _ => exact List.cons_ne_nil _ _
  | digits _ _ _ _ _ => exact List.cons_ne_nil _ _

theorem QuotedText.isTidy (h : QuotedText q cs ws) : IsTidy false ws := by
  induction h with
  | nil => trivial
  | char hvisible _ _ _ _ ih => exact ih.cons hvisible
  | quote _ _ ih => exact (ih.cons rfl).cons rfl
  | spaces n _ _ ih =>
    refine .append_visible (fun c hc => ?_) ih
    rw [List.eq_of_mem_replicate hc]
    rfl
  | fold _ _ ih => exact ih.indented.lineFeed.inLine
  | lineFeeds n _ _ ih => exact (ih.indented.lineFeeds (n + 2)).inLine
  | escape _ hescapes _ ih => exact .cons rfl (.append_visible hescapes.visible ih)
  | continued _ _ _ ih => exact .cons rfl ih.indented.lineFeed.inLine

/-- A text without a line feed beside a space has none in its parts. -/
theorem hasEdge_of_append {front : List Char} (h : hasEdge (front ++ cs) = false) : hasEdge cs = false := by
  induction front with
  | nil => exact h
  | cons c front ih =>
    refine ih ?_
    rw [List.cons_append] at h
    cases hrest : front ++ cs with
    | nil => rfl
    | cons d rest =>
      rw [hrest, hasEdge, Bool.or_eq_false_iff] at h
      exact h.2

/-- What may stand between single quotes. -/
structure IsSingle (cs : List Char) : Prop where
  visible : ∀ c ∈ cs, isVisible c = true ∨ c = '\n'
  edges : hasEdge cs = false

theorem IsSingle.of_append {front : List Char} (h : IsSingle (front ++ cs)) : IsSingle cs :=
  ⟨fun c hc => h.visible c (List.mem_append_right front hc), hasEdge_of_append h.edges⟩

theorem isSingle_of_isQuotable (h : Writer.isQuotable cs = true) : IsSingle cs := by
  simp only [Writer.isQuotable, Bool.and_eq_true, List.all_eq_true, Bool.or_eq_true, beq_iff_eq,
    Bool.not_eq_true'] at h
  exact ⟨h.1, h.2⟩

/-- Behind a run of spaces there is no line feed, and behind line feeds there is no space. -/
theorem IsSingle.head?_ne {n : Nat} {d : Char} (h : IsSingle (List.replicate (n + 1) c ++ cs))
    (hedge : (c = ' ' ∧ d = '\n') ∨ (c = '\n' ∧ d = ' ')) : cs.head? ≠ some d := by
  intro hd
  cases cs with
  | nil => cases hd
  | cons e cs =>
    obtain rfl := Option.some.inj hd
    have hedges := h.edges
    rw [List.replicate_succ', List.append_assoc] at hedges
    have htwo := hasEdge_of_append hedges
    rcases hedge with ⟨rfl, rfl⟩ | ⟨rfl, rfl⟩ <;> cases htwo

/-- A character that is neither a space nor a line feed is written without a gap before it. -/
theorem isSolid_folded (h : IsSingle cs) (hspace : cs.head? ≠ some ' ') (hfeed : cs.head? ≠ some '\n')
    (column : Nat) (before : Option Char) : IsSolid (folded double column before cs) := by
  cases cs with
  | nil => exact isSolid_nil
  | cons c cs =>
    have hc : c ≠ ' ' := fun hc => hspace (congrArg some hc)
    have hc' : c ≠ '\n' := fun hc => hfeed (congrArg some hc)
    have hvisible : isVisible c = true := (h.visible c List.mem_cons_self).resolve_right hc'
    rw [Writer.folded_cons hc hc']
    unfold double
    split
    · exact isSolid_cons.mpr rfl
    · exact isSolid_cons.mpr (isGap_of_isVisible hvisible hc)

/-- **Between single quotes:** every text that may stand there is written as one that is read back. -/
theorem quotedText_folded (h : IsSingle cs) (column : Nat) {before : Option Char}
    (hbefore : cs.head? = some '\n' → before ≠ some '\n') :
    QuotedText '\'' cs (folded double column before cs) := by
  induction hlength : cs.length using Nat.strongRecOn generalizing cs column before with
  | ind length ih =>
    subst hlength
    cases cs with
    | nil => exact .nil
    | cons c cs =>
      obtain ⟨n, rest, hrun, hrest⟩ := Writer.exists_run c cs
      have hshorter : rest.length < (c :: cs).length := by
        rw [hrun, List.length_append, List.length_replicate]
        omega
      by_cases hspace : c = ' '
      · subst hspace
        rw [hrun] at h hbefore ⊢
        have hfeed : rest.head? ≠ some '\n' := h.head?_ne (.inl ⟨rfl, rfl⟩)
        have hsolid := isSolid_folded h.of_append hrest hfeed
        have hmore (column : Nat) : QuotedText '\'' rest (folded double column (some ' ') rest) :=
          ih rest.length hshorter h.of_append column (fun h => absurd h hfeed) rfl
        rcases Writer.folded_spaces double column before n rest with hspaces | ⟨rfl, hfold⟩
        · rw [hspaces]
          exact .spaces n (hsolid _ _) (hmore _)
        · rw [hfold]
          exact .fold (hsolid _ _) (hmore _)
      · by_cases hfeed : c = '\n'
        · subst hfeed
          have hfirst : before ≠ some '\n' := hbefore rfl
          rw [hrun] at h ⊢
          have hnospace : rest.head? ≠ some ' ' := h.head?_ne (.inr ⟨rfl, rfl⟩)
          rw [Writer.folded_lineFeeds double column n hrest hfirst]
          exact .lineFeeds n (isSolid_folded h.of_append hnospace hrest _ _)
            (ih rest.length hshorter h.of_append margin (fun h => absurd h hrest) rfl)
        · have hmore : QuotedText '\'' cs
              (folded double (column + (double c).length) (some c) cs) := by
            have htail : IsSingle ([c] ++ cs) := h
            refine ih cs.length (Nat.lt_succ_self _) htail.of_append _ ?_ rfl
            exact fun _ hc => hfeed (Option.some.inj hc)
          have hvisible : isVisible c = true := (h.visible c List.mem_cons_self).resolve_right hfeed
          rw [Writer.folded_cons hspace hfeed]
          generalize folded double (column + (double c).length) (some c) cs = ws at hmore
          unfold double
          split
          next hquote =>
            subst hquote
            exact .quote rfl hmore
          next hquote => exact .char hvisible hspace hquote (fun h => absurd h.2 (by decide)) hmore

/-! ### Escapes -/

theorem hexDigit_spec : ∀ d < 16, isVisible (Text.hexDigit d).toUpper = true ∧
    Text.hexValue? (Text.hexDigit d).toUpper = some d := by
  decide

/-- One more digit stands behind the others. -/
theorem hexDigits_succ (k n : Nat) :
    Writer.hexDigits (k + 1) n = Writer.hexDigits k (n / 16) ++ [(Text.hexDigit (n % 16)).toUpper] := by
  rw [Writer.hexDigits, Text.hexDigits, List.map_append]
  rfl

theorem length_hexDigits (k n : Nat) : (Writer.hexDigits k n).length = k := by
  induction k generalizing n with
  | zero => rfl
  | succ k ih => rw [hexDigits_succ, List.length_append, ih, List.length_singleton]

theorem exists_of_mem_hexDigits {k n : Nat} (h : c ∈ Writer.hexDigits k n) :
    ∃ d < 16, c = (Text.hexDigit d).toUpper := by
  induction k generalizing n with
  | zero => cases h
  | succ k ih =>
    rw [hexDigits_succ, List.mem_append, List.mem_singleton] at h
    rcases h with h | rfl
    · exact ih h
    · exact ⟨n % 16, Nat.mod_lt n (by decide), rfl⟩

theorem foldl_hexDigits {k n : Nat} (h : n < 16 ^ k) :
    (Writer.hexDigits k n).foldl (fun m c => 16 * m + (Text.hexValue? c).getD 0) 0 = n := by
  induction k generalizing n with
  | zero =>
    rw [Nat.pow_zero, Nat.lt_one_iff] at h
    rw [h]
    rfl
  | succ k ih =>
    have hless : n / 16 < 16 ^ k := by
      rw [Nat.div_lt_iff_lt_mul (by decide), ← Nat.pow_succ]
      exact h
    have hdigit := (hexDigit_spec (n % 16) (Nat.mod_lt n (by decide))).2
    rw [hexDigits_succ, List.foldl_append, ih hless, List.foldl_cons, List.foldl_nil, hdigit, Option.getD_some,
      Nat.div_add_mod]

/-- **Hexadecimal digits** say the number that they were written for. -/
theorem hexNumber?_hexDigits {k n : Nat} (h : n < 16 ^ (k + 1)) :
    hexNumber? (Writer.hexDigits (k + 1) n) = some n := by
  have hdigits : (Writer.hexDigits (k + 1) n).all (fun c => (Text.hexValue? c).isSome) = true := by
    rw [List.all_eq_true]
    intro c hc
    obtain ⟨d, hd, rfl⟩ := exists_of_mem_hexDigits hc
    rw [(hexDigit_spec d hd).2]
    rfl
  have hsome : (Writer.hexDigits (k + 1) n).isEmpty = false := by
    rw [hexDigits_succ]
    simp
  rw [hexNumber?, if_pos hdigits, Scalar.inBase, hsome, foldl_hexDigits h]
  rfl

theorem charOf_toNat (c : Char) : charOf c.toNat = .ok c := by
  have hrange : c.toNat < 0xD800 ∨ (0xDFFF < c.toNat ∧ c.toNat < 0x110000) := c.valid
  rw [charOf, if_neg (by omega), if_neg (by omega), Char.ofNat_toNat]

/-- A letter behind a backslash stands for the character it is written for. -/
theorem escapes_letter {e : Char} (h : Writer.escapeLetter? c = some e) : Escapes c [e] := by
  obtain ⟨⟨n, e'⟩, hfind, rfl⟩ := Option.map_eq_some_iff.mp h
  have hcode : n = c.toNat := by simpa using List.find?_some hfind
  have hmem := List.mem_of_find?_eq_some hfind
  have hall : ∀ p ∈ [0, 7, 8, 9, 10, 11, 12, 13, 27, 34, 92, 0x85, 0xA0, 0x2028, 0x2029].zip
      "0abtnvfre\"\\N_LP".toList, isVisible p.2 = true ∧ escaped? p.2 = some (Char.ofNat p.1) := by
    decide
  obtain ⟨hvisible, hstands⟩ := hall _ hmem
  rw [hcode, Char.ofNat_toNat] at hstands
  exact .letter hvisible hstands

/-- Digits behind a letter that tells how many there are. -/
theorem escapes_digits {e : Char} {k : Nat} (hletter : escaped? e = none) (hwidth : escapeWidth? e = some (k + 1))
    (hvisible : isVisible e = true) (h : c.toNat < 16 ^ (k + 1)) :
    Escapes c (e :: Writer.hexDigits (k + 1) c.toNat) := by
  refine .digits hletter (by rw [length_hexDigits, hwidth]) (List.forall_mem_cons.mpr ⟨hvisible, fun d hd => ?_⟩)
    (hexNumber?_hexDigits h) (charOf_toNat c)
  obtain ⟨n, hn, rfl⟩ := exists_of_mem_hexDigits hd
  exact (hexDigit_spec n hn).1

/-- **A character between double quotes** stands for itself, or it is escaped. -/
theorem escape_cases (c : Char) :
    (Writer.escape c = [c] ∧ isVisible c = true ∧ c ≠ '"' ∧ c ≠ '\\') ∨
      ∃ written, Writer.escape c = '\\' :: written ∧ Escapes c written := by
  unfold Writer.escape
  split
  next e he => exact .inr ⟨[e], rfl, escapes_letter he⟩
  next hnone =>
    split
    next hvisible =>
      refine .inl ⟨rfl, hvisible, ?_, ?_⟩
      · rintro rfl
        exact absurd hnone (by decide)
      · rintro rfl
        exact absurd hnone (by decide)
    next =>
      have hrange : c.toNat < 0xD800 ∨ (0xDFFF < c.toNat ∧ c.toNat < 0x110000) := c.valid
      split
      next hsmall => exact .inr ⟨_, rfl, escapes_digits (k := 1) (by decide) rfl rfl (by omega)⟩
      next =>
        split
        next hmiddle => exact .inr ⟨_, rfl, escapes_digits (k := 3) (by decide) rfl rfl (by omega)⟩
        next => exact .inr ⟨_, rfl, escapes_digits (k := 7) (by decide) rfl rfl (by omega)⟩

/-! ### Writing between double quotes -/

/-- A space stands for itself behind a backslash, too. -/
theorem escapes_space : Escapes ' ' [' '] := .letter rfl (by decide)

/-- Spaces in front of a text that begins with something else. -/
theorem QuotedText.behind_spaces (h : QuotedText q cs ws) (hsolid : IsSolid ws) (k : Nat) :
    QuotedText q (List.replicate k ' ' ++ cs) (List.replicate k ' ' ++ ws) := by
  cases k with
  | zero => exact h
  | succ n => exact .spaces n hsolid h

/-- **A space** is written as it is, or escaped at the start of a line. -/
theorem escaped_space (column : Nat) (before : Writer.Before) (cs : List Char) : ∃ column',
    (before ≠ .lineStart ∧ escaped column before (' ' :: cs) = ' ' :: escaped column' .other cs) ∨
    escaped column before (' ' :: cs) = '\\' :: ' ' :: escaped column' .other cs ∨
    escaped column before (' ' :: cs) = continuation ++ '\\' :: ' ' :: escaped column' .other cs := by
  have hspace : Writer.escape ' ' = [' '] := by decide
  rw [escaped, if_pos hspace]
  generalize (!cs.isEmpty && (' ' == ' ' || before == .escape) && decide (Writer.width < column)) = breaks
  cases breaks with
  | true => exact ⟨_, .inr (.inr rfl)⟩
  | false =>
    by_cases hbefore : before = .lineStart
    · subst hbefore
      exact ⟨_, .inr (.inl rfl)⟩
    · refine ⟨column + 1, .inl ⟨hbefore, ?_⟩⟩
      simp [hbefore]

/-- **Another character that is not escaped** may stand at the start of a line. -/
theorem escaped_literal (hc : Writer.escape c = [c]) (hspace : c ≠ ' ') (column : Nat) (before : Writer.Before)
    (cs : List Char) : ∃ column', escaped column before (c :: cs) = c :: escaped column' .other cs ∨
      escaped column before (c :: cs) = continuation ++ c :: escaped column' .other cs := by
  rw [escaped, if_pos hc]
  generalize (!cs.isEmpty && (c == ' ' || before == .escape) && decide (Writer.width < column)) = breaks
  cases breaks with
  | true => exact ⟨margin + 1, .inr (by simp [hspace])⟩
  | false => exact ⟨column + 1, .inl (by simp [hspace])⟩

/-- **Behind a character that is escaped** a line may end. -/
theorem escaped_escape {written : List Char} (hc : Writer.escape c = '\\' :: written)
    (hescapes : Escapes c written) (column : Nat) (before : Writer.Before) (cs : List Char) :
    ∃ column', escaped column before (c :: cs) = '\\' :: (written ++ escaped column' .escape cs) ∨
      escaped column before (c :: cs) = '\\' :: (written ++ (continuation ++ escaped column' .lineStart cs)) := by
  have hne : Writer.escape c ≠ [c] := by
    rw [hc]
    exact fun h => hescapes.ne_nil (List.cons.inj h).2
  rw [escaped, if_neg hne, hc]
  dsimp only
  split
  · exact ⟨margin, .inr (List.append_assoc _ _ _)⟩
  · exact ⟨_, .inl rfl⟩

/-- At the start of a line nothing begins with a gap. -/
theorem isSolid_escaped_lineStart (column : Nat) (cs : List Char) :
    IsSolid (escaped column .lineStart cs) := by
  cases cs with
  | nil => exact isSolid_nil
  | cons c cs =>
    by_cases hspace : c = ' '
    · subst hspace
      obtain ⟨column', ⟨hne, -⟩ | h | h⟩ := escaped_space column .lineStart cs
      · exact absurd rfl hne
      · rw [h]
        exact isSolid_cons.mpr rfl
      · rw [h]
        exact isSolid_cons.mpr rfl
    · rcases escape_cases c with ⟨hc, hvisible, -, -⟩ | ⟨written, hc, hescapes⟩
      · obtain ⟨column', h | h⟩ := escaped_literal hc hspace column .lineStart cs
        · rw [h]
          exact isSolid_cons.mpr (isGap_of_isVisible hvisible hspace)
        · rw [h]
          exact isSolid_cons.mpr rfl
      · obtain ⟨column', h | h⟩ := escaped_escape hc hescapes column .lineStart cs
        · rw [h]
          exact isSolid_cons.mpr rfl
        · rw [h]
          exact isSolid_cons.mpr rfl

/-- **Between double quotes:** every text is written as one that is read back, and so it is behind any number of
spaces. -/
theorem quotedText_escaped (cs : List Char) (column : Nat) (before : Writer.Before) (k : Nat) :
    QuotedText '"' (List.replicate k ' ' ++ cs) (List.replicate k ' ' ++ escaped column before cs) := by
  -- a run of spaces is read at once, so those in front are carried along until something else comes
  induction cs generalizing column before k with
  | nil => exact QuotedText.nil.behind_spaces isSolid_nil k
  | cons c cs ih =>
    have hmore (column : Nat) (before : Writer.Before) : QuotedText '"' cs (escaped column before cs) :=
      ih column before 0
    by_cases hspace : c = ' '
    · subst hspace
      have hescape {column : Nat} : QuotedText '"' (' ' :: cs) ('\\' :: ' ' :: escaped column .other cs) :=
        .escape rfl escapes_space (hmore column .other)
      obtain ⟨column', ⟨-, h⟩ | h | h⟩ := escaped_space column before cs
      · have hrun := ih column' .other (k + 1)
        rw [List.replicate_succ', List.append_assoc, List.append_assoc] at hrun
        rw [h]
        exact hrun
      · rw [h]
        exact hescape.behind_spaces (isSolid_cons.mpr rfl) k
      · rw [h]
        exact (QuotedText.continued rfl (isSolid_cons.mpr rfl) hescape).behind_spaces (isSolid_cons.mpr rfl) k
    · rcases escape_cases c with ⟨hc, hvisible, hquote, hbackslash⟩ | ⟨written, hc, hescapes⟩
      · have hgap := isGap_of_isVisible hvisible hspace
        have hchar {column : Nat} : QuotedText '"' (c :: cs) (c :: escaped column .other cs) :=
          .char hvisible hspace hquote (fun h => hbackslash h.1) (hmore column .other)
        obtain ⟨column', h | h⟩ := escaped_literal hc hspace column before cs
        · rw [h]
          exact hchar.behind_spaces (isSolid_cons.mpr hgap) k
        · rw [h]
          exact (QuotedText.continued rfl (isSolid_cons.mpr hgap) hchar).behind_spaces (isSolid_cons.mpr rfl) k
      · obtain ⟨column', h | h⟩ := escaped_escape hc hescapes column before cs
        · rw [h]
          exact (QuotedText.escape rfl hescapes (hmore column' .escape)).behind_spaces (isSolid_cons.mpr rfl) k
        · rw [h]
          have hline := isSolid_escaped_lineStart column' cs
          exact (QuotedText.escape rfl hescapes (.continued rfl hline (hmore column' .lineStart))).behind_spaces
            (isSolid_cons.mpr rfl) k

end Pinpoint.Yaml
