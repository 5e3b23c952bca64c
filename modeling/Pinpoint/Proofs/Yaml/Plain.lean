import Pinpoint.Proofs.Yaml.Folding

/-!
# Texts without quotes

A text without quotes is a row of words (`IsWord`) with gaps between them: spaces, or the end of a line for a single
space (`PlainText`). The reader takes it word by word and puts the gaps back (`plainWords_plainText`), up to something
that ends the scalar (`EndsPlain`). What the writer makes of a text that may stand without quotes is such a row
(`plainText_folded`), and the text is none of those that mean something else. So it is read back
(`inlineNode_isPlain`).
-/

namespace Pinpoint.Yaml

open Writer (isVisible indentation margin folded hasMark atEndOrSpace)

variable {w cs ws rest : List Char} {c : Char} {fuel indent line column : Nat}

/-- A word of a plain scalar: no gap is in it, and it does not end like a key. -/
structure IsWord (w : List Char) : Prop where
  nonempty : w ≠ []
  visible : ∀ c ∈ w, isVisible c = true ∧ c ≠ ' '
  colon : w.getLast? ≠ some ':'

theorem IsWord.isSolid (hw : IsWord w) (rest : List Char) : IsSolid (w ++ rest) := by
  obtain ⟨c, w', rfl⟩ := List.exists_cons_of_ne_nil hw.nonempty
  obtain ⟨hc, hspace⟩ := hw.visible c List.mem_cons_self
  exact isSolid_cons.mpr (isGap_of_isVisible hc hspace)

theorem IsWord.isTidy (hw : IsWord w) (h : IsTidy false rest) : IsTidy false (w ++ rest) :=
  .append_visible (fun c hc => (hw.visible c hc).1) h

/-! ### Reading words -/

/-- What follows ends a plain scalar: a colon with a gap behind it, or a line that stands too far left. -/
inductive EndsPlain (indent : Nat) : List Char → Prop
  | colon {rest : List Char} (gap : atGap rest = true) : EndsPlain indent (':' :: rest)
  | line {rest : List Char} (k : Nat) (left : k < indent) (solid : IsSolid rest) :
      EndsPlain indent ('\n' :: (List.replicate k ' ' ++ rest))

/-- What follows ends a word. -/
def EndsWord (rest : List Char) : Prop := ∀ c more, rest = c :: more → endsWord false c more = true

theorem endsWord_space (more : List Char) : EndsWord (' ' :: more) := by
  rintro c more' h
  obtain ⟨rfl, rfl⟩ := List.cons.inj h
  rfl

theorem endsWord_lineFeed (more : List Char) : EndsWord ('\n' :: more) := by
  rintro c more' h
  obtain ⟨rfl, rfl⟩ := List.cons.inj h
  rfl

theorem EndsPlain.endsWord (h : EndsPlain indent rest) : EndsWord rest := by
  cases h with
  | colon hgap =>
    rintro c more h
    obtain ⟨rfl, rfl⟩ := List.cons.inj h
    simp [Yaml.endsWord, hgap]
  | line k hk hsolid => exact endsWord_lineFeed _

/-- A word is taken whole. -/
theorem word_eq (hw : IsWord w) (hrest : EndsWord rest) : word false (w ++ rest) = (w, rest) := by
  obtain ⟨-, hvisible, hcolon⟩ := hw
  induction w with
  | nil =>
    cases rest with
    | nil => rfl
    | cons c more => rw [List.nil_append, word, hrest c more rfl, if_pos rfl]
  | cons c w ih =>
    obtain ⟨⟨hc, hspace⟩, hw⟩ := List.forall_mem_cons.mp hvisible
    have hgap := isGap_of_isVisible hc hspace
    -- a colon would have to stand before a gap, and there is none in the word
    have hinside : endsWord false c (w ++ rest) = false := by
      have hmark : (c == ':' && atGap (w ++ rest)) = false := by
        cases w with
        | nil =>
          have hne : c ≠ ':' := fun h => hcolon (congrArg some h)
          simp [hne]
        | cons d w =>
          have hd := isGap_of_isVisible (hw d List.mem_cons_self).1 (hw d List.mem_cons_self).2
          simp [atGap, hd]
      simpa [endsWord, hgap] using hmark
    have htail : word false (w ++ rest) = (w, rest) := by
      refine ih hw ?_
      cases w with
      | nil => nofun
      | cons d w => rwa [List.getLast?_cons_cons] at hcolon
    rw [List.cons_append, word, hinside, if_neg Bool.false_ne_true, htail]

/-- One word is read, and then it depends on the gap behind it. -/
theorem plainWords_word (hw : IsWord w) (hrest : EndsWord rest) (done between : List Char) (last : Cursor) :
    plainWords (fuel + 1) indent false done between last ⟨w ++ rest, line, column⟩ =
      let next := gap (· = ' ') ⟨rest, line, column + w.length⟩
      if next.1.isEmpty || next.2.rest.head? == some '#' || next.2.column < indent then
        (done ++ between ++ w, ⟨rest, line, column + w.length⟩)
      else plainWords fuel indent false (done ++ between ++ w) next.1 ⟨rest, line, column + w.length⟩ next.2 := by
  have hdrop : (w ++ rest).drop w.length = rest := List.drop_left
  obtain ⟨c, w', hcons⟩ := List.exists_cons_of_ne_nil hw.nonempty
  rw [plainWords, word_eq hw hrest]
  subst hcons
  simp only [Cursor.advance, hdrop, Bool.not_false, Bool.true_and]

/-- The last word ends the scalar. -/
theorem plainWords_last (hw : IsWord w) (hrest : EndsPlain indent rest) (done between : List Char) (last : Cursor) :
    plainWords (fuel + 1) indent false done between last ⟨w ++ rest, line, column⟩
      = (done ++ between ++ w, ⟨rest, line, column + w.length⟩) := by
  rw [plainWords_word hw hrest.endsWord]
  cases hrest with
  | colon hgap =>
    rfl
  | line k hk hsolid =>
    have hfeed := gap_lineFeeds isBlankTest_space hsolid 0 k line (column + w.length)
    rw [List.replicate_one, List.singleton_append] at hfeed
    rw [hfeed]
    simp [hk]

/-- A word with a gap behind it that goes on with the scalar. -/
theorem plainWords_more (hw : IsWord w) (hrest : EndsWord rest) {between next : List Char} {c : Cursor}
    (hgap : gap (· = ' ') ⟨rest, line, column + w.length⟩ = (next, c)) (hnext : next ≠ [])
    (hcomment : c.rest.head? ≠ some '#') (hindent : indent ≤ c.column) (done : List Char) (last : Cursor) :
    plainWords (fuel + 1) indent false done between last ⟨w ++ rest, line, column⟩
      = plainWords fuel indent false (done ++ between ++ w) next ⟨rest, line, column + w.length⟩ c := by
  have hgoes : (next.isEmpty || c.rest.head? == some '#' || decide (c.column < indent)) = false := by
    simp only [Bool.or_eq_false_iff, List.isEmpty_eq_false_iff, beq_eq_false_iff_ne, decide_eq_false_iff_not,
      Nat.not_lt]
    exact ⟨⟨hnext, hcomment⟩, hindent⟩
  rw [plainWords_word hw hrest, hgap]
  simp only [hgoes, Bool.false_eq_true, if_false]

/-! ### Rows of words -/

/-- A text and how it may be written without quotes. -/
inductive PlainText : List Char → List Char → Prop
  | word {w : List Char} (isWord : IsWord w) : PlainText w w
  | spaces {w cs ws : List Char} (isWord : IsWord w) (n : Nat) (noComment : ws.head? ≠ some '#')
      (more : PlainText cs ws) :
      PlainText (w ++ (List.replicate (n + 1) ' ' ++ cs)) (w ++ (List.replicate (n + 1) ' ' ++ ws))
  | fold {w cs ws : List Char} (isWord : IsWord w) (noComment : ws.head? ≠ some '#') (more : PlainText cs ws) :
      PlainText (w ++ ' ' :: cs) (w ++ '\n' :: (indentation ++ ws))

theorem PlainText.isSolid (h : PlainText cs ws) (rest : List Char) : IsSolid (ws ++ rest) := by
  cases h with
  | word hw => exact hw.isSolid rest
  | spaces hw n hcomment more => rw [List.append_assoc]; exact hw.isSolid _
  | fold hw hcomment more => rw [List.append_assoc]; exact hw.isSolid _

theorem PlainText.ne_nil (h : PlainText cs ws) : ws ≠ [] := by
  cases h with
  | word hw => exact hw.nonempty
  | spaces hw n hcomment more => exact List.append_ne_nil_of_left_ne_nil hw.nonempty _
  | fold hw hcomment more => exact List.append_ne_nil_of_left_ne_nil hw.nonempty _

theorem PlainText.isTidy (h : PlainText cs ws) : IsTidy false ws := by
  induction h with
  | word hw =>
    have hempty : IsTidy false [] := trivial
    simpa using hw.isTidy hempty
  | spaces hw n hcomment more ih =>
    refine hw.isTidy (.append_visible (fun c hc => ?_) ih)
    rw [List.eq_of_mem_replicate hc]
    rfl
  | fold hw hcomment more ih => exact hw.isTidy ih.indented.lineFeed.inLine

theorem head?_append_of_ne_nil {front : List Char} (h : front ≠ []) (back : List Char) :
    (front ++ back).head? = front.head? := by
  obtain ⟨c, more, rfl⟩ := List.exists_cons_of_ne_nil h
  rfl

/-- **A row of words is read back,** wherever it goes on in further lines that stand far enough right. -/
theorem plainWords_plainText (h : PlainText cs ws) (hindent : indent ≤ margin) (hrest : EndsPlain indent rest)
    (line : Nat) (hcolumn : indent ≤ column) (hfuel : ws.length ≤ fuel) (done between : List Char) (last : Cursor) :
    ∃ line' column', plainWords fuel indent false done between last ⟨ws ++ rest, line, column⟩
      = (done ++ between ++ cs, ⟨rest, line', column'⟩) := by
  induction h generalizing fuel line column done between last with
  | @word w hw =>
    have hpos := List.length_pos_iff.mpr hw.nonempty
    obtain ⟨fuel, rfl⟩ : ∃ f, fuel = f + 1 := ⟨fuel - 1, by omega⟩
    exact ⟨line, column + w.length, plainWords_last hw hrest done between last⟩
  | @spaces w cs ws hw n hcomment hmore ih =>
    have hshorter : ws.length < (w ++ (List.replicate (n + 1) ' ' ++ ws)).length := by
      simp only [List.length_append, List.length_replicate]
      omega
    obtain ⟨fuel, rfl, hless⟩ := exists_fuel hfuel hshorter
    have hends : EndsWord (List.replicate (n + 1) ' ' ++ (ws ++ rest)) := endsWord_space _
    have hgap := gap_spaces isBlankTest_space (hmore.isSolid rest) (n + 1) line (column + w.length)
    have hright : indent ≤ column + w.length + (n + 1) := by omega
    rw [← head?_append_of_ne_nil hmore.ne_nil rest] at hcomment
    obtain ⟨line', column', hread⟩ := ih line hright hless (done ++ between ++ w) (List.replicate (n + 1) ' ')
      ⟨List.replicate (n + 1) ' ' ++ (ws ++ rest), line, column + w.length⟩
    refine ⟨line', column', ?_⟩
    rw [List.append_assoc, List.append_assoc,
      plainWords_more hw hends hgap (List.cons_ne_nil _ _) hcomment hright, hread, List.append_assoc,
      List.append_assoc]
  | @fold w cs ws hw hcomment hmore ih =>
    have hshorter : ws.length < (w ++ '\n' :: (indentation ++ ws)).length := by
      simp only [List.length_append, List.length_cons]
      omega
    obtain ⟨fuel, rfl, hless⟩ := exists_fuel hfuel hshorter
    have hgap := gap_fold isBlankTest_space (hmore.isSolid rest) line (column + w.length)
    rw [← head?_append_of_ne_nil hmore.ne_nil rest] at hcomment
    obtain ⟨line', column', hread⟩ := ih (line + 1) hindent hless (done ++ between ++ w) [' ']
      ⟨'\n' :: (indentation ++ (ws ++ rest)), line, column + w.length⟩
    refine ⟨line', column', ?_⟩
    rw [List.append_assoc, List.cons_append, List.append_assoc,
      plainWords_more hw (endsWord_lineFeed _) hgap (List.cons_ne_nil _ _) hcomment hindent, hread,
      List.append_assoc, List.append_assoc]
    rfl

/-! ### Writing words -/

/-- A mark in a part of a text is one in the text. -/
theorem hasMark_of_append {front : List Char} (h : hasMark (front ++ cs) = false) : hasMark cs = false := by
  induction front with
  | nil => exact h
  | cons c front ih =>
    rw [List.cons_append, hasMark, Bool.or_eq_false_iff] at h
    exact ih h.2

theorem hasMark_colon (h : hasMark (':' :: rest) = false) : atEndOrSpace rest = false := by
  simp only [hasMark, Bool.or_eq_false_iff] at h
  simpa using h.1.1

theorem hasMark_space (h : hasMark (' ' :: rest) = false) : rest.head? ≠ some '#' := by
  simp only [hasMark, Bool.or_eq_false_iff] at h
  simpa using h.1.2

/-- What may stand without quotes, as far as its words are concerned. -/
structure IsRow (cs : List Char) : Prop where
  nonempty : cs ≠ []
  visible : ∀ c ∈ cs, isVisible c = true
  head : cs.head? ≠ some ' '
  last : cs.getLast? ≠ some ' '
  marks : hasMark cs = false

/-- Characters without a gap are written as they are. -/
theorem folded_word (hw : ∀ c ∈ w, isVisible c = true ∧ c ≠ ' ') (column : Nat) (before : Option Char)
    (rest : List Char) : ∃ column' before', folded (fun c => [c]) column before (w ++ rest)
      = w ++ folded (fun c => [c]) column' before' rest := by
  induction w generalizing column before with
  | nil => exact ⟨column, before, rfl⟩
  | cons c w ih =>
    obtain ⟨⟨hc, hspace⟩, hw⟩ := List.forall_mem_cons.mp hw
    obtain ⟨column', before', hrest⟩ := ih hw (column + 1) (some c)
    refine ⟨column', before', ?_⟩
    rw [List.cons_append, Writer.folded_cons hspace (ne_lineFeed_of_isVisible hc), List.length_singleton, hrest]
    rfl

/-- A row is a word, or a word, spaces, and a shorter row. -/
theorem IsRow.cut (h : IsRow cs) : IsWord cs ∨ ∃ (w : List Char) (n : Nat) (more : List Char),
    IsWord w ∧ IsRow more ∧ more.head? ≠ some '#' ∧ cs = w ++ (List.replicate (n + 1) ' ' ++ more) := by
  have hcut : cs.takeWhile (· ≠ ' ') ++ cs.dropWhile (· ≠ ' ') = cs := List.takeWhile_append_dropWhile
  have hfirst : ∀ c ∈ cs.takeWhile (· ≠ ' '), c ≠ ' ' := fun c hc =>
    of_decide_eq_true (List.all_eq_true.mp List.all_takeWhile c hc)
  generalize hw : cs.takeWhile (· ≠ ' ') = w at hcut hfirst
  have hne : w ≠ [] := by
    obtain ⟨c, more, rfl⟩ := List.exists_cons_of_ne_nil h.nonempty
    have hc : c ≠ ' ' := fun hc => h.head (congrArg some hc)
    rw [← hw, List.takeWhile_cons_of_pos (by simpa using hc)]
    exact List.cons_ne_nil _ _
  have hvisible : ∀ c ∈ w, isVisible c = true ∧ c ≠ ' ' := fun c hc =>
    ⟨h.visible c (hcut ▸ List.mem_append_left _ hc), hfirst c hc⟩
  -- a colon at the end of the word would be a mark, whatever comes behind it
  have hword (back : List Char) (hback : w ++ back = cs) (hgap : atEndOrSpace back = true) : IsWord w := by
    refine ⟨hne, hvisible, fun hlast => ?_⟩
    obtain ⟨front, rfl⟩ := List.getLast?_eq_some_iff.mp hlast
    have hmarks := h.marks
    rw [← hback, List.append_assoc] at hmarks
    have hcolon : atEndOrSpace back = false := hasMark_colon (hasMark_of_append hmarks)
    rw [hgap] at hcolon
    cases hcolon
  cases hback : cs.dropWhile (· ≠ ' ') with
  | nil =>
    rw [hback, List.append_nil] at hcut
    subst hcut
    exact .inl (hword [] (List.append_nil w) rfl)
  | cons c back =>
    have hspace : c = ' ' := by
      have := List.head?_dropWhile_not (· ≠ ' ') cs
      rw [hback] at this
      simpa using this
    subst hspace
    obtain ⟨n, more, hrun, hmore⟩ := Writer.exists_run ' ' back
    rw [hback] at hcut
    have hcs : cs = w ++ (List.replicate (n + 1) ' ' ++ more) := by rw [← hrun, hcut]
    have hmarks : hasMark (' ' :: more) = false := by
      have hmarks := h.marks
      rw [hcs, List.replicate_succ', List.append_assoc, ← List.append_assoc] at hmarks
      exact hasMark_of_append hmarks
    refine .inr ⟨w, n, more, hword _ hcut rfl, ⟨?_, ?_, hmore, ?_, ?_⟩, hasMark_space hmarks, hcs⟩
    · rintro rfl
      apply h.last
      rw [hcs, List.append_nil, List.replicate_succ', ← List.append_assoc, List.getLast?_concat]
    · intro c hc
      exact h.visible c (hcs ▸ List.mem_append_right _ (List.mem_append_right _ hc))
    · intro hlast
      apply h.last
      rw [hcs, List.getLast?_append, List.getLast?_append, hlast]
      rfl
    · simp only [hasMark, Bool.or_eq_false_iff] at hmarks
      exact hmarks.2

/-- **A row is written as a row of words.** -/
theorem plainText_folded (h : IsRow cs) (column : Nat) (before : Option Char) :
    PlainText cs (folded (fun c => [c]) column before cs) := by
  induction hlength : cs.length using Nat.strongRecOn generalizing cs column before with
  | ind length ih =>
    subst hlength
    rcases h.cut with hw | ⟨w, n, more, hw, hmore, hcomment, rfl⟩
    · obtain ⟨column', before', hword⟩ := folded_word hw.visible column before []
      rw [List.append_nil] at hword
      rw [hword, folded, List.append_nil]
      exact .word hw
    · obtain ⟨column', before', hword⟩ := folded_word hw.visible column before (List.replicate (n + 1) ' ' ++ more)
      have hshorter : more.length < (w ++ (List.replicate (n + 1) ' ' ++ more)).length := by
        simp only [List.length_append, List.length_replicate]
        omega
      -- the next row starts with the first word of the text behind the spaces
      have hnext (column : Nat) (before : Option Char) :
          (folded (fun c => [c]) column before more).head? ≠ some '#' := by
        obtain ⟨c, more', rfl⟩ := List.exists_cons_of_ne_nil hmore.nonempty
        have hc : c ≠ ' ' := fun hc => hmore.head (congrArg some hc)
        rw [Writer.folded_cons hc (ne_lineFeed_of_isVisible (hmore.visible c List.mem_cons_self))]
        exact hcomment
      rw [hword]
      rcases Writer.folded_spaces (fun c => [c]) column' before' n more with hspaces | ⟨rfl, hfold⟩
      · rw [hspaces]
        exact .spaces hw n (hnext _ _) (ih more.length hshorter hmore _ _ rfl)
      · rw [hfold]
        exact .fold hw (hnext _ _) (ih more.length hshorter hmore _ _ rfl)

/-! ### Plain scalars -/

/-- A plain scalar starts here. -/
theorem inlineNode_plain {more : List Char} (hc : c ∉ ['[', '\x7b', '\'', '"'])
    (hstarts : startsPlain false c more = true) :
    inlineNode fuel indent ⟨c :: more, line, column⟩ = plain indent false ⟨c :: more, line, column⟩ := by
  simp only [List.mem_cons, List.not_mem_nil, or_false, not_or] at hc
  obtain ⟨hbracket, hbrace, hsingle, hdouble⟩ := hc
  unfold inlineNode
  split
  next heq => exact absurd (List.cons.inj heq).1 hbracket
  next heq => exact absurd (List.cons.inj heq).1 hbrace
  next heq => exact absurd (List.cons.inj heq).1 hsingle
  next heq => exact absurd (List.cons.inj heq).1 hdouble
  next d rest _ _ _ _ heq =>
    obtain ⟨rfl, rfl⟩ := List.cons.inj heq
    rw [if_pos hstarts]
  next heq => cases heq

/-- What need not be quoted is a text. -/
theorem resolve_of_not_isSpecial (h : Scalar.isSpecial cs = false) :
    Scalar.resolve cs = .ok (.str (String.ofList cs)) := by
  simp only [Scalar.isSpecial, Bool.or_eq_false_iff] at h
  obtain ⟨⟨⟨⟨⟨⟨⟨hnull, htrue⟩, hfalse⟩, hinteger⟩, hfraction⟩, -⟩, hequal⟩, -⟩ := h
  have hne : (cs == ['=']) = false := by
    rw [beq_eq_false_iff_ne] at hequal ⊢
    rintro rfl
    exact hequal rfl
  simp only [Scalar.resolve, hnull, htrue, hfalse, hinteger, hfraction, hne, Bool.false_eq_true, if_false]

/-- A word that is a scalar of its own is read on the spot. -/
theorem plain_word {value : Json} (hw : IsWord w) (hrest : EndsPlain indent rest)
    (hvalue : Scalar.resolve w = .ok value) :
    plain indent false ⟨w ++ rest, line, column⟩ = .ok (value, ⟨rest, line, column + w.length⟩) := by
  have hread : plainWords ((w ++ rest).length + 1) indent false [] [] ⟨w ++ rest, line, column⟩
      ⟨w ++ rest, line, column⟩ = ([] ++ [] ++ w, ⟨rest, line, column + w.length⟩) :=
    plainWords_last hw hrest [] [] _
  unfold plain
  rw [hread]
  simp only [List.append_nil, List.nil_append, hvalue]

/-- A row of words is a text, unless it is one of those that mean something else. -/
theorem plain_plainText (h : PlainText cs ws) (hspecial : Scalar.isSpecial cs = false) (hindent : indent ≤ margin)
    (hrest : EndsPlain indent rest) (line : Nat) (hcolumn : indent ≤ column) :
    ∃ line' column', plain indent false ⟨ws ++ rest, line, column⟩
      = .ok (.str (String.ofList cs), ⟨rest, line', column'⟩) := by
  have hfuel : ws.length ≤ (ws ++ rest).length + 1 := by
    rw [List.length_append]
    omega
  obtain ⟨line', column', hread⟩ := plainWords_plainText h hindent hrest line hcolumn hfuel [] []
    ⟨ws ++ rest, line, column⟩
  refine ⟨line', column', ?_⟩
  unfold plain
  rw [hread]
  simp only [List.append_nil, List.nil_append, resolve_of_not_isSpecial hspecial]

/-- A row starts with the same word as it is written. -/
theorem PlainText.exists_word (h : PlainText cs ws) : ∃ word back back',
    IsWord word ∧ cs = word ++ back ∧ ws = word ++ back' ∧ atEndOrSpace back = true := by
  cases h with
  | word hw => exact ⟨_, [], [], hw, (List.append_nil _).symm, (List.append_nil _).symm, rfl⟩
  | @spaces w cs ws hw n hcomment hmore => exact ⟨w, _, _, hw, rfl, rfl, rfl⟩
  | @fold w cs ws hw hcomment hmore => exact ⟨w, _, _, hw, rfl, rfl, rfl⟩

/-- What the writer asks of a text before it leaves out the quotes. -/
structure MayBePlain (c : Char) (cs : List Char) : Prop where
  isRow : IsRow (c :: cs)
  notSpecial : Scalar.isSpecial (c :: cs) = false
  noIndicator : Writer.isIndicator c = false
  noMark : c = '-' ∨ c = '?' ∨ c = ':' → atEndOrSpace cs = false

theorem exists_mayBePlain (h : Writer.isPlain cs = true) : ∃ c rest, cs = c :: rest ∧ MayBePlain c rest := by
  cases cs with
  | nil => cases h
  | cons c rest =>
    simp only [Writer.isPlain, Bool.and_eq_true, Bool.not_eq_true', bne_iff_ne] at h
    obtain ⟨⟨⟨⟨⟨⟨⟨⟨hvisible, hhead⟩, hlast⟩, hspecial⟩, -⟩, -⟩, hindicator⟩, hmark⟩, hmarks⟩ := h
    refine ⟨c, rest, rfl, ⟨List.cons_ne_nil c rest, List.all_eq_true.mp hvisible, ?_, hlast, hmarks⟩, hspecial,
      hindicator, fun hc => ?_⟩
    · exact fun h => hhead (Option.some.inj h)
    · rcases hc with rfl | rfl | rfl <;> exact hmark

/-- Such a text begins like a plain scalar when it is written. -/
theorem MayBePlain.startsPlain (h : MayBePlain c cs) (hlayout : PlainText (c :: cs) ws) (rest : List Char) :
    ∃ more, ws ++ rest = c :: more ∧ c ∉ ['[', '\x7b', '\'', '"'] ∧ startsPlain false c more = true := by
  obtain ⟨w, back, back', hw, hcs, rfl, hback⟩ := hlayout.exists_word
  obtain ⟨d, w', rfl⟩ := List.exists_cons_of_ne_nil hw.nonempty
  obtain ⟨rfl, rfl⟩ := List.cons.inj hcs
  have hindicator := h.noIndicator
  simp only [Writer.isIndicator, Bool.or_eq_false_iff, beq_eq_false_iff_ne] at hindicator
  have hne : c ≠ '#' ∧ c ≠ ',' ∧ c ≠ '[' ∧ c ≠ ']' ∧ c ≠ '\x7b' ∧ c ≠ '\x7d' ∧ c ≠ '&' ∧ c ≠ '*' ∧ c ≠ '!' ∧
      c ≠ '|' ∧ c ≠ '>' ∧ c ≠ '\'' ∧ c ≠ '"' ∧ c ≠ '%' ∧ c ≠ '@' := by
    simpa using hindicator.1
  refine ⟨w' ++ (back' ++ rest), by simp, by simp [hne], ?_⟩
  by_cases hc : c = '-' ∨ c = '?' ∨ c = ':'
  · -- behind one of these three the word goes on
    have hnext := h.noMark hc
    cases w' with
    | nil =>
      have hnone : atEndOrSpace back = false := hnext
      rw [hback] at hnone
      cases hnone
    | cons e w'' =>
      obtain ⟨he, hspace⟩ := hw.visible e (List.mem_cons_of_mem _ List.mem_cons_self)
      have hgap := isGap_of_isVisible he hspace
      simp only [Yaml.startsPlain, List.cons_append, atGap, hgap, Bool.not_false, Bool.true_and, Bool.or_eq_true,
        beq_iff_eq]
      exact .inr hc
  · obtain ⟨hvisible, hspace⟩ := hw.visible c List.mem_cons_self
    have hgap := isGap_of_isVisible hvisible hspace
    simp only [not_or] at hc
    have hfree : "-?:,[]\x7b\x7d#&*!|>'\"%@".toList.contains c = false := by simp [hne, hc]
    have hquote : (c.toNat == 0x60) = false := beq_eq_false_iff_ne.mpr hindicator.2
    rw [Yaml.startsPlain, hgap, hfree, hquote]
    rfl

/-- **A text that is written without quotes is read back.** -/
theorem inlineNode_isPlain (h : Writer.isPlain cs = true) (hindent : indent ≤ margin) (hrest : EndsPlain indent rest)
    (fuel line : Nat) :
    ∃ line' column', inlineNode fuel indent ⟨folded (fun c => [c]) margin none cs ++ rest, line, margin⟩
      = .ok (.str (String.ofList cs), ⟨rest, line', column'⟩) := by
  obtain ⟨c, cs, rfl, hmay⟩ := exists_mayBePlain h
  have hlayout := plainText_folded hmay.isRow margin none
  obtain ⟨more, hcons, hc, hstarts⟩ := hmay.startsPlain hlayout rest
  obtain ⟨line', column', hread⟩ := plain_plainText hlayout hmay.notSpecial hindent hrest line hindent
  refine ⟨line', column', ?_⟩
  rw [hcons] at hread ⊢
  rw [inlineNode_plain hc hstarts, hread]

end Pinpoint.Yaml
