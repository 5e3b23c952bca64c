import Pinpoint.Proofs.Yaml.Plain
import Pinpoint.Proofs.Yaml.Quotes

/-!
# Reading blocks

Every text is read back from the scalar that the writer makes of it (`inlineNode_scalarChars`), with or without quotes
and over as many lines as it takes. Around the scalars a block is read line by line: a pair of a mapping
(`blockPairs_pair`) with its value behind the key (`blockValue_inline`), further right below it (`blockPairs_below`) or
as a list at the column of the keys (`blockValue_items`), and an item of a list (`blockItems_item`). Each of these
lemmas leads to the next token, and a list of texts is read to its end (`blockItems_itemLines`).
-/

namespace Pinpoint.Yaml

open Writer (isVisible indentation margin folded double scalarChars)

variable {key cs rest : List Char} {c q : Char} {fuel indent column line line' column' : Nat} {value : Json}
  {done : Json.Fields} {next : Cursor}

/-! ### Scalars -/

theorem EndsPlain.head?_ne_quote (h : EndsPlain indent rest) : rest.head? ≠ some '\'' := by
  cases h with
  | colon hgap => exact fun h => absurd (Option.some.inj h) (by decide)
  | line k hk hsolid => exact fun h => absurd (Option.some.inj h) (by decide)

/-- A scalar stands without quotes, or it is a way of writing the text between two of them. -/
theorem scalarChars_cases (cs : List Char) :
    (Writer.isPlain cs = true ∧ scalarChars cs = folded (fun c => [c]) margin none cs) ∨
      ∃ q ws, IsQuote q ∧ QuotedText q cs ws ∧ scalarChars cs = q :: (ws ++ [q]) := by
  unfold scalarChars
  split
  next hplain => exact .inl ⟨hplain, rfl⟩
  next =>
    split
    next hquotable =>
      have hlayout : QuotedText '\'' cs (folded double (margin + 1) none cs) :=
        quotedText_folded (isSingle_of_isQuotable hquotable) (margin + 1) (fun _ => nofun)
      exact .inr ⟨_, _, .inl rfl, hlayout, rfl⟩
    next =>
      have hlayout : QuotedText '"' cs (Writer.escaped (margin + 1) .other cs) :=
        quotedText_escaped cs (margin + 1) .other 0
      exact .inr ⟨_, _, .inr rfl, hlayout, rfl⟩

theorem inlineNode_quote (hq : IsQuote q) :
    inlineNode (fuel + 1) indent ⟨q :: rest, line, column⟩ = quoted q ⟨q :: rest, line, column⟩ := by
  rcases hq with rfl | rfl <;> rfl

/-- **A text is read back from its scalar.** -/
theorem inlineNode_scalarChars (cs : List Char) (hindent : indent ≤ margin) (hrest : EndsPlain indent rest)
    (fuel line : Nat) : ∃ line' column', inlineNode (fuel + 1) indent ⟨scalarChars cs ++ rest, line, margin⟩
      = .ok (.str (String.ofList cs), ⟨rest, line', column'⟩) := by
  rcases scalarChars_cases cs with ⟨hplain, hscalar⟩ | ⟨q, ws, hq, hlayout, hscalar⟩
  · rw [hscalar]
    exact inlineNode_isPlain hplain hindent hrest (fuel + 1) line
  · obtain ⟨line', column', hread⟩ := quoted_quotedText hq hlayout (fun _ => hrest.head?_ne_quote) line margin
    refine ⟨line', column', ?_⟩
    rw [hscalar, List.cons_append, List.append_assoc, List.singleton_append, inlineNode_quote hq, hread]

example : Writer.scalar "it's" = "it's" ∧ Writer.scalar "yes" = "'yes'" ∧ Writer.scalar "a\nb" = "'a\n\n    b'" ∧
    Writer.scalar "a \n b" = "\"a \\n b\"" := by decide

/-- A scalar is tidy. -/
theorem isTidy_scalarChars (cs : List Char) : IsTidy false (scalarChars cs) := by
  rcases scalarChars_cases cs with ⟨hplain, hscalar⟩ | ⟨q, ws, hq, hlayout, hscalar⟩
  · obtain ⟨c, cs, rfl, hmay⟩ := exists_mayBePlain hplain
    rw [hscalar]
    exact (plainText_folded hmay.isRow margin none).isTidy
  · have hclose : IsTidy true [q] := by
      refine .consLine hq.visible ?_ trivial
      rcases hq with rfl | rfl <;> decide
    rw [hscalar]
    exact .cons hq.visible (hlayout.isTidy.append hclose)

/-! ### Tokens -/

/-- A node of a block starts here which is no list. -/
structure StartsNode (cs : List Char) : Prop where
  nonempty : cs ≠ []
  solid : IsSolid cs
  noComment : cs.head? ≠ some '#'
  noItem : ∀ line column, Cursor.atMark ⟨cs, line, column⟩ '-' = false

theorem StartsNode.settle_eq (h : StartsNode cs) (k line column : Nat) :
    Cursor.settle ⟨List.replicate k ' ' ++ cs, line, column⟩ = ⟨cs, line, column + k⟩ := by
  rw [settle_spaces, settle_of_isSolid h.solid h.noComment]

/-- At the start of a plain scalar a dash is no mark of an item. -/
theorem startsNode_of_startsPlain (h : startsPlain false c rest = true) : StartsNode (c :: rest) := by
  have hgap : isGap c = false := by
    cases hc : isGap c with
    | false => rfl
    | true =>
      -- none of the three characters that may stand before a word is a gap
      simp only [startsPlain, hc, Bool.true_or, Bool.not_true, Bool.false_or, Bool.not_false, Bool.true_and,
        Bool.and_eq_true, Bool.or_eq_true, beq_iff_eq] at h
      rcases h.2 with rfl | rfl | rfl <;> cases hc
  refine ⟨List.cons_ne_nil c rest, isSolid_cons.mpr hgap, fun hc => ?_, fun line column => ?_⟩
  · obtain rfl := Option.some.inj hc
    simp [startsPlain] at h
  · by_cases hc : c = '-'
    · subst hc
      have hnext : atGap rest = false := by simpa [startsPlain] using h
      simp [Cursor.atMark, hnext]
    · simp [Cursor.atMark, hc]

theorem startsNode_scalarChars (cs rest : List Char) : StartsNode (scalarChars cs ++ rest) := by
  rcases scalarChars_cases cs with ⟨hplain, hscalar⟩ | ⟨q, ws, hq, hlayout, hscalar⟩
  · obtain ⟨c, cs, rfl, hmay⟩ := exists_mayBePlain hplain
    obtain ⟨more, hcons, -, hstarts⟩ := hmay.startsPlain (plainText_folded hmay.isRow margin none) rest
    rw [hscalar, hcons]
    exact startsNode_of_startsPlain hstarts
  · rw [hscalar]
    rcases hq with rfl | rfl
    · exact ⟨List.cons_ne_nil _ _, isSolid_cons.mpr rfl, by simp, fun _ _ => rfl⟩
    · exact ⟨List.cons_ne_nil _ _, isSolid_cons.mpr rfl, by simp, fun _ _ => rfl⟩

/-! ### Names -/

/-- A word that begins with a small letter. -/
def IsName (w : List Char) : Prop :=
  w.head?.any Char.isLower ∧ w.all (fun c => isVisible c && c != ' ') ∧ w.getLast? ≠ some ':'

instance (w : List Char) : Decidable (IsName w) := inferInstanceAs (Decidable (_ ∧ _ ∧ _))

theorem IsName.exists_cons (h : IsName key) : ∃ c more, key = c :: more ∧ c.isLower = true := by
  cases key with
  | nil => cases h.1
  | cons c more => exact ⟨c, more, rfl, h.1⟩

theorem IsName.isWord (h : IsName key) : IsWord key := by
  obtain ⟨c, more, rfl, -⟩ := h.exists_cons
  refine ⟨List.cons_ne_nil c more, fun d hd => ?_, h.2.2⟩
  have hvisible := List.all_eq_true.mp h.2.1 d hd
  rwa [Bool.and_eq_true, bne_iff_ne] at hvisible

theorem not_mem_of_isLower {marks : List Char} (hmarks : marks.all (fun d => !d.isLower) = true)
    (h : c.isLower = true) : c ∉ marks := by
  intro hc
  have hmark := List.all_eq_true.mp hmarks c hc
  rw [h] at hmark
  cases hmark

/-- No character with a meaning of its own is a letter. -/
theorem startsPlain_of_isLower (h : c.isLower = true) (rest : List Char) :
    c ∉ ['[', '\x7b', '\'', '"'] ∧ startsPlain false c rest = true := by
  have hfree : "-?:,[]\x7b\x7d#&*!|>'\"%@".toList.contains c = false := by
    rw [Bool.eq_false_iff, Ne, List.contains_iff_mem]
    exact not_mem_of_isLower rfl h
  have hrange : 97 ≤ c.toNat ∧ c.toNat ≤ 122 := by
    obtain ⟨hlow, hhigh⟩ := Bool.and_eq_true_iff.mp h
    exact ⟨UInt32.le_iff_toNat_le.mp (of_decide_eq_true hlow), UInt32.le_iff_toNat_le.mp (of_decide_eq_true hhigh)⟩
  have hspace : c ≠ ' ' := by
    rintro rfl
    cases h
  have hgap : isGap c = false := isGap_of_isVisible (isVisible_iff.mpr (by omega)) hspace
  have hquote : (c.toNat == 0x60) = false := beq_eq_false_iff_ne.mpr (by omega)
  refine ⟨not_mem_of_isLower rfl h, ?_⟩
  rw [startsPlain, hgap, hfree, hquote]
  rfl

theorem IsName.startsNode (h : IsName key) (rest : List Char) : StartsNode (key ++ rest) := by
  obtain ⟨c, more, rfl, hlower⟩ := h.exists_cons
  exact startsNode_of_startsPlain (startsPlain_of_isLower hlower (more ++ rest)).2

/-- The empty list is read on the spot. -/
theorem inlineNode_emptyList (fuel indent line column : Nat) (rest : List Char) :
    inlineNode (fuel + 2) indent ⟨'[' :: ']' :: rest, line, column⟩ = .ok (.arr [], ⟨rest, line, column + 2⟩) := by
  have hsettle : Cursor.settle (Cursor.advance ⟨'[' :: ']' :: rest, line, column⟩ 1)
      = ⟨']' :: rest, line, column + 1⟩ := rfl
  simp only [inlineNode, flowNode, hsettle, flowItems]
  rfl

/-- A name is read on the spot. -/
theorem inlineNode_name (hname : IsName key) (hrest : EndsPlain indent rest)
    (hvalue : Scalar.resolve key = .ok value) :
    inlineNode fuel indent ⟨key ++ rest, line, column⟩ = .ok (value, ⟨rest, line, column + key.length⟩) := by
  have hread : plain indent false ⟨key ++ rest, line, column⟩ = .ok (value, ⟨rest, line, column + key.length⟩) :=
    plain_word hname.isWord hrest hvalue
  obtain ⟨c, more, rfl, hlower⟩ := hname.exists_cons
  obtain ⟨hc, hstarts⟩ := startsPlain_of_isLower hlower (more ++ rest)
  rw [List.cons_append] at hread ⊢
  rw [inlineNode_plain hc hstarts, hread]

/-- What may be written as a key: a name that means itself. -/
structure IsKey (key : List Char) : Prop where
  isName : IsName key
  isText : Scalar.resolve key = .ok (.str (String.ofList key))

theorem skipSpaces_colon (rest : List Char) (line column : Nat) :
    Cursor.skipSpaces ⟨':' :: rest, line, column⟩ = ⟨':' :: rest, line, column⟩ := rfl

theorem atMark_colon (hgap : atGap rest = true) (line column : Nat) :
    Cursor.atMark ⟨':' :: rest, line, column⟩ ':' = true := hgap

/-- As a scalar a key ends before its colon. -/
theorem inlineNode_key (hkey : IsKey key) (hgap : atGap rest = true) :
    inlineNode fuel indent ⟨key ++ ':' :: rest, line, column⟩
      = .ok (.str (String.ofList key), ⟨':' :: rest, line, column + key.length⟩) :=
  inlineNode_name hkey.isName (.colon hgap) hkey.isText

/-- **A key** is read with its colon. -/
theorem keyAt_key (hkey : IsKey key) (hgap : atGap rest = true) :
    keyAt fuel indent ⟨key ++ ':' :: rest, line, column⟩
      = .ok (String.ofList key, ⟨rest, line, column + key.length + 1⟩) := by
  unfold keyAt
  rw [inlineNode_key hkey hgap]
  simp only [bind, Except.bind, skipSpaces_colon, atMark_colon hgap, beq_self_eq_true, Bool.and_self, if_true]
  rfl

/-! ### Nodes -/

theorem le_line_settleFrom (comment : Bool) (line column : Nat) (cs : List Char) :
    line ≤ (Cursor.settleFrom comment line column cs).line := by
  induction cs generalizing comment line column with
  | nil => exact Nat.le_refl line
  | cons c rest ih =>
    unfold Cursor.settleFrom
    split
    · exact Nat.le_of_succ_le (ih false (line + 1) 0)
    · split
      · exact ih true line (column + 1)
      · split
        · exact ih false line (column + 1)
        · split
          · exact ih true line (column + 1)
          · exact Nat.le_refl line

/-- Behind the end of its line, a node of a block is followed by what starts a later one. -/
theorem settleBelow_lineFeed :
    Cursor.settleBelow ⟨'\n' :: rest, line, column⟩ = .ok (Cursor.settle ⟨rest, line + 1, 0⟩) := by
  have hlater : line < (Cursor.settle ⟨rest, line + 1, 0⟩).line := le_line_settleFrom false (line + 1) 0 rest
  simp [Cursor.settleBelow, settle_lineFeed, hlater]

/-- **A node in one line,** or in several that hang together. -/
theorem blockNode_inline {cs : List Char} (hstarts : StartsNode cs)
    (h : inlineNode fuel indent ⟨cs, line, column⟩ = .ok (value, ⟨'\n' :: rest, line', column'⟩)) :
    blockNode (fuel + 1) indent ⟨cs, line, column⟩ = .ok (value, Cursor.settle ⟨rest, line' + 1, 0⟩) := by
  -- at the end of its line the node is no key
  have hskip : Cursor.skipSpaces ⟨'\n' :: rest, line', column'⟩ = ⟨'\n' :: rest, line', column'⟩ := rfl
  have hmark : Cursor.atMark ⟨'\n' :: rest, line', column'⟩ ':' = false := rfl
  rw [blockNode, hstarts.noItem, if_neg Bool.false_ne_true, h]
  simp [bind, Except.bind, hskip, hmark, settleBelow_lineFeed, pure, Except.pure]

/-- **A mapping** begins with its first key. -/
theorem blockNode_key (hkey : IsKey key) (hgap : atGap rest = true) :
    blockNode (fuel + 1) indent ⟨key ++ ':' :: rest, line, column⟩
      = blockPairs fuel column [] ⟨key ++ ':' :: rest, line, column⟩ := by
  rw [blockNode, (hkey.isName.startsNode _).noItem, if_neg Bool.false_ne_true, inlineNode_key hkey hgap]
  simp [bind, Except.bind, skipSpaces_colon, atMark_colon hgap]

/-! ### Pairs -/

/-- **A pair of a mapping.** -/
theorem blockPairs_pair (hkey : IsKey key) (hgap : atGap rest = true)
    (hvalue : blockValue fuel column line (Cursor.settle ⟨rest, line, column + key.length + 1⟩) = .ok (value, next)) :
    blockPairs (fuel + 1) column done ⟨key ++ ':' :: rest, line, column⟩
      = blockPairs fuel column (done.set (String.ofList key) value) next := by
  have hstarts := hkey.isName.startsNode (':' :: rest)
  have hne : (key ++ ':' :: rest).isEmpty = false := by simp
  rw [blockPairs, hne, hstarts.noItem, keyAt_key hkey hgap]
  simp [bind, Except.bind, hvalue]

/-- A mapping ends where the text does, and before what stands further left. -/
theorem blockPairs_end {c : Cursor} (h : c.rest = [] ∨ c.column < column) :
    blockPairs (fuel + 1) column done c = .ok (.obj done, c) := by
  have hend : (c.rest.isEmpty || decide (c.column < column)) = true := by
    simpa using h
  rw [blockPairs, hend, if_pos rfl]

/-- **A value behind its key.** -/
theorem blockValue_inline {cs : List Char} (hcs : cs ≠ [])
    (h : inlineNode fuel (column + 1) ⟨cs, line, indent⟩ = .ok (value, ⟨'\n' :: rest, line', column'⟩)) :
    blockValue (fuel + 1) column line ⟨cs, line, indent⟩ = .ok (value, Cursor.settle ⟨rest, line' + 1, 0⟩) := by
  have hne : cs.isEmpty = false := by simpa using hcs
  rw [blockValue]
  simp only [hne, Bool.false_eq_true, if_false, if_true, h]
  simp [bind, Except.bind, settleBelow_lineFeed, pure, Except.pure]

/-- **A value below its key,** further right. -/
theorem blockValue_below {cs : List Char} (hcs : cs ≠ []) (hline : line' ≠ line) (hcolumn : column < column') :
    blockValue (fuel + 1) column line ⟨cs, line', column'⟩ = blockNode fuel (column + 1) ⟨cs, line', column'⟩ := by
  have hne : cs.isEmpty = false := by simpa using hcs
  rw [blockValue, hne, if_neg Bool.false_ne_true, if_neg hline, if_pos hcolumn]

/-- **A list below its key,** at the same column. -/
theorem blockValue_items {cs : List Char} (hline : line' ≠ line)
    (hmark : Cursor.atMark ⟨cs, line', column⟩ '-' = true) :
    blockValue (fuel + 1) column line ⟨cs, line', column⟩ = blockItems fuel column true [] ⟨cs, line', column⟩ := by
  have hne : cs.isEmpty = false := by
    cases cs with
    | nil => cases hmark
    | cons d rest => rfl
  rw [blockValue, hne, if_neg Bool.false_ne_true, if_neg hline, if_neg (Nat.lt_irrefl column), hmark]
  simp

/-- A key, and the value that stands below it. -/
def below (key rest : List Char) : List Char := key ++ ':' :: '\n' :: rest

/-- **A pair whose value stands below its key.** -/
theorem blockPairs_below {cs : List Char} {k : Nat} (hkey : IsKey key) (hstarts : StartsNode cs)
    (hcolumn : column < k) (hnode : blockNode fuel (column + 1) ⟨cs, line + 1, k⟩ = .ok (value, next)) :
    blockPairs (fuel + 2) column done ⟨below key (List.replicate k ' ' ++ cs), line, column⟩
      = blockPairs (fuel + 1) column (done.set (String.ofList key) value) next := by
  refine blockPairs_pair hkey rfl ?_
  rw [settle_lineFeed, hstarts.settle_eq, Nat.zero_add,
    blockValue_below hstarts.nonempty (Nat.succ_ne_self line) hcolumn, hnode]

/-! ### Items -/

/-- **An item of a list.** -/
theorem blockItems_item {shares : Bool} {done : List Json} {cs : List Char} (hstarts : StartsNode cs)
    (hnode : blockNode fuel (column + 1) ⟨cs, line, column + 2⟩ = .ok (value, next)) :
    blockItems (fuel + 1) column shares done ⟨'-' :: ' ' :: cs, line, column⟩
      = blockItems fuel column shares (done ++ [value]) next := by
  have hsettle : Cursor.settle (Cursor.advance ⟨'-' :: ' ' :: cs, line, column⟩ 1) = ⟨cs, line, column + 2⟩ :=
    hstarts.settle_eq 1 line (column + 1)
  have hmark : Cursor.atMark ⟨'-' :: ' ' :: cs, line, column⟩ '-' = true := rfl
  have hsome : cs.isEmpty = false := by simpa using hstarts.nonempty
  rw [blockItems]
  simp [hmark, hsettle, hsome, bind, Except.bind, hnode]

/-- The lines of a list of texts that stands at the column two. -/
def itemLines (texts : List String) : List Char :=
  texts.flatMap fun s => "  - ".toList ++ scalarChars s.toList ++ ['\n']

theorem itemLines_cons (s : String) (texts : List String) :
    itemLines (s :: texts)
      = List.replicate 2 ' ' ++ '-' :: ' ' :: (scalarChars s.toList ++ '\n' :: itemLines texts) := by
  rw [itemLines, List.flatMap_cons, List.append_assoc, List.append_assoc, List.singleton_append]
  rfl

theorem length_le_length_itemLines (texts : List String) : texts.length ≤ (itemLines texts).length := by
  induction texts with
  | nil => exact Nat.zero_le _
  | cons s texts ih =>
    rw [itemLines_cons]
    simp only [List.length_append, List.length_cons, List.length_replicate]
    omega

/-- Behind a line end the first item is the next token. -/
theorem settle_itemLines_cons (s : String) (texts : List String) (line : Nat) :
    Cursor.settle ⟨itemLines (s :: texts), line, 0⟩
      = ⟨'-' :: ' ' :: (scalarChars s.toList ++ '\n' :: itemLines texts), line, 2⟩ := by
  rw [itemLines_cons, settle_spaces]
  rfl

/-- Each item ends a text that stands before it. -/
theorem endsPlain_itemLines (texts : List String) : EndsPlain 3 ('\n' :: itemLines texts) := by
  cases texts with
  | nil => exact .line 0 (by decide) isSolid_nil
  | cons s texts =>
    rw [itemLines_cons]
    exact .line 2 (by decide) (isSolid_cons.mpr rfl)

/-- **A list of texts** is read to its end. -/
theorem blockItems_itemLines (texts : List String) {fuel : Nat} (hfuel : texts.length + 3 ≤ fuel) (shares : Bool)
    (done : List Json) (line : Nat) : ∃ last, last.rest = [] ∧
      blockItems fuel 2 shares done (Cursor.settle ⟨itemLines texts, line, 0⟩)
        = .ok (.arr (done ++ texts.map .str), last) := by
  induction texts generalizing fuel done line with
  | nil =>
    obtain ⟨fuel, rfl⟩ : ∃ f, fuel = f + 1 := ⟨fuel - 1, by omega⟩
    have hend : Cursor.settle ⟨itemLines [], line, 0⟩ = ⟨[], line, 0⟩ := rfl
    refine ⟨⟨[], line, 0⟩, rfl, ?_⟩
    rw [hend, blockItems, List.map_nil, List.append_nil]
    rfl
  | cons s texts ih =>
    rw [List.length_cons] at hfuel
    obtain ⟨fuel, rfl⟩ : ∃ f, fuel = f + 3 := ⟨fuel - 3, by omega⟩
    have hmore : texts.length + 3 ≤ fuel + 2 := by omega
    obtain ⟨line', column', hread⟩ :=
      inlineNode_scalarChars s.toList (by decide) (endsPlain_itemLines texts) fuel line
    rw [String.ofList_toList] at hread
    have hstarts := startsNode_scalarChars s.toList ('\n' :: itemLines texts)
    have hnode := blockNode_inline hstarts hread
    obtain ⟨last, hlast, hrest⟩ := ih hmore (done ++ [.str s]) (line' + 1)
    refine ⟨last, hlast, ?_⟩
    -- the next item stands below the last line of this one, wherever that is
    rw [settle_itemLines_cons, blockItems_item hstarts hnode, hrest, List.append_assoc, List.map_cons,
      List.singleton_append]

end Pinpoint.Yaml
