import Pinpoint.Normalize
import Pinpoint.Proofs.Trace

/-!
# A finding becomes a message or a suppression

What `Tables.normalize` gives when it gives anything: the message at the place that the finding resolves
to, or else no message and one note that the finding was suppressed (`normalize_eq_ok`). Nothing else on
the way notes a suppression (`keepsFindings_resolve`), so messages and suppressions together are as many
as findings: for one finding by `length_add_suppressions_normalize`, and from there for a source and for a
list of sources by `sum_add_suppressions_mapM`.
-/

namespace Pinpoint

/-- The event says that a finding was dropped. -/
def Event.isSuppression (e : Event) : Bool := e.kind == .issueSuppressed

/-- How many findings were dropped, by the notes. -/
def suppressions (notes : List Event) : Nat := notes.countP Event.isSuppression

@[simp] theorem suppressions_append (xs ys : List Event) :
    suppressions (xs ++ ys) = suppressions xs + suppressions ys :=
  List.countP_append

/-- The computation never drops a finding. -/
abbrev Trace.KeepsFindings {α : Type} (x : Observed α) : Prop :=
  x.Only fun e => e.isSuppression = false

theorem Trace.KeepsFindings.suppressions_eq {α : Type} {x : Observed α} (h : x.KeepsFindings) :
    suppressions x.notes = 0 := by
  refine List.countP_eq_zero.mpr fun e he => ?_
  rw [h e he]
  exact Bool.false_ne_true

theorem Trace.KeepsFindings.filter_eq_nil {α : Type} {x : Observed α} (h : x.KeepsFindings) :
    x.notes.filter Event.isSuppression = [] := by
  refine List.filter_eq_nil_iff.mpr fun e he => ?_
  rw [h e he]
  exact Bool.false_ne_true

/-- **Traversals conserve findings.** If what is made of each element and what is dropped there make up the
size of the element, then the same holds of the whole traversal. -/
theorem sum_add_suppressions_mapM {α β : Type} {f : α → Observed β} (made : β → Nat)
    (size : α → Nat)
    (hf : ∀ x y, (f x).outcome = .ok y → made y + suppressions (f x).notes = size x) {xs : List α}
    {ys : List β} (h : (xs.mapM f).outcome = .ok ys) :
    (ys.map made).sum + suppressions (xs.mapM f).notes = (xs.map size).sum := by
  rw [Trace.notes_mapM h]
  rw [Trace.outcome_mapM, List.mapM_eq_ok] at h
  induction h with
  | nil => rfl
  | @cons x y xs ys hx _ ih =>
    have hhead := hf x y hx
    rw [List.flatMap_cons, suppressions_append, List.map_cons, List.map_cons, List.sum_cons,
      List.sum_cons]
    omega

namespace Tables

variable {t : Tables} {settings : Settings}

/-! ### One finding -/

/-- All that is noted while a finding is resolved is that an instruction has no entry. -/
theorem only_resolve {p : Event → Prop}
    (hp : ∀ offset instruction contract, p (.resolutionFailed offset instruction contract)) (t : Tables)
    (strict : Bool) (f : Finding) (kind : Option LocationKind) (source : Json) :
    (t.resolve strict f kind source).Only p := by
  have huncovered (offset : Int) (instruction : Nat) : (t.uncovered strict offset instruction).Only p := by
    unfold uncovered
    split
    · exact Trace.only_lift _
    · exact Trace.only_note_pure (hp _ _ _) _
  have hoffset (offset : Int) : (t.resolveOffset strict offset source).Only p := by
    unfold resolveOffset
    split
    · exact Trace.only_pure _
    · split
      · exact huncovered offset _
      · split
        · exact Trace.only_pure _
        · exact Trace.only_lift _
  unfold resolve
  split
  · refine (Trace.only_lift _).bind fun text => ?_
    split
    · exact Trace.only_pure _
    · exact hoffset _
  · exact Trace.only_lift _
  · exact Trace.only_pure _

/-- No finding is dropped while it is resolved. -/
theorem keepsFindings_resolve (t : Tables) (strict : Bool) (f : Finding) (kind : Option LocationKind)
    (source : Json) : (t.resolve strict f kind source).KeepsFindings :=
  only_resolve (fun _ _ _ => rfl) t strict f kind source

/-- A finding that is to be dropped is noted once, any other not at all. -/
theorem suppressions_isSuppressed {f : Finding} {place : Resolution} {source : Json} {dropped : Bool}
    (h : (t.isSuppressed f place source).outcome = .ok dropped) :
    suppressions (t.isSuppressed f place source).notes = if dropped then 1 else 0 := by
  unfold isSuppressed at h ⊢
  split at h
  next hstart =>
    obtain rfl := Except.ok.inj h
    rfl
  next start hstart =>
    rw [Trace.outcome_bind] at h
    obtain ⟨around, haround, h⟩ := Except.bind_eq_ok.mp h
    rw [Trace.notes_bind haround]
    cases around with
    | none =>
      obtain rfl := Except.ok.inj h
      rfl
    | some node =>
      obtain rfl := Except.ok.inj h
      rfl

/-- The classification of a finding notes what it drops, and nothing else. -/
theorem isSuppressed_of_arrayAround {f : Finding} {place : Resolution} {source : Json} {start : Int}
    {around : Option Ast.Node} (hstart : place.srcStart = some start)
    (haround : t.arrayAround start place.srcLength (place.source.orElse source) = .ok around) :
    (t.isSuppressed f place source).outcome = .ok around.isSome ∧
      (t.isSuppressed f place source).notes.filter Event.isSuppression
        = around.toList.map fun node =>
          .issueSuppressed f.swcId (place.source.orElse source) node.declaredName := by
  unfold isSuppressed
  rw [hstart]
  dsimp only
  rw [Trace.outcome_bind, Trace.notes_bind haround, haround]
  cases around with
  | none => exact ⟨rfl, rfl⟩
  | some node => exact ⟨rfl, rfl⟩

/-- **A dynamic array lies around a place:** the place has a range, and the innermost declaration around it, in
the syntax tree of its source, is that of a dynamic array. -/
def HasArrayAround (t : Tables) (place : Resolution) (source : Json) (node : Ast.Node) : Prop :=
  ∃ start tree, place.srcStart = some start ∧
    t.treeFor (place.source.orElse source) = .ok (some tree) ∧
    tree.enclosing? start place.srcLength .variableDeclaration = some node ∧
    node.declaresDynamicArray = true

/-- The declaration is determined by the place. -/
theorem HasArrayAround.unique {place : Resolution} {source : Json} {node found : Ast.Node}
    (h : t.HasArrayAround place source node) (h' : t.HasArrayAround place source found) :
    node = found := by
  obtain ⟨start, tree, hstart, htree, hnode, -⟩ := h
  obtain ⟨start', tree', hstart', htree', hnode', -⟩ := h'
  obtain rfl : start = start' := Option.some.inj (hstart.symm.trans hstart')
  obtain rfl : tree = tree' := Option.some.inj (Except.ok.inj (htree.symm.trans htree'))
  exact Option.some.inj (hnode.symm.trans hnode')

theorem arrayAround_eq_some_iff {start length : Int} {source : Json} {node : Ast.Node} :
    t.arrayAround start length source = .ok (some node) ↔
      ∃ tree, t.treeFor source = .ok (some tree) ∧
        tree.enclosing? start length .variableDeclaration = some node ∧
        node.declaresDynamicArray = true := by
  unfold arrayAround
  rw [Except.bind_eq_ok]
  constructor
  · rintro ⟨tree, htree, h⟩
    cases tree with
    | none => cases h
    | some tree =>
      obtain ⟨hnode, hdynamic⟩ := Option.filter_eq_some_iff.mp (Except.pure_eq_ok.mp h)
      exact ⟨tree, htree, hnode, hdynamic⟩
  · rintro ⟨tree, htree, hnode, hdynamic⟩
    refine ⟨some tree, htree, Except.pure_eq_ok.mpr ?_⟩
    exact Option.filter_eq_some_iff.mpr ⟨hnode, hdynamic⟩

/-- **The classification of a finding:** it is dropped exactly if a dynamic array lies around its place, and that
is all that is noted. -/
theorem isSuppressed_eq_ok {f : Finding} {place : Resolution} {source : Json} {dropped : Bool}
    (h : (t.isSuppressed f place source).outcome = .ok dropped) :
    (dropped = true ∧ ∃ node, t.HasArrayAround place source node ∧
        (t.isSuppressed f place source).notes
          = [.issueSuppressed f.swcId (place.source.orElse source) node.declaredName]) ∨
      (dropped = false ∧ (∀ node, ¬ t.HasArrayAround place source node) ∧
        (t.isSuppressed f place source).notes = []) := by
  unfold isSuppressed at h ⊢
  split at h
  next hstart =>
    refine .inr ⟨(Except.ok.inj h).symm, ?_, rfl⟩
    rintro node ⟨start, tree, hrange, -⟩
    exact Option.some_ne_none start (hrange.symm.trans hstart)
  next start hstart =>
    rw [Trace.outcome_bind] at h
    obtain ⟨around, haround, h⟩ := Except.bind_eq_ok.mp h
    dsimp only
    rw [Trace.notes_bind haround]
    cases around with
    | none =>
      refine .inr ⟨(Except.ok.inj h).symm, ?_, rfl⟩
      rintro node ⟨first, tree, hrange, hnode⟩
      -- the array would have been found
      obtain rfl : start = first := Option.some.inj (hstart.symm.trans hrange)
      have hfound := haround.symm.trans (arrayAround_eq_some_iff.mpr ⟨tree, hnode⟩)
      cases hfound
    | some node =>
      obtain ⟨tree, hnode⟩ := arrayAround_eq_some_iff.mp haround
      exact .inl ⟨(Except.ok.inj h).symm, node, ⟨start, tree, hstart, hnode⟩, rfl⟩

/-- What is noted for a finding is what its resolution and its classification note. -/
theorem notes_normalize {f : Finding} {kind : Option LocationKind} {source : Json} {place : Resolution}
    {dropped : Bool} (fatal : Bool) (hplace : (t.resolve settings.strict f kind source).outcome = .ok place)
    (hdropped : (t.isSuppressed f place source).outcome = .ok dropped) :
    (t.normalize settings f kind source fatal).notes
      = (t.resolve settings.strict f kind source).notes ++ (t.isSuppressed f place source).notes := by
  unfold normalize
  rw [Trace.notes_bind hplace, Trace.notes_bind hdropped]
  -- making the message notes nothing
  have hrest : (if dropped = true then pure none else do
      return some (← Trace.lift (messageAt settings f fatal place)) :
      Observed (Option Message)).notes = [] := by
    cases dropped with
    | true => rfl
    | false => exact Trace.notes_lift_bind_pure _ _
  exact congrArg _ ((congrArg _ hrest).trans (List.append_nil _))

/-- The message at a place has the positions of the place. -/
theorem messageAt_positions {f : Finding} {fatal : Bool} {place : Resolution}
    {m : Message} (h : messageAt settings f fatal place = .ok m) :
    m.start = place.start ∧ m.stop = place.stop := by
  obtain ⟨severity, -, h⟩ := Except.bind_eq_ok.mp h
  obtain rfl := Except.pure_eq_ok.mp h
  exact ⟨rfl, rfl⟩

/-- The message keeps the severity that the scanner named, and its own severity and flag come from it. -/
theorem messageAt_severity {f : Finding} {fatal : Bool} {place : Resolution} {m : Message}
    (h : messageAt settings f fatal place = .ok m) :
    m.mythxSeverity = f.severity ∧ m.severity = (if f.severity.isText "High" then 2 else 1) ∧
      m.fatal = isFatal fatal m.severity := by
  obtain ⟨severity, hseverity, h⟩ := Except.bind_eq_ok.mp h
  obtain ⟨key, -, hseverity⟩ := Except.bind_eq_ok.mp hseverity
  obtain rfl := Except.pure_eq_ok.mp hseverity
  obtain rfl := Except.pure_eq_ok.mp h
  exact ⟨rfl, rfl, rfl⟩

/-- **A finding in a report:** it is resolved, and gives the message at its place unless it is dropped. -/
theorem normalize_eq_ok {f : Finding} {kind : Option LocationKind} {source : Json} {fatal : Bool}
    {m : Option Message} (h : (t.normalize settings f kind source fatal).outcome = .ok m) :
    ∃ place dropped, (t.resolve settings.strict f kind source).outcome = .ok place ∧
      (t.isSuppressed f place source).outcome = .ok dropped ∧
      (dropped = true ∧ m = none ∨
        dropped = false ∧ ∃ msg, messageAt settings f fatal place = .ok msg ∧ m = some msg) ∧
      suppressions (t.normalize settings f kind source fatal).notes = if dropped then 1 else 0 := by
  unfold normalize at h
  rw [Trace.outcome_bind] at h
  obtain ⟨place, hplace, h⟩ := Except.bind_eq_ok.mp h
  rw [Trace.outcome_bind] at h
  obtain ⟨dropped, hdropped, h⟩ := Except.bind_eq_ok.mp h
  have hnotes : suppressions (t.normalize settings f kind source fatal).notes
      = if dropped then 1 else 0 := by
    rw [notes_normalize fatal hplace hdropped, suppressions_append,
      (keepsFindings_resolve t _ f kind source).suppressions_eq, suppressions_isSuppressed hdropped,
      Nat.zero_add]
  refine ⟨place, dropped, hplace, hdropped, ?_, hnotes⟩
  -- What is left is the choice between dropping the finding and making its message.
  cases dropped with
  | true =>
    obtain rfl := Except.ok.inj h
    exact .inl ⟨rfl, rfl⟩
  | false =>
    obtain ⟨msg, hmsg, h⟩ := Except.bind_eq_ok.mp ((Trace.outcome_bind _ _).symm.trans h)
    obtain rfl := Except.ok.inj h
    exact .inr ⟨rfl, msg, hmsg, rfl⟩

/-- **One finding is one message or one suppression.** -/
theorem length_add_suppressions_normalize {f : Finding} {kind : Option LocationKind} {source : Json}
    {fatal : Bool} {m : Option Message}
    (h : (t.normalize settings f kind source fatal).outcome = .ok m) :
    m.toList.length + suppressions (t.normalize settings f kind source fatal).notes = 1 := by
  obtain ⟨place, dropped, -, -, hm, hnotes⟩ := normalize_eq_ok h
  rw [hnotes]
  rcases hm with ⟨rfl, rfl⟩ | ⟨rfl, msg, -, rfl⟩
  · rfl
  · rfl

/-! ### One source -/

theorem noteUnsupported_outcome (report : SourceReport) :
    (noteUnsupported report).outcome = .ok () := by
  unfold noteUnsupported
  split <;> rfl

theorem keepsFindings_noteUnsupported (report : SourceReport) :
    (noteUnsupported report).KeepsFindings := by
  unfold noteUnsupported
  split
  · exact Trace.only_note rfl
  · exact Trace.only_pure _

/-- **The report of a source** has the messages of its findings, in their order. -/
theorem normalizeReport_eq_ok {report : SourceReport} {r : FileReport}
    (h : (t.normalizeReport settings report).outcome = .ok r) :
    ∃ messages, (report.findings.mapM fun f =>
        t.normalize settings f (LocationKind.ofFormat? report.format) report.source false).outcome
          = .ok messages ∧
      r = ⟨report.source, messages.filterMap id, 0, 0⟩ := by
  unfold normalizeReport at h
  rw [Trace.outcome_bind, noteUnsupported_outcome] at h
  obtain ⟨messages, hmessages, h⟩ := Except.bind_eq_ok.mp ((Trace.outcome_bind _ _).symm.trans h)
  obtain rfl := Except.ok.inj h
  exact ⟨messages, hmessages, rfl⟩

/-- What is noted for a source is that its format is unknown, and then what is noted for its findings. -/
theorem notes_normalizeReport {report : SourceReport} {messages : List (Option Message)}
    (h : (report.findings.mapM fun f => t.normalize settings f (LocationKind.ofFormat? report.format)
      report.source false).outcome = .ok messages) :
    (t.normalizeReport settings report).notes = (noteUnsupported report).notes
      ++ (report.findings.mapM fun f => t.normalize settings f (LocationKind.ofFormat? report.format)
          report.source false).notes := by
  unfold normalizeReport
  rw [Trace.notes_bind (noteUnsupported_outcome report), Trace.notes_bind h, Trace.pure_notes,
    List.append_nil]

/-- The messages and the suppressions of a source are as many as its findings. -/
theorem length_add_suppressions_normalizeReport {report : SourceReport} {r : FileReport}
    (h : (t.normalizeReport settings report).outcome = .ok r) :
    r.messages.length + suppressions (t.normalizeReport settings report).notes
      = report.findings.length := by
  obtain ⟨messages, hmessages, rfl⟩ := normalizeReport_eq_ok h
  have hsum := sum_add_suppressions_mapM (fun m => m.toList.length) (fun _ => 1)
    (fun _ _ => length_add_suppressions_normalize) hmessages
  have hlength : (messages.filterMap id).length = (messages.map fun m => m.toList.length).sum := by
    rw [List.filterMap_eq_flatMap_toList, List.length_flatMap]
    rfl
  have hnotes : suppressions (t.normalizeReport settings report).notes
      = suppressions (report.findings.mapM fun f => t.normalize settings f
          (LocationKind.ofFormat? report.format) report.source false).notes := by
    rw [notes_normalizeReport hmessages, suppressions_append,
      (keepsFindings_noteUnsupported report).suppressions_eq, Nat.zero_add]
  rw [hnotes, hlength, hsum]
  simp

/-! ### Several sources -/

/-- **The messages and the suppressions of all sources** are as many as their findings. -/
theorem length_add_suppressions_normalizeAll {reports : List SourceReport} {rs : List FileReport}
    (h : (t.normalizeAll settings reports).outcome = .ok rs) :
    (rs.flatMap FileReport.messages).length + suppressions (t.normalizeAll settings reports).notes
      = (reports.map fun report => report.findings.length).sum := by
  rw [List.length_flatMap]
  exact sum_add_suppressions_mapM (fun r => r.messages.length)
    (fun report => report.findings.length)
    (fun _ _ => length_add_suppressions_normalizeReport) h

end Tables

end Pinpoint
