import Pinpoint.CommandLine.Input
import Pinpoint.Proofs.Json.Objects
import Pinpoint.Proofs.Trace

/-!
# What the input was read from

Input that was read is taken back to the files: the results to an object that maps names to lists
(`readResults_eq_ok`), the artifacts to the build records in the order of the files (`readInput_eq_ok`). An
object that was read has no name twice, so what is listed under a name is all that there is for it
(`Results.of_of_mem`).
-/

namespace Pinpoint.CommandLine

variable {t : FileTree} {path : Path} {builds : List Path}

/-- A value that was read is that of the text of the file. -/
theorem readJson_eq_ok {j : Json} :
    readJson t path = .ok j ↔ ∃ text, t.readText path = .ok text ∧ Json.parse text = .ok j := by
  unfold readJson
  rw [Except.bind_eq_ok]
  simp only [Except.mapError_eq_ok]

/-- Results that were read are those of an object, name by name. -/
theorem readResults_eq_ok {results : Results} :
    readResults t path = .ok results ↔ ∃ fields, readJson t path = .ok (.obj fields) ∧
      List.Forall₂ (fun f r => listed f.2 = .ok r.2 ∧ r.1 = f.1) fields results := by
  unfold readResults
  rw [Except.bind_eq_ok]
  constructor
  · rintro ⟨j, hj, h⟩
    split at h
    next fields =>
      refine ⟨fields, hj, (List.mapM_eq_ok.mp h).imp fun f r hr => ?_⟩
      obtain ⟨items, hitems, hr⟩ := Except.bind_eq_ok.mp hr
      obtain rfl := Except.pure_eq_ok.mp hr
      exact ⟨hitems, rfl⟩
    next => cases h
  · rintro ⟨fields, hj, hall⟩
    refine ⟨_, hj, List.mapM_eq_ok.mpr (hall.imp fun f r hr => ?_)⟩
    obtain ⟨hitems, hname⟩ := hr
    exact Except.bind_eq_ok.mpr ⟨r.2, hitems, by rw [Except.pure_eq_ok, ← hname]⟩

/-- A build file is read as a value, and then as a record. -/
theorem readBuild_outcome (t : FileTree) (path : Path) :
    (readBuild t path).outcome = (do
      let build ← readJson t path
      (Artifact.read build).outcome.mapError .content) := by
  simp only [readBuild, Trace.outcome_bind, Trace.lift_outcome]
  rfl

theorem readInput_outcome (t : FileTree) (results : Path) (builds : List Path) :
    (readInput t results builds).outcome = (do
      let results ← readResults t results
      let artifacts ← builds.mapM fun path => (readBuild t path).outcome
      return ⟨results, artifacts⟩) := by
  simp only [readInput, Trace.outcome_bind, Trace.lift_outcome, Trace.outcome_mapM,
    Trace.pure_outcome]
  rfl

/-- **Input that was read** consists of the results and of one artifact for each of the build files. -/
theorem readInput_eq_ok {results : Path} {input : Input} :
    (readInput t results builds).outcome = .ok input ↔ readResults t results = .ok input.results ∧
      List.Forall₂ (fun path a => (readBuild t path).outcome = .ok a) builds input.artifacts := by
  rw [readInput_outcome, Except.bind_eq_ok]
  constructor
  · rintro ⟨rs, hrs, h⟩
    obtain ⟨artifacts, hartifacts, h⟩ := Except.bind_eq_ok.mp h
    obtain rfl := Except.pure_eq_ok.mp h
    exact ⟨hrs, List.mapM_eq_ok.mp hartifacts⟩
  · rintro ⟨hrs, hartifacts⟩
    exact ⟨_, hrs, Except.bind_eq_ok.mpr ⟨_, List.mapM_eq_ok.mpr hartifacts, rfl⟩⟩

/-- Reading a build file notes what reading the record notes. -/
theorem readBuild_notes {build : Json} (h : readJson t path = .ok build) :
    (readBuild t path).notes = (Artifact.read build).notes :=
  Trace.notes_bind (x := Trace.lift (readJson t path)) h _

/-- A build file may hold nothing but the name of its contract. -/
theorem readBuild_of_nameOnly (h : t.readText path = .ok "\x7b\"contractName\":\"A\"\x7d".toList) :
    (readBuild t path).outcome = .ok ⟨"A", "", "", "", "", [], []⟩ ∧ (readBuild t path).notes = [] := by
  have hrecord : readJson t path = .ok (.obj [("contractName", "A")]) :=
    readJson_eq_ok.mpr ⟨_, h, by cbv⟩
  rw [readBuild_outcome, readBuild_notes hrecord, hrecord]
  constructor
  · cbv
  · cbv

/-- Reading the input notes what reading the build files notes. -/
theorem readInput_notes {results : Path} {input : Input}
    (h : (readInput t results builds).outcome = .ok input) :
    (readInput t results builds).notes = builds.flatMap fun path => (readBuild t path).notes := by
  obtain ⟨hresults, hbuilds⟩ := readInput_eq_ok.mp h
  have hartifacts : (builds.mapM (readBuild t)).outcome = .ok input.artifacts := by
    rw [Trace.outcome_mapM]
    exact List.mapM_eq_ok.mpr hbuilds
  unfold readInput
  rw [Trace.notes_bind (x := Trace.lift (readResults t results)) hresults, Trace.notes_bind hartifacts,
    Trace.notes_mapM hartifacts]
  simp only [Trace.lift_notes, Trace.pure_notes, List.nil_append, List.append_nil]

/-- A text is the only value whose key is a text. -/
theorem eq_str_of_key {j : Json} {s : String} (h : j.key = .ok (.text s)) : j = .str s := by
  cases j with
  | str s' =>
    obtain rfl := Json.Key.text.inj (Except.ok.inj h)
    rfl
  | null => cases h
  | bool b => cases h
  | int n => cases h
  | float x =>
    have hkey : (x.integer?.map Json.Key.number).getD (.fraction x) = .text s := Except.ok.inj h
    cases hx : x.integer? with
    | none => rw [hx] at hkey; cases hkey
    | some n => rw [hx] at hkey; cases hkey
  | arr items => cases h
  | obj fields => cases h

/-- No name is given twice in results that were read. -/
theorem nodup_names_of_readResults {results : Results} (h : readResults t path = .ok results) :
    (results.map (·.1)).Nodup := by
  obtain ⟨fields, hread, hall⟩ := readResults_eq_ok.mp h
  obtain ⟨text, -, hparse⟩ := readJson_eq_ok.mp hread
  have hnames : fields.map (·.1) = results.map (·.1) := by
    rw [← List.forall₂_eq_eq_eq, List.forall₂_map_left_iff, List.forall₂_map_right_iff]
    exact hall.imp fun f r hr => hr.2.symm
  rw [← hnames]
  exact (Json.everywhere_obj.mp (Json.distinctNames_of_parse hparse)).1

/-- **What is listed under a name** is all that there is for the contract of that name. -/
theorem Results.of_of_mem {results : Results} (h : (results.map (·.1)).Nodup)
    {r : String × List Json} (hr : r ∈ results) : results.of (.text r.1) = r.2 := by
  induction results with
  | nil => exact absurd hr List.not_mem_nil
  | cons first rest ih =>
    rw [List.map_cons, List.nodup_cons] at h
    obtain ⟨hnew, hrest⟩ := h
    rcases List.mem_cons.mp hr with rfl | hr
    · simp [Results.of]
    · -- the first name is another one, or it would be given twice
      have hne : first.1 ≠ r.1 := by
        intro heq
        exact hnew (heq ▸ List.mem_map_of_mem hr)
      rw [← ih hrest hr]
      have hkey : Json.Key.text r.1 ≠ Json.Key.text first.1 := by
        intro heq
        exact hne (Json.Key.text.inj heq).symm
      unfold Results.of
      rw [List.find?_cons_of_neg (by simpa using hkey)]

end Pinpoint.CommandLine
