import Pinpoint.Proofs.Report.Regrouping

/-!
# What merging puts into a group

The group of a name is the merger of all reports of that name, in their order, and there is none if no report
has the name (`lookup_foldl_addToGroups`). Its messages are then theirs, one after the other, and its counts are
the sums of theirs (`foldl_merge`).

Another order of the reports gives the groups another order, and the messages within a group as well; nothing
else depends on it (`groupByBasename_perm`). That two reports differ in no other way is `Alike`, and for lists of
merged reports it is `SameFiles`.
-/

namespace Pinpoint.FileReport

variable {groups reports others : Groups} {r : String × FileReport} {name : String}

/-- The last component of the path of a report, if the path is a text. -/
def basename? (r : FileReport) : Option String :=
  match r.filePath with
  | .str path => some (Text.basename path)
  | _ => none

theorem exists_path_of_basename? {r : FileReport} (h : r.basename? ≠ none) :
    ∃ path, r.filePath = .str path := by
  unfold basename? at h
  split at h
  next path hpath => exact ⟨path, hpath⟩
  next => exact absurd rfl h

/-! ### The group of a name -/

/-- The merger of reports, one after the other, if there are any. -/
def merger : List FileReport → Option FileReport
  | [] => none
  | r :: rest => some (rest.foldl merge r)

/-- The reports of a name, in their order. -/
def reportsNamed (reports : Groups) (name : String) : List FileReport :=
  (reports.filter (·.1 = name)).map (·.2)

theorem reportsNamed_concat (reports : Groups) (r : String × FileReport) (name : String) :
    reportsNamed (reports ++ [r]) name
      = if r.1 = name then reportsNamed reports name ++ [r.2] else reportsNamed reports name := by
  unfold reportsNamed
  rw [List.filter_append, List.map_append, List.filter_singleton]
  by_cases hname : r.1 = name
  · rw [decide_eq_true hname, if_pos hname]
    rfl
  · rw [decide_eq_false hname, if_neg hname]
    exact List.append_nil _

/-- One more report is merged into what there is. -/
theorem merger_concat (reports : List FileReport) (r : FileReport) :
    merger (reports ++ [r]) = some ((merger reports).elim r (·.merge r)) := by
  cases reports with
  | nil => rfl
  | cons first rest =>
    show some ((rest ++ [r]).foldl merge first) = some ((rest.foldl merge first).merge r)
    rw [List.foldl_append]
    rfl

/-- **Adding a report** changes the group of its name and no other. -/
theorem lookup_addToGroups (groups : Groups) (r : String × FileReport) (name : String) :
    (addToGroups groups r).lookup name
      = if r.1 = name then some ((groups.lookup name).elim r.2 (·.merge r.2))
        else groups.lookup name := by
  induction groups with
  | nil =>
    show ([(r.1, r.2)].lookup name) = _
    rw [List.lookup_cons]
    by_cases hname : r.1 = name
    · rw [if_pos hname, beq_iff_eq.mpr hname.symm]
      rfl
    · rw [if_neg hname, beq_eq_false_iff_ne.mpr fun h => hname h.symm]
  | cons g groups ih =>
    unfold addToGroups
    by_cases hgroup : g.1 = r.1
    · -- the first group takes the report, and is the group of that name and of no other
      rw [if_pos hgroup, List.lookup_cons, List.lookup_cons, hgroup]
      by_cases hname : r.1 = name
      · rw [if_pos hname, beq_iff_eq.mpr hname.symm]
        rfl
      · rw [if_neg hname, beq_eq_false_iff_ne.mpr fun h => hname h.symm]
    · rw [if_neg hgroup, List.lookup_cons, List.lookup_cons, ih]
      by_cases hname : g.1 = name
      · have hother : r.1 ≠ name := fun h => hgroup (hname.trans h.symm)
        rw [beq_iff_eq.mpr hname.symm]
        exact (if_neg hother).symm
      · rw [beq_eq_false_iff_ne.mpr fun h => hname h.symm]

/-- **The group of a name** is the merger of the reports of that name. -/
theorem lookup_foldl_addToGroups (reports : Groups) (name : String) :
    (reports.foldl addToGroups []).lookup name = merger (reportsNamed reports name) := by
  -- the last report is the one that was added last
  induction reports using List.reverseRecOn with
  | nil => rfl
  | append_singleton reports r ih =>
    rw [List.foldl_append, List.foldl_cons, List.foldl_nil, lookup_addToGroups, ih, reportsNamed_concat]
    split
    next => exact (merger_concat _ r.2).symm
    next => rfl

theorem mem_names_foldl : name ∈ names (reports.foldl addToGroups groups) ↔
    name ∈ names groups ∨ name ∈ names reports := by
  induction reports generalizing groups with
  | nil => exact (or_iff_left List.not_mem_nil).symm
  | cons r reports ih =>
    rw [List.foldl_cons, ih, mem_names_addToGroups, or_assoc, names, names, names, List.map_cons,
      List.mem_cons]

theorem nodup_names_foldl (h : (names groups).Nodup) :
    (names (reports.foldl addToGroups groups)).Nodup := by
  induction reports generalizing groups with
  | nil => exact h
  | cons r reports ih => exact ih (nodup_names_addToGroups h)

/-- In groups of distinct names each group is the one found under its name. -/
theorem lookup_eq_of_mem (h : (names groups).Nodup) (hr : r ∈ groups) :
    groups.lookup r.1 = some r.2 := by
  induction groups with
  | nil => cases hr
  | cons g groups ih =>
    obtain ⟨hg, h⟩ := List.nodup_cons.mp h
    rw [List.lookup_cons]
    rcases List.mem_cons.mp hr with rfl | hr
    · rw [beq_self_eq_true]
    · have hne : r.1 ≠ g.1 := fun heq => hg (heq ▸ List.mem_map_of_mem hr)
      rw [beq_eq_false_iff_ne.mpr hne]
      exact ih h hr

/-! ### What a merger consists of -/

/-- **The contents of a merger:** the path of the first report, the messages of all and the sums of their
counts. -/
theorem foldl_merge (rest : List FileReport) (r : FileReport) :
    rest.foldl merge r = ⟨r.filePath, (r :: rest).flatMap messages,
      ((r :: rest).map fixableErrorCount).sum, ((r :: rest).map fixableWarningCount).sum⟩ := by
  induction rest generalizing r with
  | nil =>
    simp only [List.foldl_nil, List.flatMap_cons, List.flatMap_nil, List.append_nil, List.map_cons,
      List.map_nil, List.sum_cons, List.sum_nil, Int.add_zero]
  | cons s rest ih =>
    rw [List.foldl_cons, ih]
    simp only [merge, List.flatMap_cons, List.map_cons, List.sum_cons, List.append_assoc, Int.add_assoc]

/-- Two reports on a file tell the same, in whatever order. -/
structure Alike (r s : FileReport) : Prop where
  messages : List.Perm r.messages s.messages
  errorCount : r.errorCount = s.errorCount
  warningCount : r.warningCount = s.warningCount
  fixableErrorCount : r.fixableErrorCount = s.fixableErrorCount
  fixableWarningCount : r.fixableWarningCount = s.fixableWarningCount

/-- Errors and warnings are counted among the messages, in whatever order these are. -/
theorem alike_of_perm {r s : FileReport} (hmessages : List.Perm r.messages s.messages)
    (herrors : r.fixableErrorCount = s.fixableErrorCount)
    (hwarnings : r.fixableWarningCount = s.fixableWarningCount) : r.Alike s := by
  have hcount : r.errorCount = s.errorCount := hmessages.countP_eq _
  refine ⟨hmessages, hcount, ?_, herrors, hwarnings⟩
  rw [warningCount, warningCount, hmessages.length_eq, hcount]

/-- **Mergers of the same reports** are alike. -/
theorem merger_perm {xs ys : List FileReport} (h : List.Perm xs ys) {r s : FileReport}
    (hr : merger xs = some r) (hs : merger ys = some s) : r.Alike s := by
  cases xs with
  | nil => cases hr
  | cons x xs =>
    cases ys with
    | nil => cases hs
    | cons y ys =>
      obtain rfl := Option.some.inj hr
      obtain rfl := Option.some.inj hs
      rw [foldl_merge, foldl_merge]
      exact alike_of_perm (h.flatMap_right _) (h.map _).sum_eq (h.map _).sum_eq

/-! ### Reports in another order -/

/-- Two lists of reports are on the same files, each with one report on each file, and the reports on a file are
alike. -/
structure SameFiles (xs ys : List FileReport) : Prop where
  named : ∀ r ∈ xs, r.basename? ≠ none
  distinct : (xs.map basename?).Nodup
  names : List.Perm (xs.map basename?) (ys.map basename?)
  alike : ∀ r ∈ xs, ∀ s ∈ ys, r.basename? = s.basename? → r.Alike s

/-- A report is named by the last component of its path, and is an error without one. -/
theorem withName_eq (r : FileReport) :
    withName r = match r.basename? with
      | some name => .ok (name, r)
      | none => .error .wrongType := by
  unfold withName basename?
  cases r.filePath <;> rfl

theorem withName_eq_ok {r : FileReport} {named : String × FileReport} :
    withName r = .ok named ↔ r.basename? = some named.1 ∧ named.2 = r := by
  rw [withName_eq]
  constructor
  · intro h
    split at h
    next name hname =>
      cases h
      exact ⟨hname, rfl⟩
    next => cases h
  · rintro ⟨hname, rfl⟩
    rw [hname]

/-- The same reports in another order are given the same names. -/
theorem exists_named_perm {xs ys : List FileReport} (h : List.Perm xs ys)
    (hxs : xs.mapM withName = .ok reports) :
    ∃ others, ys.mapM withName = .ok others ∧ List.Perm others reports := by
  rw [List.mapM_eq_ok] at hxs
  obtain ⟨others, hothers, hperm⟩ := List.perm_comp_forall₂ h.symm hxs
  exact ⟨others, List.mapM_eq_ok.mpr hothers, hperm⟩

/-- Each group is named as the report in it is. -/
theorem basename?_of_mem_foldl {xs : List FileReport} (h : xs.mapM withName = .ok reports)
    (hr : r ∈ reports.foldl addToGroups []) : r.2.basename? = some r.1 := by
  have hgroups := mapM_withName_groupNamed h
  rw [groupNamed, List.mapM_eq_ok, List.forall₂_map_left_iff, List.forall₂_same] at hgroups
  exact (withName_eq_ok.mp (hgroups r hr)).1

theorem map_basename?_groupNamed {xs : List FileReport} (h : xs.mapM withName = .ok reports) :
    (groupNamed reports).map basename? = (names (reports.foldl addToGroups [])).map some := by
  rw [groupNamed, List.map_map, List.map_map]
  exact List.map_congr_left fun g hg => basename?_of_mem_foldl h hg

/-- Groups of the same reports with the same name are alike. -/
theorem alike_of_mem_foldl {g : String × FileReport} (h : List.Perm others reports)
    (hr : r ∈ reports.foldl addToGroups []) (hg : g ∈ others.foldl addToGroups [])
    (hname : r.1 = g.1) : r.2.Alike g.2 := by
  have hnone : (names []).Nodup := List.nodup_nil
  have hleft := lookup_eq_of_mem (nodup_names_foldl hnone) hr
  have hright := lookup_eq_of_mem (nodup_names_foldl hnone) hg
  rw [lookup_foldl_addToGroups] at hleft hright
  rw [← hname] at hright
  exact merger_perm ((h.symm.filter _).map _) hleft hright

/-- **Merging in another order** gives reports on the same files, which are alike. -/
theorem groupByBasename_perm {xs ys merged : List FileReport} (h : List.Perm xs ys)
    (hxs : groupByBasename xs = .ok merged) :
    ∃ more, groupByBasename ys = .ok more ∧ SameFiles merged more := by
  obtain ⟨reports, hreports, hmerged⟩ := Except.bind_eq_ok.mp hxs
  obtain rfl := Except.pure_eq_ok.mp hmerged
  obtain ⟨others, hothers, hperm⟩ := exists_named_perm h hreports
  have hnone : (names []).Nodup := List.nodup_nil
  have hnames := map_basename?_groupNamed hreports
  have hmore := map_basename?_groupNamed hothers
  refine ⟨groupNamed others, Except.bind_eq_ok.mpr ⟨others, hothers, rfl⟩, ?_, ?_, ?_, ?_⟩
  · intro r hr hnone
    obtain ⟨g, hg, rfl⟩ := List.mem_map.mp hr
    rw [basename?_of_mem_foldl hreports hg] at hnone
    cases hnone
  · rw [hnames]
    exact (nodup_names_foldl hnone).map (Option.some_injective String)
  · -- a name has a group in either order exactly if a report has it
    have hsame : List.Perm (names (reports.foldl addToGroups []))
        (names (others.foldl addToGroups [])) := by
      refine (List.perm_ext_iff_of_nodup (nodup_names_foldl hnone) (nodup_names_foldl hnone)).mpr ?_
      intro name
      rw [mem_names_foldl, mem_names_foldl]
      exact or_congr_right (hperm.symm.map Prod.fst).mem_iff
    rw [hnames, hmore]
    exact hsame.map some
  · intro r hr s hs heq
    obtain ⟨g, hg, rfl⟩ := List.mem_map.mp hr
    obtain ⟨k, hk, rfl⟩ := List.mem_map.mp hs
    rw [basename?_of_mem_foldl hreports hg, basename?_of_mem_foldl hothers hk] at heq
    exact alike_of_mem_foldl hperm hg hk (Option.some.inj heq)

/-- Reports cannot be merged if one of them has no name. -/
theorem groupByBasename_eq_error {xs : List FileReport} (h : ∃ r ∈ xs, r.basename? = none) :
    groupByBasename xs = .error .wrongType := by
  have hnamed : xs.mapM withName = .error .wrongType := by
    apply List.mapM_eq_error
    · intro r _
      rw [withName_eq]
      cases r.basename? with
      | none => exact .inr rfl
      | some name => exact .inl ⟨_, rfl⟩
    · obtain ⟨r, hr, hnone⟩ := h
      refine ⟨r, hr, ?_⟩
      rw [withName_eq, hnone]
  rw [groupByBasename, hnamed]
  rfl

end Pinpoint.FileReport
