import Pinpoint.Proofs.Trace
import Pinpoint.Report.Group

/-!
# Merging loses no message

A report that is added to the groups has its messages put behind those of the group with its name, or
makes a group of its own. Either way the messages of all groups are those that were there and those that
are added, up to their order (`flatMap_messages_addToGroups`); so the merged reports have the messages of
the reports they are merged from (`flatMap_messages_groupByBasename`).
-/

namespace Pinpoint.FileReport

/-- The messages of a report are its errors and its warnings. -/
theorem errorCount_add_warningCount (r : FileReport) :
    r.errorCount + r.warningCount = r.messages.length :=
  Nat.add_sub_cancel' List.countP_le_length

/-- Adding a report adds its messages. -/
theorem flatMap_messages_addToGroups (groups : List (String × FileReport)) (r : String × FileReport) :
    List.Perm ((addToGroups groups r).flatMap (·.2.messages))
      (groups.flatMap (·.2.messages) ++ r.2.messages) := by
  induction groups with
  | nil => exact .of_eq (List.flatMap_singleton _ _)
  | cons g groups ih =>
    unfold addToGroups
    split
    next =>
      -- The group's own messages come before those added, the other groups' after them.
      rw [List.flatMap_cons, List.flatMap_cons, merge, List.append_assoc, List.append_assoc]
      exact List.perm_append_comm.append_left g.2.messages
    next =>
      rw [List.flatMap_cons, List.flatMap_cons, List.append_assoc]
      exact ih.append_left g.2.messages

theorem flatMap_messages_foldl_addToGroups (reports groups : List (String × FileReport)) :
    List.Perm ((reports.foldl addToGroups groups).flatMap (·.2.messages))
      (groups.flatMap (·.2.messages) ++ reports.flatMap (·.2.messages)) := by
  induction reports generalizing groups with
  | nil => exact .of_eq (List.append_nil _).symm
  | cons r reports ih =>
    rw [List.foldl_cons, List.flatMap_cons, ← List.append_assoc]
    exact (ih _).trans ((flatMap_messages_addToGroups groups r).append_right _)

/-- Reports whose paths are texts can be merged. -/
theorem exists_groupByBasename {reports : List FileReport}
    (h : ∀ r ∈ reports, ∃ path, r.filePath = .str path) :
    ∃ merged, groupByBasename reports = .ok merged := by
  have hnamed : ∀ r ∈ reports, ∃ named, withName r = .ok named := by
    intro r hr
    obtain ⟨path, hpath⟩ := h r hr
    unfold withName
    rw [hpath]
    exact ⟨_, rfl⟩
  obtain ⟨named, hnamed⟩ := List.mapM_isOk hnamed
  exact ⟨groupNamed named, Except.bind_eq_ok.mpr ⟨named, hnamed, rfl⟩⟩

/-- Naming reports leaves them as they are. -/
theorem map_snd_of_mapM_withName {reports : List FileReport} {named : List (String × FileReport)}
    (h : reports.mapM withName = .ok named) : named.map (·.2) = reports := by
  rw [List.mapM_eq_ok] at h
  induction h with
  | nil => rfl
  | cons hr _ ih =>
    obtain ⟨path, -, hr⟩ := Except.bind_eq_ok.mp hr
    obtain rfl := Except.pure_eq_ok.mp hr
    rw [List.map_cons, ih]

/-- **No message is lost or doubled** when reports are merged. -/
theorem flatMap_messages_groupByBasename {reports merged : List FileReport}
    (h : groupByBasename reports = .ok merged) :
    List.Perm (merged.flatMap messages) (reports.flatMap messages) := by
  obtain ⟨named, hnamed, h⟩ := Except.bind_eq_ok.mp h
  obtain rfl := Except.pure_eq_ok.mp h
  rw [← map_snd_of_mapM_withName hnamed, groupNamed, List.flatMap_map, List.flatMap_map]
  exact flatMap_messages_foldl_addToGroups named []

end Pinpoint.FileReport
