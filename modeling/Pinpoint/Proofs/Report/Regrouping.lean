import Mathlib.Data.List.Nodup
import Pinpoint.Proofs.Report.Grouping

/-!
# Merging what has been merged

Reports may be merged in parts: merging two lists of reports, and then the merged reports of both, is the
same as merging all of them at once (`groupByBasename_append`). So a batch can be put together from batches.
In particular merged reports stay as they are when they are merged again (`groupByBasename_idem`). Both are put
together in `exists_groupByBasename_pieces`.

Underneath is an algebra of adding reports to groups. Adding two reports of one name is adding their merger
(`addToGroups_merge`), and a report whose group is there already may as well be added before reports of other
names (`addToGroups_comm`); it may not if its group is new, for then the groups come in another order. For
added groups of distinct names both together give `foldl_addToGroups_addToGroups`, which is one step of the
induction.
-/

namespace Pinpoint.FileReport

/-- Groups of reports by name, in the order in which they were opened. -/
abbrev Groups := List (String × FileReport)

variable {groups added : Groups} {r x : String × FileReport}

/-- The names of groups. -/
abbrev names (groups : Groups) : List String := groups.map Prod.fst

/-! ### Adding a report -/

theorem merge_assoc (x y z : FileReport) : (x.merge y).merge z = x.merge (y.merge z) := by
  unfold merge
  simp only [List.append_assoc, Int.add_assoc]

/-- A report opens a group exactly if there is none of its name. -/
theorem names_addToGroups (groups : Groups) (r : String × FileReport) :
    names (addToGroups groups r)
      = if r.1 ∈ names groups then names groups else names groups ++ [r.1] := by
  induction groups with
  | nil => rfl
  | cons g groups ih =>
    unfold addToGroups
    by_cases hname : g.1 = r.1
    · have hmem : r.1 ∈ names (g :: groups) := by
        rw [← hname]
        exact List.mem_cons_self
      rw [if_pos hname, if_pos hmem]
      rfl
    · have hmem : r.1 ∈ names (g :: groups) ↔ r.1 ∈ names groups := by
        rw [names, List.map_cons, List.mem_cons]
        exact or_iff_right fun h => hname h.symm
      rw [if_neg hname]
      calc names (g :: addToGroups groups r)
          = g.1 :: names (addToGroups groups r) := rfl
        _ = g.1 :: if r.1 ∈ names groups then names groups else names groups ++ [r.1] := by rw [ih]
        _ = _ := by
          simp only [hmem]
          split <;> rfl

theorem mem_names_addToGroups {name : String} :
    name ∈ names (addToGroups groups r) ↔ name ∈ names groups ∨ name = r.1 := by
  rw [names_addToGroups]
  split
  next hmem =>
    constructor
    · exact .inl
    · rintro (h | rfl)
      · exact h
      · exact hmem
  next => rw [List.mem_append, List.mem_singleton]

theorem nodup_names_addToGroups (h : (names groups).Nodup) :
    (names (addToGroups groups r)).Nodup := by
  rw [names_addToGroups]
  split
  next => exact h
  next hnew =>
    refine List.nodup_append.mpr ⟨h, List.nodup_singleton r.1, ?_⟩
    intro a ha b hb heq
    obtain rfl := List.mem_singleton.mp hb
    exact hnew (heq ▸ ha)

/-- **Two reports of one name** are added as their merger. -/
theorem addToGroups_merge (groups : Groups) (name : String) (x y : FileReport) :
    addToGroups (addToGroups groups (name, x)) (name, y) = addToGroups groups (name, x.merge y) := by
  induction groups with
  | nil => exact if_pos rfl
  | cons g groups ih =>
    by_cases hname : g.1 = name
    · simp only [addToGroups, if_pos hname, merge_assoc]
    · simp only [addToGroups, if_neg hname, ih]

/-- **Reports of different names** may change places once there is a group for the later one. -/
theorem addToGroups_comm (hne : x.1 ≠ r.1) (hr : r.1 ∈ names groups) :
    addToGroups (addToGroups groups x) r = addToGroups (addToGroups groups r) x := by
  induction groups with
  | nil => exact absurd hr List.not_mem_nil
  | cons g groups ih =>
    -- the first group takes the one report, or the other, or neither
    by_cases hgr : g.1 = r.1
    · have hgx : g.1 ≠ x.1 := fun h => hne (h.symm.trans hgr)
      simp only [addToGroups, if_pos hgr, if_neg hgx]
    · have htail : r.1 ∈ names groups := by
        rcases List.mem_cons.mp hr with h | h
        · exact absurd h.symm hgr
        · exact h
      by_cases hgx : g.1 = x.1
      · simp only [addToGroups, if_neg hgr, if_pos hgx]
      · simp only [addToGroups, if_neg hgr, if_neg hgx, ih htail]

/-! ### Adding groups -/

/-- A report whose group is there may be added before or after groups of other names. -/
theorem foldl_addToGroups_comm (hr : r.1 ∈ names groups) (hadded : r.1 ∉ names added) :
    added.foldl addToGroups (addToGroups groups r)
      = addToGroups (added.foldl addToGroups groups) r := by
  induction added generalizing groups with
  | nil => rfl
  | cons g added ih =>
    obtain ⟨hne, hadded⟩ := not_or.mp (mt List.mem_cons.mpr hadded)
    -- its group is still there when the next one has been added
    have hr' : r.1 ∈ names (addToGroups groups g) := mem_names_addToGroups.mpr (.inl hr)
    rw [List.foldl_cons, List.foldl_cons, ← addToGroups_comm (fun h => hne h.symm) hr, ih hr' hadded]

/-- **Adding groups after a report** that was added to them is adding the groups and then the report. -/
theorem foldl_addToGroups_addToGroups (h : (names added).Nodup) (groups : Groups)
    (r : String × FileReport) :
    (addToGroups added r).foldl addToGroups groups
      = addToGroups (added.foldl addToGroups groups) r := by
  induction added generalizing groups with
  | nil => rfl
  | cons g added ih =>
    obtain ⟨hg, h⟩ := List.nodup_cons.mp h
    by_cases hname : g.1 = r.1
    · -- the report went into the first group, and the others have other names
      have hadd : addToGroups (g :: added) r = (g.1, g.2.merge r.2) :: added := if_pos hname
      have hmerged : addToGroups groups (g.1, g.2.merge r.2) = addToGroups (addToGroups groups g) r := by
        rw [← addToGroups_merge]
        exact congrArg (addToGroups _) (Prod.ext hname rfl)
      have hopened : r.1 ∈ names (addToGroups groups g) :=
        mem_names_addToGroups.mpr (.inr hname.symm)
      rw [hadd, List.foldl_cons, List.foldl_cons, hmerged,
        foldl_addToGroups_comm hopened (hname ▸ hg)]
    · -- the report goes on to the groups after the first
      have hadd : addToGroups (g :: added) r = g :: addToGroups added r := if_neg hname
      rw [hadd, List.foldl_cons, List.foldl_cons, ih h]

/-- Adding the groups of some reports is adding the reports. -/
theorem foldl_addToGroups_foldl (h : (names added).Nodup) (groups reports : Groups) :
    (reports.foldl addToGroups added).foldl addToGroups groups
      = reports.foldl addToGroups (added.foldl addToGroups groups) := by
  induction reports generalizing added with
  | nil => rfl
  | cons r reports ih =>
    rw [List.foldl_cons, List.foldl_cons, ih (nodup_names_addToGroups h),
      foldl_addToGroups_addToGroups h]

/-- **Merging in parts,** for reports with their names. -/
theorem foldl_addToGroups_append (xs ys : Groups) :
    (xs.foldl addToGroups [] ++ ys.foldl addToGroups []).foldl addToGroups []
      = (xs ++ ys).foldl addToGroups [] := by
  have hnone : (names []).Nodup := List.nodup_nil
  rw [List.foldl_append, foldl_addToGroups_foldl hnone, foldl_addToGroups_foldl hnone,
    List.foldl_append]
  rfl

/-! ### Merged reports -/

/-- A group keeps the path that it was opened with, and so its name. -/
theorem withName_of_mem_addToGroups (hgroups : ∀ g ∈ groups, withName g.2 = .ok g)
    (hr : withName r.2 = .ok r) : ∀ g ∈ addToGroups groups r, withName g.2 = .ok g := by
  induction groups with
  | nil =>
    intro g hg
    obtain rfl := List.mem_singleton.mp hg
    exact hr
  | cons head groups ih =>
    obtain ⟨hhead, hgroups⟩ := List.forall_mem_cons.mp hgroups
    unfold addToGroups
    split
    next =>
      -- merging keeps the path of the first report, and the name is read off that
      obtain ⟨path, hpath, hnamed⟩ := Except.bind_eq_ok.mp hhead
      have hname : Text.basename path = head.1 := congrArg Prod.fst (Except.pure_eq_ok.mp hnamed)
      refine List.forall_mem_cons.mpr ⟨?_, hgroups⟩
      exact Except.bind_eq_ok.mpr ⟨path, hpath, by rw [hname]; rfl⟩
    next => exact List.forall_mem_cons.mpr ⟨hhead, ih hgroups⟩

theorem withName_of_mem_foldl {reports : Groups} (hgroups : ∀ g ∈ groups, withName g.2 = .ok g)
    (hreports : ∀ r ∈ reports, withName r.2 = .ok r) :
    ∀ g ∈ reports.foldl addToGroups groups, withName g.2 = .ok g := by
  induction reports generalizing groups with
  | nil => exact hgroups
  | cons r reports ih =>
    obtain ⟨hr, hreports⟩ := List.forall_mem_cons.mp hreports
    exact ih (withName_of_mem_addToGroups hgroups hr) hreports

/-- Merged reports have the names of their groups. -/
theorem mapM_withName_groupNamed {reports : List FileReport} {named : Groups}
    (h : reports.mapM withName = .ok named) :
    (groupNamed named).mapM withName = .ok (named.foldl addToGroups []) := by
  have hnamed : ∀ r ∈ named, withName r.2 = .ok r := by
    intro r hr
    obtain ⟨report, -, hreport⟩ := List.exists_of_mem_forall₂ (List.mapM_eq_ok.mp h) hr
    obtain ⟨path, hpath, heq⟩ := Except.bind_eq_ok.mp hreport
    obtain rfl := Except.pure_eq_ok.mp heq
    exact hreport
  have hgroups := withName_of_mem_foldl (List.forall_mem_nil fun g => withName g.2 = .ok g) hnamed
  rw [groupNamed, List.mapM_eq_ok, List.forall₂_map_left_iff]
  exact List.forall₂_same.mpr hgroups

/-- **Merging in parts.** To merge two lists of reports, and then the merged reports, is to merge all
reports at once; one cannot be done where the other cannot. -/
theorem groupByBasename_append (xs ys : List FileReport) :
    groupByBasename (xs ++ ys) = (do
      let merged ← groupByBasename xs
      let others ← groupByBasename ys
      groupByBasename (merged ++ others)) := by
  unfold groupByBasename
  rw [List.mapM_append]
  cases hxs : xs.mapM withName with
  | error e => rfl
  | ok named =>
    cases hys : ys.mapM withName with
    | error e => rfl
    | ok others =>
      have hparts : (groupNamed named ++ groupNamed others).mapM withName
          = .ok (named.foldl addToGroups [] ++ others.foldl addToGroups []) := by
        rw [List.mapM_append, mapM_withName_groupNamed hxs, mapM_withName_groupNamed hys]
        rfl
      simp only [bind, Except.bind, pure, Except.pure, hparts]
      rw [groupNamed, groupNamed, foldl_addToGroups_append]

/-- What can be merged in parts can be merged, the parts once more as well as everything at once. -/
theorem exists_groupByBasename_append {xs ys merged others : List FileReport}
    (hxs : groupByBasename xs = .ok merged) (hys : groupByBasename ys = .ok others) :
    ∃ all, groupByBasename (xs ++ ys) = .ok all ∧ groupByBasename (merged ++ others) = .ok all := by
  have hall : groupByBasename (xs ++ ys) = groupByBasename (merged ++ others) := by
    rw [groupByBasename_append, hxs, hys]
    rfl
  obtain ⟨named, hnamed, -⟩ := Except.bind_eq_ok.mp hxs
  obtain ⟨more, hmore, -⟩ := Except.bind_eq_ok.mp hys
  have hok : groupByBasename (xs ++ ys) = .ok (groupNamed (named ++ more)) := by
    rw [groupByBasename, List.mapM_append, hnamed, hmore]
    rfl
  exact ⟨_, hok, hall ▸ hok⟩

/-- What has been merged stays as it is. -/
theorem groupByBasename_idem {xs merged : List FileReport} (h : groupByBasename xs = .ok merged) :
    groupByBasename merged = .ok merged := by
  -- there is nothing to merge in the other part
  have hnone : groupByBasename [] = .ok [] := rfl
  obtain ⟨all, hwhole, hagain⟩ := exists_groupByBasename_append h hnone
  rw [List.append_nil] at hwhole hagain
  obtain rfl : merged = all := Except.ok.inj (h.symm.trans hwhole)
  exact hagain

/-- **Merging piece by piece.** Reports whose paths are texts can be merged in two pieces. Merging the merged pieces
gives the very reports that come of merging everything at once, with their paths, the order of their messages and
their counts; and merged reports stay as they are when they are merged again. -/
theorem exists_groupByBasename_pieces {xs ys : List FileReport}
    (hxs : ∀ r ∈ xs, ∃ path, r.filePath = .str path) (hys : ∀ r ∈ ys, ∃ path, r.filePath = .str path) :
    ∃ merged others all, groupByBasename xs = .ok merged ∧ groupByBasename ys = .ok others ∧
      groupByBasename (merged ++ others) = .ok all ∧ groupByBasename (xs ++ ys) = .ok all ∧
      groupByBasename merged = .ok merged := by
  obtain ⟨merged, hmerged⟩ := exists_groupByBasename hxs
  obtain ⟨others, hothers⟩ := exists_groupByBasename hys
  obtain ⟨all, hwhole, hpieces⟩ := exists_groupByBasename_append hmerged hothers
  exact ⟨merged, others, all, hmerged, hothers, hpieces, hwhole, groupByBasename_idem hmerged⟩

/-- Reports of a first deployment: one file is reported twice, under two directories. -/
def firstDeployment : List FileReport :=
  [⟨"src/b.sol", [⟨"SWC-101", "first", 2, "High", true, ⟨1, 0⟩, none⟩], 1, 0⟩, ⟨"a.sol", [], 0, 2⟩,
    ⟨"b.sol", [⟨"SWC-103", "second", 1, "Low", false, ⟨2, 4⟩, some ⟨2, 7⟩⟩], 0, 1⟩]

/-- Reports of a second deployment: on a file of its own, and on both files of the first one. -/
def secondDeployment : List FileReport :=
  [⟨"c.sol", [], 0, 0⟩, ⟨"lib/a.sol", [⟨"SWC-110", "third", 2, "Medium", false, ⟨3, 0⟩, none⟩], 1, 1⟩,
    ⟨"lib/b.sol", [⟨"SWC-107", "fourth", 1, "Medium", false, ⟨4, 2⟩, none⟩], 2, 0⟩]

theorem deployments_merged :
    (∀ r ∈ firstDeployment, ∃ path, r.filePath = .str path) ∧
    (∀ r ∈ secondDeployment, ∃ path, r.filePath = .str path) ∧
    ∃ merged others all, groupByBasename firstDeployment = .ok merged ∧
      groupByBasename secondDeployment = .ok others ∧ groupByBasename (merged ++ others) = .ok all ∧
      groupByBasename (firstDeployment ++ secondDeployment) = .ok all ∧
      groupByBasename merged = .ok merged ∧ merged.map filePath = ["src/b.sol", "a.sol"] ∧
      all.map filePath = ["src/b.sol", "a.sol", "c.sol"] ∧
      all.map (·.messages.map Message.message)
        = [[.str "first", .str "second", .str "fourth"], [.str "third"], []] ∧
      all.map errorCount = [1, 1, 0] ∧ all.map fixableErrorCount = [3, 1, 0] := by
  have hfirst : ∀ r ∈ firstDeployment, ∃ path, r.filePath = .str path := by
    simp [firstDeployment]
  have hsecond : ∀ r ∈ secondDeployment, ∃ path, r.filePath = .str path := by
    simp [secondDeployment]
  obtain ⟨merged, others, all, hmerged, hothers, hpieces, hwhole, hagain⟩ :=
    exists_groupByBasename_pieces hfirst hsecond
  have hfirstValue : groupByBasename firstDeployment = .ok
      [⟨"src/b.sol", [⟨"SWC-101", "first", 2, "High", true, ⟨1, 0⟩, none⟩,
          ⟨"SWC-103", "second", 1, "Low", false, ⟨2, 4⟩, some ⟨2, 7⟩⟩], 1, 1⟩,
        ⟨"a.sol", [], 0, 2⟩] := by
    cbv
  have hwholeValue : groupByBasename (firstDeployment ++ secondDeployment) = .ok
      [⟨"src/b.sol", [⟨"SWC-101", "first", 2, "High", true, ⟨1, 0⟩, none⟩,
          ⟨"SWC-103", "second", 1, "Low", false, ⟨2, 4⟩, some ⟨2, 7⟩⟩,
          ⟨"SWC-107", "fourth", 1, "Medium", false, ⟨4, 2⟩, none⟩], 3, 1⟩,
        ⟨"a.sol", [⟨"SWC-110", "third", 2, "Medium", false, ⟨3, 0⟩, none⟩], 1, 3⟩,
        ⟨"c.sol", [], 0, 0⟩] := by
    cbv
  refine ⟨hfirst, hsecond, merged, others, all, hmerged, hothers, hpieces, hwhole, hagain, ?_⟩
  obtain rfl := Except.ok.inj (hmerged.symm.trans hfirstValue)
  obtain rfl := Except.ok.inj (hwhole.symm.trans hwholeValue)
  exact ⟨rfl, rfl, rfl, rfl, rfl⟩

end Pinpoint.FileReport
