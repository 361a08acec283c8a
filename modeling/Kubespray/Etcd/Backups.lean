import Kubespray.Lib.Decimal
import Kubespray.Lib.Retention
import Mathlib.Data.String.Basic

/-!
# The backups of etcd

`roles/etcd/handlers/backup.yml` makes a directory that is named after the time, fills it with a
snapshot and removes the old directories: of the names in the order of `sort -n` all but the last
`etcd_backup_retention_count`. A run that fails before leaves its directory, perhaps without a
snapshot.

The names have no number in front, so `sort -n` orders them as texts, and the times are written with
leading zeros, so this is the order of the times (`backupName_lt`). They have no blanks or quotes, at
which `xargs` would split them, and there is none within a backup, to which `find` would descend.
After any sequence of runs the greatest names of all that were ever there are left (`backups_kept`).
-/

namespace Kubespray

/-- A date and a time, as `ansible_date_time` has them. -/
structure DateTime where
  year : Nat
  month : Nat
  day : Nat
  hour : Nat
  minute : Nat
  second : Nat
  year_lt : year < 10000
  rest_lt : ∀ n ∈ [month, day, hour, minute, second], n < 100

/-- From the year to the second. -/
def DateTime.fields (t : DateTime) : List Nat :=
  [t.year, t.month, t.day, t.hour, t.minute, t.second]

/-- The texts before the numbers of `etcd-{{ date }}_{{ time }}`, and the widths of these. -/
def backupFormat : List (List Char × Nat) :=
  [("etcd-".toList, 4), (['-'], 2), (['-'], 2), (['_'], 2), ([':'], 2), ([':'], 2)]

/-- `Set Backup Directory`: the last part of `etcd_backup_directory`. -/
def backupName (t : DateTime) : String := String.ofList (Decimal.render backupFormat t.fields)

/-- The directories `etcd-*` below `etcd_backup_prefix`, which are those of backups. -/
structure BackupDirs where
  names : List String
  nodup : names.Nodup
  made : ∀ name ∈ names, ∃ t, backupName t = name

/-- No directories. -/
def BackupDirs.none : BackupDirs := ⟨[], List.nodup_nil, by simp⟩

/-- `Create Backup Directory`. -/
def BackupDirs.create (d : BackupDirs) (t : DateTime) : BackupDirs where
  names := if backupName t ∈ d.names then d.names else d.names ++ [backupName t]
  nodup := by
    split
    · exact d.nodup
    · next h =>
      rw [← List.concat_eq_append]
      exact d.nodup.concat h
  made name hname := by
    split at hname
    · exact d.made name hname
    · rcases List.mem_append.1 hname with hname | hname
      · exact d.made name hname
      · exact ⟨t, (List.mem_singleton.1 hname).symm⟩

/-- `sort -n | head -n -count`: the names that are removed. -/
def oldBackups (count : Nat) (names : List String) : List String :=
  (names.mergeSort (· ≤ ·)).take (names.length - count)

/-- `Remove old etcd backups`. -/
def BackupDirs.removeOld (d : BackupDirs) (count : Int) : BackupDirs where
  names := if 0 ≤ count then d.names.filter (· ∉ oldBackups count.toNat d.names) else d.names
  nodup := by
    split
    · exact d.nodup.filter _
    · exact d.nodup
  made name hname := by
    split at hname
    · exact d.made name (List.mem_of_mem_filter hname)
    · exact d.made name hname

/-- A run of the handlers. -/
structure BackupRun where
  time : DateTime
  /-- The tasks in front of the removal succeed. -/
  completes : Bool

/-- The handlers from `Create Backup Directory` on. -/
def backupEtcd (count : Int) (run : BackupRun) (d : BackupDirs) : BackupDirs :=
  let d := d.create run.time
  if run.completes then d.removeOld count else d

/-- A sequence of runs. -/
def backupRuns (count : Int) (runs : List BackupRun) (d : BackupDirs) : BackupDirs :=
  runs.foldl (fun d run => backupEtcd count run d) d

/-- The directories of the runs. -/
def runNames (runs : List BackupRun) : List String := runs.map fun run => backupName run.time

section
variable {d : BackupDirs} {count : Int} {s t : DateTime}

/-! ## The order of the names -/

theorem length_fields (t : DateTime) : t.fields.length = backupFormat.length := rfl

/-- The fields have room in the widths of the format. -/
theorem fields_lt (t : DateTime) :
    List.Forall₂ (fun n w => n < 10 ^ w.2) t.fields backupFormat := by
  have hrest := t.rest_lt
  simp only [List.forall_mem_cons, List.not_mem_nil, false_imp_iff, implies_true, and_true] at hrest
  obtain ⟨hmonth, hday, hhour, hminute, hsecond⟩ := hrest
  exact .cons t.year_lt (.cons hmonth (.cons hday (.cons hhour (.cons hminute (.cons hsecond
    .nil)))))

/-- The directory of an earlier time has the smaller name. -/
theorem backupName_lt (h : s.fields < t.fields) : backupName s < backupName t := by
  rw [String.lt_iff_toList_lt, backupName, backupName, String.toList_ofList, String.toList_ofList]
  exact Decimal.render_lt (length_fields s) (fields_lt t) h

/-! ## One run -/

theorem toFinset_create (d : BackupDirs) (t : DateTime) :
    (d.create t).names.toFinset = d.names.toFinset ∪ {backupName t} := by
  rw [BackupDirs.create]
  split
  · next h =>
    rw [Finset.union_eq_left.2]
    exact Finset.singleton_subset_iff.2 (List.mem_toFinset.2 h)
  · rw [List.toFinset_append]
    rfl

/-- In a list without repetitions what is not among the first is among the rest. -/
theorem mem_drop_iff {α : Type} {l : List α} (hnd : l.Nodup) {k : Nat} {x : α} :
    x ∈ l.drop k ↔ x ∈ l ∧ x ∉ l.take k := by
  have hsplit := List.take_append_drop k l
  constructor
  · intro hx
    refine ⟨List.mem_of_mem_drop hx, fun hx' => ?_⟩
    exact List.disjoint_take_drop hnd le_rfl hx' hx
  · rintro ⟨hx, hnot⟩
    rw [← hsplit, List.mem_append] at hx
    exact hx.resolve_left hnot

/-- Sorting texts without repetitions makes an increasing list. -/
theorem pairwise_mergeSort {names : List String} (hnd : names.Nodup) :
    (names.mergeSort (· ≤ ·)).Pairwise (· < ·) := by
  have hperm : (names.mergeSort (· ≤ ·)).Perm names := List.mergeSort_perm _ _
  have hle : (names.mergeSort (· ≤ ·)).Pairwise fun a b => decide (a ≤ b) = true := by
    refine List.pairwise_mergeSort (fun a b c hab hbc => ?_) (fun a b => ?_) _
    · rw [decide_eq_true_eq] at hab hbc ⊢
      exact hab.trans hbc
    · rw [Bool.or_eq_true, decide_eq_true_eq, decide_eq_true_eq]
      exact le_total a b
  refine (hle.and (hperm.nodup_iff.2 hnd)).imp fun h => ?_
  exact lt_of_le_of_ne (of_decide_eq_true h.1) h.2

/-- The greatest names are left. -/
theorem toFinset_removeOld (h : 0 ≤ count) :
    (d.removeOld count).names.toFinset = Retention.top count.toNat d.names.toFinset := by
  have hperm : (d.names.mergeSort (· ≤ ·)).Perm d.names := List.mergeSort_perm _ _
  have htop := Retention.top_toFinset (n := count.toNat) (pairwise_mergeSort d.nodup)
  rw [List.toFinset_eq_of_perm _ _ hperm, hperm.length_eq] at htop
  have hnames : (d.removeOld count).names =
      d.names.filter (· ∉ oldBackups count.toNat d.names) := if_pos h
  rw [htop, hnames]
  ext name
  rw [List.mem_toFinset, List.mem_toFinset, mem_drop_iff (hperm.nodup_iff.2 d.nodup),
    hperm.mem_iff, List.mem_filter, decide_eq_true_eq]
  rfl

theorem toFinset_backupEtcd (h : 0 ≤ count) (run : BackupRun) (d : BackupDirs) :
    (backupEtcd count run d).names.toFinset =
      if run.completes then
        Retention.top count.toNat (d.names.toFinset ∪ {backupName run.time})
      else d.names.toFinset ∪ {backupName run.time} := by
  rw [backupEtcd]
  split
  · rw [toFinset_removeOld h, toFinset_create]
  · rw [toFinset_create]

/-! ## Sequences of runs -/

/-- The directories after a sequence of runs, as additions of which some are followed by a cut. -/
theorem toFinset_backupRuns (h : 0 ≤ count) (runs : List BackupRun) (d : BackupDirs) :
    (backupRuns count runs d).names.toFinset =
      (runs.map fun run => ({backupName run.time}, run.completes)).foldl
        (fun s p => if p.2 then Retention.top count.toNat (s ∪ p.1) else s ∪ p.1)
        d.names.toFinset := by
  induction runs generalizing d with
  | nil => rfl
  | cons run runs ih =>
    rw [backupRuns, List.foldl_cons, ← backupRuns, ih, toFinset_backupEtcd h, List.map_cons,
      List.foldl_cons]

/-- All names that were ever there. -/
theorem foldl_union (runs : List BackupRun) (s : Finset String) :
    (runs.map fun run => (({backupName run.time} : Finset String), run.completes)).foldl
      (fun s p => s ∪ p.1) s = s ∪ (runNames runs).toFinset := by
  induction runs generalizing s with
  | nil =>
    rw [runNames, List.map_nil, List.map_nil, List.toFinset_nil, Finset.union_empty]
    rfl
  | cons run runs ih =>
    have hnames : (runNames (run :: runs)).toFinset =
        {backupName run.time} ∪ (runNames runs).toFinset := List.toFinset_cons
    rw [List.map_cons, List.foldl_cons, ih, hnames, Finset.union_assoc]

/-- After a run that completes, the greatest names of all that were ever there are left, however
many runs before have failed; in particular the directories of the last runs, if the runs are in the
order of time and there were no directories before. -/
theorem backups_kept (n : Nat) (first : BackupDirs) (runs : List BackupRun) (last : BackupRun)
    (hlast : last.completes = true) :
    (backupRuns n (runs ++ [last]) first).names.toFinset =
        Retention.top n (first.names.toFinset ∪ (runNames (runs ++ [last])).toFinset) ∧
      (first.names = [] →
        (runs ++ [last]).Pairwise (fun r s => r.time.fields < s.time.fields) →
        (backupRuns n (runs ++ [last]) first).names.toFinset =
          ((runNames (runs ++ [last])).drop ((runs ++ [last]).length - n)).toFinset) := by
  have hcount : (0 : Int) ≤ n := Int.natCast_nonneg n
  have hall : (backupRuns n (runs ++ [last]) first).names.toFinset =
      Retention.top n (first.names.toFinset ∪ (runNames (runs ++ [last])).toFinset) := by
    have hrun : backupRuns n (runs ++ [last]) first = backupEtcd n last (backupRuns n runs first) :=
      List.foldl_append ..
    rw [hrun, toFinset_backupEtcd hcount, if_pos hlast, Int.toNat_natCast,
      ← Retention.top_union_top, toFinset_backupRuns hcount, Int.toNat_natCast,
      Retention.top_foldl, foldl_union, Retention.top_union_top, Finset.union_assoc]
    rw [runNames, runNames, List.map_append, List.toFinset_append]
    rfl
  refine ⟨hall, fun hnil hordered => ?_⟩
  have hsorted : (runNames (runs ++ [last])).Pairwise (· < ·) :=
    List.pairwise_map.2 (hordered.imp backupName_lt)
  have hlength : (runNames (runs ++ [last])).length = (runs ++ [last]).length := List.length_map _
  rw [hall, hnil, List.toFinset_nil, Finset.empty_union, Retention.top_toFinset hsorted, hlength]

end

def morning : DateTime := ⟨2022, 5, 11, 9, 3, 22, by decide, by decide⟩

def evening : DateTime := ⟨2022, 5, 11, 18, 3, 22, by decide, by decide⟩

/-- With a count of 1 the run in the evening leaves its own backup, also after a run in the morning
that has failed. -/
theorem backups_kept_two :
    (backupRuns (1 : Nat) ([⟨morning, false⟩] ++ [⟨evening, true⟩])
      .none).names.toFinset = {"etcd-2022-05-11_18:03:22"} := by
  have h := (backups_kept 1 .none [⟨morning, false⟩] ⟨evening, true⟩ rfl).2 rfl
    (by decide)
  rw [h]
  decide +kernel

end Kubespray
