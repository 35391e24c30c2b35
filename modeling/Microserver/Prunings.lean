import Microserver.Rotations
import Microserver.Timestamps

/-!
What a pruning that succeeds leaves: the backups with the greatest names, as many as
it is to keep, and everything that is no backup. Names that BackupRotate makes rise
with the time, so among them these are the newest.
-/
namespace Microserver.Prunings
open Microserver.Programs Microserver.Ranking Microserver.Backups Microserver.Timestamps Microserver.Rotations

variable {keep : Nat} {l l' : Listing} {d d' : Directory}

/-- The directory after a pruning. -/
structure Pruned (keep : Nat) (l l' : Listing) : Prop where
  remaining : l'.entries.Sublist l.entries
  others : (l'.entries.filter fun e => !isBackup e) = l.entries.filter fun e => !isBackup e
  number : (backupNames l').length = min keep (backupNames l).length
  greatest : ∀ n ∈ backupNames l, n ∉ backupNames l' → ∀ m ∈ backupNames l', n < m

/-- Of two generated names the later one stays if the earlier one does. -/
def KeepsRecent (l l' : Listing) : Prop :=
  ∀ t t', FourDigitYear t → FourDigitYear t' → backupName t ∈ backupNames l → backupName t' ∈ backupNames l' → t' < t →
    backupName t ∈ backupNames l'

/-- A listing has all backups, generated names in the order of their times from the
    last one on. -/
def ListsNewestFirst (l : Listing) : Prop :=
  ∃ infos, fileMachine.eval listBackupFiles (some l) = (.ok infos, some l) ∧ (infos.map (·.name)).Perm (backupNames l) ∧
    infos.Pairwise fun a b =>
      ∀ t t', FourDigitYear t → FourDigitYear t' → a.name = backupName t → b.name = backupName t' → t' < t

theorem filter_notMem_take {β : Type} [DecidableEq β] {names : List β} (nodup : names.Nodup) (k : Nat) :
    names.filter (· ∉ names.take k) = names.drop k := by
  have halves := nodup
  rw [← List.take_append_drop k names, List.nodup_append] at halves
  obtain ⟨-, -, disjoint⟩ := halves
  have first : (names.take k).filter (· ∉ names.take k) = [] := List.filter_eq_nil_iff.mpr fun n early => by simp [early]
  have second : (names.drop k).filter (· ∉ names.take k) = names.drop k :=
    List.filter_eq_self.mpr fun n late => decide_eq_true fun early => disjoint n early n late rfl
  calc names.filter (· ∉ names.take k)
      = (names.take k ++ names.drop k).filter (· ∉ names.take k) := by rw [List.take_append_drop]
    _ = names.drop k := by rw [List.filter_append, first, second, List.nil_append]

/-- The names that stay are the last ones of the sorted names. -/
theorem survivors_perm (without : Without (outdated keep l) l l') :
    (backupNames l').Perm ((sortBy id (backupNames l)).drop ((backupNames l).length - keep)) := by
  have perm := sortBy_perm id (backupNames l)
  rw [survivors without, ← filter_notMem_take (perm.nodup_iff.mpr (backupNames_nodup l))]
  exact (perm.filter _).symm

theorem pruned_of_without (without : Without (outdated keep l) l l') : Pruned keep l l' := by
  have perm := sortBy_perm id (backupNames l)
  have stay := survivors_perm without
  refine ⟨?_, ?_, ?_, ?_⟩
  · rw [without]
    exact List.filter_sublist
  · rw [without, List.filter_filter]
    refine List.filter_congr fun e member => ?_
    cases backup : isBackup e with
    | true => rfl
    | false =>
      -- no other entry has the name
      have free : e.name ∉ outdated keep l := by
        intro gone
        obtain ⟨f, found, same⟩ := List.mem_map.mp (perm.mem_iff.mp (List.mem_of_mem_take gone))
        obtain ⟨inside, isF⟩ := List.mem_filter.mp found
        have equal : f = e := List.inj_on_of_nodup_map l.key inside member same
        rw [equal, backup] at isF
        cases isF
      simp [free]
  · rw [stay.length_eq, List.length_drop, perm.length_eq]
    omega
  · intro n listed gone m stays
    have late : m ∈ (sortBy id (backupNames l)).drop ((backupNames l).length - keep) := stay.mem_iff.mp stays
    have early : n ∈ (sortBy id (backupNames l)).take ((backupNames l).length - keep) := by
      have whole := perm.mem_iff.mpr listed
      rw [← List.take_append_drop ((backupNames l).length - keep) (sortBy id (backupNames l)), List.mem_append] at whole
      exact whole.resolve_right fun behind => gone (stay.mem_iff.mpr behind)
    have ordered := sortBy_pairwise id (backupNames l)
    rw [← List.take_append_drop ((backupNames l).length - keep) (sortBy id (backupNames l)), List.pairwise_append] at ordered
    refine lt_of_le_of_ne (ordered.2.2 n early m late) fun same => gone (same ▸ stays)

theorem Pruned.keepsRecent (pruned : Pruned keep l l') : KeepsRecent l l' := by
  intro t t' year year' listed stays later
  by_contra gone
  have less := pruned.greatest _ listed gone _ stays
  exact absurd ((backupName_lt_backupName_iff year year').mp less) (not_lt.mpr later.le)

theorem listsNewestFirst (l : Listing) : ListsNewestFirst l := by
  obtain ⟨infos, listed, perm, descending⟩ := listBackupFiles_lists l
  refine ⟨infos, listed, perm, ?_⟩
  have nodup : (infos.map (·.name)).Nodup := perm.nodup_iff.mpr (backupNames_nodup l)
  refine ((List.pairwise_map.mp descending).and (List.pairwise_map.mp nodup)).imp ?_
  rintro a b ⟨le, different⟩ t t' year year' first second
  rw [first, second] at le different
  exact (backupName_lt_backupName_iff year' year).mp (lt_of_le_of_ne le (Ne.symm different))

/-- There is nothing to read in a directory that is not there. -/
theorem pruneBackups_missing (keep : Nat) : fileMachine.wp (fun r _ => r ≠ .ok ()) (pruneBackups keep) none := by
  refine fileMachine.wp_bind.mpr (fileMachine.wp_call.mpr ⟨?_, ?_, ?_⟩)
  · rintro found d ⟨⟩
  · rintro e - ⟨⟩
  · rintro ⟨⟩

/-- Pruning keeps the backups with the greatest names, and generated names are ordered
    as their times. -/
theorem pruning_keeps_newest :
    (∀ (keep : Nat) (faults : List Bool) (d d' : Directory), fileMachine.run (pruneBackups keep) faults d = (.ok (), d') →
      ∃ l l', d = some l ∧ d' = some l' ∧ Pruned keep l l' ∧ KeepsRecent l l' ∧ ListsNewestFirst l') ∧
    ∀ t t', FourDigitYear t → FourDigitYear t' → (backupName t < backupName t' ↔ t < t') := by
  refine ⟨fun keep faults d d' ran => ?_, fun t t' year year' => backupName_lt_backupName_iff year year'⟩
  cases d with
  | none =>
    exact absurd (by rw [ran]) (fileMachine.wp_iff_run.mp (pruneBackups_missing keep) faults)
  | some l =>
    have outcome := fileMachine.wp_iff_run.mp (pruneBackups_keeps keep l) faults
    rw [ran] at outcome
    obtain ⟨l', same, without⟩ := outcome rfl
    have pruned := pruned_of_without without
    exact ⟨l, l', rfl, same, pruned, pruned.keepsRecent, listsNewestFirst l'⟩

/-- The older one of two backups goes. -/
theorem pruning_keeps_newest_of_two :
    (∃ l l', some ⟨[⟨"backup-20231231-235959.000000000.db", .file, 0, [0]⟩, ⟨"backup-20240229-123456.123456789.db", .file, 0, [1]⟩],
        by decide⟩ = some l ∧
      (fileMachine.run (pruneBackups 1) [] (some ⟨[⟨"backup-20231231-235959.000000000.db", .file, 0, [0]⟩,
        ⟨"backup-20240229-123456.123456789.db", .file, 0, [1]⟩], by decide⟩)).2 = some l' ∧
      Pruned 1 l l' ∧ KeepsRecent l l' ∧ ListsNewestFirst l') ∧
    (backupName 1709210096123456788 < backupName 1709210096123456789 ↔
      (1709210096123456788 : Int) < 1709210096123456789) :=
  ⟨pruning_keeps_newest.1 1 [] _ _ (Prod.ext (by decide) rfl),
    pruning_keeps_newest.2 _ _ (by unfold FourDigitYear; decide) (by unfold FourDigitYear; decide)⟩

/-- A regular file under the name of a backup. -/
def isRegularBackup (e : Entry) : Bool := e.kind = .file && isBackup e

/-- A file and a symbolic link, both under names of backups. -/
def fileAndLink : Listing :=
  ⟨[⟨"backup-20231231-235959.000000000.db", .file, 0, [0]⟩, ⟨"backup-latest.db", .irregular, 0, []⟩], by decide⟩

/-- The link takes the one place that there is, and the only regular file goes. -/
theorem pruning_counts_links :
    ¬ ∀ (keep : Nat) (faults : List Bool) (l l' : Listing),
      fileMachine.run (pruneBackups keep) faults (some l) = (.ok (), some l') →
        (l'.entries.filter isRegularBackup).length = min keep (l.entries.filter isRegularBackup).length ∧
          (l'.entries.filter fun e => !isRegularBackup e) = l.entries.filter fun e => !isRegularBackup e := by
  intro all
  have pruned := (all 1 [] fileAndLink (fileAndLink.remove "backup-20231231-235959.000000000.db") (Prod.ext (by decide) rfl)).1
  exact absurd pruned (by decide)

end Microserver.Prunings
