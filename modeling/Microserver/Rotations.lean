import Mathlib.Data.Finset.Max
import Microserver.Backups

/-!
What a rotation of the backups leaves in the directory. The backups are ranked by
their names, and so is the new one: it stays if fewer than `keep` names come behind
its own, and it is the first of the listing if none does.
-/
namespace Microserver.Rotations
open Microserver.Base64 Microserver.Programs Microserver.Ranking Microserver.Backups

/-! ### What the operations leave -/

/-- The entries of the directory; it need not be there. -/
def entries (d : Directory) : List Entry := d.elim [] (·.entries)

/-- The names that pruneBackups and listBackupFiles look at. -/
def backupNames (l : Listing) : List String := (l.entries.filter isBackup).map (·.name)

theorem backupNames_nodup (l : Listing) : (backupNames l).Nodup := l.key.sublist (List.filter_sublist.map _)

/-- The names that a rotation removes. -/
def outdated (keep : Nat) (l : Listing) : List String :=
  (sortBy id (backupNames l)).take ((backupNames l).length - keep)

variable {keep : Nat} {l l' : Listing} {d d' : Directory} {now : Int} {image : Bytes} {name : String}

/-- The files whose names are not among those. -/
def Without (names : List String) (l l' : Listing) : Prop := l'.entries = l.entries.filter fun e => e.name ∉ names

theorem remove_ok {u : Unit} (removed : fileMachine.exec (.remove name) (some l) = .ok (u, d)) : d = some (l.remove name) := by
  change (if name ∈ l.entries.map (·.name) then _ else _) = _ at removed
  split at removed
  · cases removed
    rfl
  · cases removed

theorem removeBackups_removes (names : List String) (l : Listing) :
    fileMachine.wp (fun r d => r = .ok () → ∃ l', d = some l' ∧ Without names l l') (removeBackups names) (some l) := by
  induction names generalizing l with
  | nil =>
    refine fun _ => ⟨l, rfl, ?_⟩
    simp [Without]
  | cons n names ih =>
    refine fileMachine.wp_bind.mpr (fileMachine.wp_call.mpr ⟨?_, ?_, ?_⟩)
    · intro _ d removed
      obtain rfl := remove_ok removed
      refine fileMachine.wp_mono (fun r d removedAll ok => ?_) (ih (l.remove n))
      obtain ⟨l', rfl, without⟩ := removedAll ok
      refine ⟨l', rfl, ?_⟩
      rw [Without, without, Listing.remove, List.filter_filter]
      refine List.filter_congr fun e _ => ?_
      simp [Bool.and_comm]
    · rintro e - ⟨⟩
    · rintro ⟨⟩

theorem pruneBackups_keeps (keep : Nat) (l : Listing) :
    fileMachine.wp (fun r d => r = .ok () → ∃ l', d = some l' ∧ Without (outdated keep l) l l') (pruneBackups keep) (some l) := by
  refine fileMachine.wp_bind.mpr (fileMachine.wp_call.mpr ⟨?_, ?_, ?_⟩)
  · intro found d read
    cases read
    have perm : (((sortBy (·.name) l.entries).filter isBackup).map (·.name)).Perm (backupNames l) :=
      ((sortBy_perm (·.name) l.entries).filter isBackup).map (·.name)
    show fileMachine.wp _ (if (sortBy id _).length ≤ keep then _ else _) _
    rw [sortBy_of_perm perm, (sortBy_perm id (backupNames l)).length_eq]
    split
    · rename_i few
      refine fun _ => ⟨l, rfl, ?_⟩
      simp [Without, outdated, Nat.sub_eq_zero_of_le few]
    · exact removeBackups_removes _ l
  · rintro e - ⟨⟩
  · rintro ⟨⟩

/-- A file that the new backup replaces: it has its name and is empty. -/
def replaced (now : Int) (e : Entry) : Bool := e.name = backupName now && !e.isDir && e.content.isEmpty

def newBackup (now : Int) (image : Bytes) : Entry := ⟨backupName now, .file, now, image⟩

/-- The directory with the new backup. -/
def Written (now : Int) (image : Bytes) (d : Directory) (l : Listing) : Prop :=
  l.entries = (entries d).filter (fun e => !replaced now e) ++ [newBackup now image]

theorem vacuumInto_ok {u : Unit} (written : fileMachine.exec (.vacuumInto (backupName now) now image) d = .ok (u, d')) :
    ∃ l, d' = some l ∧ Written now image d l := by
  cases d with
  | none => cases written
  | some l =>
    simp only [fileMachine, FileStmt.exec] at written
    cases added : (l.discardEmpty (backupName now)).add ⟨backupName now, .file, now, image⟩ with
    | none =>
      rw [added] at written
      cases written
    | some l' =>
      rw [added] at written
      cases written
      refine ⟨l', rfl, ?_⟩
      unfold Listing.add at added
      split at added
      · cases added
      · cases added
        rfl

/-- A rotation that succeeds writes the new backup and removes the outdated ones. -/
theorem BackupRotate_rotates (now : Int) (image : Bytes) (keep : Nat) (d : Directory) :
    fileMachine.wp (fun r d' => ∀ path, r = .ok path →
        path = backupName now ∧ ∃ l l', Written now image d l ∧ Without (outdated keep l) l l' ∧ d' = some l')
      (BackupRotate now image keep) d := by
  refine fileMachine.wp_bind.mpr (fileMachine.wp_call.mpr ⟨?_, ?_, ?_⟩)
  · intro _ made mkdir
    refine fileMachine.wp_bind.mpr (fileMachine.wp_call.mpr ⟨?_, ?_, ?_⟩)
    · intro _ d' vacuum
      obtain ⟨l, rfl, written⟩ := vacuumInto_ok vacuum
      refine fileMachine.wp_bind.mpr (fileMachine.wp_within.mpr (fileMachine.wp_mono (fun r d' pruned => ?_) (pruneBackups_keeps keep l)))
      cases r with
      | error e => rintro path ⟨⟩
      | ok _ =>
        obtain ⟨l', rfl, without⟩ := pruned rfl
        rintro path ⟨⟩
        refine ⟨rfl, l, l', ?_, without, rfl⟩
        have same : entries made = entries d := by
          cases d <;> cases mkdir <;> rfl
        rwa [Written, same] at written
    · rintro e - path ⟨⟩
    · rintro path ⟨⟩
  · rintro e - path ⟨⟩
  · rintro path ⟨⟩

/-! ### Which backups stay -/

/-- The backups among some entries whose names come behind a name. -/
def behind (name : String) (es : List Entry) : List String := ((es.filter isBackup).map (·.name)).filter fun n => name < n

theorem behind_append (name : String) (es es' : List Entry) : behind name (es ++ es') = behind name es ++ behind name es' := by
  simp [behind]

theorem behind_filter {kept : Entry → Bool} (all : ∀ e, name < e.name → kept e = true) (es : List Entry) :
    behind name (es.filter kept) = behind name es := by
  unfold behind
  rw [List.filter_map, List.filter_map, List.filter_filter, List.filter_filter, List.filter_filter]
  congr 1
  refine List.filter_congr fun e _ => ?_
  by_cases later : name < e.name
  · simp [all e later]
  · simp only [Function.comp, decide_eq_false later, Bool.false_and]

theorem isBackup_newBackup (now : Int) (image : Bytes) : isBackup (newBackup now image) = true := by
  have starts : backupPrefix.toList <+: (backupName now).toList := by
    unfold backupName
    rw [String.toList_append, String.toList_append, List.append_assoc]
    exact List.prefix_append _ _
  have ends : backupSuffix.toList <:+ (backupName now).toList := by
    unfold backupName
    rw [String.toList_append]
    exact List.suffix_append _ _
  simp [isBackup, Entry.isDir, newBackup, starts, ends]

theorem newBackup_listed (written : Written now image d l) : backupName now ∈ backupNames l := by
  refine List.mem_map.mpr ⟨newBackup now image, List.mem_filter.mpr ⟨?_, isBackup_newBackup now image⟩, rfl⟩
  rw [written]
  exact List.mem_append_right _ (.head _)

/-- Neither the new backup nor what it replaces comes behind it. -/
theorem behind_written (written : Written now image d l) :
    behind (backupName now) l.entries = behind (backupName now) (entries d) := by
  have kept (e : Entry) (later : backupName now < e.name) : (!replaced now e) = true := by
    simp [replaced, later.ne']
  have last : behind (backupName now) [newBackup now image] = [] := by
    unfold behind
    rw [List.filter_cons_of_pos (isBackup_newBackup now image)]
    exact List.filter_cons_of_neg (ne_true_of_eq_false (decide_eq_false (lt_irrefl (backupName now))))
  rw [written, behind_append, behind_filter kept, last, List.append_nil]

theorem survivors (without : Without (outdated keep l) l l') : backupNames l' = (backupNames l).filter (· ∉ outdated keep l) := by
  unfold backupNames
  rw [without, List.filter_map, List.filter_filter, List.filter_filter]
  congr 1
  refine List.filter_congr fun e _ => ?_
  simp [Bool.and_comm]

/-- A backup stays if fewer than `keep` come behind it. -/
theorem mem_outdated_iff (member : name ∈ backupNames l) :
    name ∈ outdated keep l ↔ keep ≤ (behind name l.entries).length := by
  have perm := sortBy_perm id (backupNames l)
  have ascending : (sortBy id (backupNames l)).Pairwise (· < ·) := by
    have distinct : ((backupNames l).map id).Nodup := by
      rw [List.map_id]
      exact backupNames_nodup l
    simpa using sortBy_ascending distinct
  unfold outdated
  rw [← perm.length_eq, mem_take_ascending ascending (perm.mem_iff.mpr member), (perm.filter _).length_eq]
  rfl

theorem stat_file {e : Entry} (member : e ∈ l.entries) : ∃ f, fileMachine.exec (.stat e.name) (some l) = .ok (f, some l) := by
  have found : (l.entries.find? fun f => f.name = e.name).isSome = true := List.find?_isSome.mpr ⟨e, member, by simp⟩
  obtain ⟨f, same⟩ := Option.isSome_iff_exists.mp found
  refine ⟨f, ?_⟩
  show FileStmt.exec (.stat e.name) (some l) = _
  rw [FileStmt.exec, same]

theorem stat_ok {f : Entry} (found : fileMachine.exec (.stat name) d = .ok (f, d')) : f ∈ entries d ∧ f.name = name := by
  change FileStmt.exec (.stat name) d = _ at found
  cases d with
  | none => cases found
  | some l =>
    rw [FileStmt.exec] at found
    cases same : l.entries.find? (fun e => e.name = name) with
    | none =>
      rw [same] at found
      cases found
    | some e =>
      rw [same] at found
      cases found
      exact ⟨List.mem_of_find?_eq_some same, by simpa using List.find?_some same⟩

theorem backupInfos_lists {es : List Entry} (inside : es ⊆ l.entries) :
    ∃ infos, fileMachine.eval (backupInfos es) (some l) = (.ok infos, some l) ∧
      infos.map (·.name) = (es.filter isBackup).map (·.name) := by
  induction es with
  | nil => exact ⟨[], rfl, rfl⟩
  | cons e es ih =>
    obtain ⟨member, rest⟩ := List.cons_subset.mp inside
    obtain ⟨infos, listed, names⟩ := ih rest
    unfold backupInfos
    cases backup : isBackup e with
    | false =>
      refine ⟨infos, listed, ?_⟩
      rw [List.filter_cons_of_neg (by simp [backup])]
      exact names
    | true =>
      obtain ⟨f, stat⟩ := stat_file member
      have current : fileMachine.eval (.call (.wrapped ("stat-ing backup " ++ e.name)) (.stat e.name)) (some l) = (.ok f, some l) :=
        fileMachine.eval_call_ok_iff.mpr stat
      refine ⟨⟨e.name, f.info.sizeBytes, f.info.createdAt⟩ :: infos, ?_, ?_⟩
      · show fileMachine.eval (.bind (.call _ _) fun current => .bind _ _) (some l) = _
        rw [Machine.eval_bind, current]
        show fileMachine.eval (.bind _ _) (some l) = _
        rw [Machine.eval_bind, listed]
        rfl
      · rw [List.filter_cons_of_pos backup, List.map_cons, List.map_cons, names]

/-- A listing has the names of the backups in descending order. -/
theorem listBackupFiles_lists (l : Listing) : ∃ infos, fileMachine.eval listBackupFiles (some l) = (.ok infos, some l) ∧
    (infos.map (·.name)).Perm (backupNames l) ∧ (infos.map (·.name)).Pairwise (· ≥ ·) := by
  have inside : sortBy (·.name) l.entries ⊆ l.entries := fun e member => (sortBy_perm _ _).mem_iff.mp member
  obtain ⟨infos, listed, names⟩ := backupInfos_lists inside
  refine ⟨sortBy (fun b => OrderDual.toDual b.name) infos, ?_, ?_, ?_⟩
  · show fileMachine.eval (.bind (Prog.attempt (.call _ _)) _) (some l) = _
    rw [Machine.eval_bind, Machine.eval_attempt]
    show fileMachine.eval (.bind (backupInfos (sortBy (·.name) l.entries)) _) (some l) = _
    rw [Machine.eval_bind, listed]
    rfl
  · refine ((sortBy_perm (fun b : BackupInfo => OrderDual.toDual b.name) infos).map (·.name)).trans ?_
    rw [names]
    exact ((sortBy_perm (·.name) l.entries).filter isBackup).map (·.name)
  · exact List.pairwise_map.mpr (sortBy_pairwise (fun b : BackupInfo => OrderDual.toDual b.name) infos)

/-! ### The new backup -/

/-- The file at a path is there. -/
def Exists (path : String) (d : Directory) : Prop := ∃ f, fileMachine.exec (.stat path) d = .ok (f, d) ∧ f.isDir = false

/-- The first element of a listing. -/
def ListedFirst (path : String) (d : Directory) : Prop :=
  ∃ info infos, fileMachine.eval listBackupFiles d = (.ok (info :: infos), d) ∧ info.name = path

theorem listedFirst_iff {path : String} : ListedFirst path (some l) ↔ path ∈ backupNames l ∧ ∀ n ∈ backupNames l, n ≤ path := by
  obtain ⟨infos, listed, perm, descending⟩ := listBackupFiles_lists l
  unfold ListedFirst
  rw [listed]
  cases infos with
  | nil =>
    have none : path ∉ backupNames l := by simp [← perm.mem_iff]
    simp [none]
  | cons info infos =>
    rw [List.map_cons] at descending perm
    obtain ⟨greatest, -⟩ := List.pairwise_cons.mp descending
    have greatest (n : String) (member : n ∈ backupNames l) : n ≤ info.name := by
      rcases List.mem_cons.mp (perm.mem_iff.mpr member) with rfl | later
      · exact le_rfl
      · exact greatest n later
    constructor
    · rintro ⟨first, rest, same, rfl⟩
      cases same
      exact ⟨perm.mem_iff.mp (.head _), greatest⟩
    · rintro ⟨member, all⟩
      exact ⟨info, infos, rfl, le_antisymm (all _ (perm.mem_iff.mp (.head _))) (greatest path member)⟩

theorem exists_iff (written : Written now image d l) (without : Without (outdated keep l) l l') :
    Exists (backupName now) (some l') ↔ backupName now ∉ outdated keep l := by
  constructor
  · rintro ⟨f, stat, -⟩
    obtain ⟨member, same⟩ := stat_ok stat
    rw [show entries (some l') = l'.entries from rfl, without] at member
    rw [← same]
    exact of_decide_eq_true (List.mem_filter.mp member).2
  · intro stays
    have member : newBackup now image ∈ l'.entries := by
      rw [without, written]
      exact List.mem_filter.mpr ⟨List.mem_append_right _ (.head _), decide_eq_true stays⟩
    obtain ⟨f, stat⟩ := stat_file member
    obtain ⟨found, same⟩ := stat_ok stat
    have only : f = newBackup now image := List.inj_on_of_nodup_map l'.key found member same
    exact ⟨f, stat, by rw [only]; rfl⟩

/-- The new backup is there after the rotation if fewer than `keep` come behind it,
    and it is the first of a listing if none does. -/
theorem stays_iff {faults : List Bool} {path : String}
    (rotated : fileMachine.run (BackupRotate now image keep) faults d = (.ok path, d')) :
    (Exists path d' ↔ (behind (backupName now) (entries d)).length < keep) ∧
      (0 < keep → (ListedFirst path d' ↔ behind (backupName now) (entries d) = [])) := by
  have outcome := fileMachine.wp_iff_run.mp (BackupRotate_rotates now image keep d) faults
  rw [rotated] at outcome
  obtain ⟨rfl, l, l', written, without, same⟩ := outcome path rfl
  dsimp only at same
  subst same
  have new := newBackup_listed written
  have old : backupName now ∉ outdated keep l ↔ (behind (backupName now) (entries d)).length < keep := by
    rw [mem_outdated_iff new, behind_written written, Nat.not_le]
  refine ⟨(exists_iff written without).trans old, fun positive => ?_⟩
  rw [listedFirst_iff, survivors without, ← behind_written written]
  constructor
  · rintro ⟨-, first⟩
    by_contra more
    -- the greatest name stays, and it comes behind the new one
    obtain ⟨n, later⟩ := List.exists_mem_of_ne_nil _ more
    obtain ⟨listed, before⟩ := List.mem_filter.mp later
    obtain ⟨g, greatest, all⟩ := (backupNames l).toFinset.exists_max_image id ⟨n, List.mem_toFinset.mpr listed⟩
    have none : behind g l.entries = [] := by
      refine List.filter_eq_nil_iff.mpr fun m member greater => ?_
      exact absurd (all m (List.mem_toFinset.mpr member)) (not_le.mpr (of_decide_eq_true greater))
    have stays : g ∉ outdated keep l := by
      rw [mem_outdated_iff (List.mem_toFinset.mp greatest), none]
      exact Nat.not_le.mpr positive
    have le : g ≤ backupName now := first g (List.mem_filter.mpr ⟨List.mem_toFinset.mp greatest, decide_eq_true stays⟩)
    exact absurd ((all n (List.mem_toFinset.mpr listed)).trans le) (not_le.mpr (of_decide_eq_true before))
  · intro none
    have stays : backupName now ∉ outdated keep l := by
      rw [old, ← behind_written written, none]
      exact positive
    refine ⟨List.mem_filter.mpr ⟨new, decide_eq_true stays⟩, fun n member => ?_⟩
    exact not_lt.mp fun later => List.filter_eq_nil_iff.mp none n (List.mem_filter.mp member).1 (decide_eq_true later)

/-- A rotation keeps what it has written, and lists it first, if no backup in the
    directory has a name behind the new one. -/
theorem rotation_keeps_iff {d d' : Directory} {now : Int} {image : Bytes} {keep : Nat} {faults : List Bool} {path : String}
    (positive : 1 ≤ keep) (rotated : fileMachine.run (BackupRotate now image keep) faults d = (.ok path, d')) :
    Exists path d' ∧ ListedFirst path d' ↔ ∀ e ∈ entries d, isBackup e = true → e.name ≤ backupName now := by
  obtain ⟨stays, first⟩ := stays_iff rotated
  have none : behind (backupName now) (entries d) = [] ↔ ∀ e ∈ entries d, isBackup e = true → e.name ≤ backupName now := by
    refine List.filter_eq_nil_iff.trans ⟨fun all e member backup => ?_, fun all n listed later => ?_⟩
    · refine not_lt.mp fun later => all e.name ?_ (decide_eq_true later)
      exact List.mem_map_of_mem (List.mem_filter.mpr ⟨member, backup⟩)
    · obtain ⟨e, found, rfl⟩ := List.mem_map.mp listed
      obtain ⟨member, backup⟩ := List.mem_filter.mp found
      exact absurd (all e member backup) (not_le.mpr (of_decide_eq_true later))
  rw [stays, first positive, ← none]
  refine ⟨fun both => both.2, fun nothing => ⟨?_, nothing⟩⟩
  rw [nothing]
  exact positive

/-- A directory with one backup. -/
def holding (name : String) : Directory := some ⟨[⟨name, .file, 0, [0]⟩], List.nodup_singleton name⟩

/-- The directory after a rotation on 29 February 2024 that keeps one backup. -/
def rotated (d : Directory) : Directory := (fileMachine.run (BackupRotate 1709210096123456789 [1] 1) [] d).2

/-- A rotation after an earlier one. -/
theorem rotation_keeps_later :
    Exists "backup-20240229-123456.123456789.db" (rotated (holding "backup-20231231-235959.000000000.db")) ∧
      ListedFirst "backup-20240229-123456.123456789.db" (rotated (holding "backup-20231231-235959.000000000.db")) := by
  have ok : (fileMachine.run (BackupRotate 1709210096123456789 [1] 1) [] (holding "backup-20231231-235959.000000000.db")).1 =
      .ok "backup-20240229-123456.123456789.db" := by decide
  refine (rotation_keeps_iff (Nat.le_refl 1) (Prod.ext ok rfl)).mpr fun e member _ => ?_
  rw [List.mem_singleton.mp member]
  decide

/-- A file that someone has put into the directory takes the place of the new
    backup. -/
theorem rotation_removes_new :
    ¬ ∀ (d d' : Directory) (now : Int) (image : Bytes) (keep : Nat) (path : String), 1 ≤ keep →
      fileMachine.run (BackupRotate now image keep) [] d = (.ok path, d') → Exists path d' ∧ ListedFirst path d' := by
  intro all
  have ok : (fileMachine.run (BackupRotate 1709210096123456789 [1] 1) [] (holding "backup-vec.db")).1 =
      .ok "backup-20240229-123456.123456789.db" := by decide
  have left : (entries (rotated (holding "backup-vec.db"))).map (·.name) = ["backup-vec.db"] := by decide
  obtain ⟨⟨f, stat, -⟩, -⟩ := all _ (rotated (holding "backup-vec.db")) _ _ _ _ (Nat.le_refl 1) (Prod.ext ok rfl)
  obtain ⟨member, same⟩ := stat_ok stat
  have listed : f.name ∈ (entries (rotated (holding "backup-vec.db"))).map (·.name) := List.mem_map_of_mem member
  rw [left, same] at listed
  exact absurd listed (by decide)

end Microserver.Rotations
