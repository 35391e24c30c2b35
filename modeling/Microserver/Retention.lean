import Mathlib.Data.List.Induction
import Microserver.BackupNames
import Microserver.ConcurrentRotations
import Microserver.Prunings

/-!
The backups that a run of rotations leaves, whichever of their steps fail. Pruning
goes from the oldest backup on, so one that stops halfway leaves no gap: the
directory has the newest of the snapshots that were written, from one of them on,
never fewer than `keep` of them, and exactly `keep` after a rotation that succeeds.
-/
namespace Microserver.Retention
open Microserver.Base64 Microserver.Programs Microserver.Ranking Microserver.Backups Microserver.Timestamps
  Microserver.Rotations Microserver.Prunings Microserver.BackupNames
open Microserver.ConcurrentRotations (Rotation)

variable {keep k : Nat} {l l' : Listing} {d d' d₀ : Directory} {r : Rotation} {made : List Rotation}

/-! ### Runs -/

/-- A call of BackupRotate, by the loop, at the shutdown or for a request, and which
    of its steps fail. -/
structure Attempt where
  rotation : Rotation
  faults : List Bool

def Attempt.run (keep : Nat) (a : Attempt) (d : Directory) : Except FileErr String × Directory :=
  fileMachine.run (BackupRotate a.rotation.now a.rotation.image keep) a.faults d

/-- The result tells that the snapshot was written, even if pruning failed afterwards. -/
def reported : Except FileErr String → Bool
  | .ok _ => true
  | .error (.wrapped context _) => context == "backup succeeded but pruning old backups failed"
  | .error _ => false

/-- The directory after some attempts, one after another. -/
def after (keep : Nat) : List Attempt → Directory → Directory
  | [], d => d
  | a :: rest, d => after keep rest (a.run keep d).2

/-- The rotations among the attempts that reported a snapshot. -/
def snapshots (keep : Nat) : List Attempt → Directory → List Rotation
  | [], _ => []
  | a :: rest, d =>
    if reported (a.run keep d).1 then a.rotation :: snapshots keep rest (a.run keep d).2 else snapshots keep rest (a.run keep d).2

theorem after_append (earlier later : List Attempt) (d : Directory) :
    after keep (earlier ++ later) d = after keep later (after keep earlier d) := by
  induction earlier generalizing d with
  | nil => rfl
  | cons a rest ih => exact ih _

theorem snapshots_append (earlier later : List Attempt) (d : Directory) :
    snapshots keep (earlier ++ later) d = snapshots keep earlier d ++ snapshots keep later (after keep earlier d) := by
  induction earlier generalizing d with
  | nil => rfl
  | cons a rest ih =>
    rw [List.cons_append, snapshots, ih, snapshots, after]
    split <;> rfl

theorem snapshots_sublist (attempts : List Attempt) (d : Directory) :
    (snapshots keep attempts d).Sublist (attempts.map (·.rotation)) := by
  induction attempts generalizing d with
  | nil => exact List.Sublist.refl _
  | cons a rest ih =>
    rw [snapshots]
    split
    · exact (ih _).cons_cons _
    · exact (ih _).cons _

/-! ### One attempt -/

theorem without_nil (l : Listing) : Without [] l l := by simp [Without]

/-- A removal that stops has removed the first ones. -/
theorem removeBackups_leaves (names : List String) (l : Listing) :
    fileMachine.wp (fun r d => ∃ j l', d = some l' ∧ j ≤ names.length ∧ Without (names.take j) l l' ∧
      (r = .ok () → j = names.length)) (removeBackups names) (some l) := by
  induction names generalizing l with
  | nil => exact ⟨0, l, rfl, Nat.le_refl 0, without_nil l, fun _ => rfl⟩
  | cons n names ih =>
    refine fileMachine.wp_bind.mpr (fileMachine.wp_call.mpr ⟨?_, ?_, ?_⟩)
    · intro _ d removed
      obtain rfl := remove_ok removed
      refine fileMachine.wp_mono (fun r d left => ?_) (ih (l.remove n))
      obtain ⟨j, l', rfl, bound, without, all⟩ := left
      refine ⟨j + 1, l', rfl, by simpa using bound, ?_, fun ok => by simp [all ok]⟩
      rw [Without, without, Listing.remove, List.filter_filter]
      refine List.filter_congr fun e _ => ?_
      simp [Bool.and_comm]
    · exact fun e _ => ⟨0, l, rfl, Nat.zero_le _, without_nil l, fun ok => by cases ok⟩
    · exact ⟨0, l, rfl, Nat.zero_le _, without_nil l, fun ok => by cases ok⟩

theorem pruneBackups_leaves (keep : Nat) (l : Listing) :
    fileMachine.wp (fun r d => ∃ j l', d = some l' ∧ j ≤ (outdated keep l).length ∧ Without ((outdated keep l).take j) l l' ∧
      (r = .ok () → j = (outdated keep l).length)) (pruneBackups keep) (some l) := by
  refine fileMachine.wp_bind.mpr (fileMachine.wp_call.mpr ⟨?_, ?_, ?_⟩)
  · intro found d read
    cases read
    have perm : (((sortBy (·.name) l.entries).filter isBackup).map (·.name)).Perm (backupNames l) :=
      ((sortBy_perm (·.name) l.entries).filter isBackup).map (·.name)
    show fileMachine.wp _ (if (sortBy id _).length ≤ keep then _ else _) _
    rw [sortBy_of_perm perm, (sortBy_perm id (backupNames l)).length_eq]
    split
    · rename_i few
      exact ⟨0, l, rfl, Nat.zero_le _, without_nil l, fun _ => by simp [outdated, Nat.sub_eq_zero_of_le few]⟩
    · exact removeBackups_leaves _ l
  · exact fun e _ => ⟨0, l, rfl, Nat.zero_le _, without_nil l, fun ok => by cases ok⟩
  · exact ⟨0, l, rfl, Nat.zero_le _, without_nil l, fun ok => by cases ok⟩

/-- A rotation that reports no snapshot leaves the files alone; one that does has
    written it and has removed some of the outdated ones, the oldest ones first. -/
def Leaves (keep : Nat) (r : Rotation) (d : Directory) (result : Except FileErr String) (d' : Directory) : Prop :=
  (reported result = false ∧ entries d' = entries d) ∨
  (reported result = true ∧ ∃ l l' j, Written r.now r.image d l ∧ d' = some l' ∧ j ≤ (outdated keep l).length ∧
    Without ((outdated keep l).take j) l l' ∧ (∀ path, result = .ok path → j = (outdated keep l).length))

theorem run_leaves (keep : Nat) (a : Attempt) (d : Directory) : Leaves keep a.rotation d (a.run keep d).1 (a.run keep d).2 := by
  refine fileMachine.wp_iff_run.mp ?_ a.faults
  refine fileMachine.wp_bind.mpr (fileMachine.wp_call.mpr ⟨?_, ?_, ?_⟩)
  · intro _ made mkdir
    have same : entries made = entries d := by
      cases d <;> cases mkdir <;> rfl
    refine fileMachine.wp_bind.mpr (fileMachine.wp_call.mpr ⟨?_, ?_, ?_⟩)
    · intro _ d' vacuum
      obtain ⟨l, rfl, written⟩ := vacuumInto_ok vacuum
      rw [Written, same] at written
      refine fileMachine.wp_bind.mpr (fileMachine.wp_within.mpr (fileMachine.wp_mono (fun r d' pruned => ?_) (pruneBackups_leaves keep l)))
      obtain ⟨j, l', rfl, bound, without, all⟩ := pruned
      cases r with
      | error e => exact .inr ⟨rfl, l, l', j, written, rfl, bound, without, fun _ ok => by cases ok⟩
      | ok _ => exact .inr ⟨rfl, l, l', j, written, rfl, bound, without, fun _ _ => all rfl⟩
    · exact fun e _ => .inl ⟨rfl, same⟩
    · exact .inl ⟨rfl, same⟩
  · exact fun e _ => .inl ⟨rfl, rfl⟩
  · exact .inl ⟨rfl, rfl⟩

/-! ### What stays -/

/-- The file of a snapshot. -/
def fileOf (r : Rotation) : Entry := newBackup r.now r.image

/-- Of the snapshots `made` the directory has those from the `k`-th on, and beside
    them what was no backup at the start. -/
structure Kept (keep : Nat) (d₀ : Directory) (made : List Rotation) (k : Nat) (d : Directory) : Prop where
  enough : k ≤ made.length - keep
  backups : (entries d).filter isBackup = (made.drop k).map fileOf
  others : ((entries d).filter fun e => !isBackup e) = (entries d₀).filter fun e => !isBackup e
  named : ∀ r ∈ made, ∀ e ∈ entries d₀, isBackup e = false → e.name ≠ backupName r.now

/-- The rotations have clock readings that rise, in years of four digits. -/
structure Ascending (rs : List Rotation) : Prop where
  times : (rs.map (·.now)).Pairwise (· < ·)
  years : ∀ r ∈ rs, FourDigitYear r.now

theorem Ascending.sublist {rs rs' : List Rotation} (ascending : Ascending rs) (sublist : rs'.Sublist rs) : Ascending rs' :=
  ⟨ascending.times.sublist (sublist.map _), fun r member => ascending.years r (sublist.subset member)⟩

theorem Ascending.names {rs : List Rotation} (ascending : Ascending rs) :
    (rs.map fun r => backupName r.now).Pairwise (· < ·) := by
  have times := List.pairwise_map.mp ascending.times
  refine List.pairwise_map.mpr (times.imp_of_mem fun {r r'} member member' later => ?_)
  exact backupName_lt_of_lt (ascending.years r member) (ascending.years r' member') later

theorem filter_notMem_take_map {β γ : Type} [DecidableEq γ] {f : β → γ} {xs : List β} (nodup : (xs.map f).Nodup) (j : Nat) :
    (xs.filter fun x => f x ∉ (xs.map f).take j) = xs.drop j := by
  induction xs generalizing j with
  | nil => simp
  | cons x rest ih =>
    obtain ⟨fresh, nodup⟩ := List.nodup_cons.mp nodup
    cases j with
    | zero => simp
    | succ j =>
      rw [List.map_cons, List.take_succ_cons, List.filter_cons_of_neg (by simp), List.drop_succ_cons, ← ih nodup j]
      refine List.filter_congr fun y member => ?_
      have different : f y ≠ f x := fun same => fresh (same ▸ List.mem_map_of_mem member)
      simp [different]

theorem isBackup_of_name {e : Entry} (name : e.name = backupName r.now) (file : e.isDir = false) : isBackup e = true := by
  rw [← isBackup_newBackup r.now r.image]
  unfold isBackup
  rw [file, name]
  rfl

/-- The snapshot takes no other one's place. -/
theorem Kept.appended (kept : Kept keep d₀ made k d) (ascending : Ascending (made ++ [r]))
    (written : Written r.now r.image d l) : l.entries = entries d ++ [fileOf r] := by
  have all : ∀ e ∈ entries d, (!replaced r.now e) = true := by
    intro e member
    by_contra taken
    simp only [replaced, Bool.not_eq_true', Bool.not_eq_false, Bool.and_eq_true, decide_eq_true_eq] at taken
    have listed : e ∈ (entries d).filter isBackup := List.mem_filter.mpr ⟨member, isBackup_of_name taken.1.1 taken.1.2⟩
    rw [kept.backups] at listed
    obtain ⟨earlier, made', rfl⟩ := List.mem_map.mp listed
    have names := ascending.names
    rw [List.map_append, List.pairwise_append] at names
    exact absurd taken.1.1 (names.2.2 _ (List.mem_map_of_mem (List.mem_of_mem_drop made')) _ (.head _)).ne
  rw [written, List.filter_eq_self.mpr all]
  rfl

/-- Removing names of backups leaves everything else. -/
theorem others_without {names : List String} (inside : names ⊆ backupNames l) (without : Without names l l') :
    (l'.entries.filter fun e => !isBackup e) = l.entries.filter fun e => !isBackup e := by
  rw [without, List.filter_filter]
  refine List.filter_congr fun e member => ?_
  cases backup : isBackup e with
  | true => rfl
  | false =>
    have stays : e.name ∉ names := by
      intro removed
      obtain ⟨f, found, same⟩ := List.mem_map.mp (inside removed)
      obtain ⟨there, file⟩ := List.mem_filter.mp found
      obtain rfl := List.inj_on_of_nodup_map l.key there member same
      rw [file] at backup
      cases backup
    simp [stays]

theorem Kept.attempt (kept : Kept keep d₀ made k d) (a : Attempt) (ascending : Ascending (made ++ [a.rotation])) :
    ∃ k', Kept keep d₀ (made ++ if reported (a.run keep d).1 then [a.rotation] else []) k' (a.run keep d).2 ∧
      ∀ path, (a.run keep d).1 = .ok path → k' = made.length + 1 - keep := by
  rcases run_leaves keep a d with ⟨silent, same⟩ | ⟨told, l, l', j, written, left, bound, without, all⟩
  · rw [silent, if_neg Bool.false_ne_true, List.append_nil]
    refine ⟨k, ⟨kept.enough, by rw [same, kept.backups], by rw [same, kept.others], kept.named⟩, fun path ok => ?_⟩
    rw [ok] at silent
    cases silent
  · rw [told, if_pos rfl, left]
    have appended := kept.appended ascending written
    have enough := kept.enough
    have short : k ≤ made.length := by omega
    have backups : l.entries.filter isBackup = ((made ++ [a.rotation]).drop k).map fileOf := by
      rw [appended, List.filter_append, kept.backups, List.drop_append_of_le_length short, List.map_append]
      simp [fileOf, isBackup_newBackup]
    have names : backupNames l = ((made ++ [a.rotation]).drop k).map fun r => backupName r.now := by
      rw [backupNames, backups, List.map_map]
      rfl
    have rising : (backupNames l).Pairwise (· < ·) := by
      rw [names]
      exact (ascending.sublist (List.drop_sublist _ _)).names
    have sorted : sortBy id (backupNames l) = backupNames l :=
      (rising.imp fun {_ _} less => le_of_lt less).insertionSort_eq
    have number : (backupNames l).length = made.length + 1 - k := by simp [names]
    have first : (outdated keep l).take j = (backupNames l).take j := by
      rw [outdated, sorted, List.take_take]
      congr 1
      simp only [outdated, sorted, List.length_take] at bound
      omega
    have last : (outdated keep l).length = made.length + 1 - k - keep := by
      simp only [outdated, sorted, List.length_take, number]
      omega
    rw [first] at without
    refine ⟨k + j, ⟨?_, ?_, ?_, ?_⟩, fun path ok => ?_⟩
    · rw [last] at bound
      rw [List.length_append, List.length_singleton]
      omega
    · have nodup : (((made ++ [a.rotation]).drop k).map fun r => backupName r.now).Nodup := by
        rw [← names]
        exact backupNames_nodup l
      calc l'.entries.filter isBackup
          = (l.entries.filter isBackup).filter fun e => e.name ∉ (backupNames l).take j := by
            rw [without, List.filter_filter, List.filter_filter]
            exact List.filter_congr fun e _ => Bool.and_comm _ _
        _ = (((made ++ [a.rotation]).drop k).filter fun r =>
              backupName r.now ∉ (((made ++ [a.rotation]).drop k).map fun r => backupName r.now).take j).map fileOf := by
            rw [backups, List.filter_map, names]
            rfl
        _ = ((made ++ [a.rotation]).drop (k + j)).map fileOf := by
            rw [filter_notMem_take_map nodup, List.drop_drop]
    · rw [← kept.others, show entries (some l') = l'.entries from rfl, others_without (List.take_subset _ _) without, appended,
        List.filter_append]
      simp [fileOf, isBackup_newBackup]
    · intro r member e there other same
      rcases List.mem_append.mp member with old | new
      · exact kept.named r old e there other same
      · obtain rfl := List.mem_singleton.mp new
        have still : e ∈ (entries d).filter fun e => !isBackup e := by
          rw [kept.others]
          exact List.mem_filter.mpr ⟨there, by simp [other]⟩
        have member : e ∈ l.entries := by
          rw [appended]
          exact List.mem_append_left _ (List.mem_filter.mp still).1
        have written : fileOf a.rotation ∈ l.entries := by
          rw [appended]
          exact List.mem_append_right _ (.head _)
        obtain rfl := List.inj_on_of_nodup_map l.key member written same
        rw [fileOf, isBackup_newBackup] at other
        cases other
    · rw [all path ok, last]
      omega

/-- What a run leaves. A rotation that succeeds brings the number down to `keep`. -/
theorem run_kept (none : ∀ e ∈ entries d, isBackup e = false) (attempts : List Attempt)
    (ascending : Ascending (attempts.map (·.rotation))) :
    ∃ k, Kept keep d (snapshots keep attempts d) k (after keep attempts d) ∧
      ∀ earlier last path, attempts = earlier ++ [last] → (last.run keep (after keep earlier d)).1 = .ok path →
        k = (snapshots keep attempts d).length - keep := by
  induction attempts using List.reverseRecOn with
  | nil =>
    refine ⟨0, ⟨Nat.zero_le _, ?_, rfl, nofun⟩, fun earlier last path split => by simp at split⟩
    exact List.filter_eq_nil_iff.mpr fun e member => by simp [none e member]
  | append_singleton attempts a ih =>
    rw [List.map_append, List.map_singleton] at ascending
    obtain ⟨k, kept, -⟩ := ih (ascending.sublist (List.sublist_append_left _ _))
    have reports : (snapshots keep attempts d).Sublist (attempts.map (·.rotation)) := snapshots_sublist attempts d
    obtain ⟨k', kept', exact⟩ := kept.attempt a (ascending.sublist (reports.append (List.Sublist.refl _)))
    have last : snapshots keep [a] (after keep attempts d) =
        if reported (a.run keep (after keep attempts d)).1 then [a.rotation] else [] := rfl
    rw [snapshots_append, after_append, last]
    refine ⟨k', kept', fun earlier final path split ok => ?_⟩
    obtain ⟨rfl, same⟩ := List.append_inj' split rfl
    obtain rfl := List.singleton_inj.mp same
    rw [exact path ok, ok, reported, if_pos rfl, List.length_append, List.length_singleton]

/-! ### What the handlers show -/

theorem stat_self {e : Entry} (member : e ∈ l.entries) : fileMachine.exec (.stat e.name) (some l) = .ok (e, some l) := by
  obtain ⟨f, found⟩ := stat_file member
  obtain ⟨there, same⟩ := stat_ok found
  obtain rfl := List.inj_on_of_nodup_map l.key there member same
  exact found

theorem backupInfos_eval {es : List Entry} (inside : es ⊆ l.entries) :
    fileMachine.eval (backupInfos es) (some l) = (.ok ((es.filter isBackup).map Entry.info), some l) := by
  induction es with
  | nil => rfl
  | cons e es ih =>
    obtain ⟨member, rest⟩ := List.cons_subset.mp inside
    rw [backupInfos]
    cases backup : isBackup e with
    | false =>
      rw [List.filter_cons_of_neg (by simp [backup])]
      exact ih rest
    | true =>
      have current : fileMachine.eval (.call (.wrapped ("stat-ing backup " ++ e.name)) (.stat e.name)) (some l) = (.ok e, some l) :=
        fileMachine.eval_call_ok_iff.mpr (stat_self member)
      rw [List.filter_cons_of_pos backup, List.map_cons]
      show fileMachine.eval (.bind (.call _ _) fun current => .bind _ _) (some l) = _
      rw [Machine.eval_bind, current]
      show fileMachine.eval (.bind _ _) (some l) = _
      rw [Machine.eval_bind, ih rest]
      rfl

theorem handleListBackups_eval (d : Directory) : fileMachine.eval handleListBackups d =
    (.ok (.json 200 (.infos (sortBy (fun b => OrderDual.toDual b.name)
      (((sortBy (·.name) (entries d)).filter isBackup).map Entry.info)))), d) := by
  show fileMachine.eval (.bind (Prog.attempt listBackupFiles) _) d = _
  rw [Machine.eval_bind, Machine.eval_attempt]
  cases d with
  | none => rfl
  | some l =>
    have inside : sortBy (·.name) l.entries ⊆ l.entries := fun e member => (sortBy_perm _ _).mem_iff.mp member
    have listed : fileMachine.eval listBackupFiles (some l) = (.ok (sortBy (fun b => OrderDual.toDual b.name)
        (((sortBy (·.name) l.entries).filter isBackup).map Entry.info)), some l) := by
      show fileMachine.eval (.bind (Prog.attempt (.call _ _)) _) (some l) = _
      rw [Machine.eval_bind, Machine.eval_attempt]
      show fileMachine.eval (.bind (backupInfos (sortBy (·.name) l.entries)) _) (some l) = _
      rw [Machine.eval_bind, backupInfos_eval inside]
      rfl
    rw [listed]
    rfl

/-- The listing has the snapshots that stay, the newest one first. -/
theorem Kept.listed (kept : Kept keep d₀ made k d) (ascending : Ascending made) :
    fileMachine.eval handleListBackups d = (.ok (.json 200 (.infos (((made.drop k).map fun r => (fileOf r).info).reverse))), d) := by
  have rising : ((made.drop k).map fun r => backupName r.now).Pairwise (· < ·) := (ascending.sublist (List.drop_sublist _ _)).names
  rw [handleListBackups_eval]
  congr 4
  have perm : (((sortBy (·.name) (entries d)).filter isBackup).map Entry.info).Perm ((made.drop k).map fun r => (fileOf r).info) := by
    have same := ((sortBy_perm (fun e : Entry => e.name) (entries d)).filter isBackup).map Entry.info
    rwa [kept.backups, List.map_map] at same
  refine List.Perm.eq_of_pairwise (fun a b member member' le le' => ?_) (sortBy_pairwise _ _) ?_
    ((sortBy_perm _ _).trans (perm.trans (List.reverse_perm _).symm))
  · have left := perm.mem_iff.mp ((sortBy_perm _ _).mem_iff.mp member)
    obtain ⟨r, there, rfl⟩ := List.mem_map.mp left
    obtain ⟨r', there', rfl⟩ := List.mem_map.mp (List.mem_reverse.mp member')
    have names : backupName r.now = backupName r'.now := le_antisymm le' le
    have nodup : ((made.drop k).map fun r => backupName r.now).Nodup := rising.imp fun less => less.ne
    rw [List.inj_on_of_nodup_map nodup there there' names]
  · rw [List.pairwise_reverse]
    exact List.pairwise_map.mpr ((List.pairwise_map.mp rising).imp fun less => le_of_lt less)

/-- A snapshot that stays is downloaded as it was written. -/
theorem Kept.downloaded (kept : Kept keep d₀ made k d) (member : r ∈ made.drop k) (year : FourDigitYear r.now) :
    fileMachine.eval (handleDownloadBackup (backupName r.now)) d =
      (.ok (.json 200 (.file (backupName r.now) r.image)), d) := by
  have there : fileOf r ∈ (entries d).filter isBackup := by
    rw [kept.backups]
    exact List.mem_map_of_mem member
  cases d with
  | none => cases there
  | some l =>
    have stat : fileMachine.eval (.call (fun e => e) (.stat (backupName r.now))) (some l) = (.ok (fileOf r), some l) :=
      fileMachine.eval_call_ok_iff.mpr (stat_self (List.mem_filter.mp there).1)
    rw [handleDownloadBackup, backupFilePath, backupNameRe_backupName year]
    show fileMachine.eval (.bind (Prog.attempt (.call _ _)) _) (some l) = _
    rw [Machine.eval_bind, Machine.eval_attempt, stat]
    rfl

/-- A snapshot that was pruned is not found. -/
theorem Kept.missing (kept : Kept keep d₀ made k d) (ascending : Ascending made) (member : r ∈ made.take k) :
    fileMachine.eval (handleDownloadBackup (backupName r.now)) d = (.ok (.error 404 "backup not found"), d) := by
  have absent : ∀ e ∈ entries d, e.name ≠ backupName r.now := by
    intro e there same
    cases backup : isBackup e with
    | false =>
      have other : e ∈ (entries d).filter fun e => !isBackup e := List.mem_filter.mpr ⟨there, by simp [backup]⟩
      rw [kept.others] at other
      exact kept.named r (List.mem_of_mem_take member) e (List.mem_filter.mp other).1 backup same
    | true =>
      have listed : e ∈ (entries d).filter isBackup := List.mem_filter.mpr ⟨there, backup⟩
      rw [kept.backups] at listed
      obtain ⟨r', stays, rfl⟩ := List.mem_map.mp listed
      have names := ascending.names
      rw [← List.take_append_drop k made, List.map_append, List.pairwise_append] at names
      exact absurd same (names.2.2 _ (List.mem_map_of_mem member) _ (List.mem_map_of_mem stays)).ne'
  have stat : fileMachine.eval (.call (fun e => e) (.stat (backupName r.now))) d = (.error .notExist, d) := by
    have refused : fileMachine.exec (.stat (backupName r.now)) d = .error .notExist := by
      cases d with
      | none => rfl
      | some l =>
        have none : l.entries.find? (fun e => e.name = backupName r.now) = none :=
          List.find?_eq_none.mpr fun e there => by simpa using absent e there
        show FileStmt.exec (.stat (backupName r.now)) (some l) = _
        rw [FileStmt.exec, none]
    exact fileMachine.eval_error refused
  rw [handleDownloadBackup, backupFilePath, backupNameRe_backupName (ascending.years r (List.mem_of_mem_take member))]
  show fileMachine.eval (.bind (Prog.attempt (.call _ _)) _) d = _
  rw [Machine.eval_bind, Machine.eval_attempt, stat]
  rfl

/-- What the handlers show of the snapshots `made`: those from the `k`-th on are
    listed, the newest one first, and downloaded as they were written; the others are
    not found. -/
structure Shows (made : List Rotation) (k : Nat) (d : Directory) : Prop where
  listing : ∃ infos, fileMachine.eval handleListBackups d = (.ok (.json 200 (.infos infos)), d) ∧
    infos.map (fun b => (b.name, b.sizeBytes)) = ((made.drop k).reverse.map fun r => (backupName r.now, r.image.length))
  download : ∀ r ∈ made.drop k, fileMachine.eval (handleDownloadBackup (backupName r.now)) d =
    (.ok (.json 200 (.file (backupName r.now) r.image)), d)
  pruned : ∀ r ∈ made.take k, fileMachine.eval (handleDownloadBackup (backupName r.now)) d =
    (.ok (.error 404 "backup not found"), d)

/-- After any run of rotations at rising times, whichever of their steps fail, the
    handlers show the newest of the snapshots that were reported, `keep` of them at
    least, as far as there are so many, and no more after a rotation that succeeds;
    everything in the directory that is no backup is as it was. -/
theorem newest_snapshots_stay {keep : Nat} {d : Directory} (none : ∀ e ∈ entries d, isBackup e = false)
    (attempts : List Attempt) (ascending : Ascending (attempts.map (·.rotation))) :
    ∃ k, k ≤ (snapshots keep attempts d).length - keep ∧ Shows (snapshots keep attempts d) k (after keep attempts d) ∧
      ((entries (after keep attempts d)).filter fun e => !isBackup e) = entries d ∧
      ∀ earlier last path, attempts = earlier ++ [last] → (last.run keep (after keep earlier d)).1 = .ok path →
        k = (snapshots keep attempts d).length - keep := by
  obtain ⟨k, kept, succeeded⟩ := run_kept none attempts ascending
  have rising : Ascending (snapshots keep attempts d) := ascending.sublist (snapshots_sublist attempts d)
  have shows : Shows (snapshots keep attempts d) k (after keep attempts d) := by
    refine ⟨⟨_, kept.listed rising, ?_⟩, fun r member => ?_, fun r member => kept.missing rising member⟩
    · rw [← List.map_reverse, List.map_map]
      rfl
    · exact kept.downloaded member (rising.years r (List.mem_of_mem_drop member))
  have all : (entries d).filter (fun e => !isBackup e) = entries d := List.filter_eq_self.mpr fun e member => by simp [none e member]
  exact ⟨k, kept.enough, shows, kept.others.trans all, succeeded⟩

/-- Three hourly rotations; the second one cannot remove the first backup. -/
def hourly : List Attempt :=
  [⟨⟨1709210096123456789, [0]⟩, []⟩, ⟨⟨1709213696123456789, [1]⟩, [false, false, false, true]⟩, ⟨⟨1709217296123456789, [2]⟩, []⟩]

theorem newest_snapshots_stay_hourly :
    ∃ k, k ≤ (snapshots 1 hourly none).length - 1 ∧ Shows (snapshots 1 hourly none) k (after 1 hourly none) ∧
      ((entries (after 1 hourly none)).filter fun e => !isBackup e) = [] ∧
      ∀ earlier last path, hourly = earlier ++ [last] → (last.run 1 (after 1 earlier none)).1 = .ok path →
        k = (snapshots 1 hourly none).length - 1 := by
  have years : ∀ t ∈ [1709210096123456789, 1709213696123456789, 1709217296123456789], FourDigitYear t := by
    unfold FourDigitYear
    decide
  refine newest_snapshots_stay (fun e member => by cases member) hourly ⟨by decide, fun r member => years r.now ?_⟩
  simp only [hourly, List.map_cons, List.map_nil] at member
  have there := List.mem_map_of_mem (f := Rotation.now) member
  simpa using there

end Microserver.Retention
