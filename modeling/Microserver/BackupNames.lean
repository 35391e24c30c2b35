import Microserver.FilePaths
import Microserver.Rotations
import Microserver.Timestamps

/-!
What counts as a backup. Listing and pruning look at the beginning and the end of a
name, the download looks at all of it. Names that BackupRotate makes pass both
tests, but others can pass the first alone.
-/
namespace Microserver.BackupNames
open Microserver.Programs Microserver.Backups Microserver.FilePaths Microserver.FixedWidth Microserver.Timestamps Microserver.Rotations

/-- `backupFilePath` with the directory. -/
def backupFilePathIn (dir name : String) : Except FileErr String := (backupFilePath name).map (join dir)

/-- backupFilePath takes the name for one of a backup. -/
def Accepted (name : String) : Prop := ∀ dir, ∃ path, backupFilePathIn dir name = .ok path

/-! ### Names that match -/

theorem matchesAll_append {tests tests' : List (Char → Bool)} {cs : List Char} :
    matchesAll (tests ++ tests') cs = true ↔ ∃ a b, cs = a ++ b ∧ matchesAll tests a = true ∧ matchesAll tests' b = true := by
  induction tests generalizing cs with
  | nil =>
    constructor
    · intro rest
      exact ⟨[], cs, rfl, rfl, rest⟩
    · rintro ⟨a, b, rfl, none, rest⟩
      cases a with
      | nil => exact rest
      | cons c a => cases none
  | cons test tests ih =>
    cases cs with
    | nil =>
      constructor
      · rintro ⟨⟩
      · rintro ⟨a, b, same, first, -⟩
        obtain ⟨rfl, rfl⟩ := List.append_eq_nil_iff.mp same.symm
        cases first
    | cons c cs =>
      rw [List.cons_append, matchesAll, Bool.and_eq_true, ih]
      constructor
      · rintro ⟨first, a, b, rfl, rest, last⟩
        exact ⟨c :: a, b, rfl, by rw [matchesAll, first, rest]; rfl, last⟩
      · rintro ⟨a, b, same, first, last⟩
        cases a with
        | nil => cases first
        | cons d a =>
          rw [matchesAll, Bool.and_eq_true] at first
          obtain ⟨rfl, rfl⟩ := List.cons.inj same
          exact ⟨first.1, a, b, rfl, first.2, last⟩

theorem matchesAll_literally {text : String} {cs : List Char} : matchesAll (literally text) cs = true ↔ cs = text.toList := by
  unfold literally
  induction text.toList generalizing cs with
  | nil => cases cs <;> simp [matchesAll]
  | cons c text ih =>
    cases cs with
    | nil => simp [matchesAll]
    | cons d cs =>
      rw [List.map_cons, matchesAll, Bool.and_eq_true, ih, beq_iff_eq, List.cons.injEq]
      exact and_congr_left' eq_comm

theorem matchesAll_replicate {test : Char → Bool} {n : Nat} {cs : List Char} :
    matchesAll (List.replicate n test) cs = true ↔ cs.length = n ∧ ∀ c ∈ cs, test c = true := by
  induction n generalizing cs with
  | zero => cases cs <;> simp [matchesAll]
  | succ n ih =>
    cases cs with
    | nil => simp [matchesAll]
    | cons c cs =>
      rw [List.replicate_succ, matchesAll, Bool.and_eq_true, ih, List.length_cons, List.forall_mem_cons, Nat.succ_inj]
      exact and_left_comm

/-- The names that backupNameRe matches. -/
theorem backupNameRe_iff {name : String} : backupNameRe name = true ↔
    ∃ date time nanos, name.toList = backupPrefix.toList ++ (date ++ ('-' :: (time ++ ('.' :: (nanos ++ backupSuffix.toList))))) ∧
      (date.length = 8 ∧ ∀ c ∈ date, c.isDigit = true) ∧ (time.length = 6 ∧ ∀ c ∈ time, c.isDigit = true) ∧
        (nanos.length = 9 ∧ ∀ c ∈ nanos, c.isDigit = true) := by
  unfold backupNameRe
  simp only [List.append_assoc, matchesAll_append, matchesAll_literally, matchesAll_replicate]
  constructor
  · rintro ⟨_, _, whole, rfl, date, _, rfl, isDate, _, _, rfl, rfl, time, _, rfl, isTime, _, _, rfl, rfl, nanos, _, rfl, isNanos, rfl⟩
    exact ⟨date, time, nanos, whole, isDate, isTime, isNanos⟩
  · rintro ⟨date, time, nanos, whole, isDate, isTime, isNanos⟩
    exact ⟨_, _, whole, rfl, date, _, rfl, isDate, ['-'], _, rfl, rfl, time, _, rfl, isTime, ['.'], _, rfl, rfl, nanos, _, rfl,
      isNanos, rfl⟩

theorem accepted_iff {name : String} : Accepted name ↔ backupNameRe name = true := by
  unfold Accepted backupFilePathIn backupFilePath
  cases backupNameRe name with
  | true => exact iff_of_true (fun dir => ⟨_, rfl⟩) rfl
  | false =>
    refine iff_of_false (fun all => ?_) Bool.false_ne_true
    obtain ⟨path, ok⟩ := all ""
    cases ok

/-- What backupNameRe matches has the prefix and the suffix. -/
theorem isBackup_of_matches {e : Entry} (name : backupNameRe e.name = true) (file : e.isDir = false) : isBackup e = true := by
  obtain ⟨date, time, nanos, whole, -⟩ := backupNameRe_iff.mp name
  have starts : backupPrefix.toList <+: e.name.toList := ⟨_, whole.symm⟩
  have ends : backupSuffix.toList <:+ e.name.toList := by
    refine ⟨backupPrefix.toList ++ (date ++ ('-' :: (time ++ ('.' :: nanos)))), ?_⟩
    rw [whole]
    simp only [List.append_assoc, List.cons_append]
  simp [isBackup, file, starts, ends]

/-- What is accepted is no path but the name of an entry. -/
theorem plain_of_matches {name : String} (named : backupNameRe name = true) : Plain name.toList := by
  obtain ⟨date, time, nanos, whole, isDate, isTime, isNanos⟩ := backupNameRe_iff.mp named
  have digits {cs : List Char} (all : ∀ c ∈ cs, c.isDigit = true) : '/' ∉ cs := fun member =>
    absurd (all _ member) (by decide)
  have long : ∃ rest, name.toList = 'b' :: 'a' :: 'c' :: rest := ⟨_, whole⟩
  obtain ⟨rest, starts⟩ := long
  refine ⟨by simp [starts], by simp [starts], by simp [starts], ?_⟩
  rw [whole]
  simp only [List.mem_append, List.mem_cons, not_or]
  exact ⟨by decide, digits isDate.2, by decide, digits isTime.2, by decide, digits isNanos.2, by decide⟩

theorem digits_matched {width n : Nat} (positive : 0 < width) (fits : n < 10 ^ width) :
    (digits width n).length = width ∧ ∀ c ∈ digits width n, c.isDigit = true := ⟨digits_length positive fits, digits_isDigit⟩

/-- The names that BackupRotate makes in years of four digits. -/
theorem backupNameRe_backupName {t : Int} (year : FourDigitYear t) : backupNameRe (backupName t) = true := by
  have fit := fields_fit year
  unfold Fits nameFormat fields at fit
  simp only [List.forall₂_cons, List.Forall₂.nil, and_true] at fit
  obtain ⟨fitYear, fitMonth, fitDay, fitHour, fitMinute, fitSecond, fitNano⟩ := fit
  have joined {cs cs' : List Char} {n n' : Nat} (left : cs.length = n ∧ ∀ c ∈ cs, c.isDigit = true)
      (right : cs'.length = n' ∧ ∀ c ∈ cs', c.isDigit = true) :
      (cs ++ cs').length = n + n' ∧ ∀ c ∈ cs ++ cs', c.isDigit = true := by
    refine ⟨by rw [List.length_append, left.1, right.1], fun c member => ?_⟩
    exact (List.mem_append.mp member).elim (left.2 c) (right.2 c)
  refine backupNameRe_iff.mpr ⟨_, _, _, ?_, joined (joined (digits_matched fitYear.1 fitYear.2) (digits_matched fitMonth.1 fitMonth.2))
    (digits_matched fitDay.1 fitDay.2), joined (joined (digits_matched fitHour.1 fitHour.2) (digits_matched fitMinute.1 fitMinute.2))
    (digits_matched fitSecond.1 fitSecond.2), digits_matched fitNano.1 fitNano.2⟩
  rw [backupName_toList year]
  unfold nameFormat fields
  simp only [render, List.append_assoc, List.nil_append, List.cons_append, List.append_nil]

/-! ### One notion of a backup -/

/-- The names that a listing of the directory returns. -/
def Listed (name : String) (d : Directory) : Prop :=
  ∃ infos, fileMachine.eval listBackupFiles d = (.ok infos, d) ∧ name ∈ infos.map (·.name)

/-- Listing, pruning, rotation and download agree on what a backup is. -/
structure OneNotion (d : Directory) : Prop where
  listed : ∀ e ∈ entries d, e.isDir = false → (Listed e.name d ↔ Accepted e.name)
  deletes : ∀ keep faults, ∀ e ∈ entries d, e ∉ entries (fileMachine.run (pruneBackups keep) faults d).2 → Accepted e.name
  generated : ∀ t, FourDigitYear t → Accepted (backupName t)
  child : ∀ dir name path, backupFilePathIn dir name = .ok path → DirectChild dir path

/-- A listing has the names of the backups. -/
theorem listed_iff {l : Listing} {name : String} : Listed name (some l) ↔ name ∈ backupNames l := by
  obtain ⟨infos, listed, perm, -⟩ := listBackupFiles_lists l
  unfold Listed
  rw [listed]
  constructor
  · rintro ⟨infos', same, member⟩
    cases same
    exact perm.mem_iff.mp member
  · intro member
    exact ⟨infos, rfl, perm.mem_iff.mpr member⟩

/-- However it ends, a removal takes only entries of the names it is given. -/
theorem removeBackups_only (names : List String) (l : Listing) :
    fileMachine.wp (fun _ d => ∃ l', d = some l' ∧ ∀ e ∈ l.entries, e ∉ l'.entries → e.name ∈ names) (removeBackups names) (some l) := by
  have same (names : List String) : ∃ l', some l = some l' ∧ ∀ e ∈ l.entries, e ∉ l'.entries → e.name ∈ names :=
    ⟨l, rfl, fun e member gone => absurd member gone⟩
  induction names generalizing l with
  | nil => exact same []
  | cons n names ih =>
    refine fileMachine.wp_bind.mpr (fileMachine.wp_call.mpr ⟨?_, fun _ _ => same _, same _⟩)
    intro _ d removed
    obtain rfl := remove_ok removed
    refine fileMachine.wp_mono (fun r d only => ?_)
      (ih (l.remove n) fun names => ⟨l.remove n, rfl, fun e member gone => absurd member gone⟩)
    obtain ⟨l', rfl, only⟩ := only
    refine ⟨l', rfl, fun e member gone => ?_⟩
    by_cases first : e.name = n
    · exact first ▸ .head _
    · exact .tail _ (only e (List.mem_filter.mpr ⟨member, decide_eq_true first⟩) gone)

theorem pruneBackups_only (keep : Nat) (l : Listing) :
    fileMachine.wp (fun _ d => ∃ l', d = some l' ∧ ∀ e ∈ l.entries, e ∉ l'.entries → e.name ∈ backupNames l) (pruneBackups keep)
      (some l) := by
  have same : ∃ l', some l = some l' ∧ ∀ e ∈ l.entries, e ∉ l'.entries → e.name ∈ backupNames l :=
    ⟨l, rfl, fun e member gone => absurd member gone⟩
  refine fileMachine.wp_bind.mpr (fileMachine.wp_call.mpr ⟨?_, fun _ _ => same, same⟩)
  intro found d read
  cases read
  show fileMachine.wp _ (if (Ranking.sortBy id _).length ≤ keep then _ else _) _
  split
  · exact same
  · refine fileMachine.wp_mono (fun r d only => ?_) (removeBackups_only _ l)
    obtain ⟨l', rfl, only⟩ := only
    refine ⟨l', rfl, fun e member gone => ?_⟩
    have listed := (Ranking.sortBy_perm id _).mem_iff.mp (List.mem_of_mem_take (only e member gone))
    exact (((Ranking.sortBy_perm (·.name) l.entries).filter isBackup).map (·.name)).mem_iff.mp listed

/-- There is one notion of a backup if every file that is listed as one has the full
    form of the names. -/
theorem one_notion_iff (d : Directory) : OneNotion d ↔ ∀ e ∈ entries d, isBackup e = true → backupNameRe e.name = true := by
  constructor
  · intro notion e member backup
    cases d with
    | none => cases member
    | some l =>
      have file : e.isDir = false := by
        cases dir : e.isDir with
        | false => rfl
        | true =>
          unfold isBackup at backup
          rw [dir] at backup
          cases backup
      refine accepted_iff.mp ((notion.listed e member file).mp (listed_iff.mpr ?_))
      exact List.mem_map_of_mem (List.mem_filter.mpr ⟨member, backup⟩)
  · intro all
    refine ⟨fun e member file => ?_, fun keep faults e member gone => ?_, fun t year => ?_, fun dir name path ok => ?_⟩
    · cases d with
      | none => cases member
      | some l =>
        rw [listed_iff, accepted_iff]
        constructor
        · intro listed
          obtain ⟨f, found, same⟩ := List.mem_map.mp listed
          obtain ⟨inside, backup⟩ := List.mem_filter.mp found
          exact same ▸ all f inside backup
        · intro named
          exact List.mem_map_of_mem (List.mem_filter.mpr ⟨member, isBackup_of_matches named file⟩)
    · cases d with
      | none => cases member
      | some l =>
        have outcome := fileMachine.wp_iff_run.mp (pruneBackups_only keep l) faults
        obtain ⟨l', same, only⟩ := outcome
        rw [same] at gone
        obtain ⟨f, found, named⟩ := List.mem_map.mp (only e member gone)
        obtain ⟨inside, backup⟩ := List.mem_filter.mp found
        exact accepted_iff.mpr (named ▸ all f inside backup)
    · exact accepted_iff.mpr (backupNameRe_backupName year)
    · unfold backupFilePathIn backupFilePath at ok
      cases named : backupNameRe name with
      | false =>
        rw [named] at ok
        cases ok
      | true =>
        rw [named] at ok
        cases ok
        exact join_directChild dir (plain_of_matches named)

/-- A file that begins and ends like a backup is listed and not accepted. -/
theorem not_one_notion : ¬ ∀ d, OneNotion d := by
  intro all
  have member : (⟨"backup-vec.db", .file, 0, [0]⟩ : Entry) ∈ entries (holding "backup-vec.db") := .head _
  have listed : Listed "backup-vec.db" (holding "backup-vec.db") := listed_iff.mpr (by decide)
  have accepted := ((all (holding "backup-vec.db")).listed _ member rfl).mp listed
  exact absurd (accepted_iff.mp accepted) (by decide)

end Microserver.BackupNames
