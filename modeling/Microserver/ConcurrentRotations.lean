import Microserver.Interleaving
import Microserver.Rotations

/-!
Rotations that run at the same time. A rotation removes what its own listing has
shown to be outdated, and a name that two listings have shown can be removed once
only. As long as no rotation lists the directory while another one still has files
to remove, none of them fails, and the last one to list leaves no more backups than
are to be kept.
-/
namespace Microserver.ConcurrentRotations
open Microserver.Base64 Microserver.Programs Microserver.Interleaving Microserver.Ranking Microserver.Backups Microserver.Rotations

/-! ### Runs -/

/-- A call of BackupRotate: the reading of its clock, and the image that it writes. -/
structure Rotation where
  now : Int
  image : Bytes

abbrev RotationPool := Pool FileStmt FileErr Directory String

/-- The rotations before their first step. -/
def rotations (keep : Nat) (d : Directory) (rs : List Rotation) : RotationPool :=
  ⟨d, rs.map fun r => BackupRotate r.now r.image keep⟩

def isReadDir {β : Type} : FileStmt β → Bool
  | .readDir => true
  | _ => false

def isRemove {β : Type} : FileStmt β → Bool
  | .remove _ => true
  | _ => false

/-- The rotation lists the directory next. -/
def lists : FileOp String → Bool
  | .stmt c _ => isReadDir c
  | _ => false

/-- The rotation has files to remove. -/
def removes : FileOp String → Bool
  | .stmt c _ => isRemove c
  | _ => false

/-- Nothing but a removal fails. -/
def Faultless (pool : RotationPool) (turn : Turn) : Prop :=
  turn.2 = false ∧ Pool.Executes (fun c d => isRemove c = true ∨ (fileMachine.exec c d).isOk = true) pool turn

/-- A rotation lists the directory when no other one has files to remove. -/
def Undisturbed (pool : RotationPool) (turn : Turn) : Prop :=
  (pool.threads[turn.1]?.any lists) = true → ∀ p ∈ pool.threads.eraseIdx turn.1, removes p = false

instance (pool : RotationPool) (turn : Turn) : Decidable (Faultless pool turn) := by
  unfold Faultless
  exact instDecidableAnd

instance (pool : RotationPool) (turn : Turn) : Decidable (Undisturbed pool turn) := by
  unfold Undisturbed
  exact inferInstance

/-! ### Phases -/

/-- How far a rotation has come. -/
inductive Phase
  | start
  | write
  | list
  | remove (names : List String)

/-- What is left of a rotation. -/
def resume (keep : Nat) (r : Rotation) : Phase → FileOp String
  | .start => BackupRotate r.now r.image keep
  | .write => (Prog.call (.wrapped "backing up database") (.vacuumInto (backupName r.now) r.now r.image)).bind fun _ =>
      ((pruneBackups keep).within (.wrapped "backup succeeded but pruning old backups failed")).bind fun _ => .ret (backupName r.now)
  | .list => ((pruneBackups keep).within (.wrapped "backup succeeded but pruning old backups failed")).bind fun _ =>
      .ret (backupName r.now)
  | .remove names => ((removeBackups names).within (.wrapped "backup succeeded but pruning old backups failed")).bind fun _ =>
      .ret (backupName r.now)

variable {keep : Nat} {r : Rotation} {l : Listing} {d d' : Directory}

theorem step_start : fileMachine.step false (resume keep r .start) d = (resume keep r .write, some (d.getD Listing.empty)) := by
  cases d <;> rfl

theorem step_write (written : fileMachine.exec (.vacuumInto (backupName r.now) r.now r.image) d = .ok ((), d')) :
    fileMachine.step false (resume keep r .write) d = (resume keep r .list, d') := by
  show fileMachine.step false (.stmt _ _) d = _
  simp only [Machine.step, written]
  rfl

theorem step_list : fileMachine.step false (resume keep r .list) (some l) = (resume keep r (.remove (outdated keep l)), some l) := by
  have perm : (((sortBy (·.name) l.entries).filter isBackup).map (·.name)).Perm (backupNames l) :=
    ((sortBy_perm (·.name) l.entries).filter isBackup).map (·.name)
  have sorted := sortBy_of_perm perm
  have length : (sortBy id (backupNames l)).length = (backupNames l).length := (sortBy_perm id (backupNames l)).length_eq
  show (Prog.bind (Prog.within _ (if (sortBy id _).length ≤ keep then _ else _)) _, some l) = _
  rw [sorted]
  split
  · rename_i few
    have none : outdated keep l = [] := by
      unfold outdated
      rw [← length, Nat.sub_eq_zero_of_le few]
      rfl
    rw [none]
    rfl
  · unfold resume outdated
    rw [← length]

theorem step_remove {n : String} {names : List String} (member : n ∈ l.entries.map (·.name)) :
    fileMachine.step false (resume keep r (.remove (n :: names))) (some l) = (resume keep r (.remove names), some (l.remove n)) := by
  have removed : fileMachine.exec (.remove n) (some l) = .ok ((), some (l.remove n)) := if_pos member
  show fileMachine.step false (.stmt _ _) (some l) = _
  simp only [Machine.step, removed]
  rfl

/-! ### What holds in between -/

/-- The names that the listing of a rotation has shown to be outdated, and that are
    still to be removed. -/
def outstanding : Phase → List String
  | .remove names => names
  | _ => []

/-- The rotation has not listed the directory yet. -/
def Unlisted (phase : Phase) : Prop := ∀ names, phase ≠ .remove names

/-- The names of the backups in the directory. -/
def backups (d : Directory) : List String := ((entries d).filter isBackup).map (·.name)

/-- What holds of the directory and of the rotations. -/
structure Orderly (keep : Nat) (d : Directory) (ts : List (Rotation × Phase)) : Prop where
  made : ∀ t ∈ ts, t.2 ≠ .start → d ≠ none
  pending : ∀ t ∈ ts, (outstanding t.2).Nodup ∧ outstanding t.2 ⊆ backups d
  alone : ts.Pairwise fun t t' => outstanding t.2 = [] ∨ outstanding t'.2 = []
  bounded : (∃ t ∈ ts, Unlisted t.2) ∨ (backups d).length ≤ keep + (ts.flatMap fun t => outstanding t.2).length

theorem Orderly.perm {ts ts' : List (Rotation × Phase)} (orderly : Orderly keep d ts) (perm : ts.Perm ts') : Orderly keep d ts' := by
  refine ⟨fun t member => orderly.made t (perm.mem_iff.mpr member), fun t member => orderly.pending t (perm.mem_iff.mpr member), ?_, ?_⟩
  · exact (perm.pairwise_iff fun either => either.symm).mp orderly.alone
  · rcases orderly.bounded with ⟨t, member, unlisted⟩ | few
    · exact .inl ⟨t, perm.mem_iff.mp member, unlisted⟩
    · rw [(perm.flatMap_right fun t => outstanding t.2).length_eq] at few
      exact .inr few

variable {ts : List (Rotation × Phase)}

theorem unlisted_start : Unlisted .start := fun _ => Phase.noConfusion
theorem unlisted_write : Unlisted .write := fun _ => Phase.noConfusion
theorem unlisted_list : Unlisted .list := fun _ => Phase.noConfusion

/-- A step of a rotation that has nothing to remove, before or after. -/
theorem Orderly.advance {phase phase' : Phase} (orderly : Orderly keep d ((r, phase) :: ts)) (more : backups d ⊆ backups d')
    (made : d' ≠ none) (after : outstanding phase' = []) (unlisted : Unlisted phase') :
    Orderly keep d' ((r, phase') :: ts) := by
  obtain ⟨-, alone⟩ := List.pairwise_cons.mp orderly.alone
  refine ⟨fun t member _ => made, List.forall_mem_cons.mpr ⟨?_, fun t member => ?_⟩, List.pairwise_cons.mpr ⟨fun t _ => .inl after, alone⟩,
    .inl ⟨_, .head _, unlisted⟩⟩
  · show (outstanding phase').Nodup ∧ outstanding phase' ⊆ backups d'
    rw [after]
    exact ⟨List.nodup_nil, List.nil_subset _⟩
  · obtain ⟨nodup, listed⟩ := orderly.pending t (.tail _ member)
    exact ⟨nodup, fun n named => more (listed named)⟩

theorem backups_some (l : Listing) : backups (some l) = backupNames l := rfl

/-- The listing of a rotation, while no other one has files to remove. -/
theorem Orderly.list (orderly : Orderly keep (some l) ((r, .list) :: ts)) (idle : ∀ t ∈ ts, outstanding t.2 = []) :
    Orderly keep (some l) ((r, .remove (outdated keep l)) :: ts) := by
  have perm := sortBy_perm id (backupNames l)
  obtain ⟨-, alone⟩ := List.pairwise_cons.mp orderly.alone
  refine ⟨fun t member _ => Option.some_ne_none l, List.forall_mem_cons.mpr ⟨?_, fun t member => orderly.pending t (.tail _ member)⟩,
    List.pairwise_cons.mpr ⟨fun t member => .inr (idle t member), alone⟩, .inr ?_⟩
  · refine ⟨(perm.nodup_iff.mpr (backupNames_nodup l)).sublist (List.take_sublist _ _), fun n early => ?_⟩
    exact perm.mem_iff.mp (List.mem_of_mem_take early)
  · rw [List.flatMap_cons, List.length_append, backups_some]
    show (backupNames l).length ≤ keep + ((List.take _ _).length + _)
    rw [List.length_take, perm.length_eq]
    omega

/-- A removal, which no other rotation is to make. -/
theorem Orderly.remove {n : String} {names : List String} (orderly : Orderly keep (some l) ((r, .remove (n :: names)) :: ts)) :
    n ∈ l.entries.map (·.name) ∧ Orderly keep (some (l.remove n)) ((r, .remove names) :: ts) := by
  obtain ⟨⟨nodup, listed⟩, pending⟩ := List.forall_mem_cons.mp orderly.pending
  obtain ⟨idle, alone⟩ := List.pairwise_cons.mp orderly.alone
  have idle (t : Rotation × Phase) (member : t ∈ ts) : outstanding t.2 = [] := (idle t member).resolve_left (List.cons_ne_nil n names)
  obtain ⟨fresh, nodup⟩ := List.nodup_cons.mp nodup
  obtain ⟨first, rest⟩ := List.cons_subset.mp listed
  have left : backups (some (l.remove n)) = (backups (some l)).erase n := by
    rw [backups_some l, (backupNames_nodup l).erase_eq_filter]
    show ((l.entries.filter fun e => e.name ≠ n).filter isBackup).map (·.name) = ((l.entries.filter isBackup).map (·.name)).filter _
    rw [List.filter_map, List.filter_filter, List.filter_filter]
    congr 1
    refine List.filter_congr fun e _ => ?_
    by_cases same : e.name = n <;> simp [same]
  have fewer : (backups (some (l.remove n))).length + 1 = (backups (some l)).length := by
    rw [left, List.length_erase_of_mem first]
    exact Nat.sub_add_cancel (List.length_pos_of_mem first)
  refine ⟨(List.filter_sublist.map _).subset first, fun t member _ => Option.some_ne_none _, List.forall_mem_cons.mpr ⟨⟨nodup, ?_⟩, ?_⟩,
    List.pairwise_cons.mpr ⟨fun t member => .inr (idle t member), alone⟩, ?_⟩
  · intro m member
    rw [left]
    exact (backupNames_nodup l).mem_erase_iff.mpr ⟨fun same => fresh (same ▸ member), rest member⟩
  · intro t member
    rw [idle t member]
    exact ⟨List.nodup_nil, List.nil_subset _⟩
  · rcases orderly.bounded with ⟨t, member, unlisted⟩ | few
    · rcases List.mem_cons.mp member with rfl | other
      · exact absurd rfl (unlisted (n :: names))
      · exact .inl ⟨t, .tail _ other, unlisted⟩
    · refine .inr ?_
      rw [List.flatMap_cons, List.length_append] at few ⊢
      simp only [outstanding, List.length_cons] at few ⊢
      omega

theorem backups_written {image : Bytes} {now : Int} (written : Written now image d l) : backups d ⊆ backups (some l) := by
  intro n named
  obtain ⟨e, found, rfl⟩ := List.mem_map.mp named
  obtain ⟨member, backup⟩ := List.mem_filter.mp found
  cases same : replaced now e with
  | true =>
    have named : e.name = backupName now := by
      simp only [replaced, Bool.and_eq_true, decide_eq_true_eq] at same
      exact same.1.1
    rw [named]
    exact newBackup_listed written
  | false =>
    refine List.mem_map.mpr ⟨e, List.mem_filter.mpr ⟨?_, backup⟩, rfl⟩
    show e ∈ l.entries
    rw [written]
    exact List.mem_append_left _ (List.mem_filter.mpr ⟨member, by rw [same]; rfl⟩)

/-! ### Runs -/

/-- The directory, and how far each rotation has come. -/
def progress (keep : Nat) (d : Directory) (ts : List (Rotation × Phase)) : RotationPool :=
  ⟨d, ts.map fun t => resume keep t.1 t.2⟩

/-- A step of one of the rotations. -/
theorem Orderly.step {phase : Phase} (orderly : Orderly keep d ((r, phase) :: ts))
    (written : phase = .write → (fileMachine.exec (.vacuumInto (backupName r.now) r.now r.image) d).isOk = true)
    (idle : phase = .list → ∀ t ∈ ts, outstanding t.2 = []) :
    ∃ d' phase', fileMachine.step false (resume keep r phase) d = (resume keep r phase', d') ∧ Orderly keep d' ((r, phase') :: ts) := by
  cases phase with
  | start =>
    refine ⟨_, .write, step_start, orderly.advance ?_ (Option.some_ne_none _) rfl unlisted_write⟩
    cases d with
    | none => exact List.nil_subset _
    | some l => exact List.Subset.refl _
  | write =>
    cases ran : fileMachine.exec (.vacuumInto (backupName r.now) r.now r.image) d with
    | error e =>
      have ok := written rfl
      rw [ran] at ok
      cases ok
    | ok outcome =>
      obtain ⟨_, d'⟩ := outcome
      obtain ⟨l, rfl, new⟩ := vacuumInto_ok ran
      exact ⟨_, .list, step_write ran, orderly.advance (backups_written new) (Option.some_ne_none l) rfl unlisted_list⟩
  | list =>
    cases d with
    | none => exact absurd rfl (orderly.made _ (.head _) Phase.noConfusion)
    | some l => exact ⟨_, _, step_list, orderly.list (idle rfl)⟩
  | remove names =>
    cases names with
    | nil => exact ⟨d, .remove [], rfl, orderly⟩
    | cons n names =>
      cases d with
      | none => exact absurd rfl (orderly.made _ (.head _) Phase.noConfusion)
      | some l =>
        obtain ⟨member, orderly⟩ := orderly.remove
        exact ⟨_, _, step_remove member, orderly⟩

theorem idle_of_removes {t : Rotation × Phase} (none : removes (resume keep t.1 t.2) = false) : outstanding t.2 = [] := by
  obtain ⟨r, phase⟩ := t
  cases phase with
  | remove names =>
    cases names with
    | nil => rfl
    | cons n names => cases none
  | start | write | list => rfl

theorem progress_append (before behind : List (Rotation × Phase)) (phase : Phase) :
    progress keep d (before ++ (r, phase) :: behind) =
      ⟨d, before.map (fun t => resume keep t.1 t.2) ++ resume keep r phase :: behind.map fun t => resume keep t.1 t.2⟩ := by
  simp [progress]

/-- A turn of the rotation between others. -/
theorem Orderly.turn_between {before behind : List (Rotation × Phase)} {phase : Phase}
    (orderly : Orderly keep d (before ++ (r, phase) :: behind))
    (faultless : Faultless (progress keep d (before ++ (r, phase) :: behind)) (before.length, false))
    (undisturbed : Undisturbed (progress keep d (before ++ (r, phase) :: behind)) (before.length, false)) :
    ∃ d' phase', (progress keep d (before ++ (r, phase) :: behind)).step fileMachine (before.length, false) =
        progress keep d' (before ++ (r, phase') :: behind) ∧ Orderly keep d' (before ++ (r, phase') :: behind) := by
  have thread : (progress keep d (before ++ (r, phase) :: behind)).threads[before.length]? = some (resume keep r phase) := by
    simp [progress]
  have written : phase = .write → (fileMachine.exec (.vacuumInto (backupName r.now) r.now r.image) d).isOk = true := by
    rintro rfl
    have executes := faultless.2 rfl
    rw [thread] at executes
    exact executes.resolve_left Bool.false_ne_true
  have idle : phase = .list → ∀ t ∈ before ++ behind, outstanding t.2 = [] := by
    rintro rfl t member
    have others : (progress keep d (before ++ (r, .list) :: behind)).threads.eraseIdx before.length =
        (before ++ behind).map fun t => resume keep t.1 t.2 := by
      simp [progress, List.eraseIdx_append_of_length_le]
    refine idle_of_removes (undisturbed ?_ (resume keep t.1 t.2) ?_)
    · rw [thread]
      rfl
    · rw [others]
      exact List.mem_map_of_mem member
  obtain ⟨d', phase', stepped, orderly⟩ := (orderly.perm List.perm_middle).step written idle
  refine ⟨d', phase', ?_, orderly.perm List.perm_middle.symm⟩
  have length : (before.map fun t => resume keep t.1 t.2).length = before.length := List.length_map _
  rw [progress_append, progress_append, ← length, Pool.step_append, stepped]

/-- A turn of the pool. -/
theorem Orderly.turn {turn : Turn} (orderly : Orderly keep d ts) (faultless : Faultless (progress keep d ts) turn)
    (undisturbed : Undisturbed (progress keep d ts) turn) :
    ∃ d' ts', (progress keep d ts).step fileMachine turn = progress keep d' ts' ∧ Orderly keep d' ts' := by
  obtain ⟨i, faulty⟩ := turn
  obtain rfl : faulty = false := faultless.1
  cases found : ts[i]? with
  | none =>
    have absent : (progress keep d ts).threads[i]? = none := by simp [progress, found]
    refine ⟨d, ts, ?_, orderly⟩
    unfold Pool.step
    rw [absent]
  | some t =>
    obtain ⟨bound, here⟩ := List.getElem?_eq_some_iff.mp found
    obtain ⟨before, behind, rfl, rfl⟩ : ∃ before behind, ts = before ++ t :: behind ∧ before.length = i := by
      refine ⟨ts.take i, ts.drop (i + 1), ?_, List.length_take_of_le bound.le⟩
      rw [← here, List.getElem_cons_drop, List.take_append_drop]
    obtain ⟨d', phase', stepped, orderly⟩ := orderly.turn_between faultless undisturbed
    exact ⟨d', _, stepped, orderly⟩

/-! ### The result -/

theorem orderly_start {rs : List Rotation} (some : rs ≠ []) (keep : Nat) (d : Directory) :
    Orderly keep d (rs.map fun r => (r, .start)) := by
  have all (t : Rotation × Phase) (member : t ∈ rs.map fun r => (r, Phase.start)) : t.2 = .start := by
    obtain ⟨r, -, rfl⟩ := List.mem_map.mp member
    rfl
  refine ⟨fun t member later => absurd (all t member) later, fun t member => ?_, ?_, .inl ?_⟩
  · rw [all t member]
    exact ⟨List.nodup_nil, List.nil_subset _⟩
  · exact List.pairwise_of_forall_mem_list fun t member _ _ => .inl (by rw [all t member]; rfl)
  · obtain ⟨r, member⟩ := List.exists_mem_of_ne_nil rs some
    exact ⟨_, List.mem_map_of_mem member, unlisted_start⟩

theorem progress_start (keep : Nat) (d : Directory) (rs : List Rotation) :
    progress keep d (rs.map fun r => (r, .start)) = rotations keep d rs := by
  unfold progress rotations
  rw [List.map_map]
  rfl

theorem resume_fails (phase : Phase) (e : FileErr) : resume keep r phase ≠ .fail e := by
  cases phase with
  | remove names => cases names <;> rintro ⟨⟩
  | start | write | list => rintro ⟨⟩

theorem remove_of_finished {phase : Phase} (finished : (resume keep r phase).finished = true) : phase = .remove [] := by
  cases phase with
  | remove names =>
    cases names with
    | nil => rfl
    | cons n names => cases finished
  | start | write | list => cases finished

/-- When all have finished, no more backups are left than are to be kept. -/
theorem Orderly.finished (orderly : Orderly keep d ts) (finished : (progress keep d ts).Finished) : (backups d).length ≤ keep := by
  have done (t : Rotation × Phase) (member : t ∈ ts) : t.2 = .remove [] :=
    remove_of_finished (finished _ (List.mem_map_of_mem member))
  rcases orderly.bounded with ⟨t, member, unlisted⟩ | few
  · exact absurd (done t member) (unlisted [])
  · have nothing : (ts.flatMap fun t => outstanding t.2) = [] := by
      refine List.flatMap_eq_nil_iff.mpr fun t member => ?_
      rw [done t member]
      rfl
    rwa [nothing] at few

/-- Rotations that never list the directory while another one has files to remove
    do not fail, and they leave no more backups than are to be kept. -/
theorem rotations_undisturbed {keep : Nat} {d : Directory} {rs : List Rotation} {schedule : List Turn} (some : rs ≠ [])
    (faultless : Along (Pool.step fileMachine) Faultless schedule (rotations keep d rs))
    (undisturbed : Along (Pool.step fileMachine) Undisturbed schedule (rotations keep d rs)) :
    let pool := (rotations keep d rs).run fileMachine schedule
    (∀ p ∈ pool.threads, ∀ e, p ≠ .fail e) ∧ (pool.Finished → (backups pool.shared).length ≤ keep) := by
  have reached : ∃ d' ts, (rotations keep d rs).run fileMachine schedule = progress keep d' ts ∧ Orderly keep d' ts := by
    refine run_invariant (I := fun pool : RotationPool => ∃ d' ts, pool = progress keep d' ts ∧ Orderly keep d' ts) ?_
      ⟨d, _, (progress_start keep d rs).symm, orderly_start some keep d⟩ (along_and faultless undisturbed)
    rintro pool turn ⟨d', ts, rfl, orderly⟩ ⟨faultless, undisturbed⟩
    obtain ⟨d'', ts', stepped, orderly⟩ := orderly.turn faultless undisturbed
    exact ⟨d'', ts', stepped, orderly⟩
  obtain ⟨d', ts, same, orderly⟩ := reached
  dsimp only
  rw [same]
  refine ⟨fun p member => ?_, orderly.finished⟩
  obtain ⟨t, -, rfl⟩ := List.mem_map.mp member
  exact resume_fails t.2

/-- Two rotations, an hour apart by their clocks. -/
def hourly : List Rotation := [⟨1709210096123456789, [0]⟩, ⟨1709213696123456789, [1]⟩]

/-- One rotation after the other, with one backup to keep. -/
theorem rotations_undisturbed_hourly :
    let pool := (rotations 1 none hourly).run fileMachine
      [(0, false), (0, false), (0, false), (1, false), (1, false), (1, false), (1, false)]
    (∀ p ∈ pool.threads, ∀ e, p ≠ .fail e) ∧ (pool.Finished → (backups pool.shared).length ≤ 1) :=
  rotations_undisturbed (List.cons_ne_nil _ _) (by decide) (by decide)

/-- The program has given up. -/
def failed {α : Type} : FileOp α → Bool
  | .fail _ => true
  | _ => false

/-- Both write, both list the directory, and the second one is to remove a backup
    that the first one has removed. -/
theorem rotations_disturbed :
    ¬ ∀ (keep : Nat) (d : Directory) (rs : List Rotation) (schedule : List Turn), 1 ≤ keep → 2 ≤ rs.length →
      (rs.map fun r => backupName r.now).Nodup → Along (Pool.step fileMachine) Faultless schedule (rotations keep d rs) →
      ∀ p ∈ ((rotations keep d rs).run fileMachine schedule).threads, ∀ e, p ≠ .fail e := by
  intro all
  let schedule : List Turn := [(0, false), (0, false), (1, false), (1, false), (0, false), (1, false), (0, false), (1, false)]
  have second : ((rotations 1 none hourly).run fileMachine schedule).threads.any failed = true := by decide
  obtain ⟨p, member, gave⟩ := List.any_eq_true.mp second
  cases p with
  | fail e =>
    exact all 1 none hourly schedule (Nat.le_refl 1) (Nat.le_refl 2) (by decide) (by decide) _ member e rfl
  | ret path => cases gave
  | stmt c next => cases gave

end Microserver.ConcurrentRotations
