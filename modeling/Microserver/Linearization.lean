import Microserver.Interleaving

/-!
Programs that take effect at one instant. Such a program makes statements that
find the same whenever they are made, and at most one that may find or leave
something else, its last one (`Atomic`). However the turns of such programs are
interleaved, the outcome is that of the programs run one after another, in the
order in which they finish (`serial_commits`): the states of the pool during the
run show nothing that a sequential run does not.
-/
namespace Microserver.Linearization
open Microserver.Programs Microserver.Interleaving
universe u
variable {F : Type → Type u} {ε σ α β : Type}

/-! ### Atomic programs -/

section Programs
variable (M : Machine F ε σ) (S : σ → Prop)

/-- The statement reports `r` in every state of the class, and changes none. -/
def Finds (c : F β) (r : Except ε β) : Prop := ∀ s, S s → M.exec c s = r.map fun b => (b, s)

/-- The program only looks, and every outcome it can have meets `Q`. -/
def Looks (Q : Except ε α → Prop) : Prog F ε α → Prop
  | .ret a => Q (.ok a)
  | .fail e => Q (.error e)
  | .stmt c next => ∃ r, Finds M S c r ∧ Looks Q (next r) ∧ Looks Q (next (.error M.fault))

/-- The program looks, and then issues one statement at most, which stays in the
    class and ends the program. -/
def Atomic : Prog F ε α → Prop
  | .ret _ => True
  | .fail _ => True
  | .stmt c next =>
    ((∀ r, (next r).finished = true) ∧ ∀ s b s', S s → M.exec c s = .ok (b, s') → S s') ∨
    ∃ r, Finds M S c r ∧ Atomic (next r) ∧ Atomic (next (.error M.fault))

variable {M S}

theorem looks_bind {Q : Except ε α → Prop} {R : Except ε β → Prop} {p : Prog F ε α} {f : α → Prog F ε β}
    (first : Looks M S Q p) (follow : ∀ a, Q (.ok a) → Looks M S R (f a)) (error : ∀ e, Q (.error e) → R (.error e)) :
    Looks M S R (p.bind f) := by
  induction p with
  | ret a => exact follow a first
  | fail e => exact error e first
  | stmt c next ih =>
    obtain ⟨r, finds, found, failed⟩ := first
    exact ⟨r, finds, ih _ found, ih _ failed⟩

theorem looks_within {Q : Except ε α → Prop} {context : ε → ε} {p : Prog F ε α}
    (looks : Looks M S (fun r => Q (r.mapError context)) p) : Looks M S Q (p.within context) := by
  induction p with
  | ret a => exact looks
  | fail e => exact looks
  | stmt c next ih =>
    obtain ⟨r, finds, found, failed⟩ := looks
    exact ⟨r, finds, ih _ found, ih _ failed⟩

theorem looks_attempt {Q : Except ε (Except ε α) → Prop} {p : Prog F ε α} (looks : Looks M S (fun r => Q (.ok r)) p) :
    Looks M S Q p.attempt := by
  induction p with
  | ret a => exact looks
  | fail e => exact looks
  | stmt c next ih =>
    obtain ⟨r, finds, found, failed⟩ := looks
    exact ⟨r, finds, ih _ found, ih _ failed⟩

theorem looks_call {Q : Except ε β → Prop} {context : ε → ε} {c : F β} {r : Except ε β} (finds : Finds M S c r)
    (found : Q (r.mapError context)) (failed : Q (.error (context M.fault))) : Looks M S Q (.call context c) := by
  refine ⟨r, finds, ?_, failed⟩
  cases r with
  | ok b => exact found
  | error e => exact found

theorem atomic_of_finished {p : Prog F ε α} (finished : p.finished = true) : Atomic M S p := by
  cases p with
  | ret a => trivial
  | fail e => trivial
  | stmt c next => simp [Prog.finished] at finished

/-- The one statement that counts. -/
theorem atomic_call {context : ε → ε} {c : F β} (stays : ∀ s b s', S s → M.exec c s = .ok (b, s') → S s') :
    Atomic M S (.call context c : Prog F ε β) := by
  refine .inl ⟨fun r => ?_, stays⟩
  cases r <;> rfl

/-- A program that looks before it acts. -/
theorem atomic_bind {Q : Except ε α → Prop} {p : Prog F ε α} {f : α → Prog F ε β} (first : Looks M S Q p)
    (follow : ∀ a, Q (.ok a) → Atomic M S (f a)) : Atomic M S (p.bind f) := by
  induction p with
  | ret a => exact follow a first
  | fail e => trivial
  | stmt c next ih =>
    obtain ⟨r, finds, found, failed⟩ := first
    exact .inr ⟨r, finds, ih _ found, ih _ failed⟩

/-- A program that acts before it puts its result together. -/
theorem atomic_bind_finished {p : Prog F ε α} {f : α → Prog F ε β} (first : Atomic M S p)
    (finished : ∀ a, (f a).finished = true) : Atomic M S (p.bind f) := by
  induction p with
  | ret a => exact atomic_of_finished (finished a)
  | fail e => trivial
  | stmt c next ih =>
    rcases first with ⟨last, stays⟩ | ⟨r, finds, found, failed⟩
    · refine .inl ⟨fun r => ?_, stays⟩
      have ended := last r
      show ((next r).bind f).finished = true
      cases rest : next r with
      | ret a => exact finished a
      | fail e => rfl
      | stmt c' next' => simp [rest, Prog.finished] at ended
    · exact .inr ⟨r, finds, ih _ found, ih _ failed⟩

theorem atomic_attempt {p : Prog F ε α} (atomic : Atomic M S p) : Atomic M S p.attempt := by
  induction p with
  | ret a => trivial
  | fail e => trivial
  | stmt c next ih =>
    rcases atomic with ⟨last, stays⟩ | ⟨r, finds, found, failed⟩
    · refine .inl ⟨fun r => ?_, stays⟩
      have ended := last r
      show (next r).attempt.finished = true
      cases rest : next r with
      | ret a => rfl
      | fail e => rfl
      | stmt c' next' => simp [rest, Prog.finished] at ended
    · exact .inr ⟨r, finds, ih _ found, ih _ failed⟩

/-- One statement of an atomic program leaves it atomic, and keeps the class. -/
theorem atomic_step {p : Prog F ε α} {s : σ} (faulty : Bool) (atomic : Atomic M S p) (holds : S s) :
    Atomic M S (M.step faulty p s).1 ∧ S (M.step faulty p s).2 := by
  cases p with
  | ret a => exact ⟨trivial, holds⟩
  | fail e => exact ⟨trivial, holds⟩
  | stmt c next =>
    cases faulty with
    | true =>
      refine ⟨?_, holds⟩
      rcases atomic with ⟨last, _⟩ | ⟨r, _, _, failed⟩
      · exact atomic_of_finished (last _)
      · exact failed
    | false =>
      rcases atomic with ⟨last, stays⟩ | ⟨r, finds, found, _⟩
      · cases ran : M.exec c s with
        | ok outcome => simpa [Machine.step, ran] using ⟨atomic_of_finished (last _), stays _ _ _ holds ran⟩
        | error e => simpa [Machine.step, ran] using ⟨atomic_of_finished (last _), holds⟩
      · have ran := finds s holds
        cases r with
        | ok b => simpa [Machine.step, ran, Except.map] using ⟨found, holds⟩
        | error e => simpa [Machine.step, ran, Except.map] using ⟨found, holds⟩

/-- Where an atomic program has not finished by a statement, the statement could
    have been made in any state of the class. -/
theorem run_step {p : Prog F ε α} {s s' : σ} (faulty : Bool) (faults : List Bool) (atomic : Atomic M S p) (holds : S s)
    (unfinished : (M.step faulty p s).1.finished = false) (holds' : S s') :
    (M.step faulty p s).2 = s ∧ M.run p (faulty :: faults) s' = M.run (M.step faulty p s).1 faults s' := by
  cases p with
  | ret a => simp [Machine.step, Prog.finished] at unfinished
  | fail e => simp [Machine.step, Prog.finished] at unfinished
  | stmt c next =>
    cases faulty with
    | true => exact ⟨rfl, rfl⟩
    | false =>
      rcases atomic with ⟨last, _⟩ | ⟨r, finds, _, _⟩
      · exfalso
        cases ran : M.exec c s <;> simp [Machine.step, ran, last] at unfinished
      · have here := finds s holds
        have there := finds s' holds'
        cases r with
        | ok b => simp [Machine.step, Machine.run, here, there, Except.map]
        | error e => simp [Machine.step, Machine.run, here, there, Except.map]

theorem run_of_step_finished {p : Prog F ε α} {s : σ} (faulty : Bool) (faults : List Bool) (running : p.finished = false)
    (finished : (M.step faulty p s).1.finished = true) :
    M.run p (faulty :: faults) s = M.run (M.step faulty p s).1 [] (M.step faulty p s).2 := by
  have ended : ∀ (q : Prog F ε α) (t : σ), q.finished = true → M.run q faults t = M.run q [] t := by
    intro q t done
    cases q with
    | ret a => rfl
    | fail e => rfl
    | stmt c next => simp [Prog.finished] at done
  cases p with
  | ret a => simp [Prog.finished] at running
  | fail e => simp [Prog.finished] at running
  | stmt c next =>
    cases faulty with
    | true => exact ended _ _ finished
    | false =>
      cases ran : M.exec c s with
      | ok outcome =>
        simp only [Machine.step, ran] at finished ⊢
        simpa [Machine.run, ran] using ended _ _ finished
      | error e =>
        simp only [Machine.step, ran] at finished ⊢
        simpa [Machine.run, ran] using ended _ _ finished

end Programs

/-! ### Runs of atomic programs -/

section Runs
variable (M : Machine F ε σ)

/-- The program has neither returned nor given up. -/
def running (pool : Pool F ε σ α) (i : Nat) : Bool := (pool.threads[i]?).any fun p => !p.finished

/-- The failures that the program meets, in the order of its turns. -/
def faultsOf (schedule : List Turn) (i : Nat) : List Bool := (schedule.filter fun turn => turn.1 = i).map (·.2)

/-- The programs that finish in the run, in the order in which they do. -/
def commits : List Turn → Pool F ε σ α → List Nat
  | [], _ => []
  | turn :: rest, pool =>
    if running pool turn.1 && !running (pool.step M turn) turn.1 then turn.1 :: commits rest (pool.step M turn)
    else commits rest (pool.step M turn)

/-- A finished program. -/
def outcome : Except ε α → Prog F ε α
  | .ok a => .ret a
  | .error e => .fail e

/-- The program runs to its end, alone. -/
def complete (faults : List Bool) (pool : Pool F ε σ α) (i : Nat) : Pool F ε σ α :=
  match pool.threads[i]? with
  | none => pool
  | some p => ⟨(M.run p faults pool.shared).2, pool.threads.set i (outcome (M.run p faults pool.shared).1)⟩

/-- The programs of `order` run one after another, each with its own failures. -/
def serially (faults : Nat → List Bool) (order : List Nat) (pool : Pool F ε σ α) : Pool F ε σ α :=
  order.foldl (fun pool i => complete M (faults i) pool i) pool

variable {M} {S : σ → Prop} {pool : Pool F ε σ α}

theorem running_iff {i : Nat} : running pool i = true ↔ ∃ p, pool.threads[i]? = some p ∧ p.finished = false := by
  simp [running, Option.any_eq_true]

theorem run_outcome {p : Prog F ε α} (finished : p.finished = true) (faults : List Bool) (s : σ) :
    outcome (M.run p faults s).1 = p ∧ (M.run p faults s).2 = s := by
  cases p with
  | ret a => exact ⟨rfl, rfl⟩
  | fail e => exact ⟨rfl, rfl⟩
  | stmt c next => simp [Prog.finished] at finished

/-- A turn of a program that has finished changes nothing. -/
theorem step_idle {turn : Turn} (idle : running pool turn.1 = false) : pool.step M turn = pool := by
  unfold Pool.step
  cases found : pool.threads[turn.1]? with
  | none => rfl
  | some p =>
    have finished : p.finished = true := by simpa [running, found] using idle
    have still : M.step turn.2 p pool.shared = (p, pool.shared) := by
      cases p with
      | ret a => rfl
      | fail e => rfl
      | stmt c next => simp [Prog.finished] at finished
    have there : pool.threads.set turn.1 p = pool.threads := by
      obtain ⟨bound, rfl⟩ := List.getElem?_eq_some_iff.mp found
      exact List.set_getElem_self bound
    simp [still, there]

theorem running_step {turn : Turn} {i : Nat} (ran : running (pool.step M turn) i = true) : running pool i = true := by
  by_cases own : i = turn.1
  · by_contra idle
    subst own
    rw [step_idle (by simpa using idle)] at ran
    exact idle ran
  · obtain ⟨j, faulty⟩ := turn
    rw [running, Pool.step_other own faulty] at ran
    exact ran

theorem running_run {schedule : List Turn} {i : Nat} (ran : running (pool.run M schedule) i = true) :
    running pool i = true := by
  induction schedule generalizing pool with
  | nil => exact ran
  | cons turn rest ih => exact running_step (ih ran)

theorem commits_append (earlier later : List Turn) (pool : Pool F ε σ α) :
    commits M (earlier ++ later) pool = commits M earlier pool ++ commits M later (pool.run M earlier) := by
  induction earlier generalizing pool with
  | nil => rfl
  | cons turn rest ih =>
    have ran : pool.run M (turn :: rest) = (pool.step M turn).run M rest := rfl
    rw [List.cons_append, commits, commits, ih, ran]
    split <;> rfl

/-- Exactly the programs that finish in the run are in the order. -/
theorem mem_commits {schedule : List Turn} {i : Nat} :
    i ∈ commits M schedule pool ↔ running pool i = true ∧ running (pool.run M schedule) i = false := by
  induction schedule generalizing pool with
  | nil => simp [commits, Pool.run]
  | cons turn rest ih =>
    have ran : pool.run M (turn :: rest) = (pool.step M turn).run M rest := rfl
    have after : running (pool.step M turn) i = false → running ((pool.step M turn).run M rest) i = false := by
      intro idle
      by_contra still
      rw [running_run (by simpa using still)] at idle
      cases idle
    have other : i ≠ turn.1 → running (pool.step M turn) i = running pool i := by
      intro different
      rw [running, Pool.step_other different turn.2, running]
    rw [ran, commits]
    by_cases own : i = turn.1
    · subst own
      cases before : running pool turn.1 with
      | false => simp [ih, step_idle before, before]
      | true =>
        cases next : running (pool.step M turn) turn.1 with
        | false => simp [after next]
        | true => simp [ih, next]
    · rw [← other own]
      split <;> simp [ih, own]

/-- No program finishes twice. -/
theorem commits_nodup (schedule : List Turn) (pool : Pool F ε σ α) : (commits M schedule pool).Nodup := by
  induction schedule generalizing pool with
  | nil => exact List.nodup_nil
  | cons turn rest ih =>
    rw [commits]
    split
    · rename_i done
      refine List.nodup_cons.mpr ⟨fun again => ?_, ih _⟩
      simp [(mem_commits.mp again).1] at done
    · exact ih _

theorem complete_other {faults : List Bool} {i j : Nat} (different : i ≠ j) :
    (complete M faults pool i).threads[j]? = pool.threads[j]? := by
  unfold complete
  cases pool.threads[i]? with
  | none => rfl
  | some p => exact List.getElem?_set_ne different

theorem complete_self (faults : List Bool) {i : Nat} {p : Prog F ε α} (thread : pool.threads[i]? = some p) :
    (complete M faults pool i).threads[i]? = some (outcome (M.run p faults pool.shared).1) ∧
      (complete M faults pool i).shared = (M.run p faults pool.shared).2 := by
  obtain ⟨bound, rfl⟩ := List.getElem?_eq_some_iff.mp thread
  simp [complete, bound]

theorem atomic_run {p : Prog F ε α} (faults : List Bool) {s : σ} (atomic : Atomic M S p) (holds : S s) :
    S (M.run p faults s).2 := by
  induction p generalizing faults s with
  | ret a => exact holds
  | fail e => exact holds
  | stmt c next ih =>
    have after := atomic_step (faults.headD false) atomic holds
    cases faulty : faults.headD false with
    | true =>
      rw [faulty] at after
      rw [M.run_faulty faulty]
      exact ih _ faults.tail after.1 after.2
    | false =>
      rw [faulty] at after
      cases ran : M.exec c s with
      | ok result =>
        simp only [Machine.step, ran] at after
        simpa only [M.run_ok faulty ran] using ih _ faults.tail after.1 after.2
      | error e =>
        simp only [Machine.step, ran] at after
        simpa only [M.run_error faulty ran] using ih _ faults.tail after.1 after.2

/-- What the program would come to, run alone in the state. -/
def result (M : Machine F ε σ) (faults : Nat → List Bool) (pool : Pool F ε σ α) (i : Nat) (s : σ) : Option (Except ε α × σ) :=
  (pool.threads[i]?).map fun p => M.run p (faults i) s

/-- The pools are in the same state, and each program still comes to the same in both. -/
structure Alike (M : Machine F ε σ) (S : σ → Prop) (faults faults' : Nat → List Bool) (pool pool' : Pool F ε σ α) : Prop where
  shared : pool.shared = pool'.shared
  holds : S pool.shared
  atomic : ∀ p ∈ pool.threads, Atomic M S p
  results : ∀ i s, S s → result M faults pool i s = result M faults' pool' i s

theorem alike_complete {faults faults' : Nat → List Bool} {pool' : Pool F ε σ α} (alike : Alike M S faults faults' pool pool')
    (i : Nat) : Alike M S faults faults' (complete M (faults i) pool i) (complete M (faults' i) pool' i) ∧
      (complete M (faults i) pool i).threads[i]? = (complete M (faults' i) pool' i).threads[i]? := by
  have same := alike.results i pool.shared alike.holds
  cases thread : pool.threads[i]? with
  | none =>
    have thread' : pool'.threads[i]? = none := by simpa [result, thread] using same.symm
    have unmoved : complete M (faults i) pool i = pool := by simp [complete, thread]
    have unmoved' : complete M (faults' i) pool' i = pool' := by simp [complete, thread']
    rw [unmoved, unmoved', thread, thread']
    exact ⟨alike, rfl⟩
  | some p =>
    obtain ⟨p', thread'⟩ : ∃ p', pool'.threads[i]? = some p' := by
      cases there : pool'.threads[i]? with
      | none => simp [result, thread, there] at same
      | some p' => exact ⟨p', rfl⟩
    have ran : M.run p (faults i) pool.shared = M.run p' (faults' i) pool.shared := by
      simpa [result, thread, thread'] using same
    obtain ⟨ended, moved⟩ := complete_self (M := M) (faults i) thread
    obtain ⟨ended', moved'⟩ := complete_self (M := M) (faults' i) thread'
    rw [← alike.shared, ← ran] at ended' moved'
    refine ⟨⟨moved.trans moved'.symm, ?_, ?_, ?_⟩, ended.trans ended'.symm⟩
    · rw [moved]
      exact atomic_run _ (alike.atomic p (List.mem_of_getElem? thread)) alike.holds
    · intro q member
      simp only [complete, thread] at member
      rcases List.mem_or_eq_of_mem_set member with old | rfl
      · exact alike.atomic q old
      · cases (M.run p (faults i) pool.shared).1 <;> trivial
    · intro j s holds
      by_cases own : i = j
      · subst own
        simp only [result, ended, ended']
        cases (M.run p (faults i) pool.shared).1 <;> rfl
      · have results := alike.results j s holds
        rw [result, result] at results ⊢
        rw [complete_other own, complete_other own]
        exact results

/-- Pools in which each program comes to the same agree after a sequential run on
    the state, and on the programs that have run. -/
theorem alike_serially {faults faults' : Nat → List Bool} {pool' : Pool F ε σ α} (alike : Alike M S faults faults' pool pool')
    (order : List Nat) :
    (serially M faults order pool).shared = (serially M faults' order pool').shared ∧
    ∀ i, i ∈ order ∨ pool.threads[i]? = pool'.threads[i]? →
      (serially M faults order pool).threads[i]? = (serially M faults' order pool').threads[i]? := by
  induction order generalizing pool pool' with
  | nil => exact ⟨alike.shared, fun i same => same.resolve_left (by simp)⟩
  | cons j rest ih =>
    obtain ⟨next, own⟩ := alike_complete alike j
    refine ⟨(ih next).1, fun i same => (ih next).2 i ?_⟩
    by_cases here : j = i
    · subst here
      exact .inr own
    · rcases same with member | same
      · exact .inl ((List.mem_cons.mp member).resolve_left (Ne.symm here))
      · exact .inr (by rw [complete_other here, complete_other here, same])

/-- A turn that finishes its program is the sequential run of the program there. -/
theorem complete_of_step {i : Nat} {faulty : Bool} {faults : List Bool} (runs : running pool i = true)
    (ends : running (pool.step M (i, faulty)) i = false) :
    complete M (faulty :: faults) pool i = pool.step M (i, faulty) := by
  obtain ⟨p, thread, unfinished⟩ := running_iff.mp runs
  have finished : (M.step faulty p pool.shared).1.finished = true := by
    simpa [running, (Pool.step_self thread faulty).1] using ends
  have ran := run_of_step_finished (M := M) faulty faults unfinished finished
  obtain ⟨same, still⟩ := run_outcome (M := M) finished [] (M.step faulty p pool.shared).2
  simp only [complete, Pool.step, thread, ran, same, still]

/-- A turn that does not finish its program leaves what each program comes to. -/
theorem alike_of_step (turn : Turn) (faults : Nat → List Bool) (atomic : ∀ p ∈ pool.threads, Atomic M S p)
    (holds : S pool.shared) (unfinished : running pool turn.1 = running (pool.step M turn) turn.1) :
    Alike M S (fun i => if i = turn.1 then turn.2 :: faults i else faults i) faults pool (pool.step M turn) := by
  obtain ⟨i, faulty⟩ := turn
  have other : ∀ j s, j ≠ i → result M (fun j => if j = i then faulty :: faults j else faults j) pool j s =
      result M faults (pool.step M (i, faulty)) j s := by
    intro j s different
    simp [result, different, Pool.step_other different faulty]
  cases runs : running pool i with
  | false =>
    have still : pool.step M (i, faulty) = pool := step_idle runs
    refine ⟨by rw [still], holds, atomic, fun j s _ => ?_⟩
    by_cases own : j = i
    · subst own
      rw [still]
      cases thread : pool.threads[j]? with
      | none => simp [result, thread]
      | some p =>
        have finished : p.finished = true := by simpa [running, thread] using runs
        cases p with
        | ret a => simp [result, thread, Machine.run]
        | fail e => simp [result, thread, Machine.run]
        | stmt c next => simp [Prog.finished] at finished
    · exact other j s own
  | true =>
    obtain ⟨p, thread, _⟩ := running_iff.mp runs
    obtain ⟨moved, shared⟩ := Pool.step_self (M := M) thread faulty
    have going : (M.step faulty p pool.shared).1.finished = false := by
      rw [runs] at unfinished
      simpa [running, moved] using unfinished.symm
    have looks : ∀ s, S s → (M.step faulty p pool.shared).2 = pool.shared ∧
        M.run p (faulty :: faults i) s = M.run (M.step faulty p pool.shared).1 (faults i) s := fun s here =>
      run_step faulty (faults i) (atomic p (List.mem_of_getElem? thread)) holds going here
    refine ⟨(shared.trans (looks _ holds).1).symm, holds, atomic, fun j s here => ?_⟩
    by_cases own : j = i
    · subst own
      simp [result, thread, moved, (looks s here).2]
    · exact other j s own

theorem faultsOf_cons (turn : Turn) (rest : List Turn) :
    faultsOf (turn :: rest) = fun i => if i = turn.1 then turn.2 :: faultsOf rest i else faultsOf rest i := by
  funext i
  by_cases own : i = turn.1
  · simp [faultsOf, own]
  · simp [faultsOf, own, Ne.symm own]

theorem atomic_pool_step (turn : Turn) (atomic : ∀ p ∈ pool.threads, Atomic M S p) (holds : S pool.shared) :
    (∀ p ∈ (pool.step M turn).threads, Atomic M S p) ∧ S (pool.step M turn).shared := by
  unfold Pool.step
  cases found : pool.threads[turn.1]? with
  | none => exact ⟨atomic, holds⟩
  | some p =>
    have after := atomic_step (M := M) turn.2 (atomic p (List.mem_of_getElem? found)) holds
    refine ⟨fun q member => ?_, after.2⟩
    rcases List.mem_or_eq_of_mem_set member with old | rfl
    · exact atomic q old
    · exact after.1

/-- The run of atomic programs and the sequential run in the order in which they
    finish agree on the state and on every program that has finished. -/
theorem run_eq_serially {schedule : List Turn} (atomic : ∀ p ∈ pool.threads, Atomic M S p) (holds : S pool.shared) :
    (serially M (faultsOf schedule) (commits M schedule pool) pool).shared = (pool.run M schedule).shared ∧
    ∀ i, running (pool.run M schedule) i = false →
      (serially M (faultsOf schedule) (commits M schedule pool) pool).threads[i]? = (pool.run M schedule).threads[i]? := by
  induction schedule generalizing pool with
  | nil => exact ⟨rfl, fun _ _ => rfl⟩
  | cons turn rest ih =>
    have ran : pool.run M (turn :: rest) = (pool.step M turn).run M rest := rfl
    obtain ⟨atomic', holds'⟩ := atomic_pool_step turn atomic holds
    obtain ⟨shared, threads⟩ := ih atomic' holds'
    by_cases ends : (running pool turn.1 && !running (pool.step M turn) turn.1) = true
    · -- the program takes effect here, and the other turns are those of the rest
      have split : running pool turn.1 = true ∧ running (pool.step M turn) turn.1 = false := by simpa using ends
      have first : serially M (faultsOf (turn :: rest)) (commits M (turn :: rest) pool) pool =
          serially M (faultsOf (turn :: rest)) (commits M rest (pool.step M turn)) (pool.step M turn) := by
        rw [commits, if_pos ends, serially, List.foldl_cons, ← serially, faultsOf_cons]
        simp only [↓reduceIte]
        rw [complete_of_step split.1 split.2]
      have alike : Alike M S (faultsOf (turn :: rest)) (faultsOf rest) (pool.step M turn) (pool.step M turn) := by
        have idle := alike_of_step turn (faultsOf rest) atomic' holds' (by rw [step_idle split.2])
        rwa [step_idle split.2, ← faultsOf_cons] at idle
      obtain ⟨same, each⟩ := alike_serially alike (commits M rest (pool.step M turn))
      rw [first, ran]
      exact ⟨same.trans shared, fun i idle => (each i (.inr rfl)).trans (threads i idle)⟩
    · have unfinished : running pool turn.1 = running (pool.step M turn) turn.1 := by
        cases before : running pool turn.1 with
        | false => rw [step_idle before, before]
        | true => simpa [before] using (Bool.eq_false_iff.mpr ends).symm
      have alike := alike_of_step turn (faultsOf rest) atomic holds unfinished
      rw [← faultsOf_cons] at alike
      obtain ⟨same, each⟩ := alike_serially alike (commits M rest (pool.step M turn))
      rw [commits, if_neg ends, ran]
      refine ⟨same.trans shared, fun i idle => (each i ?_).trans (threads i idle)⟩
      by_cases own : i = turn.1
      · cases before : running pool turn.1 with
        | false => exact .inr (by rw [step_idle before])
        | true => exact .inl (mem_commits.mpr ⟨by rw [own, ← unfinished, before], idle⟩)
      · exact .inr (Pool.step_other own turn.2).symm

/-- The run is one of its programs one after another. Those in `order` have
    finished, and came to what each of them comes to alone, with the failures that
    it met; the others have left no trace. A program that finished before another
    one began stands before it. -/
structure Serial (M : Machine F ε σ) (schedule : List Turn) (pool : Pool F ε σ α) (order : List Nat) : Prop where
  nodup : order.Nodup
  members : ∀ i, i ∈ order ↔ running pool i = true ∧ running (pool.run M schedule) i = false
  shared : (serially M (faultsOf schedule) order pool).shared = (pool.run M schedule).shared
  threads : ∀ i, running (pool.run M schedule) i = false →
    (serially M (faultsOf schedule) order pool).threads[i]? = (pool.run M schedule).threads[i]?
  timely : ∀ earlier later, schedule = earlier ++ later → ∀ i ∈ order, running (pool.run M earlier) i = false →
    ∀ j ∈ order, (∀ turn ∈ earlier, turn.1 ≠ j) → List.Sublist [i, j] order

/-- A program that has had no turn is where it was. -/
theorem run_other {schedule : List Turn} {j : Nat} (absent : ∀ turn ∈ schedule, turn.1 ≠ j) :
    (pool.run M schedule).threads[j]? = pool.threads[j]? := by
  induction schedule generalizing pool with
  | nil => rfl
  | cons turn rest ih =>
    have ran : pool.run M (turn :: rest) = (pool.step M turn).run M rest := rfl
    rw [ran, ih fun turn' member => absent turn' (List.mem_cons_of_mem _ member)]
    exact Pool.step_other (absent turn List.mem_cons_self).symm turn.2

/-- Every run of atomic programs is serial. -/
theorem serial_commits (schedule : List Turn) (atomic : ∀ p ∈ pool.threads, Atomic M S p) (holds : S pool.shared) :
    Serial M schedule pool (commits M schedule pool) where
  nodup := commits_nodup schedule pool
  members := fun _ => mem_commits
  shared := (run_eq_serially atomic holds).1
  threads := (run_eq_serially atomic holds).2
  timely := by
    rintro earlier later rfl i finished idle j begun absent
    have first : i ∈ commits M earlier pool := mem_commits.mpr ⟨(mem_commits.mp finished).1, idle⟩
    have waiting : running (pool.run M earlier) j = true := by
      rw [running, run_other absent]
      exact (mem_commits.mp begun).1
    have second : j ∈ commits M later (pool.run M earlier) := by
      rw [commits_append, List.mem_append] at begun
      refine begun.resolve_left fun already => ?_
      rw [(mem_commits.mp already).2] at waiting
      cases waiting
    rw [commits_append]
    exact List.Sublist.append (List.singleton_sublist.mpr first) (List.singleton_sublist.mpr second)

end Runs
end Microserver.Linearization
