import Microserver.Programs

/-!
Interleavings of programs. A pool is a shared state and the programs still to
run on it; a schedule says, turn by turn, which program issues its next
statement and whether that statement fails from outside. Conditions on runs are
conditions on the turns (`Along`), and an invariant of the shared state needs
one fact for each statement (`shared_invariant`).
-/
namespace Microserver.Interleaving
open Microserver.Programs
universe u
variable {F : Type → Type u} {ε σ α : Type}

/-- A shared state and the programs that still run on it. -/
structure Pool (F : Type → Type u) (ε σ α : Type) where
  shared : σ
  threads : List (Prog F ε α)

/-- Which program moves, and whether its statement fails from outside. -/
abbrev Turn := Nat × Bool

namespace Pool

/-- Requests before any of them has made a step. -/
def start {ρ : Type} (program : ρ → Prog F ε α) (requests : List ρ) (s : σ) : Pool F ε σ α := ⟨s, requests.map program⟩

/-- One turn; a program that has finished, or is not there, does nothing. -/
def step (M : Machine F ε σ) (pool : Pool F ε σ α) (turn : Turn) : Pool F ε σ α :=
  match pool.threads[turn.1]? with
  | none => pool
  | some p =>
    { shared := (M.step turn.2 p pool.shared).2,
      threads := pool.threads.set turn.1 (M.step turn.2 p pool.shared).1 }

/-- The turns of a schedule, in order. -/
def run (M : Machine F ε σ) (schedule : List Turn) (pool : Pool F ε σ α) : Pool F ε σ α :=
  schedule.foldl (step M) pool

/-- Every program has returned or given up. -/
def Finished (pool : Pool F ε σ α) : Prop := ∀ p ∈ pool.threads, p.finished = true

instance (pool : Pool F ε σ α) : Decidable pool.Finished := List.decidableBAll _ _

/-- The statement that the turn executes meets `G` in the state it finds. -/
def Executes (G : ∀ {β}, F β → σ → Prop) (pool : Pool F ε σ α) (turn : Turn) : Prop :=
  turn.2 = false → match pool.threads[turn.1]? with
    | some (.stmt c _) => G c pool.shared
    | _ => True

instance {G : ∀ {β}, F β → σ → Prop} [∀ {β} (c : F β) s, Decidable (G c s)] (pool : Pool F ε σ α) (turn : Turn) :
    Decidable (Executes G pool turn) := by
  unfold Executes
  cases pool.threads[turn.1]? with
  | none => exact inferInstance
  | some p => cases p <;> exact inferInstance

variable {M : Machine F ε σ}

/-- A turn moves its own program and the shared state. -/
theorem step_self {pool : Pool F ε σ α} {i : Nat} {p : Prog F ε α} (thread : pool.threads[i]? = some p) (faulty : Bool) :
    (pool.step M (i, faulty)).threads[i]? = some (M.step faulty p pool.shared).1 ∧
      (pool.step M (i, faulty)).shared = (M.step faulty p pool.shared).2 := by
  obtain ⟨bound, rfl⟩ := List.getElem?_eq_some_iff.mp thread
  unfold step
  simp [bound]

/-- The other programs stay where they are. -/
theorem step_other {pool : Pool F ε σ α} {i j : Nat} (different : i ≠ j) (faulty : Bool) :
    (pool.step M (j, faulty)).threads[i]? = pool.threads[i]? := by
  unfold step
  cases pool.threads[j]? with
  | none => rfl
  | some p => exact List.getElem?_set_ne (Ne.symm different)

/-- A turn of the program between others. -/
theorem step_append {s : σ} {before behind : List (Prog F ε α)} {p : Prog F ε α} (faulty : Bool) :
    (⟨s, before ++ p :: behind⟩ : Pool F ε σ α).step M (before.length, faulty) =
      ⟨(M.step faulty p s).2, before ++ (M.step faulty p s).1 :: behind⟩ := by
  have thread : (before ++ p :: behind)[before.length]? = some p := by simp
  unfold step
  rw [thread]
  simp

/-- The programs of a pool keep to the statements they can issue. -/
theorem uses_step {P : ∀ {β}, F β → Prop} {pool : Pool F ε σ α} (uses : ∀ p ∈ pool.threads, p.Uses P)
    (turn : Turn) : ∀ p ∈ (pool.step M turn).threads, p.Uses P := by
  unfold step
  cases found : pool.threads[turn.1]? with
  | none => exact uses
  | some p =>
    intro q member
    rcases List.mem_or_eq_of_mem_set member with old | rfl
    · exact uses q old
    · exact M.uses_step _ _ (uses p (List.mem_of_getElem? found))

/-- One turn keeps what its statement keeps. -/
theorem step_shared {I : σ → Prop} {P : ∀ {β}, F β → Prop} {G : ∀ {β}, F β → σ → Prop}
    (keeps : ∀ {β} (c : F β) s b s', P c → G c s → I s → M.exec c s = .ok (b, s') → I s')
    {pool : Pool F ε σ α} {turn : Turn} (uses : ∀ p ∈ pool.threads, p.Uses P) (holds : I pool.shared)
    (guarded : Executes G pool turn) : I (pool.step M turn).shared := by
  obtain ⟨i, faulty⟩ := turn
  unfold step
  cases found : pool.threads[i]? with
  | none => exact holds
  | some p =>
    cases p with
    | ret a => exact holds
    | fail e => exact holds
    | stmt c next =>
      cases faulty with
      | true => exact holds
      | false =>
        have allowed : P c := (uses _ (List.mem_of_getElem? found)).1
        have met : G c pool.shared := by simpa [Executes, found] using guarded
        cases ran : M.exec c pool.shared with
        | ok outcome => simpa [Machine.step, ran] using keeps c _ _ _ allowed met holds ran
        | error e => simpa [Machine.step, ran] using holds

/-- An invariant of the shared state that every statement keeps, in the states
    where the run executes it, holds after the run. -/
theorem shared_invariant {I : σ → Prop} {P : ∀ {β}, F β → Prop} {G : ∀ {β}, F β → σ → Prop}
    (keeps : ∀ {β} (c : F β) s b s', P c → G c s → I s → M.exec c s = .ok (b, s') → I s')
    {schedule : List Turn} {pool : Pool F ε σ α} (uses : ∀ p ∈ pool.threads, p.Uses P)
    (start : I pool.shared) (along : Along (step M) (Executes G) schedule pool) :
    I (pool.run M schedule).shared := by
  have both : (∀ p ∈ (pool.run M schedule).threads, p.Uses P) ∧ I (pool.run M schedule).shared :=
    run_invariant (I := fun pool => (∀ p ∈ pool.threads, p.Uses P) ∧ I pool.shared)
      (fun _ turn held guarded => ⟨uses_step held.1 turn, step_shared keeps held.1 held.2 guarded⟩)
      ⟨uses, start⟩ along
  exact both.2

end Pool
end Microserver.Interleaving
