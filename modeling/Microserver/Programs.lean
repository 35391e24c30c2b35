import Mathlib.Tactic.Common

/-!
Programs as sequences of statements over a shared state. A statement may be
refused by the state, and it may fail for a reason outside the model; either way
it leaves the state as it was. The same program is read in three ways: run
alone with a given pattern of failures (`Machine.run`), judged for all patterns
at once (`Machine.wp`), and taken one statement at a time (`Machine.step`), which
is what an interleaving of several programs does.
-/
namespace Microserver.Programs
universe u v w

/-- A program over the statements `F`: it returns, gives up with an error, or
    issues a statement and continues on what the statement reports. -/
inductive Prog (F : Type → Type u) (ε α : Type) : Type (max 1 u)
  | ret (value : α)
  | fail (error : ε)
  | stmt {β : Type} (command : F β) (next : Except ε β → Prog F ε α)

namespace Prog
variable {F : Type → Type u} {ε α β γ : Type}

/-- Sequencing; an error skips the rest. -/
def bind : Prog F ε α → (α → Prog F ε β) → Prog F ε β
  | .ret a, f => f a
  | .fail e, _ => .fail e
  | .stmt c next, f => .stmt c (fun r => bind (next r) f)

instance : Monad (Prog F ε) where
  pure := ret
  bind := bind

/-- One statement; `context` says how its failure is reported. -/
def call (context : ε → ε) (c : F β) : Prog F ε β :=
  .stmt c (fun | .ok b => .ret b | .error e => .fail (context e))

/-- The program with its error reported in a context. -/
def within (context : ε → ε) : Prog F ε α → Prog F ε α
  | .ret a => .ret a
  | .fail e => .fail (context e)
  | .stmt c next => .stmt c (fun r => within context (next r))

/-- The program with its error handed to the caller as a value. -/
def attempt : Prog F ε α → Prog F ε (Except ε α)
  | .ret a => .ret (.ok a)
  | .fail e => .ret (.error e)
  | .stmt c next => .stmt c (fun r => attempt (next r))

/-- The program has returned or given up. -/
def finished : Prog F ε α → Bool
  | .ret _ => true
  | .fail _ => true
  | .stmt _ _ => false

/-- Every statement the program can issue satisfies `P`. -/
def Uses (P : ∀ {β}, F β → Prop) : Prog F ε α → Prop
  | .ret _ => True
  | .fail _ => True
  | .stmt c next => P c ∧ ∀ r, Uses P (next r)

@[simp] theorem pure_eq (a : α) : (pure a : Prog F ε α) = .ret a := rfl
@[simp] theorem bind_eq (p : Prog F ε α) (f : α → Prog F ε β) : (p >>= f) = p.bind f := rfl
@[simp] theorem bind_ret (a : α) (f : α → Prog F ε β) : (Prog.ret a).bind f = f a := rfl
@[simp] theorem bind_fail (e : ε) (f : α → Prog F ε β) : (Prog.fail e : Prog F ε α).bind f = .fail e := rfl

theorem bind_assoc (p : Prog F ε α) (f : α → Prog F ε β) (g : β → Prog F ε γ) :
    (p.bind f).bind g = p.bind fun a => (f a).bind g := by
  induction p with
  | ret a => rfl
  | fail e => rfl
  | stmt c next ih =>
    simp only [Prog.bind, stmt.injEq, heq_eq_eq, true_and]
    exact funext ih

theorem uses_true (p : Prog F ε α) : p.Uses (fun _ => True) := by
  induction p with
  | ret a => trivial
  | fail e => trivial
  | stmt c next ih => exact ⟨trivial, ih⟩

theorem uses_bind {P : ∀ {β}, F β → Prop} {p : Prog F ε α} {f : α → Prog F ε β}
    (start : p.Uses P) (follow : ∀ a, (f a).Uses P) : (p.bind f).Uses P := by
  induction p with
  | ret a => exact follow a
  | fail e => trivial
  | stmt c next ih => exact ⟨start.1, fun r => ih r (start.2 r)⟩

theorem uses_call {P : ∀ {β}, F β → Prop} {context : ε → ε} {c : F β} (allowed : P c) :
    (call context c : Prog F ε β).Uses P := by
  refine ⟨allowed, fun r => ?_⟩
  cases r <;> trivial

theorem uses_within {P : ∀ {β}, F β → Prop} {context : ε → ε} {p : Prog F ε α} (inner : p.Uses P) :
    (p.within context).Uses P := by
  induction p with
  | ret a => trivial
  | fail e => trivial
  | stmt c next ih => exact ⟨inner.1, fun r => ih r (inner.2 r)⟩

theorem uses_attempt {P : ∀ {β}, F β → Prop} {p : Prog F ε α} (inner : p.Uses P) :
    p.attempt.Uses P := by
  induction p with
  | ret a => trivial
  | fail e => trivial
  | stmt c next ih => exact ⟨inner.1, fun r => ih r (inner.2 r)⟩

end Prog

/-- What the statements do to a state: the reported value and the next state, or
    an error and no change. `fault` is the error of a failure from outside. -/
structure Machine (F : Type → Type u) (ε σ : Type) where
  exec : ∀ {β : Type}, F β → σ → Except ε (β × σ)
  fault : ε

namespace Machine
variable {F : Type → Type u} {ε σ α β : Type} (M : Machine F ε σ)

/-- One statement of a program; `faulty` makes it fail from outside. -/
def step (faulty : Bool) : Prog F ε α → σ → Prog F ε α × σ
  | .ret a, s => (.ret a, s)
  | .fail e, s => (.fail e, s)
  | .stmt c next, s =>
    match faulty, M.exec c s with
    | true, _ => (next (.error M.fault), s)
    | false, .ok (b, s') => (next (.ok b), s')
    | false, .error e => (next (.error e), s)

/-- The program run alone. The n-th statement fails from outside when the n-th
    entry of `faults` says so; past the end none does. -/
def run : Prog F ε α → List Bool → σ → Except ε α × σ
  | .ret a, _, s => (.ok a, s)
  | .fail e, _, s => (.error e, s)
  | .stmt c next, faults, s =>
    match faults.headD false, M.exec c s with
    | true, _ => run (next (.error M.fault)) faults.tail s
    | false, .ok (b, s') => run (next (.ok b)) faults.tail s'
    | false, .error e => run (next (.error e)) faults.tail s

theorem run_faulty {c : F β} {next : Except ε β → Prog F ε α} {faults : List Bool} {s : σ} (faulty : faults.headD false = true) :
    M.run (.stmt c next) faults s = M.run (next (.error M.fault)) faults.tail s := by
  simp only [run, faulty]

theorem run_ok {c : F β} {next : Except ε β → Prog F ε α} {faults : List Bool} {s s' : σ} {b : β}
    (faultless : faults.headD false = false) (ran : M.exec c s = .ok (b, s')) :
    M.run (.stmt c next) faults s = M.run (next (.ok b)) faults.tail s' := by
  simp only [run, faultless, ran]

theorem run_error {c : F β} {next : Except ε β → Prog F ε α} {faults : List Bool} {s : σ} {e : ε}
    (faultless : faults.headD false = false) (refused : M.exec c s = .error e) :
    M.run (.stmt c next) faults s = M.run (next (.error e)) faults.tail s := by
  simp only [run, faultless, refused]

/-- The program run alone with no failure from outside. -/
def eval (p : Prog F ε α) (s : σ) : Except ε α × σ := M.run p [] s

theorem eval_ok {c : F β} {next : Except ε β → Prog F ε α} {s s' : σ} {b : β} (ran : M.exec c s = .ok (b, s')) :
    M.eval (.stmt c next) s = M.eval (next (.ok b)) s' := M.run_ok rfl ran

theorem eval_error {c : F β} {next : Except ε β → Prog F ε α} {s : σ} {e : ε} (refused : M.exec c s = .error e) :
    M.eval (.stmt c next) s = M.eval (next (.error e)) s := M.run_error rfl refused

@[simp] theorem eval_ret (a : α) (s : σ) : M.eval (.ret a : Prog F ε α) s = (.ok a, s) := rfl
@[simp] theorem eval_fail (e : ε) (s : σ) : M.eval (.fail e : Prog F ε α) s = (.error e, s) := rfl

theorem eval_stmt (c : F β) (next : Except ε β → Prog F ε α) (s : σ) :
    M.eval (.stmt c next) s = match M.exec c s with
      | .ok (b, s') => M.eval (next (.ok b)) s'
      | .error e => M.eval (next (.error e)) s := by
  cases ran : M.exec c s with
  | ok outcome => exact M.eval_ok ran
  | error e => exact M.eval_error ran

theorem eval_bind (p : Prog F ε α) (f : α → Prog F ε β) (s : σ) :
    M.eval (p.bind f) s = match M.eval p s with
      | (.ok a, s') => M.eval (f a) s'
      | (.error e, s') => (.error e, s') := by
  induction p generalizing s with
  | ret a => rfl
  | fail e => rfl
  | stmt c next ih =>
    rw [Prog.bind, eval_stmt, eval_stmt]
    cases M.exec c s with
    | ok outcome => exact ih _ _
    | error e => exact ih _ _

theorem eval_within (context : ε → ε) (p : Prog F ε α) (s : σ) :
    M.eval (p.within context) s = ((M.eval p s).1.mapError context, (M.eval p s).2) := by
  induction p generalizing s with
  | ret a => rfl
  | fail e => rfl
  | stmt c next ih =>
    rw [Prog.within, eval_stmt, eval_stmt]
    cases M.exec c s with
    | ok outcome => exact ih _ _
    | error e => exact ih _ _

theorem eval_attempt (p : Prog F ε α) (s : σ) : M.eval p.attempt s = (.ok (M.eval p s).1, (M.eval p s).2) := by
  induction p generalizing s with
  | ret a => rfl
  | fail e => rfl
  | stmt c next ih =>
    rw [Prog.attempt, eval_stmt, eval_stmt]
    cases M.exec c s with
    | ok outcome => exact ih _ _
    | error e => exact ih _ _

theorem eval_within_ok_iff {context : ε → ε} {p : Prog F ε α} {s s' : σ} {a : α} :
    M.eval (p.within context) s = (.ok a, s') ↔ M.eval p s = (.ok a, s') := by
  rw [eval_within]
  rcases M.eval p s with ⟨_ | b, s₁⟩ <;> simp [Except.mapError]

theorem eval_call_ok_iff {context : ε → ε} {c : F β} {s s' : σ} {b : β} :
    M.eval (.call context c) s = (.ok b, s') ↔ M.exec c s = .ok (b, s') := by
  unfold Prog.call
  rw [eval_stmt]
  rcases M.exec c s with e | ⟨a, s₁⟩ <;> simp

/-- A sequence returns what its second part returns in the state that the first part leaves. -/
theorem eval_bind_ok_iff {p : Prog F ε α} {f : α → Prog F ε β} {s s' : σ} {b : β} :
    M.eval (p.bind f) s = (.ok b, s') ↔ ∃ a s₁, M.eval p s = (.ok a, s₁) ∧ M.eval (f a) s₁ = (.ok b, s') := by
  rw [eval_bind]
  rcases M.eval p s with ⟨_ | a, s₁⟩ <;> simp

/-- `Q` holds of the outcome whichever statements fail from outside. -/
def wp (Q : Except ε α → σ → Prop) : Prog F ε α → σ → Prop
  | .ret a, s => Q (.ok a) s
  | .fail e, s => Q (.error e) s
  | .stmt c next, s =>
    (∀ b s', M.exec c s = .ok (b, s') → wp Q (next (.ok b)) s') ∧
    (∀ e, M.exec c s = .error e → wp Q (next (.error e)) s) ∧
    wp Q (next (.error M.fault)) s

/-- The postcondition a first part must meet when `f` follows on its value. -/
def Then (Q : Except ε β → σ → Prop) (f : α → Prog F ε β) : Except ε α → σ → Prop
  | .ok a, s => M.wp Q (f a) s
  | .error e, s => Q (.error e) s

theorem wp_mono {Q R : Except ε α → σ → Prop} (weaker : ∀ r s, Q r s → R r s) {p : Prog F ε α} {s : σ}
    (holds : M.wp Q p s) : M.wp R p s := by
  induction p generalizing s with
  | ret a => exact weaker _ _ holds
  | fail e => exact weaker _ _ holds
  | stmt c next ih =>
    exact ⟨fun b s' ran => ih _ (holds.1 b s' ran), fun e refused => ih _ (holds.2.1 e refused), ih _ holds.2.2⟩

theorem wp_bind {Q : Except ε β → σ → Prop} {p : Prog F ε α} {f : α → Prog F ε β} {s : σ} :
    M.wp Q (p.bind f) s ↔ M.wp (M.Then Q f) p s := by
  induction p generalizing s with
  | ret a => rfl
  | fail e => rfl
  | stmt c next ih => simp only [Prog.bind, wp, ih]

theorem wp_within {Q : Except ε α → σ → Prop} {context : ε → ε} {p : Prog F ε α} {s : σ} :
    M.wp Q (p.within context) s ↔ M.wp (fun r => Q (r.mapError context)) p s := by
  induction p generalizing s with
  | ret a => rfl
  | fail e => rfl
  | stmt c next ih => simp only [Prog.within, wp, ih]

theorem wp_attempt {Q : Except ε (Except ε α) → σ → Prop} {p : Prog F ε α} {s : σ} :
    M.wp Q p.attempt s ↔ M.wp (fun r => Q (.ok r)) p s := by
  induction p generalizing s with
  | ret a => rfl
  | fail e => rfl
  | stmt c next ih => simp only [Prog.attempt, wp, ih]

theorem wp_call {Q : Except ε β → σ → Prop} {context : ε → ε} {c : F β} {s : σ} :
    M.wp Q (Prog.call context c) s ↔
      (∀ b s', M.exec c s = .ok (b, s') → Q (.ok b) s') ∧
      (∀ e, M.exec c s = .error e → Q (.error (context e)) s) ∧ Q (.error (context M.fault)) s := Iff.rfl

/-- `wp` is exactly a statement about every run. -/
theorem wp_iff_run {Q : Except ε α → σ → Prop} {p : Prog F ε α} {s : σ} :
    M.wp Q p s ↔ ∀ faults, Q (M.run p faults s).1 (M.run p faults s).2 := by
  induction p generalizing s with
  | ret a => simp [wp, run]
  | fail e => simp [wp, run]
  | stmt c next ih =>
    constructor
    · rintro ⟨onOk, onError, onFault⟩ faults
      cases faulty : faults.headD false with
      | true => simpa only [run, faulty] using (ih _).mp onFault faults.tail
      | false =>
        cases ran : M.exec c s with
        | ok outcome => simpa only [run, faulty, ran] using (ih _).mp (onOk outcome.1 outcome.2 ran) faults.tail
        | error e => simpa only [run, faulty, ran] using (ih _).mp (onError e ran) faults.tail
    · intro every
      refine ⟨fun b s' ran => (ih _).mpr fun faults => ?_, fun e refused => (ih _).mpr fun faults => ?_,
        (ih _).mpr fun faults => ?_⟩
      · simpa [run, ran] using every (false :: faults)
      · simpa [run, refused] using every (false :: faults)
      · simpa [run] using every (true :: faults)

theorem wp_and {Q R : Except ε α → σ → Prop} {p : Prog F ε α} {s : σ} (left : M.wp Q p s) (right : M.wp R p s) :
    M.wp (fun r s' => Q r s' ∧ R r s') p s := by
  rw [wp_iff_run] at left right ⊢
  exact fun faults => ⟨left faults, right faults⟩

theorem uses_step {P : ∀ {β}, F β → Prop} {p : Prog F ε α} (faulty : Bool) (s : σ) (uses : p.Uses P) :
    (M.step faulty p s).1.Uses P := by
  cases p with
  | ret a => trivial
  | fail e => trivial
  | stmt c next =>
    cases faulty with
    | true => exact uses.2 _
    | false => cases ran : M.exec c s <;> simpa only [step, ran] using uses.2 _

/-- What every statement of a program keeps, the program keeps. -/
theorem wp_of_uses {P : ∀ {β}, F β → Prop} {I : σ → Prop}
    (keeps : ∀ {β} (c : F β) s b s', P c → I s → M.exec c s = .ok (b, s') → I s') {p : Prog F ε α} {s : σ}
    (uses : p.Uses P) (start : I s) : M.wp (fun _ s' => I s') p s := by
  induction p generalizing s with
  | ret a => exact start
  | fail e => exact start
  | stmt c next ih =>
    exact ⟨fun b s' ran => ih _ (uses.2 _) (keeps c s b s' uses.1 start ran), fun e _ => ih _ (uses.2 _) start,
      ih _ (uses.2 _) start⟩

/-- Two outcomes of a statement: the same report, and states that are related. -/
def Alike (R : σ → σ → Prop) : Except ε (β × σ) → Except ε (β × σ) → Prop
  | .ok (b, s), .ok (b', s') => b = b' ∧ R s s'
  | .error e, .error e' => e = e'
  | _, _ => False

/-- Related states that no statement of a program tells apart are not told apart by
    the program. -/
theorem run_alike {P : ∀ {β}, F β → Prop} {R : σ → σ → Prop}
    (alike : ∀ {β} (c : F β) s s', P c → R s s' → Alike R (M.exec c s) (M.exec c s')) {p : Prog F ε α} (uses : p.Uses P)
    (faults : List Bool) {s s' : σ} (related : R s s') :
    (M.run p faults s).1 = (M.run p faults s').1 ∧ R (M.run p faults s).2 (M.run p faults s').2 := by
  induction p generalizing faults s s' with
  | ret a => exact ⟨rfl, related⟩
  | fail e => exact ⟨rfl, related⟩
  | stmt c next ih =>
    cases faulty : faults.headD false with
    | true =>
      rw [M.run_faulty faulty, M.run_faulty faulty]
      exact ih _ (uses.2 _) _ related
    | false =>
      have same := alike c s s' uses.1 related
      cases ran : M.exec c s with
      | ok outcome =>
        cases ran' : M.exec c s' with
        | ok outcome' =>
          rw [ran, ran'] at same
          rw [M.run_ok faulty ran, M.run_ok faulty ran', same.1]
          exact ih _ (uses.2 _) _ same.2
        | error e =>
          rw [ran, ran'] at same
          exact same.elim
      | error e =>
        cases ran' : M.exec c s' with
        | ok outcome' =>
          rw [ran, ran'] at same
          exact same.elim
        | error e' =>
          rw [ran, ran'] at same
          obtain rfl : e = e' := same
          rw [M.run_error faulty ran, M.run_error faulty ran']
          exact ih _ (uses.2 _) _ related

end Machine

/-! ### Runs -/

section Runs
variable {σ : Type v} {ι : Type w} {step : σ → ι → σ}

/-- Every step of a run meets `C` in the state it finds. -/
def Along (step : σ → ι → σ) (C : σ → ι → Prop) : List ι → σ → Prop
  | [], _ => True
  | i :: rest, s => C s i ∧ Along step C rest (step s i)

instance Along.decidable {C : σ → ι → Prop} [∀ s i, Decidable (C s i)] :
    (run : List ι) → (s : σ) → Decidable (Along step C run s)
  | [], _ => .isTrue trivial
  | i :: rest, s => @instDecidableAnd _ _ _ (decidable rest (step s i))

theorem along_take {C : σ → ι → Prop} {run : List ι} {s : σ} (along : Along step C run s) (n : Nat) :
    Along step C (run.take n) s := by
  induction run generalizing s n with
  | nil => simp [Along]
  | cons i rest ih =>
    cases n with
    | zero => trivial
    | succ n => exact ⟨along.1, ih along.2 n⟩

theorem along_and {C D : σ → ι → Prop} {run : List ι} {s : σ} (left : Along step C run s) (right : Along step D run s) :
    Along step (fun s i => C s i ∧ D s i) run s := by
  induction run generalizing s with
  | nil => trivial
  | cons i rest ih => exact ⟨⟨left.1, right.1⟩, ih left.2 right.2⟩

/-- What the steps of a run keep, the run keeps. -/
theorem run_invariant {I : σ → Prop} {C : σ → ι → Prop} (keeps : ∀ s i, I s → C s i → I (step s i)) {run : List ι}
    {s : σ} (start : I s) (along : Along step C run s) : I (run.foldl step s) := by
  induction run generalizing s with
  | nil => exact start
  | cons i rest ih => exact ih (keeps s i start along.1) along.2

/-- What every step keeps, every run keeps. -/
theorem run_always {I : σ → Prop} (keeps : ∀ s i, I s → I (step s i)) {s : σ} (start : I s) (run : List ι) :
    I (run.foldl step s) := by
  induction run generalizing s with
  | nil => exact start
  | cons i rest ih => exact ih (keeps s i start)

/-- Where the condition on a step says exactly when the step keeps `I`, a run
    meets the conditions exactly when `I` holds in every state it reaches. -/
theorem along_iff {I : σ → Prop} {C : σ → ι → Prop} (exactly : ∀ s i, I s → (I (step s i) ↔ C s i)) {run : List ι} {s : σ}
    (start : I s) : Along step C run s ↔ ∀ n, I ((run.take n).foldl step s) := by
  constructor
  · intro along n
    exact run_invariant (fun s i held met => (exactly s i held).mpr met) start (along_take along n)
  · intro every
    induction run generalizing s with
    | nil => trivial
    | cons i rest ih =>
      have next : I (step s i) := by simpa using every 1
      exact ⟨(exactly s i start).mp next, ih next fun n => by simpa using every (n + 1)⟩

end Runs
end Microserver.Programs
