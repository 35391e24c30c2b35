import Microserver.Credentials

/-!
changePassword among other requests on users. It checks the current password in
one statement and overwrites the hash of the username in another, so what it
overwrites is what it checked as long as no request in between removes the user
or stores a password that the check would refuse.
-/
namespace Microserver.PasswordChanges
open Microserver.Programs Microserver.Interleaving Microserver.Users Microserver.Credentials

/-- The user is there, with the password. -/
def Verifies (B : Bcrypt) (t : UserTable) (username password : String) : Prop :=
  ∃ u, lookup t username = some u ∧ checkPassword B u password = true

/-- The username and the current password of a changePassword that has checked
    them and not yet executed its UPDATE. -/
def pending (requests : List Request) (p : Pool UserStmt UserErr UserTable Unit) (i : Nat) : Option (String × String) :=
  match requests[i]?, p.threads[i]? with
  | some (.changePassword username currentPassword _), some (.stmt (.setPasswordHash _ _) _) => some (username, currentPassword)
  | _, _ => none

/-- The statement leaves the user there, with the password. -/
def Spares (B : Bcrypt) (username password : String) : {β : Type} → UserStmt β → Prop
  | _, .deleteUser name => name ≠ username
  | _, .setPasswordHash hash name => name = username → B.compareHashAndPassword hash password = true
  | _, _ => True

/-- The statement of the turn spares every password that another request has
    checked and is about to overwrite. -/
def Undisturbed (B : Bcrypt) (requests : List Request) (p : Pool UserStmt UserErr UserTable Unit) (turn : Turn) : Prop :=
  turn.2 = false → match p.threads[turn.1]? with
    | some (.stmt c _) => ∀ i < requests.length, i ≠ turn.1 →
        ∀ change ∈ pending requests p i, Spares B change.1 change.2 c
    | _ => True

instance (B : Bcrypt) (username password : String) : {β : Type} → (c : UserStmt β) → Decidable (Spares B username password c)
  | _, .deleteUser name => inferInstanceAs (Decidable (name ≠ username))
  | _, .setPasswordHash hash name => inferInstanceAs (Decidable (name = username → B.compareHashAndPassword hash password = true))
  | _, .getUser _ | _, .countAdmins | _, .countUsers | _, .insertUser _ => .isTrue trivial

instance (B : Bcrypt) (requests : List Request) (p : Pool UserStmt UserErr UserTable Unit) :
    (turn : Turn) → Decidable (Undisturbed B requests p turn)
  | (i, true) => .isTrue nofun
  | (i, false) => by
    unfold Undisturbed
    cases p.threads[i]? with
    | none => exact inferInstance
    | some program => cases program <;> exact inferInstance

/-- Every password that was checked and not yet overwritten is still there. -/
def PendingVerified (B : Bcrypt) (requests : List Request) (p : Pool UserStmt UserErr UserTable Unit) : Prop :=
  ∀ i change, pending requests p i = some change → Verifies B p.shared change.1 change.2

/-- At some turn of its own a changePassword executed its UPDATE, and the hash
    that it overwrote verified the current password. -/
def Overwrote (B : Bcrypt) (requests : List Request) (p : Pool UserStmt UserErr UserTable Unit) (schedule : List Turn)
    (i : Nat) (username currentPassword : String) : Prop :=
  ∃ n, schedule[n]? = some (i, false) ∧
    pending requests (p.run userMachine (schedule.take n)) i = some (username, currentPassword) ∧
    Verifies B (p.run userMachine (schedule.take n)).shared username currentPassword

/-! ### One statement -/

section Statements
variable {B : Bcrypt} {t t' : UserTable} {username password : String}

/-- A statement keeps a password exactly when it spares it. -/
theorem verifies_exec_iff {β : Type} {c : UserStmt β} {b : β} (verified : Verifies B t username password)
    (ran : c.exec t = .ok (b, t')) : Verifies B t' username password ↔ Spares B username password c := by
  obtain ⟨u, found, right⟩ := verified
  have still : Verifies B t username password := ⟨u, found, right⟩
  cases c with
  | getUser _ | countAdmins | countUsers =>
    cases ran
    exact iff_of_true still trivial
  | insertUser v =>
    simp only [UserStmt.exec] at ran
    cases inserted : t.insert v with
    | error e => simp [inserted, Except.map] at ran
    | ok t₁ =>
      have same : t₁ = t' := by simpa [inserted, Except.map] using ran
      subst same
      obtain ⟨free, after⟩ := lookup_insert inserted username
      have other : username ≠ v.username := by
        rintro rfl
        rw [free] at found
        cases found
      refine iff_of_true ⟨u, ?_, right⟩ trivial
      rw [after, if_neg other]
      exact found
  | deleteUser name =>
    cases ran
    unfold Verifies Spares
    rw [lookup_delete]
    by_cases same : username = name
    · simp [same]
    · rw [if_neg same]
      exact iff_of_true still (Ne.symm same)
  | setPasswordHash hash name =>
    cases ran
    unfold Verifies Spares
    rw [lookup_setHash]
    by_cases same : username = name
    · subst same
      rw [if_pos rfl, found]
      simp [checkPassword]
    · rw [if_neg same]
      exact iff_of_true still fun equal => absurd equal.symm same

/-- The statements that are refused spare every password. -/
theorem spares_of_refused {β : Type} {c : UserStmt β} {e : UserErr} (refused : c.exec t = .error e) :
    Spares B username password c := by
  cases c with
  | getUser _ | countAdmins | countUsers | deleteUser _ | setPasswordHash _ _ => cases refused
  | insertUser v => trivial

end Statements

/-! ### One changePassword -/

/-- Where a changePassword can be. -/
inductive Stage (B : Bcrypt) (username currentPassword newPassword : String) : UserOp Unit → Prop
  | unread : Stage B username currentPassword newPassword (changePassword B username currentPassword newPassword)
  | checked (hash : String) : Stage B username currentPassword newPassword
      (.call (.wrapped "updating password") (.setPasswordHash hash username))
  | finished (p : UserOp Unit) (done : p.finished = true) : Stage B username currentPassword newPassword p

section Stages
variable {B : Bcrypt} {username currentPassword newPassword : String}

/-- The first statement reads the user, and it goes on only when the password is right. -/
theorem step_unread (B : Bcrypt) (username currentPassword newPassword : String) (faulty : Bool) (t : UserTable) :
    let next := userMachine.step faulty (changePassword B username currentPassword newPassword) t
    next.2 = t ∧ ((∃ e, next.1 = .fail e) ∨
      ∃ hash, next.1 = .call (.wrapped "updating password") (.setPasswordHash hash username) ∧
        Verifies B t username currentPassword) := by
  cases faulty with
  | true => exact ⟨rfl, .inl ⟨_, rfl⟩⟩
  | false =>
    cases found : lookup t username with
    | none =>
      have read : userMachine.exec (.getUser username) t = .ok (none, t) := by rw [← found]; rfl
      have next : userMachine.step false (changePassword B username currentPassword newPassword) t = (.fail .userNotFound, t) := by
        show userMachine.step false (.stmt (.getUser username) _) t = _
        simp only [Machine.step, read]
        rfl
      rw [next]
      exact ⟨rfl, .inl ⟨_, rfl⟩⟩
    | some u =>
      have read : userMachine.exec (.getUser username) t = .ok (some u, t) := by rw [← found]; rfl
      have next : userMachine.step false (changePassword B username currentPassword newPassword) t =
          (if !checkPassword B u currentPassword then .fail .wrongPassword else setPasswordHash B username newPassword, t) := by
        show userMachine.step false (.stmt (.getUser username) _) t = _
        simp only [Machine.step, read]
        rfl
      rw [next]
      refine ⟨rfl, ?_⟩
      by_cases wrong : (!checkPassword B u currentPassword) = true
      · rw [if_pos wrong]
        exact .inl ⟨_, rfl⟩
      · have right : checkPassword B u currentPassword = true := by simpa using wrong
        simp only [if_neg wrong, setPasswordHash]
        by_cases short : newPassword.utf8ByteSize < minPasswordLength
        · rw [if_pos short]
          exact .inl ⟨_, rfl⟩
        · rw [if_neg short]
          unfold hashPassword
          cases B.generateFromPassword newPassword with
          | error msg => exact .inl ⟨_, rfl⟩
          | ok hash => exact .inr ⟨hash, rfl, u, found, right⟩

/-- The second statement ends it. -/
theorem step_checked (username : String) (faulty : Bool) (hash : String) (t : UserTable) :
    (userMachine.step faulty (.call (.wrapped "updating password") (.setPasswordHash hash username) : UserOp Unit) t).1.finished =
      true := by
  cases faulty <;> rfl

theorem step_finished {p : UserOp Unit} (done : p.finished = true) (faulty : Bool) (t : UserTable) :
    userMachine.step faulty p t = (p, t) := by
  cases p with
  | ret a => rfl
  | fail e => rfl
  | stmt c next => cases done

theorem Stage.step {p : UserOp Unit} (stage : Stage B username currentPassword newPassword p) (faulty : Bool)
    (t : UserTable) : Stage B username currentPassword newPassword (userMachine.step faulty p t).1 := by
  cases stage with
  | unread =>
    obtain ⟨-, ⟨e, failed⟩ | ⟨hash, goes_on, -⟩⟩ := step_unread B username currentPassword newPassword faulty t
    · rw [failed]
      exact .finished _ rfl
    · rw [goes_on]
      exact .checked hash
  | checked hash => exact .finished _ (step_checked username faulty hash t)
  | finished p done =>
    rw [step_finished done]
    exact .finished p done

end Stages

/-! ### The pool -/

/-- Every changePassword is in one of its stages. -/
def Staged (B : Bcrypt) (requests : List Request) (p : Pool UserStmt UserErr UserTable Unit) : Prop :=
  ∀ (i : Nat) username currentPassword newPassword, requests[i]? = some (Request.changePassword username currentPassword newPassword) →
    ∃ q, p.threads[i]? = some q ∧ Stage B username currentPassword newPassword q

section Pools
variable {B : Bcrypt} {requests : List Request} {p : Pool UserStmt UserErr UserTable Unit}

theorem staged_pool (B : Bcrypt) (t : UserTable) (requests : List Request) : Staged B requests (pool B t requests) := by
  intro i username currentPassword newPassword asked
  exact ⟨_, by simp [pool, asked, Request.program], .unread⟩

theorem Staged.step (staged : Staged B requests p) (turn : Turn) : Staged B requests (p.step userMachine turn) := by
  obtain ⟨j, faulty⟩ := turn
  intro i username currentPassword newPassword asked
  obtain ⟨q, thread, stage⟩ := staged i username currentPassword newPassword asked
  by_cases same : i = j
  · subst same
    exact ⟨_, (Pool.step_self thread faulty).1, stage.step faulty p.shared⟩
  · exact ⟨q, (Pool.step_other same faulty).trans thread, stage⟩

theorem pending_some {i : Nat} {change : String × String} (stands : pending requests p i = some change) :
    ∃ newPassword hash name next, requests[i]? = some (Request.changePassword change.1 change.2 newPassword) ∧
      p.threads[i]? = some (.stmt (.setPasswordHash hash name) next) := by
  unfold pending at stands
  split at stands
  · rename_i username currentPassword newPassword hash name next asked thread
    cases stands
    exact ⟨newPassword, hash, name, next, asked, thread⟩
  · cases stands

theorem pending_step_other {i j : Nat} (different : i ≠ j) (faulty : Bool) :
    pending requests (p.step userMachine (j, faulty)) i = pending requests p i := by
  unfold pending
  rw [Pool.step_other different]

/-- A changePassword stands before its UPDATE only right after the check, which
    changes nothing. -/
theorem pending_step_self (staged : Staged B requests p) {i : Nat} {faulty : Bool} {change : String × String}
    (stands : pending requests (p.step userMachine (i, faulty)) i = some change) :
    (p.step userMachine (i, faulty)).shared = p.shared ∧ Verifies B p.shared change.1 change.2 := by
  obtain ⟨newPassword, hash, name, next, asked, thread'⟩ := pending_some stands
  obtain ⟨q, thread, stage⟩ := staged i _ _ _ asked
  obtain ⟨moved, shared⟩ := Pool.step_self thread faulty
  rw [moved, Option.some.injEq] at thread'
  rw [shared]
  cases stage with
  | unread =>
    obtain ⟨unchanged, ⟨e, failed⟩ | ⟨hash, -, verified⟩⟩ :=
      step_unread B change.1 change.2 newPassword faulty p.shared
    · rw [failed] at thread'
      cases thread'
    · exact ⟨unchanged, verified⟩
  | checked hash =>
    have done := step_checked change.1 faulty hash p.shared
    rw [thread'] at done
    cases done
  | finished q done =>
    have same : q = .stmt (.setPasswordHash hash name) next := by
      rw [step_finished done] at thread'
      exact thread'
    rw [same] at done
    cases done

/-- One turn keeps every checked password exactly when its statement spares them. -/
theorem pendingVerified_step_iff (staged : Staged B requests p) (verified : PendingVerified B requests p) (turn : Turn) :
    PendingVerified B requests (p.step userMachine turn) ↔ Undisturbed B requests p turn := by
  obtain ⟨j, faulty⟩ := turn
  constructor
  · rintro still rfl
    cases thread : p.threads[j]? with
    | none => trivial
    | some q =>
      cases q with
      | ret a => trivial
      | fail e => trivial
      | stmt c next =>
        intro i _ different change stands
        have before := verified i change stands
        have after := still i change ((pending_step_other different false).trans stands)
        rw [(Pool.step_self thread false).2] at after
        cases ran : userMachine.exec c p.shared with
        | error e => exact spares_of_refused ran
        | ok outcome =>
          simp only [Machine.step, ran] at after
          exact (verifies_exec_iff before ran).mp after
  · intro undisturbed i change stands
    by_cases same : i = j
    · subst same
      obtain ⟨unchanged, right⟩ := pending_step_self staged stands
      rw [unchanged]
      exact right
    · rw [pending_step_other same] at stands
      have before := verified i change stands
      cases thread : p.threads[j]? with
      | none => simpa [Pool.step, thread] using before
      | some q =>
        rw [(Pool.step_self thread faulty).2]
        cases q with
        | ret a => exact before
        | fail e => exact before
        | stmt c next =>
          cases faulty with
          | true => exact before
          | false =>
            cases ran : userMachine.exec c p.shared with
            | error e => simpa [Machine.step, ran] using before
            | ok outcome =>
              have listed : i < requests.length := by
                obtain ⟨_, _, _, _, asked, -⟩ := pending_some stands
                exact (List.getElem?_eq_some_iff.mp asked).1
              have spared : Spares B change.1 change.2 c := by
                have all := undisturbed rfl
                rw [thread] at all
                exact all i listed same change stands
              simpa [Machine.step, ran] using (verifies_exec_iff before ran).mpr spared

/-- The checked passwords are there in every state of a run exactly when every
    statement of the run spares them. -/
theorem pendingVerified_iff (B : Bcrypt) (t : UserTable) (requests : List Request) (schedule : List Turn) :
    Along (Pool.step userMachine) (Undisturbed B requests) schedule (pool B t requests) ↔
      ∀ n, Staged B requests ((pool B t requests).run userMachine (schedule.take n)) ∧
        PendingVerified B requests ((pool B t requests).run userMachine (schedule.take n)) := by
  refine along_iff (I := fun p => Staged B requests p ∧ PendingVerified B requests p) ?_ ⟨staged_pool B t requests, ?_⟩
  · rintro p turn ⟨staged, verified⟩
    rw [← pendingVerified_step_iff staged verified]
    exact and_iff_right (staged.step turn)
  · intro i change stands
    obtain ⟨_, _, _, _, asked, -⟩ := pending_some stands
    have unread : pending requests (pool B t requests) i = none := by
      unfold pending pool
      rw [List.getElem?_map, asked]
      rfl
    rw [unread] at stands
    cases stands

/-- A changePassword that has returned nil executed its UPDATE at one of its turns. -/
theorem executed_of_returned (schedule : List Turn) (staged : Staged B requests p) {i : Nat}
    {username currentPassword newPassword : String}
    (asked : requests[i]? = some (Request.changePassword username currentPassword newPassword))
    (returned : (p.run userMachine schedule).threads[i]? = some (.ret ())) :
    p.threads[i]? = some (.ret ()) ∨ ∃ n, schedule[n]? = some (i, false) ∧
      pending requests (p.run userMachine (schedule.take n)) i = some (username, currentPassword) := by
  induction schedule generalizing p with
  | nil => exact .inl returned
  | cons turn rest ih =>
    rcases ih (staged.step turn) returned with now | ⟨n, scheduled, stands⟩
    · obtain ⟨j, faulty⟩ := turn
      by_cases same : i = j
      · subst same
        obtain ⟨q, thread, stage⟩ := staged i _ _ _ asked
        rw [(Pool.step_self thread faulty).1, Option.some.injEq] at now
        cases stage with
        | unread =>
          obtain ⟨-, ⟨e, failed⟩ | ⟨hash, goes_on, -⟩⟩ :=
            step_unread B username currentPassword newPassword faulty p.shared
          · rw [failed] at now
            cases now
          · rw [goes_on] at now
            cases now
        | checked hash =>
          cases faulty with
          | true => cases now
          | false =>
            refine .inr ⟨0, rfl, ?_⟩
            show pending requests p i = _
            unfold pending
            rw [asked, thread]
            rfl
        | finished q done =>
          rw [step_finished done] at now
          exact .inl (thread.trans (congrArg some now))
      · rw [Pool.step_other same] at now
        exact .inl now
    · exact .inr ⟨n + 1, scheduled, stands⟩

end Pools

/-- In every interleaving of requests whose statements spare the passwords that
    other requests have checked, a changePassword that returns nil overwrote a
    hash that verified the current password. -/
theorem changePassword_overwrites_verified (B : Bcrypt) (t : UserTable) (requests : List Request) (schedule : List Turn)
    (undisturbed : Along (Pool.step userMachine) (Undisturbed B requests) schedule (pool B t requests))
    (i : Nat) (username currentPassword newPassword : String)
    (asked : requests[i]? = some (Request.changePassword username currentPassword newPassword))
    (returned : ((pool B t requests).run userMachine schedule).threads[i]? = some (.ret ())) :
    Overwrote B requests (pool B t requests) schedule i username currentPassword := by
  have verified := (pendingVerified_iff B t requests schedule).mp undisturbed
  rcases executed_of_returned schedule (staged_pool B t requests) asked returned with already | ⟨n, scheduled, stands⟩
  · -- no request has returned before its first turn
    simp only [pool, List.getElem?_map, asked, Option.map_some, Option.some.injEq] at already
    cases already
  · exact ⟨n, scheduled, stands, (verified n).2 i _ stands⟩

/-- A user who changes the password while an admin resets it. -/
def changeAndReset : List Request :=
  [.changePassword "root" "rootpass" "password", .resetPassword "root" "lockedout"]

/-- The reset comes after the change. -/
theorem changePassword_overwrites_verified_sequential :
    Along (Pool.step userMachine) (Undisturbed plainBcrypt changeAndReset) [(0, false), (0, false), (1, false), (1, false)]
        (pool plainBcrypt bootstrapped changeAndReset) ∧
      Overwrote plainBcrypt changeAndReset (pool plainBcrypt bootstrapped changeAndReset)
        [(0, false), (0, false), (1, false), (1, false)] 0 "root" "rootpass" :=
  ⟨by decide, changePassword_overwrites_verified plainBcrypt bootstrapped changeAndReset _ (by decide) 0
    "root" "rootpass" "password" rfl rfl⟩

/-- The reset comes between the check and the UPDATE, which undoes it. -/
theorem interleaved_reset_is_overwritten :
    ¬ ∀ (B : Bcrypt) (t : UserTable) (requests : List Request) (schedule : List Turn) (i : Nat)
      (username currentPassword newPassword : String),
      requests[i]? = some (Request.changePassword username currentPassword newPassword) →
      ((pool B t requests).run userMachine schedule).threads[i]? = some (.ret ()) →
        Overwrote B requests (pool B t requests) schedule i username currentPassword := by
  intro all
  obtain ⟨n, scheduled, stands, verified⟩ := all plainBcrypt bootstrapped changeAndReset
    [(0, false), (1, false), (1, false), (0, false)] 0 "root" "rootpass" "password" rfl rfl
  rcases n with - | - | - | - | n
  · cases stands
  · cases scheduled
  · cases scheduled
  · obtain ⟨u, found, right⟩ := verified
    cases found
    revert right
    decide
  · cases scheduled

end Microserver.PasswordChanges
