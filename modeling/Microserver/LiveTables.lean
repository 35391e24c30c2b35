import Microserver.Interleaving
import Microserver.Reachable

/-!
The registry and its tables under concurrent requests. createCollection and
renameCollection are one transaction each; dropCollection reads the registry row
first and drops, in a transaction of its own, the tables of that row.
-/
namespace Microserver.LiveTables
open Microserver.Store Microserver.Programs Microserver.Interleaving Microserver.Statements Microserver.Operations
open Microserver.Schema Microserver.Items Microserver.Histories Microserver.Reachable

/-- The database that the calls lead to, and requests before any of them has made a step. -/
abbrev pool (h : Host) (calls : List (Call × List Bool)) (requests : List Call) : Pool Stmt Err DB Unit :=
  .start Call.program requests (reached h calls)

/-- The registry points at live tables. -/
structure Live (s : DB) : Prop where
  main : ∀ c ∈ s.collections, ∃ t, s.find c.tableName = some t ∧ t.kind = mainKind c
  fullText : ∀ c ∈ s.collections, c.hasVector = true → ∃ t, s.find (ftsTableName c.tableName) = some t ∧ t.kind = .fts5
  apart : ∀ c ∈ s.collections, ∀ d ∈ s.collections, fold c.tableName = fold d.tableName → c = d
  belongs : ∀ n t, s.tables n = some t → (t.kind = .plain ∨ ∃ dims, t.kind = .vec0 dims) →
    ∃ c ∈ s.collections, n = fold c.tableName

/-- Where a drop executes, its table is gone, so that the drop is refused, or
    the name still stands for the tables that it drops. -/
def DropsItsOwn {β : Type} : Stmt β → DB → Prop
  | .dropCollection coll name, s => s.find coll.tableName = none ∨ DropsOwn coll name s
  | _, _ => True

instance (coll : Collection) (s : DB) : Decidable (∀ u, s.find (ftsTableName coll.tableName) = some u →
    ∀ n ∈ tableNames u.kind (ftsTableName coll.tableName), ∀ d ∈ s.collections, n ∉ ownedTables d) := by
  cases s.find (ftsTableName coll.tableName) with
  | none => exact .isTrue (by simp)
  | some u =>
    exact decidable_of_iff (∀ n ∈ tableNames u.kind (ftsTableName coll.tableName), ∀ d ∈ s.collections, n ∉ ownedTables d)
      (by simp)

instance (coll : Collection) (name : String) (s : DB) : Decidable (DropsOwn coll name s) := by
  unfold DropsOwn
  cases s.lookup name with
  | none => exact .isFalse (by simp)
  | some c =>
    exact decidable_of_iff (fold c.tableName = fold coll.tableName ∧ (coll.hasVector = true → c.hasVector = true ∨
      ∀ u, s.find (ftsTableName coll.tableName) = some u →
        ∀ n ∈ tableNames u.kind (ftsTableName coll.tableName), ∀ d ∈ s.collections, n ∉ ownedTables d)) (by simp)

instance : {β : Type} → (c : Stmt β) → (s : DB) → Decidable (DropsItsOwn c s)
  | _, .dropCollection coll name, s =>
    have : Decidable (s.find coll.tableName = none) := decidable_of_iff _ Option.isNone_iff_eq_none
    inferInstanceAs (Decidable (s.find coll.tableName = none ∨ DropsOwn coll name s))
  | _, .read _, _ | _, .insertRow .., _ | _, .updateData .., _ | _, .createCollection .., _
  | _, .renameCollection .., _ | _, .insertDocumentBulk .., _ | _, .updateDocument .., _ | _, .deleteDocument .., _ =>
    .isTrue trivial

variable {h : Host} {s s' : DB}

theorem live_of_sound (sound : Sound s) : Live s :=
  ⟨sound.main, sound.fullText, fun _ left _ right same => sound.table_injective left right same, sound.belongs⟩

theorem dropCollectionTx_refused {coll : Collection} (name : String) (gone : s.find coll.tableName = none) :
    ∃ e, dropCollectionTx coll name s = .error e := by
  unfold dropCollectionTx DB.dropTable
  rw [gone]
  exact ⟨_, rfl⟩

/-- Every statement keeps the registry and the tables in agreement, a drop under
    the condition above. -/
theorem sound_statement {β : Type} {c : Stmt β} {b : β} (own : DropsItsOwn c s) (sound : Sound s)
    (done : (machine h).exec c s = .ok (b, s')) : Sound s' := by
  have committed {r : Except Err DB} {b : Unit} (ran : noValue r = .ok (b, s')) : r = .ok s' := by
    cases r with
    | error e => cases ran
    | ok s₁ =>
      simp only [noValue, Except.map, Except.ok.injEq, Prod.mk.injEq] at ran
      rw [ran.2]
  cases c with
  | createCollection name hasVector dimensions references => exact sound.createCollectionTx (committed done)
  | renameCollection oldName newName => exact sound.renameCollectionTx (committed done)
  | dropCollection coll name =>
    rcases own with gone | own
    · obtain ⟨e, refused⟩ := dropCollectionTx_refused name gone
      rw [committed done] at refused
      cases refused
    · exact sound.dropCollectionTx own (committed done)
  | read _ | insertRow _ _ _ | updateData _ _ _ | insertDocumentBulk _ _ | updateDocument _ _ _ _ _ | deleteDocument _ _ =>
    refine sound.sameSchema (exec_sameSchema ?_ done)
    trivial

/-- Whatever the requests, their order of steps and the failures they meet: if
    every drop executes on its own tables, the registry points at live tables in
    every state reached. -/
theorem registry_live (h : Host) (calls : List (Call × List Bool)) (requests : List Call) (schedule : List Turn)
    (own : Along (Pool.step (machine h)) (Pool.Executes DropsItsOwn) schedule (pool h calls requests)) :
    Live ((pool h calls requests).run (machine h) schedule).shared := by
  refine live_of_sound (Pool.shared_invariant (P := fun _ => True) ?_ ?_ (run_coherent h calls).sound own)
  · intro β c s b s' _ own sound done
    exact sound_statement own sound done
  · intro p _
    exact Prog.uses_true p

/-- A collection without vectors. -/
def oneCollection : List (Call × List Bool) := [(.createCollection "a" false 0 ⟨[], List.nodup_nil⟩, [])]

/-- Requests to drop it and to rename it. -/
def dropAndRename : List Call := [.dropCollection "a", .renameCollection "a" "b"]

/-- The rename comes after the drop. -/
theorem registry_live_dropThenRename :
    Along (Pool.step (machine Host.uniform)) (Pool.Executes DropsItsOwn) [(0, false), (0, false), (1, false)]
        (pool Host.uniform oneCollection dropAndRename) ∧
      Live ((pool Host.uniform oneCollection dropAndRename).run (machine Host.uniform) [(0, false), (0, false), (1, false)]).shared :=
  ⟨by decide, registry_live Host.uniform oneCollection dropAndRename _ (by decide)⟩

/-- The rename comes between the two steps of the drop. -/
theorem interleaved_rename_kills_table :
    ¬ ∀ (h : Host) (calls : List (Call × List Bool)) (requests : List Call) (schedule : List Turn),
      Live ((pool h calls requests).run (machine h) schedule).shared := by
  intro all
  have live := all Host.uniform oneCollection dropAndRename [(0, false), (1, false), (0, false)]
  obtain ⟨t, there, -⟩ := live.main ⟨"b", "coll_a", false, 0⟩ (by decide)
  have gone : (((pool Host.uniform oneCollection dropAndRename).run (machine Host.uniform)
      [(0, false), (1, false), (0, false)]).shared.find "coll_a").isNone = true := by decide
  rw [Option.isNone_iff_eq_none.mp gone] at there
  cases there

end Microserver.LiveTables
