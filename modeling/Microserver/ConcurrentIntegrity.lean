import Mathlib
import Microserver.Handlers
import Microserver.Histories
import Microserver.Interleaving

/-!
Referential integrity under concurrent requests. The checks of a request are
reads of their own, so another request can come between them and the write. The
references stay good exactly as far as what was checked still holds when the
write executes.
-/
namespace Microserver.ConcurrentIntegrity
open Microserver.Values Microserver.Store Microserver.Programs Microserver.Interleaving Microserver.Statements
open Microserver.Operations Microserver.Schema Microserver.Items Microserver.Reads Microserver.Integrity Microserver.Handlers
open Microserver.Histories

/-- A request that writes items, or renames a collection. -/
inductive Request
  | write (request : ItemWrite)
  | renameCollection (oldName : String) (body : Decoded String)

def Request.program : Request → Op Reply
  | .write request => request.program
  | .renameCollection oldName body => handleRenameCollection oldName body

abbrev pool (s : DB) (requests : List Request) : Pool Stmt Err DB Reply := .start Request.program requests s

/-- Every reference field that is set names an item of its target collection. -/
def AllResolve (s : DB) : Prop :=
  ∀ c ∈ s.collections, ∀ row ∈ items s c.tableName, ∀ r ∈ s.references, r.collectionName = c.name →
    Resolves s (fun t => s.lookup r.targetCollection = some t) (row.data.field r.fieldName)

/-- The reference fields of the data resolve for the collection the table belongs to. -/
def FieldsResolve (s : DB) (table : String) (data : Json) : Prop :=
  ∀ c ∈ s.collections, fold c.tableName = fold table → ∀ r ∈ s.references, r.collectionName = c.name →
    Resolves s (fun t => s.lookup r.targetCollection = some t) (data.field r.fieldName)

def HoldsId (id : Int) (value : Option Json) : Prop := value = some (.int id)

instance HoldsId.decidable (id : Int) : (value : Option Json) → Decidable (HoldsId id value)
  | some (.int n) => decidable_of_iff (n = id) (by simp [HoldsId])
  | none | some .null | some (.bool _) | some (.real _) | some (.str _) | some (.arr _) | some (.obj _) =>
    .isFalse (by simp [HoldsId])

/-- Another item refers to the item. -/
def Referenced (s : DB) (table : String) (id : Int) : Prop :=
  ∃ c ∈ s.collections, ∃ row ∈ items s c.tableName, ¬ (fold c.tableName = fold table ∧ row.id = id) ∧
    ∃ r ∈ s.references, r.collectionName = c.name ∧ HoldsId id (row.data.field r.fieldName) ∧
      ∃ t ∈ s.collections, s.lookup r.targetCollection = some t ∧ fold t.tableName = fold table

/-- The collection can take over the references that already carry the new name. -/
def MeetsLeftOver (oldName newName : String) (s : DB) : Prop :=
  ∀ c ∈ s.collections, c.name = oldName → ∀ row ∈ items s c.tableName, ∀ r ∈ s.references, r.collectionName = newName →
    Resolves s (fun t => s.lookup t.name = some t ∧ relabel oldName newName t.name = relabel oldName newName r.targetCollection)
      (row.data.field r.fieldName)

/-- What the request has checked before this statement, in the state where the
    statement executes. -/
def StillHolds {β : Type} : Stmt β → DB → Prop
  | .insertRow table _ (.data data), s => FieldsResolve s table data
  | .insertRow table _ (.vector _ _ data), s => FieldsResolve s table data
  | .updateData table data id, s => (∃ row ∈ items s table, row.id = id) → FieldsResolve s table data
  | .insertDocumentBulk coll preparedItems, s => ∀ p ∈ preparedItems, FieldsResolve s coll.tableName p.data
  | .updateDocument coll id _ data _, s =>
    (∃ row ∈ items s coll.tableName, row.id = id) → FieldsResolve s coll.tableName data
  | .deleteDocument coll id, s => (∃ row ∈ items s coll.tableName, row.id = id) → ¬ Referenced s coll.tableName id
  | .renameCollection oldName newName, s => oldName ≠ newName → s.registered newName = false → MeetsLeftOver oldName newName s
  | _, _ => True

instance (s : DB) : Decidable (AllResolve s) := by
  unfold AllResolve
  exact inferInstance

instance (s : DB) (table : String) (data : Json) : Decidable (FieldsResolve s table data) := by
  unfold FieldsResolve
  exact inferInstance

instance (s : DB) (table : String) (id : Int) : Decidable (Referenced s table id) := by
  unfold Referenced
  exact inferInstance

instance (oldName newName : String) (s : DB) : Decidable (MeetsLeftOver oldName newName s) := by
  unfold MeetsLeftOver
  exact inferInstance

instance {β : Type} (c : Stmt β) (s : DB) : Decidable (StillHolds c s) := by
  cases c with
  | insertRow table id columns => cases columns <;> (unfold StillHolds; exact inferInstance)
  | _ => unfold StillHolds; exact inferInstance

/-! ### One statement -/

variable {h : Host} {s s' : DB}

theorem integral_byName : Integral (s.references.map (byName s)) s ↔ AllResolve s := by
  simp only [Integral, AllResolve, byName, List.forall_mem_map]

theorem FieldsResolve.acceptable {table : String} {data : Json} (resolve : FieldsResolve s table data) :
    Acceptable (s.references.map (byName s)) s table data := by
  intro c registered same d duty owner
  obtain ⟨r, stored, rfl⟩ := List.mem_map.mp duty
  exact resolve c registered same r stored owner

theorem unreferenced_of {table : String} {id : Int} (free : ¬ Referenced s table id) :
    Unreferenced (s.references.map (byName s)) s table id := by
  intro c registered row member other d duty owner refers t registered' meets same
  obtain ⟨r, stored, rfl⟩ := List.mem_map.mp duty
  exact free ⟨c, registered, row, member, fun both => other both.1 both.2, r, stored, owner, refers, t, registered', meets, same⟩

/-- A statement on items does not change what the references mean. -/
theorem AllResolve.of_integral (schema : SameSchema s s') (integral : Integral (s.references.map (byName s)) s') :
    AllResolve s' := by
  refine integral_byName.mp ?_
  have names : byName s' = byName s := by
    funext r
    simp only [byName, schema.lookup]
  rw [schema.references, names]
  exact integral

/-- A rename carries every reference to the same item. -/
theorem AllResolve.renamed {oldName newName : String} (resolve : AllResolve s)
    (available : oldName = newName ∨ s.registered newName = false)
    (leftOver : oldName ≠ newName → s.registered newName = false → MeetsLeftOver oldName newName s) :
    AllResolve (Schema.renamed oldName newName s) := by
  intro c member row there r stored owner
  obtain ⟨c₀, registered, rfl⟩ := List.mem_map.mp member
  obtain ⟨r₀, stored₀, rfl⟩ := List.mem_map.mp stored
  have carried (target : Collection → Prop) (meets : ∀ t ∈ s.collections, target t →
      (Schema.renamed oldName newName s).lookup (relabel oldName newName r₀.targetCollection) =
        some { t with name := relabel oldName newName t.name })
      (found : Resolves s target (row.data.field r₀.fieldName)) :
      Resolves (Schema.renamed oldName newName s)
        (fun t => (Schema.renamed oldName newName s).lookup (relabel oldName newName r₀.targetCollection) = some t)
        (row.data.field r₀.fieldName) := by
    rcases found with absent | isNull | ⟨n, int, t, known, holds, item⟩
    · exact .inl absent
    · exact .inr (.inl isNull)
    · exact .inr (.inr ⟨n, int, { t with name := relabel oldName newName t.name }, List.mem_map.mpr ⟨t, known, rfl⟩,
        meets t known holds, item⟩)
  have follows {x : String} {t : Collection} (found : s.lookup x = some t) :
      (Schema.renamed oldName newName s).lookup (relabel oldName newName x) =
        some { t with name := relabel oldName newName t.name } := by
    have known : s.registered x = true := by
      rw [← DB.lookup_isSome, found]
      rfl
    rw [lookup_renamed available known, found]
    rfl
  rcases relabel_eq_cases owner with same | ⟨different, meet⟩
  · exact carried _ (fun t _ found => follows found) (resolve c₀ registered row there r₀ stored₀ same)
  · -- the row carried the new name before, and the collection has just got it
    have known : s.registered c₀.name = true := DB.registered_iff.mpr ⟨c₀, registered, rfl⟩
    have free := available.resolve_left different
    rcases meet with ⟨-, named⟩ | ⟨left, right⟩
    · rw [named, free] at known
      cases known
    · refine carried _ ?_ (leftOver different free c₀ registered right row there r₀ stored₀ left)
      intro t _ holds
      rw [← holds.2]
      exact follows holds.1

/-- The statements of the requests. -/
def Requested {β : Type} : Stmt β → Prop
  | .createCollection .. => False
  | .dropCollection .. => False
  | _ => True

/-- A statement for which the checks still hold keeps the references good. -/
theorem AllResolve.statement {β : Type} {c : Stmt β} {b : β} (requested : Requested c) (holds : StillHolds c s)
    (resolve : AllResolve s) (done : (machine h).exec c s = .ok (b, s')) : AllResolve s' := by
  have integral := integral_byName.mpr resolve
  cases c with
  | createCollection name hasVector dimensions references => exact requested.elim
  | dropCollection coll name => exact requested.elim
  | read query =>
    have ran : (query h s).map (fun b => (b, s)) = .ok (b, s') := done
    cases result : query h s with
    | error e => simp [result, Except.map] at ran
    | ok v =>
      simp only [result, Except.map, Except.ok.injEq, Prod.mk.injEq] at ran
      rw [← ran.2]
      exact resolve
  | insertRow table id columns =>
    have inserted : s.insertRow table id columns = .ok (b, s') := done
    cases columns with
    | fullText text =>
      exact AllResolve.of_integral (insertFullText_wrote (Wrote.nothing s table) inserted).schema
        (integral.insertRow inserted (by simp))
    | data data =>
      exact AllResolve.of_integral (insertRow_wrote (by simp) inserted).schema
        (integral.insertRow inserted fun _ => holds.acceptable)
    | vector embedding text data =>
      exact AllResolve.of_integral (insertRow_wrote (by simp) inserted).schema
        (integral.insertRow inserted fun _ => holds.acceptable)
  | updateData table data id =>
    have updated : s.updateData table data id = .ok (b, s') := done
    exact AllResolve.of_integral (updateData_wrote updated).schema
      (integral.updateData updated fun present => (holds present).acceptable)
  | renameCollection oldName newName =>
    cases changed : renameCollectionTx oldName newName s with
    | error e => simp [machine, Stmt.exec, noValue, changed, Except.map] at done
    | ok s₁ =>
      simp only [machine, Stmt.exec, noValue, changed, Except.map, Except.ok.injEq, Prod.mk.injEq] at done
      obtain ⟨-, available, -, same⟩ := renameCollectionTx_ok_iff.mp changed
      rw [← done.2, same]
      exact resolve.renamed available holds
  | insertDocumentBulk coll preparedItems =>
    have inserted : insertDocumentBulkTx coll 0 preparedItems s = .ok (b, s') := done
    obtain ⟨new, wrote, -⟩ := insertDocumentBulkTx_wrote inserted
    exact AllResolve.of_integral wrote.schema
      (integral.insertDocumentBulk inserted fun p member => (holds p member).acceptable)
  | updateDocument coll id text data serialized =>
    have updated : updateDocumentTx coll id text data serialized s = .ok (b, s') := done
    exact AllResolve.of_integral (ReferenceChecks.updateDocumentTx_schema updated)
      (integral.updateDocument updated fun present => (holds present).acceptable)
  | deleteDocument coll id =>
    have deleted : deleteDocumentTx coll id s = .ok (b, s') := done
    have schema : SameSchema s s' := by
      rcases deleteDocumentTx_ok deleted with ⟨-, same, -⟩ | ⟨-, -, wrote⟩
      · rw [same]
        exact SameSchema.refl s
      · exact wrote.schema
    exact AllResolve.of_integral schema (integral.deleteDocument deleted fun present => unreferenced_of (holds present))

/-! ### Interleavings -/

theorem requested_of_update {β : Type} (c : Stmt β) (update : UpdateStmt c) : Requested c := by
  cases c <;> trivial

theorem program_uses (request : Request) : request.program.Uses Requested := by
  cases request with
  | write request =>
    exact request.program_uses requested_of_update (fun _ _ _ => trivial) (fun _ _ => trivial) fun _ _ => trivial
  | renameCollection oldName body =>
    exact handleRenameCollection_uses requested_of_update (fun _ _ => trivial) oldName body

/-- Whatever the requests, their order of steps and the failures they meet: if
    the checks of every write still hold where it executes, then the references
    are good in every state reached. -/
theorem references_resolve (h : Host) (s : DB) (requests : List Request) (schedule : List Turn)
    (resolve : AllResolve s)
    (fresh : Along (Pool.step (machine h)) (Pool.Executes StillHolds) schedule (pool s requests)) :
    AllResolve ((pool s requests).run (machine h) schedule).shared := by
  refine Pool.shared_invariant (P := Requested) ?_ ?_ resolve fresh
  · intro β c s b s' requested holds resolve done
    exact resolve.statement requested holds done
  · intro p member
    obtain ⟨request, -, rfl⟩ := List.mem_map.mp member
    exact program_uses request

/-- A collection with one item, and one that can refer to it. -/
def referable : DB :=
  (World.run Host.uniform
    [(.createCollection "t" false 0 ⟨[], List.nodup_nil⟩, []),
      (.insertDocument "t" none "" none, []),
      (.createCollection "d" false 0 ⟨[("f", ⟨"t", ""⟩)], List.nodup_singleton "f"⟩, [])] World.start).db

/-- An insert of a reference to the item, and a delete of the item. -/
def insertAndDelete : List Request :=
  [.write (.insertDocument "d" (.ok ⟨none, "", some (.obj [("f", .int 1)])⟩)), .write (.deleteDocument "t" (some 1))]

/-- One after the other, the delete is refused. -/
theorem references_resolve_insertThenDelete :
    AllResolve referable ∧
      AllResolve ((pool referable insertAndDelete).run (machine Host.uniform)
        ((List.replicate 5 (0, false)) ++ List.replicate 5 (1, false))).shared :=
  ⟨by decide, references_resolve Host.uniform referable insertAndDelete _ (by decide) (by decide)⟩

/-- The delete comes between the check of the insert and its write. -/
theorem interleaved_delete_breaks_reference :
    ¬ ∀ (h : Host) (s : DB) (requests : List Request) (schedule : List Turn), AllResolve s →
      ((pool s requests).run (machine h) schedule).Finished →
        AllResolve ((pool s requests).run (machine h) schedule).shared := by
  intro all
  have resolves := all Host.uniform referable insertAndDelete
    ((List.replicate 4 (0, false)) ++ List.replicate 5 (1, false) ++ [(0, false)]) (by decide) (by decide)
  have broken : ¬ AllResolve ((pool referable insertAndDelete).run (machine Host.uniform)
      ((List.replicate 4 (0, false)) ++ List.replicate 5 (1, false) ++ [(0, false)])).shared := by decide
  exact broken resolves

end Microserver.ConcurrentIntegrity
