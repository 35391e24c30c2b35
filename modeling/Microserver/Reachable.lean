import Microserver.Handlers
import Microserver.Histories

/-!
The worlds that sequential runs of calls reach. `Outcome` says all that one call
can do, whatever fails in it; every reachable world is coherent.
-/
namespace Microserver.Reachable
open Microserver.Store Microserver.Programs Microserver.Statements Microserver.Operations Microserver.Schema Microserver.Items
open Microserver.Handlers Microserver.Histories

/-- What a call can make of a world. -/
inductive Outcome (w : World) : Call → World → Prop
  | schema {call : Call} {s' : DB} (same : SameSchema w.db s') : Outcome w call ⟨s', w.history⟩
  | created {name : String} {hasVector : Bool} {dimensions : Int} {references : ReferenceMap} {s' : DB}
      (valid : collectionNameRe name = true) (checked : references.entries.findSome? referenceFieldError = none)
      (done : createCollectionTx name hasVector dimensions references w.db = .ok s') :
      Outcome w (.createCollection name hasVector dimensions references)
        ⟨s', w.history.record (.createCollection name hasVector dimensions references)⟩
  | renamed {oldName newName : String} {s' : DB} (valid : collectionNameRe newName = true)
      (done : renameCollectionTx oldName newName w.db = .ok s') :
      Outcome w (.renameCollection oldName newName) ⟨s', w.history.record (.renameCollection oldName newName)⟩
  | dropped {name : String} {coll : Collection} {s' : DB} (found : w.db.lookup name = some coll)
      (done : dropCollectionTx coll name w.db = .ok s') :
      Outcome w (.dropCollection name) ⟨s', w.history.record (.dropCollection name)⟩

variable {h : Host} {w : World}

theorem item_of_update {β : Type} (c : Stmt β) (update : UpdateStmt c) : ItemStmt c := by
  cases c <;> trivial

/-- An operation on items keeps the schema. -/
theorem uses_sameSchema {α : Type} {op : Op α} (uses : op.Uses ItemStmt) (s : DB) :
    (machine h).wp (fun _ s' => SameSchema s s') op s :=
  (machine h).wp_of_uses (fun _ _ _ _ item kept ran => kept.trans (exec_sameSchema item ran)) uses (SameSchema.refl s)

theorem step_outcome (h : Host) (w : World) (call : Call × List Bool) : Outcome w call.1 (w.step h call) := by
  obtain ⟨call, faults⟩ := call
  refine step_rule (I := Outcome w call) (.schema (SameSchema.refl w.db)) ?_
  have onItems {α : Type} {op : Op α} (uses : op.Uses ItemStmt) :
      (machine h).wp (fun _ s' => Outcome w call ⟨s', w.history⟩) op w.db :=
    (machine h).wp_mono (fun _ _ schema => .schema schema) (uses_sameSchema uses w.db)
  cases call with
  | createCollection name hasVector dimensions references => exact fun valid checked _ done => .created valid checked done
  | renameCollection oldName newName => exact fun valid _ done => .renamed valid done
  | dropCollection name => exact fun _ found _ done => .dropped found done
  | insertDocument name id text data =>
    exact fun coll _ => onItems (insertDocument_uses item_of_update (fun _ _ _ => trivial) coll id text data)
  | insertDocumentBulk name items =>
    refine fun coll _ => onItems (insertDocumentBulk_uses item_of_update ?_ items)
    exact fun _ => (trivial : True)
  | updateDocument name id text data => exact fun coll _ => onItems (updateDocument_uses item_of_update coll id text data)
  | deleteDocument name id => exact fun coll _ => onItems (deleteDocument_uses item_of_update trivial)

/-- One call keeps the record coherent. -/
theorem step_coherent (coherent : Coherent w) (call : Call × List Bool) : Coherent (w.step h call) := by
  have outcome := step_outcome h w call
  generalize call.1 = called, w.step h call = next at outcome ⊢
  cases outcome with
  | schema same => exact coherent.sameSchema same
  | created _ checked done => exact coherent.createCollection checked done
  | renamed _ done => exact coherent.renameCollection done
  | dropped found done => exact coherent.dropCollection found done

/-- Every run of calls leads to a coherent world. -/
theorem run_coherent (h : Host) (calls : List (Call × List Bool)) : Coherent (World.run h calls World.start) :=
  run_always (I := Coherent) (fun _ call coherent => step_coherent coherent call) start_coherent calls

/-- The database after a run of calls on a new one. -/
def reached (h : Host) (calls : List (Call × List Bool)) : DB := (World.run h calls World.start).db

/-- What every outcome of a call keeps, in coherent worlds, holds after every run. -/
theorem reached_invariant {I : DB → Prop} (start : I openVecDB)
    (keeps : ∀ w call next, Coherent w → I w.db → Outcome w call next → I next.db) (h : Host) (calls : List (Call × List Bool)) :
    I (reached h calls) := by
  have both : Coherent (World.run h calls World.start) ∧ I (World.run h calls World.start).db := by
    refine run_always (I := fun w : World => Coherent w ∧ I w.db) ?_ ⟨start_coherent, start⟩ calls
    rintro w call ⟨coherent, holds⟩
    exact ⟨step_coherent coherent call, keeps w call.1 _ coherent holds (step_outcome h w call)⟩
  exact both.2

/-- Every registered name is a valid one. -/
theorem reached_names (h : Host) (calls : List (Call × List Bool)) :
    ∀ c ∈ (reached h calls).collections, collectionNameRe c.name = true := by
  refine reached_invariant (I := fun s => ∀ c ∈ s.collections, collectionNameRe c.name = true) (by simp [openVecDB]) ?_ h calls
  intro w call next _ names outcome
  cases outcome with
  | schema same =>
    intro c member
    exact names c (same.collections ▸ member)
  | created valid _ done =>
    obtain ⟨-, -, -, s₁, -, rfl⟩ := createCollectionTx_ok done
    intro c member
    rcases List.mem_append.mp member with old | new
    · exact names c old
    · rw [List.mem_singleton.mp new]
      exact valid
  | @renamed oldName newName _ valid done =>
    obtain ⟨-, -, -, rfl⟩ := renameCollectionTx_ok_iff.mp done
    intro c member
    obtain ⟨c₀, stored, rfl⟩ := List.mem_map.mp member
    show collectionNameRe (relabel oldName newName c₀.name) = true
    unfold relabel
    by_cases old : c₀.name = oldName
    · rw [if_pos old]
      exact valid
    · rw [if_neg old]
      exact names c₀ stored
  | dropped found done =>
    obtain ⟨-, -, -, registry, -⟩ := dropCollectionTx_ok done
    intro c member
    rw [registry] at member
    exact names c (List.mem_filter.mp member).1

/-- Every table of a registered collection is named as createCollection names it. -/
theorem reached_tableNames (h : Host) (calls : List (Call × List Bool)) :
    ∀ c ∈ (reached h calls).collections, ∃ name, collectionNameRe name = true ∧ c.tableName = "coll_" ++ name := by
  refine reached_invariant (I := fun s => ∀ c ∈ s.collections, ∃ name, collectionNameRe name = true ∧ c.tableName = "coll_" ++ name) (by simp [openVecDB]) ?_
    h calls
  intro w call next _ named outcome
  cases outcome with
  | schema same =>
    intro c member
    exact named c (same.collections ▸ member)
  | created valid _ done =>
    obtain ⟨-, -, -, s₁, -, rfl⟩ := createCollectionTx_ok done
    intro c member
    rcases List.mem_append.mp member with old | new
    · exact named c old
    · rw [List.mem_singleton.mp new]
      exact ⟨_, valid, rfl⟩
  | renamed _ done =>
    obtain ⟨-, -, -, rfl⟩ := renameCollectionTx_ok_iff.mp done
    intro c member
    obtain ⟨c₀, stored, rfl⟩ := List.mem_map.mp member
    exact named c₀ stored
  | dropped found done =>
    obtain ⟨-, -, -, registry, -⟩ := dropCollectionTx_ok done
    intro c member
    rw [registry] at member
    exact named c (List.mem_filter.mp member).1

/-- No two rows of `collection_references` have the same owner and field. -/
theorem reached_keys (h : Host) (calls : List (Call × List Bool)) :
    ((reached h calls).references.map fun r => (r.collectionName, r.fieldName)).Nodup := by
  refine reached_invariant (I := fun s => (s.references.map fun r => (r.collectionName, r.fieldName)).Nodup) (by simp [openVecDB])
    ?_ h calls
  intro w call next _ keys outcome
  cases outcome with
  | schema same =>
    rw [same.references]
    exact keys
  | @created name _ _ references _ _ _ done =>
    obtain ⟨-, -, free, s₁, -, rfl⟩ := createCollectionTx_ok done
    show (List.map _ (w.db.references ++ references.entries.map fun e => referenceRow name e.1 e.2)).Nodup
    rw [List.map_append, List.nodup_append]
    refine ⟨keys, ?_, ?_⟩
    · have declared : ((references.entries.map fun e => referenceRow name e.1 e.2).map fun r => (r.collectionName, r.fieldName)) =
          (references.entries.map (·.1)).map (Prod.mk name) := by
        simp [referenceRow]
      rw [declared]
      exact references.distinct.map (fun _ _ same => (Prod.mk.inj same).2)
    · intro key old key' new same
      obtain ⟨q, stored, rfl⟩ := List.mem_map.mp old
      obtain ⟨r, declared, rfl⟩ := List.mem_map.mp new
      obtain ⟨e, entry, rfl⟩ := List.mem_map.mp declared
      exact free e entry q stored ⟨(Prod.mk.inj same).1, (Prod.mk.inj same).2⟩
  | @renamed oldName newName _ _ done =>
    obtain ⟨-, -, apart, rfl⟩ := renameCollectionTx_ok_iff.mp done
    show (List.map _ (w.db.references.map _)).Nodup
    rw [List.map_map, List.Nodup, List.pairwise_map] at *
    refine keys.imp_of_mem ?_
    intro q r left right different same
    obtain ⟨owner, field⟩ := Prod.mk.inj same
    refine different (Prod.ext ?_ field)
    -- only an old row and a left-over row of the new name could meet
    rcases relabel_eq_cases owner with equal | ⟨changes, ⟨first, second⟩ | ⟨second, first⟩⟩
    · exact equal
    · exact absurd ⟨changes, q, left, r, right, first, second, field⟩ apart
    · exact absurd ⟨changes, r, right, q, left, first, second, field.symm⟩ apart
  | dropped found done =>
    obtain ⟨-, -, references, -⟩ := dropCollectionTx_ok done
    rw [references]
    exact keys

end Microserver.Reachable
