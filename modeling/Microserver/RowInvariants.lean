import Microserver.Cascades
import Microserver.Reachable

/-!
Invariants of single rows. A property of the rows of a collection, which may
depend on the kind of its table, holds in every state as long as the rows that
are stored have it and the cascade of a delete keeps it.
-/
namespace Microserver.RowInvariants
open Microserver.Values Microserver.Store Microserver.Programs Microserver.Statements Microserver.Operations
open Microserver.Schema Microserver.Items Microserver.Reads Microserver.ReferenceChecks Microserver.Cascades
open Microserver.Integrity Microserver.Histories Microserver.Reachable

/-- Every item of every registered collection has the property. -/
def AllRows (P : TableKind → Row → Prop) (s : DB) : Prop :=
  ∀ c ∈ s.collections, ∀ row ∈ items s c.tableName, P (mainKind c) row

/-- The rows that an operation stores for the text and the data have the property. -/
structure Admits (h : Host) (P : TableKind → Row → Prop) (text : String) (data : Json) : Prop where
  plain : ∀ row : Row, row.data = data → P .plain row
  vector : ∀ dimensions, ∀ row : Row, row.text = text → row.data = data → h.embed text = .ok row.embedding →
    (row.embedding.length : Int) = dimensions ∧ dimensions % 8 = 0 → P (.vec0 dimensions) row

/-- What a call stores has the property. -/
def Admitted (h : Host) (P : TableKind → Row → Prop) : Call → Prop
  | .insertDocument _ _ text data => Admits h P text (dataOrEmpty data)
  | .insertDocumentBulk _ batch => ∀ it ∈ batch, Admits h P it.text (dataOrEmpty it.data)
  | .updateDocument _ _ text data => Admits h P text (dataOrEmpty data)
  | .createCollection .. | .renameCollection .. | .dropCollection .. | .deleteDocument .. => True

/-- What a call stores lists no field twice with different values: it is a map. -/
def GivesMaps : Call → Prop
  | .insertDocument _ _ _ data => (dataOrEmpty data).Unambiguous
  | .insertDocumentBulk _ batch => ∀ it ∈ batch, (dataOrEmpty it.data).Unambiguous
  | .updateDocument _ _ _ data => (dataOrEmpty data).Unambiguous
  | .createCollection .. | .renameCollection .. | .dropCollection .. | .deleteDocument .. => True

instance (call : Call) : Decidable (GivesMaps call) := by
  unfold GivesMaps
  cases call <;> exact inferInstance

/-- To null a field keeps the property. -/
def Nullable (h : Host) (P : TableKind → Row → Prop) : Prop :=
  ∀ c field row row', Nulled h c field row row' → P (mainKind c) row → P (mainKind c) row'

variable {h : Host} {P : TableKind → Row → Prop} {s s' : DB} {coll : Collection} {w : World} {text : String} {data : Option Json}

theorem mainKind_plain (plain : coll.hasVector = false) : mainKind coll = .plain := by simp [mainKind, plain]

theorem mainKind_vector (vector : coll.hasVector = true) : mainKind coll = .vec0 coll.dimensions := by simp [mainKind, vector]

/-! ### The operations on items -/

/-- The operations on items of a registered collection. -/
structure Stores (P : TableKind → Row → Prop) (coll : Collection) (s : DB) : Prop where
  sound : Sound s
  registered : coll ∈ s.collections
  rows : AllRows P s

/-- A write to the table of the collection. -/
theorem Stores.wrote {kept new : Row → Prop} (stores : Stores P coll s) (wrote : Wrote s s' coll.tableName kept new)
    (fresh : ∀ row, new row → P (mainKind coll) row) : Stores P coll s' := by
  refine ⟨stores.sound.sameSchema wrote.schema, by rw [wrote.schema.collections]; exact stores.registered, ?_⟩
  intro c registered row member
  rw [wrote.schema.collections] at registered
  rcases wrote.origin member with ⟨old, -⟩ | ⟨same, written⟩
  · exact stores.rows c registered row old
  · obtain rfl := stores.sound.table_injective registered stores.registered same
    exact fresh row written

/-- INSERT of an item: its columns fit the table. -/
theorem Stores.insertRow {given : Option Int} {columns : Columns} {assigned : Int} (stores : Stores P coll s)
    (item : ∀ text, columns ≠ .fullText text)
    (admits : columns.fits (mainKind coll) = true → P (mainKind coll) (columns.row assigned))
    (done : s.insertRow coll.tableName given columns = .ok (assigned, s')) : Stores P coll s' := by
  refine stores.wrote (insertRow_wrote item done) ?_
  rintro row rfl
  obtain ⟨t, t', there, fits, -⟩ := DB.insertRow_ok done
  obtain ⟨t₀, there₀, kind⟩ := stores.sound.main coll stores.registered
  rw [there₀] at there
  cases there
  exact admits (kind ▸ fits)

theorem Stores.insertFullText {id assigned : Int} (stores : Stores P coll s)
    (done : s.insertRow (ftsTableName coll.tableName) (some id) (.fullText text) = .ok (assigned, s')) : Stores P coll s' :=
  stores.wrote (insertFullText_wrote (Wrote.nothing s coll.tableName) done) fun _ => False.elim

/-- The columns that an operation writes to a collection with vectors. -/
theorem Admits.columns {value : Json} {vec : Vector32} (admits : Admits h P text value) (vector : coll.hasVector = true)
    (embedded : h.embed text = .ok vec) (id : Int) (fits : (Columns.vector vec text value).fits (mainKind coll) = true) :
    P (mainKind coll) ((Columns.vector vec text value).row id) := by
  rw [mainKind_vector vector] at fits ⊢
  exact admits.vector _ _ rfl rfl embedded (of_decide_eq_true fits)

theorem insertDocument_rows (stores : Stores P coll s) (admits : Admits h P text (dataOrEmpty data)) (id : Option Int) :
    (machine h).wp (fun _ s' => Stores P coll s') (insertDocument coll id text data) s := by
  refine wp_insertDocument (fun _ => stores) ?_ ?_
  · intro plain _ assigned s' inserted
    refine stores.insertRow (by simp) (fun _ => ?_) inserted
    rw [mainKind_plain plain]
    exact admits.plain _ rfl
  · intro vector _ vec embedded assigned s' inserted
    have after := stores.insertRow (by simp) (admits.columns vector embedded assigned) inserted
    exact ⟨fun _ => after, fun again s'' indexed => after.insertFullText indexed⟩

theorem insertDocumentBulk_rows (stores : Stores P coll s) (batch : List BulkDocumentItem)
    (admits : ∀ it ∈ batch, Admits h P it.text (dataOrEmpty it.data)) :
    (machine h).wp (fun _ s' => Stores P coll s') (insertDocumentBulk coll batch) s := by
  refine wp_insertDocumentBulk (fun _ => stores) ?_
  intro preparedItems each _ ids s' inserted
  refine insertDocumentBulkTx_induct (I := Stores P coll) ?_ stores inserted
  intro p member s₁ finalID s₂ stores₁ done
  obtain ⟨it, listed, origin⟩ := each p member
  obtain ⟨s₃, stored, ending⟩ := insertPrepared_cases done
  have first : Stores P coll s₃ := by
    refine stores₁.insertRow (columns_item p _) (fun fits => ?_) stored
    have admitted := admits it listed
    rw [← origin.text, ← origin.data] at admitted
    cases vector : coll.hasVector with
    | false =>
      rw [mainKind_plain vector]
      exact admitted.plain _ rfl
    | true =>
      rw [vector] at fits
      exact admitted.columns vector (origin.text ▸ origin.embedded vector) finalID fits
  rcases ending with ⟨-, rfl⟩ | ⟨-, indexed⟩
  · exact first
  · exact first.insertFullText indexed

theorem updateDocument_rows (stores : Stores P coll s) (admits : Admits h P text (dataOrEmpty data)) (id : Int) :
    (machine h).wp (fun _ s' => Stores P coll s') (updateDocument coll id text data) s := by
  refine wp_updateDocument (fun _ => stores) ?_ ?_
  · intro plain _ n s' updated
    refine stores.wrote (updateData_wrote updated) ?_
    rintro row ⟨old, -, -, rfl⟩
    rw [mainKind_plain plain]
    exact admits.plain _ rfl
  · intro vector _ vec embedded found s' updated
    rcases updateDocumentTx_cases updated with ⟨-, rfl, -⟩ | ⟨-, -, n, s₁, s₂, s₃, deleted, inserted, removed, indexed⟩
    · exact stores
    · have first : Stores P coll s₁ := stores.wrote (deleteRow_wrote deleted) fun _ => False.elim
      have second := first.insertRow (by simp) (admits.columns vector embedded id) inserted
      have third : Stores P coll s₃ :=
        second.wrote (deleteFullText_wrote (Wrote.nothing s₂ coll.tableName) removed) fun _ => False.elim
      exact third.insertFullText indexed

theorem Stores.at {c : Collection} (stores : Stores P coll s) (registered : c ∈ s.collections) : Stores P c s :=
  ⟨stores.sound, registered, stores.rows⟩

theorem Stores.nulling {field : String} {row : Row} (stores : Stores P coll s) (nullable : Nullable h P)
    (nulling : Nulling h coll field row s s') : Stores P coll s' := by
  obtain ⟨row', nulled, wrote⟩ := nulling.wrote
  refine stores.wrote wrote ?_
  rintro _ rfl
  exact nullable coll field row _ nulled (stores.rows coll stores.registered row nulling.member)

theorem deleteDocument_rows (stores : Stores P coll s) (nullable : Nullable h P) (id : Int) :
    (machine h).wp (fun _ s' => Stores P coll s') (deleteDocument coll id) s := by
  refine (machine h).wp_mono (fun _ _ after => after.2)
    (wp_deleteDocument_induct (I := fun s' => SameSchema s s' ∧ Stores P coll s') ?_ ?_ ⟨.refl s, stores⟩)
  · rintro r - - - s₁ srcColl ⟨same₁, -⟩ known row₁ - - s₂ s₃ row ⟨same₂, stores₂⟩ - nulling
    have registered : srcColl ∈ s₂.collections := by
      rw [same₂.collections, ← same₁.collections]
      exact (DB.lookup_some known).1
    obtain ⟨_, -, wrote⟩ := nulling.wrote
    have after := (stores₂.at registered).nulling nullable nulling
    exact ⟨same₂.trans wrote.schema, after.at (by rw [wrote.schema.collections]; exact stores₂.registered)⟩
  · rintro s₁ s₂ found ⟨same, stores₁⟩ deleted
    rcases deleteDocumentTx_ok deleted with ⟨-, rfl, -⟩ | ⟨-, -, wrote⟩
    · exact ⟨same, stores₁⟩
    · exact ⟨same.trans wrote.schema, stores₁.wrote wrote fun _ => False.elim⟩

/-! ### Runs -/

/-- A collection whose tables are kept keeps its items. -/
theorem items_kept {c : Collection} (kept : ∀ n ∈ ownedTables c, s'.tables n = s.tables n) :
    items s' c.tableName = items s c.tableName := items_of_tables (kept _ (main_mem_owned c))

theorem step_rows {call : Call × List Bool} (sound : Sound w.db) (nullable : Nullable h P) (admitted : Admitted h P call.1)
    (rows : AllRows P w.db) : AllRows P (w.step h call).db := by
  refine step_rule (I := fun w' => AllRows P w'.db) rows ?_
  have stores {name : String} {coll : Collection} (found : w.db.lookup name = some coll) : Stores P coll w.db :=
    ⟨sound, (DB.lookup_some found).1, rows⟩
  have onItems {α : Type} {coll : Collection} {op : Op α} (after : (machine h).wp (fun _ s' => Stores P coll s') op w.db) :
      (machine h).wp (fun _ s' => AllRows P s') op w.db :=
    (machine h).wp_mono (fun _ _ stored => stored.rows) after
  generalize call.1 = call at admitted
  cases call with
  | createCollection name hasVector dimensions references =>
    intro _ _ s' done c registered row member
    obtain ⟨-, -, -, s₁, -, same⟩ := createCollectionTx_ok done
    simp only [same] at registered
    rcases List.mem_append.mp registered with old | new
    · have kept := items_kept fun n => sound.createCollectionTx_kept done old (n := n)
      simp only [kept] at member
      exact rows c old row member
    · have empty := createCollectionTx_items done
      rw [← List.mem_singleton.mp new] at empty
      simp only [empty] at member
      cases member
  | renameCollection oldName newName =>
    intro _ s' done c registered row member
    obtain ⟨-, -, -, rfl⟩ := renameCollectionTx_ok_iff.mp done
    obtain ⟨d, stored, rfl⟩ := List.mem_map.mp registered
    exact rows d stored row member
  | dropCollection name =>
    intro coll found s' done c registered row member
    obtain ⟨-, -, -, registry, -⟩ := dropCollectionTx_ok done
    simp only [registry, List.mem_filter, decide_eq_true_eq] at registered
    have kept := items_kept fun n => sound.dropCollectionTx_kept ⟨coll, found, rfl, fun vector => .inl vector⟩ done
      registered.1 registered.2 (n := n)
    simp only [kept] at member
    exact rows c registered.1 row member
  | insertDocument name id text data => exact fun coll found => onItems (insertDocument_rows (stores found) admitted id)
  | insertDocumentBulk name batch => exact fun coll found => onItems (insertDocumentBulk_rows (stores found) batch admitted)
  | updateDocument name id text data => exact fun coll found => onItems (updateDocument_rows (stores found) admitted id)
  | deleteDocument name id => exact fun coll found => onItems (deleteDocument_rows (stores found) nullable id)

/-- Every run of calls that store rows with the property leaves such rows. -/
theorem reached_rows (nullable : Nullable h P) {calls : List (Call × List Bool)} (admitted : ∀ call ∈ calls, Admitted h P call.1) :
    AllRows P (reached h calls) := by
  have along : Along (World.step h) (fun _ call => Admitted h P call.1) calls World.start := by
    generalize World.start = w
    induction calls generalizing w with
    | nil => trivial
    | cons call rest ih =>
      rw [List.forall_mem_cons] at admitted
      exact ⟨admitted.1, ih admitted.2 _⟩
  have both : Coherent (World.run h calls World.start) ∧ AllRows P (World.run h calls World.start).db := by
    refine run_invariant (I := fun w : World => Coherent w ∧ AllRows P w.db) ?_
      ⟨start_coherent, by simp [AllRows, World.start, openVecDB]⟩ along
    rintro w call ⟨coherent, rows⟩ admitted
    exact ⟨step_coherent coherent call, step_rows coherent.sound nullable admitted rows⟩
  exact both.2

/-! ### Items that are maps -/

theorem nullable_unambiguous : Nullable h fun _ row => row.data.Unambiguous := by
  rintro c field row row' ⟨-, -, -, fields, -, data⟩ -
  rw [data]
  exact unambiguous_setNull field fields

theorem admits_unambiguous {value : Json} (unambiguous : value.Unambiguous) :
    Admits h (fun _ row => row.data.Unambiguous) text value :=
  ⟨fun _ data => data ▸ unambiguous, fun _ _ _ data _ _ => data ▸ unambiguous⟩

theorem GivesMaps.admitted {call : Call} (maps : GivesMaps call) : Admitted h (fun _ row => row.data.Unambiguous) call := by
  cases call with
  | insertDocument _ _ _ _ | updateDocument _ _ _ _ => exact admits_unambiguous maps
  | insertDocumentBulk _ batch => exact fun it listed => admits_unambiguous (maps it listed)
  | createCollection _ _ _ _ | renameCollection _ _ | dropCollection _ | deleteDocument _ _ => trivial

theorem step_unambiguous {call : Call × List Bool} (sound : Sound w.db) (maps : GivesMaps call.1) (unambiguous : Unambiguous w.db) :
    Unambiguous (w.step h call).db :=
  step_rows sound nullable_unambiguous maps.admitted unambiguous

/-- Every run of calls whose data are maps leaves unambiguous items. -/
theorem reached_unambiguous {calls : List (Call × List Bool)} (maps : ∀ call ∈ calls, GivesMaps call.1) :
    Unambiguous (reached h calls) :=
  reached_rows nullable_unambiguous fun call listed => (maps call listed).admitted

end Microserver.RowInvariants
