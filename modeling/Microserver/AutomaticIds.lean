import Microserver.Evaluations
import Microserver.Handlers
import Microserver.Histories
import Mathlib.Data.List.Induction
import Mathlib.Data.List.Infix
import Mathlib.Order.Bounds.Basic

/-!
The ids that SQLite assigns in a collection without vectors. AUTOINCREMENT keeps
a mark in the table; an INSERT raises it, nothing lowers it. Along every run of
calls on items the mark is the largest of 0 and all ids that the collection has
ever held, so the next id is one that no item ever had, as long as there is one.
-/
namespace Microserver.AutomaticIds
open Microserver.Values Microserver.Store Microserver.Programs Microserver.Statements Microserver.Operations
open Microserver.Schema Microserver.Items Microserver.Reads Microserver.Handlers Microserver.Histories
open Microserver.Evaluations

/-! ### The mark of a table -/

/-- Rows were added; the mark rose no further than to the id of a new one. -/
structure Added (t t' : Table) : Prop where
  kind : t'.kind = t.kind
  kept : ∀ row ∈ t.rows, row ∈ t'.rows
  rises : t.seq ≤ t'.seq
  below : ∀ row ∈ t'.rows, row ∈ t.rows ∨ row.id ≤ t'.seq
  reached : t'.seq = t.seq ∨ ∃ row ∈ t'.rows, row.id = t'.seq

/-- Rows were removed, or rewritten under their ids. -/
structure Thinned (t t' : Table) : Prop where
  kind : t'.kind = t.kind
  fewer : ∀ row ∈ t'.rows, ∃ old ∈ t.rows, old.id = row.id
  mark : t'.seq = t.seq

/-- What is shared by the two ways in which a table changes. -/
structure TableOrder (R : Table → Table → Prop) : Prop where
  refl : ∀ t, R t t
  trans : ∀ {t t' t''}, R t t' → R t' t'' → R t t''
  kind : ∀ {t t'}, R t t' → t'.kind = t.kind

theorem added_order : TableOrder Added where
  refl t := ⟨rfl, fun _ member => member, le_refl _, fun _ member => .inl member, .inl rfl⟩
  trans := by
    intro t t' t'' first second
    refine ⟨second.kind.trans first.kind, fun row member => second.kept row (first.kept row member),
      first.rises.trans second.rises, ?_, ?_⟩
    · intro row member
      rcases second.below row member with earlier | low
      · rcases first.below row earlier with old | low
        · exact .inl old
        · exact .inr (low.trans second.rises)
      · exact .inr low
    · rcases second.reached with same | new
      · rcases first.reached with before | ⟨row, member, top⟩
        · exact .inl (same.trans before)
        · exact .inr ⟨row, second.kept row member, top.trans same.symm⟩
      · exact .inr new
  kind := Added.kind

theorem thinned_order : TableOrder Thinned where
  refl t := ⟨rfl, fun row member => ⟨row, member, rfl⟩, rfl⟩
  trans := by
    intro t t' t'' first second
    refine ⟨second.kind.trans first.kind, ?_, second.mark.trans first.mark⟩
    intro row member
    obtain ⟨between, there, same⟩ := second.fewer row member
    obtain ⟨old, stored, again⟩ := first.fewer between there
    exact ⟨old, stored, again.trans same⟩
  kind := Thinned.kind

theorem append_added (t : Table) (id : Int) (columns : Columns) (fresh : t.has id = false) :
    Added t (t.append id columns fresh) where
  kind := rfl
  kept := by
    intro row member
    exact List.mem_append_left _ member
  rises := le_max_left _ _
  below := by
    intro row member
    rcases List.mem_append.mp member with old | new
    · exact .inl old
    · rw [List.mem_singleton.mp new, Columns.row_id]
      exact .inr (le_max_right _ _)
  reached := by
    rcases max_choice t.seq id with old | new
    · exact .inl old
    · exact .inr ⟨columns.row id, List.mem_append_right _ (List.mem_singleton_self _), by rw [Columns.row_id]; exact new.symm⟩

theorem insert_added {t t' : Table} {id : Option Int} {columns : Columns} {assigned : Int}
    (done : t.insert id columns = .ok (assigned, t')) : Added t t' := by
  cases id with
  | some given =>
    by_cases taken : t.has given = true
    · simp [Table.insert, taken] at done
    · simp only [Table.insert, taken] at done
      cases done
      exact append_added t _ columns _
  | none =>
    by_cases full : maxRowid ≤ t.largest
    · simp [Table.insert, full] at done
    · simp only [Table.insert, full] at done
      cases done
      exact append_added t _ columns _

theorem delete_thinned (t : Table) (id : Int) : Thinned t (t.delete id) :=
  ⟨rfl, fun row member => ⟨row, (Table.mem_delete.mp member).1, rfl⟩, rfl⟩

theorem setData_thinned (t : Table) (id : Int) (data : Json) : Thinned t (t.setData id data) where
  kind := rfl
  fewer := by
    intro row member
    obtain ⟨old, stored, rewritten⟩ := List.mem_map.mp member
    refine ⟨old, stored, ?_⟩
    rw [← rewritten]
    by_cases same : old.id = id <;> simp [same]
  mark := rfl

/-- A table whose rows are below its mark continues from the mark. -/
theorem largest_eq {t : Table} (below : ∀ row ∈ t.rows, row.id ≤ t.seq) : t.largest = t.seq := by
  have bounded : ∀ rows : List Row, (∀ row ∈ rows, row.id ≤ t.seq) → rows.foldl (fun m r => max m r.id) t.seq = t.seq := by
    intro rows low
    induction rows with
    | nil => rfl
    | cons row rest ih =>
      rw [List.forall_mem_cons] at low
      rw [List.foldl_cons, max_eq_left low.1]
      exact ih low.2
  exact bounded t.rows below

/-! ### The mark under the statements -/

/-- A plain table stays in the database and changes as `R` says. -/
def Within (R : Table → Table → Prop) (table : String) (s s' : DB) : Prop :=
  ∀ t, s.find table = some t → t.kind = .plain → ∃ t', s'.find table = some t' ∧ R t t'

variable {R : Table → Table → Prop} {h : Host} {table : String} {s s' s'' : DB}

theorem Within.refl (order : TableOrder R) (table : String) (s : DB) : Within R table s s :=
  fun t there _ => ⟨t, there, order.refl t⟩

theorem Within.trans (order : TableOrder R) (first : Within R table s s') (second : Within R table s' s'') :
    Within R table s s'' := by
  intro t there plain
  obtain ⟨t', there', moved⟩ := first t there plain
  obtain ⟨t'', there'', moved'⟩ := second t' there' ((order.kind moved).trans plain)
  exact ⟨t'', there'', order.trans moved moved'⟩

/-- A table is written, which may be the one that is watched. -/
theorem Within.set (order : TableOrder R) {written : String} {t t' : Table} (there : s.find written = some t)
    (moves : t.kind = .plain → R t t') : Within R table s (s.set written t') := by
  intro t₀ there₀ plain
  rw [DB.find_set]
  by_cases same : fold table = fold written
  · have equal : s.find table = s.find written := by
      unfold DB.find
      rw [same]
    rw [there₀, there] at equal
    cases equal
    rw [if_pos same]
    exact ⟨t', rfl, moves plain⟩
  · rw [if_neg same]
    exact ⟨t₀, there₀, order.refl t₀⟩

theorem insertRow_added {written : String} {id : Option Int} {columns : Columns} {assigned : Int}
    (done : s.insertRow written id columns = .ok (assigned, s')) : Within Added table s s' := by
  obtain ⟨t, t', there, -, inserted, rfl⟩ := DB.insertRow_ok done
  exact Within.set added_order there fun _ => insert_added inserted

/-- An INSERT into a virtual table changes no plain one. -/
theorem insertRow_virtual (order : TableOrder R) {written : String} {id : Option Int} {columns : Columns} {assigned : Int}
    (virtual : columns.fits .plain = false) (done : s.insertRow written id columns = .ok (assigned, s')) :
    Within R table s s' := by
  obtain ⟨t, t', there, fits, -, rfl⟩ := DB.insertRow_ok done
  refine Within.set order there fun plain => ?_
  rw [plain, virtual] at fits
  cases fits

theorem deleteRow_thinned {written : String} {id : Int} {n : Nat} (done : s.deleteRow written id = .ok (n, s')) :
    Within Thinned table s s' := by
  obtain ⟨t, there, -, rfl⟩ := DB.deleteRow_ok done
  exact Within.set thinned_order (DB.docs_ok there) fun _ => delete_thinned t id

theorem deleteFullText_thinned {written : String} {id : Int} (done : s.deleteFullText written id = .ok s') :
    Within Thinned table s s' := by
  obtain ⟨t, there, -, rfl⟩ := DB.deleteFullText_ok done
  exact Within.set thinned_order there fun _ => delete_thinned t id

theorem insertDocumentBulkTx_added {coll : Collection} {i : Nat} {preparedItems : List Prepared} {ids : List Int}
    (done : insertDocumentBulkTx coll i preparedItems s = .ok (ids, s')) : Within Added table s s' := by
  refine insertDocumentBulkTx_induct (I := Within Added table s) ?_ (Within.refl added_order table s) done
  intro p _ s₁ finalID s₂ earlier inserted
  obtain ⟨s₃, stored, ⟨-, rfl⟩ | ⟨-, indexed⟩⟩ := insertPrepared_cases inserted
  · exact earlier.trans added_order (insertRow_added stored)
  · exact (earlier.trans added_order (insertRow_added stored)).trans added_order (insertRow_added indexed)

/-- The statements of updateDocument and deleteDocument. -/
def ThinningStmt {β : Type} : Stmt β → Prop
  | .deleteDocument .. => True
  | c => UpdateStmt c

theorem thinning_of_update {β : Type} (c : Stmt β) (update : UpdateStmt c) : ThinningStmt c := by
  cases c <;> first | exact update | trivial

/-- Neither assigns an id: on a vector collection updateDocument inserts again
    under the id that it has deleted, into another kind of table. -/
theorem exec_thinned {β : Type} {c : Stmt β} {b : β} (thinning : ThinningStmt c) (ran : c.exec h s = .ok (b, s')) :
    Within Thinned table s s' := by
  cases c with
  | read query =>
    simp only [Stmt.exec] at ran
    cases found : query h s with
    | error e => simp [found, Except.map] at ran
    | ok value =>
      simp only [found, Except.map, Except.ok.injEq, Prod.mk.injEq] at ran
      rw [← ran.2]
      exact Within.refl thinned_order table s
  | updateData written data id =>
    obtain ⟨t, there, -, rfl⟩ := DB.updateData_ok ran
    exact Within.set thinned_order (DB.docs_ok there) fun _ => setData_thinned t id data
  | updateDocument coll id text data serialized =>
    rcases updateDocumentTx_cases ran with ⟨-, rfl, -⟩ | ⟨-, -, n, s₁, s₂, s₃, deleted, inserted, removed, indexed⟩
    · exact Within.refl thinned_order table _
    · have first : Within Thinned table s s₁ := deleteRow_thinned deleted
      have second : Within Thinned table s s₂ := first.trans thinned_order (insertRow_virtual thinned_order rfl inserted)
      have third : Within Thinned table s s₃ := second.trans thinned_order (deleteFullText_thinned removed)
      exact third.trans thinned_order (insertRow_virtual thinned_order rfl indexed)
  | deleteDocument coll id =>
    rcases deleteDocumentTx_cases ran with ⟨-, rfl, -⟩ | ⟨-, -, n, s₁, deleted, ⟨-, rfl⟩ | ⟨-, removed⟩⟩
    · exact Within.refl thinned_order table _
    · exact deleteRow_thinned deleted
    · exact Within.trans thinned_order (deleteRow_thinned deleted) (deleteFullText_thinned removed)
  | insertRow _ _ _ => exact thinning.elim
  | createCollection _ _ _ _ => exact thinning.elim
  | renameCollection _ _ => exact thinning.elim
  | dropCollection _ _ => exact thinning.elim
  | insertDocumentBulk _ _ => exact thinning.elim

/-! ### The mark under the calls -/

/-- The calls on items. -/
def ItemCall : Call → Prop
  | .insertDocument .. | .insertDocumentBulk .. | .updateDocument .. | .deleteDocument .. => True
  | .createCollection .. | .renameCollection .. | .dropCollection .. => False

/-- A call on items adds to a plain table or takes from it, never both. -/
theorem step_moves {w : World} {call : Call × List Bool} (onItems : ItemCall call.1) :
    Within Added table w.db (w.step h call).db ∨ Within Thinned table w.db (w.step h call).db := by
  have unmoved : Within Added table w.db w.db := Within.refl added_order table w.db
  refine step_rule (I := fun w' => Within Added table w.db w'.db ∨ Within Thinned table w.db w'.db) (.inl unmoved) ?_
  have thins {α : Type} {op : Op α} (uses : op.Uses ThinningStmt) :
      (machine h).wp (fun _ s' => Within Added table w.db s' ∨ Within Thinned table w.db s') op w.db :=
    (machine h).wp_mono (fun _ _ moved => .inr moved) ((machine h).wp_of_uses
      (fun _ _ _ _ thinning moved ran => moved.trans thinned_order (exec_thinned thinning ran)) uses
      (Within.refl thinned_order table w.db))
  obtain ⟨call, faults⟩ := call
  cases call with
  | insertDocument name id text data =>
    intro coll _
    refine wp_insertDocument (fun _ => .inl unmoved) (fun _ _ _ _ inserted => .inl (insertRow_added inserted)) ?_
    intro _ _ vec _ assigned s' inserted
    refine ⟨fun _ => .inl (insertRow_added inserted), fun _ _ indexed => .inl ?_⟩
    exact Within.trans added_order (insertRow_added inserted) (insertRow_added indexed)
  | insertDocumentBulk name batch =>
    intro coll _
    exact wp_insertDocumentBulk (fun _ => .inl unmoved) fun _ _ _ _ _ inserted => .inl (insertDocumentBulkTx_added inserted)
  | updateDocument name id text data => exact fun coll _ => thins (updateDocument_uses thinning_of_update coll id text data)
  | deleteDocument name id => exact fun coll _ => thins (deleteDocument_uses thinning_of_update trivial)
  | createCollection _ _ _ _ => exact onItems.elim
  | renameCollection _ _ => exact onItems.elim
  | dropCollection _ => exact onItems.elim

/-- The ids that the items of a table have had, now or after an earlier call of the run. -/
def everHeld (h : Host) (w : World) (calls : List (Call × List Bool)) (table : String) : Set Int :=
  {id | ∃ earlier, earlier <+: calls ∧ ∃ row ∈ items (World.run h earlier w).db table, row.id = id}

variable {w : World} {calls : List (Call × List Bool)} {name : String}

theorem mem_everHeld_concat {call : Call × List Bool} {id : Int} :
    id ∈ everHeld h w (calls ++ [call]) table ↔
      (∃ row ∈ items (World.run h (calls ++ [call]) w).db table, row.id = id) ∨ id ∈ everHeld h w calls table := by
  unfold everHeld
  simp only [Set.mem_ofPred_eq, List.prefix_concat_iff, or_and_right, exists_or, exists_eq_left]

/-- The collection as createCollection leaves it and a run of calls on items finds it. -/
structure Marked (h : Host) (w : World) (calls : List (Call × List Bool)) (table : String) (t : Table) : Prop where
  there : (World.run h calls w).db.find table = some t
  plain : t.kind = .plain
  mark : IsGreatest (insert 0 (everHeld h w calls table)) t.seq

theorem Marked.items {t : Table} (marked : Marked h w calls table t) : items (World.run h calls w).db table = t.rows :=
  items_of_docs (DB.docs_of_find marked.there (.inl marked.plain))

theorem Marked.mem_everHeld {t : Table} (marked : Marked h w calls table t) {row : Row} (member : row ∈ t.rows) :
    row.id ∈ everHeld h w calls table := by
  rw [← marked.items] at member
  exact ⟨calls, List.prefix_refl calls, row, member, rfl⟩

theorem created_marked {dimensions : Int} {references : ReferenceMap} {s : DB}
    (created : createCollectionTx name false dimensions references s = .ok w.db) :
    Marked h w [] (newCollection name false dimensions).tableName (.empty .plain) := by
  have empty : items w.db (newCollection name false dimensions).tableName = [] := createCollectionTx_items created
  obtain ⟨-, -, -, s₁, made, equal⟩ := createCollectionTx_ok created
  obtain ⟨-, -, -, main, -⟩ := createTables_ok (c := newCollection name false dimensions) made
  refine ⟨by rw [World.run, List.foldl_nil, equal]; exact main, rfl, Set.mem_insert _ _, ?_⟩
  rintro id (rfl | ⟨earlier, before, row, member, -⟩)
  · exact le_refl _
  · rw [List.prefix_nil.mp before, World.run, List.foldl_nil, empty] at member
    cases member

theorem run_concat (call : Call × List Bool) : World.run h (calls ++ [call]) w = (World.run h calls w).step h call := by
  rw [World.run, List.foldl_concat]
  rfl

/-- One call on items keeps the mark at the largest id so far. -/
theorem step_marked {t : Table} {call : Call × List Bool} (marked : Marked h w calls table t) (onItems : ItemCall call.1) :
    ∃ t', Marked h w (calls ++ [call]) table t' := by
  have bound {id : Int} (held : id ∈ everHeld h w calls table) : id ≤ t.seq := marked.mark.2 (Set.mem_insert_of_mem _ held)
  have moves : Within Added table (World.run h calls w).db (World.run h (calls ++ [call]) w).db ∨
      Within Thinned table (World.run h calls w).db (World.run h (calls ++ [call]) w).db := by
    rw [run_concat]
    exact step_moves onItems
  rcases moves with added | thinned
  · obtain ⟨t', there, moved⟩ := added t marked.there marked.plain
    have plain : t'.kind = .plain := moved.kind.trans marked.plain
    have rows : items (World.run h (calls ++ [call]) w).db table = t'.rows := items_of_docs (DB.docs_of_find there (.inl plain))
    refine ⟨t', there, plain, ?_, ?_⟩
    · rcases moved.reached with same | ⟨row, member, top⟩
      · rw [same]
        rcases marked.mark.1 with zero | held
        · exact .inl zero
        · exact .inr (mem_everHeld_concat.mpr (.inr held))
      · exact .inr (mem_everHeld_concat.mpr (.inl ⟨row, by rwa [rows], top⟩))
    · rintro id (rfl | held)
      · exact (marked.mark.2 (Set.mem_insert _ _)).trans moved.rises
      · rcases mem_everHeld_concat.mp held with ⟨row, member, rfl⟩ | earlier
        · rw [rows] at member
          rcases moved.below row member with old | low
          · exact (bound (marked.mem_everHeld old)).trans moved.rises
          · exact low
        · exact (bound earlier).trans moved.rises
  · obtain ⟨t', there, moved⟩ := thinned t marked.there marked.plain
    have plain : t'.kind = .plain := moved.kind.trans marked.plain
    have rows : items (World.run h (calls ++ [call]) w).db table = t'.rows := items_of_docs (DB.docs_of_find there (.inl plain))
    have same : everHeld h w (calls ++ [call]) table = everHeld h w calls table := by
      ext id
      rw [mem_everHeld_concat, rows]
      refine or_iff_right_of_imp ?_
      rintro ⟨row, member, rfl⟩
      obtain ⟨old, stored, equal⟩ := moved.fewer row member
      rw [← equal]
      exact marked.mem_everHeld stored
    refine ⟨t', there, plain, ?_⟩
    rw [same, moved.mark]
    exact marked.mark

theorem run_marked {dimensions : Int} {references : ReferenceMap} {s : DB}
    (created : createCollectionTx name false dimensions references s = .ok w.db) (onItems : ∀ call ∈ calls, ItemCall call.1) :
    ∃ t, Marked h w calls (newCollection name false dimensions).tableName t := by
  induction calls using List.reverseRecOn with
  | nil => exact ⟨_, created_marked created⟩
  | append_singleton calls call ih =>
    obtain ⟨t, marked⟩ := ih fun call member => onItems call (List.mem_append_left _ member)
    exact step_marked marked (onItems call (List.mem_append_right _ (List.mem_singleton_self call)))

/-! ### The next id -/

/-- The INSERT without an id goes through exactly while the mark is not the last
    rowid, and takes the id after the mark. -/
theorem Marked.insertRow_iff {t : Table} (marked : Marked h w calls table t) (data : Json) {id : Int} :
    (∃ s', (World.run h calls w).db.insertRow table none (.data data) = .ok (id, s')) ↔ t.seq < maxRowid ∧ id = t.seq + 1 := by
  have largest : t.largest = t.seq := largest_eq fun row member => marked.mark.2 (.inr (marked.mem_everHeld member))
  have fits : (Columns.data data).fits t.kind = true := by
    rw [marked.plain]
    rfl
  unfold DB.insertRow
  rw [marked.there]
  simp only [fits, ↓reduceIte, Table.insert, largest]
  by_cases full : maxRowid ≤ t.seq
  · simp [full]
  · have room : t.seq < maxRowid := not_le.mp full
    simp [full, room, eq_comm]

/-- An insert without an id succeeds, under an id that no item of the collection
    has ever had, exactly when no item ever had the last rowid. -/
theorem automatic_id_iff {dimensions : Int} {references : ReferenceMap} {s : DB} {text : String} {data : Option Json}
    (created : createCollectionTx name false dimensions references s = .ok w.db) (onItems : ∀ call ∈ calls, ItemCall call.1)
    (valid : Accepts (World.run h calls w).db name data) :
    (∃ id s', (machine h).eval (insertDocument (newCollection name false dimensions) none text data) (World.run h calls w).db =
        (.ok id, s') ∧ id ∉ everHeld h w calls (newCollection name false dimensions).tableName) ↔
      ∀ id ∈ everHeld h w calls (newCollection name false dimensions).tableName, id < maxRowid := by
  obtain ⟨t, marked⟩ := run_marked (h := h) created onItems
  have bound (id : Int) (held : id ∈ everHeld h w calls (newCollection name false dimensions).tableName) : id ≤ t.seq :=
    marked.mark.2 (.inr held)
  have inserts (id : Int) : (∃ s', (machine h).eval (insertDocument (newCollection name false dimensions) none text data)
      (World.run h calls w).db = (.ok id, s')) ↔ t.seq < maxRowid ∧ id = t.seq + 1 := by
    rw [← marked.insertRow_iff (dataOrEmpty data)]
    refine exists_congr fun s' => ?_
    unfold insertDocument
    simp only [Prog.bind_eq, Machine.eval_bind_ok_iff, eval_validateReferences_ok_iff, newCollection, Bool.false_eq_true,
      ↓reduceIte, Machine.eval_call_ok_iff]
    constructor
    · rintro ⟨_, _, ⟨-, rfl⟩, inserted⟩
      exact inserted
    · exact fun inserted => ⟨(), _, ⟨valid, rfl⟩, inserted⟩
  constructor
  · rintro ⟨id, s', done, -⟩ other held
    exact (bound other held).trans_lt ((inserts id).mp ⟨s', done⟩).1
  · intro low
    have room : t.seq < maxRowid := by
      rcases marked.mark.1 with zero | held
      · rw [zero]
        decide
      · exact low _ held
    obtain ⟨s', done⟩ := (inserts (t.seq + 1)).mpr ⟨room, rfl⟩
    exact ⟨t.seq + 1, s', done, fun held => absurd (bound _ held) (by omega)⟩

/-- A new collection `t`. -/
def opened : World := World.start.step Host.uniform (.createCollection "t" false 0 ⟨[], List.nodup_nil⟩, [])

theorem opened_created : createCollectionTx "t" false 0 ⟨[], List.nodup_nil⟩ openVecDB = .ok opened.db := rfl

/-- Items under a negative id, under another one and under the id after it, which is deleted. -/
def mixed : List (Call × List Bool) :=
  [(.insertDocument "t" (some (-5)) "" none, []), (.insertDocumentBulk "t" [⟨some 10, "", none⟩, ⟨none, "", none⟩], []),
    (.deleteDocument "t" 11, [])]

theorem automatic_id_mixed :
    ∃ id s', (machine Host.uniform).eval (insertDocument (newCollection "t" false 0) none "" none)
        (World.run Host.uniform mixed opened).db = (.ok id, s') ∧
      id ∉ everHeld Host.uniform opened mixed (newCollection "t" false 0).tableName := by
  have low : ∀ earlier ∈ mixed.inits, ∀ row ∈ items (World.run Host.uniform earlier opened).db "coll_t", row.id < maxRowid := by
    decide
  refine (automatic_id_iff opened_created (by simp [mixed, ItemCall]) (.inl (by decide))).mpr ?_
  rintro id ⟨earlier, before, row, member, rfl⟩
  exact low earlier ((List.mem_inits _ _).mpr before) row member

/-- One item under the last rowid. -/
def exhausted : List (Call × List Bool) := [(.insertDocument "t" (some maxRowid) "" none, [])]

/-- After it no insert without an id goes through. -/
theorem automatic_id_refused :
    createCollectionTx "t" false 0 ⟨[], List.nodup_nil⟩ openVecDB = .ok opened.db ∧ (∀ call ∈ exhausted, ItemCall call.1) ∧
      Accepts (World.run Host.uniform exhausted opened).db "t" none ∧
      ((machine Host.uniform).eval (insertDocument (newCollection "t" false 0) none "" none)
        (World.run Host.uniform exhausted opened).db).1 =
          .error (.wrapped "inserting document" (.sqlite "database or disk is full")) :=
  ⟨opened_created, by simp [exhausted, ItemCall], .inl (by decide), by decide⟩

end Microserver.AutomaticIds
