import Microserver.Companion
import Microserver.Items

/-!
The main table of a vector collection and its full-text table, as a main store
and its index: what each write does to the pairs of id and text in both.
-/
namespace Microserver.FullTextIndex
open Microserver.Values Microserver.Store Microserver.Statements Microserver.Companion Microserver.Schema Microserver.Items

def pair (row : Row) : Int × String := (row.id, row.text)

/-- The (id, text) pairs in the main table. -/
def itemPairs (s : DB) (table : String) : Set (Int × String) := {p | p ∈ (items s table).map pair}

/-- The rows of the full-text table that belongs to a main table. -/
def indexRows (s : DB) (table : String) : List Row :=
  match s.find (ftsTableName table) with
  | some t => if t.kind = .fts5 then t.rows else []
  | none => []

/-- The (rowid, text) pairs in the full-text table. -/
def indexPairs (s : DB) (table : String) : Set (Int × String) := {p | p ∈ (indexRows s table).map pair}

/-- Every vector collection has the same pairs in both tables. -/
def InSync (s : DB) : Prop :=
  ∀ c ∈ s.collections, c.hasVector = true → itemPairs s c.tableName = indexPairs s c.tableName

instance (s : DB) (table : String) (p : Int × String) : Decidable (p ∈ indexPairs s table) :=
  inferInstanceAs (Decidable (p ∈ (indexRows s table).map pair))

instance (s : DB) (table : String) : Decidable (itemPairs s table = indexPairs s table) :=
  decidable_of_iff ((items s table).map pair ⊆ (indexRows s table).map pair ∧ (indexRows s table).map pair ⊆ (items s table).map pair)
    Set.Subset.antisymm_iff.symm

instance (s : DB) : Decidable (InSync s) := by
  unfold InSync
  exact inferInstance

/-- The main table is a vec0 table, and its full-text table is there. -/
structure VectorTables (s : DB) (table : String) : Prop where
  main : ∃ t d, s.find table = some t ∧ t.kind = .vec0 d
  index : ∃ u, s.find (ftsTableName table) = some u ∧ u.kind = .fts5

variable {s s' : DB} {table other index : String} {id assigned : Int} {text : String} {awaited : Set (Int × String)}

theorem VectorTables.sameSchema (tables : VectorTables s table) (same : SameSchema s s') : VectorTables s' table := by
  obtain ⟨⟨t, d, main, kind⟩, u, companion, kind'⟩ := tables
  obtain ⟨t', main', same'⟩ := same.find main
  obtain ⟨u', companion', same''⟩ := same.find companion
  exact ⟨⟨t', d, main', same'.trans kind⟩, u', companion', same''.trans kind'⟩

theorem VectorTables.of_sound (sound : Sound s) {c : Collection} (registered : c ∈ s.collections)
    (vector : c.hasVector = true) : VectorTables s c.tableName := by
  obtain ⟨t, main, kind⟩ := sound.main c registered
  refine ⟨⟨t, c.dimensions, main, ?_⟩, sound.fullText c registered vector⟩
  rw [kind, mainKind, if_pos vector]

theorem ftsTableName_injective (same : fold (ftsTableName table) = fold (ftsTableName other)) : fold table = fold other := by
  simp only [ftsTableName, fold_append] at same
  have lists := congrArg String.toList same
  rw [String.toList_append, String.toList_append] at lists
  exact String.toList_injective (List.append_cancel_right lists)

/-- An id has one text in the main table. -/
theorem itemPairs_single (s : DB) (table : String) : Set.InjOn Prod.fst (itemPairs s table) := by
  intro p left q right same
  obtain ⟨row, member, rfl⟩ := List.mem_map.mp left
  obtain ⟨row', member', rfl⟩ := List.mem_map.mp right
  cases docs : s.docs table with
  | error e => simp [items, docs] at member
  | ok t =>
    rw [items_of_docs docs] at member member'
    rw [List.inj_on_of_nodup_map t.key member member' same]

/-- An id has one text in the full-text table. -/
theorem indexPairs_single (s : DB) (table : String) : Set.InjOn Prod.fst (indexPairs s table) := by
  intro p left q right same
  obtain ⟨row, member, rfl⟩ := List.mem_map.mp left
  obtain ⟨row', member', rfl⟩ := List.mem_map.mp right
  unfold indexRows at member member'
  cases found : s.find (ftsTableName table) with
  | none => simp [found] at member
  | some t =>
    by_cases kind : t.kind = .fts5
    · simp only [found, kind, ↓reduceIte] at member member'
      rw [List.inj_on_of_nodup_map t.key member member' same]
    · simp [found, kind] at member

theorem itemPairs_congr (same : items s' other = items s table) : itemPairs s' other = itemPairs s table := by
  unfold itemPairs
  rw [same]

theorem holds_indexPairs : Holds (indexPairs s table) id ↔ ∃ row ∈ indexRows s table, row.id = id := by
  simp [Holds, indexPairs, pair]

/-! ### The main table -/

/-- What a write means for the pairs of its own table and of every other one. -/
theorem itemPairs_wrote {kept new : Row → Prop} (wrote : Wrote s s' table kept new)
    (change : Set (Int × String) → Set (Int × String))
    (here : ∀ p, (∃ row, (row ∈ items s table ∧ kept row ∨ new row) ∧ pair row = p) ↔ p ∈ change (itemPairs s table)) (other : String) :
    itemPairs s' other = if fold other = fold table then change (itemPairs s other) else itemPairs s other := by
  by_cases same : fold other = fold table
  · rw [if_pos same, itemPairs_congr (items_congr same), itemPairs_congr (s := s) (items_congr same)]
    ext p
    rw [← here p]
    simp only [itemPairs, Set.mem_ofPred_eq, List.mem_map, wrote.here]
  · rw [if_neg same, itemPairs_congr (wrote.others other same)]

/-- INSERT into a main table. -/
theorem itemPairs_insertRow {given : Option Int} {columns : Columns} (item : ∀ text, columns ≠ .fullText text)
    (done : s.insertRow table given columns = .ok (assigned, s')) (other : String) :
    itemPairs s' other =
      if fold other = fold table then insert (pair (columns.row assigned)) (itemPairs s other) else itemPairs s other := by
  refine itemPairs_wrote (insertRow_wrote item done) (insert (pair (columns.row assigned))) ?_ other
  intro p
  simp only [and_true, or_and_right, exists_or, exists_eq_left, Set.mem_insert_iff, itemPairs, Set.mem_ofPred_eq, List.mem_map]
  rw [or_comm, eq_comm]

/-- DELETE from a main table. -/
theorem itemPairs_deleteRow {n : Nat} (done : s.deleteRow table id = .ok (n, s')) (other : String) :
    itemPairs s' other = if fold other = fold table then forget (itemPairs s other) id else itemPairs s other := by
  refine itemPairs_wrote (deleteRow_wrote done) (forget · id) ?_ other
  intro p
  simp only [or_false, forget, itemPairs, Set.mem_ofPred_eq, List.mem_map]
  constructor
  · rintro ⟨row, ⟨member, different⟩, rfl⟩
    exact ⟨⟨row, member, rfl⟩, different⟩
  · rintro ⟨⟨row, member, rfl⟩, different⟩
    exact ⟨row, ⟨member, different⟩, rfl⟩

/-- UPDATE of `data` leaves the texts. -/
theorem itemPairs_updateData {data : Json} {n : Nat} (done : s.updateData table data id = .ok (n, s')) (other : String) :
    itemPairs s' other = itemPairs s other := by
  have wrote := itemPairs_wrote (updateData_wrote done) (fun pairs => pairs) ?_ other
  · rwa [ite_self] at wrote
  · intro p
    simp only [itemPairs, Set.mem_ofPred_eq, List.mem_map]
    constructor
    · rintro ⟨row, ⟨member, -⟩ | ⟨old, member, -, rfl⟩, rfl⟩
      · exact ⟨row, member, rfl⟩
      · exact ⟨old, member, rfl⟩
    · rintro ⟨row, member, rfl⟩
      by_cases same : row.id = id
      · exact ⟨{ row with data := data }, .inr ⟨row, member, same, rfl⟩, rfl⟩
      · exact ⟨row, .inl ⟨member, same⟩, rfl⟩

/-- A table that is no full-text table is written without touching an index. -/
theorem indexRows_set {t t' : Table} (there : s.find table = some t) (kind : t'.kind = t.kind) (main : t.kind ≠ .fts5)
    (other : String) : indexRows (s.set table t') other = indexRows s other := by
  unfold indexRows
  rw [DB.find_set]
  by_cases same : fold (ftsTableName other) = fold table
  · have before : s.find (ftsTableName other) = some t := by
      rw [← there]
      unfold DB.find
      rw [same]
    simp only [same, ↓reduceIte, before, kind, main]
  · rw [if_neg same]

theorem docs_kind_ne {t : Table} (docs : s.docs table = .ok t) : t.kind ≠ .fts5 := by
  rcases docs_kind docs with plain | ⟨d, vector⟩
  · simp [plain]
  · simp [vector]

theorem indexPairs_insertRow {given : Option Int} {columns : Columns} (item : ∀ text, columns ≠ .fullText text)
    (done : s.insertRow table given columns = .ok (assigned, s')) (other : String) :
    indexPairs s' other = indexPairs s other := by
  obtain ⟨t, t', there, fits, inserted, rfl⟩ := DB.insertRow_ok done
  have main : t.kind ≠ .fts5 := by
    rcases fits_items fits with ⟨⟨text, same⟩, -⟩ | plain | ⟨d, vector⟩
    · exact absurd same (item text)
    · simp [plain]
    · simp [vector]
  unfold indexPairs
  rw [indexRows_set there (Table.insert_ok inserted).1 main]

theorem indexPairs_deleteRow {n : Nat} (done : s.deleteRow table id = .ok (n, s')) (other : String) :
    indexPairs s' other = indexPairs s other := by
  obtain ⟨t, docs, -, rfl⟩ := DB.deleteRow_ok done
  unfold indexPairs
  rw [indexRows_set (DB.docs_ok docs) (Table.delete_kind t id) (docs_kind_ne docs)]

theorem indexPairs_updateData {data : Json} {n : Nat} (done : s.updateData table data id = .ok (n, s')) (other : String) :
    indexPairs s' other = indexPairs s other := by
  obtain ⟨t, docs, -, rfl⟩ := DB.updateData_ok done
  unfold indexPairs
  rw [indexRows_set (DB.docs_ok docs) (Table.setData_kind t id data) (docs_kind_ne docs)]

/-! ### The full-text table -/

theorem itemPairs_insertFullText {given : Option Int} (done : s.insertRow index given (.fullText text) = .ok (assigned, s'))
    (other : String) : itemPairs s' other = itemPairs s other := by
  have wrote := itemPairs_wrote (insertFullText_wrote (Wrote.nothing s index) done) (fun pairs => pairs) (by simp [itemPairs]) other
  rwa [ite_self] at wrote

theorem itemPairs_deleteFullText (done : s.deleteFullText index id = .ok s') (other : String) :
    itemPairs s' other = itemPairs s other := by
  have wrote := itemPairs_wrote (deleteFullText_wrote (Wrote.nothing s index) done) (fun pairs => pairs) (by simp [itemPairs]) other
  rwa [ite_self] at wrote

theorem indexRows_set_fullText {t : Table} (kind : t.kind = .fts5) (other : String) :
    indexRows (s.set index t) other = if fold (ftsTableName other) = fold index then t.rows else indexRows s other := by
  unfold indexRows
  rw [DB.find_set]
  by_cases same : fold (ftsTableName other) = fold index
  · simp only [same, ↓reduceIte, kind]
  · simp only [same, ↓reduceIte]

theorem indexRows_of_find {t : Table} (there : s.find index = some t) (kind : t.kind = .fts5)
    (same : fold (ftsTableName other) = fold index) : indexRows s other = t.rows := by
  have found : s.find (ftsTableName other) = some t := by
    rw [← there]
    unfold DB.find
    rw [same]
  unfold indexRows
  simp only [found, kind, ↓reduceIte]

/-- INSERT into a full-text table, of an id that it does not have yet. -/
theorem indexPairs_insertFullText (done : s.insertRow index (some id) (.fullText text) = .ok (assigned, s')) (other : String) :
    (fold (ftsTableName other) = fold index → ¬ Holds (indexPairs s other) id) ∧
      indexPairs s' other =
        if fold (ftsTableName other) = fold index then insert (id, text) (indexPairs s other) else indexPairs s other := by
  obtain rfl := insertRow_given done
  obtain ⟨t, t', there, fits, inserted, rfl⟩ := DB.insertRow_ok done
  obtain ⟨kind, rows, -⟩ := Table.insert_ok inserted
  have index₅ : t.kind = .fts5 := by
    rcases fits_items fits with ⟨-, index₅⟩ | plain | ⟨d, vector⟩
    · exact index₅
    · simp [plain, Columns.fits] at fits
    · simp [vector, Columns.fits] at fits
  constructor
  · intro same
    rw [holds_indexPairs, indexRows_of_find there index₅ same]
    rintro ⟨row, member, taken⟩
    exact Table.insert_fresh inserted row member taken
  · unfold indexPairs
    rw [indexRows_set_fullText (kind.trans index₅)]
    by_cases same : fold (ftsTableName other) = fold index
    · rw [if_pos same, if_pos same, indexRows_of_find there index₅ same, rows]
      ext p
      simp only [Columns.row, List.map_append, List.map_cons, List.map_nil, List.mem_append, List.mem_singleton, pair,
        Set.mem_ofPred_eq, Set.mem_insert_iff]
      exact or_comm
    · rw [if_neg same, if_neg same]

/-- An INSERT that a full-text table refuses meets a row with the id. -/
theorem insertFullText_refused {e : Err} (companion : ∃ u, s.find (ftsTableName table) = some u ∧ u.kind = .fts5)
    (same : fold index = fold (ftsTableName table)) (refused : s.insertRow index (some id) (.fullText text) = .error e) :
    Holds (indexPairs s table) id := by
  obtain ⟨u, there, kind⟩ := companion
  have found : s.find index = some u := by
    rw [← there]
    unfold DB.find
    rw [same]
  rw [holds_indexPairs, indexRows_of_find found kind same.symm, ← Table.has_iff]
  by_contra absent
  simp [DB.insertRow, found, kind, Columns.fits, Table.insert, absent] at refused

/-- DELETE from a full-text table. -/
theorem indexPairs_deleteFullText (done : s.deleteFullText index id = .ok s') (other : String) :
    indexPairs s' other =
      if fold (ftsTableName other) = fold index then forget (indexPairs s other) id else indexPairs s other := by
  obtain ⟨t, there, kind, rfl⟩ := DB.deleteFullText_ok done
  unfold indexPairs
  rw [indexRows_set_fullText ((Table.delete_kind t id).trans kind)]
  by_cases same : fold (ftsTableName other) = fold index
  · rw [if_pos same, if_pos same, indexRows_of_find there kind same]
    ext p
    simp only [Table.delete, forget, Set.mem_ofPred_eq, List.mem_map, List.mem_filter, bne_iff_ne]
    constructor
    · rintro ⟨row, ⟨member, different⟩, rfl⟩
      exact ⟨⟨row, member, rfl⟩, different⟩
    · rintro ⟨⟨row, member, rfl⟩, different⟩
      exact ⟨row, ⟨member, different⟩, rfl⟩
  · rw [if_neg same, if_neg same]

/-! ### The write transactions -/

/-- The full-text table follows the main table but for what is awaited. -/
abbrev Follows (s : DB) (table : String) (awaited : Set (Int × String)) : Prop :=
  Tracks (itemPairs s table) (indexPairs s table) awaited

theorem Follows.congr (follows : Follows s table awaited) (main : itemPairs s' table = itemPairs s table)
    (companion : indexPairs s' table = indexPairs s table) : Follows s' table awaited := by
  unfold Follows
  rw [main, companion]
  exact follows

/-- A main table of vectors takes no other columns. -/
theorem VectorTables.columns {given : Option Int} {columns : Columns} (tables : VectorTables s other)
    (same : fold other = fold table) (done : s.insertRow table given columns = .ok (assigned, s')) :
    ∃ embedding text data, columns = .vector embedding text data := by
  obtain ⟨t, -, there, fits, -, -⟩ := DB.insertRow_ok done
  obtain ⟨t', d, there', kind⟩ := tables.main
  have equal : some t = some t' := by
    rw [← there, ← there']
    unfold DB.find
    rw [same]
  cases equal
  rw [kind] at fits
  cases columns with
  | data value => cases fits
  | fullText text => cases fits
  | vector embedding text value => exact ⟨embedding, text, value, rfl⟩

theorem insertPrepared_follows {coll : Collection} {p : Prepared} (tables : VectorTables s other)
    (follows : Follows s other awaited) (done : insertPrepared coll p s = .ok (id, s')) : Follows s' other awaited := by
  obtain ⟨s₁, inserted, rest⟩ := insertPrepared_cases done
  have item := columns_item p coll.hasVector
  have main := itemPairs_insertRow item inserted other
  have companion := indexPairs_insertRow item inserted other
  by_cases same : fold other = fold coll.tableName
  · obtain ⟨embedding, text, data, columns⟩ := tables.columns same inserted
    rcases rest with ⟨plain, -⟩ | ⟨vector, indexed⟩
    · simp [Prepared.columns, plain] at columns
    · have written := itemPairs_insertFullText indexed other
      have copied := (indexPairs_insertFullText indexed other).2
      rw [if_pos same] at main
      rw [if_pos (ftsTableName_congr same)] at copied
      unfold Follows
      rw [written, main, copied, companion]
      simpa [vector, Prepared.columns, Columns.row, pair] using follows.both (id, p.text)
  · rw [if_neg same] at main
    rcases rest with ⟨-, rfl⟩ | ⟨-, indexed⟩
    · exact follows.congr main companion
    · have copied := (indexPairs_insertFullText indexed other).2
      rw [if_neg fun equal => same (ftsTableName_injective equal)] at copied
      exact follows.congr ((itemPairs_insertFullText indexed other).trans main) (copied.trans companion)

theorem insertDocumentBulkTx_follows {coll : Collection} {i : Nat} {preparedItems : List Prepared} {ids : List Int}
    (tables : VectorTables s other) (follows : Follows s other awaited)
    (done : insertDocumentBulkTx coll i preparedItems s = .ok (ids, s')) : Follows s' other awaited := by
  have both : VectorTables s' other ∧ Follows s' other awaited := by
    refine insertDocumentBulkTx_induct (I := fun s => VectorTables s other ∧ Follows s other awaited) ?_ ⟨tables, follows⟩ done
    rintro p - s₁ finalID s₂ ⟨tables, follows⟩ inserted
    exact ⟨tables.sameSchema (insertPrepared_wrote inserted).schema, insertPrepared_follows tables follows inserted⟩
  exact both.2

theorem updateDocumentTx_follows {coll : Collection} {data : Json} {serialized : Vector32} {found : Bool}
    (follows : Follows s other awaited) (done : updateDocumentTx coll id text data serialized s = .ok (found, s')) :
    Follows s' other awaited := by
  rcases updateDocumentTx_cases done with ⟨-, rfl, -⟩ | ⟨-, -, n, s₁, s₂, s₃, deleted, inserted, removed, indexed⟩
  · exact follows
  · have main : itemPairs s' other = if fold other = fold coll.tableName then
        insert (id, text) (forget (itemPairs s other) id) else itemPairs s other := by
      rw [itemPairs_insertFullText indexed, itemPairs_deleteFullText removed, itemPairs_insertRow (by simp) inserted,
        itemPairs_deleteRow deleted]
      split <;> rfl
    have companion : indexPairs s' other = if fold (ftsTableName other) = fold (ftsTableName coll.tableName) then
        insert (id, text) (forget (indexPairs s other) id) else indexPairs s other := by
      rw [(indexPairs_insertFullText indexed other).2, indexPairs_deleteFullText removed,
        indexPairs_insertRow (by simp) inserted, indexPairs_deleteRow deleted]
      split <;> rfl
    by_cases same : fold other = fold coll.tableName
    · rw [if_pos same] at main
      rw [if_pos (ftsTableName_congr same)] at companion
      unfold Follows
      rw [main, companion]
      exact follows.replace (id, text)
    · rw [if_neg same] at main
      rw [if_neg fun equal => same (ftsTableName_injective equal)] at companion
      exact follows.congr main companion

theorem deleteDocumentTx_follows {coll : Collection} {found : Bool} (follows : Follows s other awaited)
    (own : fold other = fold coll.tableName → coll.hasVector = true)
    (quiet : fold other = fold coll.tableName → ¬ Holds awaited id)
    (done : deleteDocumentTx coll id s = .ok (found, s')) : Follows s' other awaited := by
  rcases deleteDocumentTx_cases done with ⟨-, rfl, -⟩ | ⟨-, -, n, s₁, deleted, rest⟩
  · exact follows
  · have main := itemPairs_deleteRow deleted other
    have companion := indexPairs_deleteRow deleted other
    by_cases same : fold other = fold coll.tableName
    · rw [if_pos same] at main
      rcases rest with ⟨plain, -⟩ | ⟨-, removed⟩
      · rw [own same] at plain
        cases plain
      · have forgotten := indexPairs_deleteFullText removed other
        rw [if_pos (ftsTableName_congr same)] at forgotten
        unfold Follows
        rw [itemPairs_deleteFullText removed, main, forgotten, companion]
        exact follows.remove (quiet same)
    · rw [if_neg same] at main
      rcases rest with ⟨-, rfl⟩ | ⟨-, removed⟩
      · exact follows.congr main companion
      · have forgotten := indexPairs_deleteFullText removed other
        rw [if_neg fun equal => same (ftsTableName_injective equal)] at forgotten
        exact follows.congr ((itemPairs_deleteFullText removed other).trans main) (forgotten.trans companion)

end Microserver.FullTextIndex
