import Microserver.Schema

/-!
What the statements on items do to the items. `items` is what a table holds
that the operations treat as items; `Wrote` says, for one statement, which items
of one table stay and which are new, everything else being as it was.
-/
namespace Microserver.Items
open Microserver.Values Microserver.Store Microserver.Statements Microserver.Schema

/-- The items in a table; a table without the columns of items has none. -/
def items (s : DB) (table : String) : List Row :=
  match s.docs table with
  | .ok t => t.rows
  | .error _ => []

theorem items_of_docs {s : DB} {table : String} {t : Table} (there : s.docs table = .ok t) :
    items s table = t.rows := by
  simp [items, there]

theorem items_congr {s : DB} {table other : String} (same : fold table = fold other) :
    items s table = items s other := by
  have found : s.find table = s.find other := by unfold DB.find; rw [same]
  unfold items DB.docs
  rw [found]

theorem items_of_tables {s s' : DB} {table : String} (same : s'.tables (fold table) = s.tables (fold table)) :
    items s' table = items s table := by
  unfold items
  rw [DB.docs_congr same]

theorem docs_set_other {s : DB} {table other : String} {t : Table} (different : fold other ≠ fold table) :
    (s.set table t).docs other = s.docs other := by
  refine DB.docs_congr ?_
  rw [DB.find_set, if_neg different]

theorem items_set_other {s : DB} {table other : String} {t : Table} (different : fold other ≠ fold table) :
    items (s.set table t) other = items s other := by
  unfold items
  rw [docs_set_other different]

theorem docs_kind {s : DB} {table : String} {t : Table} (there : s.docs table = .ok t) :
    t.kind = .plain ∨ ∃ d, t.kind = .vec0 d := by
  have found := DB.docs_ok there
  unfold DB.docs at there
  simp only [found] at there
  cases kind : t.kind with
  | plain => exact .inl rfl
  | vec0 d => exact .inr ⟨d, rfl⟩
  | fts5 => simp [kind] at there
  | shadow => simp [kind] at there
  | system => simp [kind] at there

theorem docs_set_same {s : DB} {table other : String} {t t' : Table} (there : s.docs table = .ok t)
    (kind : t'.kind = t.kind) (same : fold other = fold table) : (s.set table t').docs other = .ok t' := by
  refine DB.docs_of_find ?_ (by rw [kind]; exact docs_kind there)
  rw [DB.find_set, if_pos same]

theorem items_set_same {s : DB} {table other : String} {t t' : Table} (there : s.docs table = .ok t)
    (kind : t'.kind = t.kind) (same : fold other = fold table) : items (s.set table t') other = t'.rows :=
  items_of_docs (docs_set_same there kind same)

/-- A full-text table holds no items, before and after it is written. -/
theorem docs_set_fullText {s : DB} {table : String} {t t' : Table} (there : s.find table = some t)
    (kind : t.kind = .fts5) (kind' : t'.kind = .fts5) (other : String) : (s.set table t').docs other = s.docs other := by
  by_cases same : fold other = fold table
  · have before : s.find other = some t := by
      rw [← there]
      unfold DB.find
      rw [same]
    have after : (s.set table t').find other = some t' := by rw [DB.find_set, if_pos same]
    unfold DB.docs
    simp only [before, after, kind, kind']
  · exact docs_set_other same

/-- One statement wrote the items of one table: of the old ones those in `kept`
    stay, and those in `new` are there now. -/
structure Wrote (s s' : DB) (table : String) (kept new : Row → Prop) : Prop where
  schema : SameSchema s s'
  others : ∀ other, fold other ≠ fold table → items s' other = items s other
  here : ∀ row, row ∈ items s' table ↔ row ∈ items s table ∧ kept row ∨ new row

theorem Wrote.nothing (s : DB) (table : String) : Wrote s s table (fun _ => True) (fun _ => False) :=
  ⟨SameSchema.refl s, fun _ _ => rfl, by simp⟩

/-- An item of any table after the statement was there before, or is new in the table written. -/
theorem Wrote.origin {s s' : DB} {table other : String} {kept new : Row → Prop} (wrote : Wrote s s' table kept new)
    {row : Row} (member : row ∈ items s' other) :
    row ∈ items s other ∧ (fold other = fold table → kept row ∨ new row) ∨ fold other = fold table ∧ new row := by
  by_cases same : fold other = fold table
  · rw [items_congr same] at member
    rcases (wrote.here row).mp member with ⟨old, keeps⟩ | fresh
    · exact .inl ⟨by rwa [items_congr same], fun _ => .inl keeps⟩
    · exact .inr ⟨same, fresh⟩
  · rw [wrote.others other same] at member
    exact .inl ⟨member, fun equal => absurd equal same⟩

/-- A statement on the full-text table writes no items. -/
theorem Wrote.then_fullText {s s' : DB} {table index : String} {kept new : Row → Prop} {t t' : Table}
    (wrote : Wrote s s' table kept new) (there : s'.find index = some t) (kind : t.kind = .fts5)
    (kind' : t'.kind = .fts5) : Wrote s (s'.set index t') table kept new := by
  have same : ∀ other, items (s'.set index t') other = items s' other := by
    intro other
    unfold items
    rw [docs_set_fullText there kind kind']
  refine ⟨wrote.schema.trans (SameSchema.set there (kind'.trans kind.symm)), ?_, ?_⟩
  · intro other different
    rw [same]
    exact wrote.others other different
  · intro row
    rw [same]
    exact wrote.here row

/-- A created collection has no items. -/
theorem createCollectionTx_items {s s' : DB} {name : String} {hasVector : Bool} {dimensions : Int}
    {references : ReferenceMap} (done : createCollectionTx name hasVector dimensions references s = .ok s') :
    items s' (newCollection name hasVector dimensions).tableName = [] := by
  obtain ⟨-, -, -, s₁, created, rfl⟩ := createCollectionTx_ok done
  obtain ⟨-, -, -, main, -⟩ := createTables_ok (c := newCollection name hasVector dimensions) created
  refine items_of_docs (DB.docs_of_find main ?_)
  unfold mainKind
  cases (newCollection name hasVector dimensions).hasVector with
  | false => exact .inl rfl
  | true => exact .inr ⟨_, rfl⟩

/-! ### The statements -/

theorem fits_items {columns : Columns} {kind : TableKind} (fits : columns.fits kind = true) :
    ((∃ text, columns = .fullText text) ∧ kind = .fts5) ∨ (kind = .plain ∨ ∃ d, kind = .vec0 d) := by
  cases columns with
  | data value =>
    cases kind with
    | plain => exact .inr (.inl rfl)
    | vec0 _ | fts5 | shadow | system => simp [Columns.fits] at fits
  | vector embedding text value =>
    cases kind with
    | vec0 d => exact .inr (.inr ⟨d, rfl⟩)
    | plain | fts5 | shadow | system => simp [Columns.fits] at fits
  | fullText text =>
    cases kind with
    | fts5 => exact .inl ⟨⟨text, rfl⟩, rfl⟩
    | plain | vec0 _ | shadow | system => simp [Columns.fits] at fits

/-- INSERT INTO the table of a collection. -/
theorem insertRow_wrote {s s' : DB} {table : String} {id : Option Int} {columns : Columns} {assigned : Int}
    (item : ∀ text, columns ≠ .fullText text) (done : s.insertRow table id columns = .ok (assigned, s')) :
    Wrote s s' table (fun _ => True) (fun row => row = columns.row assigned) := by
  obtain ⟨t, t', there, fits, inserted, rfl⟩ := DB.insertRow_ok done
  obtain ⟨kind, rows, -⟩ := Table.insert_ok inserted
  have holds : t.kind = .plain ∨ ∃ d, t.kind = .vec0 d := by
    rcases fits_items fits with ⟨⟨text, same⟩, -⟩ | holds
    · exact absurd same (item text)
    · exact holds
  have docs := DB.docs_of_find there holds
  refine ⟨SameSchema.set there kind, fun other different => items_set_other different, ?_⟩
  intro row
  rw [items_set_same docs kind rfl, items_of_docs docs, rows]
  simp

/-- INSERT INTO a full-text table. -/
theorem insertFullText_wrote {s₀ s s' : DB} {table index : String} {kept new : Row → Prop} {id : Option Int}
    {text : String} {assigned : Int} (wrote : Wrote s₀ s table kept new)
    (done : s.insertRow index id (.fullText text) = .ok (assigned, s')) : Wrote s₀ s' table kept new := by
  obtain ⟨t, t', there, fits, inserted, rfl⟩ := DB.insertRow_ok done
  have kind : t.kind = .fts5 := by
    cases kind : t.kind with
    | fts5 => rfl
    | plain | vec0 _ | shadow | system => simp [Columns.fits, kind] at fits
  exact wrote.then_fullText there kind ((Table.insert_ok inserted).1.trans kind)

theorem insertFullTextRow_ok {coll : Collection} {id : Int} {text : String} {s s' : DB}
    (done : insertFullTextRow coll id text s = .ok s') :
    ∃ assigned, s.insertRow (ftsTableName coll.tableName) (some id) (.fullText text) = .ok (assigned, s') := by
  unfold insertFullTextRow at done
  cases inserted : s.insertRow (ftsTableName coll.tableName) (some id) (.fullText text) with
  | error e => simp [inserted] at done
  | ok outcome =>
    simp only [inserted, Except.ok.injEq] at done
    exact ⟨outcome.1, by rw [← done]⟩

theorem deleteFullTextRow_ok {coll : Collection} {id : Int} {s s' : DB} (done : deleteFullTextRow coll id s = .ok s') :
    s.deleteFullText (ftsTableName coll.tableName) id = .ok s' := by
  unfold deleteFullTextRow at done
  cases deleted : s.deleteFullText (ftsTableName coll.tableName) id with
  | error e => simp [deleted, Except.mapError] at done
  | ok s₁ => simpa [deleted, Except.mapError] using done

/-- DELETE FROM a full-text table. -/
theorem deleteFullText_wrote {s₀ s s' : DB} {table index : String} {kept new : Row → Prop} {id : Int}
    (wrote : Wrote s₀ s table kept new) (done : s.deleteFullText index id = .ok s') : Wrote s₀ s' table kept new := by
  obtain ⟨t, there, kind, rfl⟩ := DB.deleteFullText_ok done
  exact wrote.then_fullText there kind kind

/-- An INSERT with an id reports that id. -/
theorem insertRow_given {s s' : DB} {table : String} {id assigned : Int} {columns : Columns}
    (done : s.insertRow table (some id) columns = .ok (assigned, s')) : assigned = id := by
  obtain ⟨t, t', -, -, stored, -⟩ := DB.insertRow_ok done
  exact (Table.insert_ok stored).2.2 id rfl

/-- DELETE FROM the table of a collection. -/
theorem deleteRow_wrote {s s' : DB} {table : String} {id : Int} {n : Nat} (done : s.deleteRow table id = .ok (n, s')) :
    Wrote s s' table (fun row => row.id ≠ id) (fun _ => False) := by
  obtain ⟨t, docs, -, rfl⟩ := DB.deleteRow_ok done
  refine ⟨SameSchema.set (DB.docs_ok docs) rfl, fun other different => items_set_other different, ?_⟩
  intro row
  rw [items_set_same docs (Table.delete_kind t id) rfl, items_of_docs docs]
  simp

/-- UPDATE of `data` in the table of a collection. -/
theorem updateData_wrote {s s' : DB} {table : String} {data : Json} {id : Int} {n : Nat}
    (done : s.updateData table data id = .ok (n, s')) :
    Wrote s s' table (fun row => row.id ≠ id)
      (fun row => ∃ old ∈ items s table, old.id = id ∧ row = { old with data := data }) := by
  obtain ⟨t, docs, -, rfl⟩ := DB.updateData_ok done
  refine ⟨SameSchema.set (DB.docs_ok docs) rfl, fun other different => items_set_other different, ?_⟩
  intro row
  rw [items_set_same docs (Table.setData_kind t id data) rfl, items_of_docs docs]
  simp only [Table.setData, List.mem_map]
  constructor
  · rintro ⟨old, member, rfl⟩
    by_cases same : old.id = id
    · rw [if_pos same]
      exact .inr ⟨old, member, same, rfl⟩
    · rw [if_neg same]
      exact .inl ⟨member, same⟩
  · rintro (⟨member, other⟩ | ⟨old, member, same, rfl⟩)
    · exact ⟨row, member, if_neg other⟩
    · exact ⟨old, member, if_pos same⟩

/-- A row that a bulk insert writes. -/
def PreparedRow (coll : Collection) (preparedItems : List Prepared) (row : Row) : Prop :=
  ∃ p ∈ preparedItems, row = (p.columns coll.hasVector).row row.id

theorem columns_item (p : Prepared) (hasVector : Bool) (text : String) : p.columns hasVector ≠ .fullText text := by
  cases hasVector <;> simp [Prepared.columns]

/-- Inversion of one item of the bulk transaction. -/
theorem insertPrepared_cases {coll : Collection} {p : Prepared} {s s' : DB} {finalID : Int}
    (done : insertPrepared coll p s = .ok (finalID, s')) :
    ∃ s₁, s.insertRow coll.tableName p.id (p.columns coll.hasVector) = .ok (finalID, s₁) ∧
      (coll.hasVector = false ∧ s' = s₁ ∨ coll.hasVector = true ∧
        s₁.insertRow (ftsTableName coll.tableName) (some finalID) (.fullText p.text) = .ok (finalID, s')) := by
  unfold insertPrepared at done
  cases inserted : s.insertRow coll.tableName p.id (p.columns coll.hasVector) with
  | error e => simp [inserted] at done
  | ok outcome =>
    obtain ⟨assigned, s₁⟩ := outcome
    simp only [inserted] at done
    cases vector : coll.hasVector with
    | false =>
      simp only [vector, Bool.false_eq_true, ↓reduceIte, Except.ok.injEq, Prod.mk.injEq] at done
      exact ⟨s₁, by rw [← done.1], .inl ⟨rfl, done.2.symm⟩⟩
    | true =>
      simp only [vector, ↓reduceIte] at done
      cases indexed : insertFullTextRow coll assigned p.text s₁ with
      | error e => simp [indexed, Except.map] at done
      | ok s₂ =>
        simp only [indexed, Except.map, Except.ok.injEq, Prod.mk.injEq] at done
        obtain ⟨again, stored⟩ := insertFullTextRow_ok indexed
        obtain rfl := insertRow_given stored
        rw [← done.1, ← done.2]
        exact ⟨s₁, rfl, .inr ⟨rfl, stored⟩⟩

theorem insertPrepared_wrote {coll : Collection} {p : Prepared} {s s' : DB} {finalID : Int}
    (done : insertPrepared coll p s = .ok (finalID, s')) :
    Wrote s s' coll.tableName (fun _ => True) (fun row => row = (p.columns coll.hasVector).row finalID) := by
  obtain ⟨s₁, inserted, ⟨-, rfl⟩ | ⟨-, indexed⟩⟩ := insertPrepared_cases done
  · exact insertRow_wrote (columns_item p coll.hasVector) inserted
  · exact insertFullText_wrote (insertRow_wrote (columns_item p coll.hasVector) inserted) indexed

/-- What every item of the bulk transaction keeps, the transaction keeps. -/
theorem insertDocumentBulkTx_induct {coll : Collection} {I : DB → Prop} {preparedItems : List Prepared}
    (keeps : ∀ p ∈ preparedItems, ∀ s finalID s', I s → insertPrepared coll p s = .ok (finalID, s') → I s') {i : Nat}
    {s s' : DB} {ids : List Int} (start : I s) (done : insertDocumentBulkTx coll i preparedItems s = .ok (ids, s')) :
    I s' := by
  induction preparedItems generalizing i s ids with
  | nil =>
    simp only [insertDocumentBulkTx, Except.ok.injEq, Prod.mk.injEq] at done
    rw [← done.2]
    exact start
  | cons p rest ih =>
    unfold insertDocumentBulkTx at done
    cases inserted : insertPrepared coll p s with
    | error e => simp [inserted] at done
    | ok outcome =>
      simp only [inserted] at done
      cases followed : insertDocumentBulkTx coll (i + 1) rest outcome.2 with
      | error e => simp [followed] at done
      | ok outcome' =>
        obtain ⟨ids', s₂⟩ := outcome'
        simp only [followed, Except.ok.injEq, Prod.mk.injEq] at done
        rw [done.2] at followed
        exact ih (fun q member => keeps q (List.mem_cons_of_mem p member))
          (keeps p List.mem_cons_self s _ _ start inserted) followed

/-- The transaction of insertDocumentBulk adds rows for its items and no others. -/
theorem insertDocumentBulkTx_wrote {coll : Collection} {i : Nat} {preparedItems : List Prepared} {s s' : DB}
    {ids : List Int} (done : insertDocumentBulkTx coll i preparedItems s = .ok (ids, s')) :
    ∃ new, Wrote s s' coll.tableName (fun _ => True) new ∧ ∀ row, new row → PreparedRow coll preparedItems row := by
  refine insertDocumentBulkTx_induct (I := fun s' => ∃ new, Wrote s s' coll.tableName (fun _ => True) new ∧
    ∀ row, new row → PreparedRow coll preparedItems row) ?_ ⟨_, Wrote.nothing s _, fun _ impossible => impossible.elim⟩ done
  rintro p member s₁ finalID s₂ ⟨new, first, fromItems⟩ inserted
  have second := insertPrepared_wrote inserted
  refine ⟨fun row => new row ∨ row = (p.columns coll.hasVector).row finalID, ⟨first.schema.trans second.schema, ?_, ?_⟩, ?_⟩
  · intro other different
    exact (second.others other different).trans (first.others other different)
  · intro row
    rw [second.here row, first.here row]
    simp [or_assoc]
  · rintro row (earlier | rfl)
    · exact fromItems row earlier
    · exact ⟨p, member, by simp⟩

/-! ### The transactions of updateDocument and deleteDocument -/

/-- DELETE reports no row exactly when there is none. -/
theorem deleteRow_count {s s' : DB} {table : String} {id : Int} {n : Nat} (done : s.deleteRow table id = .ok (n, s')) :
    (n = 0 ∧ ∀ row ∈ items s table, row.id ≠ id) ∨ (n ≠ 0 ∧ ∃ row ∈ items s table, row.id = id) := by
  obtain ⟨t, docs, rfl, -⟩ := DB.deleteRow_ok done
  rw [items_of_docs docs]
  by_cases none : t.rows.countP (fun r => r.id == id) = 0
  · refine .inl ⟨none, fun row member same => ?_⟩
    simpa [same] using List.countP_eq_zero.mp none row member
  · obtain ⟨row, member, same⟩ := List.countP_pos_iff.mp (Nat.pos_of_ne_zero none)
    exact .inr ⟨none, row, member, by simpa using same⟩

/-- Inversion of the transaction of updateDocument: it finds no row, or runs all
    four statements. -/
theorem updateDocumentTx_cases {coll : Collection} {id : Int} {text : String} {data : Json} {serialized : Vector32}
    {s s' : DB} {found : Bool} (done : updateDocumentTx coll id text data serialized s = .ok (found, s')) :
    (found = false ∧ s' = s ∧ ∀ row ∈ items s coll.tableName, row.id ≠ id) ∨
      (found = true ∧ (∃ row ∈ items s coll.tableName, row.id = id) ∧ ∃ n s₁ s₂ s₃,
        s.deleteRow coll.tableName id = .ok (n, s₁) ∧
        s₁.insertRow coll.tableName (some id) (.vector serialized text data) = .ok (id, s₂) ∧
        s₂.deleteFullText (ftsTableName coll.tableName) id = .ok s₃ ∧
        s₃.insertRow (ftsTableName coll.tableName) (some id) (.fullText text) = .ok (id, s')) := by
  unfold updateDocumentTx at done
  cases deleted : s.deleteRow coll.tableName id with
  | error e => simp [deleted, Except.mapError, bind, Except.bind] at done
  | ok outcome =>
    obtain ⟨n, s₁⟩ := outcome
    simp only [deleted, Except.mapError, bind, Except.bind, pure, Except.pure] at done
    rcases deleteRow_count deleted with ⟨none, absent⟩ | ⟨counted, present⟩
    · simp only [none, ↓reduceIte, Except.ok.injEq, Prod.mk.injEq] at done
      exact .inl ⟨done.1.symm, done.2.symm, absent⟩
    · simp only [counted, ↓reduceIte] at done
      cases inserted : s₁.insertRow coll.tableName (some id) (.vector serialized text data) with
      | error e => simp [inserted] at done
      | ok outcome' =>
        obtain ⟨assigned, s₂⟩ := outcome'
        simp only [inserted] at done
        obtain rfl := insertRow_given inserted
        cases removed : deleteFullTextRow coll assigned s₂ with
        | error e => simp [removed] at done
        | ok s₃ =>
          simp only [removed] at done
          cases indexed : insertFullTextRow coll assigned text s₃ with
          | error e => simp [indexed] at done
          | ok s₄ =>
            simp only [indexed, Except.ok.injEq, Prod.mk.injEq] at done
            obtain ⟨again, stored⟩ := insertFullTextRow_ok indexed
            obtain rfl := insertRow_given stored
            rw [← done.2]
            exact .inr ⟨done.1.symm, present, n, s₁, s₂, s₃, rfl, inserted, deleteFullTextRow_ok removed, stored⟩

/-- Inversion of the transaction of deleteDocument: it finds no row, or deletes
    it with its full-text row. -/
theorem deleteDocumentTx_cases {coll : Collection} {id : Int} {s s' : DB} {found : Bool}
    (done : deleteDocumentTx coll id s = .ok (found, s')) :
    (found = false ∧ s' = s ∧ ∀ row ∈ items s coll.tableName, row.id ≠ id) ∨
      (found = true ∧ (∃ row ∈ items s coll.tableName, row.id = id) ∧ ∃ n s₁,
        s.deleteRow coll.tableName id = .ok (n, s₁) ∧
        (coll.hasVector = false ∧ s' = s₁ ∨
          coll.hasVector = true ∧ s₁.deleteFullText (ftsTableName coll.tableName) id = .ok s')) := by
  unfold deleteDocumentTx at done
  cases deleted : s.deleteRow coll.tableName id with
  | error e => simp [deleted, Except.mapError, bind, Except.bind] at done
  | ok outcome =>
    obtain ⟨n, s₁⟩ := outcome
    simp only [deleted, Except.mapError, bind, Except.bind, pure, Except.pure] at done
    rcases deleteRow_count deleted with ⟨none, absent⟩ | ⟨counted, present⟩
    · simp only [none, ↓reduceIte, Except.ok.injEq, Prod.mk.injEq] at done
      exact .inl ⟨done.1.symm, done.2.symm, absent⟩
    · simp only [counted, ↓reduceIte] at done
      cases vector : coll.hasVector with
      | false =>
        simp only [vector, Bool.false_eq_true, ↓reduceIte, Except.ok.injEq, Prod.mk.injEq] at done
        exact .inr ⟨done.1.symm, present, n, s₁, rfl, .inl ⟨rfl, done.2.symm⟩⟩
      | true =>
        simp only [vector, ↓reduceIte] at done
        cases removed : deleteFullTextRow coll id s₁ with
        | error e => simp [removed] at done
        | ok s₂ =>
          simp only [removed, Except.ok.injEq, Prod.mk.injEq] at done
          rw [← done.2]
          exact .inr ⟨done.1.symm, present, n, s₁, rfl, .inr ⟨rfl, deleteFullTextRow_ok removed⟩⟩

/-- The transaction of updateDocument replaces the row, or finds none. -/
theorem updateDocumentTx_ok {coll : Collection} {id : Int} {text : String} {data : Json} {serialized : Vector32}
    {s s' : DB} {found : Bool} (done : updateDocumentTx coll id text data serialized s = .ok (found, s')) :
    (found = false ∧ s' = s ∧ ∀ row ∈ items s coll.tableName, row.id ≠ id) ∨
      (found = true ∧ (∃ row ∈ items s coll.tableName, row.id = id) ∧
        Wrote s s' coll.tableName (fun row => row.id ≠ id) (fun row => row = ⟨id, text, data, serialized⟩)) := by
  rcases updateDocumentTx_cases done with absent | ⟨yes, present, n, s₁, s₂, s₃, deleted, inserted, removed, indexed⟩
  · exact .inl absent
  · refine .inr ⟨yes, present, ?_⟩
    have first := deleteRow_wrote deleted
    have second := insertRow_wrote (by simp) inserted
    have both : Wrote s s₂ coll.tableName (fun row => row.id ≠ id) (fun row => row = ⟨id, text, data, serialized⟩) := by
      refine ⟨first.schema.trans second.schema, ?_, ?_⟩
      · intro other different
        exact (second.others other different).trans (first.others other different)
      · intro row
        rw [second.here row, first.here row]
        simp [Columns.row]
    exact insertFullText_wrote (deleteFullText_wrote both removed) indexed

/-- The transaction of deleteDocument removes the row, or finds none. -/
theorem deleteDocumentTx_ok {coll : Collection} {id : Int} {s s' : DB} {found : Bool}
    (done : deleteDocumentTx coll id s = .ok (found, s')) :
    (found = false ∧ s' = s ∧ ∀ row ∈ items s coll.tableName, row.id ≠ id) ∨
      (found = true ∧ (∃ row ∈ items s coll.tableName, row.id = id) ∧
        Wrote s s' coll.tableName (fun row => row.id ≠ id) (fun _ => False)) := by
  rcases deleteDocumentTx_cases done with absent | ⟨yes, present, n, s₁, deleted, ⟨-, rfl⟩ | ⟨-, removed⟩⟩
  · exact .inl absent
  · exact .inr ⟨yes, present, deleteRow_wrote deleted⟩
  · exact .inr ⟨yes, present, deleteFullText_wrote (deleteRow_wrote deleted) removed⟩

/-! ### All statements on items -/

/-- The statements that leave the catalog alone. -/
def ItemStmt {β : Type} : Stmt β → Prop
  | .createCollection .. => False
  | .renameCollection .. => False
  | .dropCollection .. => False
  | _ => True

theorem exec_sameSchema {h : Host} {β : Type} {c : Stmt β} {s s' : DB} {b : β} (item : ItemStmt c)
    (done : (machine h).exec c s = .ok (b, s')) : SameSchema s s' := by
  cases c with
  | read query =>
    have ran : (query h s).map (fun b => (b, s)) = .ok (b, s') := done
    cases result : query h s with
    | error e => simp [result, Except.map] at ran
    | ok v =>
      simp only [result, Except.map, Except.ok.injEq, Prod.mk.injEq] at ran
      rw [ran.2]
      exact SameSchema.refl s'
  | insertRow table id columns =>
    have inserted : s.insertRow table id columns = .ok (b, s') := done
    cases columns with
    | fullText text => exact (insertFullText_wrote (Wrote.nothing s table) inserted).schema
    | data data => exact (insertRow_wrote (by simp) inserted).schema
    | vector embedding text data => exact (insertRow_wrote (by simp) inserted).schema
  | updateData table data id =>
    have updated : s.updateData table data id = .ok (b, s') := done
    exact (updateData_wrote updated).schema
  | insertDocumentBulk coll preparedItems =>
    have inserted : insertDocumentBulkTx coll 0 preparedItems s = .ok (b, s') := done
    obtain ⟨new, wrote, -⟩ := insertDocumentBulkTx_wrote inserted
    exact wrote.schema
  | updateDocument coll id text data serialized =>
    have updated : updateDocumentTx coll id text data serialized s = .ok (b, s') := done
    rcases updateDocumentTx_ok updated with ⟨-, rfl, -⟩ | ⟨-, -, wrote⟩
    · exact SameSchema.refl s'
    · exact wrote.schema
  | deleteDocument coll id =>
    have deleted : deleteDocumentTx coll id s = .ok (b, s') := done
    rcases deleteDocumentTx_ok deleted with ⟨-, rfl, -⟩ | ⟨-, -, wrote⟩
    · exact SameSchema.refl s'
    · exact wrote.schema
  | createCollection _ _ _ _ | renameCollection _ _ | dropCollection _ _ => exact item.elim

end Microserver.Items
