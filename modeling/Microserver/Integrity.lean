import Microserver.Reads

/-!
Referential integrity. A `Duty` says that a field of the items of one collection
refers to items of certain collections; `Integral` says that all duties are met.
What a statement on items must not do to keep it is said once, for statements
that store rows and for statements that remove them.
-/
namespace Microserver.Integrity
open Microserver.Values Microserver.Store Microserver.Programs Microserver.Statements Microserver.Operations
open Microserver.Schema Microserver.Items Microserver.Reads

/-- A field of the items of `owner` holds ids of items of the collections in `target`. -/
structure Duty where
  owner : String
  field : String
  target : Collection → Prop

/-- Every item of every registered collection meets the duties of its collection. -/
def Integral (duties : List Duty) (s : DB) : Prop :=
  ∀ c ∈ s.collections, ∀ row ∈ items s c.tableName, ∀ d ∈ duties, d.owner = c.name →
    Resolves s d.target (row.data.field d.field)

/-- No item of a registered collection lists a field twice with different values. -/
def Unambiguous (s : DB) : Prop := ∀ c ∈ s.collections, ∀ row ∈ items s c.tableName, row.data.Unambiguous

/-- The data meets the duties of every collection whose items the table holds. -/
def Acceptable (duties : List Duty) (s : DB) (table : String) (data : Json) : Prop :=
  ∀ c ∈ s.collections, fold c.tableName = fold table → ∀ d ∈ duties, d.owner = c.name →
    Resolves s d.target (data.field d.field)

/-- No item but the one with this id in this table refers to it. -/
def Unreferenced (duties : List Duty) (s : DB) (table : String) (id : Int) : Prop :=
  ∀ c ∈ s.collections, ∀ row ∈ items s c.tableName, (fold c.tableName = fold table → row.id ≠ id) →
    ∀ d ∈ duties, d.owner = c.name → row.data.field d.field = some (.int id) →
      ∀ t ∈ s.collections, d.target t → fold t.tableName ≠ fold table

/-- A row of `collection_references` as a duty: its target is found by name. -/
def byName (s : DB) (r : ReferenceRow) : Duty :=
  ⟨r.collectionName, r.fieldName, fun c => s.lookup r.targetCollection = some c⟩

theorem Integral.acceptable {duties : List Duty} {s : DB} (integral : Integral duties s) {table : String} {row : Row}
    (member : row ∈ items s table) : Acceptable duties s table row.data := by
  intro c registered same d duty owner
  rw [← items_congr same] at member
  exact integral c registered row member d duty owner

theorem Resolves.carry {s s' : DB} {target : Collection → Prop} {value : Option Json} (resolves : Resolves s target value)
    (schema : SameSchema s s')
    (there : ∀ c ∈ s.collections, target c → ∀ n, value = some (.int n) →
      (∃ row ∈ items s c.tableName, row.id = n) → ∃ row ∈ items s' c.tableName, row.id = n) :
    Resolves s' target value := by
  rcases resolves with absent | isNull | ⟨n, int, c, registered, meets, found⟩
  · exact .inl absent
  · exact .inr (.inl isNull)
  · exact .inr (.inr ⟨n, int, c, by rw [schema.collections]; exact registered, meets,
      there c registered meets n int found⟩)

/-- A statement that stores acceptable rows and removes no id keeps the duties. -/
theorem Integral.stored {duties : List Duty} {s s' : DB} {table : String} {kept new : Row → Prop}
    (integral : Integral duties s) (wrote : Wrote s s' table kept new)
    (ids : ∀ row ∈ items s table, kept row ∨ ∃ row', new row' ∧ row'.id = row.id)
    (acceptable : ∀ row, new row → Acceptable duties s table row.data) : Integral duties s' := by
  have stays : ∀ other n, (∃ row ∈ items s other, row.id = n) → ∃ row ∈ items s' other, row.id = n := by
    rintro other n ⟨row, member, rfl⟩
    by_cases same : fold other = fold table
    · rw [items_congr same] at member ⊢
      rcases ids row member with keeps | ⟨row', fresh, equal⟩
      · exact ⟨row, (wrote.here row).mpr (.inl ⟨member, keeps⟩), rfl⟩
      · exact ⟨row', (wrote.here row').mpr (.inr fresh), equal⟩
    · rw [wrote.others other same]
      exact ⟨row, member, rfl⟩
  have carried : ∀ target value, Resolves s target value → Resolves s' target value :=
    fun target value resolves => Resolves.carry resolves wrote.schema fun c _ _ n _ found => stays c.tableName n found
  intro c registered row member d duty owner
  rw [wrote.schema.collections] at registered
  rcases wrote.origin member with ⟨old, -⟩ | ⟨same, fresh⟩
  · exact carried _ _ (integral c registered row old d duty owner)
  · exact carried _ _ (acceptable row fresh c registered same d duty owner)

/-- A statement that removes an item to which no other item refers keeps the duties. -/
theorem Integral.removed {duties : List Duty} {s s' : DB} {table : String} {id : Int} (integral : Integral duties s)
    (wrote : Wrote s s' table (fun row => row.id ≠ id) (fun _ => False)) (free : Unreferenced duties s table id) :
    Integral duties s' := by
  intro c registered row member d duty owner
  rw [wrote.schema.collections] at registered
  rcases wrote.origin member with ⟨old, stays⟩ | ⟨-, fresh⟩
  · refine Resolves.carry (integral c registered row old d duty owner) wrote.schema ?_
    rintro t registered' meets n int ⟨target, found, rfl⟩
    by_cases same : fold t.tableName = fold table
    · have different : target.id ≠ id := by
        intro equal
        rw [equal] at int
        have other : fold c.tableName = fold table → row.id ≠ id := by
          intro here
          rcases stays here with keeps | impossible
          · exact keeps
          · exact impossible.elim
        exact free c registered row old other d duty owner int t registered' meets same
      rw [items_congr same] at found ⊢
      exact ⟨target, (wrote.here target).mpr (.inl ⟨found, different⟩), rfl⟩
    · rw [wrote.others t.tableName same]
      exact ⟨target, found, rfl⟩
  · exact fresh.elim

/-! ### The statements on items -/

theorem Integral.insertRow {duties : List Duty} {s s' : DB} {table : String} {id : Option Int} {columns : Columns}
    {assigned : Int} (integral : Integral duties s) (done : s.insertRow table id columns = .ok (assigned, s'))
    (acceptable : (∀ text, columns ≠ .fullText text) → Acceptable duties s table (columns.row assigned).data) :
    Integral duties s' := by
  by_cases item : ∀ text, columns ≠ .fullText text
  · refine integral.stored (insertRow_wrote item done) (fun row _ => .inl trivial) ?_
    rintro row rfl
    exact acceptable item
  · obtain ⟨text, same⟩ : ∃ text, columns = .fullText text := by simpa using item
    subst same
    have wrote := insertFullText_wrote (Wrote.nothing s table) done
    exact integral.stored wrote (fun row _ => .inl trivial) (fun row impossible => impossible.elim)

theorem Integral.updateData {duties : List Duty} {s s' : DB} {table : String} {data : Json} {id : Int} {n : Nat}
    (integral : Integral duties s) (done : s.updateData table data id = .ok (n, s'))
    (acceptable : (∃ row ∈ items s table, row.id = id) → Acceptable duties s table data) : Integral duties s' := by
  refine integral.stored (updateData_wrote done) ?_ ?_
  · intro row member
    by_cases same : row.id = id
    · exact .inr ⟨{ row with data := data }, ⟨row, member, same, rfl⟩, rfl⟩
    · exact .inl same
  · rintro row ⟨old, member, same, rfl⟩
    exact acceptable ⟨old, member, same⟩

theorem Integral.insertDocumentBulk {duties : List Duty} {s s' : DB} {coll : Collection} {i : Nat}
    {preparedItems : List Prepared} {ids : List Int} (integral : Integral duties s)
    (done : insertDocumentBulkTx coll i preparedItems s = .ok (ids, s'))
    (acceptable : ∀ p ∈ preparedItems, Acceptable duties s coll.tableName p.data) : Integral duties s' := by
  obtain ⟨new, wrote, prepared⟩ := insertDocumentBulkTx_wrote done
  refine integral.stored wrote (fun row _ => .inl trivial) ?_
  intro row fresh
  obtain ⟨p, member, same⟩ := prepared row fresh
  have data : row.data = p.data := by
    rw [same]
    cases coll.hasVector <;> rfl
  rw [data]
  exact acceptable p member

theorem Integral.updateDocument {duties : List Duty} {s s' : DB} {coll : Collection} {id : Int} {text : String}
    {data : Json} {serialized : Vector32} {found : Bool} (integral : Integral duties s)
    (done : updateDocumentTx coll id text data serialized s = .ok (found, s'))
    (acceptable : (∃ row ∈ items s coll.tableName, row.id = id) → Acceptable duties s coll.tableName data) :
    Integral duties s' := by
  rcases updateDocumentTx_ok done with ⟨-, same, -⟩ | ⟨-, present, wrote⟩
  · rw [same]
    exact integral
  · refine integral.stored wrote ?_ ?_
    · intro row member
      by_cases same : row.id = id
      · exact .inr ⟨_, rfl, same.symm⟩
      · exact .inl same
    · rintro row rfl
      exact acceptable present

theorem Integral.deleteDocument {duties : List Duty} {s s' : DB} {coll : Collection} {id : Int} {found : Bool}
    (integral : Integral duties s) (done : deleteDocumentTx coll id s = .ok (found, s'))
    (free : (∃ row ∈ items s coll.tableName, row.id = id) → Unreferenced duties s coll.tableName id) :
    Integral duties s' := by
  rcases deleteDocumentTx_ok done with ⟨-, same, -⟩ | ⟨-, present, wrote⟩
  · rw [same]
    exact integral
  · exact integral.removed wrote (free present)

end Microserver.Integrity
