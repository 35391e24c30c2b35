import Microserver.Store
import Microserver.Programs

/-!
What the program sends to the database in one atomic piece: a read, a single
write statement, or one of the six write transactions. A piece that is refused
leaves the database as it was.
-/
namespace Microserver.Statements
open Microserver.Values Microserver.Store Microserver.Programs

def onDeleteRestrict : String := "restrict"
def onDeleteSetNull : String := "set_null"

/-- A request to declare a reference field. -/
structure ReferenceSpec where
  collection : String
  onDelete : String

/-- The `references` map of a request, in the order in which it is ranged over. -/
structure ReferenceMap where
  entries : List (String × ReferenceSpec)
  distinct : (entries.map (·.1)).Nodup

/-- One item of a bulk insert once it is validated and embedded. -/
structure Prepared where
  id : Option Int
  text : String
  data : Json
  serialized : Vector32

/-- The default of `on_delete`. -/
def ReferenceSpec.onDeleteOrDefault (ref : ReferenceSpec) : String :=
  if ref.onDelete = "" then onDeleteRestrict else ref.onDelete

/-- The row that declares a reference. -/
def referenceRow (name field : String) (ref : ReferenceSpec) : ReferenceRow :=
  ⟨name, field, ref.collection, ref.onDeleteOrDefault⟩

def quote (s : String) : String := s.quote

/-- INSERT INTO collection_references; its key is the owner with the field. -/
def insertReference (r : ReferenceRow) (s : DB) : Except Err DB :=
  if s.references.any (fun q => q.collectionName = r.collectionName ∧ q.fieldName = r.fieldName) then
    .error (.sqlite "UNIQUE constraint failed: collection_references.collection_name, collection_references.field_name")
  else .ok { s with references := s.references ++ [r] }

def insertReferences (name : String) : List (String × ReferenceSpec) → DB → Except Err DB
  | [], s => .ok s
  | (field, ref) :: rest, s =>
    match insertReference (referenceRow name field ref) s with
    | .error e => .error (.wrapped ("registering reference " ++ quote field) e)
    | .ok s' => insertReferences name rest s'

/-- INSERT INTO collections. -/
def insertCollection (c : Collection) (s : DB) : Except Err DB :=
  if s.registered c.name then .error (.sqlite "UNIQUE constraint failed: collections.name")
  else .ok { s with collections := s.collections ++ [c] }

/-- CREATE for the table of a collection, with its full-text index. -/
def createTables (tableName : String) (hasVector : Bool) (dimensions : Int) (s : DB) : Except Err DB :=
  if hasVector then do
    let s₁ ← (s.createTable tableName (.vec0 dimensions)).mapError (.wrapped "creating collection table")
    (s₁.createTable (ftsTableName tableName) .fts5).mapError (.wrapped "creating full-text index")
  else (s.createTable tableName .plain).mapError (.wrapped "creating collection table")

/-- The transaction of createCollection. -/
def createCollectionTx (name : String) (hasVector : Bool) (dimensions : Int) (references : ReferenceMap)
    (s : DB) : Except Err DB :=
  if s.registered name then .error .collectionExists
  else
    match references.entries.find? (fun entry => !s.registered entry.2.collection) with
    | some entry => .error (.errorf ("reference target collection " ++ quote entry.2.collection ++
        " does not exist (create it first)"))
    | none => do
      let tableName := "coll_" ++ name
      let s₁ ← createTables tableName hasVector dimensions s
      let s₂ ← (insertCollection ⟨name, tableName, hasVector, if hasVector then dimensions else 0⟩ s₁).mapError
        (.wrapped "registering collection")
      insertReferences name references.entries s₂

/-- `old` renamed to `new`. -/
def relabel (old new name : String) : String := if name = old then new else name

/-- UPDATE collections SET name = new WHERE name = old. -/
def renameCollections (old new : String) (s : DB) : DB :=
  { s with collections := s.collections.map (fun c => { c with name := relabel old new c.name }) }

/-- UPDATE collection_references SET collection_name = new WHERE collection_name = old:
    refused when a renamed row meets one that already has its key. -/
def renameOwners (old new : String) (s : DB) : Except Err DB :=
  if old ≠ new ∧ ∃ q ∈ s.references, ∃ r ∈ s.references,
      q.collectionName = old ∧ r.collectionName = new ∧ q.fieldName = r.fieldName then
    .error (.sqlite "UNIQUE constraint failed: collection_references.collection_name, collection_references.field_name")
  else .ok { s with references := s.references.map (fun r => { r with collectionName := relabel old new r.collectionName }) }

/-- UPDATE collection_references SET target_collection = new WHERE target_collection = old. -/
def renameTargets (old new : String) (s : DB) : DB :=
  { s with references := s.references.map (fun r => { r with targetCollection := relabel old new r.targetCollection }) }

/-- The transaction of renameCollection. -/
def renameCollectionTx (oldName newName : String) (s : DB) : Except Err DB :=
  if s.registered oldName = false then .error .collectionNotFound
  else if oldName ≠ newName ∧ s.registered newName = true then .error .collectionExists
  else do
    let s₁ ← (renameOwners oldName newName (renameCollections oldName newName s)).mapError
      (.wrapped "updating owned references")
    return renameTargets oldName newName s₁

/-- The transaction of dropCollection, for the registry row read before it. -/
def dropCollectionTx (coll : Collection) (name : String) (s : DB) : Except Err DB := do
  let s₁ ← (s.dropTable coll.tableName).mapError (.wrapped "dropping collection table")
  let s₂ ← if coll.hasVector then
      (s₁.dropTable (ftsTableName coll.tableName)).mapError (.wrapped "dropping full-text index")
    else .ok s₁
  return { s₂ with collections := s₂.collections.filter (fun c => c.name ≠ name) }

/-- INSERT INTO the full-text table, under the id of the item. -/
def insertFullTextRow (coll : Collection) (id : Int) (text : String) (s : DB) : Except Err DB :=
  match s.insertRow (ftsTableName coll.tableName) (some id) (.fullText text) with
  | .error e => .error (.wrapped "indexing text for full-text search" e)
  | .ok (_, s') => .ok s'

def deleteFullTextRow (coll : Collection) (id : Int) (s : DB) : Except Err DB :=
  (s.deleteFullText (ftsTableName coll.tableName) id).mapError (.wrapped "removing text from full-text index")

/-- The columns of an item of a collection. -/
def Prepared.columns (p : Prepared) (hasVector : Bool) : Columns :=
  if hasVector then .vector p.serialized p.text p.data else .data p.data

/-- One item of the bulk transaction. -/
def insertPrepared (coll : Collection) (p : Prepared) (s : DB) : Except Err (Int × DB) :=
  match s.insertRow coll.tableName p.id (p.columns coll.hasVector) with
  | .error e => .error (.wrapped "inserting document" e)
  | .ok (finalID, s₁) =>
    if coll.hasVector then (insertFullTextRow coll finalID p.text s₁).map (fun s₂ => (finalID, s₂))
    else .ok (finalID, s₁)

/-- The transaction of insertDocumentBulk; `i` is the position of the first item. -/
def insertDocumentBulkTx (coll : Collection) : Nat → List Prepared → DB → Except Err (List Int × DB)
  | _, [], s => .ok ([], s)
  | i, p :: rest, s =>
    match insertPrepared coll p s with
    | .error e => .error (.wrapped ("item " ++ toString i) e)
    | .ok (finalID, s₁) =>
      match insertDocumentBulkTx coll (i + 1) rest s₁ with
      | .error e => .error e
      | .ok (ids, s₂) => .ok (finalID :: ids, s₂)

/-- The transaction of updateDocument on a collection with vectors. It ends
    without a commit when no row has the id. -/
def updateDocumentTx (coll : Collection) (id : Int) (text : String) (data : Json) (serialized : Vector32)
    (s : DB) : Except Err (Bool × DB) := do
  let (n, s₁) ← (s.deleteRow coll.tableName id).mapError (.wrapped "updating document (delete step)")
  if n = 0 then return (false, s)
  else
    let (_, s₂) ← (s₁.insertRow coll.tableName (some id) (.vector serialized text data)).mapError
      (.wrapped "updating document (insert step)")
    let s₃ ← deleteFullTextRow coll id s₂
    let s₄ ← insertFullTextRow coll id text s₃
    return (true, s₄)

/-- The transaction of deleteDocument. -/
def deleteDocumentTx (coll : Collection) (id : Int) (s : DB) : Except Err (Bool × DB) := do
  let (n, s₁) ← (s.deleteRow coll.tableName id).mapError (.wrapped "deleting document")
  if n = 0 then return (false, s)
  else
    let s₂ ← if coll.hasVector then deleteFullTextRow coll id s₁ else .ok s₁
    return (true, s₂)

/-- A read, a write statement of its own, or a write transaction. -/
inductive Stmt : Type → Type 1
  | read {β : Type} (query : Host → DB → Except Err β) : Stmt β
  | insertRow (table : String) (id : Option Int) (columns : Columns) : Stmt Int
  | updateData (table : String) (data : Json) (id : Int) : Stmt Nat
  | createCollection (name : String) (hasVector : Bool) (dimensions : Int) (references : ReferenceMap) : Stmt Unit
  | renameCollection (oldName newName : String) : Stmt Unit
  | dropCollection (coll : Collection) (name : String) : Stmt Unit
  | insertDocumentBulk (coll : Collection) (items : List Prepared) : Stmt (List Int)
  | updateDocument (coll : Collection) (id : Int) (text : String) (data : Json) (serialized : Vector32) : Stmt Bool
  | deleteDocument (coll : Collection) (id : Int) : Stmt Bool

/-- A database call without a result. -/
def noValue (r : Except Err DB) : Except Err (Unit × DB) := r.map (fun s => ((), s))

def Stmt.exec (h : Host) {β : Type} : Stmt β → DB → Except Err (β × DB)
  | .read query, s => (query h s).map (fun b => (b, s))
  | .insertRow table id columns, s => s.insertRow table id columns
  | .updateData table data id, s => s.updateData table data id
  | .createCollection name hasVector dimensions references, s =>
    noValue (createCollectionTx name hasVector dimensions references s)
  | .renameCollection oldName newName, s => noValue (renameCollectionTx oldName newName s)
  | .dropCollection coll name, s => noValue (dropCollectionTx coll name s)
  | .insertDocumentBulk coll items, s => insertDocumentBulkTx coll 0 items s
  | .updateDocument coll id text data serialized, s => updateDocumentTx coll id text data serialized s
  | .deleteDocument coll id, s => deleteDocumentTx coll id s

/-- The database as a machine for the statements of the program. -/
def machine (h : Host) : Machine Stmt Err DB where
  exec := fun c s => c.exec h s
  fault := .sqlite "database failure"

end Microserver.Statements
