import Microserver.Statements

/-!
The operations of the store as programs: each call of the database is one
statement, in the order in which the source makes them.
-/
namespace Microserver.Operations
open Microserver.Values Microserver.Store Microserver.Programs Microserver.Statements

/-- An operation: a program over the statements that returns or fails. -/
abbrev Op (α : Type) := Prog Stmt Err α

def maxDimensions : Int := 8192

/-- A stored reference declaration, as returned to clients. -/
structure Reference where
  field : String
  collection : String
  onDelete : String
deriving DecidableEq

/-- A reference that some collection declares to the one it is looked up for. -/
structure ReferenceDependent where
  collectionName : String
  field : String
  onDelete : String
deriving DecidableEq

/-- An item as returned to clients. -/
structure Document where
  id : Int
  text : String
  data : Json
  distance : Option ℚ

/-- One entry of a bulk insert; no id lets SQLite assign one. -/
structure BulkDocumentItem where
  id : Option Int
  text : String
  data : Option Json

/-! ### Collections -/

/-- What createCollection refuses in one entry of `references`. -/
def referenceFieldError (entry : String × ReferenceSpec) : Option Err :=
  if !collectionNameRe entry.1 then
    some (.errorf ("reference field name " ++ quote entry.1 ++ " must match ^[a-zA-Z][a-zA-Z0-9_]\x7b0,62\x7d$"))
  else if entry.2.onDelete ≠ "" ∧ entry.2.onDelete ≠ onDeleteRestrict ∧ entry.2.onDelete ≠ onDeleteSetNull then
    some (.errorf ("reference field " ++ quote entry.1 ++ ": on_delete must be " ++ quote onDeleteRestrict ++
      " or " ++ quote onDeleteSetNull))
  else none

def createCollection (name : String) (hasVector : Bool) (dimensions : Int) (references : ReferenceMap) : Op Unit :=
  if !collectionNameRe name then .fail .invalidCollectionName
  else if hasVector ∧ (dimensions ≤ 0 ∨ maxDimensions < dimensions) then
    .fail (.errorf "dimensions must be between 1 and 8192 when vector is true")
  else
    match references.entries.findSome? referenceFieldError with
    | some e => .fail e
    | none => .call id (.createCollection name hasVector dimensions references)

def getReferences (collectionName : String) : Op (List Reference) :=
  .call (.wrapped "looking up references") (.read fun h s =>
    .ok ((h.visit (s.owned collectionName)).map fun r => ⟨r.fieldName, r.targetCollection, r.onDelete⟩))

def getReferencesTargeting (collectionName : String) : Op (List ReferenceDependent) :=
  .call (.wrapped "looking up dependent references") (.read fun h s =>
    .ok ((h.visit (s.targeting collectionName)).map fun r => ⟨r.collectionName, r.fieldName, r.onDelete⟩))

def getCollection (name : String) : Op Collection := do
  match ← .call (.wrapped "looking up collection") (.read fun _ s => .ok (s.lookup name)) with
  | none => .fail .collectionNotFound
  | some c => .ret c

def dropCollection (name : String) : Op Unit := do
  let coll ← getCollection name
  .call id (.dropCollection coll name)

def renameCollection (oldName newName : String) : Op Unit :=
  if !collectionNameRe newName then .fail .invalidCollectionName
  else .call id (.renameCollection oldName newName)

/-! ### Reference checks on insert and update -/

/-- The error of `json.Unmarshal` of a value that is no object into a map. -/
def unmarshalTypeError (data : Json) : String :=
  let kind := match data with
    | .arr _ => "array"
    | .str _ => "string"
    | .bool _ => "bool"
    | _ => "number"
  "json: cannot unmarshal " ++ kind ++ " into Go value of type map[string]json.RawMessage"

/-- `json.Unmarshal` of `data` into a map of raw values, which keeps the last value
    of a repeated name; absent and `null` data leave the map empty. -/
def unmarshalFields : Option Json → Except String (List (String × Json))
  | none => .ok []
  | some .null => .ok []
  | some (.obj fields) => .ok (unmarshalMap fields)
  | some other => .error (unmarshalTypeError other)

/-- The loop of validateReferences over the declared references. -/
def validateEach (parsed : List (String × Json)) : List Reference → Op Unit
  | [] => .ret ()
  | ref :: rest =>
    match parsed.lookup ref.field with
    | none => validateEach parsed rest
    | some .null => validateEach parsed rest
    | some (.int refID) => do
      let target ← (getCollection ref.collection).within fun e =>
        .referenceValidation ("reference target collection " ++ quote ref.collection ++ ": " ++ e.error)
      let count ← .call (.wrapped ("checking reference " ++ quote ref.field))
        (.read fun _ s => s.countById target.tableName refID)
      if count = 0 then
        .fail (.referenceValidation ("field " ++ quote ref.field ++ " references id " ++ toString refID ++
          ", which does not exist in collection " ++ quote ref.collection))
      else validateEach parsed rest
    | some _ => .fail (.referenceValidation ("field " ++ quote ref.field ++ " must be an integer id or null"))

def validateReferences (collectionName : String) (data : Option Json) : Op Unit := do
  let refs ← getReferences collectionName
  if refs.isEmpty then .ret ()
  else
    match unmarshalFields data with
    | .error e =>
      .fail (.referenceValidation ("data must be a JSON object to validate its reference fields: " ++ e))
    | .ok parsed => validateEach parsed refs

/-! ### Items -/

def dataOrEmpty (data : Option Json) : Json := data.getD (.obj [])

/-- The call of Ollama; it reads no table. -/
def embed (context : String) (text : String) : Op Vector32 :=
  .call (.wrapped context) (.read fun h _ => h.embed text)

/-- `sqlite_vec.SerializeFloat32`; writing to a buffer does not fail. -/
def serializeFloat32 (vec : Vector32) : Vector32 := vec

def insertDocument (coll : Collection) (id : Option Int) (text : String) (data : Option Json) : Op Int := do
  validateReferences coll.name data
  if coll.hasVector then
    let vec ← embed "embedding text" text
    let finalID ← .call (.wrapped "inserting document")
      (.insertRow coll.tableName id (.vector (serializeFloat32 vec) text (dataOrEmpty data)))
    let _ ← .call (.wrapped "indexing text for full-text search")
      (.insertRow (ftsTableName coll.tableName) (some finalID) (.fullText text))
    return finalID
  else
    .call (.wrapped "inserting document") (.insertRow coll.tableName id (.data (dataOrEmpty data)))

/-- The loop of insertDocumentBulk that validates and embeds the items. -/
def prepareItems (coll : Collection) : Nat → List BulkDocumentItem → Op (List Prepared)
  | _, [] => .ret []
  | i, it :: rest => do
    (validateReferences coll.name it.data).within (.wrapped ("item " ++ toString i))
    let serialized ← if coll.hasVector then embed ("item " ++ toString i ++ ": embedding text") it.text else .ret []
    let preparedItems ← prepareItems coll (i + 1) rest
    return ⟨it.id, it.text, dataOrEmpty it.data, serialized⟩ :: preparedItems

def insertDocumentBulk (coll : Collection) (items : List BulkDocumentItem) : Op (List Int) := do
  let preparedItems ← prepareItems coll 0 items
  .call id (.insertDocumentBulk coll preparedItems)

def updateDocument (coll : Collection) (id : Int) (text : String) (data : Option Json) : Op Bool := do
  validateReferences coll.name data
  if !coll.hasVector then
    let n ← .call (.wrapped "updating document") (.updateData coll.tableName (dataOrEmpty data) id)
    return decide (n > 0)
  else
    let vec ← embed "embedding text" text
    .call (fun e => e) (.updateDocument coll id text (dataOrEmpty data) (serializeFloat32 vec))

def getDocumentByID (coll : Collection) (id : Int) : Op Document := do
  match ← .call (.wrapped "getting document") (.read fun _ s => s.rowById coll.tableName coll.hasVector id) with
  | none => .fail .documentNotFound
  | some r => .ret ⟨r.id, if coll.hasVector then r.text else "", r.data, none⟩

/-! ### Reference checks on delete -/

/-- The loop of checkReferentialDelete that nulls a field on the matching rows. -/
def nullReferences (srcColl : Collection) (field : String) : List Int → Op Unit
  | [] => .ret ()
  | rid :: rest => do
    let doc ← (getDocumentByID srcColl rid).within (.wrapped ("loading referencing document " ++ toString rid))
    match doc.data with
    | .obj fields =>
      let _ ← (updateDocument srcColl rid doc.text (some (.obj (setNull field fields)))).within
        (.wrapped ("nulling reference on document " ++ toString rid))
      nullReferences srcColl field rest
    | .null => .fail .nilMapWrite
    | other =>
      .fail (.wrapped ("parsing referencing document " ++ toString rid) (.errorf (unmarshalTypeError other)))

/-- The loop of checkReferentialDelete over the dependent references. -/
def checkDependents (id : Int) : List ReferenceDependent → Op Unit
  | [] => .ret ()
  | dep :: rest => do
    match ← (getCollection dep.collectionName).attempt with
    | .error e => if e.is .collectionNotFound then checkDependents id rest else .fail e
    | .ok srcColl =>
      let found ← .call (.wrapped ("checking references from " ++ quote dep.collectionName))
        (.read fun h s => s.matching h srcColl.tableName dep.field id)
      if found.isEmpty then checkDependents id rest
      else if dep.onDelete = onDeleteRestrict then
        .fail (.referentialConstraint ("cannot delete: referenced by " ++ toString found.length ++
          " item(s) in collection " ++ quote dep.collectionName ++ " (field " ++ quote dep.field ++ ")"))
      else if dep.onDelete = onDeleteSetNull then
        nullReferences srcColl dep.field found
        checkDependents id rest
      else checkDependents id rest

def checkReferentialDelete (collectionName : String) (id : Int) : Op Unit := do
  let deps ← getReferencesTargeting collectionName
  checkDependents id deps

def deleteDocument (coll : Collection) (id : Int) : Op Bool := do
  checkReferentialDelete coll.name id
  .call (fun e => e) (.deleteDocument coll id)

end Microserver.Operations
