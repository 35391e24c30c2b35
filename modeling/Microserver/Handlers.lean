import Microserver.Operations

/-!
The HTTP handlers that write items and the catalog, from the request on: the
lookup of the collection comes first, then the checks of the body, then the
operation, and every error becomes a status.
-/
namespace Microserver.Handlers
open Microserver.Values Microserver.Store Microserver.Programs Microserver.Statements Microserver.Operations

inductive Body
  | empty
  | error (msg : String)
  | id (id : Int)
  | ids (ids : List Int)
  | collection (coll : Collection)

structure Reply where
  status : Nat
  body : Body

def writeError (status : Nat) (msg : String) : Reply := ⟨status, .error msg⟩

/-- The body of an insert or update. -/
structure DocumentRequest where
  id : Option Int
  text : String
  data : Option Json

/-- A decoded body, or the reply with which decodeJSON has refused it. -/
abbrev Decoded (α : Type) := Except Reply α

def bulkMaxItems : Nat := 100

/-- `errors.As` for a ReferenceValidationError. -/
def asReferenceValidation : Err → Bool
  | .referenceValidation _ => true
  | .wrapped _ err => asReferenceValidation err
  | _ => false

/-- `errors.As` for a ReferentialConstraintError. -/
def asReferentialConstraint : Err → Bool
  | .referentialConstraint _ => true
  | .wrapped _ err => asReferentialConstraint err
  | _ => false

def writeDocumentError (err : Err) : Reply :=
  if asReferenceValidation err then writeError 400 err.error
  else if asReferentialConstraint err then writeError 409 err.error
  else writeError 500 err.error

/-- The beginning of every handler of items: the collection is looked up by name. -/
def withCollection (name : String) (handle : Collection → Op Reply) : Op Reply := do
  match ← (getCollection name).attempt with
  | .error e =>
    return if e.is .collectionNotFound then writeError 404 "collection not found" else writeError 500 e.error
  | .ok coll => handle coll

/-- A decoded body, or the end of the request. -/
def withBody {α : Type} (body : Decoded α) (handle : α → Op Reply) : Op Reply :=
  match body with
  | .error reply => .ret reply
  | .ok req => handle req

/-- The end of a handler of items: a result or an error of the operation. -/
def answer {α : Type} (op : Op α) (reply : α → Reply) : Op Reply := do
  match ← op.attempt with
  | .error e => return writeDocumentError e
  | .ok a => return reply a

/-- What handleInsertDocument does with the collection. -/
def insertInto (body : Decoded DocumentRequest) (coll : Collection) : Op Reply :=
  withBody body fun req =>
    if coll.hasVector && req.text = "" then .ret (writeError 400 "text is required for vector collections")
    else answer (insertDocument coll req.id req.text req.data) fun id => ⟨201, .id id⟩

def handleInsertDocument (name : String) (body : Decoded DocumentRequest) : Op Reply :=
  withCollection name (insertInto body)

/-- The position of the first item without text. -/
def firstWithoutText : Nat → List DocumentRequest → Option Nat
  | _, [] => none
  | i, req :: rest => if req.text = "" then some i else firstWithoutText (i + 1) rest

def bulkInsertInto (body : Decoded (List DocumentRequest)) (coll : Collection) : Op Reply :=
  withBody body fun reqs =>
    if reqs.length = 0 then .ret (writeError 400 "at least one item is required")
    else if reqs.length > bulkMaxItems then
      .ret (writeError 400 ("at most " ++ toString bulkMaxItems ++ " items per bulk request"))
    else
      match if coll.hasVector then firstWithoutText 0 reqs else none with
      | some i => .ret (writeError 400 ("item " ++ toString i ++ ": text is required for vector collections"))
      | none =>
        answer (insertDocumentBulk coll (reqs.map fun req => ⟨req.id, req.text, req.data⟩)) fun ids => ⟨201, .ids ids⟩

def handleBulkInsertDocument (name : String) (body : Decoded (List DocumentRequest)) : Op Reply :=
  withCollection name (bulkInsertInto body)

/-- `id` is the path value as `strconv.ParseInt` reads it. -/
def updateIn (id : Option Int) (body : Decoded DocumentRequest) (coll : Collection) : Op Reply :=
  match id with
  | none => .ret (writeError 400 "id must be an integer")
  | some id => withBody body fun req =>
    if coll.hasVector && req.text = "" then .ret (writeError 400 "text is required for vector collections")
    else answer (updateDocument coll id req.text req.data) fun found =>
      if found then ⟨200, .id id⟩ else writeError 404 "item not found"

def handleUpdateDocument (name : String) (id : Option Int) (body : Decoded DocumentRequest) : Op Reply :=
  withCollection name (updateIn id body)

def deleteFrom (id : Option Int) (coll : Collection) : Op Reply :=
  match id with
  | none => .ret (writeError 400 "id must be an integer")
  | some id => answer (deleteDocument coll id) fun found =>
    if found then ⟨204, .empty⟩ else writeError 404 "item not found"

def handleDeleteDocument (name : String) (id : Option Int) : Op Reply :=
  withCollection name (deleteFrom id)

/-- `body` is the new name. -/
def handleRenameCollection (oldName : String) (body : Decoded String) : Op Reply :=
  withBody body fun name =>
    if name = "" then .ret (writeError 400 "name is required")
    else do
      match ← (renameCollection oldName name).attempt with
      | .error e =>
        return if e.is .collectionNotFound then writeError 404 "collection not found"
          else if e.is .collectionExists then writeError 409 e.error
          else if e.is .invalidCollectionName then writeError 400 e.error
          else writeError 500 e.error
      | .ok _ =>
        match ← (getCollection name).attempt with
        | .error e => return writeError 500 e.error
        | .ok coll => return ⟨200, .collection coll⟩

/-- A request that writes items of a collection. -/
inductive ItemWrite
  | insertDocument (name : String) (body : Decoded DocumentRequest)
  | bulkInsertDocument (name : String) (body : Decoded (List DocumentRequest))
  | updateDocument (name : String) (id : Option Int) (body : Decoded DocumentRequest)
  | deleteDocument (name : String) (id : Option Int)

def ItemWrite.program : ItemWrite → Op Reply
  | .insertDocument name body => handleInsertDocument name body
  | .bulkInsertDocument name body => handleBulkInsertDocument name body
  | .updateDocument name id body => handleUpdateDocument name id body
  | .deleteDocument name id => handleDeleteDocument name id

/-! ### What the handlers send -/

/-- The reads, and the writes of updateDocument, which also serve deletes. -/
def UpdateStmt {β : Type} : Stmt β → Prop
  | .read _ => True
  | .updateData .. => True
  | .updateDocument .. => True
  | _ => False

section Uses
variable {P : ∀ {β : Type}, Stmt β → Prop} (item : ∀ {β : Type} (c : Stmt β), UpdateStmt c → P c)
include item

theorem getCollection_uses (name : String) : (getCollection name).Uses P := by
  unfold getCollection
  refine Prog.uses_bind (Prog.uses_call (item _ trivial)) ?_
  intro found
  cases found <;> trivial

theorem validateEach_uses (parsed : List (String × Json)) (refs : List Reference) : (validateEach parsed refs).Uses P := by
  induction refs with
  | nil => trivial
  | cons ref rest ih =>
    unfold validateEach
    cases parsed.lookup ref.field with
    | none => exact ih
    | some v =>
      cases v with
      | null => exact ih
      | int refID =>
        refine Prog.uses_bind (Prog.uses_within (getCollection_uses item _)) ?_
        intro target
        refine Prog.uses_bind (Prog.uses_call (item _ trivial)) ?_
        intro count
        by_cases zero : count = 0
        · rw [if_pos zero]
          trivial
        · rw [if_neg zero]
          exact ih
      | bool _ | real _ | str _ | arr _ | obj _ => trivial

theorem validateReferences_uses (collectionName : String) (data : Option Json) :
    (validateReferences collectionName data).Uses P := by
  unfold validateReferences
  refine Prog.uses_bind (Prog.uses_call (item _ trivial)) ?_
  intro refs
  by_cases empty : refs.isEmpty = true
  · rw [if_pos empty]
    trivial
  · rw [if_neg empty]
    cases unmarshalFields data with
    | error e => trivial
    | ok parsed => exact validateEach_uses item parsed refs

theorem insertDocument_uses (inserts : ∀ table id columns, P (.insertRow table id columns)) (coll : Collection)
    (id : Option Int) (text : String) (data : Option Json) : (insertDocument coll id text data).Uses P := by
  unfold insertDocument
  refine Prog.uses_bind (validateReferences_uses item _ _) ?_
  intro _
  by_cases vector : coll.hasVector = true
  · rw [if_pos vector]
    refine Prog.uses_bind (Prog.uses_call (item _ trivial)) ?_
    intro vec
    refine Prog.uses_bind (Prog.uses_call (inserts _ _ _)) ?_
    intro finalID
    refine Prog.uses_bind (Prog.uses_call (inserts _ _ _)) ?_
    intro _
    trivial
  · rw [if_neg vector]
    exact Prog.uses_call (inserts _ _ _)

theorem prepareItems_uses (coll : Collection) (i : Nat) (items : List BulkDocumentItem) :
    (prepareItems coll i items).Uses P := by
  induction items generalizing i with
  | nil => trivial
  | cons it rest ih =>
    unfold prepareItems
    refine Prog.uses_bind (Prog.uses_within (validateReferences_uses item _ _)) ?_
    intro _
    have follow : ∀ serialized : Vector32, ((prepareItems coll (i + 1) rest).bind fun preparedItems =>
        .ret ((⟨it.id, it.text, dataOrEmpty it.data, serialized⟩ : Prepared) :: preparedItems)).Uses P :=
      fun serialized => Prog.uses_bind (ih (i + 1)) fun _ => trivial
    by_cases vector : coll.hasVector = true
    · simp only [vector, ↓reduceIte]
      exact Prog.uses_bind (Prog.uses_call (item _ trivial)) follow
    · simp only [vector]
      exact follow []

theorem insertDocumentBulk_uses {coll : Collection} (inserts : ∀ preparedItems, P (.insertDocumentBulk coll preparedItems))
    (items : List BulkDocumentItem) : (insertDocumentBulk coll items).Uses P := by
  unfold insertDocumentBulk
  refine Prog.uses_bind (prepareItems_uses item coll 0 items) ?_
  intro preparedItems
  exact Prog.uses_call (inserts preparedItems)

theorem updateDocument_uses (coll : Collection) (id : Int) (text : String) (data : Option Json) :
    (updateDocument coll id text data).Uses P := by
  unfold updateDocument
  refine Prog.uses_bind (validateReferences_uses item _ _) ?_
  intro _
  by_cases plain : (!coll.hasVector) = true
  · rw [if_pos plain]
    exact Prog.uses_bind (Prog.uses_call (item _ trivial)) fun _ => trivial
  · rw [if_neg plain]
    refine Prog.uses_bind (Prog.uses_call (item _ trivial)) ?_
    intro vec
    exact Prog.uses_call (item _ trivial)

theorem nullReferences_uses (srcColl : Collection) (field : String) (ids : List Int) :
    (nullReferences srcColl field ids).Uses P := by
  induction ids with
  | nil => trivial
  | cons rid rest ih =>
    unfold nullReferences getDocumentByID
    refine Prog.uses_bind (Prog.uses_within (Prog.uses_bind (Prog.uses_call (item _ trivial)) ?_)) ?_
    · intro found
      cases found <;> trivial
    · intro doc
      cases doc.data with
      | obj fields => exact Prog.uses_bind (Prog.uses_within (updateDocument_uses item _ _ _ _)) fun _ => ih
      | null | bool _ | int _ | real _ | str _ | arr _ => trivial

theorem checkDependents_uses (id : Int) (deps : List ReferenceDependent) : (checkDependents id deps).Uses P := by
  induction deps with
  | nil => trivial
  | cons dep rest ih =>
    unfold checkDependents
    refine Prog.uses_bind (Prog.uses_attempt (getCollection_uses item _)) ?_
    intro found
    cases found with
    | error e =>
      by_cases absent : e.is .collectionNotFound = true
      · simp only [absent, ↓reduceIte]
        exact ih
      · simp only [absent]
        trivial
    | ok srcColl =>
      refine Prog.uses_bind (Prog.uses_call (item _ trivial)) ?_
      intro found
      by_cases none : found.isEmpty = true
      · rw [if_pos none]
        exact ih
      · rw [if_neg none]
        by_cases restrict : dep.onDelete = onDeleteRestrict
        · rw [if_pos restrict]
          trivial
        · rw [if_neg restrict]
          by_cases setNull : dep.onDelete = onDeleteSetNull
          · rw [if_pos setNull]
            exact Prog.uses_bind (nullReferences_uses item _ _ _) fun _ => ih
          · rw [if_neg setNull]
            exact ih

theorem deleteDocument_uses {coll : Collection} {id : Int} (deletes : P (.deleteDocument coll id)) :
    (deleteDocument coll id).Uses P := by
  unfold deleteDocument checkReferentialDelete
  refine Prog.uses_bind (Prog.uses_bind (Prog.uses_call (item _ trivial)) ?_) ?_
  · intro deps
    exact checkDependents_uses item id deps
  · intro _
    exact Prog.uses_call deletes

theorem withCollection_uses {name : String} {handle : Collection → Op Reply} (uses : ∀ coll, (handle coll).Uses P) :
    (withCollection name handle).Uses P := by
  unfold withCollection
  refine Prog.uses_bind (Prog.uses_attempt (getCollection_uses item name)) ?_
  intro found
  cases found with
  | error e => trivial
  | ok coll => exact uses coll

omit item in
theorem withBody_uses {α : Type} {body : Decoded α} {handle : α → Op Reply} (uses : ∀ req, (handle req).Uses P) :
    (withBody body handle).Uses P := by
  cases body with
  | error reply => trivial
  | ok req => exact uses req

omit item in
theorem answer_uses {α : Type} {op : Op α} {reply : α → Reply} (uses : op.Uses P) : (answer op reply).Uses P := by
  unfold answer
  refine Prog.uses_bind (Prog.uses_attempt uses) ?_
  intro outcome
  cases outcome <;> trivial

theorem handleInsertDocument_uses (inserts : ∀ table id columns, P (.insertRow table id columns)) (name : String)
    (body : Decoded DocumentRequest) : (handleInsertDocument name body).Uses P := by
  refine withCollection_uses item fun coll => withBody_uses fun req => ?_
  by_cases missing : (coll.hasVector && req.text = "") = true
  · rw [if_pos missing]
    trivial
  · rw [if_neg missing]
    exact answer_uses (insertDocument_uses item inserts _ _ _ _)

theorem bulkInsertDocument_uses {coll : Collection} (inserts : ∀ preparedItems, P (.insertDocumentBulk coll preparedItems))
    (body : Decoded (List DocumentRequest)) : (bulkInsertInto body coll).Uses P := by
  refine withBody_uses fun reqs => ?_
  by_cases none : reqs.length = 0
  · rw [if_pos none]
    trivial
  · rw [if_neg none]
    by_cases many : reqs.length > bulkMaxItems
    · rw [if_pos many]
      trivial
    · rw [if_neg many]
      cases if coll.hasVector then firstWithoutText 0 reqs else Option.none with
      | some i => trivial
      | none => exact answer_uses (insertDocumentBulk_uses item inserts _)

theorem updateIn_uses (coll : Collection) (id : Option Int) (body : Decoded DocumentRequest) :
    (updateIn id body coll).Uses P := by
  unfold updateIn
  cases id with
  | none => trivial
  | some id =>
    refine withBody_uses fun req => ?_
    by_cases missing : (coll.hasVector && req.text = "") = true
    · rw [if_pos missing]
      trivial
    · rw [if_neg missing]
      exact answer_uses (updateDocument_uses item _ _ _ _)

theorem deleteFrom_uses {coll : Collection} (deletes : ∀ id, P (.deleteDocument coll id)) (id : Option Int) :
    (deleteFrom id coll).Uses P := by
  unfold deleteFrom
  cases id with
  | none => trivial
  | some id => exact answer_uses (deleteDocument_uses item (deletes id))

theorem handleBulkInsertDocument_uses (inserts : ∀ coll preparedItems, P (.insertDocumentBulk coll preparedItems))
    (name : String) (body : Decoded (List DocumentRequest)) : (handleBulkInsertDocument name body).Uses P :=
  withCollection_uses item fun coll => bulkInsertDocument_uses item (inserts coll) body

theorem handleUpdateDocument_uses (name : String) (id : Option Int) (body : Decoded DocumentRequest) :
    (handleUpdateDocument name id body).Uses P := withCollection_uses item fun coll => updateIn_uses item coll id body

theorem handleDeleteDocument_uses (deletes : ∀ coll id, P (.deleteDocument coll id)) (name : String) (id : Option Int) :
    (handleDeleteDocument name id).Uses P := withCollection_uses item fun coll => deleteFrom_uses item (deletes coll) id

theorem ItemWrite.program_uses (inserts : ∀ table id columns, P (.insertRow table id columns))
    (bulks : ∀ coll preparedItems, P (.insertDocumentBulk coll preparedItems)) (deletes : ∀ coll id, P (.deleteDocument coll id))
    (write : ItemWrite) : write.program.Uses P := by
  cases write with
  | insertDocument name body => exact handleInsertDocument_uses item inserts name body
  | bulkInsertDocument name body => exact handleBulkInsertDocument_uses item bulks name body
  | updateDocument name id body => exact handleUpdateDocument_uses item name id body
  | deleteDocument name id => exact handleDeleteDocument_uses item deletes name id

theorem handleRenameCollection_uses (renames : ∀ oldName newName, P (.renameCollection oldName newName))
    (oldName : String) (body : Decoded String) : (handleRenameCollection oldName body).Uses P := by
  refine withBody_uses fun name => ?_
  by_cases empty : name = ""
  · rw [if_pos empty]
    trivial
  · rw [if_neg empty]
    have relabels : (renameCollection oldName name).Uses P := by
      unfold renameCollection
      by_cases valid : (!collectionNameRe name) = true
      · rw [if_pos valid]
        trivial
      · rw [if_neg valid]
        exact Prog.uses_call (renames oldName name)
    refine Prog.uses_bind (Prog.uses_attempt relabels) ?_
    intro outcome
    cases outcome with
    | error e => trivial
    | ok _ =>
      refine Prog.uses_bind (Prog.uses_attempt (getCollection_uses item name)) ?_
      intro found
      cases found <;> trivial

end Uses
end Microserver.Handlers
