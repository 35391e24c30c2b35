import Microserver.ReadHandlers

/-!
The fixed table `vec_items` and the handlers of /items and /search.
-/
namespace Microserver.VecItems
open Microserver.Values Microserver.Store Microserver.Programs Microserver.Statements Microserver.Operations
open Microserver.Ranking Microserver.Queries Microserver.Handlers Microserver.Requests Microserver.Tokens Microserver.Params

/-- vec_items after openVecDB on a new file. -/
def schema : Table := .empty (.vec0 768)

/-- An item of a bulk insert once it is embedded; id 0 lets SQLite assign one. -/
structure PreparedItem where
  id : Int
  text : String
  serialized : Vector32

/-- INSERT INTO vec_items. -/
def insertItem (t : Table) (id : Option Int) (serialized : Vector32) (text : String) : Except Err (Int × Table) :=
  let columns : Columns := .vector serialized text .null
  if columns.fits t.kind then t.insert id columns else .error (.sqlite "Dimension mismatch for inserted vector")

/-- The transaction of insertTextBulk; `i` is the position of the first item. -/
def insertTextBulkTx : Nat → List PreparedItem → Table → Except Err (List Int × Table)
  | _, [], t => .ok ([], t)
  | i, p :: rest, t =>
    match insertItem t (if p.id = 0 then none else some p.id) p.serialized p.text with
    | .error e => .error (.wrapped ("item " ++ toString i ++ ": inserting vector") e)
    | .ok (id, t₁) =>
      match insertTextBulkTx (i + 1) rest t₁ with
      | .error e => .error e
      | .ok (ids, t₂) => .ok (id :: ids, t₂)

/-- The transaction of updateText. It ends without a commit when no row has the id. -/
def updateTextTx (id : Int) (text : String) (serialized : Vector32) (t : Table) : Except Err (Bool × Table) :=
  if t.has id = false then .ok (false, t)
  else
    match insertItem (t.delete id) (some id) serialized text with
    | .error e => .error (.wrapped "updating vector (insert step)" e)
    | .ok (_, t') => .ok (true, t')

/-- A read, a write statement of its own, or a write transaction. -/
inductive ItemStmt : Type → Type 1
  | read {β : Type} (query : Host → Table → Except Err β) : ItemStmt β
  | insert (id : Option Int) (serialized : Vector32) (text : String) : ItemStmt Int
  | insertTextBulk (items : List PreparedItem) : ItemStmt (List Int)
  | updateText (id : Int) (text : String) (serialized : Vector32) : ItemStmt Bool
  | delete (id : Int) : ItemStmt Nat

def ItemStmt.exec (h : Host) {β : Type} : ItemStmt β → Table → Except Err (β × Table)
  | .read query, t => (query h t).map (fun b => (b, t))
  | .insert id serialized text, t => insertItem t id serialized text
  | .insertTextBulk items, t => insertTextBulkTx 0 items t
  | .updateText id text serialized, t => updateTextTx id text serialized t
  | .delete id, t => .ok (t.rows.countP (fun r => r.id == id), t.delete id)

def itemMachine (h : Host) : Machine ItemStmt Err Table where
  exec := fun c t => c.exec h t
  fault := .sqlite "database failure"

abbrev ItemOp (α : Type) := Prog ItemStmt Err α

/-! ### The operations -/

/-- The call of Ollama; it reads no table. -/
def embed (context text : String) : ItemOp Vector32 := .call (.wrapped context) (.read fun h _ => h.embed text)

def insertText (id : Int) (text : String) : ItemOp Unit := do
  let vec ← embed "embedding text" text
  let _ ← .call (.wrapped "inserting vector") (.insert (some id) (serializeFloat32 vec) text)
  return ()

def insertTextAuto (text : String) : ItemOp Int := do
  let vec ← embed "embedding text" text
  .call (.wrapped "inserting vector") (.insert none (serializeFloat32 vec) text)

structure BulkItem where
  id : Int
  text : String

/-- The loop of insertTextBulk that embeds the items. -/
def prepareItems : Nat → List BulkItem → ItemOp (List PreparedItem)
  | _, [] => .ret []
  | i, it :: rest => do
    let vec ← embed ("item " ++ toString i ++ ": embedding text") it.text
    let preparedItems ← prepareItems (i + 1) rest
    return ⟨it.id, it.text, serializeFloat32 vec⟩ :: preparedItems

def insertTextBulk (items : List BulkItem) : ItemOp (List Int) := do
  let preparedItems ← prepareItems 0 items
  .call (fun e => e) (.insertTextBulk preparedItems)

def updateText (id : Int) (text : String) : ItemOp Bool := do
  let vec ← embed "embedding text" text
  .call (fun e => e) (.updateText id text (serializeFloat32 vec))

/-- An id with its text, as returned by listItems. -/
structure Item where
  id : Int
  text : String
deriving DecidableEq

def listItems (limit offset : Int) : ItemOp (List Item) :=
  .call (.wrapped "listing items") (.read fun _ t =>
    .ok ((limitRows limit ((sortBy (·.id) t.rows).drop offset.toNat)).map fun r => ⟨r.id, r.text⟩))

def deleteItem (id : Int) : ItemOp Bool := do
  let n ← .call (.wrapped "deleting item") (.delete id)
  return decide (n > 0)

structure SearchResult where
  id : Int
  text : String
  distance : ℚ
deriving DecidableEq

/-- A database with nothing but vec_items, for the queries that search it. -/
def onlyItems (t : Table) : DB := ⟨[], [], fun n => if n = "vec_items" then some t else none⟩

/-- The two queries are those of searchDocuments without filters and sort. -/
def queryText (text : String) (limit : Int) (rerank : Bool) : ItemOp (List SearchResult) := do
  let vec ← embed "embedding query" text
  let serialized := serializeFloat32 vec
  .call (fun e => e) (.read fun h t =>
    (searchRows h (onlyItems t) "vec_items" serialized limit rerank [] none).map fun rows =>
      rows.map fun r => ⟨r.id, r.text, distance h rerank serialized r⟩)

/-! ### The handlers -/

/-- What the handlers of items write. -/
inductive ItemBody
  | id (id : Int)
  | ids (ids : List Int)
  | items (items : List Item)
  | results (results : List SearchResult)

abbrev ItemReply := Written ItemBody

/-- The rest of a handler after decodeJSON. -/
def withRequest {α : Type} (body : Decoded α) (handle : α → ItemOp ItemReply) : ItemOp ItemReply :=
  match body with
  | .error reply => .ret (match reply.body with | .error msg => .error reply.status msg | _ => .bare reply.status)
  | .ok req => handle req

/-- The end of a handler; every error is an internal one. -/
def answer {α : Type} (op : ItemOp α) (reply : α → ItemReply) : ItemOp ItemReply := do
  match ← op.attempt with
  | .error e => return .error 500 e.error
  | .ok a => return reply a

def handleList (query : Query) : ItemOp ItemReply :=
  match parseLimitOffset query with
  | .error msg => .ret (.error 400 msg)
  | .ok (limit, offset) => answer (listItems limit offset) fun items => .json 200 (.items items)

def handleInsert (body : Decoded InsertRequest) : ItemOp ItemReply :=
  withRequest body fun req =>
    if req.text = "" then .ret (.error 400 "text is required")
    else if req.id ≠ 0 then answer (insertText req.id req.text) fun _ => .json 201 (.id req.id)
    else answer (insertTextAuto req.text) fun id => .json 201 (.id id)

/-- The position of the first item without text. -/
def firstWithoutText : Nat → List InsertRequest → Option Nat
  | _, [] => none
  | i, req :: rest => if req.text = "" then some i else firstWithoutText (i + 1) rest

def handleBulkInsert (body : Decoded (List InsertRequest)) : ItemOp ItemReply :=
  withRequest body fun reqs =>
    if reqs.length = 0 then .ret (.error 400 "at least one item is required")
    else if reqs.length > bulkMaxItems then
      .ret (.error 400 ("at most " ++ toString bulkMaxItems ++ " items per bulk request"))
    else
      match firstWithoutText 0 reqs with
      | some i => .ret (.error 400 ("item " ++ toString i ++ ": text is required"))
      | none => answer (insertTextBulk (reqs.map fun req => ⟨req.id, req.text⟩)) fun ids => .json 201 (.ids ids)

/-- `id` is the path value. -/
def handleUpdate (id : String) (body : Decoded InsertRequest) : ItemOp ItemReply :=
  match parseInt id with
  | none => .ret (.error 400 "id must be an integer")
  | some id => withRequest body fun req =>
    if req.text = "" then .ret (.error 400 "text is required")
    else answer (updateText id req.text) fun found =>
      if found then .json 200 (.id id) else .error 404 "item not found"

def handleDelete (id : String) : ItemOp ItemReply :=
  match parseInt id with
  | none => .ret (.error 400 "id must be an integer")
  | some id => answer (deleteItem id) fun found => if found then .bare 204 else .error 404 "item not found"

def handleSearch (query : Query) : ItemOp ItemReply :=
  let q := query.get "q"
  if q = "" then .ret (.error 400 "q is required")
  else
    match parseSearchLimit query with
    | .error msg => .ret (.error 400 msg)
    | .ok limit =>
      match parseRerank query with
      | .error msg => .ret (.error 400 msg)
      | .ok rerank => answer (queryText q limit rerank) fun results => .json 200 (.results results)

end Microserver.VecItems
