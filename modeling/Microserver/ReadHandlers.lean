import Microserver.Params

/-!
The queries and handlers that only read collections: the registry, single items,
listings, the searches by vector and by text, and aggregates.
-/
namespace Microserver.ReadHandlers
open Microserver.Values Microserver.Store Microserver.Programs Microserver.Statements Microserver.Operations
open Microserver.Ranking Microserver.Queries Microserver.Requests Microserver.Tokens Microserver.Params

/-- What the reads rely on besides the host: `strconv.ParseFloat`, the printing
    of floats, FTS5's MATCH with its ranking, and SUM and AVG of SQLite, which
    add up in floating point. -/
structure Engine where
  parseFloat : String → Option Float64
  formatFloat : Double → String
  fullTextMatch : String → List Row → Except Err (List Row)
  sum : List SqlValue → Except Err SqlValue
  avg : List SqlValue → Except Err SqlValue

/-- An engine that reads no floats and finds nothing, for runs on given inputs. -/
def Engine.plain : Engine := ⟨fun _ => none, fun _ => "", fun _ _ => .ok [], fun _ => .ok .null, fun _ => .ok .null⟩

/-! ### Queries -/

def listCollections : Op (List Collection) :=
  .call (.wrapped "listing collections") (.read fun h s => .ok (sortBy (·.name) (h.visit s.collections)))

/-- The join of the hits with the items, filtered, in the order of their rank or
    as `sort` says. -/
def fullTextRows (E : Engine) (h : Host) (s : DB) (coll : Collection) (query : String) (filters : List FilterCondition)
    (sort : Option SortSpec) : Except Err (List Row) :=
  match s.find (ftsTableName coll.tableName), s.docs coll.tableName with
  | some index, .ok items =>
    if index.kind = .fts5 then do
      let hits ← E.fullTextMatch query index.rows
      let rows ← filterWhere h filters (hits.filterMap fun hit => items.rows.find? fun r => r.id = hit.id)
      match sort with
      | none => return rows
      | some spec => orderBySQL h spec rows
    else .error noSuchColumn
  | _, _ => .error noSuchTable

def fullTextSearchDocuments (E : Engine) (coll : Collection) (query : String) (limit offset : Int)
    (filters : List FilterCondition) (sort : Option SortSpec) : Op (List Document) :=
  if !coll.hasVector then .fail .collectionNoFullText
  else .call (.wrapped "full-text search") (.read fun h s =>
    (fullTextRows E h s coll query filters sort).map fun rows =>
      (limitRows limit (rows.drop offset.toNat)).map fun r => ⟨r.id, r.text, r.data, none⟩)

inductive AggFunction
  | count
  | sum
  | avg
  | min
  | max
deriving DecidableEq

def aggOps : List (String × AggFunction) :=
  [("count", .count), ("sum", .sum), ("avg", .avg), ("min", .min), ("max", .max)]

/-- One row of an aggregation; no group for NULL or without group_by. -/
structure AggregateResult where
  group : Option String
  value : Option Float64
deriving DecidableEq

/-- The aggregate function over the values of a group; all but COUNT are NULL
    where every value is. -/
def AggFunction.eval (E : Engine) (values : List SqlValue) : AggFunction → Except Err SqlValue :=
  let present := values.filter (· ≠ .null)
  fun
  | .count => .ok (.integer present.length)
  | .sum => E.sum present
  | .avg => E.avg present
  | .min => .ok ((sortBy SqlValue.key present).head?.getD .null)
  | .max => .ok ((sortBy SqlValue.key present).getLast?.getD .null)

/-- Scan into a NullFloat64: a text must read as a float. -/
def scanFloat (E : Engine) : SqlValue → Except Err (Option Float64)
  | .null => .ok none
  | .real x => .ok (some (some x))
  | .integer n => scanText (toString n)
  | .text s => scanText s
where
  scanText (s : String) : Except Err (Option Float64) :=
    match E.parseFloat s with
    | none => .error (.errorf ("converting driver.Value type string (" ++ quote s ++ ") to a float64: invalid syntax"))
    | some x => .ok (some x)

/-- Scan into a NullString. -/
def scanString (E : Engine) : SqlValue → Option String
  | .null => none
  | .integer n => some (toString n)
  | .real x => some (E.formatFloat x)
  | .text s => some s

/-- The values that are aggregated; COUNT(*) takes one from every row. -/
def aggregated (h : Host) (field : String) (rows : List Row) : Except Err (List SqlValue) :=
  if field = "" then .ok (rows.map fun _ => .integer 1)
  else if rows.all readable then .ok (rows.map fun r => jsonExtract h.jsonText r.data field)
  else .error malformedJSON

/-- GROUP BY: the groups in the order of their values, each with the value of
    the row that comes first. -/
def groups (h : Host) (groupBy : String) (rows : List Row) : List (SqlValue × List Row) :=
  let value (r : Row) : SqlValue := jsonExtract h.jsonText r.data groupBy
  let firsts := (h.visit rows).foldl (fun (seen : List SqlValue) r =>
    if seen.any fun v => v.key = (value r).key then seen else seen ++ [value r]) []
  (sortBy SqlValue.key firsts).map fun v => (v, rows.filter fun r => v.key = (value r).key)

def aggregateQuery (E : Engine) (coll : Collection) (fn : AggFunction) (field groupBy : String)
    (filters : List FilterCondition) (h : Host) (s : DB) : Except Err (List AggregateResult) := do
  let t ← s.docs coll.tableName
  let rows ← filterWhere h filters t.rows
  if groupBy = "" then
    let value ← fn.eval E (← aggregated h field rows)
    return [⟨none, ← scanFloat E value⟩]
  else if rows.all readable then
    (groups h groupBy rows).mapM fun group => do
      let value ← fn.eval E (← aggregated h field group.2)
      return ⟨scanString E group.1, ← scanFloat E value⟩
  else .error malformedJSON

def aggregateDocuments (E : Engine) (coll : Collection) (op field groupBy : String) (filters : List FilterCondition) :
    Op (List AggregateResult) :=
  match aggOps.lookup op with
  | none => .fail (.errorf ("unknown aggregate operator " ++ quote op ++ " (allowed: count, sum, avg, min, max)"))
  | some fn =>
    if op ≠ "count" ∧ field = "" then .fail (.errorf ("field is required for " ++ quote op))
    else if field ≠ "" ∧ !collectionNameRe field then .fail (.errorf ("invalid field " ++ quote field))
    else if groupBy ≠ "" ∧ !collectionNameRe groupBy then .fail (.errorf ("invalid group_by field " ++ quote groupBy))
    else .call (.wrapped "aggregating") (.read (aggregateQuery E coll fn field groupBy filters))

/-! ### Handlers -/

/-- The parameters of a request, or the reply to wrong ones. -/
def withParams {α β : Type} (params : Except String α) (handle : α → Op (Written β)) : Op (Written β) :=
  match params with
  | .error msg => .ret (.error 400 msg)
  | .ok a => handle a

/-- The end of a handler; `onError` says how an error is written. -/
def reply {α : Type} (op : Op α) (onError : Err → Written α) : Op (Written α) := do
  match ← op.attempt with
  | .error e => return onError e
  | .ok a => return .json 200 a

def internalError {α : Type} (e : Err) : Written α := .error 500 e.error

def handleListCollections : Op (Written (List Collection)) := reply listCollections internalError

/-- The beginning of every handler of items. -/
def withCollection {α : Type} (name : String) (handle : Collection → Op (Written α)) : Op (Written α) := do
  match ← (getCollection name).attempt with
  | .error e => return if e.is .collectionNotFound then .error 404 "collection not found" else internalError e
  | .ok coll => handle coll

/-- `id` is the path value. -/
def handleGetDocument (name id : String) : Op (Written Document) :=
  withCollection name fun coll =>
    match parseInt id with
    | none => .ret (.error 400 "id must be an integer")
    | some id => reply (getDocumentByID coll id) fun e =>
      if e.is .documentNotFound then .error 404 "item not found" else internalError e

def handleListDocuments (E : Engine) (name : String) (query : Query) : Op (Written (List Document)) :=
  withCollection name fun coll =>
    withParams (parseLimitOffset query) fun (limit, offset) =>
    withParams (parseFilters E.parseFloat query) fun filters =>
    withParams (parseSort query) fun sort =>
      reply (listDocuments coll limit offset filters sort) internalError

def handleAggregate (E : Engine) (name : String) (query : Query) : Op (Written (List AggregateResult)) :=
  withCollection name fun coll =>
    let op := query.get "op"
    if op = "" then .ret (.error 400 "op is required")
    else withParams (parseFilters E.parseFloat query) fun filters =>
      reply (aggregateDocuments E coll op (query.get "field") (query.get "group_by") filters) fun e => .error 400 e.error

def handleFullTextSearch (E : Engine) (name : String) (query : Query) : Op (Written (List Document)) :=
  withCollection name fun coll =>
    let q := query.get "q"
    if q = "" then .ret (.error 400 "q is required")
    else
      withParams (parseLimitOffset query) fun (limit, offset) =>
      withParams (parseFilters E.parseFloat query) fun filters =>
      withParams (parseSort query) fun sort =>
        reply (fullTextSearchDocuments E coll q limit offset filters sort) fun e =>
          if e.is .collectionNoFullText then .error 400 "collection has no text field, nothing to search"
          else .error 400 e.error

def handleSearchDocuments (E : Engine) (name : String) (query : Query) : Op (Written (List Document)) :=
  withCollection name fun coll =>
    let q := query.get "q"
    if q = "" then .ret (.error 400 "q is required")
    else
      withParams (parseSearchLimit query) fun limit =>
      withParams (parseRerank query) fun rerank =>
      withParams (parseFilters E.parseFloat query) fun filters =>
      withParams (parseSort query) fun sort =>
        reply (searchDocuments coll q limit rerank filters sort) fun e =>
          if e.is .collectionNotVector then .error 400 "collection has no vectors, nothing to search"
          else internalError e

end Microserver.ReadHandlers
