import Microserver.Operations
import Microserver.Ranking

/-!
The queries over the items of a collection: filters on fields of `data`, the
listing of items, and the search by vector with its four shapes of SQL.
-/
namespace Microserver.Queries
open Microserver.Values Microserver.Store Microserver.Programs Microserver.Statements Microserver.Operations
open Microserver.Ranking

/-! ### Filters and sort -/

inductive FilterOp
  | eq
  | ne
  | lt
  | lte
  | gt
  | gte
  | like
deriving DecidableEq

structure FilterCondition where
  field : String
  sqlOp : FilterOp
  value : SqlValue
deriving DecidableEq

/-- The comparison of two values that are not NULL. -/
def FilterOp.holds (h : Host) : FilterOp → SqlValue → SqlValue → Bool
  | .eq, v, w => v.key = w.key
  | .ne, v, w => v.key ≠ w.key
  | .lt, v, w => v.key < w.key
  | .lte, v, w => v.key ≤ w.key
  | .gt, v, w => w.key < v.key
  | .gte, v, w => w.key ≤ v.key
  | .like, v, w => h.like v w

/-- `json_extract(data, ?) op ?`, which is not true of NULL. -/
def FilterCondition.holds (h : Host) (c : FilterCondition) (data : Json) : Bool :=
  let v := jsonExtract h.jsonText data c.field
  v ≠ .null && c.value ≠ .null && c.sqlOp.holds h v c.value

structure SortSpec where
  field : String
  desc : Bool
deriving DecidableEq

/-- json_extract reads the data of the row. -/
def readable (r : Row) : Bool := r.data.depth ≤ jsonMaxDepth

def malformedJSON : Err := .sqlite "malformed JSON"

/-- The condition of filterWhereSQL on rows that are all looked at. -/
def filterWhere (h : Host) (filters : List FilterCondition) (rows : List Row) : Except Err (List Row) :=
  if filters ≠ [] ∧ ¬ rows.all readable then .error malformedJSON
  else .ok (rows.filter fun r => filters.all fun c => c.holds h r.data)

def SortSpec.key (h : Host) (spec : SortSpec) (r : Row) : ℕ ×ₗ WithBot (WithTop ℚ) ×ₗ String :=
  (jsonExtract h.jsonText r.data spec.field).key

/-- The ORDER BY of orderBySQL; rows that compare equal stay as they come. -/
def orderBySQL (h : Host) (spec : SortSpec) (rows : List Row) : Except Err (List Row) :=
  if ¬ rows.all readable then .error malformedJSON
  else if spec.desc then .ok (sortBy (fun r => OrderDual.toDual (spec.key h r)) (h.visit rows))
  else .ok (sortBy (spec.key h) (h.visit rows))

/-- LIMIT, where a negative number is none. -/
def limitRows (limit : Int) (rows : List Row) : List Row := if limit < 0 then rows else rows.take limit.toNat

/-! ### Listing -/

/-- A scan in the order of ids that stops when it has found enough rows. -/
def scan (h : Host) (filters : List FilterCondition) : Nat → List Row → Except Err (List Row)
  | 0, _ => .ok []
  | _ + 1, [] => .ok []
  | n + 1, r :: rest =>
    if filters ≠ [] ∧ ¬ readable r then .error malformedJSON
    else if filters.all fun c => c.holds h r.data then (scan h filters n rest).map (fun found => r :: found)
    else scan h filters (n + 1) rest

/-- The rows of listDocuments before LIMIT and OFFSET. A plain table is read by
    its key; vec0 returns all its rows, which are then sorted. -/
def listRows (h : Host) (t : Table) (limit offset : Int) (filters : List FilterCondition) (sort : Option SortSpec) :
    Except Err (List Row) :=
  match sort with
  | some spec =>
    match filterWhere h filters t.rows with
    | .error e => .error e
    | .ok rows => orderBySQL h spec rows
  | none =>
    if t.kind = .plain ∧ 0 ≤ limit then scan h filters (offset.toNat + limit.toNat) (sortBy (·.id) t.rows)
    else filterWhere h filters (sortBy (·.id) t.rows)

def listQuery (coll : Collection) (limit offset : Int) (filters : List FilterCondition) (sort : Option SortSpec)
    (h : Host) (s : DB) : Except Err (List Document) :=
  match s.docs coll.tableName with
  | .error e => .error e
  | .ok t =>
    if coll.hasVector && t.kind = .plain then .error noSuchColumn
    else (listRows h t limit offset filters sort).map fun rows =>
      (limitRows limit (rows.drop offset.toNat)).map fun r => ⟨r.id, if coll.hasVector then r.text else "", r.data, none⟩

def listDocuments (coll : Collection) (limit offset : Int) (filters : List FilterCondition) (sort : Option SortSpec) :
    Op (List Document) :=
  .call (.wrapped "listing documents") (.read (listQuery coll limit offset filters sort))

/-! ### Search -/

def oversampleFactor : Int := 8

/-- `vec_quantize_binary` of one float32 component: it is greater than zero. -/
def quantize (x : UInt32) : Bool := 0 < x && x ≤ 0x7F800000

/-- The Hamming distance of the quantized vectors. -/
def hammingDistance (a b : Vector32) : Nat := (a.zip b).countP fun p => quantize p.1 ≠ quantize p.2

/-- KNN in vec0: the `k` nearest rows, rows at one distance in an order of vec0's own. -/
def knn (h : Host) (s : DB) (table : String) (vec : Vector32) (k : Int) : Except Err (List Row) :=
  match s.find table with
  | none => .error noSuchTable
  | some t =>
    match t.kind with
    | .vec0 dimensions =>
      if vec.length % 8 ≠ 0 then .error (.sqlite "Binary quantization requires vectors with a length divisible by 8")
      else if (vec.length : Int) ≠ dimensions then .error (.sqlite "Dimension mismatch for query vector")
      else if k < 0 then .error (.sqlite "k value in knn queries must be greater than or equal to 0.")
      else if 4096 < k then .error (.sqlite "k value in knn query too large, maximum is 4096")
      else .ok ((sortBy (fun r => hammingDistance vec r.embedding) (h.visit t.rows)).take k.toNat)
    | _ => .error noSuchColumn

/-- `int` arithmetic wraps around at 64 bits. -/
def coarseLimit (limit : Int) : Int := (limit * oversampleFactor).bmod (2 ^ 64)

/-- `distance` in the final SELECT. -/
def distance (h : Host) (rerank : Bool) (vec : Vector32) (r : Row) : ℚ :=
  if rerank then h.distanceL2 vec r.embedding else hammingDistance vec r.embedding

/-- ORDER BY distance. -/
def orderByDistance (h : Host) (rerank : Bool) (vec : Vector32) (rows : List Row) : List Row :=
  sortBy (distance h rerank vec) (h.visit rows)

/-- The final ORDER BY. -/
def finalOrderBy (h : Host) (rerank : Bool) (vec : Vector32) (sort : Option SortSpec) (rows : List Row) :
    Except Err (List Row) :=
  match sort with
  | none => .ok (orderByDistance h rerank vec rows)
  | some spec => orderBySQL h spec rows

/-- The rows among which the final ORDER BY and LIMIT select: the nearest ones
    that meet the filters, for `rerank` by way of the CTE. -/
def coarseMatches (h : Host) (s : DB) (table : String) (vec : Vector32) (limit : Int) (rerank : Bool)
    (filters : List FilterCondition) : Except Err (List Row) := do
  let rows ← knn h s table vec (coarseLimit limit)
  let matching ← filterWhere h filters rows
  return if rerank then limitRows (coarseLimit limit) (orderByDistance h false vec matching) else matching

/-- The four queries of searchDocuments. -/
def searchRows (h : Host) (s : DB) (table : String) (vec : Vector32) (limit : Int) (rerank : Bool)
    (filters : List FilterCondition) (sort : Option SortSpec) : Except Err (List Row) :=
  if rerank = false ∧ filters = [] ∧ sort = none then
    (knn h s table vec limit).map (orderByDistance h false vec)
  else do
    let rows ← coarseMatches h s table vec limit rerank filters
    let sorted ← finalOrderBy h rerank vec sort rows
    return limitRows limit sorted

def searchDocuments (coll : Collection) (text : String) (limit : Int) (rerank : Bool) (filters : List FilterCondition)
    (sort : Option SortSpec) : Op (List Document) :=
  if !coll.hasVector then .fail .collectionNotVector
  else do
    let vec ← embed "embedding query" text
    let serialized := serializeFloat32 vec
    .call (.wrapped "searching documents") (.read fun h s =>
      (searchRows h s coll.tableName serialized limit rerank filters sort).map fun rows =>
        rows.map fun r => ⟨r.id, r.text, r.data, some (distance h rerank serialized r)⟩)

end Microserver.Queries
