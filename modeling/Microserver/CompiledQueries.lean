import Microserver.Listings
import Microserver.Placeholders
import Microserver.SqlSelects

/-!
The queries that are sent mean what the model of the reads says. Each text with its
arguments is read as a query, and what the read returns is an answer that SQL allows
it: for listings without and with a sort, for the four shapes of the search by
vector, and for aggregates without and with groups.
-/
namespace Microserver.CompiledQueries
open Microserver.Values Microserver.Store Microserver.Statements Microserver.Operations Microserver.Ranking Microserver.Params
open Microserver.Queries hiding orderBySQL
open Microserver.ReadHandlers Microserver.SqlTexts Microserver.QueryTexts Microserver.Placeholders
open Microserver.SqlSelects
open Microserver.Listings (matching filterWhere_readable filterWhere_ok scan_readable)

/-! ### The queries that are read -/

/-- `json_extract(data, path)` -/
def extract (field : String) : Expr Arg := .apply₂ "json_extract".toList (.column "data".toList) (.arg (path field))

def conditionOf (c : FilterCondition) : Cond Arg := ⟨extract c.field, (opSQL c.sqlOp).toList, .arg (.value c.value)⟩

def extractLexemes (field : String) : List (Lexeme Arg) :=
  [.word "json_extract".toList, .sign ['('], .word "data".toList, .sign [','], .arg (path field), .sign [')']]

def opLexeme (op : FilterOp) : Lexeme Arg := if op = .like then .word "LIKE".toList else .sign (opSQL op).toList

def conditionLexemes (c : FilterCondition) : List (Lexeme Arg) :=
  extractLexemes c.field ++ [opLexeme c.sqlOp, .arg (.value c.value)]

/-- Conditions behind a first one. -/
def andLexemes (filters : List FilterCondition) : List (Lexeme Arg) :=
  filters.flatMap fun c => .word "AND".toList :: conditionLexemes c

def orderLexemes (standard : Name) : Option SortSpec → List (Lexeme Arg)
  | none => [.word standard]
  | some s => extractLexemes s.field ++ [.word (if s.desc then "DESC".toList else "ASC".toList)]

def orderOf (standard : Name) : Option SortSpec → Expr Arg × Bool
  | none => (.column standard, false)
  | some s => (extract s.field, s.desc)

/-! ### Lexemes -/

theorem lexes_op (op : FilterOp) : Lexes (lit (") " ++ opSQL op ++ " ") : List (Piece Arg)) [.sign [')'], opLexeme op] := by
  have chars : (") " ++ opSQL op ++ " ").toList = ')' :: ' ' :: (opSQL op).toList ++ [' '] := by simp
  unfold lit
  rw [chars]
  cases op <;> rfl

theorem lexes_condition (c : FilterCondition) : Lexes (conditionPieces c) (conditionLexemes c) := by
  have before : Lexes (lit "json_extract(data, " : List (Piece Arg))
      [.word "json_extract".toList, .sign ['('], .word "data".toList, .sign [',']] := rfl
  have all := before.append (((lexes_op c.sqlOp).append (lexes_nil.arg (.value c.value))).arg (path c.field))
  simpa only [conditionPieces, conditionLexemes, extractLexemes, List.append_assoc, List.cons_append, List.nil_append] using all

theorem lexes_and (filters : List FilterCondition) :
    Lexes (filters.flatMap fun c => lit " AND " ++ conditionPieces c) (andLexemes filters) := by
  induction filters with
  | nil => exact lexes_nil
  | cons c rest ih =>
    have keyword : Lexes (lit " AND " : List (Piece Arg)) [.word "AND".toList] := rfl
    simpa [andLexemes] using (keyword.append (lexes_condition c)).append ih

theorem intercalate_and (c : FilterCondition) (rest : List FilterCondition) :
    (lit " AND ").intercalate ((c :: rest).map conditionPieces) =
      conditionPieces c ++ rest.flatMap fun c => lit " AND " ++ conditionPieces c := by
  induction rest generalizing c with
  | nil => simp
  | cons next rest ih =>
    rw [List.map_cons, List.map_cons, List.intercalate_cons_cons, ← List.map_cons, ih]
    simp

theorem lexes_filters {keyword : String} {w : Name} (reads : Lexes (lit keyword : List (Piece Arg)) [.word w])
    (filters : List FilterCondition) : Lexes (filterPieces keyword filters)
      (match filters with | [] => [] | c :: rest => .word w :: (conditionLexemes c ++ andLexemes rest)) := by
  unfold filterPieces
  cases filters with
  | nil => exact lexes_nil
  | cons c rest =>
    rw [if_neg (List.cons_ne_nil c rest), intercalate_and]
    exact reads.append ((lexes_condition c).append (lexes_and rest))

/-- The pieces between the table and what follows are those of the conditions. -/
def whereLexemes : List FilterCondition → List (Lexeme Arg)
  | [] => []
  | c :: rest => .word "WHERE".toList :: (conditionLexemes c ++ andLexemes rest)

theorem lexes_where (filters : List FilterCondition) : Lexes (filterPieces "WHERE " filters) (whereLexemes filters) := by
  have keyword : Lexes (lit "WHERE " : List (Piece Arg)) [.word "WHERE".toList] := rfl
  have all := lexes_filters keyword filters
  cases filters <;> exact all

theorem lexes_more (filters : List FilterCondition) : Lexes (filterPieces "AND " filters) (andLexemes filters) := by
  have keyword : Lexes (lit "AND " : List (Piece Arg)) [.word "AND".toList] := rfl
  have all := lexes_filters keyword filters
  cases filters <;> exact all

/-- An order, and behind it a keyword. -/
theorem lexes_order {standard after : String} {w : Name} {next : List (Lexeme Arg)}
    (starts : scan .outside (lit standard : List (Piece Arg)) = ([], .word w))
    (ends : ∀ text, scan (.word text) (lit after : List (Piece Arg)) = (.word text :: next, .outside)) (sort : Option SortSpec) :
    Lexes (orderPieces standard sort ++ lit after) (orderLexemes w sort ++ next) := by
  unfold Lexes
  cases sort with
  | none => rw [orderPieces, scan_append, starts, ends]; rfl
  | some s =>
    obtain ⟨field, desc⟩ := s
    have direction : scan .outside (lit (") " ++ if desc then "DESC" else "ASC") : List (Piece Arg)) =
        ([.sign [')']], .word (if desc then "DESC".toList else "ASC".toList)) := by
      have chars : (") " ++ if desc then "DESC" else "ASC").toList =
          ')' :: ' ' :: (if desc then "DESC".toList else "ASC".toList) := by cases desc <;> simp
      unfold lit
      rw [chars]
      cases desc <;> rfl
    have before : Lexes (lit "json_extract(data, " ++ [.arg (path field)] : List (Piece Arg))
        [.word "json_extract".toList, .sign ['('], .word "data".toList, .sign [','], .arg (path field)] := rfl
    have pieces : orderPieces standard (some ⟨field, desc⟩) ++ lit after = (lit "json_extract(data, " ++ [.arg (path field)]) ++
        (lit (") " ++ if desc then "DESC" else "ASC") ++ lit after) := by
      simp only [orderPieces, List.append_assoc, List.cons_append, List.nil_append]
    rw [pieces, scan_append, before, scan_append, direction, ends]
    cases desc <;> rfl

/-! ### Reading the lexemes -/

theorem cond_condition (c : FilterCondition) (rest : List (Lexeme Arg)) :
    cond (conditionLexemes c ++ rest) = some (conditionOf c, rest) := by
  obtain ⟨field, op, value⟩ := c
  cases op <;> rfl

/-- Conditions are read up to what is no AND. -/
theorem conds_and {ls tail : List (Lexeme Arg)} {c : Cond Arg} (first : ∀ rest, cond (ls ++ rest) = some (c, rest))
    (filters : List FilterCondition) (closed : words ["AND".toList] tail = none) {fuel : Nat} (enough : filters.length < fuel) :
    conds fuel (ls ++ (andLexemes filters ++ tail)) = some (c :: filters.map conditionOf, tail) := by
  obtain ⟨fuel, rfl⟩ := Nat.exists_eq_succ_of_ne_zero (Nat.ne_of_gt (Nat.zero_lt_of_lt enough))
  induction filters generalizing ls c fuel with
  | nil => exact conds_last (first tail) closed fuel
  | cons next rest ih =>
    obtain ⟨fuel, rfl⟩ := Nat.exists_eq_succ_of_ne_zero (Nat.ne_of_gt (Nat.zero_lt_of_lt (Nat.lt_of_succ_lt_succ enough)))
    have later := ih (cond_condition next) fuel (Nat.lt_of_succ_lt_succ enough)
    have split : andLexemes (next :: rest) ++ tail =
        .word "AND".toList :: (conditionLexemes next ++ (andLexemes rest ++ tail)) := by simp [andLexemes]
    rw [split]
    exact conds_cons (first _) later

theorem length_andLexemes (filters : List FilterCondition) : filters.length ≤ (andLexemes filters).length := by
  induction filters with
  | nil => exact Nat.le_refl 0
  | cons c rest ih =>
    simp only [andLexemes, List.flatMap_cons, List.length_append, List.length_cons] at ih ⊢
    omega

/-- A WHERE clause is read up to a keyword. -/
theorem where_read (filters : List FilterCondition) (tail : List (Lexeme Arg)) (closed : words ["AND".toList] tail = none)
    (absent : words ["WHERE".toList] tail = none) (fuel : Nat) (enough : (whereLexemes filters).length ≤ fuel) :
    ∃ cs, clause ["WHERE".toList] (conds fuel) (whereLexemes filters ++ tail) = some (cs, tail) ∧
      cs.getD [] = filters.map conditionOf := by
  cases filters with
  | nil => exact ⟨none, by simp only [whereLexemes, List.nil_append, clause, absent], rfl⟩
  | cons c rest =>
    have long : rest.length < fuel := by
      have each := length_andLexemes rest
      simp only [whereLexemes, List.length_cons, List.length_append] at enough
      omega
    refine ⟨some (conditionOf c :: rest.map conditionOf), ?_, rfl⟩
    have read := conds_and (cond_condition c) rest closed long
    show (conds fuel (conditionLexemes c ++ andLexemes rest ++ tail)).map _ = _
    rw [List.append_assoc, read]
    rfl

/-! ### Listings -/

def listingOf (coll : Collection) (limit offset : Int) (filters : List FilterCondition) (sort : Option SortSpec) : Select Arg where
  items := (if coll.hasVector then ["id", "text", "data"] else ["id", "data"]).map fun c => ⟨.column c.toList, none⟩
  source := coll.tableName.toList
  conds := filters.map conditionOf
  group := none
  order := some (orderOf "id".toList sort)
  limit := some (.arg (.int limit))
  offset := some (.arg (.int offset))

def listingLexemes (coll : Collection) (limit offset : Int) (filters : List FilterCondition) (sort : Option SortSpec) :
    List (Lexeme Arg) :=
  (if coll.hasVector then [.word "SELECT".toList, .word "id".toList, .sign [','], .word "text".toList, .sign [','], .word "data".toList]
    else [.word "SELECT".toList, .word "id".toList, .sign [','], .word "data".toList]) ++
  [.word "FROM".toList, .name coll.tableName.toList] ++ whereLexemes filters ++ [.word "ORDER".toList, .word "BY".toList] ++
    orderLexemes "id".toList sort ++ [.word "LIMIT".toList, .arg (.int limit), .word "OFFSET".toList, .arg (.int offset)]

/-- A quoted name with a blank behind it. -/
theorem lexes_quoteIdent (name : String) {c : Char} (blank : c.isWhitespace = true) :
    Lexes (lit (quoteIdent name) ++ [.char c] : List (Piece Arg)) [.name name.toList] := by
  have all := lexes_quoted (α := Arg) name.toList blank
  unfold lit
  rw [quoteIdent_toList]
  simpa using all

theorem lit_blank : (lit " " : List (Piece Arg)) = [.char ' '] := rfl

theorem lexes_listing (coll : Collection) (limit offset : Int) (filters : List FilterCondition) (sort : Option SortSpec) :
    Lexes (listDocumentsMeant coll limit offset filters sort) (listingLexemes coll limit offset filters sort) := by
  have columns : Lexes (lit (if coll.hasVector then "SELECT id, text, data FROM " else "SELECT id, data FROM ") : List (Piece Arg))
      ((if coll.hasVector then [.word "SELECT".toList, .word "id".toList, .sign [','], .word "text".toList, .sign [','],
        .word "data".toList] else [.word "SELECT".toList, .word "id".toList, .sign [','], .word "data".toList]) ++
        [.word "FROM".toList]) := by
    cases coll.hasVector <;> rfl
  have table := lexes_quoteIdent coll.tableName (show ' '.isWhitespace = true by decide)
  have keywords : Lexes (lit " ORDER BY " : List (Piece Arg)) [.word "ORDER".toList, .word "BY".toList] := rfl
  have ordered : Lexes (orderPieces "id" sort ++ lit " LIMIT ") (orderLexemes "id".toList sort ++ [.word "LIMIT".toList]) :=
    lexes_order rfl (fun _ => rfl) sort
  have skipped : Lexes (lit " OFFSET " ++ [.arg (.int offset)] : List (Piece Arg)) [.word "OFFSET".toList, .arg (.int offset)] := rfl
  have all := ((((columns.append table).append (lexes_where filters)).append keywords).append ordered).append
    (skipped.arg (.int limit))
  have pieces : listDocumentsMeant coll limit offset filters sort =
      lit (if coll.hasVector then "SELECT id, text, data FROM " else "SELECT id, data FROM ") ++
        (lit (quoteIdent coll.tableName) ++ [.char ' ']) ++ filterPieces "WHERE " filters ++ lit " ORDER BY " ++
        (orderPieces "id" sort ++ lit " LIMIT ") ++ .arg (.int limit) :: (lit " OFFSET " ++ [.arg (.int offset)]) := by
    simp only [listDocumentsMeant, lit_blank, List.append_assoc, List.cons_append, List.nil_append]
  rw [pieces]
  simpa only [listingLexemes, List.append_assoc, List.cons_append, List.nil_append] using all

/-- What stands behind the conditions of a listing. -/
def listingTail (limit offset : Int) (sort : Option SortSpec) : List (Lexeme Arg) :=
  .word "ORDER".toList :: .word "BY".toList :: (orderLexemes "id".toList sort ++
    [.word "LIMIT".toList, .arg (.int limit), .word "OFFSET".toList, .arg (.int offset)])

theorem select_listing (coll : Collection) (limit offset : Int) (filters : List FilterCondition) (sort : Option SortSpec) :
    select (listingLexemes coll limit offset filters sort) = some (listingOf coll limit offset filters sort, []) := by
  obtain ⟨name, tableName, hasVector, dimensions⟩ := coll
  have split : listingLexemes ⟨name, tableName, hasVector, dimensions⟩ limit offset filters sort =
      (if hasVector then [.word "SELECT".toList, .word "id".toList, .sign [','], .word "text".toList, .sign [','], .word "data".toList]
        else [.word "SELECT".toList, .word "id".toList, .sign [','], .word "data".toList]) ++
      .word "FROM".toList :: .name tableName.toList :: (whereLexemes filters ++ listingTail limit offset sort) := by
    simp only [listingLexemes, listingTail, List.append_assoc, List.cons_append, List.nil_append]
  obtain ⟨cs, read, got⟩ := where_read filters (listingTail limit offset sort) rfl rfl
    (whereLexemes filters ++ listingTail limit offset sort).length (by simp)
  have rest : select (listingLexemes ⟨name, tableName, hasVector, dimensions⟩ limit offset filters sort) =
      Option.bind (clause ["WHERE".toList] (conds (whereLexemes filters ++ listingTail limit offset sort).length)
        (whereLexemes filters ++ listingTail limit offset sort)) fun read =>
        clauses ((if hasVector then ["id", "text", "data"] else ["id", "data"]).map fun c => ⟨.column c.toList, none⟩)
          tableName.toList (read.1.getD []) read.2 := by
    rw [split]
    cases hasVector <;> rfl
  rw [rest, read, Option.bind_some, got]
  rcases sort with _ | ⟨field, _ | _⟩ <;> rfl

/-! ### What the names mean -/

/-- A value in a query. -/
inductive Datum
  | json (j : Json)
  | value (v : SqlValue)
  | vector (v : Vector32)
  | bits (b : List Bool)

abbrev Key := ℕ ×ₗ WithBot (WithTop ℚ) ×ₗ String

/-- The place of a value in an order; blobs come last. -/
def Datum.key : Datum → Key
  | .value v => v.key
  | _ => toLex (3, toLex (⊥, ""))

def Datum.sql : Datum → Option SqlValue
  | .value v => some v
  | _ => none

def argument : Arg → Datum
  | .vector v => .vector v
  | .int n => .value (.integer n)
  | .text s => .value (.text s)
  | .value v => .value v

def number : Datum → Option Int
  | .value (.integer n) => some n
  | _ => none

/-- The field of a path of one step. -/
def fieldOfPath (p : String) : Option String :=
  match p.toList with
  | '$' :: '.' :: field => if collectionNameRe (String.ofList field) then some (String.ofList field) else none
  | _ => none

/-- The functions of SQLite and of sqlite-vec. -/
def applySQL (h : Host) (f : Name) : List Datum → Option Datum
  | [.json j, .value (.text p)] =>
    if f = "json_extract".toList ∧ j.depth ≤ jsonMaxDepth then
      (fieldOfPath p).map fun field => .value (jsonExtract h.jsonText j field)
    else none
  | [.vector v] => if f = "vec_quantize_binary".toList ∧ v.length % 8 = 0 then some (.bits (v.map quantize)) else none
  | [.vector v, .vector w] =>
    if f = "vec_distance_L2".toList then some (.value (.real (.finite (h.distanceL2 w v)))) else none
  | _ => none

def operators : List FilterOp := [.eq, .ne, .lt, .lte, .gt, .gte, .like]

/-- No comparison is true of NULL. -/
def holdsSQL (h : Host) (op : Name) : Datum → Datum → Bool
  | .value v, .value w => v ≠ .null && w ≠ .null && (operators.find? fun o => (opSQL o).toList = op).any fun o => o.holds h v w
  | _, _ => false

def aggFunctions : List AggFunction := [.count, .sum, .avg, .min, .max]

def aggregateSQL (E : Engine) (f : Name) (values : List Datum) : Option Datum :=
  (aggFunctions.find? fun fn => (fnSQL fn).toList = f).bind fun fn =>
    (values.mapM Datum.sql).bind fun vs => (fn.eval E vs).toOption.map Datum.value

/-- The columns of a row; those with vectors have more. -/
def columns (vectors : Bool) (r : Store.Row) : SqlSelects.Row Datum :=
  if vectors then [("id".toList, .value (.integer r.id)), ("embedding".toList, .vector r.embedding),
    ("text".toList, .value (.text r.text)), ("data".toList, .json r.data)]
  else [("id".toList, .value (.integer r.id)), ("data".toList, .json r.data)]

/-- The Hamming distance of a vector in bits. -/
def bitDistance (query : List Bool) (r : Store.Row) : Nat := (query.zip (r.embedding.map quantize)).countP fun p => p.1 ≠ p.2

/-- A row that is found by its distance has this as one more column. -/
def foundColumns (query : List Bool) (r : Store.Row) : SqlSelects.Row Datum :=
  columns true r ++ [("distance".toList, .value (.integer (bitDistance query r)))]

/-- What a table finds: all its rows, or the nearest ones to a vector, as many as
    `k` says or else LIMIT. -/
inductive Finds (h : Host) (s : DB) (name : Name) : List (Cond Arg) → Option Int → List (SqlSelects.Row Datum) → List (Cond Arg) → Prop
  | all {t : Table} {cs : List (Cond Arg)} {limit : Option Int} (docs : s.docs (String.ofList name) = .ok t)
      (plain : ∀ c ∈ cs, c.op ≠ "MATCH".toList) : Finds h s name cs limit (t.rows.map (columns (t.kind ≠ .plain))) cs
  | nearest {t : Table} {dimensions k : Int} {v : Arg} {query : List Bool} {cs left : List (Cond Arg)} {limit : Option Int}
      {ranking : List Store.Row} (there : s.find (String.ofList name) = some t) (kind : t.kind = .vec0 dimensions)
      (bits : applySQL h "vec_quantize_binary".toList [argument v] = some (.bits query)) (fits : (query.length : Int) = dimensions)
      (number : (cs = left ∧ limit = some k) ∨ cs = ⟨.column "k".toList, "=".toList, .arg (.int k)⟩ :: left)
      (bounds : 0 ≤ k ∧ k ≤ 4096) (perm : ranking.Perm t.rows)
      (ranked : ranking.Pairwise fun r r' => bitDistance query r ≤ bitDistance query r')
      (plain : ∀ c ∈ left, c.op ≠ "MATCH".toList ∧ c.left ≠ .column "k".toList) :
      Finds h s name (⟨.column "embedding_bit".toList, "MATCH".toList, .apply "vec_quantize_binary".toList (.arg v)⟩ :: cs) limit
        ((ranking.take k.toNat).map (foundColumns query)) left

/-- The SQL of the server, on one state of the database. -/
def dialect (E : Engine) (h : Host) (s : DB) : Dialect Arg Datum Key where
  value := fun a => some (argument a)
  number := number
  apply := applySQL h
  holds := holdsSQL h
  key := Datum.key
  aggregates := fun f => aggFunctions.any fun fn => (fnSQL fn).toList = f
  aggregate := aggregateSQL E
  count := fun f n => if f = "COUNT".toList then some (.value (.integer n)) else none
  finds := Finds h s

/-! ### Conditions -/

section Conditions
variable {E : Engine} {h : Host} {s : DB}

theorem fieldOfPath_path {field : String} (valid : collectionNameRe field = true) : fieldOfPath ("$." ++ field) = some field := by
  have chars : ("$." ++ field).toList = '$' :: '.' :: field.toList := by simp
  unfold fieldOfPath
  rw [chars]
  show (if collectionNameRe (String.ofList field.toList) then some (String.ofList field.toList) else none) = _
  rw [String.ofList_toList, if_pos valid]

/-- Where the data stands in a row. -/
theorem eval_extract {row : SqlSelects.Row Datum} {j : Json} (data : row.lookup "data".toList = some (.json j))
    (readable : j.depth ≤ jsonMaxDepth) {field : String} (valid : collectionNameRe field = true) :
    (extract field).eval (dialect E h s) row = some (.value (jsonExtract h.jsonText j field)) := by
  show (row.lookup "data".toList).bind (fun x => applySQL h "json_extract".toList [x, .value (.text ("$." ++ field))]) = _
  rw [data, Option.bind_some]
  show (if "json_extract".toList = "json_extract".toList ∧ j.depth ≤ jsonMaxDepth then _ else _) = _
  rw [if_pos ⟨rfl, readable⟩, fieldOfPath_path valid, Option.map_some]

theorem holdsSQL_op (op : FilterOp) (v w : SqlValue) :
    holdsSQL h (opSQL op).toList (.value v) (.value w) = (v ≠ .null && w ≠ .null && op.holds h v w) := by
  have found : (operators.find? fun o => (opSQL o).toList = (opSQL op).toList) = some op := by cases op <;> decide
  show (_ && _ && (operators.find? fun o => (opSQL o).toList = (opSQL op).toList).any _) = _
  rw [found]
  rfl

theorem eval_condition {row : SqlSelects.Row Datum} {j : Json} (data : row.lookup "data".toList = some (.json j))
    (readable : j.depth ≤ jsonMaxDepth) {c : FilterCondition} (valid : collectionNameRe c.field = true) :
    (conditionOf c).eval (dialect E h s) row = some (c.holds h j) := by
  show ((extract c.field).eval (dialect E h s) row).bind (fun x => (some (Datum.value c.value)).map fun y =>
    holdsSQL h (opSQL c.sqlOp).toList x y) = _
  rw [eval_extract data readable valid, Option.bind_some, Option.map_some, holdsSQL_op]
  rfl

theorem meets_conditions {row : SqlSelects.Row Datum} {j : Json} (data : row.lookup "data".toList = some (.json j))
    {filters : List FilterCondition} (readable : filters ≠ [] → j.depth ≤ jsonMaxDepth)
    (valid : ∀ c ∈ filters, collectionNameRe c.field = true) :
    meets (dialect E h s) row (filters.map conditionOf) = some (filters.all fun c => c.holds h j) := by
  induction filters with
  | nil => rfl
  | cons c rest ih =>
    have deep := readable (List.cons_ne_nil c rest)
    rw [List.map_cons, meets, eval_condition data deep (valid c List.mem_cons_self), Option.bind_some, List.all_cons]
    cases c.holds h j with
    | false => rfl
    | true => exact ih (fun _ => deep) fun c member => valid c (List.mem_cons_of_mem _ member)

theorem columns_data (vectors : Bool) (r : Store.Row) : (columns vectors r).lookup "data".toList = some (.json r.data) := by
  cases vectors <;> rfl

/-- Filters are left to SQLite. -/
theorem plain_conditions (filters : List FilterCondition) :
    ∀ c ∈ filters.map conditionOf, c.op ≠ "MATCH".toList ∧ c.left ≠ .column "k".toList := by
  intro c member
  obtain ⟨⟨field, op, value⟩, -, rfl⟩ := List.mem_map.mp member
  refine ⟨?_, fun column => by cases column⟩
  show (opSQL op).toList ≠ "MATCH".toList
  cases op <;> decide

/-- Without MATCH a query goes over the whole table. -/
theorem finds_all {t : Table} {name : String} {limit : Option Int} (docs : s.docs name = .ok t) (filters : List FilterCondition)
    (rows : List (SqlSelects.Row Datum)) (left : List (Cond Arg)) :
    Finds h s name.toList (filters.map conditionOf) limit rows left ↔
      ∃ found, found = t.rows ∧ rows = found.map (columns (t.kind ≠ .plain)) ∧ left = filters.map conditionOf := by
  constructor
  · intro finds
    generalize these : filters.map conditionOf = cs at finds
    cases finds with
    | all there _ =>
      rw [String.ofList_toList, docs] at there
      cases there
      exact ⟨_, rfl, rfl, rfl⟩
    | nearest =>
      have simple := plain_conditions filters _ (these ▸ List.mem_cons_self)
      exact absurd rfl simple.1
  · rintro ⟨_, rfl, rfl, rfl⟩
    exact .all ((congrArg s.docs String.ofList_toList).trans docs) fun c member => (plain_conditions filters c member).1

theorem key_number_le {a b : WithBot (WithTop ℚ)} (le : a ≤ b) : (toLex (1, toLex (a, "")) : Key) ≤ toLex (1, toLex (b, "")) := by
  rw [Prod.Lex.toLex_le_toLex]
  refine .inr ⟨rfl, ?_⟩
  rw [Prod.Lex.toLex_le_toLex]
  rcases lt_or_eq_of_le le with less | same
  · exact .inl less
  · exact .inr ⟨same, le_refl _⟩

theorem key_integer_le {m n : Int} (le : m ≤ n) : (SqlValue.integer m).key ≤ (SqlValue.integer n).key := by
  refine key_number_le ?_
  show (((m : ℚ) : WithTop ℚ) : WithBot (WithTop ℚ)) ≤ ((n : ℚ) : WithTop ℚ)
  rw [WithBot.coe_le_coe, WithTop.coe_le_coe]
  exact_mod_cast le

theorem key_finite_le {x y : ℚ} (le : x ≤ y) : (SqlValue.real (.finite x)).key ≤ (SqlValue.real (.finite y)).key := by
  refine key_number_le ?_
  show ((x : WithTop ℚ) : WithBot (WithTop ℚ)) ≤ (y : WithTop ℚ)
  rwa [WithBot.coe_le_coe, WithTop.coe_le_coe]

end Conditions

/-! ### Listings -/

section Listings
variable {E : Engine} {h : Host} {s : DB} {t : Table} {filters : List FilterCondition} {sort : Option SortSpec}

/-- What the rows are sorted by. -/
def valueOf (h : Host) (standard : Store.Row → Datum) (sort : Option SortSpec) (r : Store.Row) : Datum :=
  match sort with
  | none => standard r
  | some spec => .value (jsonExtract h.jsonText r.data spec.field)

/-- The order of a query is that of its sort. -/
theorem orderOf_desc (standard : Name) : (orderOf standard sort).2 = (sort.map (·.desc)).getD false := by
  cases sort <;> rfl

/-- The rows stand in the order of a sort, or of what stands for none. -/
def Sorted (h : Host) (standard : Store.Row → Datum) (sort : Option SortSpec) (rows : List Store.Row) : Prop :=
  rows.Pairwise fun x y => if (sort.map (·.desc)).getD false then (valueOf h standard sort y).key ≤ (valueOf h standard sort x).key
    else (valueOf h standard sort x).key ≤ (valueOf h standard sort y).key

theorem inOrder_iff {standard : Name} {value : Store.Row → Datum} {rows : List Store.Row} :
    InOrder (dialect E h s) (some (orderOf standard sort)) (valueOf h value sort) rows ↔ Sorted h value sort rows := by
  unfold InOrder Sorted
  rw [← orderOf_desc standard]
  constructor
  · intro ordered
    exact ordered _ _ rfl
  · rintro sorted e desc is
    rwa [Option.some.inj is] at sorted

/-- ORDER BY a field. -/
theorem orderBySQL_sorted {rows : List Store.Row} (readable : ∀ r ∈ rows, Queries.readable r = true) (standard : Store.Row → Datum)
    (spec : SortSpec) : ∃ sorted, Queries.orderBySQL h spec rows = .ok sorted ∧ sorted.Perm rows ∧ Sorted h standard (some spec) sorted := by
  obtain ⟨field, desc⟩ := spec
  unfold Queries.orderBySQL
  rw [if_neg fun none => none (List.all_eq_true.mpr readable)]
  cases desc with
  | true =>
    refine ⟨_, rfl, (sortBy_perm _ _).trans (h.visit_perm rows), ?_⟩
    exact sortBy_pairwise (fun r => OrderDual.toDual (SortSpec.key h ⟨field, true⟩ r)) (h.visit rows)
  | false =>
    refine ⟨_, rfl, (sortBy_perm _ _).trans (h.visit_perm rows), ?_⟩
    exact sortBy_pairwise (SortSpec.key h ⟨field, false⟩) (h.visit rows)

def byId (r : Store.Row) : Datum := .value (.integer r.id)

theorem sorted_byId (rows : List Store.Row) : Sorted h byId none (matching h filters (sortBy (·.id) rows)) := by
  refine ((sortBy_pairwise (fun r : Store.Row => r.id) rows).filter _).imp fun {x y} le => ?_
  exact key_integer_le le

/-- The page of a listing: the rows that meet the filters, in order, from the offset on
    and up to the limit. -/
def ListedPage (h : Host) (limit offset : Int) (filters : List FilterCondition) (sort : Option SortSpec)
    (rows listed : List Store.Row) : Prop :=
  ∃ ordered, ordered.Perm (matching h filters rows) ∧ Sorted h byId sort ordered ∧ listed = page (some limit) (some offset) ordered

/-- The rows of a listing are such a page, even where the scan stops early. -/
theorem listRows_pages (readable : filters ≠ [] ∨ sort ≠ none → ∀ r ∈ t.rows, Queries.readable r = true) (limit offset : Int) :
    ∃ rows, listRows h t limit offset filters sort = .ok rows ∧
      ListedPage h limit offset filters sort t.rows (limitRows limit (rows.drop offset.toNat)) := by
  have paged (rows : List Store.Row) : limitRows limit (rows.drop offset.toNat) = page (some limit) (some offset) rows := rfl
  have keyed : filters ≠ [] → ∀ r ∈ sortBy (·.id) t.rows, Queries.readable r = true := fun given r member =>
    readable (.inl given) r ((sortBy_perm (fun r : Store.Row => r.id) t.rows).mem_iff.mp member)
  have perm : (matching h filters (sortBy (·.id) t.rows)).Perm (matching h filters t.rows) := (sortBy_perm _ _).filter _
  unfold listRows ListedPage
  cases sort with
  | some spec =>
    have all := readable (.inr (Option.some_ne_none spec))
    have few : ∀ r ∈ matching h filters t.rows, Queries.readable r = true := fun r member => all r (List.mem_filter.mp member).1
    obtain ⟨sorted, done, reordered, ascending⟩ := orderBySQL_sorted (h := h) few byId spec
    refine ⟨sorted, ?_, sorted, reordered, ascending, paged sorted⟩
    simp only [filterWhere_readable fun _ => all, done]
  | none =>
    by_cases stops : t.kind = .plain ∧ 0 ≤ limit
    · have few : Queries.scan h filters (offset.toNat + limit.toNat) (sortBy (·.id) t.rows) =
          .ok ((matching h filters (sortBy (·.id) t.rows)).take (offset.toNat + limit.toNat)) := scan_readable _ keyed
      refine ⟨_, (if_pos stops).trans few, _, perm, sorted_byId t.rows, ?_⟩
      have positive : ¬ limit < 0 := Int.not_lt.mpr stops.2
      rw [limitRows, if_neg positive, page, if_neg positive, List.drop_take, Nat.add_sub_cancel_left, List.take_take, Nat.min_self]
      rfl
    · exact ⟨_, (if_neg stops).trans (filterWhere_readable keyed), _, perm, sorted_byId t.rows, paged _⟩

/-- What a listing shows of a row. -/
def listed (coll : Collection) (r : Store.Row) : SqlSelects.Row Datum :=
  if coll.hasVector then [("id".toList, .value (.integer r.id)), ("text".toList, .value (.text r.text)), ("data".toList, .json r.data)]
  else [("id".toList, .value (.integer r.id)), ("data".toList, .json r.data)]

def Datum.rational : Datum → Option ℚ
  | .value (.integer n) => some n
  | .value (.real (.finite x)) => some x
  | _ => none

/-- A row of an answer, scanned into a document. -/
def scanDocument : List Datum → Option Document
  | [.value (.integer id), .json data] => some ⟨id, "", data, none⟩
  | [.value (.integer id), .value (.text text), .json data] => some ⟨id, text, data, none⟩
  | [.value (.integer id), .value (.text text), .json data, distance] => distance.rational.map fun d => ⟨id, text, data, some d⟩
  | _ => none

theorem shown_listing {coll : Collection} {limit offset : Int} {vectors : Bool} (holdsVectors : coll.hasVector = true → vectors = true)
    (r : Store.Row) :
    shown (dialect E h s) (columns vectors r) (listingOf coll limit offset filters sort).items = some (listed coll r) := by
  obtain ⟨name, tableName, hasVector, dimensions⟩ := coll
  cases hasVector with
  | true =>
    rw [holdsVectors rfl]
    rfl
  | false => cases vectors <;> rfl

/-- The value that an order by a field or a column comes to. -/
theorem eval_order {standard : Name} {value : Store.Row → Datum} {row : SqlSelects.Row Datum} {r : Store.Row}
    (bare : row.lookup standard = some (value r)) (data : row.lookup "data".toList = some (.json r.data))
    (readable : sort ≠ none → Queries.readable r = true) (valid : ∀ spec, sort = some spec → collectionNameRe spec.field = true) :
    (orderOf standard sort).1.eval (dialect E h s) row = some (valueOf h value sort r) := by
  cases sort with
  | none => exact bare
  | some spec => exact eval_extract data (of_decide_eq_true (readable (Option.some_ne_none spec))) (valid spec rfl)

theorem query_listing {coll : Collection} (free : '?' ∉ coll.tableName.toList) (limit offset : Int) (filters : List FilterCondition)
    (sort : Option SortSpec) : queryOf (listDocumentsSQL coll limit offset filters sort).sql.toList
      (listDocumentsSQL coll limit offset filters sort).args = some ⟨none, listingOf coll limit offset filters sort⟩ := by
  have lined := (listDocumentsSQL_splits coll limit offset filters sort).linesUp (placed_listDocuments free limit offset filters sort)
  have begins : words ["WITH".toList] (listingLexemes coll limit offset filters sort) = none := by
    unfold listingLexemes
    cases coll.hasVector <;> rfl
  unfold queryOf
  rw [lined.bound, Option.bind_some, (lexes_listing coll limit offset filters sort).lexemes]
  exact query_select begins (select_listing coll limit offset filters sort)

/-- The answers to the query of a listing are its pages. -/
theorem listing_answers {coll : Collection} (docs : s.docs coll.tableName = .ok t) (vectors : coll.hasVector = true → t.kind ≠ .plain)
    (readable : filters ≠ [] ∨ sort ≠ none → ∀ r ∈ t.rows, Queries.readable r = true)
    (fields : ∀ c ∈ filters, collectionNameRe c.field = true) (valid : ∀ spec, sort = some spec → collectionNameRe spec.field = true)
    (limit offset : Int) (out : List (SqlSelects.Row Datum)) : (listingOf coll limit offset filters sort).Answers (dialect E h s) out ↔
      ∃ rows, ListedPage h limit offset filters sort t.rows rows ∧ out = rows.map (listed coll) := by
  have plain : ∀ i ∈ (listingOf coll limit offset filters sort).items, i.expr.isAggregate (dialect E h s) = false := by
    intro i member
    obtain ⟨c, -, rfl⟩ := List.mem_map.mp member
    rfl
  refine (answers_iff (dialect E h s) (listingOf coll limit offset filters sort) (columns (t.kind ≠ .plain)) (listed coll)
    (fun r => filters.all fun c => c.holds h r.data) (valueOf h byId sort) rfl plain rfl rfl (finds_all docs filters) ?_ ?_ ?_).trans ?_
  · rintro _ rfl r member
    exact meets_conditions (columns_data _ r) (fun given => of_decide_eq_true (readable (.inl given) r member)) fields
  · exact fun _ _ r _ => shown_listing (by simpa using vectors) r
  · rintro _ rfl e desc sorts r member
    have is : orderOf "id".toList sort = (e, desc) := Option.some.inj sorts
    have sortedBy : e = (orderOf "id".toList sort).1 := (congrArg Prod.fst is).symm
    rw [sortedBy]
    have bare : (listed coll r ++ columns (t.kind ≠ .plain) r).lookup "id".toList = some (byId r) := by
      unfold listed byId
      cases coll.hasVector <;> rfl
    have data : (listed coll r ++ columns (t.kind ≠ .plain) r).lookup "data".toList = some (.json r.data) := by
      unfold listed
      cases coll.hasVector <;> rfl
    exact eval_order bare data (fun given => readable (.inr given) r member) valid
  · constructor
    · rintro ⟨_, ys, rfl, perm, ordered, rfl⟩
      exact ⟨_, ⟨ys, perm, inOrder_iff.mp ordered, rfl⟩, rfl⟩
    · rintro ⟨_, ⟨ys, perm, sorted, rfl⟩, rfl⟩
      exact ⟨_, ys, rfl, perm, inOrder_iff.mpr sorted, rfl⟩

/-- A document of a listing. -/
def documentOf (coll : Collection) (r : Store.Row) : Document := ⟨r.id, if coll.hasVector then r.text else "", r.data, none⟩

theorem scan_listed (coll : Collection) (r : Store.Row) : scanDocument ((listed coll r).map (·.2)) = some (documentOf coll r) := by
  unfold listed documentOf
  cases coll.hasVector <;> rfl

end Listings

end Microserver.CompiledQueries
