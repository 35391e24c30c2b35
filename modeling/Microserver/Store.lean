import Microserver.Values

/-!
The database: the registry `collections`, the table `collection_references` and
the SQL tables that hold the items, with what SQLite, vec0 and FTS5 do for the
single statements that the program sends them.
-/
namespace Microserver.Store
open Microserver.Values

/-- The errors of the program; `wrapped` is `fmt.Errorf("...: %w", err)`. -/
inductive Err
  | collectionExists
  | collectionNotFound
  | collectionNotVector
  | collectionNoFullText
  | invalidCollectionName
  | documentNotFound
  | referenceValidation (msg : String)
  | referentialConstraint (msg : String)
  | errorf (msg : String)
  | wrapped (context : String) (err : Err)
  | sqlite (msg : String)
  | nilMapWrite
deriving DecidableEq

namespace Err

/-- `errors.Is`. -/
def is (target : Err) : Err → Bool
  | .wrapped context err => decide (Err.wrapped context err = target) || is target err
  | err => decide (err = target)

/-- `err.Error()`. -/
def error : Err → String
  | .collectionExists => "collection already exists"
  | .collectionNotFound => "collection not found"
  | .collectionNotVector => "collection has no vectors"
  | .collectionNoFullText => "collection has no text field to search"
  | .invalidCollectionName => "collection name must match ^[a-zA-Z][a-zA-Z0-9_]\x7b0,62\x7d$"
  | .documentNotFound => "document not found"
  | .referenceValidation msg => msg
  | .referentialConstraint msg => msg
  | .errorf msg => msg
  | .wrapped context err => context ++ ": " ++ err.error
  | .sqlite msg => msg
  | .nilMapWrite => "assignment to entry in nil map"

end Err

/-- A float32 vector by the bit patterns of its components. -/
abbrev Vector32 := List UInt32

/-- A stored item. Plain tables use neither `text` nor `embedding`; the rows of a
    full-text table use only `id` (its rowid) and `text`. -/
structure Row where
  id : Int
  text : String
  data : Json
  embedding : Vector32

/-- What a table of the schema is. A `shadow` table belongs to a virtual table. -/
inductive TableKind
  | plain
  | vec0 (dimensions : Int)
  | fts5
  | shadow
  | system
deriving DecidableEq

/-- A table with its AUTOINCREMENT mark, the largest rowid it has ever held. The
    id is the key. -/
structure Table where
  kind : TableKind
  rows : List Row
  seq : Int
  key : (rows.map (·.id)).Nodup

/-- A table as CREATE leaves it. -/
def Table.empty (kind : TableKind) : Table := ⟨kind, [], 0, List.nodup_nil⟩

/-- A row of the registry. -/
structure Collection where
  name : String
  tableName : String
  hasVector : Bool
  dimensions : Int
deriving DecidableEq

/-- A row of `collection_references`. -/
structure ReferenceRow where
  collectionName : String
  fieldName : String
  targetCollection : String
  onDelete : String
deriving DecidableEq

/-- The database. Table names are compared without regard to case, so `tables`
    is indexed by folded names. -/
structure DB where
  collections : List Collection
  references : List ReferenceRow
  tables : String → Option Table

/-- What the program relies on outside itself: Ollama, the text SQLite prints for
    arrays and objects, its LIKE, the L2 distance that sqlite-vec computes in
    floating point, and the order in which rows come where a query leaves it
    open. -/
structure Host where
  embed : String → Except Err Vector32
  jsonText : Json → String
  like : SqlValue → SqlValue → Bool
  distanceL2 : Vector32 → Vector32 → ℚ
  visit : ∀ {α : Type}, List α → List α
  visit_perm : ∀ {α : Type} (rows : List α), (visit rows).Perm rows

@[simp] theorem Host.mem_visit (h : Host) {α : Type} {rows : List α} {x : α} : x ∈ h.visit rows ↔ x ∈ rows :=
  (h.visit_perm rows).mem_iff

@[simp] theorem Host.visit_eq_nil (h : Host) {α : Type} {rows : List α} : h.visit rows = [] ↔ rows = [] := by
  rw [← List.length_eq_zero_iff, (h.visit_perm rows).length_eq, List.length_eq_zero_iff]

/-- A host that embeds every text alike and finds rows in the order in which
    they were stored. -/
def Host.uniform : Host where
  embed := fun _ => .ok (List.replicate 8 0)
  jsonText := fun _ => ""
  like := fun v pattern => decide (v = pattern)
  distanceL2 := fun _ _ => 0
  visit := fun rows => rows
  visit_perm := fun _ => .refl _

/-! ### Names -/

/-- A name as SQLite compares it. -/
def fold (name : String) : String := String.ofList (name.toList.map Char.toLower)

@[simp] theorem fold_append (a b : String) : fold (a ++ b) = fold a ++ fold b := by simp [fold]

def isLetter (c : Char) : Bool := ('a' ≤ c && c ≤ 'z') || ('A' ≤ c && c ≤ 'Z')

/-- `collectionNameRe`: a letter, then at most 62 letters, digits or underscores. -/
def collectionNameRe (name : String) : Bool :=
  match name.toList with
  | [] => false
  | c :: rest =>
    isLetter c && rest.length ≤ 62 && rest.all (fun d => isLetter d || ('0' ≤ d && d ≤ '9') || d = '_')

/-- The tables that a virtual table creates and owns besides itself. -/
def shadows : TableKind → String → List String
  | .vec0 _, table =>
    [table ++ "_info", table ++ "_chunks", table ++ "_rowids", table ++ "_vector_chunks00",
      table ++ "_vector_chunks01", table ++ "_auxiliary"]
  | .fts5, table =>
    [table ++ "_data", table ++ "_idx", table ++ "_content", table ++ "_docsize", table ++ "_config"]
  | _, _ => []

def ftsTableName (tableName : String) : String := tableName ++ "_fts"

/-! ### Tables -/

/-- The columns of an INSERT without the id. -/
inductive Columns
  | data (data : Json)
  | vector (embedding : Vector32) (text : String) (data : Json)
  | fullText (text : String)

/-- The INSERT names columns that the table has. A vec0 column takes vectors of
    its own length only, and `vec_quantize_binary` whole bytes of bits only. -/
def Columns.fits : Columns → TableKind → Bool
  | .data _, .plain => true
  | .vector embedding _ _, .vec0 dimensions => decide ((embedding.length : Int) = dimensions ∧ dimensions % 8 = 0)
  | .fullText _, .fts5 => true
  | _, _ => false

def Columns.row (id : Int) : Columns → Row
  | .data value => ⟨id, "", value, []⟩
  | .vector embedding text value => ⟨id, text, value, embedding⟩
  | .fullText text => ⟨id, text, .null, []⟩

@[simp] theorem Columns.row_id (id : Int) (columns : Columns) : (columns.row id).id = id := by
  cases columns <;> rfl

def maxRowid : Int := 9223372036854775807

namespace Table

def has (t : Table) (id : Int) : Bool := t.rows.any (fun r => r.id == id)

theorem has_iff {t : Table} {id : Int} : t.has id = true ↔ ∃ r ∈ t.rows, r.id = id := by
  simp [has]

/-- The largest rowid the table holds or ever held. -/
def largest (t : Table) : Int := t.rows.foldl (fun m r => max m r.id) t.seq

theorem le_foldl_max (rows : List Row) (m : Int) :
    m ≤ rows.foldl (fun m r => max m r.id) m ∧ ∀ r ∈ rows, r.id ≤ rows.foldl (fun m r => max m r.id) m := by
  induction rows generalizing m with
  | nil => simp
  | cons r rest ih =>
    obtain ⟨start, each⟩ := ih (max m r.id)
    simp only [List.foldl_cons, List.mem_cons, forall_eq_or_imp]
    exact ⟨by omega, by omega, each⟩

theorem largest_fresh (t : Table) : t.has (t.largest + 1) = false := by
  rw [Bool.eq_false_iff]
  intro taken
  obtain ⟨r, member, same⟩ := has_iff.mp taken
  have bound : r.id ≤ t.largest := (le_foldl_max t.rows t.seq).2 r member
  omega

/-- The table with one row more, under an id that it does not have. -/
def append (t : Table) (id : Int) (columns : Columns) (fresh : t.has id = false) : Table where
  kind := t.kind
  rows := t.rows ++ [columns.row id]
  seq := max t.seq id
  key := by
    rw [List.map_append, List.nodup_append]
    refine ⟨t.key, by simp, ?_⟩
    rintro a member b last rfl
    obtain ⟨r, stored, same⟩ := List.mem_map.mp member
    rw [List.map_singleton, List.mem_singleton, Columns.row_id] at last
    rw [has_iff.mpr ⟨r, stored, same.trans last⟩] at fresh
    cases fresh

/-- INSERT with the given id, or with the next one AUTOINCREMENT hands out. -/
def insert (t : Table) (id : Option Int) (columns : Columns) : Except Err (Int × Table) :=
  match id with
  | some id =>
    if taken : t.has id = true then .error (.sqlite "UNIQUE constraint failed")
    else .ok (id, t.append id columns (Bool.eq_false_iff.mpr taken))
  | none =>
    if maxRowid ≤ t.largest then .error (.sqlite "database or disk is full")
    else .ok (t.largest + 1, t.append (t.largest + 1) columns t.largest_fresh)

/-- DELETE by id. -/
def delete (t : Table) (id : Int) : Table :=
  { t with
    rows := t.rows.filter (fun r => r.id != id)
    key := t.key.sublist (List.filter_sublist.map _) }

/-- UPDATE of `data` by id. -/
def setData (t : Table) (id : Int) (data : Json) : Table :=
  { t with
    rows := t.rows.map (fun r => if r.id = id then { r with data := data } else r)
    key := by
      have ids : (t.rows.map (fun r => if r.id = id then { r with data := data } else r)).map (·.id) = t.rows.map (·.id) := by
        rw [List.map_map]
        refine List.map_congr_left fun r _ => ?_
        by_cases same : r.id = id <;> simp [same]
      rw [ids]
      exact t.key }

theorem insert_ok {t t' : Table} {id : Option Int} {columns : Columns} {assigned : Int}
    (done : t.insert id columns = .ok (assigned, t')) :
    t'.kind = t.kind ∧ t'.rows = t.rows ++ [columns.row assigned] ∧ (∀ given, id = some given → assigned = given) := by
  cases id with
  | some given =>
    by_cases taken : t.has given = true
    · simp [insert, taken] at done
    · simp only [insert, taken] at done
      cases done
      simp [append]
  | none =>
    by_cases full : maxRowid ≤ t.largest
    · simp [insert, full] at done
    · simp only [insert, full] at done
      cases done
      simp [append]

/-- An INSERT never lands on an id that a row already has. -/
theorem insert_fresh {t t' : Table} {id : Option Int} {columns : Columns} {assigned : Int}
    (done : t.insert id columns = .ok (assigned, t')) : ∀ r ∈ t.rows, r.id ≠ assigned := by
  have key := t'.key
  rw [(insert_ok done).2.1, List.map_append, List.nodup_append] at key
  intro r member same
  exact key.2.2 r.id (List.mem_map.mpr ⟨r, member, rfl⟩) assigned (by simp) same

@[simp] theorem delete_kind (t : Table) (id : Int) : (t.delete id).kind = t.kind := rfl
@[simp] theorem mem_delete {t : Table} {id : Int} {r : Row} : r ∈ (t.delete id).rows ↔ r ∈ t.rows ∧ r.id ≠ id := by
  simp [delete]
@[simp] theorem setData_kind (t : Table) (id : Int) (data : Json) : (t.setData id data).kind = t.kind := rfl

end Table

/-! ### The database -/

def noSuchTable : Err := .sqlite "no such table"
def noSuchColumn : Err := .sqlite "no such column"

namespace DB

def find (s : DB) (table : String) : Option Table := s.tables (fold table)

/-- The database with a table replaced. -/
def set (s : DB) (table : String) (t : Table) : DB :=
  { s with tables := fun n => if n = fold table then some t else s.tables n }

@[simp] theorem set_collections (s : DB) (table : String) (t : Table) : (s.set table t).collections = s.collections := rfl
@[simp] theorem set_references (s : DB) (table : String) (t : Table) : (s.set table t).references = s.references := rfl
@[simp] theorem find_set_same (s : DB) (table : String) (t : Table) : (s.set table t).find table = some t := by
  simp [find, set]
theorem find_set {s : DB} {table other : String} {t : Table} :
    (s.set table t).find other = if fold other = fold table then some t else s.find other := rfl

/-- CREATE TABLE, for virtual tables with their shadow tables: refused when a
    table of one of these names exists. -/
def createTable (s : DB) (table : String) (kind : TableKind) : Except Err DB :=
  if (table :: shadows kind table).any (fun n => (s.find n).isSome) then .error (.sqlite "table already exists")
  else .ok { s with
    tables := fun n =>
      if n = fold table then some (.empty kind)
      else if n ∈ (shadows kind table).map fold then some (.empty .shadow)
      else s.tables n }

/-- DROP TABLE, for virtual tables with their shadow tables. -/
def dropTable (s : DB) (table : String) : Except Err DB :=
  match s.find table with
  | none => .error noSuchTable
  | some t => .ok { s with
    tables := fun n => if n ∈ (table :: shadows t.kind table).map fold then none else s.tables n }

/-- The table, when it has the columns `id` and `data`. -/
def docs (s : DB) (table : String) : Except Err Table :=
  match s.find table with
  | none => .error noSuchTable
  | some t =>
    match t.kind with
    | .plain | .vec0 _ => .ok t
    | _ => .error noSuchColumn

/-- INSERT INTO table. -/
def insertRow (s : DB) (table : String) (id : Option Int) (columns : Columns) : Except Err (Int × DB) :=
  match s.find table with
  | none => .error noSuchTable
  | some t =>
    if columns.fits t.kind then
      match t.insert id columns with
      | .ok (assigned, t') => .ok (assigned, s.set table t')
      | .error e => .error e
    else .error noSuchColumn

/-- DELETE FROM table WHERE id = ?, with the number of rows deleted. -/
def deleteRow (s : DB) (table : String) (id : Int) : Except Err (Nat × DB) :=
  match s.docs table with
  | .error e => .error e
  | .ok t => .ok (t.rows.countP (fun r => r.id == id), s.set table (t.delete id))

/-- UPDATE table SET data = ? WHERE id = ?, with the number of rows changed. -/
def updateData (s : DB) (table : String) (data : Json) (id : Int) : Except Err (Nat × DB) :=
  match s.docs table with
  | .error e => .error e
  | .ok t => .ok (t.rows.countP (fun r => r.id == id), s.set table (t.setData id data))

/-- DELETE FROM table WHERE rowid = ? on a full-text table. -/
def deleteFullText (s : DB) (table : String) (id : Int) : Except Err DB :=
  match s.find table with
  | none => .error noSuchTable
  | some t => if t.kind = .fts5 then .ok (s.set table (t.delete id)) else .error noSuchColumn

/-! ### Reads -/

/-- The registry row of a name. -/
def lookup (s : DB) (name : String) : Option Collection := s.collections.find? (fun c => c.name = name)

/-- SELECT count(*) FROM collections WHERE name = ?, as a test. -/
def registered (s : DB) (name : String) : Bool := s.collections.any (fun c => c.name = name)

/-- The rows of `collection_references` that a collection owns. -/
def owned (s : DB) (name : String) : List ReferenceRow :=
  s.references.filter (fun r => r.collectionName = name)

/-- The rows of `collection_references` that point at a collection. -/
def targeting (s : DB) (name : String) : List ReferenceRow :=
  s.references.filter (fun r => r.targetCollection = name)

/-- SELECT count(*) FROM table WHERE id = ?. -/
def countById (s : DB) (table : String) (id : Int) : Except Err Nat :=
  (s.docs table).map (fun t => t.rows.countP (fun r => r.id == id))

/-- SELECT id FROM table WHERE json_extract(data, '$.field') = id. -/
def matching (h : Host) (s : DB) (table field : String) (id : Int) : Except Err (List Int) :=
  match s.docs table with
  | .error e => .error e
  | .ok t =>
    if t.rows.any (fun r => jsonMaxDepth < r.data.depth) then .error (.sqlite "malformed JSON")
    else .ok ((h.visit (t.rows.filter (fun r => (jsonExtract h.jsonText r.data field).equalsInt id))).map (·.id))

/-- SELECT id, text, data FROM table WHERE id = ?, without `text` for a
    collection without vectors. -/
def rowById (s : DB) (table : String) (hasVector : Bool) (id : Int) : Except Err (Option Row) :=
  match s.docs table with
  | .error e => .error e
  | .ok t =>
    if hasVector && t.kind = .plain then .error noSuchColumn
    else .ok (t.rows.find? (fun r => r.id == id))

theorem docs_ok {s : DB} {table : String} {t : Table} (found : s.docs table = .ok t) : s.find table = some t := by
  unfold docs at found
  cases there : s.find table with
  | none => simp [there] at found
  | some t' =>
    simp only [there] at found
    cases kind : t'.kind <;> simp [kind] at found <;> rw [found]

theorem docs_of_find {s : DB} {table : String} {t : Table} (there : s.find table = some t)
    (kind : t.kind = .plain ∨ ∃ d, t.kind = .vec0 d) : s.docs table = .ok t := by
  unfold docs
  rcases kind with plain | ⟨d, vector⟩
  · simp [there, plain]
  · simp [there, vector]

theorem docs_congr {s s' : DB} {table : String} (same : s'.find table = s.find table) :
    s'.docs table = s.docs table := by
  unfold docs; rw [same]

theorem registered_iff {s : DB} {name : String} : s.registered name = true ↔ ∃ c ∈ s.collections, c.name = name := by
  simp [registered]

theorem lookup_some {s : DB} {name : String} {c : Collection} (found : s.lookup name = some c) :
    c ∈ s.collections ∧ c.name = name :=
  ⟨List.mem_of_find?_eq_some found, by simpa using List.find?_some found⟩

theorem lookup_isSome {s : DB} {name : String} : (s.lookup name).isSome = s.registered name := by
  rw [Bool.eq_iff_iff, registered_iff]
  simp [lookup, List.find?_isSome]

theorem lookup_none {s : DB} {name : String} : s.lookup name = none ↔ s.registered name = false := by
  rw [← lookup_isSome]; simp

@[simp] theorem mem_owned {s : DB} {name : String} {r : ReferenceRow} :
    r ∈ s.owned name ↔ r ∈ s.references ∧ r.collectionName = name := by simp [owned]

@[simp] theorem mem_targeting {s : DB} {name : String} {r : ReferenceRow} :
    r ∈ s.targeting name ↔ r ∈ s.references ∧ r.targetCollection = name := by simp [targeting]

/-- Inversion of an INSERT: the table gains one row under a new id. -/
theorem insertRow_ok {s s' : DB} {table : String} {id : Option Int} {columns : Columns} {assigned : Int}
    (done : s.insertRow table id columns = .ok (assigned, s')) :
    ∃ t t', s.find table = some t ∧ columns.fits t.kind = true ∧ t.insert id columns = .ok (assigned, t') ∧
      s' = s.set table t' := by
  unfold insertRow at done
  cases there : s.find table with
  | none => simp [there] at done
  | some t =>
    simp only [there] at done
    cases fits : columns.fits t.kind with
    | false => simp [fits] at done
    | true =>
      simp only [fits, ↓reduceIte] at done
      cases inserted : t.insert id columns with
      | error e => simp [inserted] at done
      | ok outcome =>
        simp only [inserted, Except.ok.injEq, Prod.mk.injEq] at done
        exact ⟨t, outcome.2, rfl, fits, by rw [← done.1]; exact inserted, done.2.symm⟩

/-- Inversion of a DELETE by id. -/
theorem deleteRow_ok {s s' : DB} {table : String} {id : Int} {n : Nat}
    (done : s.deleteRow table id = .ok (n, s')) :
    ∃ t, s.docs table = .ok t ∧ n = t.rows.countP (fun r => r.id == id) ∧ s' = s.set table (t.delete id) := by
  unfold deleteRow at done
  cases there : s.docs table with
  | error e => simp [there] at done
  | ok t =>
    simp only [there, Except.ok.injEq, Prod.mk.injEq] at done
    exact ⟨t, rfl, done.1.symm, done.2.symm⟩

/-- Inversion of an UPDATE of `data`. -/
theorem updateData_ok {s s' : DB} {table : String} {data : Json} {id : Int} {n : Nat}
    (done : s.updateData table data id = .ok (n, s')) :
    ∃ t, s.docs table = .ok t ∧ n = t.rows.countP (fun r => r.id == id) ∧ s' = s.set table (t.setData id data) := by
  unfold updateData at done
  cases there : s.docs table with
  | error e => simp [there] at done
  | ok t =>
    simp only [there, Except.ok.injEq, Prod.mk.injEq] at done
    exact ⟨t, rfl, done.1.symm, done.2.symm⟩

/-- Inversion of a DELETE on a full-text table. -/
theorem deleteFullText_ok {s s' : DB} {table : String} {id : Int} (done : s.deleteFullText table id = .ok s') :
    ∃ t, s.find table = some t ∧ t.kind = .fts5 ∧ s' = s.set table (t.delete id) := by
  unfold deleteFullText at done
  cases there : s.find table with
  | none => simp [there] at done
  | some t =>
    by_cases kind : t.kind = .fts5
    · simp only [there, kind, ↓reduceIte, Except.ok.injEq] at done
      exact ⟨t, rfl, kind, done.symm⟩
    · simp [there, kind] at done

end DB
end Microserver.Store
