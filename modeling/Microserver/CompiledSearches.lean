import Microserver.CompiledQueries
import Microserver.SearchShapes

/-!
The searches by vector: their four texts are read as queries, and what a search
returns is an answer that SQL allows to its text. The nearest rows come from the
virtual table; with `rerank` they are the table of a second query.
-/
namespace Microserver.CompiledSearches
open Microserver.Values Microserver.Store Microserver.Statements Microserver.Operations Microserver.Ranking
open Microserver.Queries hiding orderBySQL
open Microserver.SqlTexts hiding bind
open Microserver.ReadHandlers Microserver.QueryTexts Microserver.Placeholders
open Microserver.SqlSelects Microserver.CompiledQueries
open Microserver.Listings (matching filterWhere_ok)

/-! ### The queries that are read -/

/-- `embedding_bit MATCH vec_quantize_binary(v)` -/
def nearTo (v : Vector32) : Cond Arg :=
  ⟨.column "embedding_bit".toList, "MATCH".toList, .apply "vec_quantize_binary".toList (.arg (.vector v))⟩

/-- `k = n` -/
def numberIs (n : Int) : Cond Arg := ⟨.column "k".toList, "=".toList, .arg (.int n)⟩

def itemsOf (names : List String) : List (Item Arg) := names.map fun c => ⟨.column c.toList, none⟩

/-- What stands behind the vector when `k` rows are looked at. -/
def countedConds (limit : Int) (filters : List FilterCondition) : List (Cond Arg) :=
  numberIs (coarseLimit limit) :: filters.map conditionOf

/-- The rows near a vector that meet conditions. -/
def nearestOf (coll : Collection) (v : Vector32) (limit : Int) (cs : List (Cond Arg)) (sort : Option SortSpec) : Select Arg where
  items := itemsOf ["id", "text", "data", "distance"]
  source := coll.tableName.toList
  conds := nearTo v :: cs
  group := none
  order := some (orderOf "distance".toList sort)
  limit := some (.arg (.int limit))
  offset := none

def coarseOf (coll : Collection) (v : Vector32) (limit : Int) (cs : List (Cond Arg)) : Select Arg where
  items := itemsOf ["id", "embedding", "text", "data"]
  source := coll.tableName.toList
  conds := nearTo v :: cs
  group := none
  order := some (.column "distance".toList, false)
  limit := some (.arg (.int (coarseLimit limit)))
  offset := none

def rerankedOf (v : Vector32) (limit : Int) (sort : Option SortSpec) : Select Arg where
  items := itemsOf ["id", "text", "data"] ++
    [⟨.apply₂ "vec_distance_L2".toList (.column "embedding".toList) (.arg (.vector v)), some "distance".toList⟩]
  source := "coarse_matches".toList
  conds := []
  group := none
  order := some (orderOf "distance".toList sort)
  limit := some (.arg (.int limit))
  offset := none

def searchOf (coll : Collection) (v : Vector32) (limit : Int) (rerank : Bool) (filters : List FilterCondition)
    (sort : Option SortSpec) : Query Arg :=
  if rerank then
    ⟨some ("coarse_matches".toList, coarseOf coll v limit (if filters = [] then [] else countedConds limit filters)),
      rerankedOf v limit sort⟩
  else if filters = [] ∧ sort = none then ⟨none, nearestOf coll v limit [] none⟩
  else ⟨none, nearestOf coll v limit (countedConds limit filters) sort⟩

/-! ### Lexemes -/

def nearLexemes (v : Vector32) : List (Lexeme Arg) :=
  [.word "embedding_bit".toList, .word "MATCH".toList, .word "vec_quantize_binary".toList, .sign ['('], .arg (.vector v), .sign [')']]

def numberLexemes (n : Int) : List (Lexeme Arg) := [.word "AND".toList, .word "k".toList, .sign ['='], .arg (.int n)]

def nearestLexemes (coll : Collection) (v : Vector32) (limit : Int) (more : List (Lexeme Arg)) (sort : Option SortSpec) :
    List (Lexeme Arg) :=
  [.word "SELECT".toList, .word "id".toList, .sign [','], .word "text".toList, .sign [','], .word "data".toList, .sign [','],
    .word "distance".toList, .word "FROM".toList, .name coll.tableName.toList, .word "WHERE".toList] ++ nearLexemes v ++ more ++
  [.word "ORDER".toList, .word "BY".toList] ++ orderLexemes "distance".toList sort ++ [.word "LIMIT".toList, .arg (.int limit)]

set_option maxRecDepth 4096 in
theorem lexes_source (coll : Collection) : Lexes
    (lit "\n\t\t\t\tSELECT id, text, data, distance\n\t\t\t\tFROM " ++ (lit (quoteIdent coll.tableName) ++ [.char '\n']) : List (Piece Arg))
    [.word "SELECT".toList, .word "id".toList, .sign [','], .word "text".toList, .sign [','], .word "data".toList, .sign [','],
      .word "distance".toList, .word "FROM".toList, .name coll.tableName.toList] := by
  have first : Lexes (lit "\n\t\t\t\tSELECT id, text, data, distance\n\t\t\t\tFROM " : List (Piece Arg))
      [.word "SELECT".toList, .word "id".toList, .sign [','], .word "text".toList, .sign [','], .word "data".toList, .sign [','],
        .word "distance".toList, .word "FROM".toList] := rfl
  exact first.append (lexes_quoteIdent coll.tableName (by decide))

/-- The first condition, without the blank before it. -/
def nearPieces (v : Vector32) : List (Piece Arg) := lit "\t\t\t\tWHERE embedding_bit MATCH vec_quantize_binary(" ++ [.arg (.vector v)]

set_option maxRecDepth 4096 in
theorem where_near : (lit "\n\t\t\t\tWHERE embedding_bit MATCH vec_quantize_binary(" : List (Piece Arg)) =
    .char '\n' :: lit "\t\t\t\tWHERE embedding_bit MATCH vec_quantize_binary(" := (rfl)

def openLexemes (v : Vector32) : List (Lexeme Arg) :=
  [.word "WHERE".toList, .word "embedding_bit".toList, .word "MATCH".toList, .word "vec_quantize_binary".toList, .sign ['('],
    .arg (.vector v)]

set_option maxRecDepth 4096 in
theorem lexes_near (v : Vector32) : Lexes (nearPieces v) (openLexemes v) := (rfl)

theorem lexes_nearest (coll : Collection) (v : Vector32) (limit : Int) :
    Lexes (nearestMeant coll v limit) (nearestLexemes coll v limit [] none) := by
  have rest : Lexes (lit ")\n\t\t\t\tORDER BY distance\n\t\t\t\tLIMIT " : List (Piece Arg))
      [.sign [')'], .word "ORDER".toList, .word "BY".toList, .word "distance".toList, .word "LIMIT".toList] := rfl
  have all := (lexes_source coll).append ((lexes_near v).append (rest.append (lexes_nil.arg (.int limit))))
  simpa only [nearestMeant, where_near, nearPieces, nearestLexemes, nearLexemes, openLexemes, orderLexemes, List.append_assoc,
    List.cons_append, List.nil_append] using all

theorem lexes_selected (coll : Collection) (v : Vector32) (limit : Int) (filters : List FilterCondition) (sort : Option SortSpec) :
    Lexes (selectedMeant coll v limit filters sort)
      (nearestLexemes coll v limit (numberLexemes (coarseLimit limit) ++ andLexemes filters) sort) := by
  have number : Lexes (lit ") AND k = " ++ [.arg (.int (coarseLimit limit)), .char ' '] : List (Piece Arg))
      (.sign [')'] :: numberLexemes (coarseLimit limit)) := rfl
  have keywords : Lexes (lit "\n\t\t\t\tORDER BY " : List (Piece Arg)) [.word "ORDER".toList, .word "BY".toList] := rfl
  have ordered : Lexes (orderPieces "distance" sort ++ lit "\n\t\t\t\tLIMIT ")
      (orderLexemes "distance".toList sort ++ [.word "LIMIT".toList]) := lexes_order rfl (fun _ => rfl) sort
  have all := (lexes_source coll).append ((lexes_near v).append (number.append ((lexes_more filters).append
    (keywords.append (ordered.append (lexes_nil.arg (.int limit)))))))
  simpa only [selectedMeant, where_near, nearPieces, lit_blank, nearestLexemes, nearLexemes, openLexemes, numberLexemes,
    List.append_assoc, List.cons_append, List.nil_append] using all

/-- What stands behind the vector. -/
def countedLexemes (limit : Int) (filters : List FilterCondition) : List (Lexeme Arg) :=
  if filters = [] then [] else numberLexemes (coarseLimit limit) ++ andLexemes filters

/-- The lexemes of the coarse search, in its brackets. -/
def coarseLexemes (coll : Collection) (v : Vector32) (limit : Int) (more : List (Lexeme Arg)) : List (Lexeme Arg) :=
  [.word "SELECT".toList, .word "id".toList, .sign [','], .word "embedding".toList, .sign [','], .word "text".toList, .sign [','],
    .word "data".toList, .word "FROM".toList, .name coll.tableName.toList, .word "WHERE".toList] ++ nearLexemes v ++ more ++
  [.word "ORDER".toList, .word "BY".toList, .word "distance".toList, .word "LIMIT".toList, .arg (.int (coarseLimit limit))]

def rerankedLexemes (v : Vector32) (limit : Int) (sort : Option SortSpec) : List (Lexeme Arg) :=
  [.word "SELECT".toList, .word "id".toList, .sign [','], .word "text".toList, .sign [','], .word "data".toList, .sign [','],
    .word "vec_distance_L2".toList, .sign ['('], .word "embedding".toList, .sign [','], .arg (.vector v), .sign [')'],
    .word "AS".toList, .word "distance".toList, .word "FROM".toList, .word "coarse_matches".toList,
    .word "ORDER".toList, .word "BY".toList] ++ orderLexemes "distance".toList sort ++ [.word "LIMIT".toList, .arg (.int limit)]

/-- A query over the answer to the coarse search. -/
def twoStepLexemes (coll : Collection) (v : Vector32) (limit : Int) (filters : List FilterCondition) (sort : Option SortSpec) :
    List (Lexeme Arg) :=
  [.word "WITH".toList, .word "coarse_matches".toList, .word "AS".toList, .sign ['(']] ++
    coarseLexemes coll v limit (countedLexemes limit filters) ++ .sign [')'] :: rerankedLexemes v limit sort

set_option maxRecDepth 4096 in
theorem lexes_common (coll : Collection) : Lexes
    (lit "\n\t\t\t\tWITH coarse_matches AS (\n\t\t\t\t\tSELECT id, embedding, text, data\n\t\t\t\t\tFROM " ++
      (lit (quoteIdent coll.tableName) ++ [.char '\n']) : List (Piece Arg))
    [.word "WITH".toList, .word "coarse_matches".toList, .word "AS".toList, .sign ['('], .word "SELECT".toList, .word "id".toList,
      .sign [','], .word "embedding".toList, .sign [','], .word "text".toList, .sign [','], .word "data".toList,
      .word "FROM".toList, .name coll.tableName.toList] := by
  have first : Lexes (lit "\n\t\t\t\tWITH coarse_matches AS (\n\t\t\t\t\tSELECT id, embedding, text, data\n\t\t\t\t\tFROM " :
        List (Piece Arg))
      [.word "WITH".toList, .word "coarse_matches".toList, .word "AS".toList, .sign ['('], .word "SELECT".toList, .word "id".toList,
        .sign [','], .word "embedding".toList, .sign [','], .word "text".toList, .sign [','], .word "data".toList,
        .word "FROM".toList] := rfl
  exact first.append (lexes_quoteIdent coll.tableName (by decide))

/-- The first condition of the coarse search, without the blank before it. -/
def innerPieces (v : Vector32) : List (Piece Arg) := lit "\t\t\t\t\tWHERE embedding_bit MATCH vec_quantize_binary(" ++ [.arg (.vector v)]

set_option maxRecDepth 4096 in
theorem where_inner : (lit "\n\t\t\t\t\tWHERE embedding_bit MATCH vec_quantize_binary(" : List (Piece Arg)) =
    .char '\n' :: lit "\t\t\t\t\tWHERE embedding_bit MATCH vec_quantize_binary(" := (rfl)

set_option maxRecDepth 4096 in
theorem lexes_inner (v : Vector32) : Lexes (innerPieces v) (openLexemes v) := (rfl)

theorem lexes_coarse (coll : Collection) (v : Vector32) (limit : Int) (filters : List FilterCondition) :
    Lexes (coarseMeant coll v limit filters)
      ([.word "WITH".toList, .word "coarse_matches".toList, .word "AS".toList, .sign ['(']] ++
        coarseLexemes coll v limit (countedLexemes limit filters)) := by
  have ends : Lexes (lit "\n\t\t\t\t\tORDER BY distance\n\t\t\t\t\tLIMIT " : List (Piece Arg))
      [.word "ORDER".toList, .word "BY".toList, .word "distance".toList, .word "LIMIT".toList] := rfl
  have closes : Lexes (lit ")" : List (Piece Arg)) [.sign [')']] := rfl
  have number : Lexes (lit " AND k = " ++ [.arg (.int (coarseLimit limit)), .char ' '] : List (Piece Arg))
      (numberLexemes (coarseLimit limit)) := rfl
  have last := ends.append (lexes_nil.arg (Arg.int (coarseLimit limit)))
  have before := ((lexes_common coll).append (lexes_inner v)).append closes
  by_cases none : filters = []
  · have all := before.append last
    simpa only [coarseMeant, coarseLexemes, countedLexemes, if_pos none, where_inner, innerPieces, nearLexemes, openLexemes, List.append_assoc,
      List.cons_append, List.nil_append] using all
  · have all := before.append ((number.append (lexes_more filters)).append last)
    simpa only [coarseMeant, coarseLexemes, countedLexemes, if_neg none, where_inner, innerPieces, lit_blank, nearLexemes, openLexemes, numberLexemes,
      List.append_assoc, List.cons_append, List.nil_append] using all

set_option maxRecDepth 4096 in
theorem lexes_reranked (v : Vector32) (limit : Int) (sort : Option SortSpec) :
    Lexes (rerankedMeant v limit sort) (.sign [')'] :: rerankedLexemes v limit sort) := by
  have first : Lexes (lit "\n\t\t\t\t)\n\t\t\t\tSELECT id, text, data, vec_distance_L2(embedding, " : List (Piece Arg))
      [.sign [')'], .word "SELECT".toList, .word "id".toList, .sign [','], .word "text".toList, .sign [','], .word "data".toList,
        .sign [','], .word "vec_distance_L2".toList, .sign ['('], .word "embedding".toList, .sign [',']] := rfl
  have second : Lexes (lit ") AS distance\n\t\t\t\tFROM coarse_matches\n\t\t\t\tORDER BY " : List (Piece Arg))
      [.sign [')'], .word "AS".toList, .word "distance".toList, .word "FROM".toList, .word "coarse_matches".toList,
        .word "ORDER".toList, .word "BY".toList] := rfl
  have ordered : Lexes (orderPieces "distance" sort ++ lit "\n\t\t\t\tLIMIT ")
      (orderLexemes "distance".toList sort ++ [.word "LIMIT".toList]) := lexes_order rfl (fun _ => rfl) sort
  have all := first.append ((second.append (ordered.append (lexes_nil.arg (.int limit)))).arg (Arg.vector v))
  simpa only [rerankedMeant, rerankedLexemes, List.append_assoc, List.cons_append, List.nil_append] using all

theorem lexes_search (coll : Collection) (v : Vector32) (limit : Int) (filters : List FilterCondition) (sort : Option SortSpec) :
    Lexes (coarseMeant coll v limit filters ++ rerankedMeant v limit sort) (twoStepLexemes coll v limit filters sort) := by
  have all := (lexes_coarse coll v limit filters).append (lexes_reranked v limit sort)
  simpa only [twoStepLexemes, List.append_assoc, List.cons_append, List.nil_append] using all

/-! ### Reading the lexemes -/

/-- The lexemes `more` stand for the conditions `cs` behind the vector. -/
def More (more : List (Lexeme Arg)) (cs : List (Cond Arg)) : Prop :=
  ∀ v tail fuel, words ["AND".toList] tail = none → more.length < fuel →
    conds fuel (nearLexemes v ++ (more ++ tail)) = some (nearTo v :: cs, tail)

theorem more_nil : More [] [] := by
  intro v tail fuel closed enough
  obtain ⟨fuel, rfl⟩ := Nat.exists_eq_succ_of_ne_zero (Nat.ne_of_gt enough)
  exact conds_last rfl closed fuel

theorem more_counted (limit : Int) (filters : List FilterCondition) :
    More (numberLexemes (coarseLimit limit) ++ andLexemes filters) (countedConds limit filters) := by
  intro v tail fuel closed enough
  have each := length_andLexemes filters
  simp only [numberLexemes, List.length_append, List.length_cons, List.length_nil] at enough
  obtain ⟨fuel, rfl⟩ := Nat.exists_eq_succ_of_ne_zero (Nat.ne_of_gt (Nat.zero_lt_of_lt enough))
  have number : ∀ rest, SqlSelects.cond ([.word "k".toList, .sign ['='], .arg (Arg.int (coarseLimit limit))] ++ rest) =
      some (numberIs (coarseLimit limit), rest) := fun _ => rfl
  have later := conds_and number filters closed (show filters.length < fuel by omega)
  exact conds_cons rfl later

theorem more_coarse (limit : Int) (filters : List FilterCondition) :
    More (countedLexemes limit filters) (if filters = [] then [] else countedConds limit filters) := by
  unfold countedLexemes
  split
  · exact more_nil
  · exact more_counted limit filters

theorem select_nearest {more : List (Lexeme Arg)} {cs : List (Cond Arg)} (reads : More more cs) (coll : Collection) (v : Vector32)
    (limit : Int) (sort : Option SortSpec) :
    select (nearestLexemes coll v limit more sort) = some (nearestOf coll v limit cs sort, []) := by
  let tail : List (Lexeme Arg) := .word "ORDER".toList :: .word "BY".toList ::
    (orderLexemes "distance".toList sort ++ [.word "LIMIT".toList, .arg (.int limit)])
  have shape : nearestLexemes coll v limit more sort = .word "SELECT".toList :: .word "id".toList :: .sign [','] ::
      .word "text".toList :: .sign [','] :: .word "data".toList :: .sign [','] :: .word "distance".toList :: .word "FROM".toList ::
      .name coll.tableName.toList :: .word "WHERE".toList :: (nearLexemes v ++ (more ++ tail)) := by
    simp only [tail, nearestLexemes, List.append_assoc, List.cons_append, List.nil_append]
  have read := reads v tail ((nearLexemes v ++ (more ++ tail)).length + 1) rfl (by simp [nearLexemes]; omega)
  have stepped : select (nearestLexemes coll v limit more sort) =
      ((conds ((nearLexemes v ++ (more ++ tail)).length + 1) (nearLexemes v ++ (more ++ tail))).map fun (b, rest) => (some b, rest)).bind
        fun read => clauses (itemsOf ["id", "text", "data", "distance"]) coll.tableName.toList (read.1.getD []) read.2 := by
    rw [shape]
    rfl
  rw [stepped, read]
  rcases sort with _ | ⟨field, _ | _⟩ <;> rfl

theorem select_coarse {more : List (Lexeme Arg)} {cs : List (Cond Arg)} (reads : More more cs) (coll : Collection) (v : Vector32)
    (limit : Int) (rest : List (Lexeme Arg)) :
    select (coarseLexemes coll v limit more ++ .sign [')'] :: rest) = some (coarseOf coll v limit cs, .sign [')'] :: rest) := by
  let tail : List (Lexeme Arg) := .word "ORDER".toList :: .word "BY".toList :: .word "distance".toList :: .word "LIMIT".toList ::
    .arg (.int (coarseLimit limit)) :: .sign [')'] :: rest
  have shape : coarseLexemes coll v limit more ++ .sign [')'] :: rest = .word "SELECT".toList :: .word "id".toList :: .sign [','] ::
      .word "embedding".toList :: .sign [','] :: .word "text".toList :: .sign [','] :: .word "data".toList :: .word "FROM".toList ::
      .name coll.tableName.toList :: .word "WHERE".toList :: (nearLexemes v ++ (more ++ tail)) := by
    simp only [tail, coarseLexemes, List.append_assoc, List.cons_append, List.nil_append]
  have read := reads v tail ((nearLexemes v ++ (more ++ tail)).length + 1) rfl (by simp [nearLexemes]; omega)
  have stepped : select (coarseLexemes coll v limit more ++ .sign [')'] :: rest) =
      ((conds ((nearLexemes v ++ (more ++ tail)).length + 1) (nearLexemes v ++ (more ++ tail))).map fun (b, rest) => (some b, rest)).bind
        fun read => clauses (itemsOf ["id", "embedding", "text", "data"]) coll.tableName.toList (read.1.getD []) read.2 := by
    rw [shape]
    rfl
  rw [stepped, read]
  rfl

theorem select_reranked (v : Vector32) (limit : Int) (sort : Option SortSpec) :
    select (rerankedLexemes v limit sort) = some (rerankedOf v limit sort, []) := by
  rcases sort with _ | ⟨field, _ | _⟩ <;> rfl

/-- The text of a search is read as its query. -/
theorem query_search {coll : Collection} {v : Vector32} {limit : Int} {rerank : Bool} {filters : List FilterCondition}
    {sort : Option SortSpec} {q : SqlQuery} (free : '?' ∉ coll.tableName.toList)
    (sent : searchDocumentsSQL coll v limit rerank filters sort = .ok q) :
    queryOf q.sql.toList q.args = some (searchOf coll v limit rerank filters sort) := by
  have lined := (searchDocumentsSQL_splits sent).linesUp (placed_searchDocuments free v limit rerank filters sort)
  unfold queryOf searchOf
  rw [lined.bound, Option.bind_some, searchDocumentsMeant]
  split
  · rw [(lexes_search coll v limit filters sort).lexemes]
    show (select (coarseLexemes coll v limit (countedLexemes limit filters) ++ .sign [')'] :: rerankedLexemes v limit sort)).bind _ = _
    rw [select_coarse (more_coarse limit filters)]
    show (select (rerankedLexemes v limit sort)).bind _ = _
    rw [select_reranked]
    rfl
  · split
    · rw [(lexes_nearest coll v limit).lexemes]
      exact query_select rfl (select_nearest more_nil coll v limit none)
    · rw [(lexes_selected coll v limit filters sort).lexemes]
      exact query_select rfl (select_nearest (more_counted limit filters) coll v limit sort)

/-! ### What a search finds -/

/-- The `k` nearest rows, those at one distance in any order. -/
def Nearest (v : Vector32) (k : Int) (rows found : List Store.Row) : Prop :=
  ∃ ranking : List Store.Row, ranking.Perm rows ∧ (ranking.Pairwise fun r r' => hammingDistance v r.embedding ≤ hammingDistance v r'.embedding) ∧
    found = ranking.take k.toNat

/-- The distance of a row, as the last SELECT has it. -/
def distanceOf (h : Host) (rerank : Bool) (v : Vector32) (r : Store.Row) : Datum :=
  if rerank then .value (.real (.finite (h.distanceL2 v r.embedding))) else .value (.integer (hammingDistance v r.embedding))

/-- How many rows are looked at. -/
def lookedAt (limit : Int) (rerank : Bool) (filters : List FilterCondition) (sort : Option SortSpec) : Int :=
  if rerank = false ∧ filters = [] ∧ sort = none then limit else coarseLimit limit

/-- The results of a search: the nearest rows that meet the filters, with `rerank` cut
    off once more, and of these the first ones by the sort or by their distance. -/
def Searched (h : Host) (v : Vector32) (limit : Int) (rerank : Bool) (filters : List FilterCondition) (sort : Option SortSpec)
    (rows results : List Store.Row) : Prop :=
  ∃ found coarse ordered : List Store.Row, Nearest v (lookedAt limit rerank filters sort) rows found ∧
    (if rerank then ∃ near : List Store.Row, near.Perm (matching h filters found) ∧ Sorted h (distanceOf h false v) none near ∧
      coarse = page (some (coarseLimit limit)) none near else coarse = matching h filters found) ∧
    ordered.Perm coarse ∧ Sorted h (distanceOf h rerank v) sort ordered ∧ results = page (some limit) none ordered

/-- What vec0 checks before it looks for the nearest rows. -/
structure Accepted (s : DB) (table : String) (v : Vector32) (k : Int) (t : Table) : Prop where
  there : s.find table = some t
  kind : t.kind = .vec0 v.length
  aligned : v.length % 8 = 0
  bounds : 0 ≤ k ∧ k ≤ 4096

section Answers
variable {E : Engine} {h : Host} {s : DB} {coll : Collection} {v : Vector32} {filters : List FilterCondition} {sort : Option SortSpec}
  {t : Table}

def bitsOf (v : Vector32) : List Bool := v.map quantize

theorem bitDistance_eq (v : Vector32) (r : Store.Row) : bitDistance (bitsOf v) r = hammingDistance v r.embedding := by
  unfold bitDistance bitsOf hammingDistance
  rw [List.zip_map, List.countP_map]
  rfl

/-- The columns of a row that is found near a vector. -/
def nearColumns (h : Host) (v : Vector32) (r : Store.Row) : SqlSelects.Row Datum :=
  columns true r ++ [("distance".toList, distanceOf h false v r)]

theorem foundColumns_eq (h : Host) (v : Vector32) : foundColumns (bitsOf v) = nearColumns h v := by
  funext r
  show columns true r ++ [("distance".toList, .value (.integer (bitDistance (bitsOf v) r)))] = _
  rw [bitDistance_eq]
  rfl

/-- The table finds the nearest rows, with `k` in a condition or behind LIMIT. -/
theorem finds_near {table : String} {k : Int} (accepted : Accepted s table v k t) {cs : List (Cond Arg)} {limit : Option Int}
    (number : (cs = filters.map conditionOf ∧ limit = some k) ∨ cs = numberIs k :: filters.map conditionOf)
    (rows : List (SqlSelects.Row Datum)) (left : List (Cond Arg)) : Finds h s table.toList (nearTo v :: cs) limit rows left ↔
      ∃ found, Nearest v k t.rows found ∧ rows = found.map (nearColumns h v) ∧ left = filters.map conditionOf := by
  have quantized : applySQL h "vec_quantize_binary".toList [argument (.vector v)] = some (.bits (bitsOf v)) :=
    if_pos ⟨rfl, accepted.aligned⟩
  have named : s.find (String.ofList table.toList) = some t := (congrArg s.find String.ofList_toList).trans accepted.there
  rw [← foundColumns_eq]
  constructor
  · intro finds
    cases finds with
    | all _ plain => exact absurd rfl (plain _ List.mem_cons_self)
    | @nearest _ _ k' _ _ _ _ _ _ there kind bits fits number' bounds perm ranked plain =>
      cases Option.some.inj (named.symm.trans there)
      cases Option.some.inj (quantized.symm.trans bits)
      have same : left = filters.map conditionOf ∧ k' = k := by
        rcases number with ⟨rfl, rfl⟩ | rfl <;> rcases number' with ⟨rfl, limits⟩ | leading
        · exact ⟨rfl, (Option.some.inj limits).symm⟩
        · exact absurd rfl (plain_conditions filters _ (leading ▸ List.mem_cons_self)).2
        · exact absurd rfl (plain _ List.mem_cons_self).2
        · obtain ⟨first, rest⟩ := List.cons.inj leading
          cases first
          exact ⟨rest.symm, rfl⟩
      obtain ⟨rfl, rfl⟩ := same
      exact ⟨_, ⟨_, perm, ranked.imp fun le => by rwa [bitDistance_eq, bitDistance_eq] at le, rfl⟩, rfl, rfl⟩
  · rintro ⟨_, ⟨ranking, perm, ranked, rfl⟩, rfl, rfl⟩
    have length : ((bitsOf v).length : Int) = v.length := by rw [bitsOf, List.length_map]
    refine .nearest named accepted.kind quantized length number accepted.bounds perm (ranked.imp fun le => ?_) (plain_conditions filters)
    rwa [bitDistance_eq, bitDistance_eq]

/-- What a search shows of a row. -/
def shownNear (h : Host) (rerank : Bool) (v : Vector32) (r : Store.Row) : SqlSelects.Row Datum :=
  [("id".toList, .value (.integer r.id)), ("text".toList, .value (.text r.text)), ("data".toList, .json r.data),
    ("distance".toList, distanceOf h rerank v r)]

theorem plain_items (names : List String) : ∀ i ∈ itemsOf names, i.expr.isAggregate (dialect E h s) = false := by
  intro i member
  obtain ⟨c, -, rfl⟩ := List.mem_map.mp member
  rfl

/-- The answers to a query on the nearest rows. -/
theorem nearest_answers {k limit : Int} (accepted : Accepted s coll.tableName v k t)
    (legible : filters ≠ [] ∨ sort ≠ none → ∀ r ∈ t.rows, readable r = true)
    (fields : ∀ c ∈ filters, collectionNameRe c.field = true) (valid : ∀ spec, sort = some spec → collectionNameRe spec.field = true)
    {cs : List (Cond Arg)} (number : (cs = filters.map conditionOf ∧ limit = k) ∨ cs = numberIs k :: filters.map conditionOf)
    (out : List (SqlSelects.Row Datum)) : (nearestOf coll v limit cs sort).Answers (dialect E h s) out ↔
      ∃ found ordered, Nearest v k t.rows found ∧ ordered.Perm (matching h filters found) ∧
        Sorted h (distanceOf h false v) sort ordered ∧ out = (page (some limit) none ordered).map (shownNear h false v) := by
  have numbered : (cs = filters.map conditionOf ∧ some limit = some k) ∨ cs = numberIs k :: filters.map conditionOf :=
    number.imp_left fun both => ⟨both.1, congrArg some both.2⟩
  have deep {found : List Store.Row} (near : Nearest v k t.rows found) (given : filters ≠ [] ∨ sort ≠ none) :
      ∀ r ∈ found, readable r = true := by
    obtain ⟨ranking, perm, -, rfl⟩ := near
    exact fun r member => legible given r (perm.mem_iff.mp (List.mem_of_mem_take member))
  refine (answers_iff (dialect E h s) (nearestOf coll v limit cs sort) (nearColumns h v) (shownNear h false v)
    (fun r => filters.all fun c => c.holds h r.data) (valueOf h (distanceOf h false v) sort) rfl (plain_items _) rfl rfl (finds_near accepted numbered) ?_ ?_ ?_).trans ?_
  · exact fun found near r member => meets_conditions rfl (fun given => of_decide_eq_true (deep near (.inl given) r member)) fields
  · exact fun _ _ r _ => rfl
  · intro found near e desc sorts r member
    have is : orderOf "distance".toList sort = (e, desc) := Option.some.inj sorts
    have sortedBy : e = (orderOf "distance".toList sort).1 := (congrArg Prod.fst is).symm
    rw [sortedBy]
    exact eval_order rfl rfl (fun given => deep near (.inr given) r member) valid
  · refine exists_congr fun found => exists_congr fun ordered => and_congr_right fun _ => and_congr_right fun _ => ?_
    exact and_congr_left fun _ => inOrder_iff

/-- The answers to the coarse search have the columns that the second query needs. -/
theorem coarse_answers {limit : Int} (accepted : Accepted s coll.tableName v (coarseLimit limit) t)
    (legible : filters ≠ [] → ∀ r ∈ t.rows, readable r = true) (fields : ∀ c ∈ filters, collectionNameRe c.field = true)
    (out : List (SqlSelects.Row Datum)) :
    (coarseOf coll v limit (if filters = [] then [] else countedConds limit filters)).Answers (dialect E h s) out ↔
      ∃ found near, Nearest v (coarseLimit limit) t.rows found ∧ near.Perm (matching h filters found) ∧
        Sorted h (distanceOf h false v) none near ∧ out = (page (some (coarseLimit limit)) none near).map (columns true) := by
  have number : ((if filters = [] then [] else countedConds limit filters) = filters.map conditionOf ∧
      some (coarseLimit limit) = some (coarseLimit limit)) ∨
      (if filters = [] then [] else countedConds limit filters) = numberIs (coarseLimit limit) :: filters.map conditionOf := by
    by_cases none : filters = []
    · exact .inl ⟨by simp [none], rfl⟩
    · exact .inr (if_neg none)
  have deep {found : List Store.Row} (near : Nearest v (coarseLimit limit) t.rows found) (given : filters ≠ []) :
      ∀ r ∈ found, readable r = true := by
    obtain ⟨ranking, perm, -, rfl⟩ := near
    exact fun r member => legible given r (perm.mem_iff.mp (List.mem_of_mem_take member))
  refine (answers_iff (dialect E h s) (coarseOf coll v limit _) (nearColumns h v) (columns true)
    (fun r => filters.all fun c => c.holds h r.data) (valueOf h (distanceOf h false v) none) rfl (plain_items _) rfl rfl (finds_near accepted number) ?_ ?_ ?_).trans ?_
  · exact fun found near r member => meets_conditions rfl (fun given => of_decide_eq_true (deep near given r member)) fields
  · exact fun _ _ r _ => rfl
  · rintro found near e desc ⟨⟩ r member
    rfl
  · refine exists_congr fun found => exists_congr fun ordered => and_congr_right fun _ => and_congr_right fun _ => ?_
    have order : InOrder (dialect E h s) (some (orderOf "distance".toList none)) (valueOf h (distanceOf h false v) none) ordered ↔
        Sorted h (distanceOf h false v) none ordered := inOrder_iff
    exact and_congr_left fun _ => order

/-- The second query goes over the rows of the first one. -/
theorem reranked_answers {limit : Int} {rows : List Store.Row} (legible : sort ≠ none → ∀ r ∈ rows, readable r = true)
    (valid : ∀ spec, sort = some spec → collectionNameRe spec.field = true) (out : List (SqlSelects.Row Datum)) :
    (rerankedOf v limit sort).Answers ((dialect E h s).only "coarse_matches".toList (rows.map (columns true))) out ↔
      ∃ ordered : List Store.Row, ordered.Perm rows ∧ Sorted h (distanceOf h true v) sort ordered ∧
        out = (page (some limit) none ordered).map (shownNear h true v) := by
  have plain : ∀ i ∈ (rerankedOf v limit sort).items,
      i.expr.isAggregate ((dialect E h s).only "coarse_matches".toList (rows.map (columns true))) = false := by
    intro i member
    rcases List.mem_append.mp member with column | last
    · exact plain_items (E := E) (h := h) (s := s) _ i column
    · rw [List.mem_singleton.mp last]
      rfl
  have finds (given : List (SqlSelects.Row Datum)) (left : List (Cond Arg)) :
      ("coarse_matches".toList = "coarse_matches".toList ∧ given = rows.map (columns true) ∧ left = []) ↔
        ∃ found, found = rows ∧ given = found.map (columns true) ∧ left = [] := by simp
  refine (answers_iff _ (rerankedOf v limit sort) (columns true) (shownNear h true v) (fun _ => true)
    (valueOf h (distanceOf h true v) sort) rfl plain rfl rfl finds ?_ ?_ ?_).trans ?_
  · exact fun _ _ _ _ => rfl
  · exact fun _ _ r _ => rfl
  · rintro _ rfl e desc sorts r member
    have is : orderOf "distance".toList sort = (e, desc) := Option.some.inj sorts
    have sortedBy : e = (orderOf "distance".toList sort).1 := (congrArg Prod.fst is).symm
    rw [sortedBy, Expr.eval_only]
    exact eval_order rfl rfl (fun given => legible given r member) valid
  · have all : rows.filter (fun _ => true) = rows := List.filter_eq_self.mpr fun _ _ => rfl
    constructor
    · rintro ⟨_, ordered, rfl, perm, sorted, rfl⟩
      exact ⟨ordered, all ▸ perm, (inOrder_iff (E := E) (s := s)).mp sorted, rfl⟩
    · rintro ⟨ordered, perm, sorted, rfl⟩
      exact ⟨_, ordered, rfl, all.symm ▸ perm, (inOrder_iff (E := E) (s := s)).mpr sorted, rfl⟩

/-- The answers to the query of a search are its results. -/
theorem search_answers {limit : Int} {rerank : Bool} (accepted : Accepted s coll.tableName v (lookedAt limit rerank filters sort) t)
    (legible : filters ≠ [] ∨ sort ≠ none → ∀ r ∈ t.rows, readable r = true)
    (fields : ∀ c ∈ filters, collectionNameRe c.field = true) (valid : ∀ spec, sort = some spec → collectionNameRe spec.field = true)
    (out : List (SqlSelects.Row Datum)) : (searchOf coll v limit rerank filters sort).Answers (dialect E h s) out ↔
      ∃ results, Searched h v limit rerank filters sort t.rows results ∧ out = results.map (shownNear h rerank v) := by
  cases rerank with
  | true =>
    have more : lookedAt limit true filters sort = coarseLimit limit := if_neg fun all => nomatch all.1
    rw [more] at accepted
    have coarse := coarse_answers (E := E) (h := h) accepted (fun given => legible (.inl given)) fields
    have deep {found near : List Store.Row} (nearest : Nearest v (coarseLimit limit) t.rows found)
        (perm : near.Perm (matching h filters found)) (given : sort ≠ none) :
        ∀ r ∈ page (some (coarseLimit limit)) none near, readable r = true := by
      intro r member
      have kept : r ∈ matching h filters found := perm.mem_iff.mp (mem_of_mem_page member)
      obtain ⟨ranking, reordered, -, rfl⟩ := nearest
      exact legible (.inr given) r (reordered.mem_iff.mp (List.mem_of_mem_take (List.mem_filter.mp kept).1))
    constructor
    · rintro ⟨rows, inner, outer⟩
      obtain ⟨found, near, nearest, perm, sorted, rfl⟩ := (coarse rows).mp inner
      obtain ⟨ordered, perm', sorted', rfl⟩ := (reranked_answers (deep nearest perm) valid out).mp outer
      exact ⟨_, ⟨found, _, ordered, more ▸ nearest, ⟨near, perm, sorted, rfl⟩, perm', sorted', rfl⟩, rfl⟩
    · rintro ⟨_, ⟨found, _, ordered, nearest, ⟨near, perm, sorted, rfl⟩, perm', sorted', rfl⟩, rfl⟩
      rw [more] at nearest
      exact ⟨_, (coarse _).mpr ⟨found, near, nearest, perm, sorted, rfl⟩,
        (reranked_answers (deep nearest perm) valid _).mpr ⟨ordered, perm', sorted', rfl⟩⟩
  | false =>
    have query : ∃ cs, searchOf coll v limit false filters sort = ⟨none, nearestOf coll v limit cs sort⟩ ∧
        ((cs = filters.map conditionOf ∧ limit = lookedAt limit false filters sort) ∨
          cs = numberIs (lookedAt limit false filters sort) :: filters.map conditionOf) := by
      by_cases bare : filters = [] ∧ sort = none
      · obtain ⟨rfl, rfl⟩ := bare
        exact ⟨[], rfl, .inl ⟨rfl, rfl⟩⟩
      · refine ⟨countedConds limit filters, if_neg bare, .inr ?_⟩
        have more : lookedAt limit false filters sort = coarseLimit limit := if_neg fun all => bare all.2
        rw [more]
        rfl
    obtain ⟨cs, is, number⟩ := query
    rw [is]
    refine (nearest_answers (E := E) (h := h) accepted legible fields valid number out).trans ?_
    constructor
    · rintro ⟨found, ordered, nearest, perm, sorted, rfl⟩
      exact ⟨_, ⟨found, _, ordered, nearest, rfl, perm, sorted, rfl⟩, rfl⟩
    · rintro ⟨_, ⟨found, _, ordered, nearest, rfl, perm, sorted, rfl⟩, rfl⟩
      exact ⟨found, ordered, nearest, perm, sorted, rfl⟩

/-! ### What the search returns -/

theorem knn_ok {table : String} {k : Int} {rows : List Store.Row} (found : knn h s table v k = .ok rows) :
    ∃ t, Accepted s table v k t ∧ Nearest v k t.rows rows := by
  obtain ⟨t, dimensions, there, kind, ⟨aligned, fits⟩, positive, small, rfl⟩ := SortedSearch.knn_returns_iff.mp found
  refine ⟨t, ⟨there, ?_, aligned, positive, small⟩, _, (sortBy_perm _ _).trans (h.visit_perm t.rows), sortBy_pairwise _ _, rfl⟩
  rw [kind, fits]

theorem orderByDistance_sorted (rerank : Bool) (rows : List Store.Row) :
    (orderByDistance h rerank v rows).Perm rows ∧ Sorted h (distanceOf h rerank v) none (orderByDistance h rerank v rows) := by
  refine ⟨(sortBy_perm _ _).trans (h.visit_perm rows), (sortBy_pairwise (distance h rerank v) (h.visit rows)).imp fun {x y} le => ?_⟩
  cases rerank with
  | true => exact key_finite_le le
  | false =>
    have near : ((hammingDistance v x.embedding : Nat) : ℚ) ≤ (hammingDistance v y.embedding : Nat) := le
    exact key_integer_le (by exact_mod_cast near)

theorem finalOrderBy_sorted {rerank : Bool} {rows sorted : List Store.Row} (done : finalOrderBy h rerank v sort rows = .ok sorted) :
    sorted.Perm rows ∧ Sorted h (distanceOf h rerank v) sort sorted := by
  cases sort with
  | none =>
    cases done
    exact orderByDistance_sorted rerank rows
  | some spec =>
    have all : ∀ r ∈ rows, readable r = true := by
      by_contra deep
      have refused : finalOrderBy h rerank v (some spec) rows = .error malformedJSON :=
        if_pos fun each => deep (List.all_eq_true.mp each)
      rw [refused] at done
      cases done
    obtain ⟨found, ordered, perm, ascending⟩ := orderBySQL_sorted (h := h) all (distanceOf h rerank v) spec
    obtain rfl : found = sorted := Except.ok.inj (ordered.symm.trans done)
    exact ⟨perm, ascending⟩

theorem coarseMatches_ok {table : String} {limit : Int} {rerank : Bool} {rows : List Store.Row}
    (done : coarseMatches h s table v limit rerank filters = .ok rows) : ∃ found, knn h s table v (coarseLimit limit) = .ok found ∧
      rows = if rerank then limitRows (coarseLimit limit) (orderByDistance h false v (matching h filters found))
        else matching h filters found := by
  unfold coarseMatches at done
  cases near : knn h s table v (coarseLimit limit) with
  | error e => simp [near, bind, Except.bind] at done
  | ok found =>
    cases filtered : filterWhere h filters found with
    | error e => simp [near, filtered, bind, Except.bind] at done
    | ok kept =>
      obtain ⟨rfl, -⟩ := filterWhere_ok filtered
      simp only [near, filtered, bind, Except.bind, pure, Except.pure, Except.ok.injEq] at done
      exact ⟨found, rfl, done.symm⟩

/-- The rows of a search that does not fail are its results. -/
theorem searchRows_ok {table : String} {limit : Int} {rerank : Bool} {rows : List Store.Row}
    (found : searchRows h s table v limit rerank filters sort = .ok rows) :
    ∃ t, Accepted s table v (lookedAt limit rerank filters sort) t ∧ Searched h v limit rerank filters sort t.rows rows := by
  unfold searchRows at found
  by_cases bare : rerank = false ∧ filters = [] ∧ sort = none
  · obtain ⟨rfl, rfl, rfl⟩ := bare
    rw [if_pos ⟨rfl, rfl, rfl⟩] at found
    cases near : knn h s table v limit with
    | error e => simp [near, Except.map] at found
    | ok nearest =>
      rw [near] at found
      cases found
      obtain ⟨t, accepted, is⟩ := knn_ok near
      have all : matching h [] nearest = nearest := List.filter_eq_self.mpr fun _ _ => rfl
      obtain ⟨perm, sorted⟩ := orderByDistance_sorted (h := h) (v := v) false nearest
      refine ⟨t, accepted, nearest, nearest, _, is, all.symm, perm, sorted, ?_⟩
      have positive : ¬ limit < 0 := not_lt.mpr accepted.bounds.1
      have few : nearest.length ≤ limit.toNat := by
        obtain ⟨ranking, -, -, rfl⟩ := is
        exact List.length_take_le _ _
      show _ = if limit < 0 then _ else (orderByDistance h false v nearest).take limit.toNat
      rw [if_neg positive, List.take_of_length_le (perm.length_eq.le.trans few)]
  · rw [if_neg bare] at found
    have more : lookedAt limit rerank filters sort = coarseLimit limit := if_neg bare
    cases coarse : coarseMatches h s table v limit rerank filters with
    | error e => simp [coarse, bind, Except.bind] at found
    | ok candidates =>
      cases last : finalOrderBy h rerank v sort candidates with
      | error e => simp [coarse, last, bind, Except.bind] at found
      | ok sorted =>
        simp only [coarse, last, bind, Except.bind, pure, Except.pure, Except.ok.injEq] at found
        obtain ⟨nearest, near, rfl⟩ := coarseMatches_ok coarse
        obtain ⟨t, accepted, is⟩ := knn_ok near
        obtain ⟨perm, ascending⟩ := finalOrderBy_sorted last
        rw [← found]
        refine ⟨t, more ▸ accepted, nearest, _, sorted, more ▸ is, ?_, perm, ascending, rfl⟩
        cases rerank with
        | false => rfl
        | true =>
          obtain ⟨coarsePerm, coarseSorted⟩ := orderByDistance_sorted (h := h) (v := v) false (matching h filters nearest)
          exact ⟨_, coarsePerm, coarseSorted, rfl⟩

theorem scan_near (rerank : Bool) (r : Store.Row) :
    scanDocument ((shownNear h rerank v r).map (·.2)) = some (SearchShapes.hit h rerank v r) := by
  have number : (distanceOf h rerank v r).rational = some (distance h rerank v r) := by
    cases rerank with
    | true => rfl
    | false =>
      show some (((hammingDistance v r.embedding : Nat) : Int) : ℚ) = some ((hammingDistance v r.embedding : Nat) : ℚ)
      rw [Int.cast_natCast]
  show (distanceOf h rerank v r).rational.map _ = _
  rw [number, Option.map_some]
  rfl

end Answers

end Microserver.CompiledSearches
