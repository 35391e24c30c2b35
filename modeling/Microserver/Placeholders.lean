import Microserver.QueryTexts
import Microserver.Reachable

/-!
The queries with their arguments in place. Each query is written a second time,
with every argument where it is meant to stand; the texts and the argument lists
that the functions build are those queries, split, so binding the arguments in
order puts each of them where it is meant.
-/
namespace Microserver.Placeholders
open Microserver.Values Microserver.Store Microserver.Statements Microserver.Reachable Microserver.Integrity
open Microserver.Queries hiding orderBySQL
open Microserver.ReadHandlers Microserver.SqlTexts Microserver.QueryTexts

/-! ### The queries as they are meant -/

/-- `json_extract(data, path) op value`. -/
def conditionPieces (c : FilterCondition) : List (Piece Arg) :=
  lit "json_extract(data, " ++ .arg (path c.field) :: lit (") " ++ opSQL c.sqlOp ++ " ") ++ [.arg (.value c.value)]

def filterPieces (keyword : String) (conds : List FilterCondition) : List (Piece Arg) :=
  if conds = [] then [] else lit keyword ++ (lit " AND ").intercalate (conds.map conditionPieces)

def orderPieces (standard : String) : Option SortSpec → List (Piece Arg)
  | none => lit standard
  | some s => lit "json_extract(data, " ++ .arg (path s.field) :: lit (") " ++ if s.desc then "DESC" else "ASC")

def listDocumentsMeant (coll : Collection) (limit offset : Int) (filters : List FilterCondition) (sort : Option SortSpec) :
    List (Piece Arg) :=
  lit (if coll.hasVector then "SELECT id, text, data FROM " else "SELECT id, data FROM ") ++ lit (quoteIdent coll.tableName) ++
    lit " " ++ filterPieces "WHERE " filters ++ lit " ORDER BY " ++ orderPieces "id" sort ++
    lit " LIMIT " ++ .arg (.int limit) :: lit " OFFSET " ++ [.arg (.int offset)]

/-- The nearest rows without filters and sort. -/
def nearestMeant (coll : Collection) (v : Vector32) (limit : Int) : List (Piece Arg) :=
  lit "\n\t\t\t\tSELECT id, text, data, distance\n\t\t\t\tFROM " ++ lit (quoteIdent coll.tableName) ++
    lit "\n\t\t\t\tWHERE embedding_bit MATCH vec_quantize_binary(" ++
    .arg (.vector v) :: lit ")\n\t\t\t\tORDER BY distance\n\t\t\t\tLIMIT " ++ [.arg (.int limit)]

/-- The nearest rows with filters or a sort: `k` rows are looked at. -/
def selectedMeant (coll : Collection) (v : Vector32) (limit : Int) (filters : List FilterCondition) (sort : Option SortSpec) :
    List (Piece Arg) :=
  lit "\n\t\t\t\tSELECT id, text, data, distance\n\t\t\t\tFROM " ++ lit (quoteIdent coll.tableName) ++
    lit "\n\t\t\t\tWHERE embedding_bit MATCH vec_quantize_binary(" ++
    .arg (.vector v) :: lit ") AND k = " ++ .arg (.int (coarseLimit limit)) :: lit " " ++ filterPieces "AND " filters ++
    lit "\n\t\t\t\tORDER BY " ++ orderPieces "distance" sort ++ lit "\n\t\t\t\tLIMIT " ++ [.arg (.int limit)]

/-- What follows the coarse search: the exact distance to the vector decides. -/
def rerankedMeant (v : Vector32) (limit : Int) (sort : Option SortSpec) : List (Piece Arg) :=
  lit "\n\t\t\t\t)\n\t\t\t\tSELECT id, text, data, vec_distance_L2(embedding, " ++
    .arg (.vector v) :: lit ") AS distance\n\t\t\t\tFROM coarse_matches\n\t\t\t\tORDER BY " ++ orderPieces "distance" sort ++
    lit "\n\t\t\t\tLIMIT " ++ [.arg (.int limit)]

/-- The coarse search, by LIMIT without filters and by `k` and LIMIT with them. -/
def coarseMeant (coll : Collection) (v : Vector32) (limit : Int) (filters : List FilterCondition) : List (Piece Arg) :=
  lit "\n\t\t\t\tWITH coarse_matches AS (\n\t\t\t\t\tSELECT id, embedding, text, data\n\t\t\t\t\tFROM " ++
    lit (quoteIdent coll.tableName) ++ lit "\n\t\t\t\t\tWHERE embedding_bit MATCH vec_quantize_binary(" ++
    .arg (.vector v) :: lit ")" ++
    (if filters = [] then [] else lit " AND k = " ++ .arg (.int (coarseLimit limit)) :: lit " " ++ filterPieces "AND " filters) ++
    lit "\n\t\t\t\t\tORDER BY distance\n\t\t\t\t\tLIMIT " ++ [.arg (.int (coarseLimit limit))]

def searchDocumentsMeant (coll : Collection) (v : Vector32) (limit : Int) (rerank : Bool) (filters : List FilterCondition)
    (sort : Option SortSpec) : List (Piece Arg) :=
  if rerank then coarseMeant coll v limit filters ++ rerankedMeant v limit sort
  else if filters = [] ∧ sort = none then nearestMeant coll v limit
  else selectedMeant coll v limit filters sort

def fullTextSearchDocumentsMeant (coll : Collection) (query : String) (limit offset : Int) (filters : List FilterCondition)
    (sort : Option SortSpec) : List (Piece Arg) :=
  lit "\n\t\tSELECT m.id, m.text, m.data\n\t\tFROM " ++ lit (quoteIdent (ftsTableName coll.tableName)) ++ lit " f\n\t\tJOIN " ++
    lit (quoteIdent coll.tableName) ++ lit " m ON m.id = f.rowid\n\t\tWHERE f.text MATCH " ++
    .arg (.text query) :: lit " " ++ filterPieces "AND " filters ++ lit "\n\t\tORDER BY " ++ orderPieces "rank" sort ++
    lit "\n\t\tLIMIT " ++ .arg (.int limit) :: lit " OFFSET " ++ [.arg (.int offset)]

/-- The function of a field, or all rows counted. -/
def aggPieces (fn : AggFunction) (field : String) : List (Piece Arg) :=
  if field = "" then lit "COUNT(*)" else lit (fnSQL fn ++ "(json_extract(data, ") ++ .arg (path field) :: lit "))"

def aggregateDocumentsMeant (coll : Collection) (fn : AggFunction) (field groupBy : String) (filters : List FilterCondition) :
    List (Piece Arg) :=
  lit "SELECT " ++
    (if groupBy = "" then [] else lit "json_extract(data, " ++ .arg (path groupBy) :: lit ") AS grp, ") ++
    aggPieces fn field ++ lit " FROM " ++ lit (quoteIdent coll.tableName) ++ lit " " ++ filterPieces "WHERE " filters ++
    lit (if groupBy = "" then "" else " GROUP BY grp ORDER BY grp")

/-! ### What is built is what is meant -/

/-- The query is the pieces, split. -/
structure Splits (q : SqlQuery) (pieces : List (Piece Arg)) : Prop where
  sql : q.sql.toList = text pieces
  args : q.args = args pieces

theorem filterWhereSQL_empty {filters : List FilterCondition} : (filterWhereSQL filters).sql = "" ↔ filters = [] := by
  constructor
  · intro empty
    cases filters with
    | nil => rfl
    | cons c rest =>
      have none := congrArg String.toList empty
      unfold filterWhereSQL at none
      rw [if_neg (List.cons_ne_nil c rest), String.toList_intercalate] at none
      cases rest <;> simp at none
  · rintro rfl
    rfl

theorem conditions_splits (keyword : String) (filters : List FilterCondition) :
    (conditions keyword (filterWhereSQL filters).sql).toList = text (filterPieces keyword filters) ∧
      (filterWhereSQL filters).args = args (filterPieces keyword filters) := by
  unfold filterPieces
  by_cases none : filters = []
  · rw [if_pos none, none]
    exact ⟨rfl, rfl⟩
  · have filtering : (filterWhereSQL filters).sql ≠ "" := fun empty => none (filterWhereSQL_empty.mp empty)
    unfold conditions
    rw [if_neg none, if_pos filtering]
    unfold filterWhereSQL
    rw [if_neg none]
    constructor
    · rw [String.toList_append, String.toList_intercalate, text_append, text_lit, text_intercalate, text_lit, List.map_map,
        List.map_map]
      refine congrArg _ (congrArg _ (List.map_congr_left fun c _ => ?_))
      simp [conditionPieces]
    · rw [args_append, args_lit, args_intercalate (args_lit " AND "), List.nil_append, List.flatMap_map]
      refine List.flatMap_congr fun c _ => ?_
      simp [conditionPieces]

theorem orderByOr_splits (standard : String) (sort : Option SortSpec) :
    Splits (orderByOr standard sort) (orderPieces standard sort) := by
  cases sort with
  | none => exact ⟨(text_lit _).symm, (args_lit _).symm⟩
  | some s =>
    have sql : (orderByOr standard (some s)).sql = "json_extract(data, ?) " ++ if s.desc then "DESC" else "ASC" := rfl
    have placeholder : "json_extract(data, ?) ".toList = "json_extract(data, ".toList ++ '?' :: ") ".toList := by decide
    constructor
    · rw [sql, String.toList_append, placeholder]
      unfold orderPieces
      rw [text_append, text_lit, text_arg, text_lit, String.toList_append, List.append_assoc, List.cons_append]
    · unfold orderPieces
      rw [args_append, args_lit, args_arg, args_lit]
      rfl

theorem listDocumentsSQL_splits (coll : Collection) (limit offset : Int) (filters : List FilterCondition) (sort : Option SortSpec) :
    Splits (listDocumentsSQL coll limit offset filters sort) (listDocumentsMeant coll limit offset filters sort) := by
  obtain ⟨whereClause, whereArgs⟩ := conditions_splits "WHERE " filters
  obtain ⟨order, orderArgs⟩ := orderByOr_splits "id" sort
  unfold listDocumentsSQL listDocumentsMeant
  constructor
  · cases coll.hasVector <;> simp [whereClause, order]
  · simp [whereArgs, orderArgs]

set_option maxRecDepth 2048 in
theorem searchDocumentsSQL_splits {coll : Collection} {v : Vector32} {limit : Int} {rerank : Bool}
    {filters : List FilterCondition} {sort : Option SortSpec} {q : SqlQuery}
    (sent : searchDocumentsSQL coll v limit rerank filters sort = .ok q) :
    Splits q (searchDocumentsMeant coll v limit rerank filters sort) := by
  obtain ⟨whereClause, whereArgs⟩ := conditions_splits "AND " filters
  obtain ⟨order, orderArgs⟩ := orderByOr_splits "distance" sort
  have empty : filters.length = 0 ↔ filters = [] := List.length_eq_zero_iff
  unfold searchDocumentsSQL at sent
  dsimp only at sent
  simp only [empty] at sent
  split at sent
  · cases sent
  · cases rerank with
    | false =>
      rw [if_pos (by rfl)] at sent
      unfold searchDocumentsMeant
      rw [if_neg (by decide)]
      split at sent
      · rename_i bare
        rw [if_pos bare]
        cases sent
        exact ⟨by simp [nearestMeant], by simp [nearestMeant]⟩
      · rename_i filtering
        rw [if_neg filtering]
        cases sent
        exact ⟨by simp [selectedMeant, whereClause, order], by simp [selectedMeant, whereArgs, orderArgs]⟩
    | true =>
      rw [if_neg (by decide)] at sent
      unfold searchDocumentsMeant
      rw [if_pos rfl]
      unfold coarseMeant rerankedMeant
      split at sent
      · rename_i bare
        rw [if_pos bare]
        cases sent
        exact ⟨by simp [order], by simp [orderArgs]⟩
      · rename_i filtering
        rw [if_neg filtering]
        cases sent
        exact ⟨by simp [whereClause, order], by simp [whereArgs, orderArgs]⟩

theorem fullTextSearchDocumentsSQL_splits {coll : Collection} {query : String} {limit offset : Int}
    {filters : List FilterCondition} {sort : Option SortSpec} {q : SqlQuery}
    (sent : fullTextSearchDocumentsSQL coll query limit offset filters sort = .ok q) :
    Splits q (fullTextSearchDocumentsMeant coll query limit offset filters sort) := by
  obtain ⟨whereClause, whereArgs⟩ := conditions_splits "AND " filters
  obtain ⟨order, orderArgs⟩ := orderByOr_splits "rank" sort
  unfold fullTextSearchDocumentsSQL at sent
  dsimp only at sent
  split at sent
  · cases sent
  · cases sent
    unfold fullTextSearchDocumentsMeant
    exact ⟨by simp [whereClause, order], by simp [whereArgs, orderArgs]⟩

theorem aggExpr_splits (fn : AggFunction) (field : String) : Splits (aggExpr fn field) (aggPieces fn field) := by
  unfold aggExpr aggPieces
  by_cases none : field = ""
  · rw [if_neg (not_not_intro none), if_pos none]
    exact ⟨(text_lit _).symm, (args_lit _).symm⟩
  · rw [if_pos none, if_neg none]
    exact ⟨by simp, by simp⟩

theorem aggregateDocumentsSQL_splits {coll : Collection} {op field groupBy : String} {filters : List FilterCondition}
    {q : SqlQuery} (sent : aggregateDocumentsSQL coll op field groupBy filters = .ok q) :
    ∃ fn, aggOps.lookup op = some fn ∧ Splits q (aggregateDocumentsMeant coll fn field groupBy filters) := by
  obtain ⟨whereClause, whereArgs⟩ := conditions_splits "WHERE " filters
  obtain ⟨fn, known, rfl⟩ := aggregateDocumentsSQL_ok sent
  obtain ⟨agg, aggArgs⟩ := aggExpr_splits fn field
  refine ⟨fn, known, ?_⟩
  unfold aggregateDocumentsMeant
  split
  · exact ⟨by simp [whereClause, agg], by simp [whereArgs, aggArgs]⟩
  · exact ⟨by simp [whereClause, agg], by simp [whereArgs, aggArgs]⟩

/-! ### Where the placeholders stand -/

section Places
variable {coll : Collection}

theorem placed_quoteIdent {name : String} (free : '?' ∉ name.toList) : Placed (lit (quoteIdent name) : List (Piece Arg)) := by
  unfold lit
  rw [quoteIdent_toList]
  exact placed_quoted free

theorem bare_opSQL (op : FilterOp) : Bare (opSQL op) := by
  cases op <;> decide

theorem bare_fnSQL (fn : AggFunction) : Bare (fnSQL fn) := by
  cases fn <;> decide

theorem bare_append {s t : String} (left : Bare s) (right : Bare t) : Bare (s ++ t) := by
  intro c member
  rw [String.toList_append, List.mem_append] at member
  exact member.elim (left c) (right c)

theorem placed_conditionPieces (c : FilterCondition) : Placed (conditionPieces c) := by
  have operator : Bare (") " ++ opSQL c.sqlOp ++ " ") :=
    bare_append (bare_append (by decide) (bare_opSQL c.sqlOp)) (by decide)
  exact (placed_lit (show Bare "json_extract(data, " by decide)).append (((placed_lit operator).append (placed_nil.arg _)).arg _)

theorem placed_filterPieces {keyword : String} (bare : Bare keyword) (filters : List FilterCondition) :
    Placed (filterPieces keyword filters) := by
  unfold filterPieces
  split
  · exact placed_nil
  · refine (placed_lit bare).append (placed_intercalate (placed_lit (show Bare " AND " by decide)) fun part member => ?_)
    obtain ⟨c, -, rfl⟩ := List.mem_map.mp member
    exact placed_conditionPieces c

theorem placed_orderPieces {standard : String} (bare : Bare standard) (sort : Option SortSpec) :
    Placed (orderPieces standard sort) := by
  cases sort with
  | none => exact placed_lit bare
  | some s =>
    have direction : Bare (") " ++ if s.desc then "DESC" else "ASC") := bare_append (by decide) (by split <;> decide)
    exact (placed_lit (by decide)).append ((placed_lit direction).arg _)

theorem placed_listDocuments (table : '?' ∉ coll.tableName.toList) (limit offset : Int) (filters : List FilterCondition)
    (sort : Option SortSpec) : Placed (listDocumentsMeant coll limit offset filters sort) := by
  unfold listDocumentsMeant
  repeat' with_reducible apply Placed.append
  · exact placed_lit (by split <;> decide)
  · exact placed_quoteIdent table
  · exact placed_lit (by decide)
  · exact placed_filterPieces (by decide) filters
  · exact placed_lit (by decide)
  · exact placed_orderPieces (by decide) sort
  · exact placed_lit (by decide)
  · exact (placed_lit (by decide)).arg _
  · exact placed_nil.arg _

theorem placed_nearest (table : '?' ∉ coll.tableName.toList) (v : Vector32) (limit : Int) :
    Placed (nearestMeant coll v limit) := by
  unfold nearestMeant
  repeat' with_reducible apply Placed.append
  · exact placed_lit (by decide +kernel)
  · exact placed_quoteIdent table
  · exact placed_lit (by decide +kernel)
  · exact (placed_lit (by decide +kernel)).arg _
  · exact placed_nil.arg _

theorem placed_selected (table : '?' ∉ coll.tableName.toList) (v : Vector32) (limit : Int) (filters : List FilterCondition)
    (sort : Option SortSpec) : Placed (selectedMeant coll v limit filters sort) := by
  unfold selectedMeant
  repeat' with_reducible apply Placed.append
  · exact placed_lit (by decide +kernel)
  · exact placed_quoteIdent table
  · exact placed_lit (by decide +kernel)
  · exact (placed_lit (by decide +kernel)).arg _
  · exact (placed_lit (by decide +kernel)).arg _
  · exact placed_filterPieces (by decide) filters
  · exact placed_lit (by decide +kernel)
  · exact placed_orderPieces (by decide) sort
  · exact placed_lit (by decide +kernel)
  · exact placed_nil.arg _

theorem placed_coarse (table : '?' ∉ coll.tableName.toList) (v : Vector32) (limit : Int) (filters : List FilterCondition) :
    Placed (coarseMeant coll v limit filters) := by
  unfold coarseMeant
  repeat' with_reducible apply Placed.append
  · exact placed_lit (by decide +kernel)
  · exact placed_quoteIdent table
  · exact placed_lit (by decide +kernel)
  · exact (placed_lit (by decide +kernel)).arg _
  · split
    · exact placed_nil
    · refine Placed.append ?_ (placed_filterPieces (by decide) filters)
      exact (placed_lit (by decide +kernel)).append ((placed_lit (by decide +kernel)).arg _)
  · exact placed_lit (by decide +kernel)
  · exact placed_nil.arg _

theorem placed_reranked (v : Vector32) (limit : Int) (sort : Option SortSpec) : Placed (rerankedMeant v limit sort) := by
  unfold rerankedMeant
  repeat' with_reducible apply Placed.append
  · exact placed_lit (by decide +kernel)
  · exact (placed_lit (by decide +kernel)).arg _
  · exact placed_orderPieces (by decide) sort
  · exact placed_lit (by decide +kernel)
  · exact placed_nil.arg _

theorem placed_searchDocuments (table : '?' ∉ coll.tableName.toList) (v : Vector32) (limit : Int) (rerank : Bool)
    (filters : List FilterCondition) (sort : Option SortSpec) :
    Placed (searchDocumentsMeant coll v limit rerank filters sort) := by
  unfold searchDocumentsMeant
  split
  · exact (placed_coarse table v limit filters).append (placed_reranked v limit sort)
  · split
    · exact placed_nearest table v limit
    · exact placed_selected table v limit filters sort

theorem placed_fullTextSearchDocuments (table : '?' ∉ coll.tableName.toList) (query : String) (limit offset : Int)
    (filters : List FilterCondition) (sort : Option SortSpec) :
    Placed (fullTextSearchDocumentsMeant coll query limit offset filters sort) := by
  have ftsTable : '?' ∉ (ftsTableName coll.tableName).toList := by
    rw [ftsTableName, String.toList_append, List.mem_append, not_or]
    exact ⟨table, by decide⟩
  unfold fullTextSearchDocumentsMeant
  repeat' with_reducible apply Placed.append
  · exact placed_lit (by decide +kernel)
  · exact placed_quoteIdent ftsTable
  · exact placed_lit (by decide +kernel)
  · exact placed_quoteIdent table
  · exact placed_lit (by decide +kernel)
  · exact (placed_lit (by decide +kernel)).arg _
  · exact placed_filterPieces (by decide) filters
  · exact placed_lit (by decide +kernel)
  · exact placed_orderPieces (by decide) sort
  · exact placed_lit (by decide +kernel)
  · exact (placed_lit (by decide +kernel)).arg _
  · exact placed_nil.arg _

theorem placed_aggregateDocuments (table : '?' ∉ coll.tableName.toList) (fn : AggFunction) (field groupBy : String)
    (filters : List FilterCondition) : Placed (aggregateDocumentsMeant coll fn field groupBy filters) := by
  have selected : Placed (aggPieces fn field) := by
    unfold aggPieces
    split
    · exact placed_lit (by decide)
    · exact (placed_lit (bare_append (bare_fnSQL fn) (by decide))).append ((placed_lit (by decide)).arg _)
  unfold aggregateDocumentsMeant
  repeat' with_reducible apply Placed.append
  · exact placed_lit (by decide)
  · split
    · exact placed_nil
    · exact (placed_lit (by decide)).append ((placed_lit (by decide)).arg _)
  · exact selected
  · exact placed_lit (by decide)
  · exact placed_quoteIdent table
  · exact placed_lit (by decide)
  · exact placed_filterPieces (by decide) filters
  · exact placed_lit (by split <;> decide)

/-- A registered table is named without placeholders. -/
theorem reached_table_free {h : Host} {calls : List (Histories.Call × List Bool)} (registered : coll ∈ (reached h calls).collections) :
    '?' ∉ coll.tableName.toList := by
  obtain ⟨name, valid, named⟩ := reached_tableNames h calls coll registered
  rw [named, String.toList_append, List.mem_append, not_or]
  refine ⟨by decide, fun member => ?_⟩
  unfold collectionNameRe at valid
  cases shape : name.toList with
  | nil =>
    rw [shape] at valid
    cases valid
  | cons c rest =>
    rw [shape] at valid member
    simp only [Bool.and_eq_true, List.all_eq_true] at valid
    rcases List.mem_cons.mp member with first | later
    · rw [← first] at valid
      exact absurd valid.1.1 (by decide)
    · exact absurd (valid.2 _ later) (by decide)

/-- There are as many placeholders as arguments, and with the arguments put in
    their places from left to right the query is the one that is meant. -/
structure LinesUp (q : SqlQuery) (meant : List (Piece Arg)) : Prop where
  count : q.sql.toList.count '?' = q.args.length
  bound : SqlTexts.bind false q.sql.toList q.args = some meant

theorem Splits.linesUp {q : SqlQuery} {meant : List (Piece Arg)} (splits : Splits q meant) (placed : Placed meant) :
    LinesUp q meant := by
  obtain ⟨sql, args⟩ := splits
  refine ⟨?_, ?_⟩
  · rw [sql, args]
    exact count_args placed.free
  · rw [sql, args]
    exact placed.bind

end Places

/-- The queries for a registered collection, whatever is filtered and sorted by. -/
theorem placeholders_line_up (h : Host) (calls : List (Histories.Call × List Bool)) :
    ∀ coll ∈ (reached h calls).collections, ∀ filters sort,
      (∀ limit offset, LinesUp (listDocumentsSQL coll limit offset filters sort)
        (listDocumentsMeant coll limit offset filters sort)) ∧
      (∀ v limit rerank q, searchDocumentsSQL coll v limit rerank filters sort = .ok q →
        LinesUp q (searchDocumentsMeant coll v limit rerank filters sort)) ∧
      (∀ query limit offset q, fullTextSearchDocumentsSQL coll query limit offset filters sort = .ok q →
        LinesUp q (fullTextSearchDocumentsMeant coll query limit offset filters sort)) ∧
      ∀ op field groupBy q, aggregateDocumentsSQL coll op field groupBy filters = .ok q →
        ∃ fn, aggOps.lookup op = some fn ∧ LinesUp q (aggregateDocumentsMeant coll fn field groupBy filters) := by
  intro coll registered filters sort
  have table := reached_table_free registered
  refine ⟨fun limit offset => ?_, fun v limit rerank q sent => ?_, fun query limit offset q sent => ?_,
    fun op field groupBy q sent => ?_⟩
  · exact (listDocumentsSQL_splits coll limit offset filters sort).linesUp (placed_listDocuments table limit offset filters sort)
  · exact (searchDocumentsSQL_splits sent).linesUp (placed_searchDocuments table v limit rerank filters sort)
  · exact (fullTextSearchDocumentsSQL_splits sent).linesUp
      (placed_fullTextSearchDocuments table query limit offset filters sort)
  · obtain ⟨fn, known, splits⟩ := aggregateDocumentsSQL_splits sent
    exact ⟨fn, known, splits.linesUp (placed_aggregateDocuments table fn field groupBy filters)⟩

/-- A filter and a sort on a collection without vectors. -/
theorem placeholders_line_up_pens :
    LinesUp (listDocumentsSQL ⟨"pens", "coll_pens", false, 0⟩ 20 40 [⟨"price", .lt, .integer 5⟩] (some ⟨"price", true⟩))
      (listDocumentsMeant ⟨"pens", "coll_pens", false, 0⟩ 20 40 [⟨"price", .lt, .integer 5⟩] (some ⟨"price", true⟩)) := by
  have registered : ⟨"pens", "coll_pens", false, 0⟩ ∈
      (reached Host.uniform [(.createCollection "pens" false 0 ⟨[], List.nodup_nil⟩, [])]).collections := by decide +kernel
  exact (placeholders_line_up Host.uniform _ _ registered [⟨"price", .lt, .integer 5⟩] (some ⟨"price", true⟩)).1 20 40

end Microserver.Placeholders
