import Microserver.ReadHandlers
import Microserver.SqlTexts

/-!
The SQL of listDocuments, searchDocuments, fullTextSearchDocuments and
aggregateDocuments, as text with its arguments. What a client sends is in the
arguments; the text is made of fixed parts and of the name of the table, which is
quoted, so that a reader of SQL finds this name and no other in it.
-/
namespace Microserver.QueryTexts
open Microserver.Values Microserver.Store Microserver.Statements Microserver.Requests Microserver.Params
open Microserver.Queries hiding orderBySQL
open Microserver.ReadHandlers Microserver.SqlTexts

/-- What is bound to a placeholder. -/
inductive Arg
  | vector (v : Vector32)
  | int (n : Int)
  | text (s : String)
  | value (v : SqlValue)
deriving DecidableEq

/-- A text of SQL and its arguments in order. -/
structure SqlQuery where
  sql : String
  args : List Arg
deriving DecidableEq

def quoteIdent (name : String) : String := "\"" ++ String.ofList (doubled name.toList) ++ "\""

/-- The operators of `filterOps`. -/
def opSQL : FilterOp → String
  | .eq => "="
  | .ne => "!="
  | .lt => "<"
  | .lte => "<="
  | .gt => ">"
  | .gte => ">="
  | .like => "LIKE"

/-- The functions of `aggOps`. -/
def fnSQL : AggFunction → String
  | .count => "COUNT"
  | .sum => "SUM"
  | .avg => "AVG"
  | .min => "MIN"
  | .max => "MAX"

/-- The path of a field. -/
def path (field : String) : Arg := .text ("$." ++ field)

def filterWhereSQL (conds : List FilterCondition) : SqlQuery :=
  if conds = [] then ⟨"", []⟩
  else ⟨String.intercalate " AND " (conds.map fun c => "json_extract(data, ?) " ++ opSQL c.sqlOp ++ " ?"),
    conds.flatMap fun c => [path c.field, .value c.value]⟩

def orderBySQL (s : SortSpec) : SqlQuery :=
  let dir := if s.desc then "DESC" else "ASC"
  ⟨"json_extract(data, ?) " ++ dir, [path s.field]⟩

/-- The ORDER BY of a sort, or the one that stands without. -/
def orderByOr (standard : String) (sort : Option SortSpec) : SqlQuery :=
  match sort with
  | none => ⟨standard, []⟩
  | some s => orderBySQL s

/-- The conditions after a keyword, if there are any. -/
def conditions (keyword : String) (whereSQL : String) : String := if whereSQL ≠ "" then keyword ++ whereSQL else ""

def listDocumentsSQL (coll : Collection) (limit offset : Int) (filters : List FilterCondition) (sort : Option SortSpec) :
    SqlQuery :=
  let table := quoteIdent coll.tableName
  let filtered := filterWhereSQL filters
  let whereClause := conditions "WHERE " filtered.sql
  let order := orderByOr "id" sort
  let query :=
    if coll.hasVector then
      "SELECT id, text, data FROM " ++ table ++ " " ++ whereClause ++ " ORDER BY " ++ order.sql ++ " LIMIT ? OFFSET ?"
    else "SELECT id, data FROM " ++ table ++ " " ++ whereClause ++ " ORDER BY " ++ order.sql ++ " LIMIT ? OFFSET ?"
  ⟨query, filtered.args ++ order.args ++ [.int limit, .int offset]⟩

/-- The four shapes; `serialized` is the vector of the query text. -/
def searchDocumentsSQL (coll : Collection) (serialized : Vector32) (limit : Int) (rerank : Bool)
    (filters : List FilterCondition) (sort : Option SortSpec) : Except Err SqlQuery :=
  if !coll.hasVector then .error .collectionNotVector
  else
    let table := quoteIdent coll.tableName
    let filtered := filterWhereSQL filters
    let extraWhere := conditions "AND " filtered.sql
    let order := orderByOr "distance" sort
    if !rerank then
      if filters.length = 0 ∧ sort = none then
        .ok ⟨"\n\t\t\t\tSELECT id, text, data, distance\n\t\t\t\tFROM " ++ table ++
          "\n\t\t\t\tWHERE embedding_bit MATCH vec_quantize_binary(?)\n\t\t\t\tORDER BY distance\n\t\t\t\tLIMIT ?",
          [.vector serialized, .int limit]⟩
      else
        let k := coarseLimit limit
        .ok ⟨"\n\t\t\t\tSELECT id, text, data, distance\n\t\t\t\tFROM " ++ table ++
          "\n\t\t\t\tWHERE embedding_bit MATCH vec_quantize_binary(?) AND k = ? " ++ extraWhere ++
          "\n\t\t\t\tORDER BY " ++ order.sql ++ "\n\t\t\t\tLIMIT ?",
          [.vector serialized, .int k] ++ filtered.args ++ order.args ++ [.int limit]⟩
    else
      let coarse := coarseLimit limit
      if filters.length = 0 then
        .ok ⟨"\n\t\t\t\tWITH coarse_matches AS (\n\t\t\t\t\tSELECT id, embedding, text, data\n\t\t\t\t\tFROM " ++ table ++
          "\n\t\t\t\t\tWHERE embedding_bit MATCH vec_quantize_binary(?)\n\t\t\t\t\tORDER BY distance\n\t\t\t\t\tLIMIT ?" ++
          "\n\t\t\t\t)\n\t\t\t\tSELECT id, text, data, vec_distance_L2(embedding, ?) AS distance\n\t\t\t\tFROM coarse_matches" ++
          "\n\t\t\t\tORDER BY " ++ order.sql ++ "\n\t\t\t\tLIMIT ?",
          [.vector serialized, .int coarse, .vector serialized] ++ order.args ++ [.int limit]⟩
      else
        .ok ⟨"\n\t\t\t\tWITH coarse_matches AS (\n\t\t\t\t\tSELECT id, embedding, text, data\n\t\t\t\t\tFROM " ++ table ++
          "\n\t\t\t\t\tWHERE embedding_bit MATCH vec_quantize_binary(?) AND k = ? " ++ extraWhere ++
          "\n\t\t\t\t\tORDER BY distance\n\t\t\t\t\tLIMIT ?" ++
          "\n\t\t\t\t)\n\t\t\t\tSELECT id, text, data, vec_distance_L2(embedding, ?) AS distance\n\t\t\t\tFROM coarse_matches" ++
          "\n\t\t\t\tORDER BY " ++ order.sql ++ "\n\t\t\t\tLIMIT ?",
          [.vector serialized, .int coarse] ++ filtered.args ++ [.int coarse, .vector serialized] ++ order.args ++
            [.int limit]⟩

def fullTextSearchDocumentsSQL (coll : Collection) (query : String) (limit offset : Int) (filters : List FilterCondition)
    (sort : Option SortSpec) : Except Err SqlQuery :=
  if !coll.hasVector then .error .collectionNoFullText
  else
    let table := quoteIdent coll.tableName
    let ftsTable := quoteIdent (ftsTableName coll.tableName)
    let filtered := filterWhereSQL filters
    let extraWhere := conditions "AND " filtered.sql
    let order := orderByOr "rank" sort
    .ok ⟨"\n\t\tSELECT m.id, m.text, m.data\n\t\tFROM " ++ ftsTable ++ " f\n\t\tJOIN " ++ table ++
      " m ON m.id = f.rowid\n\t\tWHERE f.text MATCH ? " ++ extraWhere ++ "\n\t\tORDER BY " ++ order.sql ++
      "\n\t\tLIMIT ? OFFSET ?", [.text query] ++ filtered.args ++ order.args ++ [.int limit, .int offset]⟩

/-- What is selected: the function of a field, or all rows counted. -/
def aggExpr (fn : AggFunction) (field : String) : SqlQuery :=
  if field ≠ "" then ⟨fnSQL fn ++ "(json_extract(data, ?))", [path field]⟩ else ⟨"COUNT(*)", []⟩

def aggregateDocumentsSQL (coll : Collection) (op field groupBy : String) (filters : List FilterCondition) :
    Except Err SqlQuery :=
  match aggOps.lookup op with
  | none => .error (.errorf ("unknown aggregate operator " ++ quote op ++ " (allowed: count, sum, avg, min, max)"))
  | some fn =>
    if op ≠ "count" ∧ field = "" then .error (.errorf ("field is required for " ++ quote op))
    else if field ≠ "" ∧ !collectionNameRe field then .error (.errorf ("invalid field " ++ quote field))
    else if groupBy ≠ "" ∧ !collectionNameRe groupBy then .error (.errorf ("invalid group_by field " ++ quote groupBy))
    else
      let table := quoteIdent coll.tableName
      let filtered := filterWhereSQL filters
      let whereClause := conditions "WHERE " filtered.sql
      let agg := aggExpr fn field
      if groupBy = "" then .ok ⟨"SELECT " ++ agg.sql ++ " FROM " ++ table ++ " " ++ whereClause, agg.args ++ filtered.args⟩
      else
        .ok ⟨"SELECT json_extract(data, ?) AS grp, " ++ agg.sql ++ " FROM " ++ table ++ " " ++ whereClause ++
          " GROUP BY grp ORDER BY grp", [path groupBy] ++ agg.args ++ filtered.args⟩

/-- What aggregateDocuments refuses, it refuses before it sends a query. -/
theorem aggregateDocumentsSQL_error (E : Engine) {coll : Collection} {op field groupBy : String} {filters : List FilterCondition}
    {e : Err} (refused : aggregateDocumentsSQL coll op field groupBy filters = .error e) :
    aggregateDocuments E coll op field groupBy filters = .fail e := by
  unfold aggregateDocumentsSQL at refused
  unfold aggregateDocuments
  cases known : aggOps.lookup op with
  | none =>
    rw [known] at refused
    cases refused
    rfl
  | some fn =>
    rw [known] at refused
    dsimp only at refused ⊢
    split at refused
    · cases refused
      rw [if_pos (by assumption)]
    · rw [if_neg (by assumption)]
      split at refused
      · cases refused
        rw [if_pos (by assumption)]
      · rw [if_neg (by assumption)]
        split at refused
        · cases refused
          rw [if_pos (by assumption)]
        · split at refused <;> cases refused

/-- The query that is sent otherwise. -/
theorem aggregateDocumentsSQL_ok {coll : Collection} {op field groupBy : String} {filters : List FilterCondition} {q : SqlQuery}
    (sent : aggregateDocumentsSQL coll op field groupBy filters = .ok q) : ∃ fn, aggOps.lookup op = some fn ∧
      q = if groupBy = "" then
          ⟨"SELECT " ++ (aggExpr fn field).sql ++ " FROM " ++ quoteIdent coll.tableName ++ " " ++
            conditions "WHERE " (filterWhereSQL filters).sql, (aggExpr fn field).args ++ (filterWhereSQL filters).args⟩
        else
          ⟨"SELECT json_extract(data, ?) AS grp, " ++ (aggExpr fn field).sql ++ " FROM " ++ quoteIdent coll.tableName ++ " " ++
            conditions "WHERE " (filterWhereSQL filters).sql ++ " GROUP BY grp ORDER BY grp",
            [path groupBy] ++ (aggExpr fn field).args ++ (filterWhereSQL filters).args⟩ := by
  unfold aggregateDocumentsSQL at sent
  cases known : aggOps.lookup op with
  | none =>
    rw [known] at sent
    cases sent
  | some fn =>
    rw [known] at sent
    dsimp only at sent
    refine ⟨fn, rfl, ?_⟩
    split at sent
    · cases sent
    · split at sent
      · cases sent
      · split at sent
        · cases sent
        · split at sent
          · rw [if_pos (by assumption)]
            exact (Except.ok.inj sent).symm
          · rw [if_neg (by assumption)]
            exact (Except.ok.inj sent).symm

/-! ### Texts of two requests -/

section Texts
variable {filters filters' : List FilterCondition} {sort sort' : Option SortSpec}

theorem filterWhereSQL_text (same : filters.map (·.sqlOp) = filters'.map (·.sqlOp)) :
    (filterWhereSQL filters).sql = (filterWhereSQL filters').sql := by
  have parts (conds : List FilterCondition) : conds.map (fun c => "json_extract(data, ?) " ++ opSQL c.sqlOp ++ " ?") =
      (conds.map (·.sqlOp)).map fun op => "json_extract(data, ?) " ++ opSQL op ++ " ?" := by
    rw [List.map_map]
    rfl
  have none : filters = [] ↔ filters' = [] := by rw [← List.map_eq_nil_iff (f := (·.sqlOp)), same, List.map_eq_nil_iff]
  unfold filterWhereSQL
  by_cases empty : filters = []
  · rw [if_pos empty, if_pos (none.mp empty)]
  · rw [if_neg empty, if_neg (fun empty' => empty (none.mpr empty')), parts, parts, same]

theorem orderByOr_text (standard : String) (same : sort.map (·.desc) = sort'.map (·.desc)) :
    (orderByOr standard sort).sql = (orderByOr standard sort').sql := by
  cases sort with
  | none =>
    cases sort' with
    | none => rfl
    | some s' => exact absurd same (by simp)
  | some s =>
    cases sort' with
    | none => exact absurd same (by simp)
    | some s' =>
      have desc : s.desc = s'.desc := Option.some.inj same
      show (orderBySQL s).sql = (orderBySQL s').sql
      unfold orderBySQL
      rw [desc]

theorem length_same (same : filters.map (·.sqlOp) = filters'.map (·.sqlOp)) : filters.length = filters'.length := by
  rw [← List.length_map (·.sqlOp), same, List.length_map]

theorem sort_none (same : sort.map (·.desc) = sort'.map (·.desc)) : sort = none ↔ sort' = none := by
  rw [← Option.map_eq_none_iff (f := (·.desc)), same, Option.map_eq_none_iff]

theorem listDocumentsSQL_text (coll : Collection) (limit offset limit' offset' : Int)
    (ops : filters.map (·.sqlOp) = filters'.map (·.sqlOp)) (sorts : sort.map (·.desc) = sort'.map (·.desc)) :
    (listDocumentsSQL coll limit offset filters sort).sql = (listDocumentsSQL coll limit' offset' filters' sort').sql := by
  unfold listDocumentsSQL
  dsimp only
  rw [filterWhereSQL_text ops, orderByOr_text "id" sorts]

theorem searchDocumentsSQL_text (coll : Collection) (v v' : Vector32) (limit limit' : Int) (rerank : Bool)
    (ops : filters.map (·.sqlOp) = filters'.map (·.sqlOp)) (sorts : sort.map (·.desc) = sort'.map (·.desc)) :
    (searchDocumentsSQL coll v limit rerank filters sort).map (·.sql) =
      (searchDocumentsSQL coll v' limit' rerank filters' sort').map (·.sql) := by
  unfold searchDocumentsSQL
  dsimp only
  rw [filterWhereSQL_text ops, orderByOr_text "distance" sorts, length_same ops]
  by_cases plain : (!coll.hasVector) = true
  · rw [if_pos plain, if_pos plain]
  · rw [if_neg plain, if_neg plain]
    by_cases near : (!rerank) = true
    · rw [if_pos near, if_pos near]
      by_cases bare : filters'.length = 0 ∧ sort = none
      · rw [if_pos bare, if_pos ⟨bare.1, (sort_none sorts).mp bare.2⟩]
        simp only [Except.map]
      · rw [if_neg bare, if_neg fun bare' => bare ⟨bare'.1, (sort_none sorts).mpr bare'.2⟩]
        simp only [Except.map]
    · rw [if_neg near, if_neg near]
      by_cases bare : filters'.length = 0
      · rw [if_pos bare, if_pos bare]
        simp only [Except.map]
      · rw [if_neg bare, if_neg bare]
        simp only [Except.map]

theorem fullTextSearchDocumentsSQL_text (coll : Collection) (query query' : String) (limit offset limit' offset' : Int)
    (ops : filters.map (·.sqlOp) = filters'.map (·.sqlOp)) (sorts : sort.map (·.desc) = sort'.map (·.desc)) :
    (fullTextSearchDocumentsSQL coll query limit offset filters sort).map (·.sql) =
      (fullTextSearchDocumentsSQL coll query' limit' offset' filters' sort').map (·.sql) := by
  unfold fullTextSearchDocumentsSQL
  dsimp only
  rw [filterWhereSQL_text ops, orderByOr_text "rank" sorts]
  split <;> simp only [Except.map]

theorem aggregateDocumentsSQL_text {coll : Collection} {op field groupBy field' groupBy' : String} {q q' : SqlQuery}
    (ops : filters.map (·.sqlOp) = filters'.map (·.sqlOp)) (fields : field = "" ↔ field' = "")
    (groups : groupBy = "" ↔ groupBy' = "") (sent : aggregateDocumentsSQL coll op field groupBy filters = .ok q)
    (sent' : aggregateDocumentsSQL coll op field' groupBy' filters' = .ok q') : q.sql = q'.sql := by
  obtain ⟨fn, known, rfl⟩ := aggregateDocumentsSQL_ok sent
  obtain ⟨fn', known', rfl⟩ := aggregateDocumentsSQL_ok sent'
  have same : fn = fn' := Option.some.inj (known.symm.trans known')
  subst same
  have selected : (aggExpr fn field).sql = (aggExpr fn field').sql := by
    unfold aggExpr
    by_cases none : field = ""
    · rw [if_neg (not_not_intro none), if_neg (not_not_intro (fields.mp none))]
    · rw [if_pos none, if_pos fun none' => none (fields.mpr none')]
  rw [selected, filterWhereSQL_text ops]
  by_cases none : groupBy = ""
  · rw [if_pos none, if_pos (groups.mp none)]
  · rw [if_neg none, if_neg fun none' => none (groups.mpr none')]

end Texts

/-! ### The tables of a text -/

section Tables
variable {filters : List FilterCondition} {sort : Option SortSpec}

/-- A text without quotation marks. -/
def Unmarked (s : String) : Prop := '"' ∉ s.toList

instance (s : String) : Decidable (Unmarked s) := inferInstanceAs (Decidable (_ ∉ _))

theorem unmarked_append {s t : String} : Unmarked (s ++ t) ↔ Unmarked s ∧ Unmarked t := by
  unfold Unmarked
  rw [String.toList_append, List.mem_append, not_or]

theorem quoteIdent_toList (name : String) : (quoteIdent name).toList = '"' :: doubled name.toList ++ ['"'] := by
  simp [quoteIdent]

/-- A quoted name is read as one identifier, and that is the name. -/
theorem tokens_quoteIdent (name : String) : tokens (quoteIdent name).toList = [.identifier name.toList] := by
  rw [quoteIdent_toList]
  exact tokens_quoted name.toList (show ([] : List Char).head? ≠ some '"' by simp)

theorem identifiers_quoteIdent {before after : String} (name : String) (unmarked : Unmarked before)
    (ends : after.toList.head? ≠ some '"') :
    identifiers (before ++ (quoteIdent name ++ after)).toList = name.toList :: identifiers after.toList := by
  rw [String.toList_append, String.toList_append, quoteIdent_toList, identifiers_append unmarked, List.append_assoc]
  exact identifiers_quoted name.toList ends

theorem unmarked_opSQL (op : FilterOp) : Unmarked (opSQL op) := by
  cases op <;> decide

theorem unmarked_fnSQL (fn : AggFunction) : Unmarked (fnSQL fn) := by
  cases fn <;> decide

theorem unmarked_intercalate {separator : String} {parts : List String} (between : Unmarked separator)
    (each : ∀ part ∈ parts, Unmarked part) : Unmarked (String.intercalate separator parts) := by
  induction parts with
  | nil =>
    rw [String.intercalate_nil]
    decide
  | cons part rest ih =>
    have others := ih fun p member => each p (.tail _ member)
    cases rest with
    | nil => simpa using each part (.head _)
    | cons next rest =>
      rw [String.intercalate_cons_cons, unmarked_append, unmarked_append]
      exact ⟨⟨each part (.head _), between⟩, others⟩

theorem unmarked_filterWhereSQL (filters : List FilterCondition) : Unmarked (filterWhereSQL filters).sql := by
  unfold filterWhereSQL
  split
  · decide
  · refine unmarked_intercalate (by decide) fun part member => ?_
    obtain ⟨c, -, rfl⟩ := List.mem_map.mp member
    rw [unmarked_append, unmarked_append]
    exact ⟨⟨by decide, unmarked_opSQL c.sqlOp⟩, by decide⟩

theorem unmarked_conditions {keyword : String} (left : Unmarked keyword) (filters : List FilterCondition) :
    Unmarked (conditions keyword (filterWhereSQL filters).sql) := by
  unfold conditions
  split
  · exact unmarked_append.mpr ⟨left, unmarked_filterWhereSQL filters⟩
  · decide

theorem unmarked_orderByOr {standard : String} (bare : Unmarked standard) (sort : Option SortSpec) :
    Unmarked (orderByOr standard sort).sql := by
  cases sort with
  | none => exact bare
  | some s =>
    refine unmarked_append.mpr ⟨by decide, ?_⟩
    split <;> decide

theorem unmarked_aggExpr (fn : AggFunction) (field : String) : Unmarked (aggExpr fn field).sql := by
  unfold aggExpr
  split
  · exact unmarked_append.mpr ⟨unmarked_fnSQL fn, by decide⟩
  · decide

theorem identifiers_table {before after : String} (name : String) (left : Unmarked before) (right : Unmarked after) :
    identifiers (before ++ (quoteIdent name ++ after)).toList = [name.toList] := by
  have ends : after.toList.head? ≠ some '"' := fun first => right (List.mem_of_mem_head? first)
  rw [identifiers_quoteIdent name left ends, identifiers_unmarked right]

theorem listDocumentsSQL_table (coll : Collection) (limit offset : Int) (filters : List FilterCondition) (sort : Option SortSpec) :
    identifiers (listDocumentsSQL coll limit offset filters sort).sql.toList = [coll.tableName.toList] := by
  have whereClause : Unmarked (conditions "WHERE " (filterWhereSQL filters).sql) := unmarked_conditions (by decide) filters
  have order : Unmarked (orderByOr "id" sort).sql := unmarked_orderByOr (by decide) sort
  unfold listDocumentsSQL
  dsimp only
  split
  all_goals
    simp only [String.append_assoc]
    refine identifiers_table coll.tableName (by decide) ?_
    simp only [unmarked_append]
    exact ⟨by decide, whereClause, by decide, order, by decide⟩

theorem searchDocumentsSQL_table {coll : Collection} {v : Vector32} {limit : Int} {rerank : Bool} {filters : List FilterCondition}
    {sort : Option SortSpec} {q : SqlQuery} (sent : searchDocumentsSQL coll v limit rerank filters sort = .ok q) :
    identifiers q.sql.toList = [coll.tableName.toList] := by
  have whereClause : Unmarked (conditions "AND " (filterWhereSQL filters).sql) := unmarked_conditions (by decide) filters
  have order : Unmarked (orderByOr "distance" sort).sql := unmarked_orderByOr (by decide) sort
  unfold searchDocumentsSQL at sent
  dsimp only at sent
  split at sent
  · cases sent
  · split at sent
    · split at sent
      · cases sent
        simp only [String.append_assoc]
        exact identifiers_table coll.tableName (by decide) (by decide)
      · cases sent
        simp only [String.append_assoc]
        refine identifiers_table coll.tableName (by decide) ?_
        simp only [unmarked_append]
        exact ⟨by decide, whereClause, by decide, order, by decide⟩
    · split at sent
      · cases sent
        simp only [String.append_assoc]
        refine identifiers_table coll.tableName (by decide) ?_
        simp only [unmarked_append]
        exact ⟨by decide, by decide, by decide, order, by decide⟩
      · cases sent
        simp only [String.append_assoc]
        refine identifiers_table coll.tableName (by decide) ?_
        simp only [unmarked_append]
        exact ⟨by decide, whereClause, by decide, by decide, by decide, order, by decide⟩

theorem fullTextSearchDocumentsSQL_tables {coll : Collection} {query : String} {limit offset : Int}
    {filters : List FilterCondition} {sort : Option SortSpec} {q : SqlQuery}
    (sent : fullTextSearchDocumentsSQL coll query limit offset filters sort = .ok q) :
    identifiers q.sql.toList = [(ftsTableName coll.tableName).toList, coll.tableName.toList] := by
  have whereClause : Unmarked (conditions "AND " (filterWhereSQL filters).sql) := unmarked_conditions (by decide) filters
  have order : Unmarked (orderByOr "rank" sort).sql := unmarked_orderByOr (by decide) sort
  unfold fullTextSearchDocumentsSQL at sent
  dsimp only at sent
  split at sent
  · cases sent
  · cases sent
    simp only [String.append_assoc]
    rw [identifiers_quoteIdent _ (by decide) (by simp)]
    refine congrArg _ (identifiers_table coll.tableName (by decide) ?_)
    simp only [unmarked_append]
    exact ⟨by decide, whereClause, by decide, order, by decide⟩

theorem aggregateDocumentsSQL_table {coll : Collection} {op field groupBy : String} {filters : List FilterCondition}
    {q : SqlQuery} (sent : aggregateDocumentsSQL coll op field groupBy filters = .ok q) :
    identifiers q.sql.toList = [coll.tableName.toList] := by
  have whereClause : Unmarked (conditions "WHERE " (filterWhereSQL filters).sql) := unmarked_conditions (by decide) filters
  obtain ⟨fn, -, rfl⟩ := aggregateDocumentsSQL_ok sent
  have selected := unmarked_aggExpr fn field
  split
  · have before : Unmarked ("SELECT " ++ (aggExpr fn field).sql ++ " FROM ") := by
      simp only [unmarked_append]
      exact ⟨⟨by decide, selected⟩, by decide⟩
    have read := identifiers_table coll.tableName before (unmarked_append.mpr ⟨show Unmarked " " by decide, whereClause⟩)
    simpa only [String.append_assoc] using read
  · have before : Unmarked ("SELECT json_extract(data, ?) AS grp, " ++ (aggExpr fn field).sql ++ " FROM ") := by
      simp only [unmarked_append]
      exact ⟨⟨by decide, selected⟩, by decide⟩
    have after : Unmarked (" " ++ conditions "WHERE " (filterWhereSQL filters).sql ++ " GROUP BY grp ORDER BY grp") := by
      simp only [unmarked_append]
      exact ⟨⟨by decide, whereClause⟩, by decide⟩
    have read := identifiers_table coll.tableName before after
    simpa only [String.append_assoc] using read

end Tables

/-- The texts for a collection depend on the operators of the filters, on whether
    and in which direction is sorted, on the aggregate function and on whether
    there is a field and a group, and on nothing else that a client sends. A quoted
    name is read as one identifier with the name as its value, and the quoted
    identifiers in the texts are the tables of the collection. -/
theorem sql_text_independent :
    (∀ coll filters filters' sort sort', filters.map (·.sqlOp) = filters'.map (·.sqlOp) →
      Option.map (·.desc) sort = Option.map (·.desc) sort' → ∀ limit offset limit' offset',
      (listDocumentsSQL coll limit offset filters sort).sql = (listDocumentsSQL coll limit' offset' filters' sort').sql ∧
      (∀ v v' rerank, (searchDocumentsSQL coll v limit rerank filters sort).map (·.sql) =
        (searchDocumentsSQL coll v' limit' rerank filters' sort').map (·.sql)) ∧
      ∀ query query', (fullTextSearchDocumentsSQL coll query limit offset filters sort).map (·.sql) =
        (fullTextSearchDocumentsSQL coll query' limit' offset' filters' sort').map (·.sql)) ∧
    (∀ coll filters filters' op field groupBy field' groupBy' q q', filters.map (·.sqlOp) = filters'.map (·.sqlOp) →
      (field = "" ↔ field' = "") → (groupBy = "" ↔ groupBy' = "") →
      aggregateDocumentsSQL coll op field groupBy filters = .ok q →
      aggregateDocumentsSQL coll op field' groupBy' filters' = .ok q' → q.sql = q'.sql) ∧
    (∀ name, tokens (quoteIdent name).toList = [.identifier name.toList]) ∧
    ∀ coll filters sort limit offset,
      identifiers (listDocumentsSQL coll limit offset filters sort).sql.toList = [coll.tableName.toList] ∧
      (∀ v rerank q, searchDocumentsSQL coll v limit rerank filters sort = .ok q →
        identifiers q.sql.toList = [coll.tableName.toList]) ∧
      (∀ query q, fullTextSearchDocumentsSQL coll query limit offset filters sort = .ok q →
        identifiers q.sql.toList = [(ftsTableName coll.tableName).toList, coll.tableName.toList]) ∧
      ∀ op field groupBy q, aggregateDocumentsSQL coll op field groupBy filters = .ok q →
        identifiers q.sql.toList = [coll.tableName.toList] := by
  refine ⟨?_, ?_, tokens_quoteIdent, ?_⟩
  · intro coll filters filters' sort sort' ops sorts limit offset limit' offset'
    exact ⟨listDocumentsSQL_text coll limit offset limit' offset' ops sorts,
      fun v v' rerank => searchDocumentsSQL_text coll v v' limit limit' rerank ops sorts,
      fun query query' => fullTextSearchDocumentsSQL_text coll query query' limit offset limit' offset' ops sorts⟩
  · intro coll filters filters' op field groupBy field' groupBy' q q' ops fields groups sent sent'
    exact aggregateDocumentsSQL_text ops fields groups sent sent'
  · intro coll filters sort limit offset
    exact ⟨listDocumentsSQL_table coll limit offset filters sort, fun v rerank q sent => searchDocumentsSQL_table sent,
      fun query q sent => fullTextSearchDocumentsSQL_tables sent, fun op field groupBy q sent => aggregateDocumentsSQL_table sent⟩

/-- A collection with vectors. -/
def booksCollection : Collection := ⟨"books", "coll_books", true, 8⟩

theorem sql_text_independent_books :
    (listDocumentsSQL booksCollection 20 0 [⟨"price", .lt, .integer 50⟩] (some ⟨"price", true⟩)).sql =
      (listDocumentsSQL booksCollection 5 10 [⟨"title", .lt, .text "\"; DROP TABLE users; --"⟩] (some ⟨"year", true⟩)).sql ∧
    identifiers (listDocumentsSQL booksCollection 20 0 [⟨"price", .lt, .integer 50⟩] (some ⟨"price", true⟩)).sql.toList =
      ["coll_books".toList] := by
  obtain ⟨texts, -, -, tables⟩ := sql_text_independent
  exact ⟨(texts booksCollection [⟨"price", .lt, .integer 50⟩] [⟨"title", .lt, .text "\"; DROP TABLE users; --"⟩]
    (some ⟨"price", true⟩) (some ⟨"year", true⟩) rfl rfl 20 0 5 10).1,
    (tables booksCollection [⟨"price", .lt, .integer 50⟩] (some ⟨"price", true⟩) 20 0).1⟩

end Microserver.QueryTexts
