import Microserver.CompiledQueries
import Microserver.GroupLabels

/-!
The aggregates: their texts are read as queries, one for all rows or one with groups,
and what aggregateDocuments returns is an answer that SQL allows to its text.
-/
namespace Microserver.CompiledAggregates
open Microserver.Values Microserver.Store Microserver.Statements Microserver.Operations Microserver.Ranking
open Microserver.Groupings hiding Represents
open Microserver.Queries hiding orderBySQL
open Microserver.SqlTexts hiding bind
open Microserver.ReadHandlers Microserver.QueryTexts Microserver.Placeholders
open Microserver.SqlSelects Microserver.CompiledQueries
open Microserver.Listings (matching filterWhere_ok)

/-! ### The queries that are read -/

def aggOf (fn : AggFunction) (field : String) : Expr Arg :=
  if field = "" then .star "COUNT".toList else .apply (fnSQL fn).toList (extract field)

def aggregateOf (coll : Collection) (fn : AggFunction) (field groupBy : String) (filters : List FilterCondition) : Select Arg where
  items := (if groupBy = "" then [] else [⟨extract groupBy, some "grp".toList⟩]) ++ [⟨aggOf fn field, none⟩]
  source := coll.tableName.toList
  conds := filters.map conditionOf
  group := if groupBy = "" then none else some "grp".toList
  order := if groupBy = "" then none else some (.column "grp".toList, false)
  limit := none
  offset := none

def aggLexemes (fn : AggFunction) (field : String) : List (Lexeme Arg) :=
  if field = "" then [.word "COUNT".toList, .sign ['('], .sign ['*'], .sign [')']]
  else .word (fnSQL fn).toList :: .sign ['('] :: (extractLexemes field ++ [.sign [')']])

def groupLexemes (groupBy : String) : List (Lexeme Arg) :=
  if groupBy = "" then [] else extractLexemes groupBy ++ [.word "AS".toList, .word "grp".toList, .sign [',']]

/-- What stands behind the conditions. -/
def byGroup (groupBy : String) : List (Lexeme Arg) :=
  if groupBy = "" then []
  else [.word "GROUP".toList, .word "BY".toList, .word "grp".toList, .word "ORDER".toList, .word "BY".toList, .word "grp".toList]

def aggregateLexemes (coll : Collection) (fn : AggFunction) (field groupBy : String) (filters : List FilterCondition) :
    List (Lexeme Arg) :=
  .word "SELECT".toList :: (groupLexemes groupBy ++ (aggLexemes fn field ++ .word "FROM".toList :: .name coll.tableName.toList ::
    (whereLexemes filters ++ byGroup groupBy)))

/-! ### Lexemes -/

theorem lexes_agg (fn : AggFunction) (field : String) : Lexes (aggPieces fn field) (aggLexemes fn field) := by
  unfold aggPieces aggLexemes
  split
  · exact (rfl : Lexes (lit "COUNT(*)" : List (Piece Arg)) _)
  · have before : Lexes (lit (fnSQL fn ++ "(json_extract(data, ") : List (Piece Arg))
        [.word (fnSQL fn).toList, .sign ['('], .word "json_extract".toList, .sign ['('], .word "data".toList, .sign [',']] := by
      unfold lit
      rw [String.toList_append]
      cases fn <;> rfl
    have closes : Lexes (lit "))" : List (Piece Arg)) [.sign [')'], .sign [')']] := rfl
    have all := before.append (closes.arg (path field))
    simpa only [extractLexemes, List.append_assoc, List.cons_append, List.nil_append] using all

theorem lexes_group (groupBy : String) : Lexes
    (if groupBy = "" then [] else lit "json_extract(data, " ++ .arg (path groupBy) :: lit ") AS grp, " : List (Piece Arg))
    (groupLexemes groupBy) := by
  unfold groupLexemes
  split
  · exact lexes_nil
  · have before : Lexes (lit "json_extract(data, " : List (Piece Arg))
        [.word "json_extract".toList, .sign ['('], .word "data".toList, .sign [',']] := rfl
    have labels : Lexes (lit ") AS grp, " : List (Piece Arg)) [.sign [')'], .word "AS".toList, .word "grp".toList, .sign [',']] := rfl
    have all := before.append (labels.arg (path groupBy))
    simpa only [extractLexemes, List.append_assoc, List.cons_append, List.nil_append] using all

theorem lexemes_aggregate (coll : Collection) (fn : AggFunction) (field groupBy : String) (filters : List FilterCondition) :
    lexemes (aggregateDocumentsMeant coll fn field groupBy filters) = aggregateLexemes coll fn field groupBy filters := by
  have first : Lexes (lit "SELECT " : List (Piece Arg)) [.word "SELECT".toList] := rfl
  have source : Lexes (lit " FROM " : List (Piece Arg)) [.word "FROM".toList] := rfl
  have table := lexes_quoteIdent coll.tableName (show ' '.isWhitespace = true by decide)
  have all := ((((first.append (lexes_group groupBy)).append (lexes_agg fn field)).append source).append table).append
    (lexes_where filters)
  have pieces : aggregateDocumentsMeant coll fn field groupBy filters =
      lit "SELECT " ++ (if groupBy = "" then [] else lit "json_extract(data, " ++ .arg (path groupBy) :: lit ") AS grp, ") ++
        aggPieces fn field ++ lit " FROM " ++ (lit (quoteIdent coll.tableName) ++ [.char ' ']) ++ filterPieces "WHERE " filters ++
        lit (if groupBy = "" then "" else " GROUP BY grp ORDER BY grp") := by
    simp only [aggregateDocumentsMeant, lit_blank, List.append_assoc, List.cons_append, List.nil_append]
  rw [pieces, all.lexemes_append]
  have last : (scan .outside (lit (if groupBy = "" then "" else " GROUP BY grp ORDER BY grp") : List (Piece Arg))).1 ++
      ends (scan .outside (lit (if groupBy = "" then "" else " GROUP BY grp ORDER BY grp") : List (Piece Arg))).2 = byGroup groupBy := by
    unfold byGroup
    split <;> rfl
  rw [last]
  simp only [aggregateLexemes, List.append_assoc, List.cons_append, List.nil_append]

/-! ### Reading the lexemes -/

theorem item_agg (fn : AggFunction) (field : String) (rest : List (Lexeme Arg)) :
    item (aggLexemes fn field ++ .word "FROM".toList :: rest) = some (⟨aggOf fn field, none⟩, .word "FROM".toList :: rest) := by
  unfold aggLexemes aggOf
  split
  · rfl
  · cases fn <;> rfl

/-- One column, or the group before it. -/
def itemsOf (fn : AggFunction) (field groupBy : String) : List (Item Arg) :=
  (if groupBy = "" then [] else [⟨extract groupBy, some "grp".toList⟩]) ++ [⟨aggOf fn field, none⟩]

theorem items_aggregate (fn : AggFunction) (field groupBy : String) (rest : List (Lexeme Arg)) (fuel : Nat) :
    items (fuel + 2) (groupLexemes groupBy ++ (aggLexemes fn field ++ .word "FROM".toList :: rest)) =
      some (itemsOf fn field groupBy, .word "FROM".toList :: rest) := by
  have last (fuel : Nat) : items (fuel + 1) (aggLexemes fn field ++ .word "FROM".toList :: rest) =
      some ([⟨aggOf fn field, none⟩], .word "FROM".toList :: rest) := by
    rw [items, item_agg]
    rfl
  unfold groupLexemes itemsOf
  split
  · exact last (fuel + 1)
  · show (items (fuel + 1) (aggLexemes fn field ++ .word "FROM".toList :: rest)).map _ = _
    rw [last fuel]
    rfl

theorem select_aggregate (coll : Collection) (fn : AggFunction) (field groupBy : String) (filters : List FilterCondition) :
    select (aggregateLexemes coll fn field groupBy filters) = some (aggregateOf coll fn field groupBy filters, []) := by
  let big := whereLexemes filters ++ byGroup groupBy
  let whole := groupLexemes groupBy ++ (aggLexemes fn field ++ .word "FROM".toList :: .name coll.tableName.toList :: big)
  obtain ⟨n, long⟩ : ∃ n, whole.length = n + 2 := ⟨whole.length - 2, by simp [whole]; omega⟩
  have closed : words ["AND".toList] (byGroup groupBy) = none := by
    unfold byGroup
    split <;> rfl
  have absent : words ["WHERE".toList] (byGroup groupBy) = none := by
    unfold byGroup
    split <;> rfl
  obtain ⟨cs, read, got⟩ := where_read filters (byGroup groupBy) closed absent big.length (by simp [big])
  show (items whole.length whole).bind _ = _
  rw [long, items_aggregate]
  show (clause ["WHERE".toList] (conds big.length) big).bind _ = _
  rw [read]
  show clauses (itemsOf fn field groupBy) coll.tableName.toList (cs.getD []) (byGroup groupBy) = _
  rw [got]
  unfold byGroup aggregateOf itemsOf
  split <;> rfl

theorem query_aggregate {coll : Collection} {op field groupBy : String} {filters : List FilterCondition} {q : SqlQuery}
    (free : '?' ∉ coll.tableName.toList) (sent : aggregateDocumentsSQL coll op field groupBy filters = .ok q) :
    ∃ fn, aggOps.lookup op = some fn ∧ queryOf q.sql.toList q.args = some ⟨none, aggregateOf coll fn field groupBy filters⟩ := by
  obtain ⟨fn, known, splits⟩ := aggregateDocumentsSQL_splits sent
  refine ⟨fn, known, ?_⟩
  unfold queryOf
  rw [(splits.linesUp (placed_aggregateDocuments free fn field groupBy filters)).bound, Option.bind_some, lexemes_aggregate]
  exact query_select rfl (select_aggregate coll fn field groupBy filters)

/-! ### What an aggregate returns -/

section Answers
variable {E : Engine} {h : Host} {s : DB} {coll : Collection} {fn : AggFunction} {field groupBy : String}
  {filters : List FilterCondition} {t : Table}

/-- A row of an answer, scanned into a result. -/
def scanAggregate (E : Engine) : List Datum → Except Err AggregateResult
  | [.value v] => (scanFloat E v).map fun value => ⟨none, value⟩
  | [.value g, .value v] => (scanFloat E v).map fun value => ⟨scanString E g, value⟩
  | _ => .error noSuchColumn

theorem mapM_some {ρ β γ : Type} {f : ρ → β} {g : β → Option γ} {value : ρ → γ} {rows : List ρ}
    (each : ∀ r ∈ rows, g (f r) = some (value r)) : (rows.map f).mapM g = some (rows.map value) := by
  induction rows with
  | nil => rfl
  | cons r rest ih =>
    obtain ⟨first, later⟩ := List.forall_mem_cons.mp each
    rw [List.map_cons, List.mapM_cons, first, ih later]
    rfl

theorem aggregated_ok {rows : List Store.Row} {values : List SqlValue} (taken : aggregated h field rows = .ok values)
    (set : field ≠ "") : (∀ r ∈ rows, readable r = true) ∧ values = rows.map fun r => jsonExtract h.jsonText r.data field := by
  unfold aggregated at taken
  rw [if_neg set] at taken
  split at taken
  · rename_i all
    exact ⟨List.all_eq_true.mp all, (Except.ok.inj taken).symm⟩
  · cases taken

/-- The aggregate of some rows is the value of its expression for them. -/
theorem agg_value {rows : List Store.Row} {vectors : Bool} {values : List SqlValue} {v : SqlValue} (counts : field = "" → fn = .count)
    (valid : field ≠ "" → collectionNameRe field = true) (taken : aggregated h field rows = .ok values)
    (result : fn.eval E values = .ok v) :
    GroupValue (dialect E h s) (rows.map (columns vectors)) (aggOf fn field) (.value v) := by
  unfold aggOf
  by_cases none : field = ""
  · rw [if_pos none]
    rw [counts none] at result
    unfold aggregated at taken
    rw [if_pos none] at taken
    cases taken
    have number : v = .integer rows.length := by
      simp only [AggFunction.eval, Except.ok.injEq] at result
      rw [← result, List.filter_eq_self.mpr, List.length_map]
      intro one member
      obtain ⟨r, -, rfl⟩ := List.mem_map.mp member
      rfl
    refine .star ?_
    rw [number, List.length_map]
    rfl
  · rw [if_neg none]
    obtain ⟨deep, rfl⟩ := aggregated_ok taken none
    have extracted : (rows.map (columns vectors)).mapM ((extract field).eval (dialect E h s)) =
        some (rows.map fun r => .value (jsonExtract h.jsonText r.data field)) :=
      mapM_some fun r member => eval_extract (columns_data vectors r) (of_decide_eq_true (deep r member)) (valid none)
    refine .aggregate (by cases fn <;> rfl) (.refl _) extracted ?_
    have known : (aggFunctions.find? fun other => (fnSQL other).toList = (fnSQL fn).toList) = some fn := by cases fn <;> decide
    have sql : (rows.map fun r => Datum.value (jsonExtract h.jsonText r.data field)).mapM Datum.sql =
        some (rows.map fun r => jsonExtract h.jsonText r.data field) := mapM_some fun _ _ => rfl
    show (aggFunctions.find? fun other => (fnSQL other).toList = (fnSQL fn).toList).bind _ = _
    rw [known, Option.bind_some, sql, Option.bind_some, result]
    rfl

/-- What is checked before a query is sent. -/
theorem sent_checked {op : String} {q : SqlQuery} (sent : aggregateDocumentsSQL coll op field groupBy filters = .ok q)
    (known : aggOps.lookup op = some fn) : (field = "" → fn = .count) ∧ (field ≠ "" → collectionNameRe field = true) ∧
      (groupBy ≠ "" → collectionNameRe groupBy = true) := by
  unfold aggregateDocumentsSQL at sent
  rw [known] at sent
  dsimp only at sent
  split at sent
  · cases sent
  · rename_i given
    split at sent
    · cases sent
    · rename_i fieldOk
      split at sent
      · cases sent
      · rename_i groupOk
        refine ⟨fun none => ?_, fun set => by simpa [set] using fieldOk, fun set => by simpa [set] using groupOk⟩
        have count : op = "count" := by_contra fun other => given ⟨other, none⟩
        rw [count] at known
        exact (Option.some.inj known).symm

/-- The row of a group: what it goes by, and its aggregate. -/
def groupRow (v agg : SqlValue) : SqlSelects.Row Datum := [("grp".toList, .value v), ([], .value agg)]

theorem total_answers {rows : List Store.Row} {vectors : Bool} {values : List SqlValue} {v : SqlValue}
    (counts : field = "" → fn = .count) (valid : field ≠ "" → collectionNameRe field = true)
    (taken : aggregated h field rows = .ok values) (result : fn.eval E values = .ok v) :
    (aggregateOf coll fn field "" filters).Gives (dialect E h s) (rows.map (columns vectors)) [[([], .value v)]] := by
  have value : GroupValue (dialect E h s) (rows.map (columns vectors)) (aggOf fn field) (.value v) := agg_value counts valid taken result
  have name : (⟨aggOf fn field, none⟩ : Item Arg).name = [] := by
    unfold aggOf
    split <;> rfl
  refine .total rfl ⟨⟨aggOf fn field, none⟩, .head _, ?_⟩ (.cons ⟨name.symm, value⟩ .nil)
  show (aggOf fn field).isAggregate (dialect E h s) = true
  unfold aggOf
  split
  · rfl
  · cases fn <;> rfl

/-- The aggregate of a group; NULL stands for none. -/
def aggregateOfGroup (E : Engine) (h : Host) (fn : AggFunction) (field : String) (rows : List Store.Row) : SqlValue :=
  (((aggregated h field rows).bind fun values => fn.eval E values).toOption).getD .null

theorem aggregateOfGroup_eq {rows : List Store.Row} {values : List SqlValue} {v : SqlValue} (taken : aggregated h field rows = .ok values)
    (result : fn.eval E values = .ok v) : aggregateOfGroup E h fn field rows = v := by
  simp only [aggregateOfGroup, taken, Except.bind, result, Except.toOption, Option.getD_some]

/-- The groups with their aggregates, in the order of what they go by. -/
def groupPairs (E : Engine) (h : Host) (fn : AggFunction) (field groupBy : String) (vectors : Bool) (rows : List Store.Row) :
    List (List (SqlSelects.Row Datum) × SqlSelects.Row Datum) :=
  (groups h groupBy rows).map fun group =>
    (group.2.map (columns vectors), groupRow group.1 (aggregateOfGroup E h fn field group.2))

/-- The groups are the rows, without a change in how often each one is there. -/
theorem flatMap_groups (rows : List Store.Row) : ((groups h groupBy rows).flatMap (·.2)).Perm rows := by
  have filtered : (groups h groupBy rows).flatMap (·.2) = ((groups h groupBy rows).map (·.1)).flatMap fun v =>
      rows.filter fun r => v.key = (GroupLabels.value h groupBy r).key := by
    rw [List.flatMap_map]
    exact List.flatMap_congr fun group member => GroupLabels.mem_groups member
  rw [filtered]
  refine flatMap_groups_perm ?_ fun r member => ?_
  · exact (GroupLabels.groups_represents h groupBy rows).distinct
  · exact (GroupLabels.groups_represents h groupBy rows).covers _ (List.mem_map_of_mem member)

theorem groups_ascend (rows : List Store.Row) : (groups h groupBy rows).Pairwise fun a b => a.1.key ≤ b.1.key :=
  List.pairwise_map.mpr (sortBy_pairwise SqlValue.key _)

/-- Rows are alike when the values that they are grouped by are. -/
theorem alike_iff {vectors : Bool} {r r' : Store.Row} (left : readable r = true) (right : readable r' = true)
    (valid : collectionNameRe groupBy = true) : Alike (dialect E h s) (extract groupBy) (columns vectors r) (columns vectors r') ↔
      (GroupLabels.value h groupBy r).key = (GroupLabels.value h groupBy r').key := by
  unfold Alike
  rw [eval_extract (columns_data vectors r) (of_decide_eq_true left) valid,
    eval_extract (columns_data vectors r') (of_decide_eq_true right) valid]
  constructor
  · intro alike
    exact alike _ rfl _ rfl
  · rintro same _ ⟨⟩ _ ⟨⟩
    exact same

/-- With a group, a query has a row for each of the groups as its answer. -/
theorem grouped_answers {rows : List Store.Row} {vectors : Bool} (set : groupBy ≠ "") (counts : field = "" → fn = .count)
    (valid : field ≠ "" → collectionNameRe field = true) (grouping : collectionNameRe groupBy = true)
    (deep : ∀ r ∈ rows, readable r = true)
    (each : ∀ group ∈ groups h groupBy rows, ∃ values v, aggregated h field group.2 = .ok values ∧ fn.eval E values = .ok v) :
    (aggregateOf coll fn field groupBy filters).Gives (dialect E h s) (rows.map (columns vectors))
      ((groupPairs E h fn field groupBy vectors rows).map (·.2)) := by
  have key (group : SqlValue × List Store.Row) (member : group ∈ groups h groupBy rows) :
      ∀ r ∈ group.2, readable r = true ∧ group.1.key = (GroupLabels.value h groupBy r).key := by
    intro r inside
    rw [GroupLabels.mem_groups member, List.mem_filter, decide_eq_true_iff] at inside
    exact ⟨deep r inside.1, inside.2⟩
  have one (group : SqlValue × List Store.Row) (member : group ∈ groups h groupBy rows) :
      ∃ r ∈ group.2, group.1 = GroupLabels.value h groupBy r := by
    obtain ⟨r, there, own⟩ := GroupLabels.group_of_row member
    exact ⟨r, (GroupLabels.mem_group member there).mpr (congrArg SqlValue.key own), own⟩
  have goesBy : (aggregateOf coll fn field groupBy filters).groupExpr "grp".toList = extract groupBy := by
    unfold aggregateOf Select.groupExpr
    rw [if_neg set]
    rfl
  refine .grouped (if_neg set) ?_
  rw [goesBy]
  refine ⟨groupPairs E h fn field groupBy vectors rows, groupPairs E h fn field groupBy vectors rows, ?_, ?_, ?_, ?_, ?_,
    ⟨.refl _, ?_⟩, rfl⟩
  · intro row member
    obtain ⟨r, there, rfl⟩ := List.mem_map.mp member
    rw [eval_extract (columns_data vectors r) (of_decide_eq_true (deep r there)) grouping]
    rfl
  · have same : (groupPairs E h fn field groupBy vectors rows).flatMap (·.1) =
        ((groups h groupBy rows).flatMap (·.2)).map (columns vectors) := by
      rw [groupPairs, List.flatMap_map, List.map_flatMap]
    rw [same]
    exact (flatMap_groups rows).map _
  · intro p member
    obtain ⟨group, there, rfl⟩ := List.mem_map.mp member
    obtain ⟨r, inside, -⟩ := one group there
    refine ⟨List.ne_nil_of_mem (List.mem_map_of_mem inside), fun row left row' right => ?_⟩
    obtain ⟨x, xIn, rfl⟩ := List.mem_map.mp left
    obtain ⟨y, yIn, rfl⟩ := List.mem_map.mp right
    obtain ⟨xDeep, xKey⟩ := key group there x xIn
    obtain ⟨yDeep, yKey⟩ := key group there y yIn
    exact (alike_iff xDeep yDeep grouping).mpr (xKey.symm.trans yKey)
  · refine List.pairwise_map.mpr ((List.pairwise_map.mp (GroupLabels.groups_distinct h groupBy rows)).imp_of_mem ?_)
    intro a b aIn bIn different row left row' right alike
    obtain ⟨x, xIn, rfl⟩ := List.mem_map.mp left
    obtain ⟨y, yIn, rfl⟩ := List.mem_map.mp right
    obtain ⟨xDeep, xKey⟩ := key a aIn x xIn
    obtain ⟨yDeep, yKey⟩ := key b bIn y yIn
    exact different (xKey.trans (((alike_iff xDeep yDeep grouping).mp alike).trans yKey.symm))
  · intro p member
    obtain ⟨group, there, rfl⟩ := List.mem_map.mp member
    obtain ⟨r, inside, own⟩ := one group there
    obtain ⟨values, v, taken, result⟩ := each group there
    have items : (aggregateOf coll fn field groupBy filters).items = [⟨extract groupBy, some "grp".toList⟩, ⟨aggOf fn field, none⟩] := by
      unfold aggregateOf
      rw [if_neg set]
      rfl
    have name : (⟨aggOf fn field, none⟩ : Item Arg).name = [] := by
      unfold aggOf
      split <;> rfl
    show GroupShown _ _ _ (groupRow group.1 (aggregateOfGroup E h fn field group.2))
    rw [items, aggregateOfGroup_eq taken result]
    refine .cons ⟨rfl, .single rfl (List.mem_map_of_mem inside) ?_⟩ (.cons ⟨name.symm, agg_value counts valid taken result⟩ .nil)
    rw [eval_extract (columns_data vectors r) (of_decide_eq_true (key group there r inside).1) grouping, own]
    rfl
  · intro e desc sorts
    have is : some (Expr.column "grp".toList, false) = some (e, desc) := (if_neg set).symm.trans sorts
    obtain ⟨rfl, rfl⟩ := Prod.mk.inj (Option.some.inj is)
    constructor
    · intro p member
      obtain ⟨group, -, rfl⟩ := List.mem_map.mp member
      rfl
    · refine List.pairwise_map.mpr ((groups_ascend rows).imp fun {a b} le => ?_)
      rintro _ ⟨⟩ _ ⟨⟩
      exact le

/-- A fallible map goes through where each step does. -/
theorem mapM_ok_iff {ε β γ : Type} {f : β → Except ε γ} {xs : List β} {ys : List γ} :
    xs.mapM f = .ok ys ↔ List.Forall₂ (fun x y => f x = .ok y) xs ys := by
  induction xs generalizing ys with
  | nil => cases ys <;> simp [pure, Except.pure]
  | cons x rest ih =>
    rw [List.mapM_cons, List.forall₂_cons_left_iff]
    simp only [← ih]
    cases first : f x with
    | error e => simp [bind, Except.bind]
    | ok y =>
      cases later : rest.mapM f with
      | error e => simp [bind, Except.bind]
      | ok zs => simp [bind, Except.bind, pure, Except.pure, eq_comm]

/-- SQL allows what an aggregation returns. -/
theorem aggregate_allowed {op : String} {q : SqlQuery} {results : List AggregateResult} (free : '?' ∉ coll.tableName.toList)
    (fields : ∀ c ∈ filters, collectionNameRe c.field = true) (known : aggOps.lookup op = some fn)
    (sent : aggregateDocumentsSQL coll op field groupBy filters = .ok q)
    (done : aggregateQuery E coll fn field groupBy filters h s = .ok results) :
    ∃ out, Allows (dialect E h s) q.sql.toList q.args out ∧ out.mapM (scanAggregate E) = .ok results := by
  obtain ⟨counts, valid, grouping⟩ := sent_checked sent known
  obtain ⟨fn', known', read⟩ := query_aggregate free sent
  obtain rfl : fn = fn' := Option.some.inj (known.symm.trans known')
  unfold aggregateQuery at done
  cases docs : s.docs coll.tableName with
  | error e => simp [docs, bind, Except.bind] at done
  | ok t =>
    cases filtered : filterWhere h filters t.rows with
    | error e => simp [docs, filtered, bind, Except.bind] at done
    | ok rows =>
      obtain ⟨rfl, deep⟩ := filterWhere_ok filtered
      simp only [docs, filtered, bind, Except.bind] at done
      have finds : Finds h s coll.tableName.toList (filters.map conditionOf) none (t.rows.map (columns (t.kind ≠ .plain)))
          (filters.map conditionOf) := (finds_all docs filters _ _).mpr ⟨t.rows, rfl, rfl, rfl⟩
      have keeps : Keeps (dialect E h s) (filters.map conditionOf) (t.rows.map (columns (t.kind ≠ .plain)))
          ((matching h filters t.rows).map (columns (t.kind ≠ .plain))) := (keeps_iff _ fun r member =>
        meets_conditions (columns_data _ r) (fun some => of_decide_eq_true (deep some r member)) fields).mpr rfl
      have answers {out : List (SqlSelects.Row Datum)}
          (gives : (aggregateOf coll fn field groupBy filters).Gives (dialect E h s)
            ((matching h filters t.rows).map (columns (t.kind ≠ .plain))) out) :
          Allows (dialect E h s) q.sql.toList q.args (out.map fun row => row.map (·.2)) :=
        ⟨_, out, read, ⟨none, none, _, _, _, out, rfl, rfl, finds, keeps, gives, rfl⟩, rfl⟩
      by_cases set : groupBy = ""
      · subst set
        rw [if_pos rfl] at done
        cases taken : aggregated h field (matching h filters t.rows) with
        | error e => simp [taken] at done
        | ok values =>
          cases result : fn.eval E values with
          | error e => simp [taken, result] at done
          | ok v =>
            simp only [taken, result] at done
            refine ⟨_, answers (total_answers counts valid taken result), ?_⟩
            cases number : scanFloat E v with
            | error e => simp [number] at done
            | ok x =>
              simp only [number] at done
              show [[Datum.value v]].mapM (scanAggregate E) = _
              rw [← done, List.mapM_cons, scanAggregate, number]
              rfl
      · rw [if_neg set] at done
        split at done
        · rename_i all
          have legible : ∀ r ∈ matching h filters t.rows, readable r = true := List.all_eq_true.mp all
          have both : List.Forall₂ (fun (group : SqlValue × List Store.Row) result =>
              (∃ values v, aggregated h field group.2 = .ok values ∧ fn.eval E values = .ok v) ∧
                scanAggregate E [.value group.1, .value (aggregateOfGroup E h fn field group.2)] = .ok result)
              (groups h groupBy (matching h filters t.rows)) results := by
            refine (mapM_ok_iff.mp done).imp fun group result one => ?_
            cases taken : aggregated h field group.2 with
            | error e => simp [taken] at one
            | ok values =>
              cases evaluated : fn.eval E values with
              | error e => simp [taken, evaluated] at one
              | ok v =>
                cases number : scanFloat E v with
                | error e => simp [taken, evaluated, number] at one
                | ok x =>
                  refine ⟨⟨values, v, rfl, evaluated⟩, ?_⟩
                  simp only [taken, evaluated, number] at one
                  rw [aggregateOfGroup_eq taken evaluated, scanAggregate, number, ← one]
                  rfl
          obtain ⟨each, scanned⟩ := (List.forall₂_and_left _ _).mp both
          refine ⟨_, answers (grouped_answers set counts valid (grouping set) legible each), ?_⟩
          rw [groupPairs, List.map_map, List.map_map]
          exact mapM_ok_iff.mpr (List.forall₂_map_left_iff.mpr scanned)
        · cases done

end Answers

end Microserver.CompiledAggregates
