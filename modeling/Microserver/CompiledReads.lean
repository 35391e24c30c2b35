import Microserver.CompiledAggregates
import Microserver.CompiledSearches
import Microserver.SearchLimits

/-!
What the reads of a collection reply with. After any run of calls a listing, a search
and an aggregation that are answered reply with an answer that SQL allows to the text
that they send, and for listings and searches these answers are the pages of the
matching items and the nearest ones, no others.
-/
namespace Microserver.CompiledReads
open Microserver.Values Microserver.Store Microserver.Programs Microserver.Statements Microserver.Operations
open Microserver.Items Microserver.Schema Microserver.Params Microserver.Requests Microserver.Evaluations Microserver.Listings
open Microserver.Queries hiding orderBySQL
open Microserver.ReadHandlers Microserver.QueryTexts Microserver.Placeholders Microserver.Histories Microserver.Reachable
open Microserver.DeepData Microserver.SqlSelects Microserver.CompiledQueries Microserver.CompiledSearches Microserver.CompiledAggregates

variable {h : Host} {E : Engine} {s : DB} {α β : Type} {query : Query}

/-! ### The parameters -/

theorem parseFilter_field {parseFloat : String → Option Float64} {key : String} {values : List String} {conds : List FilterCondition}
    (parsed : parseFilter parseFloat key values = .ok conds) : ∀ c ∈ conds, collectionNameRe c.field = true := by
  unfold parseFilter at parsed
  dsimp only at parsed
  split at parsed
  · cases parsed
  · rename_i named
    split at parsed
    · cases parsed
    · cases parsed
      intro c member
      obtain ⟨raw, -, rfl⟩ := List.mem_map.mp member
      simpa using named

/-- Filters are on fields with the names that are allowed. -/
theorem parseFilters_fields {parseFloat : String → Option Float64} {filters : List FilterCondition}
    (parsed : parseFilters parseFloat query = .ok filters) : ∀ c ∈ filters, collectionNameRe c.field = true := by
  have each {params : List (String × List String)} {conds : List (List FilterCondition)}
      (all : List.Forall₂ (fun entry cs => parseFilter parseFloat entry.1 entry.2 = .ok cs) params conds) :
      ∀ cs ∈ conds, ∀ c ∈ cs, collectionNameRe c.field = true := by
    induction all with
    | nil => exact fun _ member => absurd member List.not_mem_nil
    | cons first _ ih => exact List.forall_mem_cons.mpr ⟨parseFilter_field first, ih⟩
  unfold parseFilters at parsed
  dsimp only at parsed
  cases all : (query.entries.filter fun entry => entry.1 ∉ reservedQueryParams).mapM fun entry => parseFilter parseFloat entry.1 entry.2 with
  | error msg => simp only [all, bind, Except.bind, reduceCtorEq] at parsed
  | ok conds =>
    simp only [all, bind, Except.bind, pure, Except.pure, Except.ok.injEq] at parsed
    rw [← parsed]
    intro c member
    obtain ⟨cs, listed, inside⟩ := List.mem_flatten.mp member
    exact each (mapM_ok_iff.mp all) cs listed c inside

theorem parseSort_field {sort : Option SortSpec} (parsed : parseSort query = .ok sort) :
    ∀ spec, sort = some spec → collectionNameRe spec.field = true := by
  rintro spec rfl
  have named {spec' : SortSpec} {msg : String}
      (read : (if !collectionNameRe spec'.field then Except.error msg else .ok (some spec')) = .ok (some spec)) :
      collectionNameRe spec.field = true := by
    split at read
    · cases read
    · rename_i valid
      cases read
      simpa using valid
  unfold parseSort at parsed
  dsimp only at parsed
  split at parsed
  · cases parsed
  · exact named parsed

theorem withParams_ok {params : Except String β} {handle : β → Op (Written α)} {a : α}
    (done : ((machine h).eval (withParams params handle) s).1 = .ok (.json 200 a)) :
    ∃ b, params = .ok b ∧ ((machine h).eval (handle b) s).1 = .ok (.json 200 a) := by
  cases params with
  | error msg => cases done
  | ok b => exact ⟨b, rfl, done⟩

theorem withCollection_ok {name : String} {handle : Collection → Op (Written α)} {a : α}
    (done : ((machine h).eval (withCollection name handle) s).1 = .ok (.json 200 a)) :
    ∃ coll, s.lookup name = some coll ∧ ((machine h).eval (handle coll) s).1 = .ok (.json 200 a) := by
  unfold withCollection at done
  rw [Prog.bind_eq, Machine.eval_bind, Machine.eval_attempt, eval_getCollection] at done
  cases found : s.lookup name with
  | none =>
    rw [found] at done
    cases done
  | some coll =>
    rw [found] at done
    exact ⟨coll, rfl, done⟩

/-- A check that is not passed is replied to with an error. -/
theorem unless_ok {wrong : Prop} [Decidable wrong] {msg : String} {handle : Op (Written α)} {a : α}
    (done : ((machine h).eval (if wrong then .ret (.error 400 msg) else handle) s).1 = .ok (.json 200 a)) :
    ¬ wrong ∧ ((machine h).eval handle s).1 = .ok (.json 200 a) := by
  by_cases is : wrong
  · rw [if_pos is] at done
    cases done
  · rw [if_neg is] at done
    exact ⟨is, done⟩

theorem reply_ok {op : Op α} {onError : Err → Written α} {a : α} (refused : ∀ e a, onError e ≠ .json 200 a)
    (done : ((machine h).eval (reply op onError) s).1 = .ok (.json 200 a)) : ((machine h).eval op s).1 = .ok a :=
  (SearchLimits.eval_reply_ok_iff refused).mp done

/-! ### Listings and searches -/

/-- The answers to a text are these rows, and the documents are read off one of them. -/
structure AnsweredBy (D : Dialect Arg Datum Key) (q : SqlQuery) (Rows : List Store.Row → Prop) (values : Store.Row → List Datum)
    (docs : List Document) : Prop where
  answers : ∀ out, Allows D q.sql.toList q.args out ↔ ∃ rows, Rows rows ∧ out = rows.map values
  scanned : ∃ out, Allows D q.sql.toList q.args out ∧ out.map scanDocument = docs.map some

/-- The items that a filter or a sort looks into can be read. -/
def Legible (s : DB) (coll : Collection) (filters : List FilterCondition) (sort : Option SortSpec) : Prop :=
  filters ≠ [] ∨ sort ≠ none → ∀ r ∈ items s coll.tableName, readable r = true

theorem allows_iff {D : Dialect Arg Datum Key} {q : SqlQuery} {read : SqlSelects.Query Arg} {Rows : List Store.Row → Prop}
    {shows : Store.Row → SqlSelects.Row Datum} (text : queryOf q.sql.toList q.args = some read)
    (answers : ∀ out, read.Answers D out ↔ ∃ rows, Rows rows ∧ out = rows.map shows) (out : List (List Datum)) :
    Allows D q.sql.toList q.args out ↔ ∃ rows, Rows rows ∧ out = rows.map fun r => (shows r).map (·.2) := by
  constructor
  · rintro ⟨read', rows, is, given, rfl⟩
    obtain rfl := Option.some.inj (text.symm.trans is)
    obtain ⟨rows', those, rfl⟩ := (answers rows).mp given
    exact ⟨rows', those, List.map_map⟩
  · rintro ⟨rows, those, rfl⟩
    exact ⟨read, rows.map shows, text, (answers _).mpr ⟨rows, those, rfl⟩, List.map_map.symm⟩

/-- Documents that are read off rows one by one. -/
theorem answeredBy {D : Dialect Arg Datum Key} {q : SqlQuery} {read : SqlSelects.Query Arg} {Rows : List Store.Row → Prop}
    {shows : Store.Row → SqlSelects.Row Datum} {document : Store.Row → Document} {rows : List Store.Row}
    (text : queryOf q.sql.toList q.args = some read)
    (answers : ∀ out, read.Answers D out ↔ ∃ rows, Rows rows ∧ out = rows.map shows)
    (scans : ∀ r, scanDocument ((shows r).map (·.2)) = some (document r)) (those : Rows rows) :
    AnsweredBy D q Rows (fun r => (shows r).map (·.2)) (rows.map document) := by
  refine ⟨allows_iff text answers, _, (allows_iff text answers _).mpr ⟨rows, those, rfl⟩, ?_⟩
  rw [List.map_map, List.map_map]
  exact List.map_congr_left fun r _ => scans r

/-- The reply to GET /collections/{name}/items is an answer to the text that is sent, and
    the answers to it are the pages of the items that meet the filters, in order. -/
theorem listing_reply_answers (h : Host) (E : Engine) (calls : List (Call × List Bool)) (name : String) (query : Query)
    (docs : List Document)
    (replied : ((machine h).eval (handleListDocuments E name query) (reached h calls)).1 = .ok (.json 200 docs)) :
    ∃ coll limit offset filters sort, (reached h calls).lookup name = some coll ∧ parseLimitOffset query = .ok (limit, offset) ∧
      parseFilters E.parseFloat query = .ok filters ∧ parseSort query = .ok sort ∧
      (Legible (reached h calls) coll filters sort →
        AnsweredBy (dialect E h (reached h calls)) (listDocumentsSQL coll limit offset filters sort)
          (ListedPage h limit offset filters sort (items (reached h calls) coll.tableName))
          (fun r => (listed coll r).map (·.2)) docs) := by
  obtain ⟨coll, found, replied⟩ := withCollection_ok replied
  obtain ⟨⟨limit, offset⟩, paged, replied⟩ := withParams_ok replied
  obtain ⟨filters, filtered, replied⟩ := withParams_ok replied
  obtain ⟨sort, sorted, replied⟩ := withParams_ok replied
  have done := reply_ok (fun _ _ wrong => by cases wrong) replied
  refine ⟨coll, limit, offset, filters, sort, found, paged, filtered, sorted, fun legible => ?_⟩
  have sound : Sound (reached h calls) := (run_coherent h calls).sound
  have registered := (DB.lookup_some found).1
  obtain ⟨t, there, kind, stored⟩ := docs_registered sound registered
  unfold Legible at legible
  rw [items_of_docs there] at legible ⊢
  obtain ⟨rows, selected, cut⟩ := listRows_pages (h := h) legible limit offset
  have done : docs = (limitRows limit (rows.drop offset.toNat)).map (documentOf coll) := by
    unfold listDocuments at done
    rw [eval_read] at done
    simp only [listQuery, there, stored, selected, Bool.false_eq_true, ↓reduceIte, Except.map, Except.mapError,
      Except.ok.injEq] at done
    exact done.symm
  have vectors : coll.hasVector = true → t.kind ≠ .plain := by
    intro vector
    simpa [vector] using stored
  rw [done]
  refine answeredBy (query_listing (reached_table_free registered) limit offset filters sort) ?_ (scan_listed coll) cut
  exact listing_answers there vectors legible (parseFilters_fields filtered) (parseSort_field sorted) limit offset

/-- Two pens. -/
def pens : List (Call × List Bool) :=
  [(.createCollection "pens" false 0 ⟨[], List.nodup_nil⟩, []), (.insertDocument "pens" none "" (some (.obj [("price", .int 3)])), []),
    (.insertDocument "pens" none "" (some (.obj [("price", .int 5)])), [])]

/-- The dearer one of those that cost less than 9. -/
theorem listing_reply_answers_pens : ∃ out, Allows (dialect Engine.plain Host.uniform (reached Host.uniform pens))
    "SELECT id, data FROM \"coll_pens\" WHERE json_extract(data, ?) < ? ORDER BY json_extract(data, ?) DESC LIMIT ? OFFSET ?".toList
    [.text "$.price", .value (.integer 9), .text "$.price", .int 1, .int 0] out ∧
      out.map scanDocument = [some ⟨2, "", .obj [("price", .int 5)], none⟩] := by
  obtain ⟨coll, limit, offset, filters, sort, found, paged, filtered, sorted, answered⟩ := listing_reply_answers Host.uniform
    Engine.plain pens "pens" ⟨[("price__lt", ["9"]), ("sort", ["-price"]), ("limit", ["1"])], by decide⟩
    [⟨2, "", .obj [("price", .int 5)], none⟩] rfl
  obtain rfl : ⟨"pens", "coll_pens", false, 0⟩ = coll := Option.some.inj found
  obtain ⟨rfl, rfl⟩ : 1 = limit ∧ 0 = offset := Prod.mk.inj (Except.ok.inj paged)
  obtain rfl : [⟨"price", .lt, .integer 9⟩] = filters := Except.ok.inj filtered
  obtain rfl : some ⟨"price", true⟩ = sort := Except.ok.inj sorted
  refine (answered fun _ => ?_).scanned
  show ∀ r ∈ [(⟨1, "", .obj [("price", .int 3)], []⟩ : Row), ⟨2, "", .obj [("price", .int 5)], []⟩], _
  decide

theorem searchDocumentsSQL_ok {coll : Collection} (vector : coll.hasVector = true) (v : Vector32) (limit : Int) (rerank : Bool)
    (filters : List FilterCondition) (sort : Option SortSpec) : ∃ q, searchDocumentsSQL coll v limit rerank filters sort = .ok q := by
  unfold searchDocumentsSQL
  rw [if_neg (by simp [vector])]
  dsimp only
  split
  · split <;> exact ⟨_, rfl⟩
  · split <;> exact ⟨_, rfl⟩

/-- The reply to GET /collections/{name}/search is an answer to the text that is sent, and
    the answers to it are the results of the search: the nearest items that meet the
    filters. -/
theorem search_reply_answers (h : Host) (E : Engine) (calls : List (Call × List Bool)) (name : String) (query : Query)
    (docs : List Document)
    (replied : ((machine h).eval (handleSearchDocuments E name query) (reached h calls)).1 = .ok (.json 200 docs)) :
    ∃ coll limit rerank filters sort v q, (reached h calls).lookup name = some coll ∧ parseSearchLimit query = .ok limit ∧
      parseRerank query = .ok rerank ∧ parseFilters E.parseFloat query = .ok filters ∧ parseSort query = .ok sort ∧
      h.embed (query.get "q") = .ok v ∧ searchDocumentsSQL coll v limit rerank filters sort = .ok q ∧
      (Legible (reached h calls) coll filters sort →
        AnsweredBy (dialect E h (reached h calls)) q
          (Searched h v limit rerank filters sort (items (reached h calls) coll.tableName))
          (fun r => (shownNear h rerank v r).map (·.2)) docs) := by
  obtain ⟨coll, found, replied⟩ := withCollection_ok replied
  obtain ⟨-, replied⟩ := unless_ok replied
  obtain ⟨limit, limited, replied⟩ := withParams_ok replied
  obtain ⟨rerank, mode, replied⟩ := withParams_ok replied
  obtain ⟨filters, filtered, replied⟩ := withParams_ok replied
  obtain ⟨sort, sorted, replied⟩ := withParams_ok replied
  have refused (e : Err) (ds : List Document) : (if e.is .collectionNotVector then
      (Written.error 400 "collection has no vectors, nothing to search") else internalError e) ≠ .json 200 ds := by
    split <;> exact fun wrong => by cases wrong
  have done : SortedSearch.search h (reached h calls) coll (query.get "q") limit rerank filters sort = .ok docs := reply_ok refused replied
  have vector : coll.hasVector = true := by
    by_contra none
    have fails : SortedSearch.search h (reached h calls) coll (query.get "q") limit rerank filters sort = .error .collectionNotVector := by
      unfold SortedSearch.search searchDocuments
      rw [Bool.not_eq_true] at none
      rw [none]
      rfl
    rw [fails] at done
    cases done
  rw [SortedSearch.search_eq vector] at done
  cases embedded : h.embed (query.get "q") with
  | error e => simp [embedded] at done
  | ok v =>
    cases searched : searchRows h (reached h calls) coll.tableName v limit rerank filters sort with
    | error e => simp [embedded, searched] at done
    | ok rows =>
      simp only [embedded, searched, Except.ok.injEq] at done
      obtain ⟨q, sent⟩ := searchDocumentsSQL_ok vector v limit rerank filters sort
      refine ⟨coll, limit, rerank, filters, sort, v, q, found, limited, mode, filtered, sorted, rfl, sent, fun legible => ?_⟩
      obtain ⟨t, accepted, those⟩ := searchRows_ok searched
      have registered := (DB.lookup_some found).1
      have same : items (reached h calls) coll.tableName = t.rows :=
        items_of_docs (DB.docs_of_find accepted.there (.inr ⟨_, accepted.kind⟩))
      unfold Legible at legible
      rw [same] at legible ⊢
      rw [← done]
      refine answeredBy (query_search (reached_table_free registered) sent) ?_ (scan_near rerank) those
      exact search_answers accepted legible (parseFilters_fields filtered) (parseSort_field sorted)

/-- Two notes with vectors. -/
def notes : List (Call × List Bool) :=
  [(.createCollection "notes" true 8 ⟨[], List.nodup_nil⟩, []), (.insertDocument "notes" none "uno" (some (.obj [("stars", .int 3)])), []),
    (.insertDocument "notes" none "dos" (some (.obj [("stars", .int 5)])), [])]

set_option maxRecDepth 4096 in
/-- The one with more than four stars, by way of the common table expression. -/
theorem search_reply_answers_notes : ∃ out, Allows (dialect Engine.plain Host.uniform (reached Host.uniform notes))
    ("\n\t\t\t\tWITH coarse_matches AS (\n\t\t\t\t\tSELECT id, embedding, text, data\n\t\t\t\t\tFROM \"coll_notes\"" ++
      "\n\t\t\t\t\tWHERE embedding_bit MATCH vec_quantize_binary(?) AND k = ? AND json_extract(data, ?) > ?" ++
      "\n\t\t\t\t\tORDER BY distance\n\t\t\t\t\tLIMIT ?" ++
      "\n\t\t\t\t)\n\t\t\t\tSELECT id, text, data, vec_distance_L2(embedding, ?) AS distance\n\t\t\t\tFROM coarse_matches" ++
      "\n\t\t\t\tORDER BY distance\n\t\t\t\tLIMIT ?").toList
    [.vector (List.replicate 8 0), .int 16, .text "$.stars", .value (.integer 4), .int 16, .vector (List.replicate 8 0), .int 2] out ∧
      out.map scanDocument = [some ⟨2, "dos", .obj [("stars", .int 5)], some 0⟩] := by
  obtain ⟨coll, limit, rerank, filters, sort, v, q, found, limited, mode, filtered, sorted, embedded, sent, answered⟩ :=
    search_reply_answers Host.uniform Engine.plain notes "notes" ⟨[("q", ["hola"]), ("stars__gt", ["4"]), ("limit", ["2"])], by decide⟩
    [⟨2, "dos", .obj [("stars", .int 5)], some 0⟩] rfl
  obtain rfl : ⟨"notes", "coll_notes", true, 8⟩ = coll := Option.some.inj found
  obtain rfl : 2 = limit := Except.ok.inj limited
  obtain rfl : true = rerank := Except.ok.inj mode
  obtain rfl : [⟨"stars", .gt, .integer 4⟩] = filters := Except.ok.inj filtered
  obtain rfl : none = sort := Except.ok.inj sorted
  obtain rfl : List.replicate 8 0 = v := Except.ok.inj embedded
  obtain rfl := Except.ok.inj sent
  refine (answered fun _ => ?_).scanned
  show ∀ r ∈ [(⟨1, "uno", .obj [("stars", .int 3)], _⟩ : Row), ⟨2, "dos", .obj [("stars", .int 5)], _⟩], _
  decide

/-! ### Aggregations -/

/-- An aggregation that returns has sent its query. -/
theorem aggregateDocuments_ok {coll : Collection} {op field groupBy : String} {filters : List FilterCondition}
    {results : List AggregateResult}
    (done : ((machine h).eval (aggregateDocuments E coll op field groupBy filters) s).1 = .ok results) :
    ∃ fn q, aggOps.lookup op = some fn ∧ aggregateDocumentsSQL coll op field groupBy filters = .ok q ∧
      aggregateQuery E coll fn field groupBy filters h s = .ok results := by
  unfold aggregateDocuments at done
  unfold aggregateDocumentsSQL
  cases known : aggOps.lookup op with
  | none =>
    rw [known] at done
    cases done
  | some fn =>
    rw [known] at done
    dsimp only at done ⊢
    split at done
    · cases done
    · rename_i given
      split at done
      · cases done
      · rename_i fieldOk
        split at done
        · cases done
        · rename_i groupOk
          rw [if_neg given, if_neg fieldOk, if_neg groupOk]
          rw [eval_read] at done
          have returned : aggregateQuery E coll fn field groupBy filters h s = .ok results := by
            cases run : aggregateQuery E coll fn field groupBy filters h s with
            | error e => simp [run, Except.mapError] at done
            | ok found =>
              rw [run] at done
              exact done
          split <;> exact ⟨fn, _, rfl, rfl, returned⟩

/-- The reply to GET /collections/{name}/aggregate is an answer to the text that is sent. -/
theorem aggregate_reply_allowed (h : Host) (E : Engine) (calls : List (Call × List Bool)) (name : String) (query : Query)
    (results : List AggregateResult)
    (replied : ((machine h).eval (handleAggregate E name query) (reached h calls)).1 = .ok (.json 200 results)) :
    ∃ coll filters q out, (reached h calls).lookup name = some coll ∧ parseFilters E.parseFloat query = .ok filters ∧
      aggregateDocumentsSQL coll (query.get "op") (query.get "field") (query.get "group_by") filters = .ok q ∧
      Allows (dialect E h (reached h calls)) q.sql.toList q.args out ∧ out.mapM (scanAggregate E) = .ok results := by
  obtain ⟨coll, found, replied⟩ := withCollection_ok replied
  obtain ⟨-, replied⟩ := unless_ok replied
  obtain ⟨filters, filtered, replied⟩ := withParams_ok replied
  have done := reply_ok (fun _ _ wrong => by cases wrong) replied
  obtain ⟨fn, q, known, sent, done⟩ := aggregateDocuments_ok done
  obtain ⟨out, allowed, scanned⟩ := aggregate_allowed (reached_table_free (DB.lookup_some found).1) (parseFilters_fields filtered)
    known sent done
  exact ⟨coll, filters, q, out, found, filtered, sent, allowed, scanned⟩

/-- The pens of each price are counted. -/
theorem aggregate_reply_allowed_pens : ∃ out, Allows (dialect digitsEngine Host.uniform (reached Host.uniform pens))
    "SELECT json_extract(data, ?) AS grp, COUNT(*) FROM \"coll_pens\"  GROUP BY grp ORDER BY grp".toList [.text "$.price"] out ∧
      out.mapM (scanAggregate digitsEngine) = .ok [⟨some "3", some (some (.finite 1))⟩, ⟨some "5", some (some (.finite 1))⟩] := by
  obtain ⟨coll, filters, q, out, found, filtered, sent, allowed, scanned⟩ := aggregate_reply_allowed Host.uniform digitsEngine pens
    "pens" ⟨[("op", ["count"]), ("group_by", ["price"])], by decide⟩
    [⟨some "3", some (some (.finite 1))⟩, ⟨some "5", some (some (.finite 1))⟩] rfl
  obtain rfl : ⟨"pens", "coll_pens", false, 0⟩ = coll := Option.some.inj found
  obtain rfl : [] = filters := Except.ok.inj filtered
  obtain rfl := Except.ok.inj sent
  exact ⟨out, allowed, scanned⟩

end Microserver.CompiledReads
