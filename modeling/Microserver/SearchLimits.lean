import Microserver.SearchShapes
import Microserver.VecItems

/-!
The limit of a search. It is multiplied by the oversample factor in `int`
arithmetic and handed to vec0, which takes numbers from 0 to 4096.
-/
namespace Microserver.SearchLimits
open Microserver.Values Microserver.Store Microserver.Programs Microserver.Statements Microserver.Operations
open Microserver.Schema Microserver.Items Microserver.Evaluations Microserver.Queries Microserver.Requests Microserver.Tokens
open Microserver.Params Microserver.ReadHandlers Microserver.VecItems Microserver.SortedSearch Microserver.SearchShapes
open Microserver.Listings Microserver.Histories Microserver.Reachable

/-- How many neighbours a search without filters and sort asks vec0 for. -/
def asked (limit : Int) (rerank : Bool) : Int := if rerank then coarseLimit limit else limit

/-- How many it is meant to ask for. -/
def meant (limit : Int) (rerank : Bool) : Int := if rerank then limit * oversampleFactor else limit

/-- The number handed to vec0 has not wrapped around, and vec0 accepts it. -/
def InRange (limit : Int) (rerank : Bool) : Prop :=
  asked limit rerank = meant limit rerank ∧ 0 ≤ asked limit rerank ∧ asked limit rerank ≤ 4096

/-- GET /collections/{name}/search replies with `min(limit, n)` of the `n` items. -/
def ServesDocuments (h : Host) (E : Engine) (s : DB) (coll : Collection) (query : Query) (limit : Int) : Prop :=
  ∃ docs, ((machine h).eval (handleSearchDocuments E coll.name query) s).1 = .ok (.json 200 docs) ∧
    (docs.length : Int) = min limit (items s coll.tableName).length

/-- GET /search replies with `min(limit, n)` of the `n` items. -/
def ServesItems (h : Host) (t : Table) (query : Query) (limit : Int) : Prop :=
  ∃ results, ((itemMachine h).eval (handleSearch query) t).1 = .ok (.json 200 (.results results)) ∧
    (results.length : Int) = min limit t.rows.length

/-- What happens to the neighbours: the rest of the two queries. -/
def ranked (h : Host) (q : Vector32) (limit : Int) (rerank : Bool) (rows : List Row) : List Row :=
  if rerank then limitRows limit (orderByDistance h true q (limitRows (coarseLimit limit) (orderByDistance h false q rows)))
  else orderByDistance h false q rows

variable {h : Host} {E : Engine} {s : DB} {coll : Collection} {t : Table} {query : Query} {q : Vector32}
  {limit k dimensions : Int} {rerank : Bool} {table : String} {rows : List Row}

/-! ### The number that is asked for -/

theorem inRange_iff (positive : 1 ≤ limit) : InRange limit rerank ↔ meant limit rerank ≤ 4096 := by
  cases rerank with
  | false =>
    show limit = limit ∧ 0 ≤ limit ∧ limit ≤ 4096 ↔ limit ≤ 4096
    omega
  | true =>
    show coarseLimit limit = limit * 8 ∧ 0 ≤ coarseLimit limit ∧ coarseLimit limit ≤ 4096 ↔ limit * 8 ≤ 4096
    constructor
    · rintro ⟨whole, -, small⟩
      omega
    · intro bound
      have whole := coarseLimit_eq positive (by omega)
      omega

theorem searchRows_asks : searchRows h s table q limit rerank [] none =
    (knn h s table q (asked limit rerank)).map (ranked h q limit rerank) := by
  unfold searchRows asked ranked
  cases rerank with
  | false => rfl
  | true =>
    unfold coarseMatches
    simp only [Bool.true_eq_false, false_and, ↓reduceIte, finalOrderBy, filterWhere_nil]
    cases knn h s table q (coarseLimit limit) <;> rfl

theorem knn_length (there : s.find table = some t) (kind : t.kind = .vec0 dimensions) (found : knn h s table q k = .ok rows) :
    (rows.length : Int) = min k t.rows.length := by
  obtain ⟨-, nonnegative, -, rfl⟩ := (knn_ok_iff there kind).mp found
  rw [List.length_take, nearestFirst_perm.length_eq]
  omega

theorem limitRows_length (nonnegative : 0 ≤ limit) : ((limitRows limit rows).length : Int) = min limit rows.length := by
  rw [limitRows_of_nonneg nonnegative, List.length_take]
  omega

theorem ranked_length (positive : 1 ≤ limit) (nonnegative : 0 ≤ asked limit rerank)
    (few : (rows.length : Int) ≤ asked limit rerank) : ((ranked h q limit rerank rows).length : Int) = min limit rows.length := by
  cases rerank with
  | false =>
    have same : (ranked h q limit false rows).length = rows.length := (orderByDistance_perm false q rows).length_eq
    have below : (rows.length : Int) ≤ limit := few
    omega
  | true =>
    show ((limitRows limit (orderByDistance h true q (limitRows (coarseLimit limit) (orderByDistance h false q rows)))).length : Int) = _
    have room : 0 ≤ coarseLimit limit := nonnegative
    have below : (rows.length : Int) ≤ coarseLimit limit := few
    rw [limitRows_length (by omega), (orderByDistance_perm true q _).length_eq, limitRows_length room,
      (orderByDistance_perm false q rows).length_eq, min_eq_right below]

/-- A search returns as many rows as there are, up to the limit, exactly when vec0
    accepts the number that it is asked for and this number is enough. -/
theorem searchRows_serves (there : s.find table = some t) (kind : t.kind = .vec0 dimensions) (positive : 1 ≤ limit) :
    (∃ rows, searchRows h s table q limit rerank [] none = .ok rows ∧ (rows.length : Int) = min limit t.rows.length) ↔
      FitsQuery q dimensions ∧ 0 ≤ asked limit rerank ∧ asked limit rerank ≤ 4096 ∧ min limit t.rows.length ≤ asked limit rerank := by
  rw [searchRows_asks]
  cases found : knn h s table q (asked limit rerank) with
  | error e =>
    constructor
    · rintro ⟨rows, done, -⟩
      cases done
    · rintro ⟨fits, nonnegative, small, -⟩
      rw [(knn_ok_iff there kind).mpr ⟨fits, nonnegative, small, rfl⟩] at found
      cases found
  | ok near =>
    obtain ⟨fits, nonnegative, small, -⟩ := (knn_ok_iff there kind).mp found
    have number := knn_length there kind found
    have length : ((ranked h q limit rerank near).length : Int) = min limit near.length :=
      ranked_length positive nonnegative (by omega)
    constructor
    · rintro ⟨rows, done, enough⟩
      cases done
      refine ⟨fits, nonnegative, small, ?_⟩
      omega
    · rintro ⟨-, -, -, enough⟩
      exact ⟨_, rfl, by omega⟩

/-! ### The handlers -/

theorem parseSearchLimit_positive (limited : parseSearchLimit query = .ok limit) : 1 ≤ limit := by
  unfold parseSearchLimit parseNumber at limited
  by_cases empty : query.get "limit" = ""
  · simp only [empty, ↓reduceIte, Except.ok.injEq] at limited
    omega
  · simp only [empty, ↓reduceIte] at limited
    cases read : parseInt (query.get "limit") with
    | none => simp [read] at limited
    | some n =>
      by_cases low : n < 1
      · simp [read, low] at limited
      · simp only [read, low, Option.any_none, Bool.false_eq_true, or_self, ↓reduceIte, Except.ok.injEq] at limited
        omega

theorem eval_reply_ok_iff {α : Type} {op : Op α} {onError : Err → Written α} {a : α} (refused : ∀ e a, onError e ≠ .json 200 a) :
    ((machine h).eval (reply op onError) s).1 = .ok (.json 200 a) ↔ ((machine h).eval op s).1 = .ok a := by
  unfold reply
  rw [Prog.bind_eq, Machine.eval_bind, Machine.eval_attempt]
  cases ((machine h).eval op s).1 with
  | error e => exact iff_of_false (fun done => refused e a (Except.ok.inj done)) nofun
  | ok b =>
    constructor
    · intro done
      cases done
      rfl
    · intro done
      cases done
      rfl

theorem eval_handleSearchDocuments (registered : s.lookup coll.name = some coll) (text : query.get "q" ≠ "")
    (limited : parseSearchLimit query = .ok limit) (mode : parseRerank query = .ok rerank)
    (filtered : parseFilters E.parseFloat query = .ok []) (sorted : parseSort query = .ok none) (docs : List Document) :
    ((machine h).eval (handleSearchDocuments E coll.name query) s).1 = .ok (.json 200 docs) ↔
      search h s coll (query.get "q") limit rerank [] none = .ok docs := by
  unfold handleSearchDocuments withCollection
  rw [Prog.bind_eq, Machine.eval_bind, Machine.eval_attempt, eval_getCollection, registered]
  simp only [Option.elim_some, if_neg text, limited, mode, filtered, sorted, withParams]
  refine eval_reply_ok_iff fun e a => ?_
  by_cases vectors : e.is .collectionNotVector <;> simp [vectors, internalError]

theorem eval_readItem {α : Type} (context : Err → Err) (read : Host → Table → Except Err α) :
    (itemMachine h).eval (.call context (.read read)) t = ((read h t).mapError context, t) := by
  have exec : (itemMachine h).exec (.read read) t = (read h t).map (fun b => (b, t)) := rfl
  unfold Prog.call
  rw [Machine.eval_stmt, exec]
  cases read h t <;> rfl

theorem eval_handleSearch (text : query.get "q" ≠ "") (embedded : h.embed (query.get "q") = .ok q)
    (limited : parseSearchLimit query = .ok limit) (mode : parseRerank query = .ok rerank) (results : List SearchResult) :
    ((itemMachine h).eval (handleSearch query) t).1 = .ok (.json 200 (.results results)) ↔
      (searchRows h (onlyItems t) "vec_items" q limit rerank [] none).map
        (fun rows => rows.map fun r => ⟨r.id, r.text, distance h rerank q r⟩) = .ok results := by
  unfold handleSearch
  simp only [if_neg text, limited, mode, answer, Prog.bind_eq]
  rw [Machine.eval_bind, Machine.eval_attempt]
  unfold queryText VecItems.embed
  rw [Prog.bind_eq, Machine.eval_bind, eval_readItem, embedded]
  simp only [Except.mapError, eval_readItem]
  cases found : searchRows h (onlyItems t) "vec_items" q limit rerank [] none with
  | error e => simp [serializeFloat32, found, Except.map]
  | ok rows => simp [serializeFloat32, found, Except.map]

theorem map_length_iff {ε α β : Type} {r : Except ε (List α)} (f : α → β) (n : Int) :
    (∃ bs, (r.map fun as => as.map f) = .ok bs ∧ (bs.length : Int) = n) ↔ ∃ as, r = .ok as ∧ (as.length : Int) = n := by
  cases r with
  | error e => simp [Except.map]
  | ok as => simp [Except.map]

/-! ### The accepted limits -/

theorem servesDocuments_iff (sound : Sound s) (registered : coll ∈ s.collections) (vector : coll.hasVector = true)
    (text : query.get "q" ≠ "") (embedded : h.embed (query.get "q") = .ok q) (limited : parseSearchLimit query = .ok limit)
    (mode : parseRerank query = .ok rerank) (filtered : parseFilters E.parseFloat query = .ok [])
    (sorted : parseSort query = .ok none) : ServesDocuments h E s coll query limit ↔
      FitsQuery q coll.dimensions ∧ 0 ≤ asked limit rerank ∧ asked limit rerank ≤ 4096 ∧
        min limit (items s coll.tableName).length ≤ asked limit rerank := by
  obtain ⟨t, there, kind, rows⟩ := vec0_registered sound registered vector
  unfold ServesDocuments
  simp only [eval_handleSearchDocuments (sound.lookup registered) text limited mode filtered sorted,
    search_rows vector embedded]
  rw [rows, ← searchRows_serves there kind (parseSearchLimit_positive limited), map_length_iff]
  cases searchRows h s coll.tableName q limit rerank [] none <;> simp [Except.mapError]

theorem servesItems_iff (kind : t.kind = .vec0 768) (text : query.get "q" ≠ "") (embedded : h.embed (query.get "q") = .ok q)
    (limited : parseSearchLimit query = .ok limit) (mode : parseRerank query = .ok rerank) : ServesItems h t query limit ↔
      FitsQuery q 768 ∧ 0 ≤ asked limit rerank ∧ asked limit rerank ≤ 4096 ∧ min limit t.rows.length ≤ asked limit rerank := by
  have there : (onlyItems t).find "vec_items" = some t := rfl
  unfold ServesItems
  simp only [eval_handleSearch text embedded limited mode]
  rw [← searchRows_serves there kind (parseSearchLimit_positive limited), map_length_iff]

/-- After any run of calls, a search without filters and sort returns `min(limit, n)`
    of the `n` items and stays in the range of vec0, on both routes, exactly when the
    vector fits the table and the limit, times 8 where it reranks, is at most 4096. -/
theorem limit_works_iff (h : Host) (E : Engine) (query : Query) (q : Vector32) (limit : Int) (rerank : Bool)
    (text : query.get "q" ≠ "") (embedded : h.embed (query.get "q") = .ok q) (limited : parseSearchLimit query = .ok limit)
    (mode : parseRerank query = .ok rerank) :
    (∀ (calls : List (Call × List Bool)) (coll : Collection), coll ∈ (reached h calls).collections → coll.hasVector = true →
      parseFilters E.parseFloat query = .ok [] → parseSort query = .ok none →
        (ServesDocuments h E (reached h calls) coll query limit ∧ InRange limit rerank ↔
          FitsQuery q coll.dimensions ∧ meant limit rerank ≤ 4096)) ∧
    ∀ t : Table, t.kind = .vec0 768 →
      (ServesItems h t query limit ∧ InRange limit rerank ↔ FitsQuery q 768 ∧ meant limit rerank ≤ 4096) := by
  have positive : 1 ≤ limit := parseSearchLimit_positive limited
  have within : meant limit rerank ≤ 4096 → ∀ n : Nat, 0 ≤ asked limit rerank ∧ asked limit rerank ≤ 4096 ∧
      min limit n ≤ asked limit rerank := by
    intro bound n
    obtain ⟨whole, nonnegative, small⟩ := (inRange_iff positive).mpr bound
    refine ⟨nonnegative, small, ?_⟩
    have oversampled : limit ≤ meant limit rerank := by
      cases rerank with
      | false => exact le_refl limit
      | true =>
        show limit ≤ limit * 8
        omega
    omega
  constructor
  · intro calls coll registered vector filtered sorted
    have sound : Sound (reached h calls) := (run_coherent h calls).sound
    rw [servesDocuments_iff sound registered vector text embedded limited mode filtered sorted,
      inRange_iff positive]
    exact ⟨fun both => ⟨both.1.1, both.2⟩, fun both => ⟨⟨both.1, within both.2 _⟩, both.2⟩⟩
  · intro t kind
    rw [servesItems_iff kind text embedded limited mode, inRange_iff positive]
    exact ⟨fun both => ⟨both.1.1, both.2⟩, fun both => ⟨⟨both.1, within both.2 _⟩, both.2⟩⟩

/-- `q=hola` with this limit. -/
def hola (limit : String) : Query := ⟨[("q", ["hola"]), ("limit", [limit])], by simp⟩

/-- A search with room for two items in a collection that has three. -/
theorem limit_works_two :
    ServesDocuments Host.nearOrFar Engine.plain (reached Host.nearOrFar threeVectors) vectors (hola "2") 2 ∧ InRange 2 true :=
  ((limit_works_iff Host.nearOrFar Engine.plain (hola "2") (List.replicate 8 0) 2 true (by decide) rfl (by decide)
    (by decide)).1 threeVectors vectors (List.mem_singleton.mpr rfl) rfl (by decide) (by decide)).mpr
      ⟨⟨by decide, by decide⟩, by decide⟩

/-- The first limit that fails asks for 4104 neighbours. Far from it 2^60 asks for a
    negative number and 2^61 for none. -/
theorem limit_fails :
    asked 513 true = 4104 ∧ asked (2 ^ 60) true = -2 ^ 63 ∧ asked (2 ^ 61) true = 0 ∧
    ¬ ∀ (h : Host) (E : Engine) (calls : List (Call × List Bool)) (coll : Collection) (query : Query) (q : Vector32) (limit : Int)
      (rerank : Bool), coll ∈ (reached h calls).collections → coll.hasVector = true → query.get "q" ≠ "" →
        h.embed (query.get "q") = .ok q → FitsQuery q coll.dimensions → parseSearchLimit query = .ok limit →
        parseRerank query = .ok rerank → parseFilters E.parseFloat query = .ok [] → parseSort query = .ok none →
          ServesDocuments h E (reached h calls) coll query limit ∧ InRange limit rerank := by
  refine ⟨by decide, by decide, by decide, fun all => ?_⟩
  have sound : Sound (reached Host.uniform (oneVector .null)) := (run_coherent Host.uniform _).sound
  have registered : vectors ∈ (reached Host.uniform (oneVector .null)).collections := List.mem_singleton.mpr rfl
  have mode : parseRerank (hola "513") = .ok true := by decide
  have filtered : parseFilters Engine.plain.parseFloat (hola "513") = .ok [] := by decide
  have served := (all Host.uniform Engine.plain (oneVector .null) vectors (hola "513") (List.replicate 8 0) 513 true registered rfl
    (by decide) rfl ⟨by decide, by decide⟩ (by decide) mode filtered (by decide)).1
  have small := ((servesDocuments_iff sound registered rfl (by decide) rfl (by decide) mode filtered
    (by decide)).mp served).2.2.1
  exact absurd small (by decide)

end Microserver.SearchLimits
