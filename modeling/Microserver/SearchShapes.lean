import Microserver.Listings
import Microserver.Reloads
import Microserver.SortedSearch
import Microserver.TiedPages

/-!
The four queries of searchDocuments without a sort. Whatever its shape, the search
takes the nearest candidates by the binary vectors, keeps those that meet the
filters and returns the first of them by the final distance.
-/
namespace Microserver.SearchShapes
open Microserver.Values Microserver.Store Microserver.Programs Microserver.Statements Microserver.Operations
open Microserver.Schema Microserver.Items Microserver.Ranking Microserver.TiedPages Microserver.Queries Microserver.Listings
open Microserver.SortedSearch Microserver.Histories Microserver.Reachable

/-- The rows in the order in which vec0 finds them. -/
def nearestFirst (h : Host) (q : Vector32) (rows : List Row) : List Row :=
  sortBy (fun r => hammingDistance q r.embedding) (h.visit rows)

/-- A vector that the table can be searched for. -/
def FitsQuery (q : Vector32) (dimensions : Int) : Prop := q.length % 8 = 0 ∧ (q.length : Int) = dimensions

/-- The items among the `8 * limit` nearest that meet the filters. -/
def candidates (h : Host) (s : DB) (coll : Collection) (q : Vector32) (limit : Int) (filters : List FilterCondition) : List Row :=
  ((nearestFirst h q (items s coll.tableName)).take (8 * limit).toNat).filter (meets h filters)

/-- An item as a search returns it. -/
def hit (h : Host) (rerank : Bool) (q : Vector32) (r : Row) : Document := ⟨r.id, r.text, r.data, some (distance h rerank q r)⟩

/-- The search returns the first `limit` of these items by the final distance. -/
def ReturnsFirst (h : Host) (s : DB) (coll : Collection) (text : String) (q : Vector32) (limit : Int) (rerank : Bool)
    (filters : List FilterCondition) (rows : List Row) : Prop :=
  ∃ arranged, Arranged (distance h rerank q) rows arranged ∧
    search h s coll text limit rerank filters none = .ok ((arranged.take limit.toNat).map (hit h rerank q))

/-- What the search without a sort computes, in all of its shapes. -/
structure OneDefinition (h : Host) (s : DB) (coll : Collection) (text : String) (q : Vector32) (limit : Int) (rerank : Bool)
    (filters : List FilterCondition) : Prop where
  first : ReturnsFirst h s coll text q limit rerank filters (candidates h s coll q limit filters)
  whole : (items s coll.tableName).length ≤ 8 * limit →
    ReturnsFirst h s coll text q limit rerank filters ((items s coll.tableName).filter (meets h filters))
  unfiltered : (∀ r ∈ items s coll.tableName, meets h filters r = true) →
    (rerank = true ∨ ((items s coll.tableName).map fun r => hammingDistance q r.embedding).Nodup) →
      search h s coll text limit rerank filters none = search h s coll text limit rerank [] none

variable {h : Host} {s : DB} {coll : Collection} {t : Table} {q : Vector32} {limit k dimensions : Int} {rerank : Bool}
  {filters : List FilterCondition} {table text : String} {rows : List Row}

/-! ### The candidates -/

theorem knn_ok_iff (there : s.find table = some t) (kind : t.kind = .vec0 dimensions) : knn h s table q k = .ok rows ↔
    FitsQuery q dimensions ∧ 0 ≤ k ∧ k ≤ 4096 ∧ rows = (nearestFirst h q t.rows).take k.toNat := by
  rw [knn_returns_iff]
  constructor
  · rintro ⟨t', dimensions', there', kind', fits, range⟩
    rw [there] at there'
    cases there'
    rw [kind] at kind'
    cases kind'
    exact ⟨fits, range⟩
  · rintro ⟨fits, range⟩
    exact ⟨t, dimensions, there, kind, fits, range⟩

theorem nearestFirst_perm : (nearestFirst h q rows).Perm rows := (sortBy_perm _ _).trans (h.visit_perm rows)

theorem nearestFirst_ordered : (nearestFirst h q rows).Pairwise fun a b => distance h false q a ≤ distance h false q b := by
  refine (sortBy_pairwise _ _).imp fun le => ?_
  simpa [distance] using le

theorem orderByDistance_arranged : Arranged (distance h rerank q) rows (orderByDistance h rerank q rows) :=
  arranged_sortBy (h.visit_perm rows)

/-- All shapes of the query, when it can look into what it finds. -/
theorem searchRows_first (rerank : Bool) (filters : List FilterCondition) (there : s.find table = some t)
    (kind : t.kind = .vec0 dimensions) (fits : FitsQuery q dimensions) (positive : 1 ≤ limit) (bound : 8 * limit ≤ 4096)
    (legible : filters = [] ∨ ∀ r ∈ (nearestFirst h q t.rows).take (8 * limit).toNat, readable r = true) :
    ∃ arranged, Arranged (distance h rerank q) (((nearestFirst h q t.rows).take (8 * limit).toNat).filter (meets h filters)) arranged ∧
      searchRows h s table q limit rerank filters none = .ok (arranged.take limit.toNat) := by
  have found (k : Int) (nonnegative : 0 ≤ k) (small : k ≤ 4096) : knn h s table q k = .ok ((nearestFirst h q t.rows).take k.toNat) :=
    (knn_ok_iff there kind).mpr ⟨fits, nonnegative, small, rfl⟩
  have filtered : filterWhere h filters ((nearestFirst h q t.rows).take (8 * limit).toNat) =
      .ok (((nearestFirst h q t.rows).take (8 * limit).toNat).filter (meets h filters)) := by
    rcases legible with rfl | legible
    · rw [filterWhere_nil, filter_meets_nil]
    · exact filterWhere_readable fun _ => legible
  unfold searchRows
  by_cases shape : rerank = false ∧ filters = []
  · obtain ⟨rfl, rfl⟩ := shape
    have few : ((nearestFirst h q t.rows).take (8 * limit).toNat).take limit.toNat = (nearestFirst h q t.rows).take limit.toNat := by
      rw [List.take_take, min_eq_left (by omega)]
    have front : Arranged (distance h false q) (((nearestFirst h q t.rows).take (8 * limit).toNat).take limit.toNat)
        (orderByDistance h false q ((nearestFirst h q t.rows).take limit.toNat)) := by
      rw [few]
      exact orderByDistance_arranged
    obtain ⟨arranged, cut⟩ := front.continued (nearestFirst_ordered.sublist (List.take_sublist _ _))
    rw [if_pos ⟨rfl, rfl, rfl⟩, found limit (by omega) (by omega), filter_meets_nil]
    exact ⟨_, arranged, by rw [cut]; rfl⟩
  · have length : (((nearestFirst h q t.rows).take (8 * limit).toNat).filter (meets h filters)).length ≤ (8 * limit).toNat :=
      (List.length_filter_le _ _).trans (List.length_take_le _ _)
    have coarse : coarseMatches h s table q limit rerank filters = .ok (if rerank then
        orderByDistance h false q (((nearestFirst h q t.rows).take (8 * limit).toNat).filter (meets h filters))
        else ((nearestFirst h q t.rows).take (8 * limit).toNat).filter (meets h filters)) := by
      unfold coarseMatches
      rw [coarseLimit_eq positive bound, found (8 * limit) (by omega) bound]
      simp only [filtered, bind, Except.bind, pure, Except.pure]
      rw [limitRows_of_nonneg (by omega), List.take_of_length_le (by rwa [(orderByDistance_perm _ _ _).length_eq])]
    rw [if_neg fun all => shape ⟨all.1, all.2.1⟩, coarse]
    simp only [finalOrderBy, bind, Except.bind, pure, Except.pure, limitRows_of_nonneg (by omega : 0 ≤ limit)]
    refine ⟨_, ⟨orderByDistance_arranged.perm.trans ?_, orderByDistance_arranged.ordered⟩, rfl⟩
    cases rerank with
    | false => exact .refl _
    | true => exact orderByDistance_perm _ _ _

/-- A search that returns was asked for a vector of the table, and could look into
    what it found. -/
theorem fits_of_searchRows (there : s.find table = some t) (kind : t.kind = .vec0 dimensions) (positive : 1 ≤ limit)
    (bound : 8 * limit ≤ 4096) (done : searchRows h s table q limit rerank filters none = .ok rows) :
    FitsQuery q dimensions ∧ (filters = [] ∨ ∀ r ∈ (nearestFirst h q t.rows).take (8 * limit).toNat, readable r = true) := by
  unfold searchRows at done
  by_cases shape : rerank = false ∧ filters = []
  · rw [if_pos ⟨shape.1, shape.2, rfl⟩] at done
    cases found : knn h s table q limit with
    | error e => simp [found, Except.map] at done
    | ok few => exact ⟨((knn_ok_iff there kind).mp found).1, .inl shape.2⟩
  · rw [if_neg fun all => shape ⟨all.1, all.2.1⟩] at done
    unfold coarseMatches at done
    rw [coarseLimit_eq positive bound] at done
    cases found : knn h s table q (8 * limit) with
    | error e => simp [found, bind, Except.bind] at done
    | ok near =>
      obtain ⟨fits, -, -, rfl⟩ := (knn_ok_iff there kind).mp found
      refine ⟨fits, or_iff_not_imp_left.mpr fun given => ?_⟩
      cases filtered : filterWhere h filters ((nearestFirst h q t.rows).take (8 * limit).toNat) with
      | error e => simp [found, filtered, bind, Except.bind] at done
      | ok matching => exact (filterWhere_ok filtered).2 given

/-! ### The search -/

theorem search_rows (vector : coll.hasVector = true) (embedded : h.embed text = .ok q) :
    search h s coll text limit rerank filters none =
      ((searchRows h s coll.tableName q limit rerank filters none).mapError (.wrapped "searching documents")).map
        fun rows => rows.map (hit h rerank q) := by
  rw [search_eq vector, embedded]
  cases found : searchRows h s coll.tableName q limit rerank filters none <;> simp only [found] <;> rfl

theorem returnsFirst (vector : coll.hasVector = true) (embedded : h.embed text = .ok q) {arranged : List Row}
    (order : Arranged (distance h rerank q) rows arranged)
    (found : searchRows h s coll.tableName q limit rerank filters none = .ok (arranged.take limit.toNat)) :
    ReturnsFirst h s coll text q limit rerank filters rows :=
  ⟨arranged, order, by rw [search_rows vector embedded, found]; rfl⟩

/-- A filter that every item meets leaves the result as it is. -/
theorem searchRows_unfiltered (there : s.find table = some t) (kind : t.kind = .vec0 dimensions) (fits : FitsQuery q dimensions)
    (positive : 1 ≤ limit) (bound : 8 * limit ≤ 4096)
    (legible : filters = [] ∨ ∀ r ∈ (nearestFirst h q t.rows).take (8 * limit).toNat, readable r = true)
    (all : ∀ r ∈ t.rows, meets h filters r = true)
    (apart : rerank = true ∨ (t.rows.map fun r => hammingDistance q r.embedding).Nodup) :
    searchRows h s table q limit rerank filters none = searchRows h s table q limit rerank [] none := by
  have every : ((nearestFirst h q t.rows).take (8 * limit).toNat).filter (meets h filters) =
      (nearestFirst h q t.rows).take (8 * limit).toNat :=
    List.filter_eq_self.mpr fun r member => all r (nearestFirst_perm.subset (List.mem_of_mem_take member))
  cases rerank with
  | true =>
    have same : filterWhere h filters ((nearestFirst h q t.rows).take (8 * limit).toNat) =
        filterWhere h [] ((nearestFirst h q t.rows).take (8 * limit).toNat) := by
      rw [filterWhere_nil]
      rcases legible with rfl | legible
      · exact filterWhere_nil _
      · rw [filterWhere_readable fun _ => legible, matching, every]
    have found : knn h s table q (coarseLimit limit) = .ok ((nearestFirst h q t.rows).take (8 * limit).toNat) := by
      rw [coarseLimit_eq positive bound]
      exact (knn_ok_iff there kind).mpr ⟨fits, by omega, bound, rfl⟩
    unfold searchRows coarseMatches
    simp only [Bool.true_eq_false, false_and, ↓reduceIte, found, bind, Except.bind, same]
  | false =>
    obtain ⟨arranged, order, searched⟩ := searchRows_first false filters there kind fits positive bound legible
    obtain ⟨arranged', order', searched'⟩ := searchRows_first false [] there kind fits positive bound (.inl rfl)
    rw [every] at order
    rw [filter_meets_nil] at order'
    have distinct : (((nearestFirst h q t.rows).take (8 * limit).toNat).map (distance h false q)).Nodup := by
      have natural := ((nearestFirst_perm (h := h) (q := q)).map _).nodup_iff.mpr (apart.resolve_left nofun)
      have rational := natural.map (f := ((↑) : ℕ → ℚ)) Nat.cast_injective
      rw [List.map_map] at rational
      exact rational.sublist ((List.take_sublist _ _).map _)
    rw [searched, searched', order.unique order' distinct]

theorem vec0_registered (sound : Sound s) (registered : coll ∈ s.collections) (vector : coll.hasVector = true) :
    ∃ t, s.find coll.tableName = some t ∧ t.kind = .vec0 coll.dimensions ∧ items s coll.tableName = t.rows := by
  obtain ⟨t, docs, kind, -⟩ := docs_registered sound registered
  simp only [mainKind, vector, ↓reduceIte] at kind
  exact ⟨t, DB.docs_ok docs, kind, items_of_docs docs⟩

theorem legible_of_returnsFirst (sound : Sound s) (registered : coll ∈ s.collections) (vector : coll.hasVector = true)
    (embedded : h.embed text = .ok q) (positive : 1 ≤ limit) (bound : 8 * limit ≤ 4096)
    (first : ReturnsFirst h s coll text q limit rerank filters rows) : FitsQuery q coll.dimensions ∧
      (filters = [] ∨ ∀ r ∈ (nearestFirst h q (items s coll.tableName)).take (8 * limit).toNat, readable r = true) := by
  obtain ⟨t, there, kind, same⟩ := vec0_registered sound registered vector
  obtain ⟨arranged, -, found⟩ := first
  rw [search_rows vector embedded] at found
  rw [same]
  cases searched : searchRows h s coll.tableName q limit rerank filters none with
  | error e => simp [searched, Except.map, Except.mapError] at found
  | ok few => exact fits_of_searchRows there kind positive bound searched

/-- After any run of calls, the search without a sort returns the first candidates
    that meet the filters by the final distance, whatever the shape of its query,
    exactly when the query vector fits and the filters can look into the candidates. -/
theorem one_definition_iff (h : Host) (calls : List (Call × List Bool)) (coll : Collection) (text : String) (q : Vector32)
    (limit : Int) (rerank : Bool) (filters : List FilterCondition) (registered : coll ∈ (reached h calls).collections)
    (vector : coll.hasVector = true) (embedded : h.embed text = .ok q) (positive : 1 ≤ limit) (bound : 8 * limit ≤ 4096) :
    OneDefinition h (reached h calls) coll text q limit rerank filters ↔ FitsQuery q coll.dimensions ∧
      (filters = [] ∨ ∀ r ∈ (nearestFirst h q (items (reached h calls) coll.tableName)).take (8 * limit).toNat, readable r = true) := by
  have sound : Sound (reached h calls) := (run_coherent h calls).sound
  refine ⟨fun one => legible_of_returnsFirst sound registered vector embedded positive bound one.first, ?_⟩
  obtain ⟨t, there, kind, rows⟩ := vec0_registered sound registered vector
  rw [rows]
  rintro ⟨fits, legible⟩
  obtain ⟨arranged, order, searched⟩ := searchRows_first rerank filters there kind fits positive bound legible
  refine ⟨?_, fun few => ?_, fun all apart => ?_⟩
  · refine returnsFirst vector embedded ?_ searched
    unfold candidates
    rw [rows]
    exact order
  · refine returnsFirst vector embedded ?_ searched
    rw [rows] at few ⊢
    rw [List.take_of_length_le (by rw [nearestFirst_perm.length_eq]; omega)] at order
    exact ⟨order.perm.trans (nearestFirst_perm.filter _), order.ordered⟩
  · rw [rows] at all apart
    rw [search_rows vector embedded, search_rows vector embedded,
      searchRows_unfiltered there kind fits positive bound legible all apart]

/-- A vector collection with one item, which has this data. -/
def oneVector (data : Json) : List (Call × List Bool) :=
  [(.createCollection "v" true 8 ⟨[], List.nodup_nil⟩, []), (.insertDocument "v" none "first" (some data), [])]

/-- The collection of this item. -/
def vectors : Collection := ⟨"v", "coll_v", true, 8⟩

/-- The filter `n=1`. -/
def nIsOne : FilterCondition := ⟨"n", .eq, .integer 1⟩

/-- A vector collection with three items, the second of them far from the others. -/
def threeVectors : List (Call × List Bool) :=
  [(.createCollection "v" true 8 ⟨[], List.nodup_nil⟩, []), (.insertDocument "v" none "near" (some (.obj [("n", .int 2)])), []),
    (.insertDocument "v" none "far" (some (.obj [("n", .int 1)])), []), (.insertDocument "v" none "next" (some (.obj [("n", .int 1)])), [])]

theorem readable_threeVectors : ∀ r ∈ items (reached Host.nearOrFar threeVectors) "coll_v", readable r = true := by decide

/-- A filtered search in a collection of three items, two of which meet the filter. -/
theorem one_definition_threeVectors :
    OneDefinition Host.nearOrFar (reached Host.nearOrFar threeVectors) vectors "near" (List.replicate 8 0) 2 true [nIsOne] ∧
      (candidates Host.nearOrFar (reached Host.nearOrFar threeVectors) vectors (List.replicate 8 0) 2 [nIsOne]).map (·.id) = [3, 2] := by
  refine ⟨?_, by decide⟩
  refine (one_definition_iff Host.nearOrFar threeVectors vectors "near" (List.replicate 8 0) 2 true [nIsOne]
    (by decide) rfl rfl (by decide) (by decide)).mpr ⟨⟨by decide, by decide⟩, .inr fun r member => ?_⟩
  exact readable_threeVectors r (nearestFirst_perm.subset (List.mem_of_mem_take member))

/-- A filtered search fails when it comes upon data that is nested too deep. -/
theorem deep_candidate_fails :
    ¬ ∀ (h : Host) (calls : List (Call × List Bool)) (coll : Collection) (text : String) (q : Vector32) (limit : Int)
      (rerank : Bool) (filters : List FilterCondition), coll ∈ (reached h calls).collections → coll.hasVector = true →
        h.embed text = .ok q → FitsQuery q coll.dimensions → 1 ≤ limit → 8 * limit ≤ 4096 →
          OneDefinition h (reached h calls) coll text q limit rerank filters := by
  intro all
  have sound : Sound (reached Host.uniform (oneVector (Reloads.nested 1001))) := (run_coherent Host.uniform _).sound
  have registered : vectors ∈ (reached Host.uniform (oneVector (Reloads.nested 1001))).collections := List.mem_singleton.mpr rfl
  have one := all Host.uniform (oneVector (Reloads.nested 1001)) vectors "q" (List.replicate 8 0) 1 false [nIsOne] registered rfl rfl
    ⟨by decide, by decide⟩ (by decide) (by decide)
  have legible := (legible_of_returnsFirst sound registered rfl rfl (by decide) (by decide) one.first).2.resolve_left nofun
  have shallow := readable_iff.mp (legible ⟨1, "first", Reloads.nested 1001, List.replicate 8 0⟩ (List.mem_singleton.mpr rfl))
  rw [Reloads.depth_nested] at shallow
  exact absurd shallow (by decide)

end Microserver.SearchShapes
