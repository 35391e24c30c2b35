import Microserver.Histories
import Microserver.Queries

/-!
Search with a sort. The final LIMIT comes after the ORDER BY, so with a sort it
cuts the candidates by the sort field and without one by distance: the same
items come back exactly when no candidate that the distance leaves out sorts
before one that it keeps.
-/
namespace Microserver.SortedSearch
open List
open Microserver.Values Microserver.Store Microserver.Programs Microserver.Statements Microserver.Operations
open Microserver.Ranking Microserver.Queries

/-- The same items, in whatever order; an error returns none. -/
def SameItems (r r' : Except Err (List Document)) : Prop :=
  match r, r' with
  | .ok docs, .ok docs' => ∀ d, d ∈ docs ↔ d ∈ docs'
  | .error _, .error _ => True
  | _, _ => False

/-- What searchDocuments returns. -/
def search (h : Host) (s : DB) (coll : Collection) (text : String) (limit : Int) (rerank : Bool)
    (filters : List FilterCondition) (sort : Option SortSpec) : Except Err (List Document) :=
  ((machine h).eval (searchDocuments coll text limit rerank filters sort) s).1

/-- The candidates that are kept without a sort. -/
def nearest (h : Host) (vec : Vector32) (limit : Int) (rerank : Bool) (filters : List FilterCondition)
    (candidates : List Row) : List Row :=
  if rerank = false ∧ filters = [] then candidates.take limit.toNat
  else (orderByDistance h rerank vec candidates).take limit.toNat

/-- `x` sorts before `y`: by the field, and for equal values by the order in
    which the rows come. -/
def SortsBefore (h : Host) (spec : SortSpec) (candidates : List Row) (x y : Row) : Prop :=
  (if spec.desc then spec.key h y < spec.key h x else spec.key h x < spec.key h y) ∨
    spec.key h x = spec.key h y ∧ [x, y] <+ h.visit candidates

/-- Every candidate can be sorted, and none that the distance leaves out sorts
    before one that it keeps. -/
def SortAgrees (h : Host) (spec : SortSpec) (candidates kept : List Row) : Prop :=
  (∀ r ∈ candidates, readable r = true) ∧ ∀ x ∈ kept, ∀ y ∈ candidates, y ∉ kept → SortsBefore h spec candidates x y

variable {h : Host} {s : DB}

/-! ### The candidates -/

theorem Table.rows_nodup (t : Table) : t.rows.Nodup := Nodup.of_map _ t.key

theorem Table.row_injective (t : Table) {a b : Row} (left : a ∈ t.rows) (right : b ∈ t.rows) (same : a.id = b.id) : a = b :=
  inj_on_of_nodup_map t.key left right same

theorem coarseLimit_eq {limit : Int} (positive : 1 ≤ limit) (bound : 8 * limit ≤ 4096) : coarseLimit limit = 8 * limit := by
  unfold coarseLimit oversampleFactor
  rw [Int.bmod_eq_of_le (by omega) (by omega)]
  omega

/-- KNN returns when the vector fits the table and the number is in range. -/
theorem knn_returns_iff {table : String} {vec : Vector32} {k : Int} {rows : List Row} : knn h s table vec k = .ok rows ↔
    ∃ t dimensions, s.find table = some t ∧ t.kind = .vec0 dimensions ∧
      (vec.length % 8 = 0 ∧ (vec.length : Int) = dimensions) ∧ 0 ≤ k ∧ k ≤ 4096 ∧
        rows = (sortBy (fun r => hammingDistance vec r.embedding) (h.visit t.rows)).take k.toNat := by
  unfold knn
  constructor
  · intro done
    cases there : s.find table with
    | none => simp [there] at done
    | some t =>
      simp only [there] at done
      cases kind : t.kind with
      | plain | fts5 | shadow | system => simp [kind] at done
      | vec0 dimensions =>
        simp only [kind] at done
        by_cases bits : vec.length % 8 ≠ 0
        · simp [bits] at done
        rw [if_neg bits] at done
        by_cases wrong : (vec.length : Int) ≠ dimensions
        · simp [wrong] at done
        rw [if_neg wrong] at done
        by_cases negative : k < 0
        · simp [negative] at done
        rw [if_neg negative] at done
        by_cases large : 4096 < k
        · simp [large] at done
        rw [if_neg large] at done
        exact ⟨t, dimensions, rfl, kind, ⟨by omega, by omega⟩, by omega, by omega, (Except.ok.inj done).symm⟩
  · rintro ⟨t, dimensions, there, kind, ⟨bits, fits⟩, nonnegative, small, rfl⟩
    simp only [there, kind]
    rw [if_neg (by omega), if_neg (by omega), if_neg (by omega), if_neg (by omega)]

/-- KNN with more neighbours returns the fewer first. -/
theorem knn_take {table : String} {vec : Vector32} {k k' : Int} {rows : List Row} (few : 0 ≤ k) (more : k ≤ k')
    (done : knn h s table vec k' = .ok rows) : knn h s table vec k = .ok (rows.take k.toNat) := by
  obtain ⟨t, dimensions, there, kind, fits, -, small, rfl⟩ := knn_returns_iff.mp done
  refine knn_returns_iff.mpr ⟨t, dimensions, there, kind, fits, few, by omega, ?_⟩
  rw [take_take, min_eq_left (by omega)]

theorem knn_error {table : String} {vec : Vector32} {k k' : Int} {e : Err} (few : 0 ≤ k) (more : k ≤ k') (bound : k' ≤ 4096)
    (refused : knn h s table vec k' = .error e) : ∃ e', knn h s table vec k = .error e' := by
  cases found : knn h s table vec k with
  | error e' => exact ⟨e', rfl⟩
  | ok rows =>
    obtain ⟨t, dimensions, there, kind, fits, -⟩ := knn_returns_iff.mp found
    rw [knn_returns_iff.mpr ⟨t, dimensions, there, kind, fits, by omega, bound, rfl⟩] at refused
    cases refused

theorem knn_ok {table : String} {vec : Vector32} {k : Int} {rows : List Row} (done : knn h s table vec k = .ok rows) :
    ∃ t, s.find table = some t ∧ rows <+~ t.rows ∧ rows.length ≤ k.toNat := by
  obtain ⟨t, dimensions, there, -, -, -, -, rfl⟩ := knn_returns_iff.mp done
  refine ⟨t, there, ?_, length_take_le _ _⟩
  exact (take_sublist _ _).subperm.trans ((sortBy_perm _ _).trans (h.visit_perm t.rows)).subperm

theorem filterWhere_nil (rows : List Row) : filterWhere h [] rows = .ok rows := by
  simp [filterWhere]

theorem orderByDistance_perm (rerank : Bool) (vec : Vector32) (rows : List Row) :
    (orderByDistance h rerank vec rows).Perm rows :=
  (sortBy_perm _ _).trans (h.visit_perm rows)

theorem limitRows_of_nonneg {limit : Int} (nonneg : 0 ≤ limit) (rows : List Row) :
    limitRows limit rows = rows.take limit.toNat := if_neg (by omega)

/-- The candidates are rows of the table. -/
theorem coarseMatches_ok {table : String} {vec : Vector32} {limit : Int} {rerank : Bool} {filters : List FilterCondition}
    {candidates : List Row} (done : coarseMatches h s table vec limit rerank filters = .ok candidates) :
    ∃ t, s.find table = some t ∧ candidates.Nodup ∧ candidates ⊆ t.rows := by
  unfold coarseMatches at done
  cases found : knn h s table vec (coarseLimit limit) with
  | error e => simp [found, bind, Except.bind] at done
  | ok rows =>
    obtain ⟨t, there, part, -⟩ := knn_ok found
    cases filtered : filterWhere h filters rows with
    | error e => simp [found, filtered, bind, Except.bind] at done
    | ok matching =>
      simp only [found, filtered, bind, Except.bind, pure, Except.pure, Except.ok.injEq] at done
      have fewer : matching <+~ rows := by
        unfold filterWhere at filtered
        by_cases deep : filters ≠ [] ∧ ¬ rows.all readable
        · rw [if_pos deep] at filtered
          cases filtered
        · rw [if_neg deep] at filtered
          rw [← Except.ok.inj filtered]
          exact filter_sublist.subperm
      have drawn : candidates <+~ t.rows := by
        rw [← done]
        cases rerank with
        | false => exact fewer.trans part
        | true =>
          refine Subperm.trans ?_ (fewer.trans part)
          simp only [↓reduceIte]
          unfold limitRows
          by_cases negative : coarseLimit limit < 0
          · rw [if_pos negative]
            exact (orderByDistance_perm false vec matching).subperm
          · rw [if_neg negative]
            exact (take_sublist _ _).subperm.trans (orderByDistance_perm false vec matching).subperm
      obtain ⟨l, perm, sublist⟩ := drawn
      exact ⟨t, there, perm.nodup_iff.mp ((Table.rows_nodup t).sublist sublist),
        fun x member => sublist.subset (perm.mem_iff.mpr member)⟩

theorem nearest_facts (h : Host) (vec : Vector32) (limit : Int) (rerank : Bool) (filters : List FilterCondition)
    {candidates : List Row} (nodup : candidates.Nodup) :
    (nearest h vec limit rerank filters candidates).Nodup ∧ nearest h vec limit rerank filters candidates ⊆ candidates ∧
      (nearest h vec limit rerank filters candidates).length = min limit.toNat candidates.length := by
  unfold nearest
  by_cases shape : rerank = false ∧ filters = []
  · rw [if_pos shape]
    exact ⟨nodup.sublist (take_sublist _ _), take_subset _ _, length_take⟩
  · rw [if_neg shape]
    have perm := orderByDistance_perm (h := h) rerank vec candidates
    refine ⟨(perm.nodup_iff.mpr nodup).sublist (take_sublist _ _), ?_, ?_⟩
    · exact fun x member => perm.mem_iff.mp (mem_of_mem_take member)
    · rw [length_take, perm.length_eq]

/-! ### The two searches -/

/-- Without a sort the search keeps the nearest candidates. -/
theorem searchRows_none {table : String} {vec : Vector32} {limit : Int} {rerank : Bool} {filters : List FilterCondition}
    {candidates : List Row} (positive : 1 ≤ limit) (bound : 8 * limit ≤ 4096)
    (done : coarseMatches h s table vec limit rerank filters = .ok candidates) :
    ∃ rows, searchRows h s table vec limit rerank filters none = .ok rows ∧
      rows.Perm (nearest h vec limit rerank filters candidates) := by
  unfold searchRows nearest
  by_cases shape : rerank = false ∧ filters = []
  · rw [if_pos ⟨shape.1, shape.2, rfl⟩, if_pos shape]
    obtain ⟨plain, unfiltered⟩ := shape
    subst plain unfiltered
    unfold coarseMatches at done
    cases found : knn h s table vec (coarseLimit limit) with
    | error e => simp [found, bind, Except.bind] at done
    | ok rows =>
      simp only [found, filterWhere_nil, bind, Except.bind, pure, Except.pure, Bool.false_eq_true, ↓reduceIte,
        Except.ok.injEq] at done
      subst done
      rw [coarseLimit_eq positive bound] at found
      have fewer := knn_take (k := limit) (by omega) (by omega) found
      rw [fewer]
      exact ⟨_, rfl, orderByDistance_perm false vec _⟩
  · rw [if_neg (fun all => shape ⟨all.1, all.2.1⟩), if_neg shape]
    simp only [done, finalOrderBy, bind, Except.bind, pure, Except.pure, limitRows_of_nonneg (by omega : 0 ≤ limit)]
    exact ⟨_, rfl, Perm.refl _⟩

theorem searchRows_error {table : String} {vec : Vector32} {limit : Int} {rerank : Bool} {filters : List FilterCondition}
    {e : Err} (sort : Option SortSpec) (positive : 1 ≤ limit) (bound : 8 * limit ≤ 4096)
    (refused : coarseMatches h s table vec limit rerank filters = .error e) :
    ∃ e, searchRows h s table vec limit rerank filters sort = .error e := by
  unfold searchRows
  by_cases shape : rerank = false ∧ filters = [] ∧ sort = none
  · rw [if_pos shape]
    obtain ⟨plain, unfiltered, -⟩ := shape
    subst plain unfiltered
    unfold coarseMatches at refused
    cases found : knn h s table vec (coarseLimit limit) with
    | error e' =>
      rw [coarseLimit_eq positive bound] at found
      obtain ⟨e'', none⟩ := knn_error (k := limit) (by omega) (by omega) bound found
      exact ⟨e'', by rw [none]; rfl⟩
    | ok rows => simp [found, filterWhere_nil, bind, Except.bind, pure, Except.pure] at refused
  · rw [if_neg shape]
    simp [refused, bind, Except.bind]

/-- With a sort the search keeps the first candidates in the order of the sort. -/
theorem searchRows_some {table : String} {vec : Vector32} {limit : Int} {rerank : Bool} {filters : List FilterCondition}
    {candidates : List Row} (spec : SortSpec) (positive : 1 ≤ limit)
    (done : coarseMatches h s table vec limit rerank filters = .ok candidates) :
    (∃ r ∈ candidates, readable r = false) ∧
        searchRows h s table vec limit rerank filters (some spec) = .error malformedJSON ∨
      (∀ r ∈ candidates, readable r = true) ∧ ∃ ranking : List Row, ranking.Perm candidates ∧
        searchRows h s table vec limit rerank filters (some spec) = .ok (ranking.take limit.toNat) ∧
        ∀ x ∈ candidates, ∀ y ∈ candidates, candidates.Nodup → x ≠ y →
          ([x, y] <+ ranking ↔ SortsBefore h spec candidates x y) := by
  unfold searchRows
  rw [if_neg (by simp)]
  simp only [done, finalOrderBy, orderBySQL, bind, Except.bind, pure, Except.pure]
  by_cases legible : candidates.all readable = true
  · right
    refine ⟨by simpa using legible, ?_⟩
    have before (x y : Row) (left : x ∈ candidates) (right : y ∈ candidates) (nodup : candidates.Nodup) :
        x ∈ h.visit candidates ∧ y ∈ h.visit candidates ∧ (h.visit candidates).Nodup :=
      ⟨h.mem_visit.mpr left, h.mem_visit.mpr right, (h.visit_perm candidates).nodup_iff.mpr nodup⟩
    cases desc : spec.desc with
    | false =>
      refine ⟨sortBy (spec.key h) (h.visit candidates), (sortBy_perm _ _).trans (h.visit_perm _), ?_, ?_⟩
      · simp [legible, limitRows_of_nonneg (by omega : 0 ≤ limit)]
      · intro x left y right nodup different
        obtain ⟨left', right', nodup'⟩ := before x y left right nodup
        rw [before_sortBy_iff nodup' left' right' different]
        simp [SortsBefore, desc]
    | true =>
      refine ⟨sortBy (fun r => OrderDual.toDual (spec.key h r)) (h.visit candidates),
        (sortBy_perm _ _).trans (h.visit_perm _), ?_, ?_⟩
      · simp [legible, limitRows_of_nonneg (by omega : 0 ≤ limit)]
      · intro x left y right nodup different
        obtain ⟨left', right', nodup'⟩ := before x y left right nodup
        rw [before_sortBy_iff nodup' left' right' different]
        simp [SortsBefore, desc]
  · left
    rw [if_pos legible]
    refine ⟨?_, rfl⟩
    simpa using legible

/-! ### The result -/

theorem search_eq {coll : Collection} {text : String} {limit : Int} {rerank : Bool} {filters : List FilterCondition}
    {sort : Option SortSpec} (vector : coll.hasVector = true) :
    search h s coll text limit rerank filters sort =
      match h.embed text with
      | .error e => .error (.wrapped "embedding query" e)
      | .ok vec =>
        match searchRows h s coll.tableName vec limit rerank filters sort with
        | .error e => .error (.wrapped "searching documents" e)
        | .ok rows => .ok (rows.map fun r => ⟨r.id, r.text, r.data, some (distance h rerank vec r)⟩) := by
  unfold search searchDocuments
  simp only [vector, Bool.not_true, Bool.false_eq_true, ↓reduceIte, Prog.bind_eq]
  cases embedded : h.embed text with
  | error e => simp [embed, Prog.call, Prog.bind, Machine.eval, Machine.run, machine, Stmt.exec, embedded, Except.map]
  | ok vec =>
    cases rows : searchRows h s coll.tableName vec limit rerank filters sort with
    | error e =>
      simp [embed, Prog.call, Prog.bind, Machine.eval, Machine.run, machine, Stmt.exec, embedded, Except.map, rows,
        serializeFloat32]
    | ok found =>
      simp [embed, Prog.call, Prog.bind, Machine.eval, Machine.run, machine, Stmt.exec, embedded, Except.map, rows,
        serializeFloat32]

/-- Rows of one table are told apart by their documents. -/
theorem documents_same_iff {t : Table} {f : Row → Document} (identity : ∀ r, (f r).id = r.id) {a b : List Row}
    (left : a ⊆ t.rows) (right : b ⊆ t.rows) : (∀ d, d ∈ a.map f ↔ d ∈ b.map f) ↔ ∀ r, r ∈ a ↔ r ∈ b := by
  constructor
  · intro same r
    constructor
    · intro member
      obtain ⟨r', member', equal⟩ := mem_map.mp ((same (f r)).mp (mem_map.mpr ⟨r, member, rfl⟩))
      have ids : r'.id = r.id := by rw [← identity, ← identity, equal]
      rwa [← Table.row_injective t (right member') (left member) ids]
    · intro member
      obtain ⟨r', member', equal⟩ := mem_map.mp ((same (f r)).mpr (mem_map.mpr ⟨r, member, rfl⟩))
      have ids : r'.id = r.id := by rw [← identity, ← identity, equal]
      rwa [← Table.row_injective t (left member') (right member) ids]
  · intro same d
    simp only [mem_map, same]

/-- A sort returns the items that the search returns without it exactly when it
    agrees with the distance on which candidates come first. -/
theorem sort_selects_same_iff (h : Host) (s : DB) (coll : Collection) (text : String) (limit : Int) (rerank : Bool)
    (filters : List FilterCondition) (spec : SortSpec) (vector : coll.hasVector = true) (positive : 1 ≤ limit)
    (bound : 8 * limit ≤ 4096) :
    SameItems (search h s coll text limit rerank filters (some spec)) (search h s coll text limit rerank filters none) ↔
      ∀ vec, h.embed text = .ok vec →
        ∀ candidates, coarseMatches h s coll.tableName vec limit rerank filters = .ok candidates →
          SortAgrees h spec candidates (nearest h vec limit rerank filters candidates) := by
  rw [search_eq vector, search_eq vector]
  cases embedded : h.embed text with
  | error e => simp [SameItems]
  | ok vec =>
    simp only [Except.ok.injEq, forall_eq']
    cases done : coarseMatches h s coll.tableName vec limit rerank filters with
    | error e =>
      obtain ⟨e₁, refused₁⟩ := searchRows_error (some spec) positive bound done
      obtain ⟨e₂, refused₂⟩ := searchRows_error none positive bound done
      simp [refused₁, refused₂, SameItems]
    | ok candidates =>
      obtain ⟨t, -, nodup, rows⟩ := coarseMatches_ok done
      obtain ⟨unsorted, unsorted_ok, perm⟩ := searchRows_none positive bound done
      obtain ⟨nodupKept, subset, length⟩ := nearest_facts h vec limit rerank filters nodup
      simp only [Except.ok.injEq, forall_eq', unsorted_ok]
      rcases searchRows_some spec positive done with ⟨⟨r, member, deep⟩, refused⟩ | ⟨legible, ranking, ranks,
        sorted_ok, before⟩
      · simp only [refused, SameItems, false_iff]
        intro agrees
        rw [agrees.1 r member] at deep
        cases deep
      · simp only [sorted_ok, SameItems]
        have first : ranking.take limit.toNat ⊆ t.rows :=
          fun x member => rows (ranks.mem_iff.mp (mem_of_mem_take member))
        have second : unsorted ⊆ t.rows := fun x member => rows (subset (perm.mem_iff.mp member))
        rw [documents_same_iff (t := t) (fun _ => rfl) first second]
        simp only [perm.mem_iff]
        rw [selects_same_iff ranks nodup nodupKept subset length]
        constructor
        · intro all
          refine ⟨legible, ?_⟩
          intro x kept y member other
          exact (before x (subset kept) y member nodup fun same => other (same ▸ kept)).mp (all x kept y member other)
        · intro agrees x kept y member other
          exact (before x (subset kept) y member nodup fun same => other (same ▸ kept)).mpr (agrees.2 x kept y member other)

/-- A vector collection with two items at the same distance from every query. -/
def twoItems : DB :=
  (Histories.World.run Host.uniform
    [(.createCollection "v" true 8 ⟨[], List.nodup_nil⟩, []),
      (.insertDocument "v" none "first" (some (.obj [("n", .int 2)])), []),
      (.insertDocument "v" none "second" (some (.obj [("n", .int 1)])), [])] Histories.World.start).db

def ids (r : Except Err (List Document)) : Option (List Int) := r.toOption.map fun docs => docs.map (·.id)

theorem ids_of_same {r r' : Except Err (List Document)} (same : SameItems r r') {a b : List Int} (left : ids r = some a)
    (right : ids r' = some b) (n : Int) : n ∈ a ↔ n ∈ b := by
  cases r with
  | error e => cases left
  | ok docs =>
    cases r' with
    | error e => cases right
    | ok docs' =>
      have here : docs.map (·.id) = a := Option.some.inj left
      have there : docs'.map (·.id) = b := Option.some.inj right
      have each : ∀ d, d ∈ docs ↔ d ∈ docs' := same
      rw [← here, ← there]
      simp only [mem_map, each]

/-- With room for both items the sort returns both. -/
theorem sort_selects_same_twoItems :
    SameItems (search Host.uniform twoItems ⟨"v", "coll_v", true, 8⟩ "q" 2 false [] (some ⟨"n", false⟩))
        (search Host.uniform twoItems ⟨"v", "coll_v", true, 8⟩ "q" 2 false [] none) ∧
      ids (search Host.uniform twoItems ⟨"v", "coll_v", true, 8⟩ "q" 2 false [] (some ⟨"n", false⟩)) = some [2, 1] := by
  refine ⟨(sort_selects_same_iff Host.uniform twoItems ⟨"v", "coll_v", true, 8⟩ "q" 2 false [] ⟨"n", false⟩ rfl (by decide)
    (by decide)).mpr ?_, by decide⟩
  intro vec embedded candidates done
  have uniform : vec = List.replicate 8 0 := (Except.ok.inj embedded).symm
  rw [uniform] at done ⊢
  have few : (coarseMatches Host.uniform twoItems "coll_v" (List.replicate 8 0) 2 false []).toOption.map
      (fun rows => (rows.length, rows.all readable)) = some (2, true) := by decide
  have found : coarseMatches Host.uniform twoItems "coll_v" (List.replicate 8 0) 2 false [] = .ok candidates := done
  rw [found] at few
  have both : candidates.length = 2 ∧ candidates.all readable = true := by
    simpa [Except.toOption] using few
  refine ⟨by simpa using both.2, ?_⟩
  intro x kept y member other
  have all : nearest Host.uniform (List.replicate 8 0) 2 false [] candidates = candidates := by
    unfold nearest
    rw [if_pos ⟨rfl, rfl⟩]
    exact take_of_length_le (by rw [both.1]; decide)
  rw [all] at other
  exact absurd member other

/-- A host with two vectors: "far" is embedded as 1.0 in every dimension, every other
    text as 0.0. -/
def Host.nearOrFar : Host :=
  { Host.uniform with embed := fun text => .ok (List.replicate 8 (if text = "far" then 0x3f800000 else 0)) }

/-- The item next to the query is the second one by n. -/
def nearAndFar : DB :=
  (Histories.World.run Host.nearOrFar
    [(.createCollection "v" true 8 ⟨[], List.nodup_nil⟩, []),
      (.insertDocument "v" none "near" (some (.obj [("n", .int 2)])), []),
      (.insertDocument "v" none "far" (some (.obj [("n", .int 1)])), [])] Histories.World.start).db

/-- With room for one item the sort returns the one that is farther away. -/
theorem sort_changes_selection :
    ¬ ∀ (h : Host) (calls : List (Histories.Call × List Bool)) (coll : Collection) (text : String) (limit : Int)
      (rerank : Bool) (filters : List FilterCondition) (spec : SortSpec), coll.hasVector = true → 1 ≤ limit →
        8 * limit ≤ 4096 →
          SameItems (search h (Histories.World.run h calls Histories.World.start).db coll text limit rerank filters (some spec))
            (search h (Histories.World.run h calls Histories.World.start).db coll text limit rerank filters none) := by
  intro all
  have same := all Host.nearOrFar
    [(.createCollection "v" true 8 ⟨[], List.nodup_nil⟩, []),
      (.insertDocument "v" none "near" (some (.obj [("n", .int 2)])), []),
      (.insertDocument "v" none "far" (some (.obj [("n", .int 1)])), [])]
    ⟨"v", "coll_v", true, 8⟩ "near" 1 false [] ⟨"n", false⟩ rfl (by decide) (by decide)
  have sorted : ids (search Host.nearOrFar nearAndFar ⟨"v", "coll_v", true, 8⟩ "near" 1 false [] (some ⟨"n", false⟩)) = some [2] := by
    decide
  have unsorted : ids (search Host.nearOrFar nearAndFar ⟨"v", "coll_v", true, 8⟩ "near" 1 false [] none) = some [1] := by
    decide
  exact absurd ((ids_of_same same sorted unsorted 2).mp (by decide)) (by decide)

end Microserver.SortedSearch
