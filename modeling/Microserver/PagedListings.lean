import Microserver.Listings
import Microserver.TiedPages

/-!
A collection read page by page. Every page is a query of its own, and SQLite leaves
open in which order items come that the sort does not tell apart; the pages hold
every item once unless such items stand on both sides of the end of a page.
-/
namespace Microserver.PagedListings
open Microserver.Values Microserver.Store Microserver.Programs Microserver.Statements Microserver.Operations
open Microserver.Schema Microserver.Items Microserver.Ranking Microserver.Queries Microserver.Exports Microserver.TiedPages
open Microserver.Listings Microserver.Histories Microserver.Reachable

/-- An order in which a query comes upon rows. -/
structure Order where
  visit : ∀ {α : Type}, List α → List α
  visit_perm : ∀ {α : Type} (rows : List α), (visit rows).Perm rows

/-- The host, with rows coming in this order. -/
def inOrder (h : Host) (o : Order) : Host := { h with visit := o.visit, visit_perm := o.visit_perm }

/-- The page of this number, which a query of its own reads. -/
def readPage (h : Host) (s : DB) (coll : Collection) (filters : List FilterCondition) (sort : Option SortSpec) (size : Nat)
    (orders : Nat → Order) (k : Nat) : Except Err (List Document) :=
  ((machine (inOrder h (orders k))).eval (listDocuments coll size (k * size : Nat) filters sort) s).1

/-- The pages from number `k` on, up to one that is short. -/
def concatenate (query : Nat → Except Err (List Document)) (size : Nat) : Nat → Nat → Option (Except Err (List Document))
  | 0, _ => none
  | fuel + 1, k =>
    match query k with
    | .error e => some (.error e)
    | .ok docs => if docs.length < size then some (.ok docs)
      else (concatenate query size fuel (k + 1)).map fun rest => rest.map fun more => docs ++ more

/-- The pages come to an end, and hold every item that meets the filters exactly once. -/
def Covers (h : Host) (s : DB) (coll : Collection) (filters : List FilterCondition) (sort : Option SortSpec) (size : Nat)
    (orders : Nat → Order) : Prop :=
  ∃ fuel docs, concatenate (readPage h s coll filters sort size orders) size fuel 0 = some (.ok docs) ∧
    docs.Perm (((items s coll.tableName).filter (meets h filters)).map (document coll))

/-- The query looks into no item, or can read all of them. -/
def Legible (s : DB) (coll : Collection) (filters : List FilterCondition) (sort : Option SortSpec) : Prop :=
  filters = [] ∧ sort = none ∨ ∀ r ∈ items s coll.tableName, readable r = true

/-- Items that the sort does not tell apart stand on both sides of position `m`. -/
def Tied (h : Host) (spec : SortSpec) (rows : List Row) (m : Nat) : Prop :=
  if spec.desc then Straddles (fun r => OrderDual.toDual (spec.key h r)) rows m else Straddles (spec.key h) rows m

/-- The rows as the sort arranges them when they come in this order. -/
def arrange (h : Host) (spec : SortSpec) (visited : List Row) : List Row :=
  if spec.desc then sortBy (fun r => OrderDual.toDual (spec.key h r)) visited else sortBy (spec.key h) visited

variable {h : Host} {s : DB} {coll : Collection} {filters : List FilterCondition} {sort : Option SortSpec} {spec : SortSpec}
  {size fuel fuel' k n : Nat} {orders : Nat → Order} {o : Order} {t : Table} {query : Nat → Except Err (List Document)}
  {docs : List Document} {rows : List Row}

/-! ### Concatenation -/

theorem concatenate_mono {r : Except Err (List Document)} (done : concatenate query size fuel k = some r) (more : fuel ≤ fuel') :
    concatenate query size fuel' k = some r := by
  induction fuel generalizing fuel' k r with
  | zero => cases done
  | succ fuel ih =>
    obtain ⟨fuel', rfl⟩ : ∃ f, fuel' = f + 1 := ⟨fuel' - 1, by omega⟩
    unfold concatenate at done ⊢
    cases page : query k with
    | error e => simpa [page] using done
    | ok docs =>
      simp only [page] at done ⊢
      split
      · rename_i short
        rwa [if_pos short] at done
      · rename_i full
        rw [if_neg full] at done
        obtain ⟨rest, later, rfl⟩ := Option.map_eq_some_iff.mp done
        rw [ih later (by omega)]
        rfl

/-- The pages end with one that is short. -/
theorem concatenate_last (done : concatenate query size fuel k = some (.ok docs)) :
    ∃ last page, query last = .ok page ∧ page.length < size := by
  induction fuel generalizing k docs with
  | zero => cases done
  | succ fuel ih =>
    unfold concatenate at done
    cases page : query k with
    | error e => simp [page] at done
    | ok docs' =>
      simp only [page] at done
      by_cases short : docs'.length < size
      · exact ⟨k, docs', page, short⟩
      · rw [if_neg short] at done
        obtain ⟨rest, later, joined⟩ := Option.map_eq_some_iff.mp done
        cases rest with
        | error e => cases joined
        | ok more => exact ih later

/-- Pages of lists of one length add up to what TiedPages makes of them. -/
theorem concatenate_pages {lists : Nat → List Row} (positive : 0 < size) (length : ∀ k, (lists k).length = n)
    (each : ∀ k, query k = .ok ((((lists k).drop (k * size)).take size).map (document coll))) :
    concatenate query size (n / size + 1) 0 = some (.ok ((pages lists size (n / size + 1)).map (document coll))) := by
  have split := Nat.div_add_mod' n size
  have rest := Nat.mod_lt n positive
  have joined (fuel k : Nat) (left : fuel + k = n / size) : ∃ rows, concatenate query size (fuel + 1) k =
      some (.ok (rows.map (document coll))) ∧ pages lists size k ++ rows = pages lists size (n / size + 1) := by
    induction fuel generalizing k with
    | zero =>
      obtain rfl : k = n / size := by omega
      refine ⟨((lists (n / size)).drop (n / size * size)).take size, ?_, (pages_succ lists size _).symm⟩
      have short : ((((lists (n / size)).drop (n / size * size)).take size).map (document coll)).length < size := by
        simp only [List.length_map, List.length_take, List.length_drop, length]
        omega
      unfold concatenate
      simp only [each, if_pos short]
    | succ fuel ih =>
      obtain ⟨rows, later, all⟩ := ih (k + 1) (by omega)
      refine ⟨((lists k).drop (k * size)).take size ++ rows, ?_, ?_⟩
      · have full : ¬ ((((lists k).drop (k * size)).take size).map (document coll)).length < size := by
          have ahead : (k + 1) * size ≤ n / size * size := Nat.mul_le_mul_right size (by omega)
          rw [Nat.succ_mul] at ahead
          simp only [List.length_map, List.length_take, List.length_drop, length]
          omega
        unfold concatenate
        simp only [each, if_neg full, later]
        simp [Except.map]
      · rw [← List.append_assoc, ← pages_succ, all]
  obtain ⟨rows, done, all⟩ := joined (n / size) 0 rfl
  rw [done, ← all]
  simp [pages]

/-! ### Pages -/

theorem arrange_perm (visited : List Row) : (arrange h spec visited).Perm visited := by
  unfold arrange
  split <;> exact sortBy_perm _ _

theorem orderBySQL_arrange (legible : rows.all readable = true) : orderBySQL h spec rows = .ok (arrange h spec (h.visit rows)) := by
  unfold orderBySQL arrange
  rw [if_neg (by simp [legible])]
  split <;> rfl

/-- The rows that the pages are cut from. -/
def listed (h : Host) (t : Table) (filters : List FilterCondition) (sort : Option SortSpec) (o : Order) : List Row :=
  match sort with
  | none => (sortBy (·.id) t.rows).filter (meets h filters)
  | some spec => arrange h spec (o.visit (t.rows.filter (meets h filters)))

theorem listed_perm : (listed h t filters sort o).Perm (t.rows.filter (meets h filters)) := by
  cases sort with
  | none => exact (sortBy_perm _ _).filter _
  | some spec => exact (arrange_perm _).trans (o.visit_perm _)

theorem readPage_ok (there : s.docs coll.tableName = .ok t) (columns : (coll.hasVector && t.kind = .plain) = false)
    (legible : Legible s coll filters sort) (k : Nat) : readPage h s coll filters sort size orders k =
      .ok ((((listed h t filters sort (orders k)).drop (k * size)).take size).map (document coll)) := by
  have query : listQuery coll size (k * size : Nat) filters sort (inOrder h (orders k)) s =
      .ok ((((listed h t filters sort (orders k)).drop (k * size)).take size).map (document coll)) := by
    unfold Legible at legible
    rw [items_of_docs there, ← List.all_eq_true] at legible
    cases sort with
    | none =>
      rcases legible with ⟨rfl, -⟩ | legible
      · rw [listQuery_eq there columns]
        simp [listed, filter_meets_nil]
      · exact listQuery_readable there columns size (k * size) filters legible
    | some spec =>
      have legible : t.rows.all readable = true := by
        rcases legible with ⟨-, impossible⟩ | legible
        · cases impossible
        · exact legible
      rw [listQuery_rows there columns]
      unfold listRows
      simp only [filterWhere_readable fun _ => List.all_eq_true.mp legible, orderBySQL_arrange (all_readable_filter legible)]
      rfl
  unfold readPage
  rw [eval_listDocuments, query]
  rfl

/-- Pages that come to an end have read all items, when they look into them. -/
theorem legible_of_covers (there : s.docs coll.tableName = .ok t) (columns : (coll.hasVector && t.kind = .plain) = false)
    (covers : Covers h s coll filters sort size orders) : Legible s coll filters sort := by
  obtain ⟨fuel, docs, done, -⟩ := covers
  obtain ⟨k, page, last, short⟩ := concatenate_last done
  unfold readPage at last
  rw [eval_listDocuments, listQuery_rows there columns] at last
  unfold Legible
  rw [items_of_docs there]
  cases rows : listRows (inOrder h (orders k)) t size (k * size : Nat) filters sort with
  | error e =>
    rw [rows] at last
    cases last
  | ok found =>
    rw [rows] at last
    obtain rfl := Except.ok.inj last
    unfold listRows at rows
    cases sort with
    | none =>
      by_cases none : filters = []
      · exact .inl ⟨none, rfl⟩
      · right
        have sorted (r : Row) : r ∈ sortBy (·.id) t.rows ↔ r ∈ t.rows := (sortBy_perm _ _).mem_iff
        dsimp only at rows
        split at rows
        · refine fun r member => scan_short none rows ?_ r ((sorted r).mpr member)
          simp only [List.length_map, List.length_take, List.length_drop] at short
          simp only [Int.toNat_natCast]
          omega
        · exact fun r member => (filterWhere_ok rows).2 none r ((sorted r).mpr member)
    | some spec =>
      right
      dsimp only at rows
      cases filtered : filterWhere (inOrder h (orders k)) filters t.rows with
      | error e => simp [filtered] at rows
      | ok matching =>
        by_cases none : filters = []
        · subst none
          have all : matching = t.rows := by
            obtain rfl := Except.ok.inj filtered
            exact filter_meets_nil t.rows
          rw [filtered, all] at rows
          unfold orderBySQL at rows
          by_contra unreadable
          rw [← List.all_eq_true] at unreadable
          simp [unreadable] at rows
        · exact (filterWhere_ok filtered).2 none

theorem concatenate_listed (there : s.docs coll.tableName = .ok t) (columns : (coll.hasVector && t.kind = .plain) = false)
    (legible : Legible s coll filters sort) (positive : 0 < size) :
    concatenate (readPage h s coll filters sort size orders) size ((t.rows.filter (meets h filters)).length / size + 1) 0 =
      some (.ok ((pages (fun k => listed h t filters sort (orders k)) size
        ((t.rows.filter (meets h filters)).length / size + 1)).map (document coll))) :=
  concatenate_pages positive (fun _ => listed_perm.length_eq) (readPage_ok there columns legible)

theorem enough (n : Nat) (positive : 0 < size) : n ≤ (n / size + 1) * size := by
  have split := Nat.div_add_mod' n size
  have rest := Nat.mod_lt n positive
  rw [Nat.succ_mul]
  omega

theorem covers_of_perm (there : s.docs coll.tableName = .ok t) (columns : (coll.hasVector && t.kind = .plain) = false)
    (legible : Legible s coll filters sort) (positive : 0 < size)
    (perm : (pages (fun k => listed h t filters sort (orders k)) size ((t.rows.filter (meets h filters)).length / size + 1)).Perm
      (t.rows.filter (meets h filters))) : Covers h s coll filters sort size orders := by
  refine ⟨_, _, concatenate_listed there columns legible positive, ?_⟩
  rw [items_of_docs there]
  exact perm.map _

theorem nodup_of_covers (there : s.docs coll.tableName = .ok t) (columns : (coll.hasVector && t.kind = .plain) = false)
    (positive : 0 < size) (covers : Covers h s coll filters sort size orders) :
    (pages (fun k => listed h t filters sort (orders k)) size ((t.rows.filter (meets h filters)).length / size + 1)).Nodup := by
  have legible := legible_of_covers there columns covers
  obtain ⟨fuel, docs, done, perm⟩ := covers
  have whole : concatenate (readPage h s coll filters sort size orders) size
      ((t.rows.filter (meets h filters)).length / size + 1) 0 = some (.ok _) :=
    concatenate_listed there columns legible positive
  have other := concatenate_mono whole (le_max_right fuel _)
  rw [concatenate_mono done (le_max_left fuel _), Option.some.injEq, Except.ok.injEq] at other
  rw [items_of_docs there, other] at perm
  have ids := perm.map (·.id)
  simp only [List.map_map, Function.comp_def, document_id] at ids
  exact .of_map _ (ids.nodup_iff.mpr (t.key.sublist (List.filter_sublist.map _)))

/-- The order in which rows are stored, and the one backwards. -/
def forwards : Order := ⟨fun rows => rows, fun _ => .refl _⟩
def backwards : Order := ⟨fun rows => rows.reverse, fun rows => List.reverse_perm rows⟩

theorem listed_forwards_backwards (q : Nat) : (fun k => listed h t filters (some spec) (if k = q then backwards else forwards)) =
    fun k => if k = q then arrange h spec (t.rows.filter (meets h filters)).reverse else arrange h spec (t.rows.filter (meets h filters)) := by
  funext k
  by_cases here : k = q
  · rw [if_pos here, if_pos here]
    rfl
  · rw [if_neg here, if_neg here]
    rfl

/-- A tie at the end of a page makes pages repeat an item in some order. -/
theorem repeats_of_tied (positive : 0 < size) (tied : Tied h spec (t.rows.filter (meets h filters)) (k * size)) :
    ∃ orders : Nat → Order, ¬ (pages (fun k => listed h t filters (some spec) (orders k)) size
      ((t.rows.filter (meets h filters)).length / size + 1)).Nodup := by
  have nodup : (t.rows.filter (meets h filters)).Nodup := (List.Nodup.of_map _ t.key).filter _
  obtain ⟨q, repeated⟩ : ∃ q, ¬ (pages (fun k => if k = q then arrange h spec (t.rows.filter (meets h filters)).reverse
      else arrange h spec (t.rows.filter (meets h filters))) size ((t.rows.filter (meets h filters)).length / size + 1)).Nodup := by
    unfold Tied at tied
    unfold arrange
    by_cases desc : spec.desc = true
    · simp only [if_pos desc] at tied ⊢
      exact pages_repeat nodup positive tied (enough _ positive)
    · simp only [if_neg desc] at tied ⊢
      exact pages_repeat nodup positive tied (enough _ positive)
  refine ⟨fun k => if k = q then backwards else forwards, ?_⟩
  rwa [listed_forwards_backwards]

theorem pages_listed_perm (positive : 0 < size)
    (apart : ∀ spec, sort = some spec → ∀ k, ¬ Tied h spec (t.rows.filter (meets h filters)) (k * size)) :
    (pages (fun k => listed h t filters sort (orders k)) size ((t.rows.filter (meets h filters)).length / size + 1)).Perm
      (t.rows.filter (meets h filters)) := by
  cases sort with
  | none =>
    have distinct : ((t.rows.filter (meets h filters)).map (·.id)).Nodup := t.key.sublist (List.filter_sublist.map _)
    have arranged : Arranged (·.id) (t.rows.filter (meets h filters)) ((sortBy (·.id) t.rows).filter (meets h filters)) :=
      ⟨(sortBy_perm _ _).filter _, (sortBy_pairwise _ _).filter _⟩
    exact pages_perm (fun _ => arranged) (fun k => not_straddles distinct (k * size)) (enough _ positive)
  | some spec =>
    have untied := apart spec rfl
    unfold Tied at untied
    unfold listed arrange
    by_cases desc : spec.desc = true
    · simp only [if_pos desc] at untied ⊢
      exact pages_perm (fun k => arranged_sortBy ((orders k).visit_perm _)) untied (enough _ positive)
    · simp only [if_neg desc] at untied ⊢
      exact pages_perm (fun k => arranged_sortBy ((orders k).visit_perm _)) untied (enough _ positive)

/-- After any run of calls, the pages of an unchanging collection cover the items that
    meet the filters, in whatever order each query comes upon the rows, exactly when
    the query reads what it looks into and no items that the sort does not tell apart
    stand on both sides of the end of a page. -/
theorem paging_covers_iff (h : Host) (calls : List (Call × List Bool)) (coll : Collection) (filters : List FilterCondition)
    (sort : Option SortSpec) (size : Nat) (registered : coll ∈ (reached h calls).collections) (positive : 1 ≤ size) :
    (∀ orders, Covers h (reached h calls) coll filters sort size orders) ↔ Legible (reached h calls) coll filters sort ∧
      ∀ spec, sort = some spec → ∀ k, ¬ Tied h spec ((items (reached h calls) coll.tableName).filter (meets h filters)) (k * size) := by
  have sound : Sound (reached h calls) := (run_coherent h calls).sound
  obtain ⟨t, there, -, columns⟩ := docs_registered sound registered
  rw [items_of_docs there]
  constructor
  · intro all
    refine ⟨legible_of_covers there columns (all fun _ => forwards), ?_⟩
    rintro spec rfl k tied
    obtain ⟨orders, repeated⟩ := repeats_of_tied positive tied
    exact repeated (nodup_of_covers there columns positive (all orders))
  · rintro ⟨legible, apart⟩ orders
    exact covers_of_perm there columns legible positive (pages_listed_perm positive apart)

/-- A collection with two items that have these prices. -/
def twoPrices (first second : Int) : List (Call × List Bool) :=
  [(.createCollection "a" false 0 ⟨[], List.nodup_nil⟩, []), (.insertDocument "a" none "" (some (.obj [("precio", .int first)])), []),
    (.insertDocument "a" none "" (some (.obj [("precio", .int second)])), [])]

/-- The collection of these items. -/
def priced : Collection := ⟨"a", "coll_a", false, 0⟩

theorem items_twoPrices (first second : Int) : items (reached Host.uniform (twoPrices first second)) "coll_a" =
    [⟨1, "", .obj [("precio", .int first)], []⟩, ⟨2, "", .obj [("precio", .int second)], []⟩] := rfl

/-- Different prices are paged one by one, also where the second query comes upon the
    rows in the opposite order. -/
theorem paging_covers_prices :
    Covers Host.uniform (reached Host.uniform (twoPrices 45 15)) priced [] (some ⟨"precio", false⟩) 1
      (fun k => if k = 1 then backwards else forwards) := by
  refine (paging_covers_iff Host.uniform (twoPrices 45 15) priced [] (some ⟨"precio", false⟩) 1 (by decide)
    le_rfl).mpr ⟨.inr ?_, ?_⟩ _
  · show ∀ r ∈ items (reached Host.uniform (twoPrices 45 15)) "coll_a", readable r = true
    rw [items_twoPrices]
    decide
  · rintro _ ⟨⟩ k
    show ¬ Tied _ _ ((items (reached Host.uniform (twoPrices 45 15)) "coll_a").filter _) _
    rw [items_twoPrices]
    exact not_straddles (by decide) _

/-- Of two items with one price, one page each, the pages can repeat one and omit the other. -/
theorem equal_prices_not_covered :
    ¬ ∀ (h : Host) (calls : List (Call × List Bool)) (coll : Collection) (filters : List FilterCondition) (sort : Option SortSpec)
      (size : Nat), coll ∈ (reached h calls).collections → 1 ≤ size → size ≤ maxListLimit →
        ∀ orders, Covers h (reached h calls) coll filters sort size orders := by
  intro all
  have covers := all Host.uniform (twoPrices 15 15) priced [] (some ⟨"precio", false⟩) 1 (by decide) le_rfl (by decide)
  have sound : Sound (reached Host.uniform (twoPrices 15 15)) := (run_coherent Host.uniform _).sound
  obtain ⟨t, there, -, columns⟩ := docs_registered (c := priced) sound (by decide)
  have tied : Tied Host.uniform ⟨"precio", false⟩ (t.rows.filter (meets Host.uniform [])) (1 * 1) := by
    rw [filter_meets_nil, ← items_of_docs there]
    show Straddles _ (items (reached Host.uniform (twoPrices 15 15)) "coll_a") 1
    rw [items_twoPrices]
    decide
  obtain ⟨orders, repeated⟩ := repeats_of_tied (by decide) tied
  exact repeated (nodup_of_covers there columns (by decide) (covers orders))

end Microserver.PagedListings
