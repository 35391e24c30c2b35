import Microserver.Evaluations
import Microserver.Exports
import Microserver.Reachable

/-!
What listDocuments returns: the page of the items that meet the filters, as long
as json_extract reads the items that the query looks at. A scan of a plain table
stops when the page is full, and does not look at the items behind it.
-/
namespace Microserver.Listings
open Microserver.Values Microserver.Store Microserver.Programs Microserver.Statements Microserver.Operations
open Microserver.Schema Microserver.Items Microserver.Ranking Microserver.Queries Microserver.Exports
open Microserver.Evaluations

variable {h : Host} {s : DB} {c coll : Collection} {t : Table} {row u : Row} {filters : List FilterCondition}
  {rows before after : List Row}

/-- The item meets all filters. -/
def meets (h : Host) (filters : List FilterCondition) (r : Row) : Bool := filters.all fun c => c.holds h r.data

/-- The items that meet the filters. -/
abbrev matching (h : Host) (filters : List FilterCondition) (rows : List Row) : List Row := rows.filter (meets h filters)

theorem docs_registered (sound : Sound s) (registered : c ∈ s.collections) :
    ∃ t, s.docs c.tableName = .ok t ∧ t.kind = mainKind c ∧ (c.hasVector && t.kind = .plain) = false := by
  obtain ⟨t, there, kind⟩ := sound.main c registered
  refine ⟨t, ?_, kind, ?_⟩
  · cases vector : c.hasVector with
    | false => exact DB.docs_of_find there (.inl (by rw [kind, mainKind, vector]; rfl))
    | true => exact DB.docs_of_find there (.inr ⟨c.dimensions, by rw [kind, mainKind, vector]; rfl⟩)
  · cases vector : c.hasVector with
    | false => rfl
    | true =>
      rw [kind, mainKind, vector]
      rfl

theorem readable_iff : readable row = true ↔ row.data.depth ≤ jsonMaxDepth := by simp [readable]

theorem all_readable_filter {p : Row → Bool} (legible : rows.all readable = true) : (rows.filter p).all readable = true := by
  rw [List.all_eq_true] at legible ⊢
  exact fun r member => legible r (List.mem_filter.mp member).1

theorem filterWhere_readable (legible : filters ≠ [] → ∀ r ∈ rows, readable r = true) :
    filterWhere h filters rows = .ok (matching h filters rows) :=
  if_neg fun both => both.2 (List.all_eq_true.mpr (legible both.1))

theorem filterWhere_unreadable (given : filters ≠ []) (member : u ∈ rows) (unreadable : readable u = false) :
    filterWhere h filters rows = .error malformedJSON := by
  refine if_pos ⟨given, ?_⟩
  rw [List.all_eq_true]
  intro all
  rw [all u member] at unreadable
  cases unreadable

/-- A scan passes readable items and keeps those that meet the filters. -/
theorem scan_append (filters : List FilterCondition) (n : Nat) (after : List Row) (legible : filters ≠ [] → ∀ r ∈ before, readable r = true) :
    scan h filters n (before ++ after) = (scan h filters (n - (before.filter (meets h filters)).length) after).map
      fun found => (before.filter (meets h filters)).take n ++ found := by
  induction before generalizing n with
  | nil => cases found : scan h filters n after <;> simp [found, Except.map]
  | cons r rest ih =>
    have later : filters ≠ [] → ∀ r ∈ rest, readable r = true := fun given r' member => legible given r' (List.mem_cons_of_mem r member)
    cases n with
    | zero => simp [scan, Except.map]
    | succ n =>
      have passes : ¬ (filters ≠ [] ∧ ¬ readable r = true) := fun both => both.2 (legible both.1 r List.mem_cons_self)
      have step : scan h filters (n + 1) (r :: (rest ++ after)) =
          if meets h filters r = true then (scan h filters n (rest ++ after)).map (fun found => r :: found)
          else scan h filters (n + 1) (rest ++ after) := by
        rw [scan, if_neg passes]
        rfl
      rw [List.cons_append, step]
      by_cases kept : meets h filters r = true
      · rw [if_pos kept, ih n later, List.filter_cons_of_pos kept, List.length_cons, Nat.add_sub_add_right, List.take_succ_cons]
        cases scan h filters (n - (rest.filter (meets h filters)).length) after <;> rfl
      · rw [if_neg kept, ih (n + 1) later, List.filter_cons_of_neg kept]

theorem scan_readable (n : Nat) (legible : filters ≠ [] → ∀ r ∈ rows, readable r = true) :
    scan h filters n rows = .ok ((matching h filters rows).take n) := by
  have scanned := scan_append (h := h) filters n [] legible
  rw [List.append_nil] at scanned
  rw [scanned]
  cases n - (rows.filter (meets h filters)).length <;> simp [scan, Except.map]

/-- A scan that is not full when it comes to an unreadable item fails. -/
theorem scan_unreadable (n : Nat) (after : List Row) (given : filters ≠ []) (legible : ∀ r ∈ before, readable r = true)
    (unreadable : readable u = false) : scan h filters n (before ++ u :: after) =
      if n ≤ (before.filter (meets h filters)).length then .ok ((before.filter (meets h filters)).take n) else .error malformedJSON := by
  rw [scan_append filters n _ fun _ => legible]
  split
  · rename_i full
    rw [Nat.sub_eq_zero_of_le full]
    simp [scan, Except.map]
  · rename_i few
    obtain ⟨k, more⟩ : ∃ k, n - (before.filter (meets h filters)).length = k + 1 := ⟨_, (Nat.sub_add_cancel (by omega)).symm⟩
    rw [more, scan, if_pos ⟨given, by simp [unreadable]⟩]
    rfl

/-- The items that a scan in the order of ids has looked at when it finds an item. -/
theorem scan_sees {n : Nat} {found : List Row} (ascending : rows.Pairwise (·.id < ·.id)) (given : filters ≠ [])
    (scanned : scan h filters n rows = .ok found) (member : row ∈ found) :
    (row ∈ rows ∧ meets h filters row = true) ∧ ∀ r ∈ rows, r.id ≤ row.id → readable r = true := by
  cases first : rows.find? fun r => !readable r with
  | none =>
    have each : ∀ r ∈ rows, readable r = true := fun r there => by simpa using List.find?_eq_none.mp first r there
    rw [scan_readable n fun _ => each] at scanned
    obtain rfl := Except.ok.inj scanned
    exact ⟨List.mem_filter.mp (List.mem_of_mem_take member), fun r there _ => each r there⟩
  | some u =>
    obtain ⟨unreadable, before, after, rfl, passed⟩ := List.find?_eq_some_iff_append.mp first
    have each : ∀ r ∈ before, readable r = true := fun r there => by simpa using passed r there
    rw [scan_unreadable n after given each (by simpa using unreadable)] at scanned
    split at scanned
    · obtain rfl := Except.ok.inj scanned
      obtain ⟨here, kept⟩ := List.mem_filter.mp (List.mem_of_mem_take member)
      obtain ⟨-, beyond, across⟩ := List.pairwise_append.mp ascending
      refine ⟨⟨List.mem_append_left _ here, kept⟩, fun r there below => ?_⟩
      rcases List.mem_append.mp there with early | late
      · exact each r early
      · exact absurd (across row here r late) (not_lt.mpr below)
    · cases scanned

/-- An item that meets the filters is found by a scan of the items up to it. -/
theorem scan_reaches (filters : List FilterCondition) (ascending : rows.Pairwise (·.id < ·.id)) (member : row ∈ rows)
    (kept : meets h filters row = true) (seen : ∀ r ∈ rows, r.id ≤ row.id → readable r = true) :
    ∃ skipped, scan h filters (skipped.length + 1) rows = .ok (skipped ++ [row]) := by
  obtain ⟨before, after, rfl⟩ := List.append_of_mem member
  obtain ⟨-, -, across⟩ := List.pairwise_append.mp ascending
  have legible : ∀ r ∈ before ++ [row], readable r = true := by
    intro r there
    rcases List.mem_append.mp there with early | last
    · exact seen r (List.mem_append_left _ early) (across r early row List.mem_cons_self).le
    · exact seen r (List.mem_append_right _ (List.mem_cons.mpr (.inl (List.mem_singleton.mp last)))) (by
        rw [List.mem_singleton.mp last])
  refine ⟨before.filter (meets h filters), ?_⟩
  have scanned := scan_append (h := h) filters ((before.filter (meets h filters)).length + 1) after fun _ => legible
  have both : (before ++ [row]).filter (meets h filters) = before.filter (meets h filters) ++ [row] := by
    simp [List.filter_append, kept]
  rw [List.append_assoc, List.singleton_append] at scanned
  rw [scanned, both, List.take_of_length_le (by simp)]
  simp [scan, Except.map]

/-- A scan that is not full at the end has looked at all items. -/
theorem scan_short {n : Nat} {found : List Row} (given : filters ≠ []) (scanned : scan h filters n rows = .ok found)
    (short : found.length < n) : ∀ r ∈ rows, readable r = true := by
  cases first : rows.find? fun r => !readable r with
  | none => exact fun r there => by simpa using List.find?_eq_none.mp first r there
  | some u =>
    obtain ⟨unreadable, before, after, rfl, passed⟩ := List.find?_eq_some_iff_append.mp first
    have each : ∀ r ∈ before, readable r = true := fun r there => by simpa using passed r there
    rw [scan_unreadable n after given each (by simpa using unreadable)] at scanned
    split at scanned
    · obtain rfl := Except.ok.inj scanned
      rw [List.length_take] at short
      omega
    · cases scanned

theorem filter_meets_nil (rows : List Row) : rows.filter (meets h []) = rows := List.filter_eq_self.mpr fun _ _ => rfl

theorem filterWhere_ok {found : List Row} (done : filterWhere h filters rows = .ok found) :
    found = matching h filters rows ∧ (filters ≠ [] → ∀ r ∈ rows, readable r = true) := by
  have legible : filters ≠ [] → ∀ r ∈ rows, readable r = true := by
    intro given r there
    by_contra unreadable
    rw [filterWhere_unreadable given there (by simpa using unreadable)] at done
    cases done
  rw [filterWhere_readable legible] at done
  exact ⟨(Except.ok.inj done).symm, legible⟩

theorem eval_listDocuments (limit offset : Int) (filters : List FilterCondition) (sort : Option SortSpec) :
    (machine h).eval (listDocuments coll limit offset filters sort) s =
      ((listQuery coll limit offset filters sort h s).mapError (.wrapped "listing documents"), s) := eval_read _ _

theorem eval_listDocuments_ok_iff {limit offset : Int} {sort : Option SortSpec} {docs : List Document} :
    (machine h).eval (listDocuments coll limit offset filters sort) s = (.ok docs, s) ↔
      listQuery coll limit offset filters sort h s = .ok docs := by
  rw [eval_listDocuments]
  cases listQuery coll limit offset filters sort h s <;> simp [Except.mapError]

theorem readable_sorted (legible : t.rows.all readable = true) : (sortBy (·.id) t.rows).all readable = true := by
  rw [List.all_eq_true] at legible ⊢
  exact fun r member => legible r ((sortBy_perm _ _).subset member)

theorem listRows_readable (t : Table) (limit offset : Nat) (filters : List FilterCondition) (legible : t.rows.all readable = true) :
    (listRows h t limit offset filters none).map (fun rows => (rows.drop offset).take limit) =
      .ok ((((sortBy (·.id) t.rows).filter (meets h filters)).drop offset).take limit) := by
  have sorted := readable_sorted legible
  unfold listRows
  by_cases plain : t.kind = .plain ∧ 0 ≤ (limit : Int)
  · simp only [if_pos plain, Int.toNat_natCast, scan_readable _ fun _ => List.all_eq_true.mp sorted, Except.map]
    rw [List.drop_take, Nat.add_sub_cancel_left, List.take_take, Nat.min_self]
  · simp only [if_neg plain, filterWhere_readable fun _ => List.all_eq_true.mp sorted, Except.map]

/-- The listing without a sort is a page of the items that meet the filters, in
    the order of their ids. -/
theorem listQuery_readable (there : s.docs coll.tableName = .ok t) (columns : (coll.hasVector && t.kind = .plain) = false)
    (limit offset : Nat) (filters : List FilterCondition) (legible : t.rows.all readable = true) :
    listQuery coll limit offset filters none h s =
      .ok (((((sortBy (·.id) t.rows).filter (meets h filters)).drop offset).take limit).map (document coll)) :=
  listQuery_of_rows there columns (listRows_readable t limit offset filters legible)

theorem table_ascending (t : Table) : (sortBy (·.id) t.rows).Pairwise (·.id < ·.id) := List.pairwise_map.mp (sortBy_ascending t.key)

/-- The items that the listing without a sort has looked at when it finds an item:
    a plain table is read up to the item, a table of vec0 as a whole. -/
theorem listRows_sees {limit offset : Nat} {found : List Row} (given : filters ≠ [])
    (listed : listRows h t limit offset filters none = .ok found) (member : row ∈ found) :
    (row ∈ t.rows ∧ meets h filters row = true) ∧ ∀ r ∈ t.rows, (t.kind = .plain → r.id ≤ row.id) → readable r = true := by
  have sorted (r : Row) : r ∈ sortBy (·.id) t.rows ↔ r ∈ t.rows := (sortBy_perm _ _).mem_iff
  unfold listRows at listed
  by_cases plain : t.kind = .plain
  · simp only [plain, Int.natCast_nonneg, and_self, ↓reduceIte] at listed
    obtain ⟨⟨here, kept⟩, seen⟩ := scan_sees (table_ascending t) given listed member
    exact ⟨⟨(sorted row).mp here, kept⟩, fun r there below => seen r ((sorted r).mpr there) (below plain)⟩
  · simp only [plain, false_and, ↓reduceIte] at listed
    obtain ⟨rfl, legible⟩ := filterWhere_ok listed
    obtain ⟨here, kept⟩ := List.mem_filter.mp member
    exact ⟨⟨(sorted row).mp here, kept⟩, fun r there _ => legible given r ((sorted r).mpr there)⟩

end Microserver.Listings
