import Microserver.Groupings
import Microserver.DeepData

/-!
The results of a count with `group_by`. SQLite groups by the values of the field,
and a result carries only the text of its group's value. The results tell the
groups apart, and each item is counted under the text of its own value, exactly
when among the matching items values are equal where their texts are.
-/
namespace Microserver.GroupLabels
open Microserver.Values Microserver.Store Microserver.Programs Microserver.Statements Microserver.Operations Microserver.Reads
open Microserver.Ranking Microserver.Queries Microserver.ReadHandlers Microserver.Listings Microserver.Evaluations
open Microserver.Histories Microserver.Reachable Microserver.DeepData Microserver.Groupings

/-- The value of a row at the field that is grouped by. -/
def value (h : Host) (g : String) (r : Row) : SqlValue := jsonExtract h.jsonText r.data g

/-- The text of that value; none for NULL. -/
def label (E : Engine) (h : Host) (g : String) (r : Row) : Option String := scanString E (value h g r)

/-- The value of a result as a number. -/
def amount (result : AggregateResult) : ℚ :=
  match result.value with
  | some (some (.finite x)) => x
  | _ => 0

/-- The row is one of those that the result at a position counts. -/
def CountedIn (h : Host) (g : String) (rows : List Row) (r : Row) (i : Nat) : Prop :=
  ∃ group, (groups h g rows)[i]? = some group ∧ r ∈ group.2

/-- The labels are distinct, the values are the sizes of the groups and sum to the
    total, and each row is counted in one result, which is labelled with the text
    of its own value. -/
structure ToldApart (E : Engine) (h : Host) (g : String) (rows : List Row) (results : List AggregateResult)
    (total : AggregateResult) : Prop where
  distinct : (results.map (·.group)).Nodup
  sizes : results.map amount = (groups h g rows).map fun group => (group.2.length : ℚ)
  sums : (results.map amount).sum = amount total
  counted : ∀ r ∈ rows, ∃ i result, results[i]? = some result ∧ CountedIn h g rows r i ∧ result.group = label E h g r ∧
    ∀ j, CountedIn h g rows r j → j = i

/-- The two counts are answered, and the groups are told apart. -/
def Answers (E : Engine) (h : Host) (s : DB) (coll : Collection) (filters : List FilterCondition) (g : String) (t : Table) : Prop :=
  ∃ results total, (machine h).eval (aggregateDocuments E coll "count" "" g filters) s = (.ok results, s) ∧
    (machine h).eval (aggregateDocuments E coll "count" "" "" filters) s = (.ok [total], s) ∧
    ToldApart E h g (matching h filters t.rows) results total

/-- Values are equal exactly where their texts are. -/
def ValuesByText (E : Engine) (h : Host) (g : String) (rows : List Row) : Prop :=
  ∀ r ∈ rows, ∀ r' ∈ rows, (value h g r).key = (value h g r').key ↔ label E h g r = label E h g r'

variable {E : Engine} {h : Host} {s : DB} {coll : Collection} {filters : List FilterCondition} {g : String} {t : Table}
  {rows : List Row}

/-! ### Groups -/

theorem groups_represents (h : Host) (g : String) (rows : List Row) :
    Represents SqlValue.key ((groups h g rows).map (·.1)) (rows.map (value h g)) := by
  have firsts := represents_foldl (represents_nil : Represents SqlValue.key [] []) ((h.visit rows).map (value h g))
  rw [List.foldl_map, List.nil_append] at firsts
  have heads : (groups h g rows).map (·.1) =
      sortBy SqlValue.key ((h.visit rows).foldl (fun seen r => keepFirst SqlValue.key seen (value h g r)) []) := by
    unfold groups
    rw [List.map_map]
    exact List.map_id _
  rw [heads]
  exact firsts.perm (sortBy_perm SqlValue.key _) ((h.visit_perm rows).map _).symm

theorem mem_groups {group : SqlValue × List Row} (member : group ∈ groups h g rows) :
    group.2 = rows.filter fun r => group.1.key = (value h g r).key := by
  obtain ⟨v, -, rfl⟩ := List.mem_map.mp member
  rfl

theorem mem_group {group : SqlValue × List Row} (member : group ∈ groups h g rows) {r : Row} (chosen : r ∈ rows) :
    r ∈ group.2 ↔ group.1.key = (value h g r).key := by
  rw [mem_groups member, List.mem_filter, decide_eq_true_iff]
  exact and_iff_right chosen

/-- The sizes of the groups sum to the number of rows. -/
theorem sum_groups (h : Host) (g : String) (rows : List Row) :
    ((groups h g rows).map fun group => group.2.length).sum = rows.length := by
  have sums := (groups_represents h g rows).sum_groups
  rw [List.map_map, List.length_map] at sums
  rw [← sums]
  refine congrArg _ (List.map_congr_left fun group member => ?_)
  rw [mem_groups member, Function.comp_apply, List.filter_map, List.length_map]
  rfl

theorem groups_distinct (h : Host) (g : String) (rows : List Row) : ((groups h g rows).map (·.1.key)).Nodup := by
  have distinct := (groups_represents h g rows).distinct
  rwa [List.map_map] at distinct

/-- A group is labelled with the value of one of its rows. -/
theorem group_of_row {group : SqlValue × List Row} (member : group ∈ groups h g rows) :
    ∃ r ∈ rows, group.1 = value h g r := by
  have occurs := (groups_represents h g rows).occurs group.1 (List.mem_map_of_mem member)
  obtain ⟨r, chosen, same⟩ := List.mem_map.mp occurs
  exact ⟨r, chosen, same.symm⟩

theorem row_in_group {r : Row} (chosen : r ∈ rows) : ∃ group ∈ groups h g rows, r ∈ group.2 := by
  obtain ⟨v, head, same⟩ := (groups_represents h g rows).covers (value h g r) (List.mem_map_of_mem chosen)
  obtain ⟨group, member, rfl⟩ := List.mem_map.mp head
  exact ⟨group, member, (mem_group member chosen).mpr same⟩

/-! ### The results -/

/-- What the counts are, with numbers that ParseFloat reads exactly. -/
def counted (E : Engine) (h : Host) (g : String) (rows : List Row) : List AggregateResult :=
  (groups h g rows).map fun group => ⟨scanString E group.1, some (some (.finite group.2.length))⟩

theorem mapM_of_each {α β : Type} {f : α → Except Err β} {result : α → β} {values : List α}
    (each : ∀ a ∈ values, f a = .ok (result a)) : values.mapM f = .ok (values.map result) := by
  induction values with
  | nil => rfl
  | cons a rest ih =>
    rw [List.forall_mem_cons] at each
    rw [List.mapM_cons, each.1, ih each.2]
    rfl

theorem count_rows (countable : ∀ n : Nat, n ≤ rows.length → E.parseFloat (toString (n : Int)) = some (some (.finite n))) :
    aggregated h "" rows = .ok (rows.map fun _ => .integer 1) ∧
      AggFunction.count.eval E (rows.map fun _ => .integer 1) = .ok (.integer rows.length) ∧
      scanFloat E (.integer rows.length) = .ok (some (some (.finite rows.length))) := by
  refine ⟨rfl, ?_, ?_⟩
  · simp [AggFunction.eval]
  · simp only [scanFloat, scanFloat.scanText, countable rows.length le_rfl]

theorem eval_counts (valid : g = "" ∨ collectionNameRe g = true) :
    (machine h).eval (aggregateDocuments E coll "count" "" g filters) s =
      ((aggregateQuery E coll .count "" g filters h s).mapError (.wrapped "aggregating"), s) := by
  have named : ¬ (g ≠ "" ∧ (!collectionNameRe g) = true) := by
    rintro ⟨set, wrong⟩
    rcases valid with unset | right
    · exact set unset
    · simp [right] at wrong
  have count : aggOps.lookup "count" = some .count := rfl
  unfold aggregateDocuments
  simp only [count]
  rw [if_neg (by simp), if_neg (by simp), if_neg named, eval_read]

theorem grouped_query (docs : s.docs coll.tableName = .ok t) (field : g ≠ "") (legible : t.rows.all readable = true)
    (countable : ∀ n : Nat, n ≤ t.rows.length → E.parseFloat (toString (n : Int)) = some (some (.finite n))) :
    aggregateQuery E coll .count "" g filters h s = .ok (counted E h g (matching h filters t.rows)) := by
  have kept : (t.rows.filter (meets h filters)).all readable = true := all_readable_filter legible
  unfold aggregateQuery
  simp only [docs, filterWhere_readable fun _ => List.all_eq_true.mp legible, bind, Except.bind, pure, Except.pure]
  rw [if_neg field, if_pos kept]
  refine mapM_of_each fun group member => ?_
  have size : group.2.length ≤ t.rows.length := by
    rw [mem_groups member]
    exact (List.length_filter_le _ _).trans (List.length_filter_le _ _)
  obtain ⟨rows, count, scanned⟩ := count_rows (h := h) fun n bound => countable n (bound.trans size)
  simp only [rows, count, scanned]

theorem ungrouped_query (docs : s.docs coll.tableName = .ok t) (legible : t.rows.all readable = true)
    (countable : ∀ n : Nat, n ≤ t.rows.length → E.parseFloat (toString (n : Int)) = some (some (.finite n))) :
    aggregateQuery E coll .count "" "" filters h s = .ok [⟨none, some (some (.finite (matching h filters t.rows).length))⟩] := by
  obtain ⟨rows, count, scanned⟩ := count_rows (h := h) fun n bound =>
    countable n (bound.trans (List.length_filter_le (meets h filters) t.rows))
  unfold aggregateQuery
  simp only [docs, filterWhere_readable fun _ => List.all_eq_true.mp legible, bind, Except.bind, pure, Except.pure]
  rw [if_pos trivial, rows]
  dsimp only
  rw [count]
  dsimp only
  rw [scanned]

/-- With data that is too deep there is no answer. -/
theorem grouped_unreadable (docs : s.docs coll.tableName = .ok t) (field : g ≠ "") (unreadable : ¬ t.rows.all readable = true) :
    aggregateQuery E coll .count "" g filters h s = .error malformedJSON := by
  unfold aggregateQuery
  simp only [docs, bind, Except.bind]
  by_cases none : filters = []
  · have kept : filterWhere h filters t.rows = .ok t.rows := by
      rw [none]
      unfold filterWhere
      rw [if_neg (fun both => both.1 rfl)]
      exact congrArg _ (List.filter_eq_self.mpr fun _ _ => rfl)
    simp only [kept]
    rw [if_neg field, if_neg unreadable]
  · have refused : filterWhere h filters t.rows = .error malformedJSON := if_pos ⟨none, unreadable⟩
    simp only [refused]

theorem amounts_counted : (counted E h g rows).map amount = (groups h g rows).map fun group => (group.2.length : ℚ) := by
  unfold counted
  rw [List.map_map]
  rfl

theorem counted_groups : (counted E h g rows).map (·.group) = (groups h g rows).map fun group => scanString E group.1 := by
  unfold counted
  rw [List.map_map]
  rfl

/-- Groups with one key are one group. -/
theorem group_unique {i j : Nat} {group group' : SqlValue × List Row} (left : (groups h g rows)[i]? = some group)
    (right : (groups h g rows)[j]? = some group') (same : group.1.key = group'.1.key) : i = j := by
  have inside : i < ((groups h g rows).map (·.1.key)).length := by
    rw [List.length_map]
    exact (List.getElem?_eq_some_iff.mp left).1
  refine (List.getElem?_inj inside (groups_distinct h g rows)).mp ?_
  rw [List.getElem?_map, List.getElem?_map, left, right, Option.map_some, Option.map_some, same]

theorem toldApart_of_byText (byText : ValuesByText E h g rows) :
    ToldApart E h g rows (counted E h g rows) ⟨none, some (some (.finite rows.length))⟩ := by
  refine ⟨?_, amounts_counted, ?_, fun r chosen => ?_⟩
  · rw [counted_groups]
    refine List.Nodup.map_on (fun group member group' member' same => ?_) (groups_distinct h g rows).of_map
    obtain ⟨r, chosen, head⟩ := group_of_row member
    obtain ⟨r', chosen', head'⟩ := group_of_row member'
    refine List.inj_on_of_nodup_map (groups_distinct h g rows) member member' ?_
    rw [head, head'] at same ⊢
    exact (byText r chosen r' chosen').mpr same
  · rw [amounts_counted]
    show _ = (rows.length : ℚ)
    rw [← sum_groups h g rows, Nat.cast_list_sum, List.map_map]
    rfl
  · obtain ⟨group, member, inside⟩ := row_in_group (h := h) (g := g) chosen
    obtain ⟨i, position⟩ := List.getElem?_of_mem member
    have own := (mem_group member chosen).mp inside
    refine ⟨i, ⟨scanString E group.1, some (some (.finite group.2.length))⟩, ?_, ⟨group, position, inside⟩, ?_, ?_⟩
    · unfold counted
      rw [List.getElem?_map, position]
      rfl
    · obtain ⟨r', chosen', head⟩ := group_of_row member
      rw [head] at own ⊢
      exact (byText r' chosen' r chosen).mp own
    · rintro j ⟨group', position', inside'⟩
      have own' := (mem_group (List.mem_of_getElem? position') chosen).mp inside'
      exact group_unique position' position (own'.trans own.symm)

theorem byText_of_toldApart {results : List AggregateResult} {total : AggregateResult} 
    (apart : ToldApart E h g rows results total) : ValuesByText E h g rows := by
  intro r chosen r' chosen'
  obtain ⟨i, result, there, ⟨group, position, inside⟩, labelled, only⟩ := apart.counted r chosen
  obtain ⟨j, result', there', ⟨group', position', inside'⟩, labelled', only'⟩ := apart.counted r' chosen'
  have own := (mem_group (List.mem_of_getElem? position) chosen).mp inside
  have own' := (mem_group (List.mem_of_getElem? position') chosen').mp inside'
  constructor
  · intro same
    have along : r' ∈ group.2 := (mem_group (List.mem_of_getElem? position) chosen').mpr (own.trans same)
    have one : i = j := only' i ⟨group, position, along⟩
    rw [← labelled, ← labelled', Option.some.inj (there.symm.trans (one ▸ there'))]
  · intro same
    have first : i < (results.map (·.group)).length := by
      rw [List.length_map]
      exact (List.getElem?_eq_some_iff.mp there).1
    have one : i = j := by
      refine (List.getElem?_inj first apart.distinct).mp ?_
      rw [List.getElem?_map, List.getElem?_map, there, there', Option.map_some, Option.map_some, labelled, labelled', same]
    subst one
    rw [position] at position'
    rw [← own, ← own', Option.some.inj position']

/-- The groups are told apart exactly when the data can be read and values are
    equal where their texts are. -/
theorem groups_told_apart_iff (docs : s.docs coll.tableName = .ok t) (field : collectionNameRe g = true)
    (countable : ∀ n : Nat, n ≤ t.rows.length → E.parseFloat (toString (n : Int)) = some (some (.finite n))) :
    Answers E h s coll filters g t ↔ t.rows.all readable = true ∧ ValuesByText E h g (matching h filters t.rows) := by
  have named : g ≠ "" := by
    rintro rfl
    exact absurd field (by decide)
  constructor
  · rintro ⟨results, total, answered, -, apart⟩
    refine ⟨?_, byText_of_toldApart apart⟩
    by_contra unreadable
    rw [eval_counts (.inr field), grouped_unreadable docs named unreadable] at answered
    cases (Prod.mk.inj answered).1
  · rintro ⟨legible, byText⟩
    refine ⟨_, _, ?_, ?_, toldApart_of_byText byText⟩
    · rw [eval_counts (.inr field), grouped_query docs named legible countable]
      rfl
    · rw [eval_counts (.inl rfl), ungrouped_query docs legible countable]
      rfl

/-- A collection with two items of these kinds. -/
def kinds (kind kind' : Json) : DB :=
  reached Host.uniform [(.createCollection "a" false 0 ⟨[], List.nodup_nil⟩, []),
    (.insertDocument "a" none "" (some (.obj [("kind", kind)])), []),
    (.insertDocument "a" none "" (some (.obj [("kind", kind')])), [])]

def kindsTable (kind kind' : Json) : Table :=
  ⟨.plain, [⟨1, "", .obj [("kind", kind)], []⟩, ⟨2, "", .obj [("kind", kind')], []⟩], 2, by simp⟩

theorem kinds_docs (kind kind' : Json) : (kinds kind kind').docs "coll_a" = .ok (kindsTable kind kind') := rfl

instance (E : Engine) (h : Host) (g : String) (rows : List Row) : Decidable (ValuesByText E h g rows) :=
  inferInstanceAs (Decidable (∀ r ∈ rows, _))

/-- Two words. -/
theorem groups_told_apart_words :
    Answers digitsEngine Host.uniform (kinds (.str "pen") (.str "ink")) ⟨"a", "coll_a", false, 0⟩ [] "kind"
      (kindsTable (.str "pen") (.str "ink")) :=
  (groups_told_apart_iff (kinds_docs (.str "pen") (.str "ink")) (by decide) fun n _ => digitsEngine_exact n).mpr
    ⟨by decide, by decide⟩

-- 0 and -0.0 are one group with two texts
example : ¬ ValuesByText { digitsEngine with formatFloat := fun x => if x = .negZero then "-0" else "0" } Host.uniform "kind"
    (kindsTable (.int 0) (.real .negZero)).rows := by
  decide

/-- The number 1 and the text "1" are two groups with one label. -/
theorem groups_not_told_apart : ¬ ∀ (E : Engine) (h : Host) (s : DB) (coll : Collection) (filters : List FilterCondition)
    (g : String) (t : Table), s.docs coll.tableName = .ok t → collectionNameRe g = true →
    (∀ n : Nat, n ≤ t.rows.length → E.parseFloat (toString (n : Int)) = some (some (.finite n))) →
    t.rows.all readable = true → Answers E h s coll filters g t := by
  intro all
  obtain ⟨results, total, -, -, apart⟩ := all digitsEngine Host.uniform (kinds (.int 1) (.str "1")) ⟨"a", "coll_a", false, 0⟩ []
    "kind" (kindsTable (.int 1) (.str "1")) (kinds_docs (.int 1) (.str "1")) (by decide) (fun n _ => digitsEngine_exact n)
    (by decide)
  have byText := byText_of_toldApart apart
  revert byText
  decide

end Microserver.GroupLabels
