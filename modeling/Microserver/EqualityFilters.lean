import Microserver.Evaluations
import Microserver.Listings
import Microserver.ReadHandlers

/-!
Filters for equality. parseFilterValue takes the type of a value from its text
alone, and the stored value has the type it had in its JSON. The two meet unless
a string reads as something else, or a number is written as a float or a bool.
-/
namespace Microserver.EqualityFilters
open Microserver.Values Microserver.Store Microserver.Programs Microserver.Statements Microserver.Operations
open Microserver.Schema Microserver.Items Microserver.Ranking Microserver.Tokens Microserver.Queries Microserver.Exports
open Microserver.Params Microserver.ReadHandlers Microserver.Evaluations Microserver.Listings Microserver.Histories Microserver.Reachable

/-- The parameter of this name is a filter on the field of this name. -/
def Usable (f : String) : Prop := f ∉ reservedQueryParams ∧ fieldAndOp f = (f, "eq") ∧ collectionNameRe f = true

instance (f : String) : Decidable (Usable f) := inferInstanceAs (Decidable (_ ∧ _))

/-- The query `f=t`. -/
def asked (f t : String) : Query := ⟨[(f, [t])], List.nodup_singleton f⟩

/-- The listing for `f=t` has the item on one of its pages. -/
def Selected (h : Host) (E : Engine) (s : DB) (coll : Collection) (f t : String) (row : Row) : Prop :=
  ∃ filters, parseFilters E.parseFloat (asked f t) = .ok filters ∧ ∃ (limit offset : Nat) (docs : List Document),
    1 ≤ limit ∧ limit ≤ maxListLimit ∧ (machine h).eval (listDocuments coll limit offset filters none) s = (.ok docs, s) ∧
      ∃ d ∈ docs, d.id = row.id

/-- The text is the value, as it is written. -/
def Literal (t : String) : Option Json → Prop
  | some (.str s) => t = s
  | some (.int n) => parseInt t = some n
  | some (.bool b) => t = if b then "true" else "false"
  | _ => False

/-- What the filter is to do with strings, integers, bools, and items without a value. -/
def ByValue (t : String) (value : Option Json) (selected : Prop) : Prop :=
  match value with
  | some (.real _) | some (.arr _) | some (.obj _) => True
  | value => selected ↔ Literal t value

/-- The text reads as a float that is this integer, and as nothing before. -/
def IsFloat (parseFloat : String → Option Float64) (t : String) (n : Int) : Prop :=
  t ≠ "true" ∧ t ≠ "false" ∧ parseInt t = none ∧ (parseFloat t).join.bind Double.toRat = some (n : ℚ)

/-- The text reads as nothing but text. -/
def IsText (parseFloat : String → Option Float64) (t : String) : Prop :=
  t ≠ "true" ∧ t ≠ "false" ∧ parseInt t = none ∧ parseFloat t = none

/-- The guess from the text agrees with the type of the value. -/
def ReadAsMeant (parseFloat : String → Option Float64) (t : String) : Option Json → Prop
  | some (.str s) => t = s → IsText parseFloat t
  | some (.int n) => ¬ (t = "true" ∧ n = 1) ∧ ¬ (t = "false" ∧ n = 0) ∧ ¬ IsFloat parseFloat t n
  | some (.bool b) => parseInt t ≠ some (if b then 1 else 0) ∧ ¬ IsFloat parseFloat t (if b then 1 else 0)
  | _ => True

/-- json_extract reads the items that come up to this one, which in a collection
    with vectors are all. -/
def Legible (s : DB) (coll : Collection) (row : Row) : Prop :=
  ∀ r ∈ items s coll.tableName, (coll.hasVector = false → r.id ≤ row.id) → readable r = true

variable {h : Host} {E : Engine} {s : DB} {coll : Collection} {row : Row} {f t : String} {value : Option Json}
  {parseFloat : String → Option Float64}

/-! ### The comparison -/

theorem parseFilterValue_text {u : String} : parseFilterValue parseFloat t = .text u ↔ t = u ∧ IsText parseFloat t := by
  unfold parseFilterValue IsText
  by_cases isTrue : t = "true"
  · simp [isTrue]
  by_cases isFalse : t = "false"
  · simp [isFalse]
  rw [if_neg isTrue, if_neg isFalse]
  cases parseInt t with
  | some n => simp
  | none =>
    cases float : parseFloat t with
    | none => simp [isTrue, isFalse]
    | some x => cases x <;> simp [bindFloat]

/-- What reads as an integer, in the order of the guesses. -/
theorem parseFilterValue_number {n : Int} :
    (parseFilterValue parseFloat t).number = some (((n : ℚ) : WithTop ℚ) : WithBot (WithTop ℚ)) ↔
    (t = "true" ∧ n = 1) ∨ (t = "false" ∧ n = 0) ∨ parseInt t = some n ∨ IsFloat parseFloat t n := by
  have words : parseInt "true" = none ∧ parseInt "false" = none := by decide
  unfold parseFilterValue IsFloat
  by_cases isTrue : t = "true"
  · simp [isTrue, words, SqlValue.number, eq_comm]
  by_cases isFalse : t = "false"
  · simp [isFalse, words, SqlValue.number, eq_comm]
  rw [if_neg isTrue, if_neg isFalse]
  cases parseInt t with
  | some m =>
    simp [isTrue, isFalse, SqlValue.number]
  | none =>
    cases float : parseFloat t with
    | none => simp [isTrue, isFalse, SqlValue.number]
    | some x => rcases x with _ | _ | _ | q | _ <;> simp [isTrue, isFalse, bindFloat, SqlValue.number, Double.toRat, @eq_comm ℚ 0]

theorem key_text {u : String} {w : SqlValue} : (SqlValue.text u).key = w.key ↔ w = .text u := by
  cases w <;> simp [SqlValue.key, SqlValue.number, eq_comm]

theorem key_integer {n : Int} {w : SqlValue} :
    (SqlValue.integer n).key = w.key ↔ w.number = some (((n : ℚ) : WithTop ℚ) : WithBot (WithTop ℚ)) := by
  rcases w with _ | m | (_ | _ | q | _) | u <;> simp [SqlValue.key, SqlValue.number, eq_comm]

/-- The condition that `f=t` asks for. -/
def condition (E : Engine) (f t : String) : FilterCondition := ⟨f, .eq, parseFilterValue E.parseFloat t⟩

theorem holds_eq_iff (f : String) (w : SqlValue) (data : Json) : (FilterCondition.mk f .eq w).holds h data = true ↔
    jsonExtract h.jsonText data f ≠ .null ∧ w ≠ .null ∧ (jsonExtract h.jsonText data f).key = w.key := by
  simp only [FilterCondition.holds, FilterOp.holds, Bool.and_eq_true, decide_eq_true_eq, and_assoc]

theorem holds_iff : (condition E f t).holds h row.data = true ↔ jsonExtract h.jsonText row.data f ≠ .null ∧
    parseFilterValue E.parseFloat t ≠ .null ∧ (jsonExtract h.jsonText row.data f).key = (parseFilterValue E.parseFloat t).key :=
  holds_eq_iff f _ row.data

theorem holds_str {u : String} (held : row.data.field f = some (.str u)) :
    (condition E f t).holds h row.data = true ↔ t = u ∧ IsText E.parseFloat t := by
  have extracted : jsonExtract h.jsonText row.data f = .text u := by simp [jsonExtract, held]
  have present : SqlValue.text u ≠ .null := by simp
  rw [holds_iff, extracted, key_text, ← parseFilterValue_text]
  refine ⟨fun all => all.2.2, fun same => ⟨present, ?_, same⟩⟩
  rw [same]
  exact present

theorem holds_integer {n : Int} (extracted : jsonExtract h.jsonText row.data f = .integer n) :
    (condition E f t).holds h row.data = true ↔
      (t = "true" ∧ n = 1) ∨ (t = "false" ∧ n = 0) ∨ parseInt t = some n ∨ IsFloat E.parseFloat t n := by
  rw [holds_iff, extracted, key_integer, ← parseFilterValue_number]
  refine ⟨fun all => all.2.2, fun same => ⟨nofun, ?_, same⟩⟩
  intro isNull
  rw [isNull] at same
  cases same

theorem not_holds_unset (unset : row.data.field f = none ∨ row.data.field f = some .null) :
    ¬ (condition E f t).holds h row.data = true := by
  simp [FilterCondition.holds, condition, jsonExtract_unset unset]

/-- The integer that a text reads as is the one that it spells, as the types decide. -/
theorem integer_agrees {n : Int} : (((t = "true" ∧ n = 1) ∨ (t = "false" ∧ n = 0) ∨ parseInt t = some n ∨ IsFloat parseFloat t n) ↔
    parseInt t = some n) ↔ ReadAsMeant parseFloat t (some (.int n)) := by
  have words : parseInt "true" = none ∧ parseInt "false" = none := by decide
  have one (isTrue : t = "true" ∧ n = 1) : parseInt t ≠ some n := by
    rw [isTrue.1, words.1]
    exact nofun
  have zero (isFalse : t = "false" ∧ n = 0) : parseInt t ≠ some n := by
    rw [isFalse.1, words.2]
    exact nofun
  have float (reads : IsFloat parseFloat t n) : parseInt t ≠ some n := by
    rw [reads.2.2.1]
    exact nofun
  unfold ReadAsMeant
  constructor
  · intro agree
    exact ⟨fun isTrue => one isTrue (agree.mp (.inl isTrue)), fun isFalse => zero isFalse (agree.mp (.inr (.inl isFalse))),
      fun reads => float reads (agree.mp (.inr (.inr (.inr reads))))⟩
  · rintro ⟨notTrue, notFalse, notFloat⟩
    rw [or_iff_right notTrue, or_iff_right notFalse, or_iff_left notFloat]

theorem bool_agrees {b : Bool} : (((t = "true" ∧ (if b then 1 else 0 : Int) = 1) ∨ (t = "false" ∧ (if b then 1 else 0 : Int) = 0) ∨
    parseInt t = some (if b then 1 else 0) ∨ IsFloat parseFloat t (if b then 1 else 0)) ↔ t = if b then "true" else "false") ↔
    ReadAsMeant parseFloat t (some (.bool b)) := by
  have words : parseInt "true" = none ∧ parseInt "false" = none := by decide
  have literal : ((t = "true" ∧ (if b then 1 else 0 : Int) = 1) ∨ (t = "false" ∧ (if b then 1 else 0 : Int) = 0)) ↔
      t = if b then "true" else "false" := by cases b <;> simp
  have integer (reads : parseInt t = some (if b then 1 else 0)) : t ≠ if b then "true" else "false" := by
    rintro rfl
    cases b <;> simp [words] at reads
  have float (reads : IsFloat parseFloat t (if b then 1 else 0)) : t ≠ if b then "true" else "false" := by
    cases b with
    | true => exact reads.1
    | false => exact reads.2.1
  rw [← or_assoc, literal]
  unfold ReadAsMeant
  constructor
  · intro agree
    exact ⟨fun reads => integer reads (agree.mp (.inr (.inl reads))), fun reads => float reads (agree.mp (.inr (.inr reads)))⟩
  · rintro ⟨notInteger, notFloat⟩
    exact or_iff_left (not_or.mpr ⟨notInteger, notFloat⟩)

/-- Behind an unreadable item nothing is selected; elsewhere the types decide. -/
theorem and_iff_iff {legible selects literal agrees : Prop} (agree : (selects ↔ literal) ↔ agrees) :
    ((legible ∧ selects) ↔ literal) ↔ legible ∧ agrees ∨ ¬ legible ∧ ¬ literal := by
  by_cases here : legible
  · simp only [here, true_and, not_true_eq_false, false_and, or_false, agree]
  · simp only [here, false_and, not_false_eq_true, true_and, false_or, false_iff]

theorem byValue_iff {selected legible : Prop} (selects : selected ↔ legible ∧ (condition E f t).holds h row.data = true) :
    ByValue t (row.data.field f) selected ↔
      legible ∧ ReadAsMeant E.parseFloat t (row.data.field f) ∨ ¬ legible ∧ ¬ Literal t (row.data.field f) := by
  have unset (none : row.data.field f = none ∨ row.data.field f = some .null) : ¬ selected := fun there =>
    not_holds_unset none (selects.mp there).2
  cases held : row.data.field f with
  | none => simpa [ByValue, Literal, ReadAsMeant, em] using unset (.inl held)
  | some v =>
    cases v with
    | null => simpa [ByValue, Literal, ReadAsMeant, em] using unset (.inr held)
    | str u =>
      refine (iff_congr selects Iff.rfl).trans (and_iff_iff ?_)
      rw [holds_str held]
      exact and_iff_left_iff_imp
    | int n =>
      refine (iff_congr selects Iff.rfl).trans (and_iff_iff ?_)
      rw [holds_integer (jsonExtract_int held)]
      exact integer_agrees
    | bool b =>
      have extracted : jsonExtract h.jsonText row.data f = .integer (if b then 1 else 0) := by simp [jsonExtract, held]
      refine (iff_congr selects Iff.rfl).trans (and_iff_iff ?_)
      rw [holds_integer extracted]
      exact bool_agrees
    | real _ | arr _ | obj _ => simp [ByValue, Literal, ReadAsMeant, em]

/-! ### The listing -/

theorem parseFilters_asked (usable : Usable f) : parseFilters E.parseFloat (asked f t) = .ok [condition E f t] := by
  obtain ⟨free, plain, named⟩ := usable
  have eq : filterOps.lookup "eq" = some .eq := rfl
  have parsed : parseFilter E.parseFloat f [t] = .ok [condition E f t] := by
    unfold parseFilter
    simp only [plain, named, eq]
    rfl
  unfold parseFilters asked
  simp only [List.filter_cons, free, not_false_eq_true, decide_true, ↓reduceIte, List.filter_nil]
  simp [parsed, bind, Except.bind, pure, Except.pure]

theorem meets_singleton (c : FilterCondition) (r : Row) : meets h [c] r = c.holds h r.data := by simp [meets]

/-- An item is on some page exactly when it meets the condition and the query
    reads the items up to it. -/
theorem selected_iff (sound : Sound s) (registered : coll ∈ s.collections) (usable : Usable f)
    (member : row ∈ items s coll.tableName) :
    Selected h E s coll f t row ↔ Legible s coll row ∧ (condition E f t).holds h row.data = true := by
  obtain ⟨table, docsTable, kind, columns⟩ := docs_registered sound registered
  have rows : items s coll.tableName = table.rows := items_of_docs docsTable
  rw [rows] at member
  have sorted : row ∈ sortBy (·.id) table.rows := (sortBy_perm _ _).mem_iff.mpr member
  constructor
  · rintro ⟨filters, parsed, limit, offset, docs, -, -, listed, d, listed', same⟩
    rw [parseFilters_asked usable] at parsed
    obtain rfl := Except.ok.inj parsed
    rw [eval_listDocuments_ok_iff, listQuery_rows docsTable columns] at listed
    cases found : listRows h table limit offset [condition E f t] none with
    | error e => simp [found, Except.map] at listed
    | ok rows' =>
      rw [found] at listed
      obtain rfl := Except.ok.inj listed
      obtain ⟨r, there, rfl⟩ := List.mem_map.mp listed'
      have among : r ∈ rows' := List.mem_of_mem_drop (List.mem_of_mem_take there)
      obtain ⟨⟨here, kept⟩, seen⟩ := listRows_sees (List.cons_ne_nil _ []) found among
      obtain rfl : r = row := List.inj_on_of_nodup_map table.key here member same
      rw [meets_singleton] at kept
      unfold Legible
      rw [rows]
      refine ⟨fun u there below => seen u there fun plain => below ?_, kept⟩
      simpa [plain] using columns
  · rintro ⟨legible, holds⟩
    unfold Legible at legible
    rw [rows] at legible
    have kept : meets h [condition E f t] row = true := by rwa [meets_singleton]
    cases vector : coll.hasVector with
    | false =>
      have plain : table.kind = .plain := by rw [kind, mainKind, vector]; rfl
      obtain ⟨skipped, scanned⟩ := scan_reaches [condition E f t] (table_ascending table) sorted kept fun r there below =>
        legible r ((sortBy_perm _ _).mem_iff.mp there) fun _ => below
      refine ⟨_, parseFilters_asked usable, 1, skipped.length, [document coll row], le_rfl, by decide, ?_, document coll row,
        List.mem_singleton.mpr rfl, rfl⟩
      rw [eval_listDocuments_ok_iff, listQuery_rows docsTable columns]
      unfold listRows
      simp [plain, scanned, Except.map]
    | true =>
      have legible : table.rows.all readable = true := List.all_eq_true.mpr fun r there => legible r there (by simp [vector])
      obtain ⟨skipped, after, split⟩ := List.append_of_mem (List.mem_filter.mpr ⟨sorted, kept⟩)
      refine ⟨_, parseFilters_asked usable, 1, skipped.length, [document coll row], le_rfl, by decide, ?_, document coll row,
        List.mem_singleton.mpr rfl, rfl⟩
      rw [eval_listDocuments_ok_iff, listQuery_readable docsTable columns 1 skipped.length _ legible, split]
      simp

/-- After any run of calls, an item is selected by `f=t` as its value at `f` says
    exactly when the query reads the items up to it and the text is taken for the
    type that the value has, or it does not read them and the item is not meant. -/
theorem equality_by_value_iff (h : Host) (E : Engine) (calls : List (Call × List Bool)) (coll : Collection) (f t : String) (row : Row)
    (registered : coll ∈ (reached h calls).collections) (usable : Usable f) (member : row ∈ items (reached h calls) coll.tableName) :
    ByValue t (row.data.field f) (Selected h E (reached h calls) coll f t row) ↔
      Legible (reached h calls) coll row ∧ ReadAsMeant E.parseFloat t (row.data.field f) ∨
        ¬ Legible (reached h calls) coll row ∧ ¬ Literal t (row.data.field f) :=
  byValue_iff (selected_iff (run_coherent h calls).sound registered usable member)

/-- A collection "a" with one item, whose field `f` has this value. -/
def oneValue (value : Json) : List (Call × List Bool) :=
  [(.createCollection "a" false 0 ⟨[], List.nodup_nil⟩, []), (.insertDocument "a" none "" (some (.obj [("f", value)])), [])]

theorem items_oneValue (value : Json) :
    items (reached Host.uniform (oneValue value)) "coll_a" = [⟨1, "", .obj [("f", value)], []⟩] := rfl

/-- The string "mouse" is selected by its own text. -/
theorem equality_by_value_word : ByValue "mouse" (some (.str "mouse"))
    (Selected Host.uniform Engine.plain (reached Host.uniform (oneValue (.str "mouse"))) ⟨"a", "coll_a", false, 0⟩ "f" "mouse"
      ⟨1, "", .obj [("f", .str "mouse")], []⟩) := by
  refine (equality_by_value_iff Host.uniform Engine.plain (oneValue (.str "mouse")) ⟨"a", "coll_a", false, 0⟩ "f" "mouse"
    ⟨1, "", .obj [("f", .str "mouse")], []⟩ (by decide) (by decide) ?_).mpr (.inl ⟨?_, ?_⟩)
  · exact List.mem_singleton.mpr rfl
  · intro r there _
    rw [items_oneValue] at there
    rw [List.mem_singleton.mp there]
    decide
  · exact fun _ => ⟨by decide, by decide, by decide, rfl⟩

/-- The string "50" is not selected by the text 50, which reads as an integer. -/
theorem digits_not_selected :
    ¬ ∀ (h : Host) (E : Engine) (calls : List (Call × List Bool)) (coll : Collection) (f t : String) (row : Row),
      coll ∈ (reached h calls).collections → Usable f → row ∈ items (reached h calls) coll.tableName →
        ByValue t (row.data.field f) (Selected h E (reached h calls) coll f t row) := by
  intro all
  have registered : (⟨"a", "coll_a", false, 0⟩ : Collection) ∈ (reached Host.uniform (oneValue (.str "50"))).collections := by
    decide
  have stored : (⟨1, "", .obj [("f", .str "50")], []⟩ : Row) ∈ items (reached Host.uniform (oneValue (.str "50"))) "coll_a" :=
    List.mem_singleton.mpr rfl
  have usable : Usable "f" := by decide
  have selected := (all Host.uniform Engine.plain _ _ "f" "50" _ registered usable stored).mpr rfl
  have holds := ((selected_iff (run_coherent Host.uniform _).sound registered usable stored).mp selected).2
  have number : parseInt "50" = some 50 := by decide
  have text := ((holds_str rfl).mp holds).2.2.2.1
  rw [number] at text
  cases text

end Microserver.EqualityFilters
