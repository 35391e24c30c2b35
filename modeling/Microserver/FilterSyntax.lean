import Microserver.Evaluations
import Microserver.ReadHandlers

/-!
The syntax of filters. The name of a parameter is split at its last `__` into a
field and an operator, and the names that some endpoint uses for itself are
filters at none.
-/
namespace Microserver.FilterSyntax
open Microserver.Values Microserver.Store Microserver.Programs Microserver.Statements Microserver.Operations
open Microserver.Queries Microserver.Requests Microserver.Params Microserver.ReadHandlers Microserver.Evaluations

/-- What one parameter adds to the conditions. -/
def contribution (parseFloat : String → Option Float64) (param : String × List String) : Except String (List FilterCondition) :=
  if param.1 ∈ reservedQueryParams then .ok [] else parseFilter parseFloat param.1 param.2

/-- The name contains `__`. -/
def HasSeparator (name : String) : Prop := ['_', '_'] <:+: name.toList

instance (name : String) : Decidable (HasSeparator name) := inferInstanceAs (Decidable (_ <:+: _))

variable {parseFloat : String → Option Float64} {before after cs : List Char} {f key name v : String} {sqlOp : FilterOp}

/-! ### The last separator -/

theorem splitLast_append (front : List Char) (free : splitLast ('_' :: after) = none) :
    splitLast (front ++ '_' :: '_' :: after) = some (front, after) := by
  induction front with
  | nil =>
    rw [List.nil_append, splitLast, free]
    rfl
  | cons c rest ih => rw [List.cons_append, splitLast, ih]

theorem splitLast_some (found : splitLast cs = some (before, after)) : cs = before ++ '_' :: '_' :: after := by
  induction cs generalizing before with
  | nil => cases found
  | cons c rest ih =>
    rw [splitLast] at found
    cases later : splitLast rest with
    | some split =>
      obtain ⟨front, back⟩ := split
      rw [later] at found
      cases found
      rw [ih later]
      rfl
    | none =>
      rw [later] at found
      by_cases here : c = '_' ∧ rest.head? = some '_'
      · simp only [if_pos here, Option.some.injEq, Prod.mk.injEq] at found
        obtain ⟨rfl, rfl⟩ := found
        obtain ⟨rfl, first⟩ := here
        obtain ⟨tail, rfl⟩ := List.head?_eq_some_iff.mp first
        rfl
      · simp [if_neg here] at found

theorem splitLast_separator (front back : List Char) : ∃ split, splitLast (front ++ '_' :: '_' :: back) = some split := by
  induction front with
  | nil =>
    rw [List.nil_append, splitLast]
    cases splitLast ('_' :: back) with
    | none => exact ⟨_, rfl⟩
    | some split => exact ⟨_, rfl⟩
  | cons c rest ih =>
    obtain ⟨split, found⟩ := ih
    rw [List.cons_append, splitLast, found]
    exact ⟨_, rfl⟩

theorem splitLast_eq_none_iff : splitLast cs = none ↔ ¬ ['_', '_'] <:+: cs := by
  constructor
  · rintro none ⟨front, back, rfl⟩
    obtain ⟨split, found⟩ := splitLast_separator front back
    rw [List.append_assoc] at none
    exact nomatch none.symm.trans found
  · intro free
    cases found : splitLast cs with
    | none => rfl
    | some split =>
      refine absurd ⟨split.1, split.2, ?_⟩ free
      rw [splitLast_some found]
      simp

/-- A field name starts with a letter, so a separator in it has something before it. -/
theorem starts_with_letter (named : collectionNameRe f = true) : ∃ c rest, f.toList = c :: rest ∧ c ≠ '_' := by
  unfold collectionNameRe at named
  cases letters : f.toList with
  | nil => simp [letters] at named
  | cons c rest =>
    refine ⟨c, rest, rfl, ?_⟩
    rintro rfl
    have noLetter : isLetter '_' = false := by decide
    simp [letters, noLetter] at named

/-! ### One parameter -/

theorem fieldAndOp_plain (free : ¬ HasSeparator key) : fieldAndOp key = (key, "eq") := by
  unfold fieldAndOp
  rw [splitLast_eq_none_iff.mpr free]

theorem fieldAndOp_operator (named : collectionNameRe f = true) (known : (name, sqlOp) ∈ filterOps) :
    fieldAndOp (f ++ "__" ++ name) = (f, name) := by
  obtain ⟨c, rest, letters, -⟩ := starts_with_letter named
  have free : splitLast ('_' :: name.toList) = none := by
    have each : ∀ entry ∈ filterOps, splitLast ('_' :: entry.1.toList) = none := by decide
    exact each (name, sqlOp) known
  have split : (f ++ "__" ++ name).toList = f.toList ++ '_' :: '_' :: name.toList := by simp
  unfold fieldAndOp
  rw [split, splitLast_append f.toList free, letters]
  simp [← letters]

/-- What the name of a parameter is read as. -/
theorem fieldAndOp_cases (key : String) : (fieldAndOp key = (key, "eq") ∧ (HasSeparator key → ∃ after, key.toList = '_' :: '_' :: after)) ∨
    ∃ f op, fieldAndOp key = (f, op) ∧ key = f ++ "__" ++ op := by
  unfold fieldAndOp
  cases found : splitLast key.toList with
  | none => exact .inl ⟨rfl, fun there => absurd there (splitLast_eq_none_iff.mp found)⟩
  | some split =>
    obtain ⟨before, after⟩ := split
    have shape := splitLast_some found
    cases before with
    | nil => exact .inl ⟨rfl, fun _ => ⟨after, shape⟩⟩
    | cons c front =>
      refine .inr ⟨_, _, rfl, ?_⟩
      rw [← String.toList_inj, shape]
      simp

/-! ### The query -/

theorem parseFilters_contributions (query : Query) :
    parseFilters parseFloat query = (query.entries.mapM (contribution parseFloat)).map List.flatten := by
  have each (entries : List (String × List String)) :
      ((entries.filter fun entry => entry.1 ∉ reservedQueryParams).mapM fun entry => parseFilter parseFloat entry.1 entry.2).map List.flatten =
        (entries.mapM (contribution parseFloat)).map List.flatten := by
    induction entries with
    | nil => rfl
    | cons entry rest ih =>
      rw [List.mapM_cons]
      by_cases reserved : entry.1 ∈ reservedQueryParams
      · rw [List.filter_cons_of_neg (by simpa using reserved), ih, contribution, if_pos reserved]
        cases rest.mapM (contribution parseFloat) <;> rfl
      · rw [List.filter_cons_of_pos (by simpa using reserved), List.mapM_cons, contribution, if_neg reserved]
        cases parseFilter parseFloat entry.1 entry.2 with
        | error msg => rfl
        | ok conds =>
          cases left : (rest.filter fun entry => entry.1 ∉ reservedQueryParams).mapM fun entry => parseFilter parseFloat entry.1 entry.2 <;>
            cases right : rest.mapM (contribution parseFloat) <;> simp_all [bind, Except.bind, pure, Except.pure, Except.map]
  exact each query.entries

/-- The listing applies what the parameters contribute, and refuses the request
    when one of them is wrong. -/
theorem eval_handleListDocuments {h : Host} {E : Engine} {s : DB} {coll : Collection} {query : Query} {limit offset : Int}
    {sort : Option SortSpec} (found : s.lookup name = some coll) (paging : parseLimitOffset query = .ok (limit, offset))
    (sorted : parseSort query = .ok sort) :
    (machine h).eval (handleListDocuments E name query) s =
      (machine h).eval (withParams ((query.entries.mapM (contribution E.parseFloat)).map List.flatten) fun filters =>
        reply (listDocuments coll limit offset filters sort) internalError) s := by
  unfold handleListDocuments withCollection
  rw [Prog.bind_eq, Machine.eval_bind, Machine.eval_attempt, eval_getCollection, found, ← parseFilters_contributions]
  simp only [Option.elim_some, paging, sorted, withParams]

theorem parseFilter_read {op : String} (read : fieldAndOp key = (f, op)) (named : collectionNameRe f = true)
    (known : filterOps.lookup op = some sqlOp) (values : List String) :
    parseFilter parseFloat key values = .ok (values.map fun raw => ⟨f, sqlOp, parseFilterValue parseFloat raw⟩) := by
  unfold parseFilter
  simp only [read, named, known, Bool.not_true, Bool.false_eq_true, ↓reduceIte]

theorem filterOps_lookup (known : (name, sqlOp) ∈ filterOps) : filterOps.lookup name = some sqlOp := by
  have each : ∀ entry ∈ filterOps, filterOps.lookup entry.1 = some entry.2 := by decide
  exact each (name, sqlOp) known

/-- No reserved name has a separator. -/
theorem operator_free (f name : String) : f ++ "__" ++ name ∉ reservedQueryParams := by
  intro reserved
  have each : ∀ key ∈ reservedQueryParams, ¬ HasSeparator key := by decide +kernel
  exact each _ reserved ⟨f.toList, name.toList, by simp⟩

theorem contribution_operator (named : collectionNameRe f = true) (known : (name, sqlOp) ∈ filterOps) (values : List String) :
    contribution parseFloat (f ++ "__" ++ name, values) = .ok (values.map fun v => ⟨f, sqlOp, parseFilterValue parseFloat v⟩) :=
  (if_neg (operator_free f name)).trans (parseFilter_read (fieldAndOp_operator named known) named (filterOps_lookup known) values)

theorem contribution_plain (named : collectionNameRe f = true) (free : f ∉ reservedQueryParams) (plain : ¬ HasSeparator f)
    (values : List String) :
    contribution parseFloat (f, values) = .ok (values.map fun v => ⟨f, .eq, parseFilterValue parseFloat v⟩) :=
  (if_neg free).trans (parseFilter_read (fieldAndOp_plain plain) named rfl values)

/-- What a parameter that is not reserved is taken for, or the reason why it is refused. -/
theorem contribution_cases (free : key ∉ reservedQueryParams) (values : List String) :
    (∃ msg, contribution parseFloat (key, values) = .error msg) ∨
      ∃ f name sqlOp, contribution parseFloat (key, values) = .ok (values.map fun v => ⟨f, sqlOp, parseFilterValue parseFloat v⟩) ∧
        (name, sqlOp) ∈ filterOps ∧ (key = f ++ "__" ++ name ∨ key = f ∧ name = "eq" ∧ ¬ HasSeparator key) := by
  have filter : contribution parseFloat (key, values) = parseFilter parseFloat key values := if_neg free
  rw [filter]
  obtain ⟨f, op, read⟩ : ∃ f op, fieldAndOp key = (f, op) := ⟨_, _, rfl⟩
  cases named : collectionNameRe f with
  | false =>
    left
    unfold parseFilter
    simp only [read, named, Bool.not_false, ↓reduceIte]
    exact ⟨_, rfl⟩
  | true =>
    cases known : filterOps.lookup op with
    | none =>
      left
      unfold parseFilter
      simp only [read, named, known, Bool.not_true, Bool.false_eq_true, ↓reduceIte]
      exact ⟨_, rfl⟩
    | some sqlOp =>
      refine .inr ⟨f, op, sqlOp, parseFilter_read read named known values, ?_, ?_⟩
      · obtain ⟨first, last, all, -⟩ := List.lookup_eq_some_iff.mp known
        rw [all]
        exact List.mem_append_right first List.mem_cons_self
      · rcases fieldAndOp_cases key with ⟨whole, separated⟩ | ⟨f', op', split, shape⟩
        · rw [read] at whole
          obtain ⟨rfl, rfl⟩ := Prod.mk.inj whole
          refine .inr ⟨rfl, rfl, fun there => ?_⟩
          obtain ⟨c, rest, letters, letter⟩ := starts_with_letter named
          obtain ⟨after, shape⟩ := separated there
          rw [letters] at shape
          exact letter (List.cons.inj shape).1
        · rw [read] at split
          obtain ⟨rfl, rfl⟩ := Prod.mk.inj split
          exact .inl shape

end Microserver.FilterSyntax
