import Microserver.Queries
import Microserver.Reachable
import Microserver.Tokens

/-!
Two readings of a JSON text. validateReferences decodes the text with
encoding/json, which keeps the last value of a repeated name; json_extract reads
the stored text and takes the first. They find the same id in a field when both
values stand for the same integer, and json_extract reads only so deep.
-/
namespace Microserver.Readings
open Microserver.Values Microserver.Store Microserver.Programs Microserver.Statements Microserver.Operations
open Microserver.Reads Microserver.Histories Microserver.Reachable Microserver.Queries Microserver.Tokens

/-! ### Texts -/

/-- A number as it is spelled: its sign and the digits before the point, whether
    a fraction or an exponent follows, and the float64 that it denotes. -/
structure Literal where
  negative : Bool
  digits : Nat
  fractional : Bool
  float : Double

/-- Both readers take a literal for an integer when it has no fraction and no
    exponent and fits int64. -/
def Literal.int64 (l : Literal) : Option Int :=
  let n : Int := if l.negative then -l.digits else l.digits
  if l.fractional = false ∧ InInt64 n then some n else none

/-- A JSON text, with the members of its objects in the order in which they are
    written. -/
inductive JsonText
  | null
  | bool (b : Bool)
  | number (l : Literal)
  | str (s : String)
  | arr (items : List JsonText)
  | obj (members : List (String × JsonText))

namespace JsonText

mutual
/-- How deep arrays and objects are nested. -/
def depth : JsonText → Nat
  | .arr items => depthItems items + 1
  | .obj members => depthMembers members + 1
  | _ => 0
def depthItems : List JsonText → Nat
  | [] => 0
  | x :: rest => max (depth x) (depthItems rest)
def depthMembers : List (String × JsonText) → Nat
  | [] => 0
  | (_, x) :: rest => max (depth x) (depthMembers rest)
end

mutual
/-- The value of a text, with the members of its objects as they are written. -/
def value : JsonText → Json
  | .null => .null
  | .bool b => .bool b
  | .number l => match l.int64 with | some n => .int n | none => .real l.float
  | .str s => .str s
  | .arr items => .arr (valueItems items)
  | .obj members => .obj (valueMembers members)
def valueItems : List JsonText → List Json
  | [] => []
  | x :: rest => value x :: valueItems rest
def valueMembers : List (String × JsonText) → List (String × Json)
  | [] => []
  | (name, x) :: rest => (name, value x) :: valueMembers rest
end

/-- The members of a text that is an object. -/
def members : JsonText → List (String × JsonText)
  | .obj members => members
  | _ => []

/-- The integer that `=` of SQL takes a value for, if it is an int64. -/
def sqlInteger : JsonText → Option Int
  | .bool b => some (if b then 1 else 0)
  | .number l =>
    match l.int64, l.float with
    | some n, _ => some n
    | none, .negZero => some 0
    | none, .finite x => if x.den = 1 ∧ InInt64 x.num then some x.num else none
    | none, _ => none
  | _ => none

end JsonText

/-- What is stored for `data`. -/
def storedText (data : Option JsonText) : JsonText := data.getD (.obj [])

/-- The id that validateReferences looks up for a field, of a repeated name in the last
    member; none for a field that is absent or null. -/
def checkedId (data : Option JsonText) (field : String) : Option Int :=
  match unmarshalFields (data.map JsonText.value) with
  | .error _ => none
  | .ok parsed =>
    match parsed.lookup field with
    | some (.int refID) => some refID
    | _ => none

/-- `json_extract(data, '$.field')` of a stored text: of a repeated name the first member. -/
def extractText (h : Host) (text : JsonText) (field : String) : Except Err SqlValue :=
  if jsonMaxDepth < text.depth then .error malformedJSON else .ok (jsonExtract h.jsonText text.value field)

/-- One of the operations accepts the text as `data` for the collection. Each of
    them decodes the text to validate it and stores the text itself. -/
def Accepted (h : Host) (s : DB) (coll : Collection) (data : Option JsonText) : Prop :=
  (∃ id text faults n, ((machine h).run (insertDocument coll id text (data.map JsonText.value)) faults s).1 = .ok n) ∨
  (∃ batch faults ids, (∃ it ∈ batch, it.data = data.map JsonText.value) ∧
    ((machine h).run (insertDocumentBulk coll batch) faults s).1 = .ok ids) ∨
  ∃ id text faults found, ((machine h).run (updateDocument coll id text (data.map JsonText.value)) faults s).1 = .ok found

/-- The lookup before a delete reads the stored text, and finds the item under the
    id that was checked and under no other one. -/
def FoundAsChecked (h : Host) (data : Option JsonText) (field : String) : Prop :=
  ∃ v, extractText h (storedText data) field = .ok v ∧
    ∀ id, InInt64 id → (v.equalsInt id = true ↔ checkedId data field = some id)

/-- The text is nested no deeper than SQLite reads, and the first and the last
    value of the field are the same integer to SQL, or neither is one. -/
def SameInteger (data : Option JsonText) (field : String) : Prop :=
  (storedText data).depth ≤ jsonMaxDepth ∧
    ((storedText data).members.lookup field).bind JsonText.sqlInteger =
      ((storedText data).members.reverse.lookup field).bind JsonText.sqlInteger

variable {h : Host} {s : DB} {coll : Collection} {data : Option JsonText} {field : String}

/-! ### Fields -/

theorem valueMembers_eq (members : List (String × JsonText)) :
    JsonText.valueMembers members = members.map fun e => (e.1, e.2.value) := by
  induction members with
  | nil => rfl
  | cons e rest ih => simp [JsonText.valueMembers, ih]

theorem lookup_values {α β : Type} (f : α → β) (entries : List (String × α)) (name : String) :
    (entries.map fun e => (e.1, f e.2)).lookup name = (entries.lookup name).map f := by
  induction entries with
  | nil => rfl
  | cons e rest ih =>
    obtain ⟨key, value⟩ := e
    simp only [List.map_cons, List.lookup_cons, ih]
    cases name == key <;> rfl

/-- SQLite reads the first value of a name. -/
theorem field_value (text : JsonText) : text.value.field field = (text.members.lookup field).map JsonText.value := by
  cases text with
  | obj members =>
    show (JsonText.valueMembers members).lookup field = _
    rw [valueMembers_eq]
    exact lookup_values _ _ _
  | null | bool _ | str _ | arr _ => rfl
  | number l =>
    show (match l.int64 with | some n => Json.int n | none => Json.real l.float).field field = none
    split <;> rfl

/-- encoding/json keeps the last value of a name. -/
theorem lastField_value (text : JsonText) :
    text.value.lastField field = (text.members.reverse.lookup field).map JsonText.value := by
  cases text with
  | obj members =>
    show (JsonText.valueMembers members).reverse.lookup field = _
    rw [valueMembers_eq, ← List.map_reverse]
    exact lookup_values _ _ _
  | null | bool _ | str _ | arr _ => rfl
  | number l =>
    show (match l.int64 with | some n => Json.int n | none => Json.real l.float).lastField field = none
    split <;> rfl

theorem dataOrEmpty_value : dataOrEmpty (data.map JsonText.value) = (storedText data).value := by
  cases data <;> rfl

theorem lookup_iff_mem {α : Type} {entries : List (String × α)} (distinct : (entries.map (·.1)).Nodup) (name : String) (value : α) :
    entries.lookup name = some value ↔ (name, value) ∈ entries := by
  induction entries with
  | nil => simp
  | cons e rest ih =>
    obtain ⟨key, held⟩ := e
    rw [List.map_cons, List.nodup_cons] at distinct
    rw [List.lookup_cons, List.mem_cons]
    by_cases same : name = key
    · subst same
      have elsewhere : (name, value) ∉ rest := fun member => distinct.1 (List.mem_map.mpr ⟨_, member, rfl⟩)
      simp [elsewhere, eq_comm]
    · have skipped : (name == key) = false := beq_eq_false_iff_ne.mpr same
      simp [skipped, same, ih distinct.2]

theorem lookup_reverse {α : Type} {entries : List (String × α)} (distinct : (entries.map (·.1)).Nodup) (name : String) :
    entries.reverse.lookup name = entries.lookup name := by
  have distinct' : (entries.reverse.map (·.1)).Nodup := by
    rw [List.map_reverse]
    exact List.nodup_reverse.mpr distinct
  refine Option.ext fun value => ?_
  rw [lookup_iff_mem distinct', lookup_iff_mem distinct, List.mem_reverse]

/-- The readings do not differ where no name is repeated. -/
theorem SameInteger.of_distinct (shallow : (storedText data).depth ≤ jsonMaxDepth)
    (distinct : ((storedText data).members.map (·.1)).Nodup) : SameInteger data field :=
  ⟨shallow, by rw [lookup_reverse distinct]⟩

/-! ### Integers -/

theorem Literal.int64_fits {l : Literal} {n : Int} (read : l.int64 = some n) : InInt64 n := by
  unfold Literal.int64 at read
  simp only [Option.ite_none_right_eq_some, Option.some.injEq] at read
  obtain ⟨⟨-, fits⟩, rfl⟩ := read
  exact fits

theorem sqlInteger_fits {text : JsonText} {n : Int} (read : text.sqlInteger = some n) : InInt64 n := by
  cases text with
  | bool b =>
    cases Option.some.inj read
    cases b <;> decide
  | number l =>
    unfold JsonText.sqlInteger at read
    cases whole : l.int64 with
    | some m =>
      simp only [whole, Option.some.injEq] at read
      exact read ▸ Literal.int64_fits whole
    | none =>
      cases float : l.float with
      | finite x =>
        simp only [whole, float, Option.ite_none_right_eq_some, Option.some.injEq] at read
        obtain ⟨⟨-, fits⟩, rfl⟩ := read
        exact fits
      | negZero =>
        simp only [whole, float, Option.some.injEq] at read
        exact read ▸ by decide
      | negInf | posInf => simp [whole, float] at read
  | null | str _ | arr _ | obj _ => cases read

theorem equalsInt_finite (x : ℚ) (n : Int) : (SqlValue.real (.finite x)).equalsInt n = true ↔ x.den = 1 ∧ x.num = n := by
  have same : (SqlValue.real (.finite x)).equalsInt n = true ↔ x = n := by
    simp [SqlValue.equalsInt, SqlValue.number]
  rw [same]
  constructor
  · rintro rfl
    exact ⟨Rat.den_intCast n, Rat.num_intCast n⟩
  · rintro ⟨whole, rfl⟩
    exact (Rat.den_eq_one_iff x).mp whole |>.symm

/-- The comparison of json_extract with an int64 goes by `sqlInteger`. -/
theorem equalsInt_value (text : JsonText) (field : String) {id : Int} (fits : InInt64 id) :
    (jsonExtract h.jsonText text.value field).equalsInt id = true ↔
      (text.members.lookup field).bind JsonText.sqlInteger = some id := by
  unfold jsonExtract
  rw [field_value]
  cases text.members.lookup field with
  | none => simp
  | some value =>
    simp only [Option.map_some, Option.bind_some]
    cases value with
    | null => simp [JsonText.value, JsonText.sqlInteger]
    | bool b => simp [JsonText.value, JsonText.sqlInteger]
    | str _ | arr _ | obj _ => simp [JsonText.value, JsonText.sqlInteger, SqlValue.equalsInt, SqlValue.number]
    | number l =>
      cases whole : l.int64 with
      | some n => simp [JsonText.value, JsonText.sqlInteger, whole]
      | none =>
        cases float : l.float with
        | finite x =>
          simp only [JsonText.value, JsonText.sqlInteger, whole, float, equalsInt_finite, Option.ite_none_right_eq_some,
            Option.some.injEq]
          constructor
          · rintro ⟨integral, rfl⟩
            exact ⟨⟨integral, fits⟩, rfl⟩
          · rintro ⟨⟨integral, -⟩, same⟩
            exact ⟨integral, same⟩
        | negZero =>
          simp [JsonText.value, JsonText.sqlInteger, whole, float, SqlValue.equalsInt, SqlValue.number,
            @eq_comm Int 0]
        | negInf | posInf => simp [JsonText.value, JsonText.sqlInteger, whole, float, SqlValue.equalsInt, SqlValue.number]

/-! ### Accepted texts -/

/-- What an operation accepts, validateReferences has accepted. -/
theorem Accepted.accepts (accepted : Accepted h s coll data) : Accepts s coll.name (data.map JsonText.value) := by
  rcases accepted with ⟨id, text, faults, n, done⟩ | ⟨batch, faults, ids, ⟨it, listed, same⟩, done⟩ | ⟨id, text, faults, found, done⟩
  · have judged : (machine h).wp (fun r _ => ∀ n, r = .ok n → Accepts s coll.name (data.map JsonText.value))
        (insertDocument coll id text (data.map JsonText.value)) s :=
      wp_insertDocument (fun _ => nofun) (fun _ accepts _ _ _ _ _ => accepts)
        fun _ accepts _ _ _ _ _ => ⟨fun _ => nofun, fun _ _ _ _ _ => accepts⟩
    exact (machine h).wp_iff_run.mp judged faults n done
  · have judged : (machine h).wp (fun r _ => ∀ ids, r = .ok ids → ∀ it ∈ batch, Accepts s coll.name it.data)
        (insertDocumentBulk coll batch) s :=
      wp_insertDocumentBulk (fun _ => nofun) fun _ _ accepts _ _ _ _ _ => accepts
    rw [← same]
    exact (machine h).wp_iff_run.mp judged faults ids done it listed
  · have judged : (machine h).wp (fun r _ => ∀ found, r = .ok found → Accepts s coll.name (data.map JsonText.value))
        (updateDocument coll id text (data.map JsonText.value)) s :=
      wp_updateDocument (fun _ => nofun) (fun _ accepts _ _ _ _ _ => accepts) fun _ accepts _ _ _ _ _ _ _ => accepts
    exact (machine h).wp_iff_run.mp judged faults found done

/-- In an accepted text the last value of a reference field is an integer or null. -/
theorem checkedId_accepted (accepts : Accepts s coll.name (data.map JsonText.value)) {r : ReferenceRow} (declared : r ∈ s.owned coll.name) :
    checkedId data r.fieldName = ((storedText data).members.reverse.lookup r.fieldName).bind JsonText.sqlInteger := by
  obtain none | ⟨parsed, decoded, resolves⟩ := accepts
  · rw [none] at declared
    cases declared
  · have value := resolves r declared
    have last : parsed.lookup r.fieldName = ((storedText data).members.reverse.lookup r.fieldName).map JsonText.value := by
      rw [← lastField_dataOrEmpty decoded, dataOrEmpty_value, lastField_value]
    unfold checkedId
    rw [last] at value
    simp only [decoded, last]
    cases found : (storedText data).members.reverse.lookup r.fieldName with
    | none => rfl
    | some text =>
      rw [found, Option.map_some] at value
      rcases value with absent | isNull | ⟨n, int, -⟩
      · cases absent
      · cases text with
        | null => rfl
        | bool _ | str _ | arr _ | obj _ => cases isNull
        | number l =>
          simp only [JsonText.value, Option.some.injEq] at isNull
          split at isNull <;> cases isNull
      · cases text with
        | null | bool _ | str _ | arr _ | obj _ => cases int
        | number l =>
          simp only [JsonText.value, Option.some.injEq] at int
          cases whole : l.int64 with
          | none => simp [whole] at int
          | some m => simp [JsonText.value, JsonText.sqlInteger, whole]

/-- Of an accepted text, the lookup before a delete finds in a reference field the
    id that was checked, and nothing else, exactly when the first and the last
    value of the field are the same integer and the text is not nested too deep. -/
theorem found_as_checked_iff (h : Host) (s : DB) (coll : Collection) (data : Option JsonText) (accepted : Accepted h s coll data)
    (r : ReferenceRow) (declared : r ∈ s.owned coll.name) :
    FoundAsChecked h data r.fieldName ↔ SameInteger data r.fieldName := by
  have checked := checkedId_accepted accepted.accepts declared
  unfold FoundAsChecked SameInteger extractText
  by_cases deep : jsonMaxDepth < (storedText data).depth
  · rw [if_pos deep]
    constructor
    · rintro ⟨v, impossible, -⟩
      cases impossible
    · rintro ⟨shallow, -⟩
      exact absurd shallow (not_le.mpr deep)
  · rw [if_neg deep]
    simp only [Except.ok.injEq, exists_eq_left', not_lt.mp deep, true_and, checked]
    constructor
    · intro each
      refine Option.ext fun n => ?_
      constructor
      · intro first
        have fits : InInt64 n := by
          obtain ⟨value, -, read⟩ := Option.bind_eq_some_iff.mp first
          exact sqlInteger_fits read
        exact (each n fits).mp ((equalsInt_value _ _ fits).mpr first)
      · intro last
        have fits : InInt64 n := by
          obtain ⟨value, -, read⟩ := Option.bind_eq_some_iff.mp last
          exact sqlInteger_fits read
        exact (equalsInt_value _ _ fits).mp ((each n fits).mpr last)
    · intro same id fits
      rw [equalsInt_value _ _ fits, same]

/-- Items of "d" refer to items of "t" in their field "f". -/
def declaring : List (Call × List Bool) :=
  [(.createCollection "t" false 0 ⟨[], List.nodup_nil⟩, []),
    (.createCollection "d" false 0 ⟨[("f", ⟨"t", onDeleteSetNull⟩)], List.nodup_singleton "f"⟩, []),
    (.insertDocument "t" none "" none, [])]

/-- The literal 1. -/
def literalOne : JsonText := .number ⟨false, 1, false, .finite 1⟩

theorem found_as_checked_literalOne : FoundAsChecked Host.uniform (some (.obj [("f", literalOne)])) "f" :=
  (found_as_checked_iff Host.uniform (reached Host.uniform declaring) ⟨"d", "coll_d", false, 0⟩ (some (.obj [("f", literalOne)]))
    (.inl ⟨none, "", [], 1, by rfl⟩) ⟨"d", "f", "t", onDeleteSetNull⟩ (by decide)).mpr
      (.of_distinct (by decide) (List.nodup_singleton "f"))

/-- A text that gives f as 1 and then as null is accepted as one without a
    reference, and found as one to item 1. -/
theorem repeated_field_found :
    ¬ ∀ (h : Host) (s : DB) (coll : Collection) (data : Option JsonText), Accepted h s coll data →
      ∀ r ∈ s.owned coll.name, FoundAsChecked h data r.fieldName := by
  intro all
  obtain ⟨v, read, each⟩ := all Host.uniform (reached Host.uniform declaring) ⟨"d", "coll_d", false, 0⟩
    (some (.obj [("f", literalOne), ("f", .null)])) (.inl ⟨none, "", [], 1, by rfl⟩) ⟨"d", "f", "t", onDeleteSetNull⟩ (by decide)
  cases read
  exact absurd ((each 1 (by decide)).mp (by decide)) (by decide)

end Microserver.Readings
