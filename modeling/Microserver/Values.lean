import Mathlib.Data.Prod.Lex
import Mathlib.Data.Rat.Cast.Order
import Mathlib.Data.String.Basic
import Mathlib.Order.WithBot
import Mathlib.Tactic.Common

/-!
Values: the JSON that items carry in `data`, and what SQLite's `json_extract`
makes of a top-level field of it. The text of a JSON object may list a name twice:
SQLite then reads the first value of it, `json.Unmarshal` keeps the last one.
-/
namespace Microserver.Values

/-- A float64 other than NaN. `finite 0` is the zero without a sign. -/
inductive Double
  | negInf
  | negZero
  | finite (x : ℚ)
  | posInf
deriving DecidableEq

/-- The number that a finite float64 is. -/
def Double.toRat : Double → Option ℚ
  | .negZero => some 0
  | .finite x => some x
  | _ => none

/-- A JSON value. `int` is a literal without fraction or exponent that fits
    int64; every other number literal is `real`, by the float64 it denotes. -/
inductive Json
  | null
  | bool (b : Bool)
  | int (n : Int)
  | real (x : Double)
  | str (s : String)
  | arr (items : List Json)
  | obj (fields : List (String × Json))

namespace Json

mutual
/-- How deep arrays and objects are nested. -/
def depth : Json → Nat
  | .arr items => depthItems items + 1
  | .obj fields => depthFields fields + 1
  | _ => 0
def depthItems : List Json → Nat
  | [] => 0
  | x :: rest => max (depth x) (depthItems rest)
def depthFields : List (String × Json) → Nat
  | [] => 0
  | (_, x) :: rest => max (depth x) (depthFields rest)
end

/-- The value of a top-level field as SQLite reads it, if the value is an object that has it. -/
def field (name : String) : Json → Option Json
  | .obj fields => fields.lookup name
  | _ => none

/-- The value of a top-level field as `json.Unmarshal` into a map reads it. -/
def lastField (name : String) : Json → Option Json
  | .obj fields => fields.reverse.lookup name
  | _ => none

mutual
/-- Whether two values are the same. -/
def beq : Json → Json → Bool
  | .null, .null => true
  | .bool a, .bool b => a == b
  | .int a, .int b => a == b
  | .real a, .real b => decide (a = b)
  | .str a, .str b => a == b
  | .arr a, .arr b => beqItems a b
  | .obj a, .obj b => beqFields a b
  | _, _ => false
def beqItems : List Json → List Json → Bool
  | [], [] => true
  | x :: xs, y :: ys => beq x y && beqItems xs ys
  | _, _ => false
def beqFields : List (String × Json) → List (String × Json) → Bool
  | [], [] => true
  | (a, x) :: xs, (b, y) :: ys => a == b && beq x y && beqFields xs ys
  | _, _ => false
end

mutual
theorem beq_iff : ∀ a b : Json, beq a b = true ↔ a = b
  | .null, b => by cases b <;> simp [beq]
  | .bool _, b => by cases b <;> simp [beq]
  | .int _, b => by cases b <;> simp [beq]
  | .real _, b => by cases b <;> simp [beq]
  | .str _, b => by cases b <;> simp [beq]
  | .arr items, b => by cases b <;> simp [beq, beqItems_iff items]
  | .obj fields, b => by cases b <;> simp [beq, beqFields_iff fields]
theorem beqItems_iff : ∀ a b : List Json, beqItems a b = true ↔ a = b
  | [], b => by cases b <;> simp [beqItems]
  | x :: xs, b => by cases b <;> simp [beqItems, beq_iff x, beqItems_iff xs]
theorem beqFields_iff : ∀ a b : List (String × Json), beqFields a b = true ↔ a = b
  | [], b => by cases b <;> simp [beqFields]
  | (_, x) :: xs, b => by
    cases b with
    | nil => simp [beqFields]
    | cons y ys => simp [beqFields, beq_iff x, beqFields_iff xs, Prod.ext_iff, and_assoc]
end

instance : DecidableEq Json := fun a b => decidable_of_iff _ (beq_iff a b)

/-- No field but `except` is listed twice with different values. -/
def UnambiguousBut (except : Option String) : Json → Prop
  | .obj fields => ∀ entry ∈ fields, some entry.1 ≠ except → fields.reverse.lookup entry.1 = fields.lookup entry.1
  | _ => True

instance (except : Option String) : (data : Json) → Decidable (data.UnambiguousBut except)
  | .obj fields => inferInstanceAs
      (Decidable (∀ entry ∈ fields, some entry.1 ≠ except → fields.reverse.lookup entry.1 = fields.lookup entry.1))
  | .null | .bool _ | .int _ | .real _ | .str _ | .arr _ => .isTrue trivial

/-- No field is listed twice with different values. -/
def Unambiguous (data : Json) : Prop := data.UnambiguousBut none

instance (data : Json) : Decidable data.Unambiguous := by
  unfold Unambiguous
  exact inferInstance

example : (Json.obj [("f", .int 1), ("g", .null), ("f", .int 1)]).Unambiguous ∧
    ¬ (Json.obj [("f", .int 1), ("f", .null)]).Unambiguous := by decide

/-- The two readings of a field agree where it is not ambiguous. -/
theorem UnambiguousBut.lastField_eq {except : Option String} {data : Json} (unambiguous : data.UnambiguousBut except)
    {name : String} (different : some name ≠ except) : data.lastField name = data.field name := by
  cases data with
  | null | bool _ | int _ | real _ | str _ | arr _ => rfl
  | obj fields =>
    by_cases listed : name ∈ fields.map Prod.fst
    · obtain ⟨entry, member, rfl⟩ := List.mem_map.mp listed
      exact unambiguous entry member different
    · have absent (entry : String × Json) (member : entry ∈ fields) : (name == entry.1) = false :=
        beq_eq_false_iff_ne.mpr fun same => listed (same ▸ List.mem_map_of_mem member)
      simp only [lastField, field]
      rw [List.lookup_eq_none_iff.mpr (by simpa using absent), List.lookup_eq_none_iff.mpr (by simpa using absent)]

theorem Unambiguous.but {data : Json} (unambiguous : data.Unambiguous) (except : Option String) : data.UnambiguousBut except := by
  cases data with
  | null | bool _ | int _ | real _ | str _ | arr _ => trivial
  | obj fields => exact fun entry listed _ => unambiguous entry listed (Option.some_ne_none _)

theorem Unambiguous.lastField_eq {data : Json} (unambiguous : data.Unambiguous) (name : String) :
    data.lastField name = data.field name :=
  UnambiguousBut.lastField_eq unambiguous (Option.some_ne_none name)

end Json

/-! ### The map of an object -/

/-- `m[name] = value` on a map, with its names in ascending order, as `json.Marshal` writes them. -/
def assign (name : String) (value : Json) : List (String × Json) → List (String × Json)
  | [] => [(name, value)]
  | (key, other) :: rest =>
    if name < key then (name, value) :: (key, other) :: rest
    else if name = key then (name, value) :: rest
    else (key, other) :: assign name value rest

/-- `json.Unmarshal` of an object into a map: each member is assigned in turn. -/
def unmarshalMap (fields : List (String × Json)) : List (String × Json) :=
  fields.foldl (fun m entry => assign entry.1 entry.2 m) []

/-- What `json.Marshal` writes after `m[field] = null` on the map of an object. -/
def setNull (name : String) (fields : List (String × Json)) : List (String × Json) :=
  assign name .null (unmarshalMap fields)

example : setNull "f" [("g", .int 5), ("f", .int 1), ("g", .int 6)] = [("f", .null), ("g", .int 6)] := by rfl

theorem lookup_assign_same (name : String) (value : Json) (m : List (String × Json)) :
    (assign name value m).lookup name = some value := by
  induction m with
  | nil => simp [assign]
  | cons entry rest ih =>
    obtain ⟨key, other⟩ := entry
    simp only [assign]
    split_ifs with before same
    · simp
    · simp
    · rw [List.lookup_cons, beq_eq_false_iff_ne.mpr same, ih]

theorem lookup_assign_other {name other : String} (different : other ≠ name) (value : Json) (m : List (String × Json)) :
    (assign name value m).lookup other = m.lookup other := by
  have skipped : (other == name) = false := beq_eq_false_iff_ne.mpr different
  induction m with
  | nil => simp [assign, List.lookup_cons, skipped]
  | cons entry rest ih =>
    obtain ⟨key, held⟩ := entry
    simp only [assign]
    split_ifs with before same
    · rw [List.lookup_cons, skipped]
    · subst same
      simp only [List.lookup_cons, skipped]
    · simp only [List.lookup_cons, ih]

theorem lookup_assign (name other : String) (value : Json) (m : List (String × Json)) :
    (assign name value m).lookup other = ((name, value) :: m).lookup other := by
  by_cases here : other = name
  · subst here
    rw [lookup_assign_same, List.lookup_cons_self]
  · rw [lookup_assign_other here, List.lookup_cons, beq_eq_false_iff_ne.mpr here]

/-- A map holds the last value that the object has for a name. -/
theorem lookup_unmarshalMap (fields : List (String × Json)) (name : String) :
    (unmarshalMap fields).lookup name = fields.reverse.lookup name := by
  suffices general : ∀ m : List (String × Json),
      (fields.foldl (fun m entry => assign entry.1 entry.2 m) m).lookup name = (fields.reverse ++ m).lookup name by
    simpa [unmarshalMap] using general []
  induction fields with
  | nil => simp
  | cons entry rest ih =>
    intro m
    rw [List.foldl_cons, ih, List.lookup_append, lookup_assign, List.reverse_cons, List.append_assoc,
      List.singleton_append, List.lookup_append]

/-- The names of a map, in ascending order. -/
def Ascending (m : List (String × Json)) : Prop := (m.map Prod.fst).Pairwise (· < ·)

theorem mem_names_assign {name key : String} {value : Json} {m : List (String × Json)}
    (listed : key ∈ (assign name value m).map Prod.fst) : key = name ∨ key ∈ m.map Prod.fst := by
  induction m with
  | nil => simpa [assign] using listed
  | cons entry rest ih =>
    obtain ⟨first, held⟩ := entry
    simp only [assign] at listed
    split_ifs at listed with before same <;> simp only [List.map_cons, List.mem_cons] at listed ⊢ <;> tauto

theorem Ascending.assign {m : List (String × Json)} (ascending : Ascending m) (name : String) (value : Json) :
    Ascending (assign name value m) := by
  induction m with
  | nil => exact List.pairwise_singleton _ _
  | cons entry rest ih =>
    obtain ⟨key, held⟩ := entry
    have ⟨least, tail⟩ := List.pairwise_cons.mp ascending
    simp only [Values.assign]
    split_ifs with before same
    · exact List.pairwise_cons.mpr ⟨fun other listed => (List.mem_cons.mp listed).elim (fun same => same ▸ before)
        fun listed => before.trans (least other listed), ascending⟩
    · exact List.pairwise_cons.mpr ⟨fun other listed => same ▸ least other listed, tail⟩
    · have after : key < name := lt_of_le_of_ne (not_lt.mp before) (Ne.symm same)
      exact List.pairwise_cons.mpr ⟨fun other listed => (mem_names_assign listed).elim (fun same => same ▸ after)
        (least other), ih tail⟩

theorem ascending_unmarshalMap (fields : List (String × Json)) : Ascending (unmarshalMap fields) :=
  List.foldlRecOn fields _ List.Pairwise.nil fun _ ascending _ _ => ascending.assign _ _

/-- An object that lists every name once is unambiguous. -/
theorem unambiguous_of_nodup {fields : List (String × Json)} (distinct : (fields.map Prod.fst).Nodup) :
    (Json.obj fields).Unambiguous := by
  have once (m : List (String × Json)) (distinct : (m.map Prod.fst).Nodup) {entry : String × Json} (listed : entry ∈ m) :
      m.lookup entry.1 = some entry.2 := by
    induction m with
    | nil => cases listed
    | cons head rest ih =>
      have ⟨fresh, tail⟩ := List.nodup_cons.mp distinct
      rcases List.mem_cons.mp listed with rfl | later
      · exact List.lookup_cons_self
      · have other : entry.1 ≠ head.1 := fun same => fresh (same ▸ List.mem_map_of_mem later)
        rw [List.lookup_cons, beq_eq_false_iff_ne.mpr other]
        exact ih tail later
  intro entry listed _
  have backwards : (fields.reverse.map Prod.fst).Nodup := by
    rw [List.map_reverse]
    exact List.pairwise_reverse.mpr (distinct.imp Ne.symm)
  exact (once fields.reverse backwards (List.mem_reverse.mpr listed)).trans (once fields distinct listed).symm

theorem unambiguous_setNull (name : String) (fields : List (String × Json)) :
    (Json.obj (setNull name fields)).Unambiguous :=
  unambiguous_of_nodup (((ascending_unmarshalMap fields).assign name .null).imp fun before => before.ne)

@[simp] theorem field_setNull_same (name : String) (fields : List (String × Json)) :
    (Json.obj (setNull name fields)).field name = some .null :=
  lookup_assign_same name .null _

theorem field_setNull_other {name other : String} (different : other ≠ name) (fields : List (String × Json)) :
    (Json.obj (setNull name fields)).field other = (Json.obj fields).lastField other :=
  (lookup_assign_other different .null _).trans (lookup_unmarshalMap fields other)

/-- A value as SQLite holds it; blobs never come from JSON. -/
inductive SqlValue
  | null
  | integer (n : Int)
  | real (x : Double)
  | text (s : String)
deriving DecidableEq

namespace SqlValue

/-- Numbers on one line, whatever their storage class. -/
def number : SqlValue → Option (WithBot (WithTop ℚ))
  | .integer n => some ((n : ℚ) : WithTop ℚ)
  | .real .negInf => some ⊥
  | .real .negZero => some ((0 : ℚ) : WithTop ℚ)
  | .real (.finite x) => some (x : WithTop ℚ)
  | .real .posInf => some ((⊤ : WithTop ℚ) : WithBot (WithTop ℚ))
  | _ => none

/-- The place of a value in the order of SQL: NULL, then numbers, then text. -/
def key (v : SqlValue) : ℕ ×ₗ WithBot (WithTop ℚ) ×ₗ String :=
  match v with
  | .null => toLex (0, toLex (⊥, ""))
  | .text s => toLex (2, toLex (⊥, s))
  | number => toLex (1, toLex (number.number.getD ⊥, ""))

/-- `v = n` for an integer `n`: true for the number and for nothing else. -/
def equalsInt (v : SqlValue) (n : Int) : Bool := v.number = some ((n : ℚ) : WithTop ℚ)

@[simp] theorem equalsInt_null (n : Int) : SqlValue.null.equalsInt n = false := rfl

@[simp] theorem equalsInt_integer (m n : Int) : (SqlValue.integer m).equalsInt n = decide (m = n) := by
  simp [equalsInt, number]

end SqlValue

/-- `json_extract(data, '$.name')`: scalars become SQL values, `true` and `false`
    become 1 and 0, an array or object becomes its text. -/
def jsonExtract (jsonText : Json → String) (data : Json) (name : String) : SqlValue :=
  match data.field name with
  | none => .null
  | some .null => .null
  | some (.bool b) => .integer (if b then 1 else 0)
  | some (.int n) => .integer n
  | some (.real x) => .real x
  | some (.str s) => .text s
  | some v => .text (jsonText v)

/-- SQLite reads JSON text nested up to this depth and calls deeper text malformed. -/
def jsonMaxDepth : Nat := 1000

theorem jsonExtract_int {jsonText : Json → String} {data : Json} {name : String} {n : Int}
    (value : data.field name = some (.int n)) : jsonExtract jsonText data name = .integer n := by
  simp [jsonExtract, value]

theorem jsonExtract_unset {jsonText : Json → String} {data : Json} {name : String}
    (unset : data.field name = none ∨ data.field name = some .null) :
    jsonExtract jsonText data name = .null := by
  rcases unset with absent | isNull
  · simp [jsonExtract, absent]
  · simp [jsonExtract, isNull]

end Microserver.Values
