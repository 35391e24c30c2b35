import Mathlib.Data.List.Perm.Basic
import Mathlib.Data.List.Sort
import Microserver.SqlTexts

/-!
What a SELECT means. A text with its arguments in place is read as lexemes and
these as a query: the columns, the table, conditions, a group, an order, a limit
and an offset, on top of one other such query at most. A query over a database has
the answers that SQL allows: the rows that meet the conditions, in an order by the
keys in which equal keys stand as they like, without those before the offset and
behind the limit.
-/
namespace Microserver.SqlSelects
open Microserver.SqlTexts
universe u v w
variable {α : Type u} {V : Type v} {K : Type w}

/-! ### Lexemes -/

abbrev Name := List Char

/-- A word, a quoted name, a sign, or an argument. -/
inductive Lexeme (α : Type u)
  | word (text : Name)
  | name (text : Name)
  | sign (text : Name)
  | arg (a : α)

/-- Where the reader of pieces is: between lexemes, in a word or a sign, in a quoted
    name, or behind a mark that ends the name or is the first of two. -/
inductive Scan
  | outside
  | word (text : Name)
  | sign (text : Name)
  | inside (text : Name)
  | mark (text : Name)

def wordChar (c : Char) : Bool := c.isAlphanum || c == '_' || c == '.'
def signChar (c : Char) : Bool := c == '=' || c == '!' || c == '<' || c == '>'

/-- Where a character leads that stands between lexemes; a sign of one character is
    a lexeme at once. -/
def begins (c : Char) : List (Lexeme α) × Scan :=
  if c.isWhitespace then ([], .outside)
  else if c = '"' then ([], .inside [])
  else if wordChar c then ([], .word [c])
  else if signChar c then ([], .sign [c])
  else ([.sign [c]], .outside)

/-- The lexeme that ends here. -/
def ends : Scan → List (Lexeme α)
  | .outside => []
  | .word text => [.word text]
  | .sign text => [.sign text]
  | .inside _ => []
  | .mark text => [.name text]

/-- The lexeme that a character goes on with. -/
def continues : Scan → Char → Option Scan
  | .outside, _ => none
  | .word text, c => if wordChar c then some (.word (text ++ [c])) else none
  | .sign text, c => if signChar c then some (.sign (text ++ [c])) else none
  | .inside text, c => some (if c = '"' then .mark text else .inside (text ++ [c]))
  | .mark text, c => if c = '"' then some (.inside (text ++ ['"'])) else none

def scanPiece (s : Scan) : Piece α → List (Lexeme α) × Scan
  | .arg a => (ends s ++ [.arg a], .outside)
  | .char c =>
    match continues s c with
    | some s' => ([], s')
    | none =>
      let next : List (Lexeme α) × Scan := begins c
      (ends s ++ next.1, next.2)

def scan : Scan → List (Piece α) → List (Lexeme α) × Scan
  | s, [] => ([], s)
  | s, p :: rest => ((scanPiece s p).1 ++ (scan (scanPiece s p).2 rest).1, (scan (scanPiece s p).2 rest).2)

def lexemes (pieces : List (Piece α)) : List (Lexeme α) := (scan .outside pieces).1 ++ ends (scan .outside pieces).2

@[simp] theorem scan_nil (s : Scan) : scan s ([] : List (Piece α)) = ([], s) := rfl

theorem scan_append (s : Scan) (p q : List (Piece α)) :
    scan s (p ++ q) = ((scan s p).1 ++ (scan (scan s p).2 q).1, (scan (scan s p).2 q).2) := by
  induction p generalizing s with
  | nil => rfl
  | cons piece rest ih => rw [List.cons_append, scan, ih, scan, List.append_assoc]

/-- The pieces are read between lexemes, as these. -/
def Lexes (pieces : List (Piece α)) (ls : List (Lexeme α)) : Prop := scan .outside pieces = (ls, .outside)

theorem lexes_nil : Lexes ([] : List (Piece α)) [] := rfl

theorem Lexes.append {p q : List (Piece α)} {ls ls' : List (Lexeme α)} (first : Lexes p ls) (second : Lexes q ls') :
    Lexes (p ++ q) (ls ++ ls') := by
  unfold Lexes at *
  rw [scan_append, first, second]

theorem Lexes.arg {p : List (Piece α)} {ls : List (Lexeme α)} (later : Lexes p ls) (a : α) : Lexes (.arg a :: p) (.arg a :: ls) := by
  unfold Lexes at *
  rw [scan]
  show ([.arg a] ++ (scan .outside p).1, (scan .outside p).2) = _
  rw [later]
  rfl

theorem Lexes.lexemes {p : List (Piece α)} {ls : List (Lexeme α)} (lexes : Lexes p ls) : lexemes p = ls := by
  unfold SqlSelects.lexemes
  rw [lexes]
  exact List.append_nil ls

/-- The end of a text need not be between lexemes. -/
theorem Lexes.lexemes_append {p q : List (Piece α)} {ls : List (Lexeme α)} (lexes : Lexes p ls) :
    SqlSelects.lexemes (p ++ q) = ls ++ ((scan .outside q).1 ++ ends (scan .outside q).2) := by
  unfold SqlSelects.lexemes
  rw [scan_append, lexes, List.append_assoc]

theorem scan_inside {c : Char} (text : Name) (rest : List (Piece α)) :
    scan (.inside text) (.char c :: rest) = scan (if c = '"' then .mark text else .inside (text ++ [c])) rest := rfl

theorem scan_doubled (text name : Name) (rest : List (Piece α)) :
    scan (.inside text) ((doubled name).map .char ++ rest) = scan (.inside (text ++ name)) rest := by
  induction name generalizing text with
  | nil => simp [doubled]
  | cons c name ih =>
    have joined : text ++ [c] ++ name = text ++ c :: name := List.append_cons text c name |>.symm
    by_cases mark : c = '"'
    · have twice : doubled (c :: name) = '"' :: '"' :: doubled name := by simp [doubled, mark]
      rw [twice, List.map_cons, List.map_cons, List.cons_append, List.cons_append, scan_inside, if_pos rfl]
      show scan (.inside (text ++ ['"'])) ((doubled name).map .char ++ rest) = _
      rw [ih, ← joined, mark]
    · have once : doubled (c :: name) = c :: doubled name := by simp [doubled, mark]
      rw [once, List.map_cons, List.cons_append, scan_inside, if_neg mark, ih, joined]

/-- A quoted name with a blank behind it. -/
theorem lexes_quoted (name : Name) {c : Char} (blank : c.isWhitespace = true) :
    Lexes (('"' :: doubled name ++ ['"', c]).map (Piece.char (α := α))) [.name name] := by
  have other : c ≠ '"' := by
    rintro rfl
    exact absurd blank (by decide)
  show scan (.inside []) ((doubled name ++ ['"', c]).map (Piece.char (α := α))) = _
  rw [List.map_append, scan_doubled]
  simp [scan, scanPiece, continues, begins, ends, other, blank]

/-! ### The two readers of a text -/

def Lexeme.quoted : Lexeme α → Option Name
  | .name text => some text
  | _ => none

def Lexeme.given : Lexeme α → Option α
  | .arg a => some a
  | _ => none

/-- Where the reader of characters is. -/
def Scan.reading : Scan → Reading
  | .inside text => .inside text
  | .mark text => .mark text
  | _ => .outside

def Scan.inQuotes : Scan → Bool
  | .inside _ => true
  | _ => false

theorem begins_reads (c : Char) : (begins c : List (Lexeme α) × Scan).1.filterMap Lexeme.quoted = [] ∧
    (begins c : List (Lexeme α) × Scan).2.reading = (if c = '"' then .inside [] else .outside) ∧
    (begins c : List (Lexeme α) × Scan).2.inQuotes = decide (c = '"') := by
  unfold begins
  by_cases mark : c = '"'
  · rw [mark]
    exact ⟨rfl, rfl, rfl⟩
  · split_ifs <;> exact ⟨rfl, rfl, (decide_eq_false mark).symm⟩

theorem scanPiece_some {s s' : Scan} {c : Char} (goes : continues s c = some s') :
    scanPiece s (.char c : Piece α) = ([], s') := by
  simp only [scanPiece, goes]

theorem scanPiece_none {s : Scan} {c : Char} (stops : continues s c = none) : scanPiece s (.char c : Piece α) =
    (ends s ++ (begins c : List (Lexeme α) × Scan).1, (begins c : List (Lexeme α) × Scan).2) := by
  simp only [scanPiece, stops]

/-- One character: both readers find the same quoted name, if any, and go on alike. -/
theorem scanPiece_reads (s : Scan) (c : Char) (rest : List Char) :
    (tokensFrom s.reading (c :: rest)).filterMap Token.name =
        (scanPiece s (.char c : Piece α)).1.filterMap Lexeme.quoted ++
          (tokensFrom (scanPiece s (.char c : Piece α)).2.reading rest).filterMap Token.name ∧
      (scanPiece s (.char c : Piece α)).2.inQuotes = (s.inQuotes != decide (c = '"')) := by
  obtain ⟨nothing, reading, shut⟩ := begins_reads (α := α) c
  have plain (other : c ≠ '"') : (tokensFrom .outside (c :: rest)).filterMap Token.name = (tokensFrom .outside rest).filterMap Token.name := by
    rw [tokensFrom, if_neg other]
    rfl
  have start : (tokensFrom .outside (c :: rest)).filterMap Token.name =
      (tokensFrom (begins c : List (Lexeme α) × Scan).2.reading rest).filterMap Token.name := by
    rw [reading, tokensFrom]
    split <;> rfl
  -- a lexeme without marks ends here, or the character is one of it
  have ended {s : Scan} (stops : continues s c = none) (outside : s.reading = .outside) (closed : s.inQuotes = false)
      (unnamed : (ends s : List (Lexeme α)).filterMap Lexeme.quoted = []) : (tokensFrom s.reading (c :: rest)).filterMap Token.name =
        (scanPiece s (.char c : Piece α)).1.filterMap Lexeme.quoted ++
          (tokensFrom (scanPiece s (.char c : Piece α)).2.reading rest).filterMap Token.name ∧
      (scanPiece s (.char c : Piece α)).2.inQuotes = (s.inQuotes != decide (c = '"')) := by
    rw [scanPiece_none stops, List.filterMap_append, unnamed, nothing, outside, closed, Bool.false_bne]
    exact ⟨start, shut⟩
  have goes {s s' : Scan} (on : continues s c = some s') (other : c ≠ '"') (outside : s.reading = .outside ∧ s'.reading = .outside)
      (closed : s.inQuotes = false ∧ s'.inQuotes = false) : (tokensFrom s.reading (c :: rest)).filterMap Token.name =
        (scanPiece s (.char c : Piece α)).1.filterMap Lexeme.quoted ++
          (tokensFrom (scanPiece s (.char c : Piece α)).2.reading rest).filterMap Token.name ∧
      (scanPiece s (.char c : Piece α)).2.inQuotes = (s.inQuotes != decide (c = '"')) := by
    rw [scanPiece_some on, outside.1, outside.2, closed.1, closed.2, decide_eq_false other]
    exact ⟨plain other, rfl⟩
  cases s with
  | outside => exact ended rfl rfl rfl rfl
  | word text =>
    by_cases inside : wordChar c = true
    · refine goes (if_pos inside) ?_ ⟨rfl, rfl⟩ ⟨rfl, rfl⟩
      rintro rfl
      exact absurd inside (by decide)
    · exact ended (if_neg inside) rfl rfl rfl
  | sign text =>
    by_cases inside : signChar c = true
    · refine goes (if_pos inside) ?_ ⟨rfl, rfl⟩ ⟨rfl, rfl⟩
      rintro rfl
      exact absurd inside (by decide)
    · exact ended (if_neg inside) rfl rfl rfl
  | inside text =>
    show (tokensFrom (.inside text) (c :: rest)).filterMap Token.name = _ ++ _ ∧ _
    rw [scanPiece_some rfl, tokensFrom]
    by_cases mark : c = '"'
    · rw [if_pos mark, if_pos mark, decide_eq_true mark]
      exact ⟨rfl, rfl⟩
    · rw [if_neg mark, if_neg mark, decide_eq_false mark]
      exact ⟨rfl, rfl⟩
  | mark text =>
    show (tokensFrom (.mark text) (c :: rest)).filterMap Token.name = _ ++ _ ∧ _
    rw [tokensFrom]
    by_cases mark : c = '"'
    · have on : continues (.mark text) c = some (.inside (text ++ ['"'])) := if_pos mark
      rw [scanPiece_some on, if_pos mark, decide_eq_true mark]
      exact ⟨rfl, rfl⟩
    · have stops : continues (.mark text) c = none := if_neg mark
      rw [scanPiece_none stops, if_neg mark, List.filterMap_append, nothing]
      refine ⟨congrArg (text :: ·) ?_, shut.trans (Bool.false_bne _).symm⟩
      rw [← start, plain mark]
      rfl

/-- Only an argument is read as one. -/
theorem scanPiece_given (s : Scan) (piece : Piece α) : (scanPiece s piece).1.filterMap Lexeme.given = piece.given.toList := by
  have ended : (ends s : List (Lexeme α)).filterMap Lexeme.given = [] := by cases s <;> rfl
  cases piece with
  | arg a =>
    show (ends s ++ [Lexeme.arg a]).filterMap Lexeme.given = [a]
    rw [List.filterMap_append, ended]
    rfl
  | char c =>
    cases goes : continues s c with
    | some s' =>
      rw [scanPiece_some goes]
      rfl
    | none =>
      have begun : (begins c : List (Lexeme α) × Scan).1.filterMap Lexeme.given = [] := by
        unfold begins
        split_ifs <;> rfl
      rw [scanPiece_none goes, List.filterMap_append, ended, begun]
      rfl

/-- The reader of queries and the reader of identifiers find the same quoted names, and
    the arguments are those in the places of the text. -/
theorem lexemes_agree {pieces : List (Piece α)} (placed : Placed pieces) :
    (lexemes pieces).filterMap Lexeme.quoted = identifiers (text pieces) ∧ (lexemes pieces).filterMap Lexeme.given = args pieces := by
  have cons (s : Scan) (piece : Piece α) (rest : List (Piece α)) : (scan s (piece :: rest)).1 ++ ends (scan s (piece :: rest)).2 =
      (scanPiece s piece).1 ++ ((scan (scanPiece s piece).2 rest).1 ++ ends (scan (scanPiece s piece).2 rest).2) := List.append_assoc _ _ _
  have names (s : Scan) (outside : (quoting s.inQuotes pieces).isSome = true) :
      ((scan s pieces).1 ++ ends (scan s pieces).2).filterMap Lexeme.quoted = (tokensFrom s.reading (text pieces)).filterMap Token.name := by
    clear placed
    induction pieces generalizing s with
    | nil => cases s <;> rfl
    | cons piece rest ih =>
      rw [cons, List.filterMap_append]
      cases piece with
      | char c =>
        obtain ⟨read, shut⟩ := scanPiece_reads (α := α) s c (text rest)
        show _ = (tokensFrom s.reading (c :: text rest)).filterMap Token.name
        rw [quoting] at outside
        split at outside
        · cases outside
        · rw [read, ih _ (by rw [shut]; exact outside)]
      | arg a =>
        rw [quoting] at outside
        split at outside
        · cases outside
        · rename_i closed
          show _ ++ ((scan .outside rest).1 ++ ends (scan .outside rest).2).filterMap Lexeme.quoted =
            (tokensFrom s.reading ('?' :: text rest)).filterMap Token.name
          rw [ih .outside outside]
          cases s <;> first | rfl | exact absurd rfl closed
  have given (s : Scan) : ((scan s pieces).1 ++ ends (scan s pieces).2).filterMap Lexeme.given = args pieces := by
    clear placed names
    induction pieces generalizing s with
    | nil => cases s <;> rfl
    | cons piece rest ih =>
      rw [cons, List.filterMap_append, ih, scanPiece_given]
      cases piece <;> rfl
  exact ⟨names .outside (by rw [show Scan.outside.inQuotes = false from rfl, placed.closed]; rfl), given .outside⟩

/-! ### Queries -/

/-- A column, an argument, or a function of all rows, of one or of two values. -/
inductive Expr (α : Type u)
  | column (name : Name)
  | arg (a : α)
  | star (f : Name)
  | apply (f : Name) (e : Expr α)
  | apply₂ (f : Name) (e e' : Expr α)

structure Cond (α : Type u) where
  left : Expr α
  op : Name
  right : Expr α

structure Item (α : Type u) where
  expr : Expr α
  label : Option Name

structure Select (α : Type u) where
  items : List (Item α)
  source : Name
  conds : List (Cond α)
  group : Option Name
  order : Option (Expr α × Bool)
  limit : Option (Expr α)
  offset : Option (Expr α)

/-- A query, perhaps over the answer to another one, which has a name. -/
structure Query (α : Type u) where
  common : Option (Name × Select α)
  main : Select α

/-! ### Reading queries -/

/-- What comes first, and the lexemes behind it. -/
abbrev Read (α : Type u) (β : Type v) := List (Lexeme α) → Option (β × List (Lexeme α))

def word : Read α Name
  | .word text :: rest => some (text, rest)
  | _ => none

/-- The name of a table, quoted or not. -/
def table : Read α Name
  | .word text :: rest => some (text, rest)
  | .name text :: rest => some (text, rest)
  | _ => none

/-- The lexemes behind these words. -/
def words : List Name → List (Lexeme α) → Option (List (Lexeme α))
  | [], ls => some ls
  | w :: ws, .word text :: rest => if text = w then words ws rest else none
  | _ :: _, _ => none

/-- The lexemes behind a sign. -/
def sign (c : Char) : List (Lexeme α) → Option (List (Lexeme α))
  | .sign text :: rest => if text = [c] then some rest else none
  | _ => none

/-- An expression; functions are nested up to a depth. -/
def expr : Nat → Read α (Expr α)
  | 0, _ => none
  | _ + 1, .arg a :: rest => some (.arg a, rest)
  | depth + 1, .word f :: rest =>
    match sign '(' rest with
    | none => some (.column f, rest)
    | some inner =>
      match sign '*' inner with
      | some rest => (sign ')' rest).map fun rest => (.star f, rest)
      | none =>
        (expr depth inner).bind fun (e, rest) =>
          match sign ')' rest with
          | some rest => some (.apply f e, rest)
          | none =>
            (sign ',' rest).bind fun rest => (expr depth rest).bind fun (e', rest) =>
              (sign ')' rest).map fun rest => (.apply₂ f e e', rest)
  | _ + 1, _ => none

def maxDepth : Nat := 4

def cond : Read α (Cond α) := fun ls =>
  (expr maxDepth ls).bind fun (left, rest) =>
    match rest with
    | .sign op :: rest | .word op :: rest => (expr maxDepth rest).map fun (right, rest) => (⟨left, op, right⟩, rest)
    | _ => none

/-- Conditions with AND between them. -/
def conds : Nat → Read α (List (Cond α))
  | 0, _ => none
  | fuel + 1, ls =>
    (cond ls).bind fun (c, rest) =>
      match words ["AND".toList] rest with
      | none => some ([c], rest)
      | some rest => (conds fuel rest).map fun (cs, rest) => (c :: cs, rest)

/-- What stands behind these words, if they are there. -/
def clause {β : Type v} (ws : List Name) (read : Read α β) : Read α (Option β) := fun ls =>
  match words ws ls with
  | none => some (none, ls)
  | some rest => (read rest).map fun (b, rest) => (some b, rest)

def item : Read α (Item α) := fun ls =>
  (expr maxDepth ls).bind fun (e, rest) => (clause ["AS".toList] word rest).map fun (label, rest) => (⟨e, label⟩, rest)

/-- Columns with commas between them. -/
def items : Nat → Read α (List (Item α))
  | 0, _ => none
  | fuel + 1, ls =>
    (item ls).bind fun (i, rest) =>
      match sign ',' rest with
      | none => some ([i], rest)
      | some rest => (items fuel rest).map fun (is, rest) => (i :: is, rest)

/-- An expression and whether the greatest comes first. -/
def order : Read α (Expr α × Bool) := fun ls =>
  (expr maxDepth ls).map fun (e, rest) =>
    match words ["DESC".toList] rest with
    | some rest => ((e, true), rest)
    | none => ((e, false), (words ["ASC".toList] rest).getD rest)

/-- What stands behind the conditions. -/
def clauses (is : List (Item α)) (source : Name) (cs : List (Cond α)) : Read α (Select α) := fun ls => do
  let (group, ls) ← clause ["GROUP".toList, "BY".toList] word ls
  let (order, ls) ← clause ["ORDER".toList, "BY".toList] order ls
  let (limit, ls) ← clause ["LIMIT".toList] (expr maxDepth) ls
  let (offset, ls) ← clause ["OFFSET".toList] (expr maxDepth) ls
  return (⟨is, source, cs, group, order, limit, offset⟩, ls)

def select : Read α (Select α) := fun ls => do
  let ls ← words ["SELECT".toList] ls
  let (is, ls) ← items ls.length ls
  let ls ← words ["FROM".toList] ls
  let (source, ls) ← table ls
  let (cs, ls) ← clause ["WHERE".toList] (conds ls.length) ls
  clauses is source (cs.getD []) ls

def query (ls : List (Lexeme α)) : Option (Query α) :=
  match words ["WITH".toList] ls with
  | none => do
    let (main, ls) ← select ls
    if ls.isEmpty then return ⟨none, main⟩ else none
  | some ls => do
    let (name, ls) ← word ls
    let ls ← words ["AS".toList] ls
    let ls ← sign '(' ls
    let (inner, ls) ← select ls
    let ls ← sign ')' ls
    let (main, ls) ← select ls
    if ls.isEmpty then return ⟨some (name, inner), main⟩ else none

/-- A condition that nothing follows. -/
theorem conds_last {ls tail : List (Lexeme α)} {c : Cond α} (read : cond ls = some (c, tail))
    (closed : words ["AND".toList] tail = none) (fuel : Nat) : conds (fuel + 1) ls = some ([c], tail) := by
  simp only [conds, read, Option.bind_some, closed]

/-- A condition and those behind it. -/
theorem conds_cons {ls rest tail : List (Lexeme α)} {c : Cond α} {cs : List (Cond α)} {fuel : Nat}
    (read : cond ls = some (c, .word "AND".toList :: rest)) (later : conds fuel rest = some (cs, tail)) :
    conds (fuel + 1) ls = some (c :: cs, tail) := by
  rw [conds, read]
  show (conds fuel rest).map _ = _
  rw [later]
  rfl

theorem query_select {ls : List (Lexeme α)} {main : Select α} (begins : words ["WITH".toList] ls = none)
    (read : select ls = some (main, [])) : query ls = some ⟨none, main⟩ := by
  unfold query
  rw [begins]
  show (select ls).bind _ = _
  rw [read]
  rfl

/-- The query of a text with its arguments. -/
def queryOf (sql : Name) (given : List α) : Option (Query α) := (bind false sql given).bind fun pieces => query (lexemes pieces)

/-! ### Rows and values -/

/-- The values of the columns of a row. -/
abbrev Row (V : Type v) := List (Name × V)

/-- What the names of a query mean. `finds` is what a table makes of the conditions
    and the limit of a query: the rows that it finds, and the conditions that are left. -/
structure Dialect (α : Type u) (V : Type v) (K : Type w) where
  value : α → Option V
  number : V → Option Int
  apply : Name → List V → Option V
  holds : Name → V → V → Bool
  key : V → K
  aggregates : Name → Bool
  aggregate : Name → List V → Option V
  count : Name → Nat → Option V
  finds : Name → List (Cond α) → Option Int → List (Row V) → List (Cond α) → Prop

section Meaning
variable (D : Dialect α V K)

def Expr.eval (row : Row V) : Expr α → Option V
  | .column name => row.lookup name
  | .arg a => D.value a
  | .star _ => none
  | .apply f e => (e.eval row).bind fun x => D.apply f [x]
  | .apply₂ f e e' => (e.eval row).bind fun x => (e'.eval row).bind fun y => D.apply f [x, y]

def Cond.eval (row : Row V) (c : Cond α) : Option Bool :=
  (c.left.eval D row).bind fun x => (c.right.eval D row).map fun y => D.holds c.op x y

/-- The conditions from the first one on, up to one that does not hold. -/
def meets (row : Row V) : List (Cond α) → Option Bool
  | [] => some true
  | c :: rest => (c.eval D row).bind fun holds => if holds then meets row rest else some false

def Item.name (i : Item α) : Name :=
  match i.label, i.expr with
  | some label, _ => label
  | none, .column name => name
  | none, _ => []

def Expr.isAggregate : Expr α → Bool
  | .star _ => true
  | .apply f _ => D.aggregates f
  | _ => false

/-- A number that stands behind LIMIT or OFFSET. -/
def bound : Option (Expr α) → Option (Option Int)
  | none => some none
  | some e => ((e.eval D []).bind D.number).map some

/-- A negative limit is none, a negative offset is 0. -/
def page {β : Type v} (limit offset : Option Int) (rows : List β) : List β :=
  match limit with
  | none => rows.drop (offset.getD 0).toNat
  | some n => if n < 0 then rows.drop (offset.getD 0).toNat else (rows.drop (offset.getD 0).toNat).take n.toNat

/-! ### Answers -/

/-- The rows that meet the conditions. -/
def Keeps (cs : List (Cond α)) (rows kept : List (Row V)) : Prop :=
  (∀ r ∈ rows, (meets D r cs).isSome) ∧ kept = rows.filter fun r => (meets D r cs).getD false

/-- What is selected of one row. -/
def shown (row : Row V) (is : List (Item α)) : Option (Row V) := is.mapM fun i => (i.expr.eval D row).map fun x => (i.name, x)

theorem keeps_iff {ρ : Type*} {f : ρ → Row V} {p : ρ → Bool} {cs : List (Cond α)} {rows : List ρ} {kept : List (Row V)}
    (each : ∀ r ∈ rows, meets D (f r) cs = some (p r)) : Keeps D cs (rows.map f) kept ↔ kept = (rows.filter p).map f := by
  have all : ∀ row ∈ rows.map f, (meets D row cs).isSome := by
    intro row member
    obtain ⟨r, there, rfl⟩ := List.mem_map.mp member
    rw [each r there]
    rfl
  have filtered : (rows.map f).filter (fun row => (meets D row cs).getD false) = (rows.filter p).map f := by
    rw [List.filter_map]
    refine congrArg _ (List.filter_congr fun r there => ?_)
    rw [Function.comp_apply, each r there]
    rfl
  unfold Keeps
  rw [filtered]
  exact and_iff_right all

variable [LE K]

/-- The elements in an order by the key of an expression, in which equal keys stand
    as they like. -/
def Orders {β : Type*} (ordering : Option (Expr α × Bool)) (rowOf : β → Row V) (xs ordered : List β) : Prop :=
  ordered.Perm xs ∧ ∀ e desc, ordering = some (e, desc) → (∀ x ∈ xs, (e.eval D (rowOf x)).isSome) ∧
    ordered.Pairwise fun x y => ∀ a ∈ e.eval D (rowOf x), ∀ b ∈ e.eval D (rowOf y),
      if desc then D.key b ≤ D.key a else D.key a ≤ D.key b

/-- The answer without groups: each row by itself. The order may be by what is
    selected. -/
def Plain (s : Select α) (kept : List (Row V)) (out : List (Row V)) : Prop :=
  ∃ pairs ordered : List (Row V × Row V), pairs.map (·.1) = kept ∧ (∀ p ∈ pairs, shown D p.1 s.items = some p.2) ∧
    Orders D s.order (fun p => p.2 ++ p.1) pairs ordered ∧ out = ordered.map (·.2)

/-- The value of an expression for a group of rows. What is no aggregate is read off
    any of them. -/
inductive GroupValue (rows : List (Row V)) : Expr α → V → Prop
  | star {f : Name} {x : V} (counted : D.count f rows.length = some x) : GroupValue rows (.star f) x
  | aggregate {f : Name} {e : Expr α} {taken : List (Row V)} {xs : List V} {x : V} (is : D.aggregates f = true)
      (any : taken.Perm rows) (values : taken.mapM (e.eval D) = some xs) (result : D.aggregate f xs = some x) :
      GroupValue rows (.apply f e) x
  | single {e : Expr α} {row : Row V} {x : V} (no : e.isAggregate D = false) (member : row ∈ rows)
      (value : e.eval D row = some x) : GroupValue rows e x

/-- What is selected of a group. -/
def GroupShown (rows : List (Row V)) (is : List (Item α)) (out : Row V) : Prop :=
  List.Forall₂ (fun i (entry : Name × V) => entry.1 = i.name ∧ GroupValue D rows i.expr entry.2) is out

/-- Two rows have the same key. -/
def Alike (e : Expr α) (row row' : Row V) : Prop := ∀ a ∈ e.eval D row, ∀ b ∈ e.eval D row', D.key a = D.key b

/-- The answer with groups, one row for each. The rows of a group have one key, those
    of two groups have different keys. -/
def Grouped (s : Select α) (e : Expr α) (kept : List (Row V)) (out : List (Row V)) : Prop :=
  ∃ pairs ordered : List (List (Row V) × Row V), (∀ r ∈ kept, (e.eval D r).isSome) ∧ (pairs.flatMap (·.1)).Perm kept ∧
    (∀ p ∈ pairs, p.1 ≠ [] ∧ ∀ r ∈ p.1, ∀ r' ∈ p.1, Alike D e r r') ∧
    (pairs.Pairwise fun p q => ∀ r ∈ p.1, ∀ r' ∈ q.1, ¬ Alike D e r r') ∧
    (∀ p ∈ pairs, GroupShown D p.1 s.items p.2) ∧ Orders D s.order (·.2) pairs ordered ∧ out = ordered.map (·.2)

/-- The expression that a group goes by: that of the column with its name. -/
def Select.groupExpr (s : Select α) (name : Name) : Expr α :=
  match s.items.find? fun i => i.label = some name with
  | some i => i.expr
  | none => .column name

/-- The answers that a query has on the rows that are left to it. -/
inductive Select.Gives (s : Select α) (kept : List (Row V)) : List (Row V) → Prop
  | plain {out : List (Row V)} (group : s.group = none) (none : ∀ i ∈ s.items, i.expr.isAggregate D = false)
      (plain : Plain D s kept out) : Select.Gives s kept out
  | total {out : Row V} (group : s.group = none) (some : ∃ i ∈ s.items, i.expr.isAggregate D = true)
      (shown : GroupShown D kept s.items out) : Select.Gives s kept [out]
  | grouped {name : Name} {out : List (Row V)} (group : s.group = some name) (grouped : Grouped D s (s.groupExpr name) kept out) :
      Select.Gives s kept out

/-- What stands behind LIMIT goes to the table and cuts off the answer. -/
def Select.Answers (s : Select α) (out : List (Row V)) : Prop :=
  ∃ limit offset rows left kept all, bound D s.limit = some limit ∧ bound D s.offset = some offset ∧
    D.finds s.source s.conds limit rows left ∧ Keeps D left rows kept ∧ s.Gives D kept all ∧ out = page limit offset all

/-- The dialect with one table, which has these rows. -/
def Dialect.only (name : Name) (rows : List (Row V)) : Dialect α V K :=
  { D with finds := fun source cs _ found left => source = name ∧ found = rows ∧ left = cs }

omit [LE K] in
@[simp] theorem Expr.eval_only (name : Name) (rows : List (Row V)) (row : Row V) (e : Expr α) :
    e.eval (D.only name rows) row = e.eval D row := by
  induction e with
  | column _ | arg _ | star _ => rfl
  | apply f e ih => rw [Expr.eval, ih]; rfl
  | apply₂ f e e' ih ih' => rw [Expr.eval, ih, ih']; rfl

def Query.Answers (q : Query α) (out : List (Row V)) : Prop :=
  match q.common with
  | none => q.main.Answers D out
  | some (name, inner) => ∃ rows, inner.Answers D rows ∧ q.main.Answers (D.only name rows) out

/-- SQL allows these rows as the answer to a text with its arguments. -/
def Allows (sql : Name) (given : List α) (out : List (List V)) : Prop :=
  ∃ q rows, queryOf sql given = some q ∧ q.Answers D rows ∧ out = rows.map fun row => row.map (·.2)

/-! ### Answers from rows of another kind -/

/-- Elements with these values are in an order. -/
def InOrder {ρ : Type*} (ordering : Option (Expr α × Bool)) (value : ρ → V) (xs : List ρ) : Prop :=
  ∀ e desc, ordering = some (e, desc) → xs.Pairwise fun x y => if desc then D.key (value y) ≤ D.key (value x)
    else D.key (value x) ≤ D.key (value y)

theorem orders_iff {ρ β : Type*} {ordering : Option (Expr α × Bool)} {rowOf : β → Row V} {g : ρ → β} {value : ρ → V} {xs : List ρ}
    {ordered : List β} (values : ∀ e desc, ordering = some (e, desc) → ∀ x ∈ xs, e.eval D (rowOf (g x)) = some (value x)) :
    Orders D ordering rowOf (xs.map g) ordered ↔ ∃ ys : List ρ, ys.Perm xs ∧ InOrder D ordering value ys ∧ ordered = ys.map g := by
  constructor
  · rintro ⟨perm, sorted⟩
    have split : Relation.Comp (fun zs ys => zs = ys.map g) List.Perm ordered xs := by rwa [List.eq_map_comp_perm]
    obtain ⟨ys, rfl, reordered⟩ := split
    refine ⟨ys, reordered, fun e desc sorts => ?_, rfl⟩
    refine (List.pairwise_map.mp (sorted e desc sorts).2).imp_of_mem fun {x y} left right le => ?_
    exact le _ (values e desc sorts x (reordered.mem_iff.mp left)) _ (values e desc sorts y (reordered.mem_iff.mp right))
  · rintro ⟨ys, perm, sorted, rfl⟩
    refine ⟨perm.map g, fun e desc sorts => ⟨fun b member => ?_, ?_⟩⟩
    · obtain ⟨x, there, rfl⟩ := List.mem_map.mp member
      rw [values e desc sorts x there]
      rfl
    · refine List.pairwise_map.mpr ((sorted e desc sorts).imp_of_mem fun {x y} left right le a first b second => ?_)
      rw [values e desc sorts x (perm.mem_iff.mp left)] at first
      rw [values e desc sorts y (perm.mem_iff.mp right)] at second
      rw [← Option.some.inj first, ← Option.some.inj second]
      exact le

/-- The answer without groups, when rows are selected as `g` says. -/
theorem plain_iff {ρ : Type*} {s : Select α} {f g : ρ → Row V} {value : ρ → V} {kept : List ρ}
    (shows : ∀ r ∈ kept, shown D (f r) s.items = some (g r))
    (values : ∀ e desc, s.order = some (e, desc) → ∀ r ∈ kept, e.eval D (g r ++ f r) = some (value r))
    (out : List (Row V)) : Plain D s (kept.map f) out ↔ ∃ ys : List ρ, ys.Perm kept ∧ InOrder D s.order value ys ∧ out = ys.map g := by
  have pairs_eq {pairs : List (Row V × Row V)} (rows : pairs.map (·.1) = kept.map f)
      (each : ∀ p ∈ pairs, shown D p.1 s.items = some p.2) : pairs = kept.map fun r => (f r, g r) := by
    induction kept generalizing pairs with
    | nil => exact List.map_eq_nil_iff.mp rows
    | cons r rest ih =>
      cases pairs with
      | nil => cases rows
      | cons p later =>
        obtain ⟨same, rows⟩ := List.cons.inj rows
        obtain ⟨first, each⟩ := List.forall_mem_cons.mp each
        obtain ⟨head, shows⟩ := List.forall_mem_cons.mp shows
        have second : g r = p.2 := by
          have again : shown D p.1 s.items = some (g r) := (congrArg (fun row => shown D row s.items) same).trans head
          exact Option.some.inj (again.symm.trans first)
        rw [List.map_cons, ih shows (fun e desc sorts r member => values e desc sorts r (List.mem_cons_of_mem _ member)) rows each, second]
        exact congrArg (fun row => (row, p.2) :: _) same
  constructor
  · rintro ⟨pairs, ordered, rows, each, orders, rfl⟩
    rw [pairs_eq rows each] at orders
    obtain ⟨ys, perm, sorted, rfl⟩ := (orders_iff D values).mp orders
    exact ⟨ys, perm, sorted, by rw [List.map_map]; rfl⟩
  · rintro ⟨ys, perm, sorted, rfl⟩
    refine ⟨kept.map fun r => (f r, g r), ys.map fun r => (f r, g r), ?_, fun p member => ?_,
      (orders_iff D values).mpr ⟨ys, perm, sorted, rfl⟩, ?_⟩
    · rw [List.map_map]
      rfl
    · obtain ⟨r, there, rfl⟩ := List.mem_map.mp member
      exact shows r there
    · rw [List.map_map]
      rfl

theorem gives_iff {s : Select α} {kept out : List (Row V)} (group : s.group = none)
    (none : ∀ i ∈ s.items, i.expr.isAggregate D = false) : s.Gives D kept out ↔ Plain D s kept out := by
  constructor
  · intro gives
    cases gives with
    | plain _ _ plain => exact plain
    | total _ some _ =>
      obtain ⟨i, member, is⟩ := some
      exact absurd (none i member) (by simp [is])
    | grouped grouped _ => simp [group] at grouped
  · exact .plain group none

theorem page_map {β γ : Type*} (g : β → γ) (limit offset : Option Int) (xs : List β) :
    page limit offset (xs.map g) = (page limit offset xs).map g := by
  unfold page
  cases limit with
  | none => rw [List.map_drop]
  | some n =>
    dsimp only
    split
    · rw [List.map_drop]
    · rw [List.map_take, List.map_drop]

omit [LE K] in
theorem mem_of_mem_page {β : Type*} {limit offset : Option Int} {xs : List β} {x : β} (member : x ∈ page limit offset xs) : x ∈ xs := by
  unfold page at member
  cases limit with
  | none => exact List.mem_of_mem_drop member
  | some n =>
    dsimp only at member
    split at member
    · exact List.mem_of_mem_drop member
    · exact List.mem_of_mem_drop (List.mem_of_mem_take member)

/-- The rule of a SELECT without groups: what the table finds, the rows of it that meet
    the conditions, these in order, and of them a page. -/
theorem answers_iff {ρ : Type*} (s : Select α) (f g : ρ → Row V) (p : ρ → Bool) (value : ρ → V) {limit offset : Option Int}
    {cs : List (Cond α)} {Found : List ρ → Prop} {out : List (Row V)} (group : s.group = none)
    (none : ∀ i ∈ s.items, i.expr.isAggregate D = false) (limited : bound D s.limit = some limit)
    (skipped : bound D s.offset = some offset)
    (finds : ∀ rows left, D.finds s.source s.conds limit rows left ↔ ∃ found, Found found ∧ rows = found.map f ∧ left = cs)
    (each : ∀ found, Found found → ∀ r ∈ found, meets D (f r) cs = some (p r))
    (shows : ∀ found, Found found → ∀ r ∈ found, shown D (f r) s.items = some (g r))
    (values : ∀ found, Found found → ∀ e desc, s.order = some (e, desc) → ∀ r ∈ found, e.eval D (g r ++ f r) = some (value r)) :
    s.Answers D out ↔ ∃ found ys, Found found ∧ ys.Perm (found.filter p) ∧ InOrder D s.order value ys ∧
      out = (page limit offset ys).map g := by
  have plain {found : List ρ} (is : Found found) (all : List (Row V)) : Plain D s ((found.filter p).map f) all ↔
      ∃ ys : List ρ, ys.Perm (found.filter p) ∧ InOrder D s.order value ys ∧ all = ys.map g :=
    plain_iff D (fun r member => shows found is r (List.mem_filter.mp member).1)
      (fun e desc sorts r member => values found is e desc sorts r (List.mem_filter.mp member).1) all
  constructor
  · rintro ⟨limit', offset', rows, left, kept, all, first, second, taken, keeps, gives, rfl⟩
    obtain rfl : limit = limit' := Option.some.inj (limited.symm.trans first)
    obtain rfl : offset = offset' := Option.some.inj (skipped.symm.trans second)
    obtain ⟨found, is, rfl, rfl⟩ := (finds rows left).mp taken
    obtain rfl := (keeps_iff D (each found is)).mp keeps
    obtain ⟨ys, perm, sorted, rfl⟩ := (plain is all).mp ((gives_iff D group none).mp gives)
    exact ⟨found, ys, is, perm, sorted, page_map g limit offset ys⟩
  · rintro ⟨found, ys, is, perm, sorted, rfl⟩
    exact ⟨limit, offset, found.map f, cs, (found.filter p).map f, ys.map g, limited, skipped,
      (finds _ _).mpr ⟨found, is, rfl, rfl⟩, (keeps_iff D (each found is)).mpr rfl,
      (gives_iff D group none).mpr ((plain is _).mpr ⟨ys, perm, sorted, rfl⟩), (page_map g limit offset ys).symm⟩

end Meaning

end Microserver.SqlSelects
