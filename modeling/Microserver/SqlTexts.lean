import Mathlib.Data.List.Basic
import Mathlib.Data.String.Basic

/-!
Texts of SQL with placeholders. A text in which the arguments stand where they
are meant to is split into a text with a `?` for each of them and the list of
the arguments; binding the arguments in order puts each of them back into its
place, unless a `?` or a quotation mark of the text itself is in the way. A
quoted identifier is read up to the next quotation mark that is not doubled.
-/
namespace Microserver.SqlTexts
universe u
variable {α : Type u}

/-! ### Placeholders -/

/-- A character, or an argument in the place where it is meant. -/
inductive Piece (α : Type u)
  | char (c : Char)
  | arg (a : α)
deriving DecidableEq

/-- A text without arguments. -/
def lit (s : String) : List (Piece α) := s.toList.map .char

def Piece.shown : Piece α → Char
  | .char c => c
  | .arg _ => '?'

def Piece.given : Piece α → Option α
  | .char _ => none
  | .arg a => some a

/-- The text with a `?` for each argument. -/
def text (pieces : List (Piece α)) : List Char := pieces.map Piece.shown

def args (pieces : List (Piece α)) : List α := pieces.filterMap Piece.given

@[simp] theorem text_nil : text ([] : List (Piece α)) = [] := rfl
@[simp] theorem text_append (p q : List (Piece α)) : text (p ++ q) = text p ++ text q := List.map_append
@[simp] theorem text_lit (s : String) : text (lit s : List (Piece α)) = s.toList := by simp [text, lit, Piece.shown, Function.comp_def]
@[simp] theorem text_arg (a : α) (p : List (Piece α)) : text (.arg a :: p) = '?' :: text p := rfl
@[simp] theorem args_nil : args ([] : List (Piece α)) = [] := rfl
@[simp] theorem args_append (p q : List (Piece α)) : args (p ++ q) = args p ++ args q := List.filterMap_append
@[simp] theorem args_lit (s : String) : args (lit s : List (Piece α)) = [] := by simp [args, lit, Piece.given]
@[simp] theorem args_arg (a : α) (p : List (Piece α)) : args (.arg a :: p) = a :: args p := rfl

theorem text_intercalate (separator : List (Piece α)) (parts : List (List (Piece α))) :
    text (separator.intercalate parts) = (text separator).intercalate (parts.map text) := by
  induction parts with
  | nil => rfl
  | cons part rest ih =>
    cases rest with
    | nil => simp
    | cons next rest =>
      rw [List.intercalate_cons_cons, text_append, text_append, ih, List.map_cons, List.map_cons, List.map_cons,
        List.intercalate_cons_cons]

theorem args_intercalate {separator : List (Piece α)} (none : args separator = []) (parts : List (List (Piece α))) :
    args (separator.intercalate parts) = parts.flatMap args := by
  induction parts with
  | nil => rfl
  | cons part rest ih =>
    cases rest with
    | nil => simp
    | cons next rest =>
      rw [List.intercalate_cons_cons, args_append, args_append, none, List.append_nil, ih]
      rfl

/-- The arguments in order for the placeholders in order; what stands between
    quotation marks is no placeholder. There must be as many of the ones as of the
    others. -/
def bind : Bool → List Char → List α → Option (List (Piece α))
  | _, [], given => if given.isEmpty then some [] else none
  | quoted, c :: rest, given =>
    if c = '?' ∧ quoted = false then
      match given with
      | [] => none
      | a :: given => (bind quoted rest given).map (.arg a :: ·)
    else (bind (quoted != decide (c = '"')) rest given).map (.char c :: ·)

/-- Whether a quotation is open behind the pieces; none when an argument stands in
    a quotation or a `?` that is no argument outside. -/
def quoting : Bool → List (Piece α) → Option Bool
  | quoted, [] => some quoted
  | quoted, .char c :: rest => if c = '?' ∧ quoted = false then none else quoting (quoted != decide (c = '"')) rest
  | quoted, .arg _ :: rest => if quoted then none else quoting false rest

theorem quoting_append {quoted : Bool} {p q : List (Piece α)} :
    quoting quoted (p ++ q) = (quoting quoted p).bind fun quoted => quoting quoted q := by
  induction p generalizing quoted with
  | nil => rfl
  | cons piece rest ih =>
    cases piece with
    | char c =>
      rw [List.cons_append, quoting, quoting]
      split
      · rfl
      · exact ih
    | arg a =>
      rw [List.cons_append, quoting, quoting]
      split
      · rfl
      · exact ih

/-- A text without placeholders and quotation marks. -/
def Bare (s : String) : Prop := ∀ c ∈ s.toList, c ≠ '?' ∧ c ≠ '"'

instance (s : String) : Decidable (Bare s) :=
  @List.decidableBAll _ (fun c => c ≠ '?' ∧ c ≠ '"') (fun _ => instDecidableAnd) s.toList

/-- Every quotation is closed again, the arguments stand outside, and there is no
    other `?` than those of the arguments. -/
structure Placed (pieces : List (Piece α)) : Prop where
  closed : quoting false pieces = some false
  free : .char '?' ∉ pieces

theorem placed_nil : Placed ([] : List (Piece α)) := ⟨rfl, by simp⟩

theorem Placed.append {p q : List (Piece α)} (left : Placed p) (right : Placed q) : Placed (p ++ q) := by
  refine ⟨?_, ?_⟩
  · rw [quoting_append, left.closed]
    exact right.closed
  · rw [List.mem_append, not_or]
    exact ⟨left.free, right.free⟩

theorem Placed.arg {p : List (Piece α)} (placed : Placed p) (a : α) : Placed (.arg a :: p) := by
  refine ⟨placed.closed, ?_⟩
  rw [List.mem_cons, not_or]
  exact ⟨nofun, placed.free⟩

theorem placed_lit {s : String} (bare : Bare s) : Placed (lit s : List (Piece α)) := by
  unfold Bare at bare
  unfold lit
  generalize s.toList = text at bare
  induction text with
  | nil => exact placed_nil
  | cons c rest ih =>
    obtain ⟨⟨loose, mark⟩, others⟩ := List.forall_mem_cons.mp bare
    obtain ⟨closed, free⟩ := ih others
    refine ⟨?_, ?_⟩
    · rw [List.map_cons, quoting, if_neg fun both => loose both.1, decide_eq_false mark]
      exact closed
    · rw [List.map_cons, List.mem_cons, not_or]
      exact ⟨fun same => loose (Piece.char.inj same).symm, free⟩

theorem placed_intercalate {separator : List (Piece α)} (between : Placed separator) {parts : List (List (Piece α))}
    (each : ∀ part ∈ parts, Placed part) : Placed (separator.intercalate parts) := by
  induction parts with
  | nil => exact placed_nil
  | cons part rest ih =>
    cases rest with
    | nil => simpa using each part (.head _)
    | cons next rest =>
      rw [List.intercalate_cons_cons]
      exact ((each part (.head _)).append between).append (ih fun p member => each p (.tail _ member))

theorem bind_quoting {quoted : Bool} {pieces : List (Piece α)} (placed : (quoting quoted pieces).isSome = true) :
    bind quoted (text pieces) (args pieces) = some pieces := by
  induction pieces generalizing quoted with
  | nil => rfl
  | cons piece rest ih =>
    cases piece with
    | char c =>
      rw [quoting] at placed
      by_cases loose : c = '?' ∧ quoted = false
      · rw [if_pos loose] at placed
        cases placed
      · rw [if_neg loose] at placed
        show bind quoted (c :: text rest) (args rest) = _
        rw [bind.eq_def]
        dsimp only
        rw [if_neg loose, ih placed, Option.map_some]
    | arg a =>
      rw [quoting] at placed
      cases quoted with
      | true => cases placed
      | false =>
        show bind false ('?' :: text rest) (a :: args rest) = _
        rw [bind, if_pos ⟨rfl, rfl⟩]
        simp only [ih placed, Option.map_some]

/-- Splitting and binding are inverse. -/
theorem Placed.bind {pieces : List (Piece α)} (placed : Placed pieces) :
    SqlTexts.bind false (text pieces) (args pieces) = some pieces :=
  bind_quoting (by rw [placed.closed]; rfl)

theorem count_args {pieces : List (Piece α)} (loose : .char '?' ∉ pieces) : (text pieces).count '?' = (args pieces).length := by
  induction pieces with
  | nil => rfl
  | cons piece rest ih =>
    rw [List.mem_cons, not_or] at loose
    cases piece with
    | char c =>
      have other : ¬ c = '?' := fun same => loose.1 (by rw [same])
      show (c :: text rest).count '?' = (args rest).length
      rw [List.count_cons_of_ne other, ih loose.2]
    | arg a =>
      show ('?' :: text rest).count '?' = (a :: args rest).length
      rw [List.count_cons_self, ih loose.2, List.length_cons]

/-! ### Quoted identifiers -/

/-- Each quotation mark doubled. -/
def doubled (s : List Char) : List Char := s.flatMap fun c => if c = '"' then ['"', '"'] else [c]

inductive Token
  | char (c : Char)
  | identifier (name : List Char)
deriving DecidableEq

/-- Where the reader is: outside of quotation marks, inside with the name so far,
    or behind a mark that ends the name or is the first of two. -/
inductive Reading
  | outside
  | inside (name : List Char)
  | mark (name : List Char)

def tokensFrom : Reading → List Char → List Token
  | .outside, [] => []
  | .inside _, [] => []
  | .mark name, [] => [.identifier name]
  | .outside, c :: rest => if c = '"' then tokensFrom (.inside []) rest else .char c :: tokensFrom .outside rest
  | .inside name, c :: rest => if c = '"' then tokensFrom (.mark name) rest else tokensFrom (.inside (name ++ [c])) rest
  | .mark name, c :: rest =>
    if c = '"' then tokensFrom (.inside (name ++ ['"'])) rest else .identifier name :: .char c :: tokensFrom .outside rest

def tokens (text : List Char) : List Token := tokensFrom .outside text

theorem tokens_append {before rest : List Char} (unmarked : '"' ∉ before) :
    tokens (before ++ rest) = before.map .char ++ tokens rest := by
  induction before with
  | nil => rfl
  | cons c before ih =>
    rw [List.mem_cons, not_or] at unmarked
    show tokensFrom .outside (c :: (before ++ rest)) = .char c :: (before.map .char ++ tokens rest)
    rw [tokensFrom, if_neg (Ne.symm unmarked.1)]
    exact congrArg _ (ih unmarked.2)

theorem tokensFrom_doubled (name s rest : List Char) :
    tokensFrom (.inside name) (doubled s ++ '"' :: rest) = tokensFrom (.mark (name ++ s)) rest := by
  induction s generalizing name with
  | nil =>
    show tokensFrom (.inside name) ('"' :: rest) = _
    rw [tokensFrom, if_pos rfl, List.append_nil]
  | cons c s ih =>
    by_cases mark : c = '"'
    · have twice : doubled (c :: s) = '"' :: '"' :: doubled s := by simp [doubled, mark]
      rw [twice, List.cons_append, List.cons_append, tokensFrom, if_pos rfl, tokensFrom, if_pos rfl, ih, mark,
        List.append_assoc]
      rfl
    · have once : doubled (c :: s) = c :: doubled s := by simp [doubled, mark]
      rw [once, List.cons_append, tokensFrom, if_neg mark, ih, List.append_assoc]
      rfl

/-- A name in quotation marks, with its own marks doubled, is read as one
    identifier. -/
theorem tokens_quoted (s : List Char) {rest : List Char} (ends : rest.head? ≠ some '"') :
    tokens ('"' :: doubled s ++ '"' :: rest) = .identifier s :: tokens rest := by
  show tokensFrom .outside ('"' :: (doubled s ++ '"' :: rest)) = _
  rw [tokensFrom, if_pos rfl, tokensFrom_doubled, List.nil_append]
  cases rest with
  | nil => rfl
  | cons c rest =>
    have other : ¬ c = '"' := fun same => ends (by rw [same]; rfl)
    show tokensFrom (.mark s) (c :: rest) = .identifier s :: tokensFrom .outside (c :: rest)
    rw [tokensFrom, if_neg other, tokensFrom, if_neg other]

def Token.name : Token → Option (List Char)
  | .char _ => none
  | .identifier name => some name

/-- The quoted identifiers of a text. -/
def identifiers (text : List Char) : List (List Char) := (tokens text).filterMap Token.name

theorem identifiers_append {before rest : List Char} (unmarked : '"' ∉ before) :
    identifiers (before ++ rest) = identifiers rest := by
  rw [identifiers, tokens_append unmarked, List.filterMap_append]
  simp [identifiers, Token.name]

theorem identifiers_quoted (s : List Char) {rest : List Char} (ends : rest.head? ≠ some '"') :
    identifiers ('"' :: doubled s ++ '"' :: rest) = s :: identifiers rest := by
  rw [identifiers, tokens_quoted s ends]
  rfl

theorem identifiers_unmarked {text : List Char} (unmarked : '"' ∉ text) : identifiers text = [] := by
  have none : identifiers (text ++ []) = identifiers [] := identifiers_append unmarked
  rwa [List.append_nil] at none

/-- Between quotation marks that are doubled the quotation stays open. -/
theorem quoting_doubled (s : List Char) : quoting true ((doubled s).map (.char : Char → Piece α)) = some true := by
  induction s with
  | nil => rfl
  | cons c s ih =>
    by_cases mark : c = '"'
    · have twice : doubled (c :: s) = '"' :: '"' :: doubled s := by simp [doubled, mark]
      rw [twice]
      exact ih
    · have once : doubled (c :: s) = c :: doubled s := by simp [doubled, mark]
      rw [once, List.map_cons, quoting, if_neg (by simp), decide_eq_false mark]
      exact ih

theorem mem_doubled {s : List Char} {c : Char} (member : c ∈ doubled s) : c ∈ s := by
  obtain ⟨d, stored, there⟩ := List.mem_flatMap.mp member
  by_cases mark : d = '"'
  · rw [if_pos mark] at there
    have same : c = '"' := by simpa using there
    rwa [same, ← mark]
  · rw [if_neg mark, List.mem_singleton] at there
    rwa [there]

/-- A quoted name without a `?`. -/
theorem placed_quoted {name : List Char} (free : '?' ∉ name) :
    Placed (('"' :: doubled name ++ ['"']).map (.char : Char → Piece α)) := by
  constructor
  · show quoting false (.char '"' :: (doubled name ++ ['"']).map .char) = some false
    rw [quoting, if_neg (by simp), List.map_append, quoting_append]
    show (quoting true ((doubled name).map .char)).bind _ = _
    rw [quoting_doubled]
    rfl
  · intro member
    have there : '?' ∈ '"' :: doubled name ++ ['"'] := by simpa using member
    simp only [List.cons_append, List.mem_cons, List.mem_append, List.not_mem_nil, or_false] at there
    rcases there with mark | inner | mark
    · exact absurd mark (by decide)
    · exact free (mem_doubled inner)
    · exact absurd mark (by decide)

end Microserver.SqlTexts
