import Microserver.Tokens

/-!
Spelled JSON texts. A text is a tree that keeps how everything in it is spelled:
white space, escapes, and the literals of numbers. It denotes a value and is so
many bytes long. encoding/json writes a raw message without its white space and
with five characters escaped, which keeps the value and can make the text longer.
-/
namespace Microserver.Spellings
open Microserver.Values Microserver.Tokens

/-! ### Strings -/

/-- White space between tokens. -/
inductive Space
  | blank
  | tab
  | newline
  | carriageReturn

def Space.char : Space → Char
  | .blank => ' '
  | .tab => '\t'
  | .newline => '\n'
  | .carriageReturn => '\r'

/-- A character that may stand in a string as it is. -/
def Unescaped (c : Char) : Prop := 32 ≤ c.toNat ∧ c ≠ '"' ∧ c ≠ '\\'

instance (c : Char) : Decidable (Unescaped c) := inferInstanceAs (Decidable (_ ∧ _))

/-- The escapes of one letter. -/
inductive Short
  | quote
  | backslash
  | slash
  | b
  | f
  | n
  | r
  | t

def Short.letter : Short → Char
  | .quote => '"'
  | .backslash => '\\'
  | .slash => '/'
  | .b => 'b'
  | .f => 'f'
  | .n => 'n'
  | .r => 'r'
  | .t => 't'

def Short.char : Short → Char
  | .quote => '"'
  | .backslash => '\\'
  | .slash => '/'
  | .b => '\x08'
  | .f => '\x0c'
  | .n => '\n'
  | .r => '\r'
  | .t => '\t'

structure HexDigit where
  value : Fin 16
  upper : Bool

def HexDigit.char (d : HexDigit) : Char := if d.upper then (Nat.digitChar d.value).toUpper else Nat.digitChar d.value

/-- A piece of a string as it is spelled. -/
inductive Piece
  | plain (c : Char) (legal : Unescaped c)
  | short (s : Short)
  | hex (a b c d : HexDigit)

def Piece.render : Piece → List Char
  | .plain c _ => [c]
  | .short s => ['\\', s.letter]
  | .hex a b c d => ['\\', 'u', a.char, b.char, c.char, d.char]

/-- The code unit of four digits. -/
def codeUnit (a b c d : HexDigit) : Nat := ((a.value * 16 + b.value) * 16 + c.value) * 16 + d.value

def isHigh (u : Nat) : Bool := 0xD800 ≤ u && u < 0xDC00
def isLow (u : Nat) : Bool := 0xDC00 ≤ u && u < 0xE000

/-- The characters of a string. Two surrogates make one character, and a single
    one becomes a replacement character. -/
def chars : List Piece → List Char
  | [] => []
  | .plain c _ :: rest => c :: chars rest
  | .short s :: rest => s.char :: chars rest
  | .hex a b c d :: .hex a' b' c' d' :: rest =>
    if isHigh (codeUnit a b c d) && isLow (codeUnit a' b' c' d') then
      Char.ofNat (0x10000 + (codeUnit a b c d - 0xD800) * 0x400 + (codeUnit a' b' c' d' - 0xDC00)) :: chars rest
    else if isHigh (codeUnit a b c d) || isLow (codeUnit a b c d) then '\uFFFD' :: chars (.hex a' b' c' d' :: rest)
    else Char.ofNat (codeUnit a b c d) :: chars (.hex a' b' c' d' :: rest)
  | .hex a b c d :: rest =>
    if isHigh (codeUnit a b c d) || isLow (codeUnit a b c d) then '\uFFFD' :: chars rest
    else Char.ofNat (codeUnit a b c d) :: chars rest

/-- The characters that encoding/json escapes so that a text can stand in HTML. -/
def escapedForHTML (c : Char) : Bool := c ∈ ['<', '>', '&', '\u2028', '\u2029']

def hexDigit (n : Nat) : HexDigit := ⟨Fin.ofNat 16 n, false⟩

/-- The escape of a character below 65536. -/
def hexEscape (c : Char) : Piece :=
  .hex (hexDigit (c.toNat / 4096)) (hexDigit (c.toNat / 256)) (hexDigit (c.toNat / 16)) (hexDigit c.toNat)

/-- A piece as `appendCompact` copies it. -/
def compactPiece : Piece → Piece
  | .plain c legal => if escapedForHTML c then hexEscape c else .plain c legal
  | p => p

/-- The letters that `appendString` uses. -/
def shortFor (c : Char) : Option Short :=
  [('"', Short.quote), ('\\', .backslash), ('\x08', .b), ('\x0c', .f), ('\n', .n), ('\r', .r), ('\t', .t)].lookup c

/-- A character as `appendString` writes it. -/
def quoteChar (c : Char) : Piece :=
  if escapedForHTML c then hexEscape c
  else if legal : Unescaped c then .plain c legal
  else ((shortFor c).map Piece.short).getD (hexEscape c)

/-! ### Texts -/

def digits (rest : List Char → Bool) (cs : List Char) : Bool :=
  !(cs.takeWhile Char.isDigit).isEmpty && rest (cs.dropWhile Char.isDigit)

def isExponent : List Char → Bool
  | [] => true
  | e :: '+' :: rest => (e == 'e' || e == 'E') && digits List.isEmpty rest
  | e :: '-' :: rest => (e == 'e' || e == 'E') && digits List.isEmpty rest
  | e :: rest => (e == 'e' || e == 'E') && digits List.isEmpty rest

def isFraction : List Char → Bool
  | '.' :: rest => digits isExponent rest
  | rest => isExponent rest

def isNumber : List Char → Bool
  | '-' :: '0' :: rest => isFraction rest
  | '0' :: rest => isFraction rest
  | '-' :: rest => digits isFraction rest
  | rest => digits isFraction rest

/-- A number as it is spelled. -/
structure NumberLiteral where
  text : String
  legal : isNumber text.toList = true

structure Key where
  before : List Space
  pieces : List Piece
  after : List Space

/-- A JSON text. `int` is an integer in its shortest spelling, and `spaced` a value
    with white space around it. -/
inductive Spelled
  | null
  | bool (b : Bool)
  | int (n : Int)
  | number (literal : NumberLiteral)
  | str (pieces : List Piece)
  | arr (inside : List Space) (items : List Spelled)
  | obj (inside : List Space) (fields : List (Key × Spelled))
  | spaced (before : List Space) (text : Spelled) (after : List Space)

/-- `"` and `"` around the pieces. -/
def renderString (pieces : List Piece) : List Char := '"' :: pieces.flatMap Piece.render ++ ['"']

def renderKey (k : Key) : List Char := k.before.map Space.char ++ renderString k.pieces ++ k.after.map Space.char ++ [':']

namespace Spelled

mutual
def render : Spelled → List Char
  | .null => "null".toList
  | .bool b => (toString b).toList
  | .int n => (toString n).toList
  | .number literal => literal.text.toList
  | .str pieces => renderString pieces
  | .arr inside [] => '[' :: inside.map Space.char ++ [']']
  | .arr inside (t :: rest) => '[' :: inside.map Space.char ++ render t ++ renderItems rest ++ [']']
  | .obj inside [] => '{' :: inside.map Space.char ++ ['}']
  | .obj inside ((k, t) :: rest) =>
    '{' :: inside.map Space.char ++ renderKey k ++ render t ++ renderFields rest ++ ['}']
  | .spaced before text after => before.map Space.char ++ render text ++ after.map Space.char
def renderItems : List Spelled → List Char
  | [] => []
  | t :: rest => ',' :: render t ++ renderItems rest
def renderFields : List (Key × Spelled) → List Char
  | [] => []
  | (k, t) :: rest => ',' :: renderKey k ++ render t ++ renderFields rest
end

/-- The value of a literal; `float` reads those that are no int64. -/
def literalValue (float : String → Double) (literal : String) : Json :=
  match parseInt literal with
  | some n => .int n
  | none => .real (float literal)

mutual
/-- The value that a text denotes. -/
def value (float : String → Double) : Spelled → Json
  | .null => .null
  | .bool b => .bool b
  | .int n => .int n
  | .number literal => literalValue float literal.text
  | .str pieces => .str (String.ofList (chars pieces))
  | .arr _ items => .arr (values float items)
  | .obj _ fields => .obj (fieldValues float fields)
  | .spaced _ text _ => value float text
def values (float : String → Double) : List Spelled → List Json
  | [] => []
  | t :: rest => value float t :: values float rest
def fieldValues (float : String → Double) : List (Key × Spelled) → List (String × Json)
  | [] => []
  | (k, t) :: rest => (String.ofList (chars k.pieces), value float t) :: fieldValues float rest
end

mutual
/-- A raw message as encoding/json writes it. -/
def compact : Spelled → Spelled
  | .str pieces => .str (pieces.map compactPiece)
  | .arr _ items => .arr [] (compactItems items)
  | .obj _ fields => .obj [] (compactFields fields)
  | .spaced _ text _ => compact text
  | t => t
def compactItems : List Spelled → List Spelled
  | [] => []
  | t :: rest => compact t :: compactItems rest
def compactFields : List (Key × Spelled) → List (Key × Spelled)
  | [] => []
  | (k, t) :: rest => (⟨[], k.pieces.map compactPiece, []⟩, compact t) :: compactFields rest
end

end Spelled

/-- The number of bytes in UTF-8. -/
def bytes (cs : List Char) : Nat := (cs.map Char.utf8Size).sum

/-! ### What is kept -/

theorem codeUnit_hexDigit {n : Nat} (small : n < 65536) :
    codeUnit (hexDigit (n / 4096)) (hexDigit (n / 256)) (hexDigit (n / 16)) (hexDigit n) = n := by
  unfold codeUnit hexDigit
  simp only [Fin.ofNat]
  omega

/-- Four digits that no low surrogate follows stand for one character. -/
theorem chars_hex {a b c d : HexDigit} {rest : List Piece}
    (alone : ∀ a' b' c' d' more, rest = .hex a' b' c' d' :: more → isLow (codeUnit a' b' c' d') = false) :
    chars (.hex a b c d :: rest) =
      (if isHigh (codeUnit a b c d) || isLow (codeUnit a b c d) then '\uFFFD' else Char.ofNat (codeUnit a b c d)) :: chars rest := by
  by_cases single : (isHigh (codeUnit a b c d) || isLow (codeUnit a b c d)) = true
  · rw [if_pos single]
    cases rest with
    | nil => simp only [chars, single, ↓reduceIte]
    | cons p more =>
      cases p with
      | plain _ _ | short _ => simp only [chars, single, ↓reduceIte]
      | hex a' b' c' d' =>
        have low := alone a' b' c' d' more rfl
        simp only [chars, low, Bool.and_false, Bool.false_eq_true, single, ↓reduceIte]
  · rw [if_neg single]
    cases rest with
    | nil => simp only [chars, single, Bool.false_eq_true, ↓reduceIte]
    | cons p more =>
      cases p with
      | plain _ _ | short _ => simp only [chars, single, Bool.false_eq_true, ↓reduceIte]
      | hex a' b' c' d' =>
        have low := alone a' b' c' d' more rfl
        simp only [chars, low, Bool.and_false, single, Bool.false_eq_true, ↓reduceIte]

theorem not_surrogate {n : Nat} (small : n < 0xD800) : isHigh n = false ∧ isLow n = false := by
  simp only [isHigh, isLow, Bool.and_eq_false_iff, decide_eq_false_iff_not]
  omega

/-- An escape of a character that is no surrogate stands for the character alone. -/
theorem chars_hexEscape {c : Char} (small : c.toNat < 0xD800) (rest : List Piece) : chars (hexEscape c :: rest) = c :: chars rest := by
  have unit := codeUnit_hexDigit (n := c.toNat) (by omega)
  obtain ⟨high, low⟩ := not_surrogate small
  unfold hexEscape
  cases rest with
  | nil => simp [chars, unit, high, low]
  | cons p rest => cases p <;> simp [chars, unit, high, low]

theorem escapedForHTML_small {c : Char} (escaped : escapedForHTML c = true) : c.toNat < 0xD800 := by
  simp only [escapedForHTML, List.mem_cons, List.not_mem_nil, or_false, decide_eq_true_eq] at escaped
  rcases escaped with rfl | rfl | rfl | rfl | rfl <;> decide

theorem compactPiece_plain {c : Char} (legal : Unescaped c) :
    compactPiece (.plain c legal) = if escapedForHTML c then hexEscape c else .plain c legal := rfl

/-- Compaction makes no low surrogate. -/
theorem compact_alone {rest : List Piece} (other : ∀ a b c d more, rest = .hex a b c d :: more → False) (a b c d : HexDigit)
    (more : List Piece) (first : rest.map compactPiece = .hex a b c d :: more) : isLow (codeUnit a b c d) = false := by
  cases rest with
  | nil => cases first
  | cons p rest =>
    obtain ⟨same, -⟩ := List.cons.inj first
    cases p with
    | hex a' b' c' d' => exact (other a' b' c' d' rest rfl).elim
    | short s => cases same
    | plain x legal =>
      rw [compactPiece_plain] at same
      by_cases escaped : escapedForHTML x = true
      · have small := escapedForHTML_small escaped
        rw [if_pos escaped, hexEscape] at same
        cases same
        rw [codeUnit_hexDigit (by omega)]
        exact (not_surrogate small).2
      · rw [if_neg escaped] at same
        cases same

/-- Compaction keeps the characters, also after a single surrogate. -/
theorem chars_compact (pieces : List Piece) : chars (pieces.map compactPiece) = chars pieces := by
  have plain {c : Char} (legal : Unescaped c) (rest : List Piece) : chars (compactPiece (.plain c legal) :: rest) = c :: chars rest := by
    rw [compactPiece_plain]
    by_cases escaped : escapedForHTML c = true
    · rw [if_pos escaped, chars_hexEscape (escapedForHTML_small escaped)]
    · rw [if_neg escaped]
      rfl
  fun_induction chars pieces with
  | case1 => rfl
  | case2 c legal rest ih => rw [List.map_cons, plain, ih]
  | case3 s rest ih =>
    rw [List.map_cons, compactPiece, chars, ih]
    nofun
  | case4 a b c d a' b' c' d' rest pair ih => simp only [List.map_cons, compactPiece, chars, pair, ↓reduceIte, ih]
  | case5 a b c d a' b' c' d' rest pair single ih =>
    simp only [List.map_cons, compactPiece] at ih ⊢
    rw [chars, if_neg pair, if_pos single, ih]
  | case6 a b c d a' b' c' d' rest pair single ih =>
    simp only [List.map_cons, compactPiece] at ih ⊢
    rw [chars, if_neg pair, if_neg single, ih]
  | case7 a b c d rest other single ih => exact (chars_hex (compact_alone other)).trans (by rw [if_pos single, ih])
  | case8 a b c d rest other single ih => exact (chars_hex (compact_alone other)).trans (by rw [if_neg single, ih])

theorem shortFor_char {c : Char} {s : Short} (found : shortFor c = some s) : s.char = c := by
  have each : ∀ entry ∈ [('"', Short.quote), ('\\', .backslash), ('\x08', .b), ('\x0c', .f), ('\n', .n), ('\r', .r), ('\t', .t)],
      entry.2.char = entry.1 := by decide
  obtain ⟨first, last, all, -⟩ := List.lookup_eq_some_iff.mp found
  exact each (c, s) (by rw [all]; simp)

/-- What `appendString` writes is read as the same characters. -/
theorem chars_quote (cs : List Char) : chars (cs.map quoteChar) = cs := by
  induction cs with
  | nil => rfl
  | cons c rest ih =>
    rw [List.map_cons, quoteChar]
    by_cases escaped : escapedForHTML c = true
    · rw [if_pos escaped, chars_hexEscape (escapedForHTML_small escaped), ih]
    · rw [if_neg escaped]
      by_cases legal : Unescaped c
      · rw [dif_pos legal, chars, ih]
      · rw [dif_neg legal]
        cases found : shortFor c with
        | none =>
          have control : c.toNat < 32 := by
            by_contra large
            refine legal ⟨by omega, ?_, ?_⟩
            · rintro rfl
              cases found
            · rintro rfl
              cases found
          exact (chars_hexEscape (by omega) _).trans (by rw [ih])
        | some s => exact congrArg₂ List.cons (shortFor_char found) ih

namespace Spelled
variable {float : String → Double}

mutual
theorem value_compact : ∀ t : Spelled, t.compact.value float = t.value float
  | .null => rfl
  | .bool _ => rfl
  | .int _ => rfl
  | .number _ => rfl
  | .str pieces => by simp only [compact, value, chars_compact]
  | .arr _ items => by simp only [compact, value, values_compact items]
  | .obj _ fields => by simp only [compact, value, fieldValues_compact fields]
  | .spaced _ text _ => by simp only [compact, value, value_compact text]
theorem values_compact : ∀ items : List Spelled, values float (compactItems items) = values float items
  | [] => rfl
  | t :: rest => by simp only [compactItems, values, value_compact t, values_compact rest]
theorem fieldValues_compact : ∀ fields : List (Key × Spelled), fieldValues float (compactFields fields) = fieldValues float fields
  | [] => rfl
  | (k, t) :: rest => by simp only [compactFields, fieldValues, chars_compact, value_compact t, fieldValues_compact rest]
end

theorem values_eq_map (items : List Spelled) : values float items = items.map (value float) := by
  induction items with
  | nil => rfl
  | cons t rest ih => rw [values, ih, List.map_cons]

end Spelled

/-! ### How long texts are -/

@[simp] theorem bytes_nil : bytes [] = 0 := rfl

@[simp] theorem bytes_cons (c : Char) (cs : List Char) : bytes (c :: cs) = c.utf8Size + bytes cs := rfl

@[simp] theorem bytes_append (cs cs' : List Char) : bytes (cs ++ cs') = bytes cs + bytes cs' := by simp [bytes]

theorem bytes_renderString (pieces : List Piece) :
    bytes (renderString pieces) = (pieces.map fun p => bytes p.render).sum + 2 := by
  have inner : bytes (pieces.flatMap Piece.render) = (pieces.map fun p => bytes p.render).sum := by
    induction pieces with
    | nil => rfl
    | cons p rest ih => rw [List.flatMap_cons, bytes_append, ih, List.map_cons, List.sum_cons]
  have quote : '"'.utf8Size = 1 := by decide
  simp only [renderString, List.cons_append, bytes_cons, bytes_append, bytes_nil, inner, quote]
  omega

theorem bytes_renderItems (items : List Spelled) :
    bytes (Spelled.renderItems items) = (items.map fun t => bytes t.render + 1).sum := by
  have comma : ','.utf8Size = 1 := by decide
  induction items with
  | nil => rfl
  | cons t rest ih =>
    simp only [Spelled.renderItems, List.cons_append, bytes_cons, bytes_append, comma, ih, List.map_cons, List.sum_cons]
    omega

/-- An array costs a byte more for every item, and one for itself. -/
theorem bytes_arr {items : List Spelled} (nonempty : items ≠ []) :
    bytes (Spelled.arr [] items).render = (items.map fun t => bytes t.render + 1).sum + 1 := by
  have bracket : '['.utf8Size = 1 ∧ ']'.utf8Size = 1 := by decide
  cases items with
  | nil => exact absurd rfl nonempty
  | cons t rest =>
    simp only [Spelled.render, List.map_nil, List.cons_append, List.nil_append, bytes_cons, bytes_append,
      bytes_nil, bracket, bytes_renderItems, List.map_cons, List.sum_cons]
    omega

theorem bytes_renderFields (fields : List (Key × Spelled)) :
    bytes (Spelled.renderFields fields) = (fields.map fun entry => bytes (renderKey entry.1) + bytes entry.2.render + 1).sum := by
  have comma : ','.utf8Size = 1 := by decide
  induction fields with
  | nil => rfl
  | cons entry rest ih =>
    simp only [Spelled.renderFields, List.cons_append, bytes_cons, bytes_append, comma, ih, List.map_cons, List.sum_cons]
    omega

theorem bytes_obj {fields : List (Key × Spelled)} (nonempty : fields ≠ []) : bytes (Spelled.obj [] fields).render =
    (fields.map fun entry => bytes (renderKey entry.1) + bytes entry.2.render + 1).sum + 1 := by
  have brace : '{'.utf8Size = 1 ∧ '}'.utf8Size = 1 := by decide
  cases fields with
  | nil => exact absurd rfl nonempty
  | cons entry rest =>
    simp only [Spelled.render, List.map_nil, List.cons_append, List.nil_append, bytes_cons, bytes_append,
      bytes_nil, brace, bytes_renderFields, List.map_cons, List.sum_cons]
    omega

end Microserver.Spellings
