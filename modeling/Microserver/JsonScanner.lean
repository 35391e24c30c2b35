import Mathlib.Data.List.Basic

/-!
The scanner of encoding/json, byte by byte, and the grammar of JSON. A Decoder
reads until the scanner says that the first value has ended: an array or an object
ends with its bracket, any other value with the byte behind it. What it has read
then is white space and one value of the grammar, and a text that is one value in
white space is read up to the end of the value.
-/
namespace Microserver.JsonScanner

abbrev Bytes := List UInt8

def byte (c : Char) : UInt8 := c.toNat.toUInt8

theorem forall_byte {P : UInt8 → Prop} (all : ∀ n : Fin 256, P (UInt8.ofFin n)) (c : UInt8) : P c := all c.toFin

/-! ### Scanning -/

def isSpace (c : UInt8) : Bool := c = byte ' ' || c = byte '\t' || c = byte '\r' || c = byte '\n'

def isDigit (c : UInt8) : Bool := byte '0' ≤ c && c ≤ byte '9'

def isHex (c : UInt8) : Bool := isDigit c || (byte 'a' ≤ c && c ≤ byte 'f') || (byte 'A' ≤ c && c ≤ byte 'F')

/-- What is open around a value. -/
inductive ParseState
  | objectKey
  | objectValue
  | arrayValue
deriving DecidableEq

/-- The step functions of the scanner. Those of a literal are one with the letters
    that are to come, and those of `\u` one with the digits behind the next. -/
inductive State
  | beginValue
  | beginValueOrEmpty
  | beginStringOrEmpty
  | beginString
  | endValue
  | inString
  | inStringEsc
  | inStringEscU (left : Nat)
  | neg
  | state1
  | state0
  | dot
  | dot0
  | e
  | eSign
  | e0
  | literal (letter : UInt8) (rest : Bytes)
deriving DecidableEq

/-- What a byte does. `closed` is scanEndObject or scanEndArray, and `ended` is
    scanEnd: the value has ended before the byte. -/
inductive Step
  | more (state : State) (stack : List ParseState)
  | closed (stack : List ParseState)
  | ended
  | error

section Step
variable (maxDepth : Nat)

/-- `pushParseState` -/
def push (state : State) (opened : ParseState) (stack : List ParseState) : Step :=
  if stack.length + 1 ≤ maxDepth then .more state (opened :: stack) else .error

def stepEndValue (c : UInt8) : List ParseState → Step
  | [] => .ended
  | opened :: stack =>
    if isSpace c then .more .endValue (opened :: stack)
    else
      match opened with
      | .objectKey => if c = byte ':' then .more .beginValue (.objectValue :: stack) else .error
      | .objectValue =>
        if c = byte ',' then .more .beginString (.objectKey :: stack) else if c = byte '}' then .closed stack else .error
      | .arrayValue =>
        if c = byte ',' then .more .beginValue (.arrayValue :: stack) else if c = byte ']' then .closed stack else .error

def stepBeginValue (c : UInt8) (stack : List ParseState) : Step :=
  if isSpace c then .more .beginValue stack
  else if c = byte '{' then push maxDepth .beginStringOrEmpty .objectKey stack
  else if c = byte '[' then push maxDepth .beginValueOrEmpty .arrayValue stack
  else if c = byte '"' then .more .inString stack
  else if c = byte '-' then .more .neg stack
  else if c = byte '0' then .more .state0 stack
  else if c = byte 't' then .more (.literal (byte 'r') [byte 'u', byte 'e']) stack
  else if c = byte 'f' then .more (.literal (byte 'a') [byte 'l', byte 's', byte 'e']) stack
  else if c = byte 'n' then .more (.literal (byte 'u') [byte 'l', byte 'l']) stack
  else if isDigit c then .more .state1 stack
  else .error

def stepBeginString (c : UInt8) (stack : List ParseState) : Step :=
  if isSpace c then .more .beginString stack else if c = byte '"' then .more .inString stack else .error

def isExponent (c : UInt8) : Bool := c = byte 'e' || c = byte 'E'

def isEscape (c : UInt8) : Bool := c ∈ "bfnrt\\/\"".toList.map byte

/-- `s.step(s, c)` -/
def step (state : State) (c : UInt8) (stack : List ParseState) : Step :=
  match state with
  | .beginValue => stepBeginValue maxDepth c stack
  | .beginValueOrEmpty =>
    if isSpace c then .more .beginValueOrEmpty stack
    else if c = byte ']' then stepEndValue c stack
    else stepBeginValue maxDepth c stack
  | .beginStringOrEmpty =>
    if isSpace c then .more .beginStringOrEmpty stack
    else if c = byte '}' then stepEndValue c (.objectValue :: stack.tail)
    else stepBeginString c stack
  | .beginString => stepBeginString c stack
  | .endValue => stepEndValue c stack
  | .inString =>
    if c = byte '"' then .more .endValue stack
    else if c = byte '\\' then .more .inStringEsc stack
    else if c < byte ' ' then .error
    else .more .inString stack
  | .inStringEsc =>
    if isEscape c then .more .inString stack else if c = byte 'u' then .more (.inStringEscU 3) stack else .error
  | .inStringEscU left =>
    if isHex c then (match left with | 0 => .more .inString stack | left + 1 => .more (.inStringEscU left) stack) else .error
  | .neg => if c = byte '0' then .more .state0 stack else if isDigit c then .more .state1 stack else .error
  | .state1 => if isDigit c then .more .state1 stack else afterInteger c stack
  | .state0 => afterInteger c stack
  | .dot => if isDigit c then .more .dot0 stack else .error
  | .dot0 =>
    if isDigit c then .more .dot0 stack else if isExponent c then .more .e stack else stepEndValue c stack
  | .e =>
    if c = byte '+' ∨ c = byte '-' then .more .eSign stack else if isDigit c then .more .e0 stack else .error
  | .eSign => if isDigit c then .more .e0 stack else .error
  | .e0 => if isDigit c then .more .e0 stack else stepEndValue c stack
  | .literal letter rest =>
    if c = letter then (match rest with | [] => .more .endValue stack | next :: rest => .more (.literal next rest) stack)
    else .error
where
  afterInteger (c : UInt8) (stack : List ParseState) : Step :=
    if c = byte '.' then .more .dot stack else if isExponent c then .more .e stack else stepEndValue c stack

/-- How far a Decoder comes with a text: it finds the end of a value, with the bytes
    behind it, or an error, or the text is at its end. -/
inductive Outcome
  | value (rest : Bytes)
  | error
  | starved (state : State) (stack : List ParseState)

/-- `readValue` -/
def readValue (state : State) (stack : List ParseState) : Bytes → Outcome
  | [] => .starved state stack
  | c :: rest =>
    match step maxDepth state c stack with
    | .more state stack => readValue state stack rest
    | .closed [] => .value rest
    | .closed (opened :: stack) => readValue .endValue (opened :: stack) rest
    | .ended => .value (c :: rest)
    | .error => .error

end Step

/-! ### The grammar -/

def Spaces (ws : Bytes) : Prop := ∀ c ∈ ws, isSpace c = true

def Digits (ds : Bytes) : Prop := ∀ c ∈ ds, isDigit c = true

/-- What stands in a string, from some place to the quotation mark. -/
inductive Chars : Bytes → Prop
  | close : Chars [byte '"']
  | plain {c : UInt8} {rest : Bytes} (mark : c ≠ byte '"') (backslash : c ≠ byte '\\') (control : ¬ c < byte ' ')
      (chars : Chars rest) : Chars (c :: rest)
  | escape {c : UInt8} {rest : Bytes} (escaped : isEscape c = true) (chars : Chars rest) : Chars (byte '\\' :: c :: rest)
  | unicode {a b c d : UInt8} {rest : Bytes} (digits : ∀ h ∈ [a, b, c, d], isHex h = true) (chars : Chars rest) :
      Chars (byte '\\' :: byte 'u' :: a :: b :: c :: d :: rest)

/-- An exponent, or none. -/
inductive Exponent : Bytes → Prop
  | none : Exponent []
  | unsigned {e d : UInt8} {ds : Bytes} (letter : isExponent e = true) (digit : isDigit d = true) (digits : Digits ds) :
      Exponent (e :: d :: ds)
  | signed {e s d : UInt8} {ds : Bytes} (letter : isExponent e = true) (sign : s = byte '+' ∨ s = byte '-')
      (digit : isDigit d = true) (digits : Digits ds) : Exponent (e :: s :: d :: ds)

/-- A fraction and an exponent, or less. -/
inductive Fraction : Bytes → Prop
  | none {exponent : Bytes} (rest : Exponent exponent) : Fraction exponent
  | some {d : UInt8} {ds exponent : Bytes} (digit : isDigit d = true) (digits : Digits ds) (rest : Exponent exponent) :
      Fraction (byte '.' :: d :: (ds ++ exponent))

/-- A number without its sign. -/
inductive Unsigned : Bytes → Prop
  | zero {fraction : Bytes} (rest : Fraction fraction) : Unsigned (byte '0' :: fraction)
  | digits {d : UInt8} {ds fraction : Bytes} (digit : isDigit d = true) (nonzero : d ≠ byte '0') (digits : Digits ds)
      (rest : Fraction fraction) : Unsigned (d :: (ds ++ fraction))

inductive Number : Bytes → Prop
  | positive {n : Bytes} (unsigned : Unsigned n) : Number n
  | negative {n : Bytes} (unsigned : Unsigned n) : Number (byte '-' :: n)

def literals : List Bytes := ["true", "false", "null"].map fun word => word.toList.map byte

/-- A value, a member of an object, or what follows an element or a member up to
    the bracket. -/
inductive Part
  | value
  | items
  | member
  | members

/-- The texts of the grammar whose brackets are nested so deep at most. -/
inductive Text : Part → Nat → Bytes → Prop
  | literal {room : Nat} {word : Bytes} (known : word ∈ literals) : Text .value room word
  | number {room : Nat} {n : Bytes} (number : Number n) : Text .value room n
  | string {room : Nat} {s : Bytes} (chars : Chars s) : Text .value room (byte '"' :: s)
  | emptyArray {room : Nat} {ws : Bytes} (spaces : Spaces ws) : Text .value (room + 1) (byte '[' :: (ws ++ [byte ']']))
  | array {room : Nat} {ws v rest : Bytes} (spaces : Spaces ws) (value : Text .value room v) (items : Text .items room rest) :
      Text .value (room + 1) (byte '[' :: (ws ++ (v ++ rest)))
  | emptyObject {room : Nat} {ws : Bytes} (spaces : Spaces ws) : Text .value (room + 1) (byte '{' :: (ws ++ [byte '}']))
  | object {room : Nat} {ws m rest : Bytes} (spaces : Spaces ws) (member : Text .member room m)
      (members : Text .members room rest) : Text .value (room + 1) (byte '{' :: (ws ++ (m ++ rest)))
  | closeArray {room : Nat} {ws : Bytes} (spaces : Spaces ws) : Text .items room (ws ++ [byte ']'])
  | item {room : Nat} {ws ws' v rest : Bytes} (spaces : Spaces ws) (spaces' : Spaces ws') (value : Text .value room v)
      (items : Text .items room rest) : Text .items room (ws ++ (byte ',' :: (ws' ++ (v ++ rest))))
  | named {room : Nat} {s ws ws' v : Bytes} (key : Chars s) (spaces : Spaces ws) (spaces' : Spaces ws')
      (value : Text .value room v) : Text .member room (byte '"' :: (s ++ (ws ++ (byte ':' :: (ws' ++ v)))))
  | closeObject {room : Nat} {ws : Bytes} (spaces : Spaces ws) : Text .members room (ws ++ [byte '}'])
  | member {room : Nat} {ws ws' m rest : Bytes} (spaces : Spaces ws) (spaces' : Spaces ws') (member : Text .member room m)
      (members : Text .members room rest) : Text .members room (ws ++ (byte ',' :: (ws' ++ (m ++ rest))))

/-! ### What is read is a value -/

variable {maxDepth : Nat} {stack : List ParseState} {c : UInt8} {u ws : Bytes}

/-- What closes all that is open behind a value. -/
inductive After (maxDepth : Nat) : List ParseState → Bytes → Prop
  | top : After maxDepth [] []
  | comma {stack : List ParseState} {ws ws' v k : Bytes} (spaces : Spaces ws) (spaces' : Spaces ws')
      (value : Text .value (maxDepth - (stack.length + 1)) v) (after : After maxDepth (.arrayValue :: stack) k) :
      After maxDepth (.arrayValue :: stack) (ws ++ (byte ',' :: (ws' ++ (v ++ k))))
  | endArray {stack : List ParseState} {ws k : Bytes} (spaces : Spaces ws) (after : After maxDepth stack k) :
      After maxDepth (.arrayValue :: stack) (ws ++ (byte ']' :: k))
  | key {stack : List ParseState} {ws ws' s k : Bytes} (spaces : Spaces ws) (spaces' : Spaces ws') (chars : Chars s)
      (after : After maxDepth (.objectKey :: stack) k) :
      After maxDepth (.objectValue :: stack) (ws ++ (byte ',' :: (ws' ++ (byte '"' :: (s ++ k)))))
  | endObject {stack : List ParseState} {ws k : Bytes} (spaces : Spaces ws) (after : After maxDepth stack k) :
      After maxDepth (.objectValue :: stack) (ws ++ (byte '}' :: k))
  | colon {stack : List ParseState} {ws ws' v k : Bytes} (spaces : Spaces ws) (spaces' : Spaces ws')
      (value : Text .value (maxDepth - (stack.length + 1)) v) (after : After maxDepth (.objectValue :: stack) k) :
      After maxDepth (.objectKey :: stack) (ws ++ (byte ':' :: (ws' ++ (v ++ k))))

/-- How what closes the innermost bracket begins. -/
def Closes (maxDepth : Nat) (u : Bytes) : List ParseState → Prop
  | [] => u = []
  | .arrayValue :: stack =>
    ∃ items k, u = items ++ k ∧ Text .items (maxDepth - (stack.length + 1)) items ∧ After maxDepth stack k
  | .objectValue :: stack =>
    ∃ members k, u = members ++ k ∧ Text .members (maxDepth - (stack.length + 1)) members ∧ After maxDepth stack k
  | .objectKey :: stack =>
    ∃ ws ws' v members k, u = ws ++ (byte ':' :: (ws' ++ (v ++ (members ++ k)))) ∧ Spaces ws ∧ Spaces ws' ∧
      Text .value (maxDepth - (stack.length + 1)) v ∧ Text .members (maxDepth - (stack.length + 1)) members ∧
      After maxDepth stack k

theorem After.closes (after : After maxDepth stack u) : Closes maxDepth u stack := by
  induction after with
  | top => rfl
  | @comma stack ws ws' v k spaces spaces' value after ih =>
    obtain ⟨items, k, rfl, rest, outer⟩ := ih
    exact ⟨_, k, by simp, .item spaces spaces' value rest, outer⟩
  | @endArray stack ws k spaces after ih => exact ⟨_, k, by simp, .closeArray spaces, after⟩
  | @key stack ws ws' s k spaces spaces' chars after ih =>
    obtain ⟨ws₁, ws₂, v, members, k, rfl, spaces₁, spaces₂, value, rest, outer⟩ := ih
    exact ⟨_, k, by simp, .member spaces spaces' (.named chars spaces₁ spaces₂ value) rest, outer⟩
  | @endObject stack ws k spaces after ih => exact ⟨_, k, by simp, .closeObject spaces, after⟩
  | @colon stack ws ws' v k spaces spaces' value after ih =>
    obtain ⟨members, k, rfl, rest, outer⟩ := ih
    exact ⟨ws, ws', v, members, k, rfl, spaces, spaces', value, rest, outer⟩

theorem spaces_cons (space : isSpace c = true) (spaces : Spaces ws) : Spaces (c :: ws) :=
  List.forall_mem_cons.mpr ⟨space, spaces⟩

theorem After.space (after : After maxDepth stack u) (space : isSpace c = true) (nonempty : stack ≠ []) :
    After maxDepth stack (c :: u) := by
  cases after with
  | top => exact absurd rfl nonempty
  | comma spaces spaces' value after => exact .comma (spaces_cons space spaces) spaces' value after
  | endArray spaces after => exact .endArray (spaces_cons space spaces) after
  | key spaces spaces' chars after => exact .key (spaces_cons space spaces) spaces' chars after
  | endObject spaces after => exact .endObject (spaces_cons space spaces) after
  | colon spaces spaces' value after => exact .colon (spaces_cons space spaces) spaces' value after

/-- What a state waits for, up to the end of its value. -/
def Awaits (room : Nat) : State → Bytes → Prop
  | .beginValue, u | .beginValueOrEmpty, u => ∃ ws v, u = ws ++ v ∧ Spaces ws ∧ Text .value room v
  | .beginString, u | .beginStringOrEmpty, u => ∃ ws s, u = ws ++ (byte '"' :: s) ∧ Spaces ws ∧ Chars s
  | .endValue, u => u = []
  | .inString, u => Chars u
  | .inStringEsc, u => Chars (byte '\\' :: u)
  | .inStringEscU left, u => ∃ hs s, u = hs ++ s ∧ hs.length = left + 1 ∧ (∀ h ∈ hs, isHex h = true) ∧ Chars s
  | .neg, u => Unsigned u
  | .state1, u => ∃ ds fraction, u = ds ++ fraction ∧ Digits ds ∧ Fraction fraction
  | .state0, u => Fraction u
  | .dot, u => ∃ d ds exponent, u = d :: (ds ++ exponent) ∧ isDigit d = true ∧ Digits ds ∧ Exponent exponent
  | .dot0, u => ∃ ds exponent, u = ds ++ exponent ∧ Digits ds ∧ Exponent exponent
  | .e, u => ∀ letter, isExponent letter = true → Exponent (letter :: u)
  | .eSign, u => ∃ d ds, u = d :: ds ∧ isDigit d = true ∧ Digits ds
  | .e0, u => Digits u
  | .literal letter rest, u => u = letter :: rest

/-- What completes the value of a state and all that is open, or the bracket that was
    just opened. -/
def Rest (maxDepth : Nat) (state : State) (stack : List ParseState) (u : Bytes) : Prop :=
  (∃ v k, u = v ++ k ∧ Awaits (maxDepth - stack.length) state v ∧ After maxDepth stack k) ∨
    (state = .beginValueOrEmpty ∧ (stack ≠ [] → ∃ ws k, u = ws ++ (byte ']' :: k) ∧ Spaces ws ∧ After maxDepth stack.tail k)) ∨
      state = .beginStringOrEmpty ∧ ∃ ws k, u = ws ++ (byte '}' :: k) ∧ Spaces ws ∧ After maxDepth stack.tail k

/-- What is read after a step, from what completes the text behind it. -/
def Leads (maxDepth : Nat) (u : Bytes) : Step → Prop
  | .more state stack => Rest maxDepth state stack u
  | .closed stack => After maxDepth stack u
  | .ended => False
  | .error => False

variable {state state' : State}

theorem rest_plain (value : state ≠ .beginValueOrEmpty) (string : state ≠ .beginStringOrEmpty) :
    Rest maxDepth state stack u ↔
      ∃ v k, u = v ++ k ∧ Awaits (maxDepth - stack.length) state v ∧ After maxDepth stack k := by
  simp [Rest, value, string]

theorem Rest.of_after (awaits : Awaits (maxDepth - stack.length) state []) (after : After maxDepth stack u) :
    Rest maxDepth state stack u := .inl ⟨[], u, rfl, awaits, after⟩

/-- A byte of a token, with the stack as it was. -/
theorem Rest.cons (rest : Rest maxDepth state' stack u) (value : state' ≠ .beginValueOrEmpty)
    (string : state' ≠ .beginStringOrEmpty)
    (awaits : ∀ v, Awaits (maxDepth - stack.length) state' v → Awaits (maxDepth - stack.length) state (c :: v)) :
    Rest maxDepth state stack (c :: u) := by
  obtain ⟨v, k, rfl, waits, after⟩ := (rest_plain value string).mp rest
  exact .inl ⟨c :: v, k, rfl, awaits v waits, after⟩

theorem spaces_nil : Spaces [] := by simp [Spaces]

theorem endValue_leads (leads : Leads maxDepth u (stepEndValue c stack)) : After maxDepth stack (c :: u) := by
  cases stack with
  | nil => exact leads.elim
  | cons opened stack =>
    simp only [stepEndValue] at leads
    split at leads
    · rename_i space
      obtain ⟨v, k, rfl, rfl, after⟩ := (rest_plain (by simp) (by simp)).mp leads
      exact after.space space (List.cons_ne_nil _ _)
    · cases opened with
      | objectKey =>
        dsimp only at leads
        split at leads
        · rename_i colon
          obtain ⟨_, k, rfl, ⟨ws, v, rfl, spaces, value⟩, after⟩ := (rest_plain (by simp) (by simp)).mp leads
          rw [colon, List.append_assoc]
          exact .colon spaces_nil spaces value after
        · exact leads.elim
      | objectValue =>
        dsimp only at leads
        split at leads
        · rename_i comma
          obtain ⟨_, k, rfl, ⟨ws, s, rfl, spaces, chars⟩, after⟩ := (rest_plain (by simp) (by simp)).mp leads
          rw [comma, List.append_assoc]
          exact .key spaces_nil spaces chars after
        · split at leads
          · rename_i brace
            rw [brace]
            exact .endObject spaces_nil leads
          · exact leads.elim
      | arrayValue =>
        dsimp only at leads
        split at leads
        · rename_i comma
          obtain ⟨_, k, rfl, ⟨ws, v, rfl, spaces, value⟩, after⟩ := (rest_plain (by simp) (by simp)).mp leads
          rw [comma, List.append_assoc]
          exact .comma spaces_nil spaces value after
        · split at leads
          · rename_i bracket
            rw [bracket]
            exact .endArray spaces_nil leads
          · exact leads.elim

theorem push_leads {opened : ParseState} (leads : Leads maxDepth u (push maxDepth state opened stack)) :
    maxDepth - stack.length = maxDepth - (stack.length + 1) + 1 ∧ Rest maxDepth state (opened :: stack) u := by
  unfold push at leads
  split at leads
  · exact ⟨by omega, leads⟩
  · exact leads.elim

/-- A whole value. -/
theorem Rest.of_value {v k : Bytes} (value : Text .value (maxDepth - stack.length) v) (after : After maxDepth stack k)
    (same : u = v ++ k) : Rest maxDepth .beginValue stack u :=
  .inl ⟨v, k, same, ⟨[], v, rfl, spaces_nil, value⟩, after⟩

theorem object_leads (leads : Leads maxDepth u (push maxDepth .beginStringOrEmpty .objectKey stack)) :
    Rest maxDepth .beginValue stack (byte '{' :: u) := by
  obtain ⟨deeper, rest⟩ := push_leads leads
  rcases rest with ⟨_, k, rfl, ⟨ws, s, rfl, spaces, chars⟩, after⟩ | ⟨impossible, -⟩ | ⟨-, ws, k, rfl, spaces, after⟩
  · obtain ⟨ws₁, ws₂, v, members, k, rfl, spaces₁, spaces₂, value, rest, outer⟩ := after.closes
    have whole := Text.object spaces (.named chars spaces₁ spaces₂ value) rest
    rw [← deeper] at whole
    exact .of_value whole outer (by simp)
  · cases impossible
  · have whole : Text .value (maxDepth - (stack.length + 1) + 1) _ := .emptyObject spaces
    rw [← deeper] at whole
    exact .of_value whole after (by simp)

theorem array_leads (leads : Leads maxDepth u (push maxDepth .beginValueOrEmpty .arrayValue stack)) :
    Rest maxDepth .beginValue stack (byte '[' :: u) := by
  obtain ⟨deeper, rest⟩ := push_leads leads
  rcases rest with ⟨_, k, rfl, ⟨ws, v, rfl, spaces, value⟩, after⟩ | ⟨-, empty⟩ | ⟨impossible, -⟩
  · obtain ⟨items, k, rfl, rest, outer⟩ := after.closes
    have whole : Text .value (maxDepth - (stack.length + 1) + 1) _ := .array spaces value rest
    rw [← deeper] at whole
    exact .of_value whole outer (by simp)
  · obtain ⟨ws, k, rfl, spaces, after⟩ := empty (List.cons_ne_nil _ _)
    have whole : Text .value (maxDepth - (stack.length + 1) + 1) _ := .emptyArray spaces
    rw [← deeper] at whole
    exact .of_value whole after (by simp)
  · cases impossible

theorem literal_leads {word letters : Bytes} {letter : UInt8} (known : word ∈ literals) (same : word = c :: letter :: letters)
    (leads : Leads maxDepth u (.more (.literal letter letters) stack)) : Rest maxDepth .beginValue stack (c :: u) := by
  obtain ⟨v, k, rfl, rfl, after⟩ := (rest_plain (by simp) (by simp)).mp leads
  exact .of_value (.literal known) after (by rw [same]; rfl)

theorem beginValue_leads (leads : Leads maxDepth u (stepBeginValue maxDepth c stack)) :
    Rest maxDepth .beginValue stack (c :: u) := by
  unfold stepBeginValue at leads
  split at leads
  · rename_i space
    refine leads.cons (by simp) (by simp) ?_
    rintro _ ⟨ws, v, rfl, spaces, value⟩
    exact ⟨c :: ws, v, rfl, spaces_cons space spaces, value⟩
  split at leads
  · rename_i brace
    rw [brace]
    exact object_leads leads
  split at leads
  · rename_i bracket
    rw [bracket]
    exact array_leads leads
  split at leads
  · rename_i mark
    obtain ⟨v, k, rfl, chars, after⟩ := (rest_plain (by simp) (by simp)).mp leads
    exact .of_value (.string chars) after (by rw [mark]; rfl)
  split at leads
  · rename_i minus
    obtain ⟨v, k, rfl, unsigned, after⟩ := (rest_plain (by simp) (by simp)).mp leads
    exact .of_value (.number (.negative unsigned)) after (by rw [minus]; rfl)
  split at leads
  · rename_i zero
    obtain ⟨v, k, rfl, fraction, after⟩ := (rest_plain (by simp) (by simp)).mp leads
    exact .of_value (.number (.positive (.zero fraction))) after (by rw [zero]; rfl)
  split at leads
  · rename_i letter
    exact literal_leads (show "true".toList.map byte ∈ literals by decide) (by rw [letter]; rfl) leads
  split at leads
  · rename_i letter
    exact literal_leads (show "false".toList.map byte ∈ literals by decide) (by rw [letter]; rfl) leads
  split at leads
  · rename_i letter
    exact literal_leads (show "null".toList.map byte ∈ literals by decide) (by rw [letter]; rfl) leads
  rename_i nonzero _ _ _
  split at leads
  · rename_i digit
    obtain ⟨_, k, rfl, ⟨ds, fraction, rfl, digits, rest⟩, after⟩ := (rest_plain (by simp) (by simp)).mp leads
    exact .of_value (.number (.positive (.digits digit nonzero digits rest))) after (by simp)
  · exact leads.elim

theorem beginString_leads (leads : Leads maxDepth u (stepBeginString c stack)) : Rest maxDepth .beginString stack (c :: u) := by
  unfold stepBeginString at leads
  split at leads
  · rename_i space
    refine leads.cons (by simp) (by simp) ?_
    rintro _ ⟨ws, s, rfl, spaces, chars⟩
    exact ⟨c :: ws, s, rfl, spaces_cons space spaces, chars⟩
  split at leads
  · rename_i mark
    refine leads.cons (by simp) (by simp) ?_
    intro s chars
    exact ⟨[], s, by rw [mark]; rfl, spaces_nil, chars⟩
  · exact leads.elim

theorem afterInteger_leads (leads : Leads maxDepth u (step.afterInteger c stack)) : Rest maxDepth .state0 stack (c :: u) := by
  unfold step.afterInteger at leads
  split at leads
  · rename_i point
    refine leads.cons (by simp) (by simp) ?_
    rintro _ ⟨d, ds, exponent, rfl, digit, digits, rest⟩
    rw [point]
    exact .some digit digits rest
  split at leads
  · rename_i letter
    exact leads.cons (by simp) (by simp) fun v awaits => .none (awaits c letter)
  · exact .of_after (.none .none) (endValue_leads leads)

theorem digits_nil : Digits [] := by simp [Digits]

theorem digits_cons {ds : Bytes} (digit : isDigit c = true) (digits : Digits ds) : Digits (c :: ds) :=
  List.forall_mem_cons.mpr ⟨digit, digits⟩

theorem four_of_length {hs : Bytes} (four : hs.length = 4) : ∃ h₁ h₂ h₃ h₄, hs = [h₁, h₂, h₃, h₄] := by
  rcases hs with _ | ⟨h₁, _ | ⟨h₂, _ | ⟨h₃, _ | ⟨h₄, _ | ⟨h₅, more⟩⟩⟩⟩⟩
  all_goals simp at four
  exact ⟨h₁, h₂, h₃, h₄, rfl⟩

theorem beginValueOrEmpty_leads (leads : Leads maxDepth u (step maxDepth .beginValueOrEmpty c stack)) :
    Rest maxDepth .beginValueOrEmpty stack (c :: u) := by
  simp only [step] at leads
  split at leads
  · rename_i space
    rcases leads with ⟨_, k, rfl, ⟨ws, v, rfl, spaces, value⟩, after⟩ | ⟨-, empty⟩ | ⟨impossible, -⟩
    · exact .inl ⟨_, k, rfl, ⟨c :: ws, v, rfl, spaces_cons space spaces, value⟩, after⟩
    · refine .inr (.inl ⟨rfl, fun nonempty => ?_⟩)
      obtain ⟨ws, k, rfl, spaces, after⟩ := empty nonempty
      exact ⟨c :: ws, k, rfl, spaces_cons space spaces, after⟩
    · cases impossible
  split at leads
  · rename_i bracket
    refine .inr (.inl ⟨rfl, fun nonempty => ?_⟩)
    subst bracket
    cases stack with
    | nil => exact absurd rfl nonempty
    | cons opened stack =>
      cases opened with
      | objectKey => exact leads.elim
      | objectValue => exact leads.elim
      | arrayValue => exact ⟨[], u, rfl, spaces_nil, leads⟩
  · rcases beginValue_leads leads with plain | ⟨impossible, -⟩ | ⟨impossible, -⟩
    · exact .inl plain
    · cases impossible
    · cases impossible

theorem beginStringOrEmpty_leads (leads : Leads maxDepth u (step maxDepth .beginStringOrEmpty c stack)) :
    Rest maxDepth .beginStringOrEmpty stack (c :: u) := by
  simp only [step] at leads
  split at leads
  · rename_i space
    rcases leads with ⟨_, k, rfl, ⟨ws, v, rfl, spaces, value⟩, after⟩ | ⟨impossible, -⟩ | ⟨-, ws, k, rfl, spaces, after⟩
    · exact .inl ⟨_, k, rfl, ⟨c :: ws, v, rfl, spaces_cons space spaces, value⟩, after⟩
    · cases impossible
    · exact .inr (.inr ⟨rfl, c :: ws, k, rfl, spaces_cons space spaces, after⟩)
  split at leads
  · rename_i brace
    subst brace
    exact .inr (.inr ⟨rfl, [], u, rfl, spaces_nil, leads⟩)
  · rcases beginString_leads leads with plain | ⟨impossible, -⟩ | ⟨impossible, -⟩
    · exact .inl plain
    · cases impossible
    · cases impossible

theorem inString_leads (leads : Leads maxDepth u (step maxDepth .inString c stack)) :
    Rest maxDepth .inString stack (c :: u) := by
  simp only [step] at leads
  split at leads
  · rename_i mark
    refine leads.cons (by simp) (by simp) ?_
    rintro v rfl
    rw [mark]
    exact .close
  split at leads
  · rename_i backslash
    refine leads.cons (by simp) (by simp) fun v chars => ?_
    rw [backslash]
    exact chars
  split at leads
  · exact leads.elim
  · rename_i mark backslash control
    exact leads.cons (by simp) (by simp) fun v chars => .plain mark backslash control chars

theorem inStringEsc_leads (leads : Leads maxDepth u (step maxDepth .inStringEsc c stack)) :
    Rest maxDepth .inStringEsc stack (c :: u) := by
  simp only [step] at leads
  split at leads
  · rename_i escaped
    exact leads.cons (by simp) (by simp) fun v chars => .escape escaped chars
  split at leads
  · rename_i letter
    refine leads.cons (by simp) (by simp) ?_
    rintro _ ⟨hs, s, rfl, four, digits, chars⟩
    obtain ⟨h₁, h₂, h₃, h₄, rfl⟩ := four_of_length four
    rw [letter]
    exact .unicode digits chars
  · exact leads.elim

theorem inStringEscU_leads {left : Nat} (leads : Leads maxDepth u (step maxDepth (.inStringEscU left) c stack)) :
    Rest maxDepth (.inStringEscU left) stack (c :: u) := by
  simp only [step] at leads
  split at leads
  · rename_i digit
    cases left with
    | zero =>
      refine leads.cons (by simp) (by simp) fun v chars => ?_
      exact ⟨[c], v, rfl, rfl, by simpa using digit, chars⟩
    | succ left =>
      refine leads.cons (by simp) (by simp) ?_
      rintro _ ⟨hs, s, rfl, length, digits, chars⟩
      exact ⟨c :: hs, s, rfl, by rw [List.length_cons, length], List.forall_mem_cons.mpr ⟨digit, digits⟩, chars⟩
  · exact leads.elim

theorem neg_leads (leads : Leads maxDepth u (step maxDepth .neg c stack)) :
    Rest maxDepth .neg stack (c :: u) := by
  simp only [step] at leads
  split at leads
  · rename_i zero
    refine leads.cons (by simp) (by simp) fun v fraction => ?_
    rw [zero]
    exact .zero fraction
  rename_i nonzero
  split at leads
  · rename_i digit
    refine leads.cons (by simp) (by simp) ?_
    rintro _ ⟨ds, fraction, rfl, digits, rest⟩
    exact .digits digit nonzero digits rest
  · exact leads.elim

theorem state1_leads (leads : Leads maxDepth u (step maxDepth .state1 c stack)) :
    Rest maxDepth .state1 stack (c :: u) := by
  simp only [step] at leads
  split at leads
  · rename_i digit
    refine leads.cons (by simp) (by simp) ?_
    rintro _ ⟨ds, fraction, rfl, digits, rest⟩
    exact ⟨c :: ds, fraction, rfl, digits_cons digit digits, rest⟩
  · obtain ⟨v, k, same, fraction, after⟩ := (rest_plain (by simp) (by simp)).mp (afterInteger_leads leads)
    exact .inl ⟨v, k, same, ⟨[], v, rfl, digits_nil, fraction⟩, after⟩

theorem dot_leads (leads : Leads maxDepth u (step maxDepth .dot c stack)) :
    Rest maxDepth .dot stack (c :: u) := by
  simp only [step] at leads
  split at leads
  · rename_i digit
    refine leads.cons (by simp) (by simp) ?_
    rintro _ ⟨ds, exponent, rfl, digits, rest⟩
    exact ⟨c, ds, exponent, rfl, digit, digits, rest⟩
  · exact leads.elim

theorem dot0_leads (leads : Leads maxDepth u (step maxDepth .dot0 c stack)) :
    Rest maxDepth .dot0 stack (c :: u) := by
  simp only [step] at leads
  split at leads
  · rename_i digit
    refine leads.cons (by simp) (by simp) ?_
    rintro _ ⟨ds, exponent, rfl, digits, rest⟩
    exact ⟨c :: ds, exponent, rfl, digits_cons digit digits, rest⟩
  split at leads
  · rename_i letter
    exact leads.cons (by simp) (by simp) fun v awaits => ⟨[], c :: v, rfl, digits_nil, awaits c letter⟩
  · exact .of_after ⟨[], [], rfl, digits_nil, .none⟩ (endValue_leads leads)

theorem e_leads (leads : Leads maxDepth u (step maxDepth .e c stack)) :
    Rest maxDepth .e stack (c :: u) := by
  simp only [step] at leads
  split at leads
  · rename_i sign
    refine leads.cons (by simp) (by simp) ?_
    rintro _ ⟨d, ds, rfl, digit, digits⟩ letter isLetter
    exact .signed isLetter sign digit digits
  split at leads
  · rename_i digit
    exact leads.cons (by simp) (by simp) fun v digits letter isLetter => .unsigned isLetter digit digits
  · exact leads.elim

theorem eSign_leads (leads : Leads maxDepth u (step maxDepth .eSign c stack)) :
    Rest maxDepth .eSign stack (c :: u) := by
  simp only [step] at leads
  split at leads
  · rename_i digit
    exact leads.cons (by simp) (by simp) fun v digits => ⟨c, v, rfl, digit, digits⟩
  · exact leads.elim

theorem e0_leads (leads : Leads maxDepth u (step maxDepth .e0 c stack)) :
    Rest maxDepth .e0 stack (c :: u) := by
  simp only [step] at leads
  split at leads
  · rename_i digit
    exact leads.cons (by simp) (by simp) fun v digits => digits_cons digit digits
  · exact .of_after digits_nil (endValue_leads leads)

theorem literalByte_leads {letter : UInt8} {rest : Bytes} (leads : Leads maxDepth u (step maxDepth (.literal letter rest) c stack)) :
    Rest maxDepth (.literal letter rest) stack (c :: u) := by
  simp only [step] at leads
  split at leads
  · rename_i same
    cases rest with
    | nil =>
      refine leads.cons (by simp) (by simp) ?_
      rintro v rfl
      rw [same]
      rfl
    | cons next rest =>
      refine leads.cons (by simp) (by simp) ?_
      rintro v rfl
      rw [same]
      rfl
  · exact leads.elim

/-- One step of the scanner, from what follows it. -/
theorem step_leads (leads : Leads maxDepth u (step maxDepth state c stack)) : Rest maxDepth state stack (c :: u) := by
  cases state with
  | beginValue => exact beginValue_leads leads
  | beginValueOrEmpty => exact beginValueOrEmpty_leads leads
  | beginStringOrEmpty => exact beginStringOrEmpty_leads leads
  | beginString => exact beginString_leads leads
  | endValue => exact .of_after rfl (endValue_leads leads)
  | inString => exact inString_leads leads
  | inStringEsc => exact inStringEsc_leads leads
  | inStringEscU _ => exact inStringEscU_leads leads
  | neg => exact neg_leads leads
  | state1 => exact state1_leads leads
  | state0 => exact afterInteger_leads leads
  | dot => exact dot_leads leads
  | dot0 => exact dot0_leads leads
  | e => exact e_leads leads
  | eSign => exact eSign_leads leads
  | e0 => exact e0_leads leads
  | literal _ _ => exact literalByte_leads leads

theorem endValue_ended (ended : stepEndValue c stack = .ended) : stack = [] := by
  cases stack with
  | nil => rfl
  | cons opened stack =>
    simp only [stepEndValue] at ended
    cases opened <;> (dsimp only at ended; split_ifs at ended)

theorem stepBeginValue_not_ended : stepBeginValue maxDepth c stack ≠ .ended := by
  unfold stepBeginValue push
  split_ifs <;> simp

theorem stepBeginString_not_ended : stepBeginString c stack ≠ .ended := by
  unfold stepBeginString
  split_ifs <;> simp

/-- A value that ends before a byte is complete. -/
theorem step_ended (ended : step maxDepth state c stack = .ended) : Rest maxDepth state stack [] := by
  have complete (awaits : Awaits (maxDepth - stack.length) state []) (closed : stack = []) : Rest maxDepth state stack [] := by
    subst closed
    exact .of_after awaits .top
  cases state with
  | beginValue => exact absurd ended stepBeginValue_not_ended
  | beginValueOrEmpty =>
    simp only [step] at ended
    split_ifs at ended
    · exact .inr (.inl ⟨rfl, fun nonempty => absurd (endValue_ended ended) nonempty⟩)
    · exact absurd ended stepBeginValue_not_ended
  | beginStringOrEmpty =>
    simp only [step] at ended
    split_ifs at ended
    · exact absurd (endValue_ended ended) (List.cons_ne_nil _ _)
    · exact absurd ended stepBeginString_not_ended
  | beginString => exact absurd ended stepBeginString_not_ended
  | endValue => exact complete rfl (endValue_ended ended)
  | state1 =>
    simp only [step, step.afterInteger] at ended
    split_ifs at ended
    exact complete ⟨[], [], rfl, digits_nil, .none .none⟩ (endValue_ended ended)
  | state0 =>
    simp only [step, step.afterInteger] at ended
    split_ifs at ended
    exact complete (.none .none) (endValue_ended ended)
  | dot0 =>
    simp only [step] at ended
    split_ifs at ended
    exact complete ⟨[], [], rfl, digits_nil, .none⟩ (endValue_ended ended)
  | e0 =>
    simp only [step] at ended
    split_ifs at ended
    exact complete digits_nil (endValue_ended ended)
  | inString | inStringEsc | neg | dot | e | eSign =>
    simp only [step] at ended
    split_ifs at ended
  | inStringEscU left =>
    simp only [step] at ended
    split_ifs at ended
    cases left <;> cases ended
  | literal letter rest =>
    simp only [step] at ended
    split_ifs at ended
    cases rest <;> cases ended

/-- What a Decoder has read of a value that ends in the text. -/
theorem readValue_rest {t r : Bytes} (read : readValue maxDepth state stack t = .value r) :
    ∃ u, t = u ++ r ∧ Rest maxDepth state stack u := by
  induction t generalizing state stack with
  | nil => cases read
  | cons c t ih =>
    rw [readValue] at read
    cases stepped : step maxDepth state c stack with
    | more state' stack' =>
      rw [stepped] at read
      obtain ⟨u, rfl, rest⟩ := ih read
      exact ⟨c :: u, rfl, step_leads (by rw [stepped]; exact rest)⟩
    | closed stack' =>
      rw [stepped] at read
      cases stack' with
      | nil =>
        cases read
        exact ⟨[c], rfl, step_leads (by rw [stepped]; exact .top)⟩
      | cons opened stack' =>
        obtain ⟨u, rfl, rest⟩ := ih read
        obtain ⟨v, k, rfl, rfl, after⟩ := (rest_plain (by simp) (by simp)).mp rest
        exact ⟨c :: k, rfl, step_leads (by rw [stepped]; exact after)⟩
    | ended =>
      rw [stepped] at read
      cases read
      exact ⟨[], rfl, step_ended stepped⟩
    | error =>
      rw [stepped] at read
      cases read

/-- A Decoder reads white space and one value. -/
theorem readValue_text {t r : Bytes} (read : readValue maxDepth .beginValue [] t = .value r) :
    ∃ ws v, t = ws ++ (v ++ r) ∧ Spaces ws ∧ Text .value maxDepth v := by
  obtain ⟨u, rfl, rest⟩ := readValue_rest read
  obtain ⟨_, k, rfl, ⟨ws, v, rfl, spaces, value⟩, after⟩ := (rest_plain (by simp) (by simp)).mp rest
  have nothing : k = [] := after.closes
  exact ⟨ws, v, by simp [nothing], spaces, value⟩

end Microserver.JsonScanner
