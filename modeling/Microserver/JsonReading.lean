import Microserver.JsonScanner

/-!
Values of the grammar are read to their end. The scanner goes through a value in
any surroundings, and comes to a state in which the value may be over or closes
the bracket; for each part of the grammar this is an induction over the text.
-/
namespace Microserver.JsonScanner

variable {maxDepth : Nat} {stack : List ParseState} {c : UInt8} {u ws : Bytes} {state state' : State}

/-- The bytes that can follow a value inside of brackets. -/
def delimiter (c : UInt8) : Bool := isSpace c || c = byte ',' || c = byte ':' || c = byte ']' || c = byte '}'

/-- A state in which a value may be over. -/
def Settled (maxDepth : Nat) (state : State) : Prop :=
  ∀ c stack, delimiter c = true → step maxDepth state c stack = stepEndValue c stack

/-- A text leads from one state to another, with the stack as it is. -/
def Reads (maxDepth : Nat) (stack : List ParseState) (state : State) (u : Bytes) (state' : State) : Prop :=
  ∀ t, readValue maxDepth state stack (u ++ t) = readValue maxDepth state' stack t

/-- The bracket that was innermost is closed. -/
def finish (maxDepth : Nat) : List ParseState → Bytes → Outcome
  | [], t => .value t
  | opened :: stack, t => readValue maxDepth .endValue (opened :: stack) t

theorem delimiter_other {c : UInt8} (delimits : delimiter c = true) :
    isDigit c = false ∧ isExponent c = false ∧ c ≠ byte '.' := by
  revert delimits
  refine forall_byte (P := fun c => delimiter c = true → isDigit c = false ∧ isExponent c = false ∧ c ≠ byte '.') ?_ c
  decide +kernel

theorem settled_endValue : Settled maxDepth .endValue := fun _ _ _ => rfl

theorem settled_state0 : Settled maxDepth .state0 := by
  intro c stack delimits
  obtain ⟨-, letter, point⟩ := delimiter_other delimits
  simp [step, step.afterInteger, letter, point]

theorem settled_state1 : Settled maxDepth .state1 := by
  intro c stack delimits
  obtain ⟨digit, letter, point⟩ := delimiter_other delimits
  simp [step, step.afterInteger, digit, letter, point]

theorem settled_dot0 : Settled maxDepth .dot0 := by
  intro c stack delimits
  obtain ⟨digit, letter, -⟩ := delimiter_other delimits
  simp [step, digit, letter]

theorem settled_e0 : Settled maxDepth .e0 := by
  intro c stack delimits
  obtain ⟨digit, -, -⟩ := delimiter_other delimits
  simp [step, digit]

theorem reads_nil : Reads maxDepth stack state [] state := fun _ => rfl

theorem reads_cons (state' : State) {state'' : State} (stepped : step maxDepth state c stack = .more state' stack)
    (reads : Reads maxDepth stack state' u state'') : Reads maxDepth stack state (c :: u) state'' := by
  intro t
  rw [List.cons_append, readValue, stepped]
  exact reads t

theorem Reads.append {state'' : State} {u' : Bytes} (first : Reads maxDepth stack state u state')
    (second : Reads maxDepth stack state' u' state'') : Reads maxDepth stack state (u ++ u') state'' := by
  intro t
  rw [List.append_assoc, first, second]

/-- Bytes that keep a state. -/
theorem reads_all {p : UInt8 → Bool} (keeps : ∀ c, p c = true → step maxDepth state c stack = .more state stack)
    (all : ∀ c ∈ u, p c = true) : Reads maxDepth stack state u state := by
  induction u with
  | nil => exact reads_nil
  | cons c u ih =>
    obtain ⟨first, others⟩ := List.forall_mem_cons.mp all
    exact reads_cons state (keeps c first) (ih others)

theorem skips_beginValue (space : isSpace c = true) : step maxDepth .beginValue c stack = .more .beginValue stack := by
  simp [step, stepBeginValue, space]

theorem skips_beginValueOrEmpty (space : isSpace c = true) :
    step maxDepth .beginValueOrEmpty c stack = .more .beginValueOrEmpty stack := by
  simp [step, space]

theorem skips_beginString (space : isSpace c = true) : step maxDepth .beginString c stack = .more .beginString stack := by
  simp [step, stepBeginString, space]

theorem skips_beginStringOrEmpty (space : isSpace c = true) :
    step maxDepth .beginStringOrEmpty c stack = .more .beginStringOrEmpty stack := by
  simp [step, space]

theorem reads_chars {s : Bytes} (chars : Chars s) : Reads maxDepth stack .inString s .endValue := by
  induction chars with
  | close => exact reads_cons .endValue rfl reads_nil
  | plain mark backslash control _ ih => exact reads_cons .inString (by simp [step, mark, backslash, control]) ih
  | escape escaped _ ih => exact reads_cons .inStringEsc rfl (reads_cons .inString (by simp [step, escaped]) ih)
  | unicode digits _ ih =>
    simp only [List.forall_mem_cons, List.not_mem_nil, false_implies, implies_true, and_true] at digits
    obtain ⟨h₁, h₂, h₃, h₄⟩ := digits
    refine reads_cons .inStringEsc rfl (reads_cons (.inStringEscU 3) rfl ?_)
    refine reads_cons (.inStringEscU 2) (by simp [step, h₁]) (reads_cons (.inStringEscU 1) (by simp [step, h₂]) ?_)
    exact reads_cons (.inStringEscU 0) (by simp [step, h₃]) (reads_cons .inString (by simp [step, h₄]) ih)

/-- A text leads to a state in which a value may be over. -/
def Settles (maxDepth : Nat) (stack : List ParseState) (state : State) (u : Bytes) : Prop :=
  ∃ state', Settled maxDepth state' ∧ Reads maxDepth stack state u state'

theorem Reads.settles (reads : Reads maxDepth stack state u state') {u' : Bytes} (settles : Settles maxDepth stack state' u') :
    Settles maxDepth stack state (u ++ u') := by
  obtain ⟨state'', settled, more⟩ := settles
  exact ⟨state'', settled, reads.append more⟩

theorem settles_cons (state' : State) (stepped : step maxDepth state c stack = .more state' stack)
    (settles : Settles maxDepth stack state' u) : Settles maxDepth stack state (c :: u) := by
  obtain ⟨state'', settled, more⟩ := settles
  exact ⟨state'', settled, reads_cons state' stepped more⟩

theorem digit_other {c : UInt8} (digit : isDigit c = true) :
    isSpace c = false ∧ isExponent c = false ∧ c ≠ byte '.' ∧ c ≠ byte '+' ∧ c ≠ byte '-' := by
  revert digit
  refine forall_byte (P := fun c => isDigit c = true →
    isSpace c = false ∧ isExponent c = false ∧ c ≠ byte '.' ∧ c ≠ byte '+' ∧ c ≠ byte '-') ?_ c
  decide +kernel

theorem exponent_other {c : UInt8} (letter : isExponent c = true) : isDigit c = false ∧ c ≠ byte '.' := by
  revert letter
  refine forall_byte (P := fun c => isExponent c = true → isDigit c = false ∧ c ≠ byte '.') ?_ c
  decide +kernel

theorem settles_e0 {ds : Bytes} (digits : Digits ds) : Settles maxDepth stack .e0 ds :=
  ⟨.e0, settled_e0, reads_all (fun c digit => by simp [step, digit]) digits⟩

/-- An exponent, from a state that goes on with one. -/
theorem settles_exponent {exponent : Bytes} (settled : Settled maxDepth state)
    (goes : ∀ c, isExponent c = true → step maxDepth state c stack = .more .e stack) (rest : Exponent exponent) :
    Settles maxDepth stack state exponent := by
  cases rest with
  | none => exact ⟨state, settled, reads_nil⟩
  | unsigned letter digit digits =>
    obtain ⟨-, -, -, plus, minus⟩ := digit_other digit
    exact settles_cons .e (goes _ letter) (settles_cons .e0 (by simp [step, plus, minus, digit]) (settles_e0 digits))
  | signed letter sign digit digits =>
    refine settles_cons .e (goes _ letter) (settles_cons .eSign (by simp [step, sign]) ?_)
    exact settles_cons .e0 (by simp [step, digit]) (settles_e0 digits)

theorem settles_dot0 {ds exponent : Bytes} (digits : Digits ds) (rest : Exponent exponent) :
    Settles maxDepth stack .dot0 (ds ++ exponent) := by
  have run : Reads maxDepth stack .dot0 ds .dot0 := reads_all (fun c digit => by simp [step, digit]) digits
  refine run.settles (settles_exponent settled_dot0 (fun c letter => ?_) rest)
  simp [step, letter, (exponent_other letter).1]

/-- A fraction, from a state after the digits before it. -/
theorem settles_fraction {fraction : Bytes} (settled : Settled maxDepth state)
    (goes : ∀ c, isExponent c = true → step maxDepth state c stack = .more .e stack)
    (point : step maxDepth state (byte '.') stack = .more .dot stack) (rest : Fraction fraction) :
    Settles maxDepth stack state fraction := by
  cases rest with
  | none rest => exact settles_exponent settled goes rest
  | some digit digits rest =>
    exact settles_cons .dot point (settles_cons .dot0 (by simp [step, digit]) (settles_dot0 digits rest))

theorem settles_state0 {fraction : Bytes} (rest : Fraction fraction) : Settles maxDepth stack .state0 fraction := by
  refine settles_fraction settled_state0 (fun c letter => ?_) rfl rest
  simp [step, step.afterInteger, letter, (exponent_other letter).2]

theorem settles_state1 {ds fraction : Bytes} (digits : Digits ds) (rest : Fraction fraction) :
    Settles maxDepth stack .state1 (ds ++ fraction) := by
  have run : Reads maxDepth stack .state1 ds .state1 := reads_all (fun c digit => by simp [step, digit]) digits
  refine run.settles (settles_fraction settled_state1 (fun c letter => ?_) rfl rest)
  simp [step, step.afterInteger, letter, exponent_other letter]

theorem settles_unsigned {n : Bytes} (unsigned : Unsigned n)
    (zero : step maxDepth state (byte '0') stack = .more .state0 stack)
    (digit : ∀ d, isDigit d = true → d ≠ byte '0' → step maxDepth state d stack = .more .state1 stack) :
    Settles maxDepth stack state n := by
  cases unsigned with
  | zero rest => exact settles_cons .state0 zero (settles_state0 rest)
  | digits numeral nonzero digits rest => exact settles_cons .state1 (digit _ numeral nonzero) (settles_state1 digits rest)

theorem beginValue_digit (digit : isDigit c = true) (nonzero : c ≠ byte '0') :
    step maxDepth .beginValue c stack = .more .state1 stack := by
  have others : isSpace c = false ∧ c ≠ byte '{' ∧ c ≠ byte '[' ∧ c ≠ byte '"' ∧ c ≠ byte '-' ∧ c ≠ byte 't' ∧ c ≠ byte 'f' ∧
      c ≠ byte 'n' := by
    revert digit
    refine forall_byte (P := fun c => isDigit c = true → isSpace c = false ∧ c ≠ byte '{' ∧ c ≠ byte '[' ∧ c ≠ byte '"' ∧
      c ≠ byte '-' ∧ c ≠ byte 't' ∧ c ≠ byte 'f' ∧ c ≠ byte 'n') ?_ c
    decide +kernel
  simp [step, stepBeginValue, others, digit, nonzero]

theorem settles_number {n : Bytes} (number : Number n) : Settles maxDepth stack .beginValue n := by
  cases number with
  | positive unsigned => exact settles_unsigned unsigned rfl fun d digit nonzero => beginValue_digit digit nonzero
  | negative unsigned =>
    refine settles_cons .neg rfl (settles_unsigned unsigned rfl fun d digit nonzero => ?_)
    simp [step, digit, nonzero]

theorem settles_literal {word : Bytes} (known : word ∈ literals) : Settles maxDepth stack .beginValue word := by
  have letters {letter : UInt8} {rest : Bytes} : Reads maxDepth stack (.literal letter rest) (letter :: rest) .endValue := by
    induction rest generalizing letter with
    | nil => exact reads_cons .endValue (by simp [step]) reads_nil
    | cons next rest ih => exact reads_cons (.literal next rest) (by simp [step]) ih
  refine ⟨.endValue, settled_endValue, ?_⟩
  unfold literals at known
  simp only [List.map_cons, List.map_nil, List.mem_cons, List.not_mem_nil, or_false] at known
  rcases known with rfl | rfl | rfl
  · exact reads_cons (.literal (byte 'r') [byte 'u', byte 'e']) rfl letters
  · exact reads_cons (.literal (byte 'a') [byte 'l', byte 's', byte 'e']) rfl letters
  · exact reads_cons (.literal (byte 'u') [byte 'l', byte 'l']) rfl letters

/-- A value that ends with a bracket, and not with what is behind it. -/
def bracketed (v : Bytes) : Bool := v.head? = some (byte '[') || v.head? = some (byte '{')

/-- A bracket closes, or the value goes on to a state in which it may be over. -/
def Ends (maxDepth : Nat) (stack : List ParseState) (v : Bytes) : Prop :=
  bracketed v = false ∧ Settles maxDepth stack .beginValue v ∨
    bracketed v = true ∧ ∀ t, readValue maxDepth .beginValue stack (v ++ t) = finish maxDepth stack t

/-- What the scanner makes of each part of the grammar. -/
def Scans (maxDepth : Nat) : Part → Nat → Bytes → Prop
  | .value, room, v => ∀ stack, room + stack.length = maxDepth → Ends maxDepth stack v
  | .items, room, u => ∀ stack state, room + (stack.length + 1) = maxDepth → Settled maxDepth state → ∀ t,
      readValue maxDepth state (.arrayValue :: stack) (u ++ t) = finish maxDepth stack t
  | .member, room, m => ∀ stack, room + (stack.length + 1) = maxDepth → ∃ state', Settled maxDepth state' ∧ ∀ t,
      readValue maxDepth .beginString (.objectKey :: stack) (m ++ t) = readValue maxDepth state' (.objectValue :: stack) t
  | .members, room, u => ∀ stack state, room + (stack.length + 1) = maxDepth → Settled maxDepth state → ∀ t,
      readValue maxDepth state (.objectValue :: stack) (u ++ t) = finish maxDepth stack t

/-- Inside of brackets every value settles. -/
theorem Ends.settles {opened : ParseState} {v : Bytes} (ends : Ends maxDepth (opened :: stack) v) :
    Settles maxDepth (opened :: stack) .beginValue v := by
  rcases ends with ⟨-, settles⟩ | ⟨-, closes⟩
  · exact settles
  · exact ⟨.endValue, settled_endValue, closes⟩

theorem readValue_closed {t : Bytes} (stepped : step maxDepth state c stack = .closed stack.tail) :
    readValue maxDepth state stack (c :: t) = finish maxDepth stack.tail t := by
  rw [readValue, stepped]
  cases stack.tail <;> rfl

/-- Behind a value white space is passed, and then the bracket or the next part
    decides. -/
theorem settled_spaces (settled : Settled maxDepth state) {opened : ParseState} (spaces : Spaces ws) (delimits : delimiter c = true)
    (u : Bytes) : readValue maxDepth state (opened :: stack) (ws ++ c :: u) =
      readValue maxDepth .endValue (opened :: stack) (c :: u) := by
  have skips (c : UInt8) (space : isSpace c = true) :
      step maxDepth .endValue c (opened :: stack) = .more .endValue (opened :: stack) := by
    simp [step, stepEndValue, space]
  cases ws with
  | nil =>
    rw [List.nil_append, readValue, readValue, settled c _ delimits]
    rfl
  | cons space ws =>
    obtain ⟨first, more⟩ := List.forall_mem_cons.mp spaces
    have passes : step maxDepth state space (opened :: stack) = .more .endValue (opened :: stack) := by
      rw [settled space _ (by simp [delimiter, first])]
      exact skips space first
    rw [List.cons_append, readValue, passes]
    exact reads_all skips more _

theorem value_head {v : Bytes} {part : Part} {room : Nat} (text : Text part room v) (value : part = .value) :
    ∃ c u, v = c :: u ∧ isSpace c = false ∧ c ≠ byte ']' := by
  have digit {n : Bytes} (unsigned : Unsigned n) : ∃ c u, n = c :: u ∧ isSpace c = false ∧ c ≠ byte ']' := by
    cases unsigned with
    | zero => exact ⟨_, _, rfl, by decide, by decide⟩
    | @digits d ds fraction numeral =>
      refine ⟨d, _, rfl, (digit_other numeral).1, ?_⟩
      rintro rfl
      exact absurd numeral (by decide)
  cases text with
  | literal known =>
    unfold literals at known
    simp only [List.map_cons, List.map_nil, List.mem_cons, List.not_mem_nil, or_false] at known
    rcases known with rfl | rfl | rfl
    · exact ⟨_, _, rfl, by decide, by decide⟩
    · exact ⟨_, _, rfl, by decide, by decide⟩
    · exact ⟨_, _, rfl, by decide, by decide⟩
  | number number =>
    cases number with
    | positive unsigned => exact digit unsigned
    | negative unsigned => exact ⟨_, _, rfl, by decide, by decide⟩
  | string | emptyArray | array | emptyObject | object => exact ⟨_, _, rfl, by decide, by decide⟩
  | closeArray | item | named | closeObject | member => cases value

theorem push_of_room {opened : ParseState} (room : stack.length + 1 ≤ maxDepth) :
    push maxDepth state opened stack = .more state (opened :: stack) := if_pos room

/-- An opened array, up to its bracket. -/
theorem readValue_array (fits : stack.length + 1 ≤ maxDepth) (spaces : Spaces ws) (t : Bytes) :
    readValue maxDepth .beginValue stack (byte '[' :: (ws ++ t)) =
      readValue maxDepth .beginValueOrEmpty (.arrayValue :: stack) t := by
  have opens : step maxDepth .beginValue (byte '[') stack = .more .beginValueOrEmpty (.arrayValue :: stack) := push_of_room fits
  rw [readValue, opens]
  exact reads_all (fun c space => skips_beginValueOrEmpty space) spaces t

/-- An opened object, up to its bracket. -/
theorem readValue_object (fits : stack.length + 1 ≤ maxDepth) (spaces : Spaces ws) (t : Bytes) :
    readValue maxDepth .beginValue stack (byte '{' :: (ws ++ t)) =
      readValue maxDepth .beginStringOrEmpty (.objectKey :: stack) t := by
  have opens : step maxDepth .beginValue (byte '{') stack = .more .beginStringOrEmpty (.objectKey :: stack) := push_of_room fits
  rw [readValue, opens]
  exact reads_all (fun c space => skips_beginStringOrEmpty space) spaces t

theorem readValue_firstValue {v : Bytes} {room : Nat} (value : Text .value room v) (t : Bytes) :
    readValue maxDepth .beginValueOrEmpty stack (v ++ t) = readValue maxDepth .beginValue stack (v ++ t) := by
  obtain ⟨c, u, rfl, space, bracket⟩ := value_head value rfl
  have same : step maxDepth .beginValueOrEmpty c stack = step maxDepth .beginValue c stack := by
    simp [step, space, bracket]
  rw [List.cons_append, readValue, readValue, same]

theorem readValue_firstMember {m : Bytes} {room : Nat} (member : Text .member room m) (t : Bytes) :
    readValue maxDepth .beginStringOrEmpty stack (m ++ t) = readValue maxDepth .beginString stack (m ++ t) := by
  cases member
  rfl

theorem bracketed_literal {word : Bytes} (known : word ∈ literals) : bracketed word = false := by
  revert word
  decide

theorem bracketed_digit {ds : Bytes} (digit : isDigit c = true) : bracketed (c :: ds) = false := by
  have others : c ≠ byte '[' ∧ c ≠ byte '{' := by
    revert digit
    refine forall_byte (P := fun c => isDigit c = true → c ≠ byte '[' ∧ c ≠ byte '{') ?_ c
    decide +kernel
  simp [bracketed, others]

theorem bracketed_number {n : Bytes} (number : Number n) : bracketed n = false := by
  cases number with
  | positive unsigned =>
    cases unsigned with
    | zero => exact bracketed_digit (by decide)
    | digits digit => exact bracketed_digit digit
  | negative unsigned => rfl

theorem text_scans {part : Part} {room : Nat} {u : Bytes} (text : Text part room u) : Scans maxDepth part room u := by
  induction text with
  | literal known => exact fun stack _ => .inl ⟨bracketed_literal known, settles_literal known⟩
  | number number => exact fun stack _ => .inl ⟨bracketed_number number, settles_number number⟩
  | string chars =>
    intro stack fits
    exact .inl ⟨rfl, .endValue, settled_endValue, reads_cons .inString rfl (reads_chars chars)⟩
  | emptyArray spaces =>
    intro stack fits
    refine .inr ⟨rfl, fun t => ?_⟩
    rw [List.cons_append, List.append_assoc, readValue_array (by omega) spaces]
    exact readValue_closed rfl
  | array spaces value items ihValue ihItems =>
    intro stack fits
    have inside : _ + (stack.length + 1) = maxDepth := (Nat.add_right_comm _ 1 stack.length).symm.trans fits
    obtain ⟨state', settled, reads⟩ := (ihValue (.arrayValue :: stack) inside).settles
    refine .inr ⟨rfl, fun t => ?_⟩
    rw [List.cons_append, List.append_assoc, List.append_assoc, readValue_array (by omega) spaces, readValue_firstValue value,
      reads]
    exact ihItems stack state' inside settled t
  | emptyObject spaces =>
    intro stack fits
    refine .inr ⟨rfl, fun t => ?_⟩
    rw [List.cons_append, List.append_assoc, readValue_object (by omega) spaces]
    exact readValue_closed rfl
  | object spaces member members ihMember ihMembers =>
    intro stack fits
    obtain ⟨state', settled, reads⟩ := ihMember stack (by omega)
    refine .inr ⟨rfl, fun t => ?_⟩
    rw [List.cons_append, List.append_assoc, List.append_assoc, readValue_object (by omega) spaces,
      readValue_firstMember member, reads]
    exact ihMembers stack state' (by omega) settled t
  | closeArray spaces =>
    intro stack state fits settled t
    rw [List.append_assoc]
    show readValue maxDepth state (.arrayValue :: stack) (_ ++ byte ']' :: t) = _
    rw [settled_spaces settled spaces (by decide)]
    exact readValue_closed rfl
  | item spaces spaces' value items ihValue ihItems =>
    intro stack state fits settled t
    obtain ⟨state', settled', reads⟩ := (ihValue (.arrayValue :: stack) (by simpa using fits)).settles
    rw [List.append_assoc, List.cons_append, settled_spaces settled spaces (by decide)]
    show readValue maxDepth .beginValue (.arrayValue :: stack) _ = _
    rw [List.append_assoc, reads_all (fun c space => skips_beginValue space) spaces', List.append_assoc, reads]
    exact ihItems stack state' fits settled' t
  | named key spaces spaces' value ihValue =>
    intro stack fits
    obtain ⟨state', settled, reads⟩ := (ihValue (.objectValue :: stack) (by simpa using fits)).settles
    refine ⟨state', settled, fun t => ?_⟩
    rw [List.cons_append]
    show readValue maxDepth .inString (.objectKey :: stack) _ = _
    rw [List.append_assoc, reads_chars key, List.append_assoc, List.cons_append, settled_spaces settled_endValue spaces (by decide)]
    show readValue maxDepth .beginValue (.objectValue :: stack) _ = _
    rw [List.append_assoc, reads_all (fun c space => skips_beginValue space) spaces', reads]
  | closeObject spaces =>
    intro stack state fits settled t
    rw [List.append_assoc]
    show readValue maxDepth state (.objectValue :: stack) (_ ++ byte '}' :: t) = _
    rw [settled_spaces settled spaces (by decide)]
    exact readValue_closed rfl
  | member spaces spaces' member members ihMember ihMembers =>
    intro stack state fits settled t
    obtain ⟨state', settled', reads⟩ := ihMember stack fits
    rw [List.append_assoc, List.cons_append, settled_spaces settled spaces (by decide)]
    show readValue maxDepth .beginString (.objectKey :: stack) _ = _
    rw [List.append_assoc, reads_all (fun c space => skips_beginString space) spaces', List.append_assoc, reads]
    exact ihMembers stack state' fits settled' t

theorem text_ends {v : Bytes} (value : Text .value maxDepth v) : Ends maxDepth [] v := text_scans value [] rfl

/-- A value that ends with a bracket is read whatever is behind it. -/
theorem readValue_bracketed {v : Bytes} (spaces : Spaces ws) (value : Text .value maxDepth v) (brackets : bracketed v = true)
    (rest : Bytes) : readValue maxDepth .beginValue [] (ws ++ (v ++ rest)) = .value rest := by
  rw [reads_all (fun c space => skips_beginValue space) spaces]
  rcases text_ends value with ⟨others, -⟩ | ⟨-, closes⟩
  · exact absurd brackets (by rw [others]; exact Bool.false_ne_true)
  · exact closes rest

/-- Any other value leads to a state in which it may be over. -/
theorem readValue_unbracketed {v : Bytes} (spaces : Spaces ws) (value : Text .value maxDepth v) (brackets : bracketed v = false) :
    ∃ state, Settled maxDepth state ∧
      ∀ rest, readValue maxDepth .beginValue [] (ws ++ (v ++ rest)) = readValue maxDepth state [] rest := by
  rcases text_ends value with ⟨-, state, settled, reads⟩ | ⟨others, -⟩
  · refine ⟨state, settled, fun rest => ?_⟩
    rw [reads_all (fun c space => skips_beginValue space) spaces]
    exact reads rest
  · exact absurd others (by rw [brackets]; exact Bool.false_ne_true)

end Microserver.JsonScanner
