import Microserver.JsonReading

/-!
What a Decoder makes of a text. It finds the end of a value if one stands at the
front that no byte behind it continues, and it reads on at the end of the text if
this is the beginning of a value. All other texts are errors.
-/
namespace Microserver.JsonScanner

variable {maxDepth : Nat} {stack : List ParseState} {c : UInt8} {t u v ws : Bytes} {state : State}

/-- A value at the front of a text, so long that no value goes on behind it. -/
def Front (maxDepth : Nat) (t v rest : Bytes) : Prop :=
  ∃ ws, t = ws ++ (v ++ rest) ∧ Spaces ws ∧ Text .value maxDepth v ∧ ∀ c r w, rest = c :: r → ¬ Text .value maxDepth (v ++ c :: w)

/-- The beginning of a value, which can be a whole value only where this may still go
    on. -/
def Unfinished (maxDepth : Nat) (t : Bytes) : Prop :=
  ∃ u ws v, t ++ u = ws ++ v ∧ Spaces ws ∧ Text .value maxDepth v ∧ (u = [] → bracketed v = false)

/-! ### Every text without an error can be completed -/

theorem zero_text {room : Nat} : Text .value room [byte '0'] := .number (.positive (.zero (.none .none)))

theorem after_exists : ∃ k, After maxDepth stack k := by
  induction stack with
  | nil => exact ⟨[], .top⟩
  | cons opened stack ih =>
    obtain ⟨k, after⟩ := ih
    cases opened with
    | objectKey => exact ⟨_, .colon spaces_nil spaces_nil zero_text (.endObject spaces_nil after)⟩
    | objectValue => exact ⟨_, .endObject spaces_nil after⟩
    | arrayValue => exact ⟨_, .endArray spaces_nil after⟩

theorem awaits_exists {room : Nat} : ∃ v, Awaits room state v := by
  have digit : isDigit (byte '0') = true := by decide
  cases state with
  | beginValue | beginValueOrEmpty => exact ⟨_, [], _, rfl, spaces_nil, zero_text⟩
  | beginString | beginStringOrEmpty => exact ⟨_, [], _, rfl, spaces_nil, .close⟩
  | endValue => exact ⟨[], rfl⟩
  | inString => exact ⟨_, Chars.close⟩
  | inStringEsc => exact ⟨byte '"' :: [byte '"'], Chars.escape (by decide) .close⟩
  | inStringEscU left =>
    refine ⟨_, List.replicate (left + 1) (byte '0'), _, rfl, List.length_replicate, fun h member => ?_, .close⟩
    rw [List.eq_of_mem_replicate member]
    decide
  | neg => exact ⟨_, Unsigned.zero (.none .none)⟩
  | state1 => exact ⟨_, [], [], rfl, digits_nil, .none .none⟩
  | state0 => exact ⟨[], Fraction.none .none⟩
  | dot => exact ⟨_, byte '0', [], [], rfl, digit, digits_nil, .none⟩
  | dot0 => exact ⟨_, [], [], rfl, digits_nil, .none⟩
  | e => exact ⟨[byte '0'], fun letter isLetter => .unsigned isLetter digit digits_nil⟩
  | eSign => exact ⟨_, byte '0', [], rfl, digit, digits_nil⟩
  | e0 => exact ⟨[], digits_nil⟩
  | literal letter rest => exact ⟨_, rfl⟩

theorem rest_exists : ∃ u, Rest maxDepth state stack u := by
  obtain ⟨v, awaits⟩ := (awaits_exists : ∃ v, Awaits (maxDepth - stack.length) state v)
  obtain ⟨k, after⟩ := (after_exists : ∃ k, After maxDepth stack k)
  exact ⟨v ++ k, .inl ⟨v, k, rfl, awaits, after⟩⟩

/-- What completes the state at the end of a text completes the text. -/
theorem readValue_starved_rest {state' : State} {stack' : List ParseState}
    (starved : readValue maxDepth state stack t = .starved state' stack') (rest : Rest maxDepth state' stack' u) :
    Rest maxDepth state stack (t ++ u) := by
  induction t generalizing state stack with
  | nil =>
    cases starved
    exact rest
  | cons c t ih =>
    rw [readValue] at starved
    cases stepped : step maxDepth state c stack with
    | more next pushed =>
      rw [stepped] at starved
      exact step_leads (by rw [stepped]; exact ih starved)
    | closed left =>
      rw [stepped] at starved
      cases left with
      | nil => cases starved
      | cons opened left =>
        obtain ⟨v, k, same, rfl, after⟩ := (rest_plain (by simp) (by simp)).mp (ih starved)
        rw [List.cons_append]
        refine step_leads ?_
        rw [stepped, same]
        exact after
    | ended =>
      rw [stepped] at starved
      cases starved
    | error =>
      rw [stepped] at starved
      cases starved

theorem rest_top (rest : Rest maxDepth .beginValue [] u) : ∃ ws v, u = ws ++ v ∧ Spaces ws ∧ Text .value maxDepth v := by
  obtain ⟨_, k, rfl, ⟨ws, v, rfl, spaces, value⟩, after⟩ := (rest_plain (by simp) (by simp)).mp rest
  have nothing : k = [] := after.closes
  exact ⟨ws, v, by rw [nothing, List.append_nil], spaces, value⟩

/-! ### Texts that go on -/

/-- The same text with more behind it. -/
def Outcome.extend (maxDepth : Nat) (u : Bytes) : Outcome → Outcome
  | .value rest => .value (rest ++ u)
  | .error => .error
  | .starved state stack => readValue maxDepth state stack u

theorem readValue_append :
    readValue maxDepth state stack (t ++ u) = (readValue maxDepth state stack t).extend maxDepth u := by
  induction t generalizing state stack with
  | nil => rfl
  | cons c t ih =>
    rw [List.cons_append, readValue, readValue]
    cases step maxDepth state c stack with
    | more next pushed => exact ih
    | closed left =>
      cases left with
      | nil => rfl
      | cons opened left => exact ih
    | ended => rfl
    | error => rfl

/-- Texts of two values in white space are the same if the values are. -/
theorem trim_value {room : Nat} (spaces : Spaces ws) (value : Text .value room v) : (ws ++ v).dropWhile isSpace = v := by
  obtain ⟨c, u, rfl, space, -⟩ := value_head value rfl
  rw [List.dropWhile_append_of_pos spaces, List.dropWhile_cons_of_neg (by simp [space])]

/-! ### Where a value ends -/

theorem settled_cases (settled : Settled maxDepth state) :
    state = .endValue ∨ state = .state0 ∨ state = .state1 ∨ state = .dot0 ∨ state = .e0 := by
  have ends : step maxDepth state (byte ' ') [] = .ended := settled _ _ (by decide)
  cases state with
  | endValue | state0 | state1 | dot0 | e0 => simp
  | inStringEscU left => cases left <;> cases ends
  | literal letter rest =>
    simp only [step] at ends
    split_ifs at ends
    cases rest <;> cases ends
  | _ => cases ends

/-- In a state in which a value may be over, a byte ends it or goes on with it. -/
theorem settled_top (settled : Settled maxDepth state) (c : UInt8) :
    step maxDepth state c [] = .ended ∨ ∃ next, step maxDepth state c [] = .more next [] := by
  rcases settled_cases settled with rfl | rfl | rfl | rfl | rfl
  · exact .inl rfl
  all_goals
    simp only [step, step.afterInteger, stepEndValue]
    split_ifs <;> simp

/-- A value that has ended before a byte ends before it whatever comes next. -/
theorem readValue_ended {r : Bytes} (read : readValue maxDepth state stack (u ++ c :: r) = .value (c :: r)) (w : Bytes) :
    readValue maxDepth state stack (u ++ c :: w) = .value (c :: w) := by
  induction u generalizing state stack with
  | nil =>
    have whole {next : State} {pushed : List ParseState} : readValue maxDepth next pushed r ≠ .value (c :: r) := by
      intro same
      obtain ⟨u, longer, -⟩ := readValue_rest same
      have lengths := congrArg List.length longer
      simp only [List.length_append, List.length_cons] at lengths
      omega
    rw [List.nil_append, readValue] at read ⊢
    cases stepped : step maxDepth state c stack with
    | more next pushed => exact absurd (by rw [stepped] at read; exact read) whole
    | closed left =>
      rw [stepped] at read
      cases left with
      | nil =>
        have lengths := congrArg List.length (Outcome.value.inj read)
        simp at lengths
      | cons opened left => exact absurd read whole
    | ended => rfl
    | error =>
      rw [stepped] at read
      cases read
  | cons d u ih =>
    rw [List.cons_append, readValue] at read ⊢
    cases stepped : step maxDepth state d stack with
    | more next pushed =>
      rw [stepped] at read
      exact ih read
    | closed left =>
      rw [stepped] at read
      cases left with
      | nil =>
        have nothing : u = [] := List.append_left_eq_self.mp (Outcome.value.inj read)
        rw [nothing]
        rfl
      | cons opened left => exact ih read
    | ended =>
      rw [stepped] at read
      have lengths := congrArg List.length (Outcome.value.inj read)
      simp only [List.length_append, List.length_cons] at lengths
      omega
    | error =>
      rw [stepped] at read
      cases read

/-! ### The outcomes -/

/-- The Decoder comes to the end of a value, with `rest` behind it; at the end of the
    text a space is put behind. -/
def Finds (maxDepth : Nat) (t rest : Bytes) : Prop :=
  readValue maxDepth .beginValue [] t = .value rest ∨
    rest = [] ∧ ∃ state stack, readValue maxDepth .beginValue [] t = .starved state stack ∧
      step maxDepth state (byte ' ') stack = .ended

theorem front_of_value {rest : Bytes} (read : readValue maxDepth .beginValue [] t = .value rest) : ∃ v, Front maxDepth t v rest := by
  obtain ⟨ws, v, rfl, spaces, value⟩ := readValue_text read
  refine ⟨v, ws, rfl, spaces, value, ?_⟩
  rintro c r w rfl longer
  have early : readValue maxDepth .beginValue [] (ws ++ (v ++ c :: w)) = .value (c :: w) := by
    rw [← List.append_assoc] at read ⊢
    exact readValue_ended read w
  cases brackets : bracketed (v ++ c :: w) with
  | true =>
    have late := readValue_bracketed spaces longer brackets []
    rw [List.append_nil, early] at late
    cases late
  | false =>
    obtain ⟨state, -, reads⟩ := readValue_unbracketed spaces longer brackets
    have late := reads []
    rw [List.append_nil, early] at late
    cases late

theorem finds_of_front {rest : Bytes} (front : Front maxDepth t v rest) : Finds maxDepth t rest := by
  obtain ⟨ws, rfl, spaces, value, longest⟩ := front
  cases brackets : bracketed v with
  | true => exact .inl (readValue_bracketed spaces value brackets rest)
  | false =>
    obtain ⟨state, settled, reads⟩ := readValue_unbracketed spaces value brackets
    cases rest with
    | nil => exact .inr ⟨rfl, state, [], reads [], settled _ _ (by decide)⟩
    | cons c r =>
      rcases settled_top settled c with ended | ⟨next, more⟩
      · refine .inl ((reads (c :: r)).trans ?_)
        rw [readValue, ended]
      · -- the value goes on with the byte, and can be completed
        obtain ⟨u, completes⟩ := (rest_exists : ∃ u, Rest maxDepth next [] u)
        have starved : readValue maxDepth .beginValue [] (ws ++ (v ++ [c])) = .starved next [] := by
          rw [reads, readValue, more]
          rfl
        obtain ⟨ws', v', same, spaces', value'⟩ := rest_top (readValue_starved_rest starved completes)
        obtain ⟨d, v, rfl, space, -⟩ := value_head value rfl
        have longer : v' = d :: v ++ c :: u := by
          rw [← trim_value spaces' value', ← same, List.append_assoc, List.append_assoc, List.dropWhile_append_of_pos spaces,
            List.cons_append, List.dropWhile_cons_of_neg (by simp [space])]
          rfl
        exact absurd (longer ▸ value') (longest c r u rfl)

theorem finds_iff {rest : Bytes} : Finds maxDepth t rest ↔ ∃ v, Front maxDepth t v rest := by
  refine ⟨?_, fun ⟨v, front⟩ => finds_of_front front⟩
  rintro (read | ⟨rfl, state, stack, starved, ended⟩)
  · exact front_of_value read
  · obtain ⟨ws, v, same, spaces, value⟩ := rest_top (readValue_starved_rest starved (step_ended ended))
    rw [List.append_nil] at same
    refine ⟨v, ws, by rw [List.append_nil, same], spaces, value, ?_⟩
    rintro c r w ⟨⟩

/-- One value in white space is found whatever it is. -/
theorem front_of_text {after : Bytes} (spaces : Spaces ws) (value : Text .value maxDepth v) (spaces' : Spaces after) :
    Front maxDepth (ws ++ (v ++ after)) v after := by
  cases after with
  | nil =>
    refine ⟨ws, rfl, spaces, value, ?_⟩
    rintro c r w ⟨⟩
  | cons c after =>
    have read : readValue maxDepth .beginValue [] (ws ++ (v ++ c :: after)) = .value (c :: after) := by
      cases brackets : bracketed v with
      | true => exact readValue_bracketed spaces value brackets _
      | false =>
        obtain ⟨state, settled, reads⟩ := readValue_unbracketed spaces value brackets
        have space : isSpace c = true := spaces' c (.head _)
        have ended : step maxDepth state c [] = .ended := settled c [] (by simp [delimiter, space])
        rw [reads, readValue, ended]
    obtain ⟨v', ws', same, spaces'', value', longest⟩ := front_of_value read
    rw [← List.append_assoc, ← List.append_assoc, List.append_left_inj] at same
    have equal : v = v' := by rw [← trim_value spaces value, same, trim_value spaces'' value']
    subst equal
    exact ⟨ws, rfl, spaces, value, longest⟩

/-- The text of a value is what stands before the rest, without the white space. -/
theorem Front.text {rest : Bytes} (front : Front maxDepth t v rest) :
    (t.take (t.length - rest.length)).dropWhile isSpace = v := by
  obtain ⟨ws, rfl, spaces, value, -⟩ := front
  have length : (ws ++ (v ++ rest)).length - rest.length = (ws ++ v).length := by
    simp only [List.length_append]
    omega
  rw [length, ← List.append_assoc, List.take_left, trim_value spaces value]

theorem Front.unique {v' rest rest' : Bytes} (front : Front maxDepth t v rest) (front' : Front maxDepth t v' rest') :
    rest = rest' := by
  rcases finds_of_front front with read | ⟨rfl, state, stack, starved, -⟩
  · rcases finds_of_front front' with read' | ⟨-, state, stack, starved, -⟩
    · exact Outcome.value.inj (read.symm.trans read')
    · rw [read] at starved
      cases starved
  · rcases finds_of_front front' with read | ⟨rfl, -⟩
    · rw [read] at starved
      cases starved
    · rfl

/-- A Decoder wants more of a text if and only if it is the beginning of a value. -/
theorem starved_iff : (∃ state stack, readValue maxDepth .beginValue [] t = .starved state stack) ↔ Unfinished maxDepth t := by
  constructor
  · rintro ⟨state, stack, starved⟩
    obtain ⟨u, rest⟩ := (rest_exists : ∃ u, Rest maxDepth state stack u)
    obtain ⟨ws, v, same, spaces, value⟩ := rest_top (readValue_starved_rest starved rest)
    refine ⟨u, ws, v, same, spaces, value, ?_⟩
    rintro rfl
    rw [List.append_nil] at same
    by_contra brackets
    have read := readValue_bracketed spaces value (eq_true_of_ne_false brackets) []
    rw [List.append_nil, ← same, starved] at read
    cases read
  · rintro ⟨u, ws, v, same, spaces, value, brackets⟩
    have whole : (readValue maxDepth .beginValue [] t).extend maxDepth u = readValue maxDepth .beginValue [] (ws ++ (v ++ [])) := by
      rw [← readValue_append, same, List.append_nil]
    cases read : readValue maxDepth .beginValue [] t with
    | starved state stack => exact ⟨state, stack, rfl⟩
    | error =>
      rw [read] at whole
      cases bracket : bracketed v with
      | true =>
        rw [readValue_bracketed spaces value bracket] at whole
        cases whole
      | false =>
        obtain ⟨state, -, reads⟩ := readValue_unbracketed spaces value bracket
        rw [reads] at whole
        cases whole
    | value rest =>
      rw [read] at whole
      cases bracket : bracketed v with
      | true =>
        rw [readValue_bracketed spaces value bracket] at whole
        have nothing := List.append_eq_nil_iff.mp (Outcome.value.inj whole)
        exact absurd bracket (by rw [brackets nothing.2]; exact Bool.false_ne_true)
      | false =>
        obtain ⟨state, -, reads⟩ := readValue_unbracketed spaces value bracket
        rw [reads] at whole
        cases whole

/-! ### Values however deep

What is no error with a limit on the nesting is the same with a higher one.
-/

section Deeper
variable {higher : Nat} {v rest : Bytes}

theorem Text.mono {part : Part} {room room' : Nat} (text : Text part room u) (more : room ≤ room') : Text part room' u := by
  induction text generalizing room' with
  | literal known => exact .literal known
  | number number => exact .number number
  | string chars => exact .string chars
  | emptyArray spaces =>
    obtain ⟨n, rfl⟩ := Nat.exists_eq_succ_of_ne_zero (Nat.ne_of_gt (Nat.lt_of_lt_of_le (Nat.succ_pos _) more))
    exact .emptyArray spaces
  | array spaces _ _ value items =>
    obtain ⟨n, rfl⟩ := Nat.exists_eq_succ_of_ne_zero (Nat.ne_of_gt (Nat.lt_of_lt_of_le (Nat.succ_pos _) more))
    have inside := Nat.le_of_succ_le_succ more
    exact .array spaces (value inside) (items inside)
  | emptyObject spaces =>
    obtain ⟨n, rfl⟩ := Nat.exists_eq_succ_of_ne_zero (Nat.ne_of_gt (Nat.lt_of_lt_of_le (Nat.succ_pos _) more))
    exact .emptyObject spaces
  | object spaces _ _ member members =>
    obtain ⟨n, rfl⟩ := Nat.exists_eq_succ_of_ne_zero (Nat.ne_of_gt (Nat.lt_of_lt_of_le (Nat.succ_pos _) more))
    have inside := Nat.le_of_succ_le_succ more
    exact .object spaces (member inside) (members inside)
  | closeArray spaces => exact .closeArray spaces
  | item spaces spaces' _ _ value items => exact .item spaces spaces' (value more) (items more)
  | named key spaces spaces' _ value => exact .named key spaces spaces' (value more)
  | closeObject spaces => exact .closeObject spaces
  | member spaces spaces' _ _ member members => exact .member spaces spaces' (member more) (members more)

theorem push_deeper {opened : ParseState} (more : maxDepth ≤ higher) (right : push maxDepth state opened stack ≠ .error) :
    push higher state opened stack = push maxDepth state opened stack := by
  unfold push at right ⊢
  by_cases fits : stack.length + 1 ≤ maxDepth
  · rw [if_pos fits, if_pos (Nat.le_trans fits more)]
  · exact absurd (if_neg fits) right

theorem beginValue_deeper (more : maxDepth ≤ higher) (right : stepBeginValue maxDepth c stack ≠ .error) :
    stepBeginValue higher c stack = stepBeginValue maxDepth c stack := by
  unfold stepBeginValue at right ⊢
  by_cases space : isSpace c = true
  · rw [if_pos space, if_pos space]
  rw [if_neg space] at right
  rw [if_neg space, if_neg space]
  by_cases brace : c = byte '{'
  · rw [if_pos brace] at right
    rw [if_pos brace, if_pos brace]
    exact push_deeper more right
  rw [if_neg brace] at right
  rw [if_neg brace, if_neg brace]
  by_cases bracket : c = byte '['
  · rw [if_pos bracket] at right
    rw [if_pos bracket, if_pos bracket]
    exact push_deeper more right
  · rw [if_neg bracket, if_neg bracket]

theorem step_deeper (more : maxDepth ≤ higher) (right : step maxDepth state c stack ≠ .error) :
    step higher state c stack = step maxDepth state c stack := by
  cases state with
  | beginValue => exact beginValue_deeper more right
  | beginValueOrEmpty =>
    simp only [step] at right ⊢
    split_ifs at right ⊢
    · rfl
    · rfl
    · exact beginValue_deeper more right
  | _ => rfl

theorem readValue_deeper (more : maxDepth ≤ higher) (right : readValue maxDepth state stack t ≠ .error) :
    readValue higher state stack t = readValue maxDepth state stack t := by
  induction t generalizing state stack with
  | nil => rfl
  | cons c rest ih =>
    rw [readValue] at right
    have stepped : step higher state c stack = step maxDepth state c stack := by
      refine step_deeper more fun wrong => right ?_
      rw [wrong]
    rw [readValue, readValue, stepped]
    cases next : step maxDepth state c stack with
    | more state' stack' =>
      rw [next] at right
      exact ih right
    | closed stack' =>
      rw [next] at right
      cases stack' with
      | nil => rfl
      | cons opened stack' => exact ih right
    | ended => rfl
    | error => rfl

theorem Front.deeper (front : Front maxDepth t v rest) (more : maxDepth ≤ higher) : Front higher t v rest := by
  have finds : Finds higher t rest := by
    rcases finds_of_front front with read | ⟨rfl, state, stack, starved, ended⟩
    · exact .inl ((readValue_deeper more (by simp [read])).trans read)
    · refine .inr ⟨rfl, state, stack, (readValue_deeper more (by simp [starved])).trans starved, ?_⟩
      exact (step_deeper more (by simp [ended])).trans ended
  obtain ⟨v', front'⟩ := finds_iff.mp finds
  have same : v = v' := front.text.symm.trans front'.text
  exact same ▸ front'

/-- A value of the grammar, nested however deep. -/
def Value (v : Bytes) : Prop := ∃ room, Text .value room v

/-- A value stands at the front of a text, so long that no value goes on behind it. -/
def Stands (t v rest : Bytes) : Prop :=
  ∃ ws, t = ws ++ (v ++ rest) ∧ Spaces ws ∧ Value v ∧ ∀ c r w, rest = c :: r → ¬ Value (v ++ c :: w)

/-- A Decoder with a limit finds the values that are not nested deeper. -/
theorem front_iff : Front maxDepth t v rest ↔ Stands t v rest ∧ Text .value maxDepth v := by
  constructor
  · intro front
    have ⟨ws, same, spaces, value, _⟩ := front
    refine ⟨⟨ws, same, spaces, ⟨_, value⟩, ?_⟩, value⟩
    rintro c r w behind ⟨room, longer⟩
    obtain ⟨-, -, -, -, longest⟩ := front.deeper (Nat.le_max_left maxDepth room)
    exact longest c r w behind (longer.mono (Nat.le_max_right maxDepth room))
  · rintro ⟨⟨ws, same, spaces, -, longest⟩, value⟩
    exact ⟨ws, same, spaces, value, fun c r w behind longer => longest c r w behind ⟨_, longer⟩⟩

theorem Stands.front (stands : Stands t v rest) : ∃ room, Front room t v rest := by
  have ⟨_, _, _, ⟨room, value⟩, _⟩ := stands
  exact ⟨room, front_iff.mpr ⟨stands, value⟩⟩

theorem Stands.unique {v' rest' : Bytes} (stands : Stands t v rest) (stands' : Stands t v' rest') : v = v' ∧ rest = rest' := by
  obtain ⟨room, front⟩ := stands.front
  obtain ⟨room', front'⟩ := stands'.front
  have same : rest = rest' :=
    (front.deeper (Nat.le_max_left room room')).unique (front'.deeper (Nat.le_max_right room room'))
  subst same
  exact ⟨front.text.symm.trans front'.text, rfl⟩

/-- One value in white space stands at the front whatever it is. -/
theorem stands_of_value {after : Bytes} (spaces : Spaces ws) (value : Value v) (spaces' : Spaces after) :
    Stands (ws ++ (v ++ after)) v after := by
  obtain ⟨room, text⟩ := value
  exact (front_iff.mp (front_of_text spaces text spaces')).1

end Deeper

end Microserver.JsonScanner
