import Microserver.JsonOutcomes
import Microserver.Requests

/-!
limitBodySize and decodeJSON on the bytes of a body. The Decoder reads until a
value has ended and does not look at what is behind it, and the reader counts only
what is read: a body is taken for what stands at its front.
-/
namespace Microserver.BodyLimits
open Microserver.JsonScanner Microserver.Handlers
open Microserver.Values (Json)
open Microserver.Requests (RequestBody maxNestingDepth maxRequestBodyBytes decodeDocumentRequest)

/-! ### Reading -/

inductive DecodeError
  | eof
  | unexpectedEOF
  | maxBytes (limit : Nat)
  | syntaxError
  | unmarshal

/-- `http.MaxBytesReader`: what the reads of a body bring one after the other, and
    how many bytes may still come. -/
structure MaxBytesReader where
  limit : Nat
  left : Nat
  reads : List Bytes

def limitBodySize (maxBytes : Nat) (body : List Bytes) : MaxBytesReader := ⟨maxBytes, maxBytes, body⟩

/-- One Read of a MaxBytesReader, of which the body has brought `data`. -/
def read (limit left : Nat) (data : Bytes) : Bytes × Option DecodeError :=
  if data.length ≤ left then (data, none) else (data.take left, some (.maxBytes limit))

/-- The text before the rest. -/
def consumed (text rest : Bytes) : Bytes := text.take (text.length - rest.length)

/-- The Decoder at the end of the body: a space is put behind it. -/
def atEOF (buf : Bytes) (state : State) (stack : List ParseState) : Except DecodeError Bytes :=
  match step maxNestingDepth state (byte ' ') stack with
  | .ended => .ok buf
  | _ => if buf.all isSpace then .error .eof else .error .unexpectedEOF

/-- The loop of `Decoder.readValue`: what has been read is scanned before the error of
    the read is looked at. -/
def readText (limit : Nat) : List Bytes → Nat → Bytes → State → List ParseState → Except DecodeError Bytes
  | [], _, buf, state, stack => atEOF buf state stack
  | data :: reads, left, buf, state, stack =>
    match readValue maxNestingDepth state stack (read limit left data).1 with
    | .value rest => .ok (consumed (buf ++ (read limit left data).1) rest)
    | .error => .error .syntaxError
    | .starved state stack =>
      match (read limit left data).2 with
      | some err => .error err
      | none => readText limit reads (left - data.length) (buf ++ data) state stack

variable {α : Type} (unmarshal : Bytes → Option α)

/-- `json.NewDecoder(r.Body).Decode(v)` -/
def decode (body : MaxBytesReader) : Except DecodeError α :=
  match readText body.limit body.reads body.left [] .beginValue [] with
  | .error err => .error err
  | .ok text =>
    match unmarshal (text.dropWhile isSpace) with
    | none => .error .unmarshal
    | some v => .ok v

def tooLarge (limit : Nat) : Reply := writeError 413 ("request body too large (max " ++ toString limit ++ " bytes)")

def invalid : Reply := writeError 400 "invalid JSON body"

def decodeJSON (body : MaxBytesReader) : Decoded α :=
  match decode unmarshal body with
  | .error (.maxBytes limit) => .error (tooLarge limit)
  | .error _ => .error invalid
  | .ok v => .ok v

/-! ### The body as a whole -/

section Reads
variable {limit left : Nat} {buf data text : Bytes} {state : State} {stack : List ParseState}

theorem read_append (reads : Bytes) (fits : data.length ≤ left) :
    read limit left (data ++ reads) =
      (data ++ (read limit (left - data.length) reads).1, (read limit (left - data.length) reads).2) := by
  unfold read
  by_cases more : reads.length ≤ left - data.length
  · rw [if_pos more, if_pos (by rw [List.length_append]; omega)]
  · rw [if_neg more, if_neg (by rw [List.length_append]; omega), List.take_append, List.take_of_length_le fits]

theorem read_beyond (reads : Bytes) (exceeds : ¬ data.length ≤ left) : read limit left (data ++ reads) = read limit left data := by
  unfold read
  rw [if_neg exceeds, if_neg (by rw [List.length_append]; omega), List.take_append_of_le_length (by omega)]

theorem consumed_append (text rest more : Bytes) : consumed (text ++ more) (rest ++ more) = consumed text rest := by
  unfold consumed
  rw [List.length_append, List.length_append, Nat.add_sub_add_right, List.take_append_of_le_length (Nat.sub_le _ _)]

/-- It does not matter in which pieces a body arrives. -/
theorem readText_flatten (reads : List Bytes) :
    readText limit reads left buf state stack = readText limit [reads.flatten] left buf state stack := by
  induction reads generalizing left buf state stack with
  | nil =>
    have nothing : read limit left [] = ([], none) := if_pos (Nat.zero_le _)
    show _ = readText limit [[]] left buf state stack
    simp only [readText, nothing, readValue, List.append_nil]
  | cons data reads ih =>
    rw [List.flatten_cons]
    by_cases fits : data.length ≤ left
    · have whole : read limit left data = (data, none) := if_pos fits
      rw [readText, readText, read_append _ fits, whole, readValue_append, ← List.append_assoc]
      cases readValue maxNestingDepth state stack data with
      | value rest =>
        dsimp only [Outcome.extend]
        rw [consumed_append]
      | error => rfl
      | starved state stack =>
        dsimp only [Outcome.extend]
        rw [ih, readText]
        cases readValue maxNestingDepth state stack (read limit (left - data.length) reads.flatten).1 with
        | value rest => rfl
        | error => rfl
        | starved state stack => simp only [readText, List.append_assoc]
    · rw [readText, readText, read_beyond _ fits]
      have last : (read limit left data).2 = some (.maxBytes limit) := by rw [read, if_neg fits]
      cases readValue maxNestingDepth state stack (read limit left data).1 with
      | value rest => rfl
      | error => rfl
      | starved state stack => simp only [last]

end Reads

/-- What the Decoder takes out of a body behind limitBodySize. -/
def taken (maxBytes : Nat) (body : Bytes) : Except DecodeError Bytes := readText maxBytes [body] maxBytes [] .beginValue []

section Taken
variable {maxBytes : Nat} {body v : Bytes}

theorem decode_limited (maxBytes : Nat) (body : List Bytes) : decode unmarshal (limitBodySize maxBytes body) =
    match taken maxBytes body.flatten with
    | .error err => .error err
    | .ok text =>
      match unmarshal (text.dropWhile isSpace) with
      | none => .error .unmarshal
      | some v => .ok v := by
  unfold decode taken
  rw [← readText_flatten]
  rfl

theorem taken_short (short : body.length ≤ maxBytes) : taken maxBytes body =
    match readValue maxNestingDepth .beginValue [] body with
    | .value rest => .ok (consumed body rest)
    | .error => .error .syntaxError
    | .starved state stack => atEOF body state stack := by
  have whole : read maxBytes maxBytes body = (body, none) := if_pos short
  unfold taken
  rw [readText, whole]
  rfl

theorem taken_long (long : maxBytes < body.length) : taken maxBytes body =
    match readValue maxNestingDepth .beginValue [] (body.take maxBytes) with
    | .value rest => .ok (consumed (body.take maxBytes) rest)
    | .error => .error .syntaxError
    | .starved _ _ => .error (.maxBytes maxBytes) := by
  have part : read maxBytes maxBytes body = (body.take maxBytes, some (.maxBytes maxBytes)) := if_neg (Nat.not_le.mpr long)
  unfold taken
  rw [readText, part]
  rfl

theorem atEOF_ok {buf text : Bytes} {state : State} {stack : List ParseState} :
    atEOF buf state stack = .ok text ↔ text = buf ∧ step maxNestingDepth state (byte ' ') stack = .ended := by
  unfold atEOF
  cases step maxNestingDepth state (byte ' ') stack with
  | ended => simp [eq_comm]
  | _ =>
    dsimp only
    split_ifs <;> simp

theorem atEOF_limit {buf : Bytes} {state : State} {stack : List ParseState} {limit : Nat} :
    atEOF buf state stack ≠ .error (.maxBytes limit) := by
  unfold atEOF
  cases step maxNestingDepth state (byte ' ') stack with
  | ended => simp
  | _ =>
    dsimp only
    split_ifs <;> simp

/-- Of a body that is not too long the value at its front is taken. -/
theorem taken_front (short : body.length ≤ maxBytes) :
    (∃ text, taken maxBytes body = .ok text ∧ text.dropWhile isSpace = v) ↔ ∃ rest, Front maxNestingDepth body v rest := by
  rw [taken_short short]
  constructor
  · rintro ⟨text, ok, rfl⟩
    have found : ∃ rest, Finds maxNestingDepth body rest ∧ text = consumed body rest := by
      cases outcome : readValue maxNestingDepth .beginValue [] body with
      | value rest =>
        rw [outcome] at ok
        cases ok
        exact ⟨rest, .inl outcome, rfl⟩
      | error =>
        rw [outcome] at ok
        cases ok
      | starved state stack =>
        rw [outcome] at ok
        obtain ⟨rfl, ended⟩ := atEOF_ok.mp ok
        exact ⟨[], .inr ⟨rfl, state, stack, outcome, ended⟩, by simp [consumed]⟩
    obtain ⟨rest, finds, rfl⟩ := found
    obtain ⟨v, front⟩ := finds_iff.mp finds
    have same : (consumed body rest).dropWhile isSpace = v := front.text
    exact ⟨rest, same ▸ front⟩
  · rintro ⟨rest, front⟩
    rcases finds_iff.mpr ⟨v, front⟩ with outcome | ⟨rfl, state, stack, outcome, ended⟩
    · rw [outcome]
      exact ⟨_, rfl, front.text⟩
    · rw [outcome]
      refine ⟨body, atEOF_ok.mpr ⟨rfl, ended⟩, ?_⟩
      have same := front.text
      rwa [List.length_nil, Nat.sub_zero, List.take_length] at same

theorem taken_short_limit (short : body.length ≤ maxBytes) {limit : Nat} : taken maxBytes body ≠ .error (.maxBytes limit) := by
  rw [taken_short short]
  cases readValue maxNestingDepth .beginValue [] body with
  | value rest => simp
  | error => simp
  | starved state stack => exact atEOF_limit

theorem taken_maxBytes {limit : Nat} (limited : taken maxBytes body = .error (.maxBytes limit)) : limit = maxBytes := by
  have long : maxBytes < body.length := Nat.not_le.mp fun short => taken_short_limit short limited
  rw [taken_long long] at limited
  cases outcome : readValue maxNestingDepth .beginValue [] (body.take maxBytes) with
  | value rest =>
    rw [outcome] at limited
    cases limited
  | error =>
    rw [outcome] at limited
    cases limited
  | starved state stack =>
    rw [outcome] at limited
    cases limited
    rfl

/-- What is taken is a value, of the body or of the bytes that may be read. -/
theorem taken_text {text : Bytes} (ok : taken maxBytes body = .ok text) : Text .value maxNestingDepth (text.dropWhile isSpace) := by
  by_cases short : body.length ≤ maxBytes
  · obtain ⟨rest, ws, -, -, value, -⟩ := (taken_front short).mp ⟨text, ok, rfl⟩
    exact value
  · rw [taken_long (Nat.not_le.mp short)] at ok
    cases outcome : readValue maxNestingDepth .beginValue [] (body.take maxBytes) with
    | value rest =>
      rw [outcome] at ok
      cases ok
      obtain ⟨v, front⟩ := front_of_value outcome
      have same : (consumed (body.take maxBytes) rest).dropWhile isSpace = v := front.text
      obtain ⟨ws, -, -, value, -⟩ := front
      rw [same]
      exact value
    | error =>
      rw [outcome] at ok
      cases ok
    | starved state stack =>
      rw [outcome] at ok
      cases ok

/-- A body that is too long is refused as such if what may be read of it is the
    beginning of a value. -/
theorem taken_limit (long : maxBytes < body.length) :
    taken maxBytes body = .error (.maxBytes maxBytes) ↔ Unfinished maxNestingDepth (body.take maxBytes) := by
  rw [taken_long long, ← starved_iff]
  cases readValue maxNestingDepth .beginValue [] (body.take maxBytes) with
  | value rest => simp
  | error => simp
  | starved state stack => simp

end Taken

/-- A body of bytes as the handlers take it. -/
def received (parse : Bytes → Json) (body : List Bytes) : RequestBody :=
  match taken maxRequestBodyBytes body.flatten with
  | .error (.maxBytes _) => .tooLarge
  | .error _ => .malformed
  | .ok text => .json (parse (text.dropWhile isSpace))

/-- On the value of a text both levels decode alike. -/
theorem decodeJSON_received {parse : Bytes → Json}
    (shallow : ∀ v, Text .value maxNestingDepth v → (parse v).depth ≤ maxNestingDepth) (shape : Json → Option α) (body : List Bytes) :
    decodeJSON (fun v => shape (parse v)) (limitBodySize maxRequestBodyBytes body) = Requests.decodeJSON shape (received parse body) := by
  unfold decodeJSON received
  rw [decode_limited]
  cases outcome : taken maxRequestBodyBytes body.flatten with
  | error err =>
    cases err with
    | maxBytes limit =>
      rw [taken_maxBytes outcome]
      rfl
    | _ => rfl
  | ok text =>
    have depth := shallow _ (taken_text outcome)
    unfold Requests.decodeJSON
    dsimp only
    rw [if_neg (Nat.not_lt.mpr depth)]
    cases shape (parse (text.dropWhile isSpace)) <;> rfl

/-! ### Exact acceptance -/

/-- One value of the expected shape in white space, nested however deep. -/
def Exactly (body : Bytes) (a : α) : Prop :=
  ∃ ws v after, body = ws ++ (v ++ after) ∧ Spaces ws ∧ Spaces after ∧ Value v ∧ unmarshal v = some a

/-- The handler proceeds with exactly the bodies that are not too long and are one
    value; too long ones get 413, and all others 400. -/
structure AcceptedExactly (maxBytes : Nat) (body : List Bytes) : Prop where
  proceeds : ∀ a, decodeJSON unmarshal (limitBodySize maxBytes body) = .ok a ↔
    body.flatten.length ≤ maxBytes ∧ Exactly unmarshal body.flatten a
  oversized : maxBytes < body.flatten.length → decodeJSON unmarshal (limitBodySize maxBytes body) = .error (tooLarge maxBytes)
  others : body.flatten.length ≤ maxBytes → (∀ a, ¬ Exactly unmarshal body.flatten a) →
    decodeJSON unmarshal (limitBodySize maxBytes body) = .error invalid

/-- In a body that is not too long, a value of the expected shape at the front has
    nothing but white space behind it exactly when it is nested no deeper than the
    decoder reads; one that is too long begins with such a value, not complete after the
    bytes that may be read. -/
def Fits (maxBytes : Nat) (body : Bytes) : Prop :=
  if body.length ≤ maxBytes then
    ∀ v rest, Stands body v rest → (unmarshal v).isSome = true → (Spaces rest ↔ Text .value maxNestingDepth v)
  else Unfinished maxNestingDepth (body.take maxBytes)

variable {unmarshal} {maxBytes : Nat} {body : List Bytes}

theorem decodeJSON_ok {a : α} : decodeJSON unmarshal (limitBodySize maxBytes body) = .ok a ↔
    ∃ text, taken maxBytes body.flatten = .ok text ∧ unmarshal (text.dropWhile isSpace) = some a := by
  unfold decodeJSON
  rw [decode_limited]
  cases taken maxBytes body.flatten with
  | error err => cases err <;> simp
  | ok text =>
    dsimp only
    cases value : unmarshal (text.dropWhile isSpace) <;> simp [value]

theorem decodeJSON_limit {limit : Nat} (limited : taken maxBytes body.flatten = .error (.maxBytes limit)) :
    decodeJSON unmarshal (limitBodySize maxBytes body) = .error (tooLarge limit) := by
  unfold decodeJSON
  rw [decode_limited, limited]

theorem limit_of_tooLarge {limit : Nat} (refused : decodeJSON unmarshal (limitBodySize maxBytes body) = .error (tooLarge limit)) :
    ∃ limit, taken maxBytes body.flatten = .error (.maxBytes limit) := by
  unfold decodeJSON at refused
  rw [decode_limited] at refused
  have other : invalid ≠ tooLarge limit := fun same =>
    absurd (congrArg Reply.status same) (show (400 : Nat) ≠ 413 by decide)
  cases outcome : taken maxBytes body.flatten with
  | error err =>
    rw [outcome] at refused
    cases err with
    | maxBytes limit => exact ⟨limit, rfl⟩
    | _ => exact absurd (Except.error.inj refused) other
  | ok text =>
    rw [outcome] at refused
    dsimp only at refused
    cases value : unmarshal (text.dropWhile isSpace) with
    | none =>
      rw [value] at refused
      exact absurd (Except.error.inj refused) other
    | some a =>
      rw [value] at refused
      cases refused

/-- A body that is not too long is taken or invalid. -/
theorem decodeJSON_short (short : body.flatten.length ≤ maxBytes)
    (refused : ∀ a, decodeJSON unmarshal (limitBodySize maxBytes body) ≠ .ok a) :
    decodeJSON unmarshal (limitBodySize maxBytes body) = .error invalid := by
  unfold decodeJSON at refused ⊢
  rw [decode_limited] at refused ⊢
  cases outcome : taken maxBytes body.flatten with
  | error err =>
    cases err with
    | maxBytes limit => exact absurd outcome (taken_short_limit short)
    | _ => rfl
  | ok text =>
    rw [outcome] at refused
    dsimp only at refused ⊢
    cases value : unmarshal (text.dropWhile isSpace) with
    | none => rfl
    | some a =>
      rw [value] at refused
      exact absurd rfl (refused a)

theorem decodeJSON_front (short : body.flatten.length ≤ maxBytes) {a : α} :
    decodeJSON unmarshal (limitBodySize maxBytes body) = .ok a ↔
      ∃ v rest, Front maxNestingDepth body.flatten v rest ∧ unmarshal v = some a := by
  rw [decodeJSON_ok]
  constructor
  · rintro ⟨text, ok, value⟩
    obtain ⟨rest, front⟩ := (taken_front short).mp ⟨text, ok, rfl⟩
    exact ⟨_, rest, front, value⟩
  · rintro ⟨v, rest, front, value⟩
    obtain ⟨text, ok, same⟩ := (taken_front short).mpr ⟨rest, front⟩
    exact ⟨text, ok, by rw [same, value]⟩

theorem Exactly.stands {body : Bytes} {a : α} (exactly : Exactly unmarshal body a) :
    ∃ v after, Stands body v after ∧ Spaces after ∧ unmarshal v = some a := by
  obtain ⟨ws, v, after, rfl, spaces, spaces', value, shape⟩ := exactly
  exact ⟨v, after, stands_of_value spaces value spaces', spaces', shape⟩

theorem Exactly.of_stands {body v after : Bytes} {a : α} (stands : Stands body v after) (spaces' : Spaces after)
    (shape : unmarshal v = some a) : Exactly unmarshal body a := by
  obtain ⟨ws, rfl, spaces, value, -⟩ := stands
  exact ⟨ws, v, after, rfl, spaces, spaces', value, shape⟩

/-- The bodies that are taken for what they are. -/
theorem accepted_exactly_iff {α : Type} (unmarshal : Bytes → Option α) (maxBytes : Nat) (body : List Bytes) :
    AcceptedExactly unmarshal maxBytes body ↔ Fits unmarshal maxBytes body.flatten := by
  by_cases short : body.flatten.length ≤ maxBytes
  · unfold Fits
    rw [if_pos short]
    constructor
    · intro accepted v rest stands shape
      obtain ⟨a, value⟩ := Option.isSome_iff_exists.mp shape
      constructor
      · intro spaces
        have proceeds := (accepted.proceeds a).mpr ⟨short, .of_stands stands spaces value⟩
        obtain ⟨v', rest', front, -⟩ := (decodeJSON_front short).mp proceeds
        obtain ⟨stands', text⟩ := front_iff.mp front
        rw [(stands.unique stands').1]
        exact text
      · intro text
        have proceeds := (decodeJSON_front short).mpr ⟨v, rest, front_iff.mpr ⟨stands, text⟩, value⟩
        obtain ⟨v', after, stands', spaces, -⟩ := ((accepted.proceeds a).mp proceeds).2.stands
        rw [(stands.unique stands').2]
        exact spaces
    · intro fits
      have proceeds (a : α) : decodeJSON unmarshal (limitBodySize maxBytes body) = .ok a ↔
          body.flatten.length ≤ maxBytes ∧ Exactly unmarshal body.flatten a := by
        rw [decodeJSON_front short]
        constructor
        · rintro ⟨v, rest, front, value⟩
          obtain ⟨stands, text⟩ := front_iff.mp front
          exact ⟨short, .of_stands stands ((fits v rest stands (by rw [value]; rfl)).mpr text) value⟩
        · rintro ⟨-, exactly⟩
          obtain ⟨v, after, stands, spaces, value⟩ := exactly.stands
          have text := (fits v after stands (by rw [value]; rfl)).mp spaces
          exact ⟨v, after, front_iff.mpr ⟨stands, text⟩, value⟩
      refine ⟨proceeds, fun long => absurd short (Nat.not_le.mpr long), fun _ none => ?_⟩
      exact decodeJSON_short short fun a ok => none a ((proceeds a).mp ok).2
  · have long := Nat.not_le.mp short
    unfold Fits
    rw [if_neg short, ← taken_limit long]
    constructor
    · intro accepted
      obtain ⟨limit, limited⟩ := limit_of_tooLarge (accepted.oversized long)
      rw [limited, taken_maxBytes limited]
    · intro limited
      have refused : decodeJSON unmarshal (limitBodySize maxBytes body) = .error (tooLarge maxBytes) := decodeJSON_limit limited
      refine ⟨fun a => ⟨fun ok => ?_, fun exactly => absurd exactly.1 short⟩, fun _ => refused, fun below => absurd below short⟩
      rw [refused] at ok
      cases ok

/-- An item in a body. -/
def item : Bytes := "\x7b\"text\":\"a\"\x7d".toList.map byte

def unmarshalItem (v : Bytes) : Option DocumentRequest :=
  if v = item then decodeDocumentRequest (.obj [("text", .str "a")]) else none

/-- An item with garbage behind it is taken. -/
theorem not_accepted_exactly :
    ¬ ∀ (α : Type) (unmarshal : Bytes → Option α) (maxBytes : Nat) (body : List Bytes), AcceptedExactly unmarshal maxBytes body := by
  intro all
  have read : readValue maxNestingDepth .beginValue [] (item ++ [byte ' ', byte 'x']) = .value [byte ' ', byte 'x'] := rfl
  have short : [item ++ [byte ' ', byte 'x']].flatten.length ≤ maxRequestBodyBytes := by decide
  have front : Front maxNestingDepth (item ++ [byte ' ', byte 'x']) item [byte ' ', byte 'x'] := by
    obtain ⟨v, front⟩ := front_of_value read
    have same : item = v := front.text
    exact same ▸ front
  have taken : decodeJSON unmarshalItem (limitBodySize maxRequestBodyBytes [item ++ [byte ' ', byte 'x']]) = .ok ⟨none, "a", none⟩ :=
    (decodeJSON_front short).mpr ⟨item, _, front, rfl⟩
  obtain ⟨-, exactly⟩ := ((all DocumentRequest unmarshalItem maxRequestBodyBytes _).proceeds _).mp taken
  obtain ⟨v, after, stands, spaces, -⟩ := exactly.stands
  have rest : [byte ' ', byte 'x'] = after := ((front_iff.mp front).1.unique stands).2
  have space : isSpace (byte 'x') = true := spaces _ (by rw [← rest]; exact .tail _ (.head _))
  exact absurd space (by decide)

end Microserver.BodyLimits
