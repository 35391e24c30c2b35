import Microserver.Tokens

/-!
Writing responses. A handler sets headers, writes the status and writes bytes to an
`http.ResponseWriter`, in any order. The one of the server takes the headers as
they stand when the final status is written, sends no body with 1xx, 204 and 304,
and holds the handler to a Content-Length that it has declared.
-/
namespace Microserver.ResponseWriters
open Microserver.Tokens

abbrev Bytes := List UInt8

/-- A status as WriteHeader takes it; it panics on any other. -/
abbrev Status := { n : Nat // 100 ≤ n ∧ n ≤ 999 }

def statusOK : Status := ⟨200, by decide⟩

/-- A status that is sent at once, before the final one; of the 1xx only 101 is final. -/
def informational (status : Status) : Bool := status.1 < 200 ∧ status.1 ≠ 101

/-- 1xx, 204 and 304 have no body. -/
def noBody (status : Status) : Bool := status.1 < 200 ∨ status.1 = 204 ∨ status.1 = 304

/-! ### Headers -/

/-- `http.Header`, by canonical names. -/
abbrev Header := String → List String

namespace Header

def get (header : Header) (name : String) : String := (header name).headD ""

def set (header : Header) (name value : String) : Header := fun other => if other = name then [value] else header other

def add (header : Header) (name value : String) : Header :=
  fun other => if other = name then header other ++ [value] else header other

def del (header : Header) (name : String) : Header := fun other => if other = name then [] else header other

@[simp] theorem get_set_same (header : Header) (name value : String) : (header.set name value).get name = value := by
  simp [get, set]

theorem get_set_other {header : Header} {name other value : String} (different : other ≠ name) :
    (header.set name value).get other = header.get other := by
  simp [get, set, different]

theorem get_add_other {header : Header} {name other value : String} (different : other ≠ name) :
    (header.add name value).get other = header.get other := by
  simp [get, add, different]

theorem get_del_other {header : Header} {name other : String} (different : other ≠ name) :
    (header.del name).get other = header.get other := by
  simp [get, del, different]

end Header

inductive Edit
  | set (name value : String)
  | add (name value : String)
  | del (name : String)

def Edit.apply (header : Header) : Edit → Header
  | .set name value => header.set name value
  | .add name value => header.add name value
  | .del name => header.del name

/-! ### Handlers -/

/-- What a handler can do with its response. -/
inductive Action
  | header (edit : Edit)
  | writeHeader (status : Status)
  | write (b : Bytes)

/-- `http.ResponseWriter` -/
structure ResponseWriter (σ : Type) where
  header : Edit → σ → σ
  writeHeader : Status → σ → σ
  write : Bytes → σ → σ

variable {σ : Type}

def ResponseWriter.act (W : ResponseWriter σ) (s : σ) : Action → σ
  | .header edit => W.header edit s
  | .writeHeader status => W.writeHeader status s
  | .write b => W.write b s

/-- `next.ServeHTTP` -/
def ResponseWriter.serve (W : ResponseWriter σ) (handler : List Action) (s : σ) : σ := handler.foldl W.act s

def Action.written : Action → Option Bytes
  | .write b => some b
  | _ => none

/-- All that a handler writes. -/
def writes (handler : List Action) : List Bytes := handler.filterMap Action.written

/-- What every action keeps of the bytes written so far, a handler keeps. -/
theorem serve_keeps {P : List Bytes → σ → Prop} (W : ResponseWriter σ)
    (acts : ∀ ws s action, P ws s → P (ws ++ action.written.toList) (W.act s action)) {ws : List Bytes} {s : σ}
    (holds : P ws s) (handler : List Action) : P (ws ++ writes handler) (W.serve handler s) := by
  induction handler generalizing ws s with
  | nil =>
    show P (ws ++ []) s
    rwa [List.append_nil]
  | cons action rest ih =>
    have split : writes (action :: rest) = action.written.toList ++ writes rest := by cases action <;> rfl
    rw [split, ← List.append_assoc]
    exact ih (acts ws s action holds)

/-- The headers at the time of the first final status or write; with these, that
    status, and all the writes. -/
def asked (header : Header) : List Action → Header × Option (Status × List Bytes)
  | [] => (header, none)
  | .header edit :: rest => asked (edit.apply header) rest
  | .writeHeader status :: rest => if informational status then asked header rest else (header, some (status, writes rest))
  | .write b :: rest => (header, some (statusOK, b :: writes rest))

theorem writes_asked (header : Header) (handler : List Action) :
    ((asked header handler).2.elim [] fun sent => sent.2) = writes handler := by
  induction handler generalizing header with
  | nil => rfl
  | cons action rest ih =>
    cases action with
    | header edit => exact ih _
    | writeHeader status =>
      unfold asked
      split
      · exact ih header
      · rfl
    | write b => rfl

/-! ### The server's response -/

/-- What is fixed when the status is written. -/
structure Committed where
  status : Status
  header : Header
  declared : Option Nat

/-- A Content-Length that is no number is dropped. -/
def commit (status : Status) (header : Header) : Committed :=
  let cl := header.get "Content-Length"
  if cl = "" then ⟨status, header, none⟩
  else
    match parseInt cl with
    | some v => if 0 ≤ v then ⟨status, header, some v.toNat⟩ else ⟨status, header.del "Content-Length", none⟩
    | none => ⟨status, header.del "Content-Length", none⟩

@[simp] theorem commit_status (status : Status) (header : Header) : (commit status header).status = status := by
  unfold commit
  dsimp only
  split
  · rfl
  · split
    · split <;> rfl
    · rfl

theorem commit_get (status : Status) (header : Header) {name : String} (other : name ≠ "Content-Length") :
    (commit status header).header.get name = header.get name := by
  unfold commit
  dsimp only
  split
  · rfl
  · split
    · split
      · rfl
      · exact Header.get_del_other other
    · exact Header.get_del_other other

theorem commit_declared (status status' : Status) {header header' : Header}
    (same : header.get "Content-Length" = header'.get "Content-Length") :
    (commit status header).declared = (commit status' header').declared := by
  unfold commit
  dsimp only
  rw [same]
  split
  · rfl
  · split
    · split <;> rfl
    · rfl

structure Response where
  header : Header
  committed : Option Committed
  written : Nat
  body : Bytes

def Response.start (header : Header) : Response := ⟨header, none, 0, []⟩

def Response.writeHeader (status : Status) (r : Response) : Response :=
  if informational status then r else { r with committed := some (r.committed.getD (commit status r.header)) }

/-- Bytes that a status does not allow, or beyond the declared length, are not sent. -/
def Response.write (b : Bytes) (r : Response) : Response :=
  let c := r.committed.getD (commit statusOK r.header)
  let r := { r with committed := some c }
  if b = [] ∨ noBody c.status then r
  else
    let written := r.written + b.length
    if c.declared.any (· < written) then { r with written := written } else { r with written := written, body := r.body ++ b }

def response : ResponseWriter Response where
  header edit r := { r with header := edit.apply r.header }
  writeHeader := Response.writeHeader
  write := Response.write

/-- What the client gets; of a body only where the handler writes as much as it has
    declared, and not what a broken exchange lets through. -/
structure Sent where
  status : Status
  header : Header
  body : Option Bytes

/-- The body for what is written, none where that is less or more than declared; the
    answer to HEAD is empty. -/
def delivered (head : Bool) (c : Committed) (total : Nat) (body : Bytes) : Option Bytes :=
  if head ∨ noBody c.status then some []
  else
    match c.declared with
    | none => some body
    | some n => if total = n then some body else none

/-- The handler has returned. -/
def Response.finish (head : Bool) (r : Response) : Sent :=
  let c := r.committed.getD (commit statusOK r.header)
  ⟨c.status, c.header, delivered head c r.written r.body⟩

/-! ### What is sent -/

/-- The status is written, and so are these bytes, as far as they may be. -/
structure Holds (c : Committed) (ws : List Bytes) (r : Response) : Prop where
  committed : r.committed = some c
  written : noBody c.status = false → r.written = ws.flatten.length
  body : noBody c.status = false → (∀ n, c.declared = some n → ws.flatten.length ≤ n) → r.body = ws.flatten

variable {c : Committed} {ws : List Bytes} {r : Response} {head : Bool}

theorem Holds.header (holds : Holds c ws r) (edit : Edit) : Holds c ws (response.header edit r) :=
  ⟨holds.committed, holds.written, holds.body⟩

theorem Holds.writeHeader (holds : Holds c ws r) (status : Status) : Holds c ws (response.writeHeader status r) := by
  show Holds c ws (Response.writeHeader status r)
  unfold Response.writeHeader
  split
  · exact holds
  · exact ⟨by rw [holds.committed, Option.getD_some], holds.written, holds.body⟩

theorem Holds.write (holds : Holds c ws r) (b : Bytes) : Holds c (ws ++ [b]) (response.write b r) := by
  have total : (ws ++ [b]).flatten = ws.flatten ++ b := by simp
  show Holds c (ws ++ [b]) (Response.write b r)
  unfold Response.write
  simp only [holds.committed, Option.getD_some]
  by_cases silent : b = [] ∨ noBody c.status = true
  · rw [if_pos silent]
    have same (allowed : noBody c.status = false) : (ws ++ [b]).flatten = ws.flatten := by
      have empty : b = [] := silent.resolve_right (by simp [allowed])
      rw [total, empty, List.append_nil]
    refine ⟨rfl, fun allowed => ?_, fun allowed within => ?_⟩
    · rw [same allowed]
      exact holds.written allowed
    · rw [same allowed] at within ⊢
      exact holds.body allowed within
  · rw [if_neg silent]
    have allowed : noBody c.status = false := by
      rw [not_or] at silent
      simpa using silent.2
    have written := holds.written allowed
    by_cases beyond : (c.declared.any fun n => decide (n < r.written + b.length)) = true
    · rw [if_pos beyond]
      refine ⟨rfl, fun _ => by rw [total, List.length_append, ← written], fun _ within => ?_⟩
      obtain ⟨n, declared, less⟩ := (Option.any_eq_true _ _).mp beyond
      have bound := within n declared
      rw [total, List.length_append, ← written] at bound
      exact absurd (of_decide_eq_true less) (by omega)
    · rw [if_neg beyond]
      refine ⟨rfl, fun _ => by rw [total, List.length_append, ← written], fun _ within => ?_⟩
      have before : r.body = ws.flatten := holds.body allowed fun n declared => by
        have bound := within n declared
        rw [total, List.length_append] at bound
        omega
      show r.body ++ b = _
      rw [total, before]

theorem Holds.writes (holds : Holds c ws r) (more : List Bytes) :
    Holds c (ws ++ more) (more.foldl (fun r b => response.write b r) r) := by
  induction more generalizing ws r with
  | nil => rwa [List.append_nil]
  | cons b rest ih =>
    rw [List.append_cons]
    exact ih (holds.write b)

/-- What a client gets of it. -/
theorem Holds.finish (holds : Holds c ws r) :
    r.finish head = ⟨c.status, c.header, delivered head c ws.flatten.length ws.flatten⟩ := by
  unfold Response.finish
  simp only [holds.committed, Option.getD_some]
  refine congrArg _ ?_
  unfold delivered
  by_cases silent : head = true ∨ noBody c.status = true
  · rw [if_pos silent, if_pos silent]
  · rw [if_neg silent, if_neg silent]
    have allowed : noBody c.status = false := by
      rw [not_or] at silent
      simpa using silent.2
    rw [holds.written allowed]
    cases declared : c.declared with
    | none => exact congrArg _ (holds.body allowed fun n given => by rw [declared] at given; cases given)
    | some n =>
      dsimp only
      by_cases whole : ws.flatten.length = n
      · rw [if_pos whole, if_pos whole, holds.body allowed fun n' given => by rw [declared] at given; cases given; exact whole.le]
      · rw [if_neg whole, if_neg whole]

theorem Holds.act (holds : Holds c ws r) (action : Action) :
    Holds c (ws ++ action.written.toList) (response.act r action) := by
  cases action with
  | header edit =>
    show Holds c (ws ++ []) _
    rw [List.append_nil]
    exact holds.header edit
  | writeHeader status =>
    show Holds c (ws ++ []) _
    rw [List.append_nil]
    exact holds.writeHeader status
  | write b => exact holds.write b

theorem Holds.serve (holds : Holds c ws r) (handler : List Action) :
    Holds c (ws ++ ResponseWriters.writes handler) (response.serve handler r) :=
  serve_keeps response (fun _ _ action holds => holds.act action) holds handler

theorem holds_commit (header : Header) {status : Status} (final : informational status = false) :
    Holds (commit status header) [] (response.writeHeader status (Response.start header)) := by
  show Holds _ _ (Response.writeHeader status (Response.start header))
  unfold Response.writeHeader
  rw [final]
  exact ⟨rfl, fun _ => rfl, fun _ _ => rfl⟩

theorem holds_write (header : Header) (b : Bytes) :
    Holds (commit statusOK header) [b] (response.write b (Response.start header)) := by
  have first := (holds_commit header (show informational statusOK = false by decide)).write b
  exact first

/-- The server's response to a handler. -/
def sent (head : Bool) (header : Header) (status : Status) (ws : List Bytes) : Sent :=
  ⟨status, (commit status header).header, delivered head (commit status header) ws.flatten.length ws.flatten⟩

theorem finish_serve (head : Bool) (header : Header) (handler : List Action) :
    (response.serve handler (Response.start header)).finish head =
      sent head (asked header handler).1 ((asked header handler).2.elim statusOK (·.1)) (writes handler) := by
  rw [← writes_asked header handler]
  induction handler generalizing header with
  | nil =>
    show (Response.start header).finish head = _
    unfold Response.finish sent
    simp [Response.start, asked]
  | cons action rest ih =>
    cases action with
    | header edit => exact ih (edit.apply header)
    | writeHeader status =>
      show (response.serve rest (Response.writeHeader status (Response.start header))).finish head = _
      unfold asked
      cases final : informational status with
      | true =>
        unfold Response.writeHeader
        rw [final, if_pos rfl, if_pos rfl]
        exact ih header
      | false =>
        have holds := (holds_commit header final).serve rest
        rw [List.nil_append] at holds
        rw [if_neg Bool.false_ne_true]
        exact holds.finish.trans (by rw [commit_status]; rfl)
    | write b =>
      show (response.serve rest (response.write b (Response.start header))).finish head = _
      rw [((holds_write header b).serve rest).finish, commit_status]
      rfl

end Microserver.ResponseWriters
