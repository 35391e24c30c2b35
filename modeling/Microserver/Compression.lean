import Mathlib.Data.List.Infix
import Microserver.ResponseWriters

/-!
gzipMiddleware. The wrapper decides with the status whether the response is marked
as gzip, before it is known whether anything will be written; the stream is closed
only if something was. So a response with a status and no bytes is marked as gzip
and has no gzip stream as its body.
-/
namespace Microserver.Compression
open Microserver.Tokens Microserver.ResponseWriters

/-- `compress/gzip`: what a Writer passes on for a write and when it is closed, and
    what a reader makes of a whole stream. -/
structure Gzip where
  State : Type
  new : State
  write : Bytes → State → List Bytes × State
  close : State → List Bytes
  decompress : Bytes → Option Bytes

namespace Gzip
variable (G : Gzip)

/-- What has been passed on after some writes. -/
def run (ws : List Bytes) : List Bytes × G.State :=
  ws.foldl (fun passed b => (passed.1 ++ (G.write b passed.2).1, (G.write b passed.2).2)) ([], G.new)

/-- The stream for all writes. -/
def stream (ws : List Bytes) : Bytes := ((G.run ws).1 ++ G.close (G.run ws).2).flatten

theorem run_append (ws : List Bytes) (b : Bytes) :
    G.run (ws ++ [b]) = ((G.run ws).1 ++ (G.write b (G.run ws).2).1, (G.write b (G.run ws).2).2) := by
  unfold run
  rw [List.foldl_append, List.foldl_cons, List.foldl_nil]

end Gzip

/-- `strings.Contains` -/
def contains (s substr : String) : Bool := decide (substr.toList <:+: s.toList)

structure GzipResponseWriter (G : Gzip) (σ : Type) where
  rw : σ
  gz : G.State
  headerWritten : Bool
  skip : Bool
  wrote : Bool

variable {G : Gzip} {σ : Type}

namespace GzipResponseWriter

/-- The responses that are left alone. -/
def skips (status : Status) : Bool := status.1 = 204 ∨ status.1 = 304

def writeHeader (W : ResponseWriter σ) (status : Status) (w : GzipResponseWriter G σ) : GzipResponseWriter G σ :=
  if w.headerWritten then w
  else
    let w := { w with headerWritten := true }
    if skips status then { w with skip := true, rw := W.writeHeader status w.rw }
    else
      let rw := W.header (.set "Content-Encoding" "gzip") w.rw
      let rw := W.header (.add "Vary" "Accept-Encoding") rw
      { w with rw := W.writeHeader status rw }

def write (W : ResponseWriter σ) (b : Bytes) (w : GzipResponseWriter G σ) : GzipResponseWriter G σ :=
  let w := if !w.headerWritten then w.writeHeader W statusOK else w
  if w.skip then { w with rw := W.write b w.rw }
  else
    let passed := G.write b w.gz
    { w with wrote := true, gz := passed.2, rw := passed.1.foldl (fun rw chunk => W.write chunk rw) w.rw }

end GzipResponseWriter

def gzipResponseWriter (G : Gzip) (W : ResponseWriter σ) : ResponseWriter (GzipResponseWriter G σ) where
  header edit w := { w with rw := W.header edit w.rw }
  writeHeader := GzipResponseWriter.writeHeader W
  write := GzipResponseWriter.write W

def gzipMiddleware (G : Gzip) (acceptEncoding : String) (next : List Action) (W : ResponseWriter σ) (w : σ) : σ :=
  if !contains acceptEncoding "gzip" then W.serve next w
  else
    let gzw := (gzipResponseWriter G W).serve next ⟨w, G.new, false, false, false⟩
    if gzw.wrote then (G.close gzw.gz).foldl (fun rw chunk => W.write chunk rw) gzw.rw else gzw.rw

/-! ### The wrapper in a run -/

theorem skips_eq {status : Status} (final : 200 ≤ status.1) : GzipResponseWriter.skips status = noBody status := by
  unfold GzipResponseWriter.skips noBody
  simp [Nat.not_lt.mpr final]

theorem not_informational {status : Status} (final : 200 ≤ status.1) : informational status = false := by
  unfold informational
  simp [Nat.not_lt.mpr final]

/-- The headers of a response that is marked as gzip. -/
def marked (header : Header) : Header := (header.set "Content-Encoding" "gzip").add "Vary" "Accept-Encoding"

/-- The response is marked, and these bytes have gone into the stream. -/
structure Compressing (c : Committed) (ws : List Bytes) (w : GzipResponseWriter G Response) : Prop where
  headerWritten : w.headerWritten = true
  skip : w.skip = false
  wrote : w.wrote = decide (ws ≠ [])
  gz : w.gz = (G.run ws).2
  holds : Holds c (G.run ws).1 w.rw

/-- The status has no body, and whatever is written goes to the server. -/
structure Skipping (c : Committed) (ws : List Bytes) (w : GzipResponseWriter G Response) : Prop where
  headerWritten : w.headerWritten = true
  skip : w.skip = true
  wrote : w.wrote = false
  holds : Holds c ws w.rw

variable {c : Committed} {ws : List Bytes} {w : GzipResponseWriter G Response}

theorem Compressing.act (compressing : Compressing c ws w) (action : Action) :
    Compressing c (ws ++ action.written.toList) ((gzipResponseWriter G response).act w action) := by
  cases action with
  | header edit =>
    show Compressing c (ws ++ []) _
    rw [List.append_nil]
    exact ⟨compressing.headerWritten, compressing.skip, compressing.wrote, compressing.gz, compressing.holds.header edit⟩
  | writeHeader status =>
    show Compressing c (ws ++ []) (GzipResponseWriter.writeHeader response status w)
    rw [List.append_nil]
    unfold GzipResponseWriter.writeHeader
    rwa [if_pos compressing.headerWritten]
  | write b =>
    show Compressing c (ws ++ [b]) (GzipResponseWriter.write response b w)
    have written : (!w.headerWritten) = false := by rw [compressing.headerWritten, Bool.not_true]
    unfold GzipResponseWriter.write
    simp only [written, Bool.false_eq_true, if_false, compressing.skip, compressing.gz]
    refine ⟨compressing.headerWritten, rfl, by simp, by rw [G.run_append], ?_⟩
    rw [G.run_append]
    exact compressing.holds.writes _

theorem Skipping.act (skipping : Skipping c ws w) (action : Action) :
    Skipping c (ws ++ action.written.toList) ((gzipResponseWriter G response).act w action) := by
  cases action with
  | header edit =>
    show Skipping c (ws ++ []) _
    rw [List.append_nil]
    exact ⟨skipping.headerWritten, skipping.skip, skipping.wrote, skipping.holds.header edit⟩
  | writeHeader status =>
    show Skipping c (ws ++ []) (GzipResponseWriter.writeHeader response status w)
    rw [List.append_nil]
    unfold GzipResponseWriter.writeHeader
    rwa [if_pos skipping.headerWritten]
  | write b =>
    show Skipping c (ws ++ [b]) (GzipResponseWriter.write response b w)
    have written : (!w.headerWritten) = false := by rw [skipping.headerWritten, Bool.not_true]
    unfold GzipResponseWriter.write
    simp only [written, Bool.false_eq_true, if_false, skipping.skip, if_true]
    exact ⟨skipping.headerWritten, rfl, skipping.wrote, skipping.holds.write b⟩

theorem Compressing.serve (compressing : Compressing c ws w) (next : List Action) :
    Compressing c (ws ++ writes next) ((gzipResponseWriter G response).serve next w) :=
  serve_keeps (P := Compressing c) _ (fun _ _ action packs => packs.act action) compressing next

theorem Skipping.serve (skipping : Skipping c ws w) (next : List Action) :
    Skipping c (ws ++ writes next) ((gzipResponseWriter G response).serve next w) :=
  serve_keeps (P := Skipping c) _ (fun _ _ action skips => skips.act action) skipping next

/-! ### What is sent -/

/-- What the client gets through gzipMiddleware. -/
def compressed (G : Gzip) (head : Bool) (header : Header) : Option (Status × List Bytes) → Sent
  | none => sent head header statusOK []
  | some (status, ws) =>
    if noBody status then sent head header status ws
    else sent head (marked header) status (if ws = [] then [] else [G.stream ws])

/-- The middleware once the handler has returned. -/
def close (w : GzipResponseWriter G Response) : Response :=
  if w.wrote then (G.close w.gz).foldl (fun rw chunk => response.write chunk rw) w.rw else w.rw

theorem Compressing.close_finish (compressing : Compressing c ws w) (head : Bool) :
    (close w).finish head = ⟨c.status, c.header, delivered head c (if ws = [] then [] else [G.stream ws]).flatten.length
      (if ws = [] then [] else [G.stream ws]).flatten⟩ := by
  unfold close
  rw [compressing.wrote, compressing.gz]
  by_cases none : ws = []
  · have nothing : (G.run ws).1 = [] := by rw [none]; rfl
    have holds := compressing.holds
    rw [nothing] at holds
    rw [if_neg (by simp [none]), if_pos none, holds.finish]
  · have flat : [G.stream ws].flatten = ((G.run ws).1 ++ G.close (G.run ws).2).flatten := by simp [Gzip.stream]
    rw [if_pos (by simp [none]), if_neg none, flat]
    exact (compressing.holds.writes _).finish

theorem Skipping.close_finish (skipping : Skipping c ws w) (head : Bool) :
    (close w).finish head = ⟨c.status, c.header, delivered head c ws.flatten.length ws.flatten⟩ := by
  unfold close
  rw [skipping.wrote, if_neg (by decide)]
  exact skipping.holds.finish

/-- The wrapper as gzipMiddleware makes it. -/
def fresh (G : Gzip) (header : Header) : GzipResponseWriter G Response := ⟨Response.start header, G.new, false, false, false⟩

theorem compressing_writeHeader (header : Header) {status : Status} (final : 200 ≤ status.1) (body : noBody status = false) :
    Compressing (commit status (marked header)) [] ((fresh G header).writeHeader response status) := by
  unfold GzipResponseWriter.writeHeader
  rw [if_neg (by simp [fresh])]
  simp only [skips_eq final, body, Bool.false_eq_true, if_false]
  exact ⟨rfl, rfl, rfl, rfl, holds_commit (marked header) (not_informational final)⟩

theorem skipping_writeHeader (header : Header) {status : Status} (final : 200 ≤ status.1) (none : noBody status = true) :
    Skipping (commit status header) [] ((fresh G header).writeHeader response status) := by
  unfold GzipResponseWriter.writeHeader
  rw [if_neg (by simp [fresh])]
  simp only [skips_eq final, none, if_true]
  exact ⟨rfl, rfl, rfl, holds_commit header (not_informational final)⟩

theorem compressing_write (header : Header) (b : Bytes) :
    Compressing (commit statusOK (marked header)) [b] ((fresh G header).write response b) := by
  have first := (compressing_writeHeader (G := G) header (show 200 ≤ statusOK.1 by decide) (by decide)).act (.write b)
  have same : (fresh G header).write response b = GzipResponseWriter.write response b ((fresh G header).writeHeader response statusOK) := rfl
  rw [same]
  exact first

theorem close_serve (head : Bool) (header : Header) {next : List Action}
    (final : ∀ status, Action.writeHeader status ∈ next → 200 ≤ status.1) :
    (close ((gzipResponseWriter G response).serve next (fresh G header))).finish head =
      compressed G head (asked header next).1 (asked header next).2 := by
  induction next generalizing header with
  | nil => exact finish_serve head header []
  | cons action rest ih =>
    cases action with
    | header edit => exact ih (edit.apply header) fun status member => final status (.tail _ member)
    | writeHeader status =>
      have last : 200 ≤ status.1 := final status (.head _)
      show (close ((gzipResponseWriter G response).serve rest ((fresh G header).writeHeader response status))).finish head = _
      unfold asked compressed
      rw [not_informational last, if_neg Bool.false_ne_true]
      dsimp only
      cases none : noBody status with
      | true =>
        rw [((skipping_writeHeader header last none).serve rest).close_finish, List.nil_append, commit_status, if_pos rfl]
        rfl
      | false =>
        rw [((compressing_writeHeader header last none).serve rest).close_finish, List.nil_append, commit_status, if_neg Bool.false_ne_true]
        rfl
    | write b =>
      show (close ((gzipResponseWriter G response).serve rest ((fresh G header).write response b))).finish head = _
      rw [((compressing_write header b).serve rest).close_finish, commit_status]
      rfl

theorem finish_gzipMiddleware {acceptEncoding : String} (advertised : contains acceptEncoding "gzip" = true) (head : Bool)
    (header : Header) {next : List Action} (final : ∀ status, Action.writeHeader status ∈ next → 200 ≤ status.1) :
    (gzipMiddleware G acceptEncoding next response (Response.start header)).finish head =
      compressed G head (asked header next).1 (asked header next).2 := by
  rw [← close_serve head header final]
  unfold gzipMiddleware
  rw [if_neg (by rw [advertised]; decide)]
  rfl

/-! ### Transparency -/

/-- The response is marked as gzip. -/
def Carries (sent : Sent) : Prop := sent.header.get "Content-Encoding" = "gzip"

/-- The status is that of the handler; 204 and 304 are sent bare, a marked body
    decompresses to what the handler writes, and any other body is that. -/
structure Transparent (G : Gzip) (plain sent : Sent) (ws : List Bytes) : Prop where
  status : sent.status = plain.status
  bare : noBody sent.status = true → ¬ Carries sent ∧ sent.body = some []
  encoded : noBody sent.status = false → Carries sent → sent.body.bind G.decompress = some ws.flatten
  identity : noBody sent.status = false → ¬ Carries sent → sent.body = some ws.flatten

/-- A response without body is not marked by the handler; otherwise something is
    written, for a request other than HEAD. A declared length is the length of what
    is sent. -/
def Fits (G : Gzip) (head : Bool) (header : Header) : Option (Status × List Bytes) → Prop
  | none => header.get "Content-Encoding" ≠ "gzip" ∧ (head = true ∨ ∀ n, (commit statusOK header).declared = some n → n = 0)
  | some (status, ws) =>
    if noBody status then header.get "Content-Encoding" ≠ "gzip"
    else ws ≠ [] ∧ head = false ∧ ∀ n, (commit status header).declared = some n → n = (G.stream ws).length

theorem carries_sent {head : Bool} {header : Header} {status : Status} {ws : List Bytes} :
    Carries (sent head header status ws) ↔ header.get "Content-Encoding" = "gzip" := by
  unfold Carries sent
  rw [commit_get status header (by decide)]

theorem marked_get (header : Header) : (marked header).get "Content-Encoding" = "gzip" := by
  unfold marked
  rw [Header.get_add_other (by decide), Header.get_set_same]

theorem marked_declared (status : Status) (header : Header) :
    (commit status (marked header)).declared = (commit status header).declared := by
  refine commit_declared status status ?_
  unfold marked
  rw [Header.get_add_other (by decide), Header.get_set_other (by decide)]

/-- What is written is delivered when a declared length is its length. -/
theorem body_sent {head : Bool} {header : Header} {status : Status} {ws : List Bytes} {b : Bytes}
    (body : noBody status = false) : (sent head header status ws).body = some b ↔
      head = true ∧ b = [] ∨
        head = false ∧ (∀ n, (commit status header).declared = some n → n = ws.flatten.length) ∧ b = ws.flatten := by
  show delivered head (commit status header) ws.flatten.length ws.flatten = some b ↔ _
  unfold delivered
  rw [commit_status, body]
  cases head with
  | true => simp [eq_comm]
  | false =>
    cases declared : (commit status header).declared with
    | none => simp [eq_comm]
    | some n => simp [eq_comm]

theorem bare_sent {head : Bool} {header : Header} {status : Status} {ws : List Bytes} (none : noBody status = true) :
    (sent head header status ws).body = some [] := by
  show delivered head (commit status header) _ _ = some []
  unfold delivered
  rw [commit_status, if_pos (.inr none)]

/-- What gzip is relied on for: a closed stream is read back, and nothing at all is
    no stream. -/
structure Gzip.Sound (G : Gzip) : Prop where
  complete : ∀ ws, G.decompress (G.stream ws) = some ws.flatten
  empty : G.decompress [] = none

section Cases
variable {plain : Sent} {head : Bool} {header : Header} {status : Status}

/-- No stream comes without a write. -/
theorem empty_not_encoded (sound : G.Sound) (body : noBody status = false) (data : Bytes) :
    (sent head header status []).body.bind G.decompress ≠ some data := by
  cases delivered : (sent head header status []).body with
  | none => nofun
  | some b =>
    have empty : b = [] := by
      rcases (body_sent body).mp delivered with ⟨-, none⟩ | ⟨-, -, none⟩
      · exact none
      · exact none
    rw [Option.bind_some, empty, sound.empty]
    nofun

theorem transparent_none (sound : G.Sound) (same : plain.status = statusOK) :
    Transparent G plain (sent head header statusOK []) [] ↔ Fits G head header none := by
  have body : noBody statusOK = false := by decide
  constructor
  · intro transparent
    have unmarked : ¬ Carries (sent head header statusOK []) := fun carries =>
      empty_not_encoded sound body _ (transparent.encoded body carries)
    refine ⟨fun marked => unmarked (carries_sent.mpr marked), ?_⟩
    rcases (body_sent body).mp (transparent.identity body unmarked) with ⟨isHead, -⟩ | ⟨-, whole, -⟩
    · exact .inl isHead
    · exact .inr whole
  · rintro ⟨unmarked, whole⟩
    refine ⟨same.symm, fun none => ?_, fun _ carries => absurd (carries_sent.mp carries) unmarked, fun _ _ => ?_⟩
    · exact absurd (show noBody statusOK = true from none) (by decide)
    · refine (body_sent body).mpr ?_
      cases head with
      | true => exact .inl ⟨rfl, rfl⟩
      | false => exact .inr ⟨rfl, whole.resolve_left Bool.false_ne_true, rfl⟩

theorem transparent_bare (same : plain.status = status) (none : noBody status = true) (ws : List Bytes) :
    Transparent G plain (sent head header status ws) ws ↔ header.get "Content-Encoding" ≠ "gzip" := by
  have silent (allowed : noBody (sent head header status ws).status = false) : False := by
    rw [show (sent head header status ws).status = status from rfl, none] at allowed
    cases allowed
  constructor
  · intro transparent marked
    exact (transparent.bare none).1 (carries_sent.mpr marked)
  · intro unmarked
    exact ⟨same.symm, fun _ => ⟨fun carries => unmarked (carries_sent.mp carries), bare_sent none⟩,
      fun allowed => (silent allowed).elim, fun allowed => (silent allowed).elim⟩

theorem transparent_marked (sound : G.Sound) (same : plain.status = status) (body : noBody status = false) (ws : List Bytes) :
    Transparent G plain (sent head (marked header) status (if ws = [] then [] else [G.stream ws])) ws ↔
      ws ≠ [] ∧ head = false ∧ ∀ n, (commit status header).declared = some n → n = (G.stream ws).length := by
  have carries (chunks : List Bytes) : Carries (sent head (marked header) status chunks) := carries_sent.mpr (marked_get header)
  by_cases none : ws = []
  · rw [if_pos none]
    constructor
    · exact fun transparent => absurd (transparent.encoded body (carries [])) (empty_not_encoded sound body _)
    · exact fun fits => absurd none fits.1
  · have flat : [G.stream ws].flatten = G.stream ws := by simp
    have delivers : (sent head (marked header) status [G.stream ws]).body.bind G.decompress = some ws.flatten ↔
        head = false ∧ ∀ n, (commit status header).declared = some n → n = (G.stream ws).length := by
      cases delivered : (sent head (marked header) status [G.stream ws]).body with
      | none =>
        refine ⟨nofun, fun fits => ?_⟩
        have whole : (sent head (marked header) status [G.stream ws]).body = some [G.stream ws].flatten :=
          (body_sent body).mpr (.inr ⟨fits.1, by rw [flat, marked_declared]; exact fits.2, rfl⟩)
        rw [delivered] at whole
        cases whole
      | some b =>
        rw [Option.bind_some]
        rcases (body_sent body).mp delivered with ⟨isHead, rfl⟩ | ⟨other, whole, rfl⟩
        · rw [sound.empty, isHead]
          simp
        · rw [flat, marked_declared] at whole
          rw [flat, sound.complete, other]
          simpa using whole
    rw [if_neg none]
    constructor
    · intro transparent
      exact ⟨none, delivers.mp (transparent.encoded body (carries _))⟩
    · rintro ⟨-, fits⟩
      refine ⟨same.symm, fun bare => ?_, fun _ _ => delivers.mpr fits, fun _ unmarked => absurd (carries _) unmarked⟩
      rw [show (sent head (marked header) status [G.stream ws]).status = status from rfl, body] at bare
      cases bare

end Cases

/-! ### A writer of gzip -/

def hello : Bytes := [0x68, 0x65, 0x6c, 0x6c, 0x6f]

/-- The header that compress/gzip writes first. -/
def magic : Bytes := [0x1f, 0x8b, 0x08, 0, 0, 0, 0, 0, 0, 0xff]

/-- The deflated text, its checksum and its length for `hello`; any other text
    stands behind a block of the reserved type. -/
def packed (data : Bytes) : Bytes :=
  if data = hello then
    [0xca, 0x48, 0xcd, 0xc9, 0xc9, 0x07, 0x04, 0x00, 0x00, 0xff, 0xff, 0x86, 0xa6, 0x10, 0x36, 0x05, 0x00, 0x00, 0x00]
  else 0xff :: data

/-- A gzip that deflates `hello`. -/
def helloGzip : Gzip where
  State := Option Bytes
  new := none
  write b state := (if state.isNone then [magic] else [], some (state.getD [] ++ b))
  close state := (if state.isNone then [magic] else []) ++ [packed (state.getD [])]
  decompress stream :=
    if stream.take 10 ≠ magic then none
    else if stream.drop 10 = packed hello then some hello
    else if stream[10]? = some 0xff then some (stream.drop 11)
    else none

theorem helloGzip_run (ws : List Bytes) (b : Bytes) : helloGzip.run (b :: ws) = ([magic], some (b :: ws).flatten) := by
  have later (passed : List Bytes) (data : Bytes) : ws.foldl
      (fun passed b => (passed.1 ++ (helloGzip.write b passed.2).1, (helloGzip.write b passed.2).2)) (passed, some data) =
      (passed, some (data ++ ws.flatten)) := by
    induction ws generalizing data with
    | nil =>
      rw [List.flatten_nil, List.append_nil]
      rfl
    | cons w rest ih =>
      rw [List.foldl_cons]
      simpa [helloGzip] using ih (data ++ w)
  exact later [magic] b

theorem helloGzip_stream (ws : List Bytes) : helloGzip.stream ws = magic ++ packed ws.flatten := by
  cases ws with
  | nil => rfl
  | cons b rest =>
    unfold Gzip.stream
    rw [helloGzip_run]
    simp [helloGzip]

theorem helloGzip_sound : helloGzip.Sound := by
  refine ⟨fun ws => ?_, rfl⟩
  rw [helloGzip_stream]
  by_cases same : ws.flatten = hello
  · rw [same]
    rfl
  · have other : packed ws.flatten = 0xff :: ws.flatten := if_neg same
    have differs : ¬ (0xff :: ws.flatten = packed hello) := by
      intro equal
      have head : some (0xff : UInt8) = some 0xca := congrArg List.head? equal
      exact absurd head (by decide)
    have position : (magic ++ 0xff :: ws.flatten).drop 10 = 0xff :: ws.flatten := rfl
    rw [other]
    show (if (magic ++ 0xff :: ws.flatten).take 10 ≠ magic then none
      else if (magic ++ 0xff :: ws.flatten).drop 10 = packed hello then some hello
      else if (magic ++ 0xff :: ws.flatten)[10]? = some 0xff then some ((magic ++ 0xff :: ws.flatten).drop 11) else none) = _
    have marker : (magic ++ 0xff :: ws.flatten)[10]? = some 0xff := rfl
    rw [if_neg (by simp [magic]), position, if_neg differs, if_pos marker]
    rfl

/-! ### The middleware -/

/-- Compression is transparent exactly for the handlers that fit. -/
theorem gzip_transparent_iff (sound : G.Sound) {acceptEncoding : String} (advertised : contains acceptEncoding "gzip" = true)
    (head : Bool) (header : Header) {next : List Action}
    (final : ∀ status, Action.writeHeader status ∈ next → 200 ≤ status.1) :
    Transparent G ((response.serve next (Response.start header)).finish head)
        ((gzipMiddleware G acceptEncoding next response (Response.start header)).finish head) (writes next) ↔
      Fits G head (asked header next).1 (asked header next).2 := by
  rw [finish_serve, finish_gzipMiddleware advertised head header final, ← writes_asked header next]
  generalize (asked header next).1 = header, (asked header next).2 = written
  cases written with
  | none => exact transparent_none sound rfl
  | some written =>
    obtain ⟨status, ws⟩ := written
    unfold compressed Fits
    dsimp only [Option.elim]
    cases body : noBody status with
    | true =>
      rw [if_pos rfl, if_pos rfl]
      exact transparent_bare rfl body ws
    | false =>
      rw [if_neg Bool.false_ne_true, if_neg Bool.false_ne_true]
      exact transparent_marked sound rfl body ws

/-- A status and a body. -/
theorem gzip_transparent_hello :
    Transparent helloGzip
      ((response.serve [.writeHeader statusOK, .write hello] (Response.start fun _ => [])).finish false)
      ((gzipMiddleware helloGzip "gzip, deflate" [.writeHeader statusOK, .write hello] response
        (Response.start fun _ => [])).finish false) [hello] := by
  refine (gzip_transparent_iff helloGzip_sound (by decide) false (fun _ => []) (by simp [statusOK])).mpr ?_
  refine ⟨by decide, rfl, fun n declared => ?_⟩
  cases declared

/-- A redirect without body, which the mux sends for a path that is not clean, is
    marked as gzip. -/
theorem gzip_not_transparent : ¬ ∀ (G : Gzip), G.Sound → ∀ acceptEncoding, contains acceptEncoding "gzip" = true →
    ∀ (header : Header) (next : List Action), (∀ status, Action.writeHeader status ∈ next → 200 ≤ status.1) →
      Transparent G ((response.serve next (Response.start header)).finish false)
        ((gzipMiddleware G acceptEncoding next response (Response.start header)).finish false) (writes next) := by
  intro all
  have transparent := all helloGzip helloGzip_sound "gzip" (by decide) (fun _ => [])
    [.header (.set "Location" "/items"), .writeHeader ⟨307, by decide⟩] (by simp)
  have nothing := transparent.encoded rfl rfl
  exact absurd nothing (by decide)

end Microserver.Compression
