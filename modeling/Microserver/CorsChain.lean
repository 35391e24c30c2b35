import Microserver.Compression

/-!
The chain of middleware around a handler: corsMiddleware, metricsMiddleware and
gzipMiddleware. Whatever the server's writer makes of it, the chain passes on a list
of header edits, statuses and writes; this list depends on three things of the
request besides the handler: its method, its Origin and its Accept-Encoding.
-/
namespace Microserver.CorsChain
open Microserver.ResponseWriters Microserver.Compression

/-! ### The middleware for browsers -/

structure CORSConfig where
  Enabled : Bool
  AllowAll : Bool
  AllowedOrigins : List String

def CORSConfig.allows (c : CORSConfig) (origin : String) : Bool :=
  if !c.Enabled || origin = "" then false else if c.AllowAll then true else c.AllowedOrigins.any fun o => o = origin

variable {σ τ : Type}

/-- The headers for a browser. -/
def corsEdits (cfg : CORSConfig) (origin : String) : List Edit :=
  (if cfg.AllowAll then [.set "Access-Control-Allow-Origin" "*"]
    else [.set "Access-Control-Allow-Origin" origin, .set "Vary" "Origin"]) ++
  [.set "Access-Control-Allow-Methods" "GET, POST, PUT, DELETE, OPTIONS",
    .set "Access-Control-Allow-Headers" "Authorization, Content-Type", .set "Access-Control-Max-Age" "600"]

def statusNoContent : Status := ⟨204, by decide⟩

def corsMiddleware (cfg : CORSConfig) (method origin : String) (next : ResponseWriter σ → σ → σ) (W : ResponseWriter σ) (w : σ) : σ :=
  if !cfg.Enabled then next W w
  else
    let w := if cfg.allows origin then (corsEdits cfg origin).foldl (fun w edit => W.header edit w) w else w
    if method = "OPTIONS" then W.writeHeader statusNoContent w else next W w

/-! ### The middleware for metrics -/

/-- `statusRecorder` -/
def statusRecorder (W : ResponseWriter σ) : ResponseWriter (σ × Status) where
  header edit w := (W.header edit w.1, w.2)
  writeHeader status w := (W.writeHeader status w.1, status)
  write b w := (W.write b w.1, w.2)

/-- The recorded status goes into the metrics and the log, not into the response. -/
def metricsMiddleware (next : ResponseWriter (σ × Status) → σ × Status → σ × Status) (W : ResponseWriter σ) (w : σ) : σ :=
  (next (statusRecorder W) (w, statusOK)).1

/-- Part of a writer's state is a writer of its own. -/
structure Morphism (W : ResponseWriter σ) (W' : ResponseWriter τ) (f : σ → τ) : Prop where
  header : ∀ edit w, f (W.header edit w) = W'.header edit (f w)
  writeHeader : ∀ status w, f (W.writeHeader status w) = W'.writeHeader status (f w)
  write : ∀ b w, f (W.write b w) = W'.write b (f w)

theorem statusRecorder_fst (W : ResponseWriter σ) : Morphism (statusRecorder W) W Prod.fst :=
  ⟨fun _ _ => rfl, fun _ _ => rfl, fun _ _ => rfl⟩

variable {W : ResponseWriter σ} {W' : ResponseWriter τ} {f : σ → τ} {G : Gzip}

theorem Morphism.serve (morphism : Morphism W W' f) (acts : List Action) (w : σ) : f (W.serve acts w) = W'.serve acts (f w) := by
  induction acts generalizing w with
  | nil => rfl
  | cons action acts ih =>
    have act : f (W.act w action) = W'.act (f w) action := by
      cases action with
      | header edit => exact morphism.header edit w
      | writeHeader status => exact morphism.writeHeader status w
      | write b => exact morphism.write b w
    show f (W.serve acts (W.act w action)) = W'.serve acts (W'.act (f w) action)
    rw [ih, act]

theorem serve_append (W : ResponseWriter σ) (acts acts' : List Action) (w : σ) :
    W.serve (acts ++ acts') w = W.serve acts' (W.serve acts w) := List.foldl_append

theorem serve_writes (W : ResponseWriter σ) (bs : List Bytes) (w : σ) :
    W.serve (bs.map .write) w = bs.foldl (fun w b => W.write b w) w := List.foldl_map

theorem serve_headers (W : ResponseWriter σ) (edits : List Edit) (w : σ) :
    W.serve (edits.map .header) w = edits.foldl (fun w edit => W.header edit w) w := List.foldl_map

/-! ### What the middleware for compression passes on -/

/-- What a handler does before its first status or write; with that, this status, which
    for a write is 200, and what it does then. -/
def opening : List Action → List Edit × Option (Status × List Action)
  | [] => ([], none)
  | .header edit :: rest => (edit :: (opening rest).1, (opening rest).2)
  | .writeHeader status :: rest => ([], some (status, rest))
  | .write b :: rest => ([], some (statusOK, .write b :: rest))

/-- The wrapper's own headers. -/
def marks : List Edit := [.set "Content-Encoding" "gzip", .add "Vary" "Accept-Encoding"]

/-- With a status that is left alone, all but the other statuses. -/
def skipped (acts : List Action) : List Action :=
  acts.filter fun
    | .writeHeader _ => false
    | _ => true

/-- With any other status, also the stream in the place of the text. -/
def forwarded (G : Gzip) : G.State → List Action → List Action
  | _, [] => []
  | state, .header edit :: rest => .header edit :: forwarded G state rest
  | state, .writeHeader _ :: rest => forwarded G state rest
  | state, .write b :: rest => (G.write b state).1.map .write ++ forwarded G (G.write b state).2 rest

/-- The state of a gzip writer after some writes. -/
def packing (G : Gzip) (state : G.State) (ws : List Bytes) : G.State := ws.foldl (fun state b => (G.write b state).2) state

/-- What is passed on instead of what the handler does. -/
def gzipped (G : Gzip) (acts : List Action) : List Action :=
  (opening acts).1.map .header ++ (opening acts).2.elim [] fun
    | (status, rest) =>
      if GzipResponseWriter.skips status then .writeHeader status :: skipped rest
      else marks.map .header ++ .writeHeader status :: forwarded G G.new rest ++
        if writes rest = [] then [] else (G.close (packing G G.new (writes rest))).map .write

theorem serve_skipped (W : ResponseWriter σ) (rest : List Action) {w : GzipResponseWriter G σ} (begun : w.headerWritten = true)
    (skip : w.skip = true) : (gzipResponseWriter G W).serve rest w = { w with rw := W.serve (skipped rest) w.rw } := by
  induction rest generalizing w with
  | nil => rfl
  | cons action rest ih =>
    cases action with
    | header edit => exact ih begun skip
    | writeHeader status =>
      show (gzipResponseWriter G W).serve rest (w.writeHeader W status) = _
      unfold GzipResponseWriter.writeHeader
      rw [if_pos begun]
      exact ih begun skip
    | write b =>
      have passed : w.write W b = { w with rw := W.write b w.rw } := by
        unfold GzipResponseWriter.write
        simp [begun, skip]
      show (gzipResponseWriter G W).serve rest (w.write W b) = _
      rw [passed]
      exact ih (w := { w with rw := W.write b w.rw }) begun skip

theorem serve_forwarded (W : ResponseWriter σ) (rest : List Action) {w : GzipResponseWriter G σ} (begun : w.headerWritten = true)
    (body : w.skip = false) : (gzipResponseWriter G W).serve rest w =
      { w with rw := W.serve (forwarded G w.gz rest) w.rw, gz := packing G w.gz (writes rest),
               wrote := w.wrote || decide (writes rest ≠ []) } := by
  induction rest generalizing w with
  | nil => simp [ResponseWriter.serve, forwarded, packing, writes]
  | cons action rest ih =>
    cases action with
    | header edit => exact ih begun body
    | writeHeader status =>
      show (gzipResponseWriter G W).serve rest (w.writeHeader W status) = _
      unfold GzipResponseWriter.writeHeader
      rw [if_pos begun]
      exact ih begun body
    | write b =>
      have passed : w.write W b =
          { w with wrote := true, gz := (G.write b w.gz).2, rw := (G.write b w.gz).1.foldl (fun rw b => W.write b rw) w.rw } := by
        unfold GzipResponseWriter.write
        simp [begun, body]
      have more : writes (.write b :: rest) = b :: writes rest := rfl
      have headerWritten : (w.write W b).headerWritten = true := by rw [passed]; exact begun
      have skip : (w.write W b).skip = false := by rw [passed]; exact body
      show (gzipResponseWriter G W).serve rest (w.write W b) = _
      rw [ih headerWritten skip, passed, more, forwarded, serve_append, serve_writes]
      simp [packing]

/-- What is passed on from the first status on. -/
theorem close_writeHeader (G : Gzip) (W : ResponseWriter σ) (status : Status) (rest : List Action) (w : σ) :
    (let gzw := (gzipResponseWriter G W).serve rest
      (GzipResponseWriter.writeHeader W status (⟨w, G.new, false, false, false⟩ : GzipResponseWriter G σ))
    if gzw.wrote then (G.close gzw.gz).foldl (fun rw chunk => W.write chunk rw) gzw.rw else gzw.rw) =
      W.serve (gzipped G (.writeHeader status :: rest)) w := by
  unfold GzipResponseWriter.writeHeader gzipped opening
  dsimp only [Option.elim, List.map_nil, List.nil_append]
  rw [if_neg Bool.false_ne_true]
  cases skip : GzipResponseWriter.skips status with
  | true =>
    rw [if_pos rfl, if_pos rfl, serve_skipped W rest rfl rfl]
    rfl
  | false =>
    rw [if_neg Bool.false_ne_true, if_neg Bool.false_ne_true, serve_forwarded W rest rfl rfl, serve_append]
    dsimp only
    by_cases none : writes rest = []
    · simp [none, marks, ResponseWriter.serve, ResponseWriter.act]
    · simp [none, marks, ResponseWriter.serve, ResponseWriter.act, List.foldl_map]

/-- gzipMiddleware passes on what it makes of the handler. -/
theorem gzipMiddleware_serve (G : Gzip) (acceptEncoding : String) (next : List Action) (W : ResponseWriter σ) (w : σ) :
    gzipMiddleware G acceptEncoding next W w = W.serve (if contains acceptEncoding "gzip" then gzipped G next else next) w := by
  unfold gzipMiddleware
  cases contains acceptEncoding "gzip" with
  | false => rfl
  | true =>
    rw [if_neg (by decide), if_pos rfl]
    induction next generalizing w with
    | nil => rfl
    | cons action rest ih =>
      cases action with
      | header edit => exact ih (W.header edit w)
      | writeHeader status => exact close_writeHeader G W status rest w
      | write b => exact close_writeHeader G W statusOK (.write b :: rest) w

/-! ### The chain -/

/-- A request by what the middleware looks at, and the rest of it. -/
structure Request (ρ : Type) where
  method : String
  origin : String
  acceptEncoding : String
  rest : ρ

/-- A writer that takes down what is asked of it. -/
def noted : ResponseWriter (List Action) where
  header edit acts := acts ++ [.header edit]
  writeHeader status acts := acts ++ [.writeHeader status]
  write b acts := acts ++ [.write b]

/-- `corsMiddleware(cfg, metricsMiddleware(metrics, gzipMiddleware(next)))`: what it
    passes on. -/
def handle {ρ : Type} (G : Gzip) (cfg : CORSConfig) (next : Request ρ → List Action) (r : Request ρ) : List Action :=
  corsMiddleware cfg r.method r.origin (metricsMiddleware (gzipMiddleware G r.acceptEncoding (next r))) noted []

/-- What corsMiddleware adds. -/
def added (cfg : CORSConfig) (origin : String) : List Edit := if cfg.allows origin then corsEdits cfg origin else []

/-- corsMiddleware answers the request itself. -/
def CORSConfig.preflight (cfg : CORSConfig) (method : String) : Bool := cfg.Enabled && method = "OPTIONS"

/-- What happens behind corsMiddleware, or what it does instead. -/
def actions {ρ : Type} (cfg : CORSConfig) (next : Request ρ → List Action) (r : Request ρ) : List Action :=
  if cfg.preflight r.method then [.writeHeader statusNoContent] else next r

/-- This, compressed or not. -/
def packed (G : Gzip) (gzip : Bool) (acts : List Action) : List Action := if gzip then gzipped G acts else acts

theorem noted_serve (acts before : List Action) : noted.serve acts before = before ++ acts := by
  induction acts generalizing before with
  | nil => exact (List.append_nil before).symm
  | cons action rest ih =>
    have act : noted.act before action = before ++ [action] := by cases action <;> rfl
    show noted.serve rest (noted.act before action) = _
    rw [act, ih, List.append_assoc]
    rfl

section Chain
variable {ρ : Type} (G : Gzip) (cfg : CORSConfig) (next : Request ρ → List Action) (r : Request ρ) (W : ResponseWriter σ) (w : σ)

theorem corsMiddleware_serve :
    corsMiddleware cfg r.method r.origin (metricsMiddleware (gzipMiddleware G r.acceptEncoding (next r))) W w =
      W.serve ((added cfg r.origin).map .header ++ packed G (contains r.acceptEncoding "gzip") (actions cfg next r)) w := by
  have inner (w : σ) : metricsMiddleware (gzipMiddleware G r.acceptEncoding (next r)) W w =
      W.serve (packed G (contains r.acceptEncoding "gzip") (next r)) w := by
    unfold metricsMiddleware
    rw [gzipMiddleware_serve]
    exact (statusRecorder_fst W).serve _ _
  have options : packed G (contains r.acceptEncoding "gzip") [.writeHeader statusNoContent] = [.writeHeader statusNoContent] := by
    unfold packed
    cases contains r.acceptEncoding "gzip" <;> rfl
  rw [serve_append, serve_headers]
  unfold corsMiddleware added actions CORSConfig.preflight
  cases enabled : cfg.Enabled with
  | false =>
    have plain : cfg.allows r.origin = false := by
      unfold CORSConfig.allows
      rw [enabled]
      rfl
    rw [plain]
    exact inner w
  | true =>
    have begun : (if cfg.allows r.origin = true then corsEdits cfg r.origin else []).foldl (fun w edit => W.header edit w) w =
        if cfg.allows r.origin = true then (corsEdits cfg r.origin).foldl (fun w edit => W.header edit w) w else w := by
      split <;> rfl
    rw [if_neg (by decide), begun]
    by_cases preflight : r.method = "OPTIONS"
    · have answered : (true && decide (r.method = "OPTIONS")) = true := decide_eq_true preflight
      rw [if_pos preflight, if_pos answered, options]
      rfl
    · have passed : ¬ (true && decide (r.method = "OPTIONS")) = true := fun answered => preflight (of_decide_eq_true answered)
      rw [if_neg preflight, if_neg passed]
      exact inner _

/-- The chain is determined by the list that it passes on. -/
theorem handle_serve : corsMiddleware cfg r.method r.origin (metricsMiddleware (gzipMiddleware G r.acceptEncoding (next r))) W w =
    W.serve (handle G cfg next r) w := by
  unfold handle
  rw [corsMiddleware_serve G cfg next r W, corsMiddleware_serve G cfg next r noted, noted_serve, List.nil_append]

theorem handle_eq : handle G cfg next r =
    (added cfg r.origin).map .header ++ packed G (contains r.acceptEncoding "gzip") (actions cfg next r) := by
  unfold handle
  rw [corsMiddleware_serve, noted_serve, List.nil_append]

end Chain

/-! ### What is asked of the server -/

/-- What is done to the headers before the final status or the first write. -/
def edits : List Action → List Edit
  | .header edit :: rest => edit :: edits rest
  | .writeHeader status :: rest => if informational status then edits rest else []
  | _ => []

/-- The first status that is final, and 200 for a write before it or for neither. -/
def finalStatus : List Action → Status
  | .header _ :: rest => finalStatus rest
  | .writeHeader status :: rest => if informational status then finalStatus rest else status
  | _ => statusOK

/-- A final status, the headers as they stand then, and the bytes. -/
structure Reply where
  status : Status
  header : Header
  body : Bytes

/-- What the server is asked to send. -/
def reply (acts : List Action) : Reply := ⟨finalStatus acts, (edits acts).foldl Edit.apply fun _ => [], (writes acts).flatten⟩

theorem asked_eq (header : Header) (acts : List Action) :
    (asked header acts).1 = (edits acts).foldl Edit.apply header ∧ (asked header acts).2.elim statusOK (·.1) = finalStatus acts := by
  induction acts generalizing header with
  | nil => exact ⟨rfl, rfl⟩
  | cons action rest ih =>
    cases action with
    | header edit => exact ih _
    | writeHeader status =>
      unfold asked edits finalStatus
      split
      · exact ih header
      · exact ⟨rfl, rfl⟩
    | write b => exact ⟨rfl, rfl⟩

/-- What the server of net/http makes of it. -/
theorem finish_reply (head : Bool) (acts : List Action) : (response.serve acts (Response.start fun _ => [])).finish head =
    sent head (reply acts).header (reply acts).status (writes acts) := by
  rw [finish_serve, (asked_eq _ acts).1, (asked_eq _ acts).2]
  rfl

end Microserver.CorsChain
