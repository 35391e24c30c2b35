import Microserver.MetricLines
import Microserver.Throttling

/-!
The labels of the metrics. The label of the path comes from the table of routes,
the label of the method from the client; so the labels stay within a finite set
exactly as long as the methods do.
-/
namespace Microserver.RouteLabels
open Microserver.Base64 Microserver.Tokens Microserver.Metrics Microserver.MetricLines Microserver.RateLimits Microserver.Router
open Microserver.Throttling

/-! ### Patterns -/

def segmentText : Segment → String
  | .text t => "/" ++ t
  | .wild name => "/\x7b" ++ name ++ "\x7d"

/-- The pattern as it was registered. -/
def patternText (p : Pattern) : String := p.method ++ " " ++ String.join (p.path.map segmentText)

/-- What the inner mux sets `r.Pattern` to. -/
def routerPattern (r : Request) : String :=
  match findRoute r.method r.path with
  | some route => patternText route.pattern
  | none => ""

/-- What the outer mux sets `r.Pattern` to; a redirect to the clean path keeps it. -/
def outerPattern (r : Request) : String :=
  if (r.method = "GET" || r.method = "HEAD") && r.path = ["metrics"] then "GET /metrics" else "/"

/-- `r.Pattern` when the handlers have returned: the inner mux, if the request has
    come to it, sets it anew. -/
def patternOf (c : Chain) (r : Request) : String :=
  if !r.clean && r.method ≠ "CONNECT" then outerPattern r
  else if outerPattern r = "/" && (c.generalLimiter.allow r.now (clientIP r.remoteAddr)).1 then routerPattern r
  else outerPattern r

/-! ### metricsMiddleware -/

/-- The pattern without its method. -/
def pathLabel (pattern : String) : String :=
  if pattern = "" then "(unmatched)"
  else if ' ' ∈ pattern.toList then String.ofList (pattern.toList.dropWhile (· != ' ')).tail
  else pattern

example : pathLabel (patternText ⟨"GET", [.text "items", .wild "id"]⟩) = "/items/\x7bid\x7d" := by decide

/-- A request, the state of the server that it finds, and how long it takes. A
    request for `*` comes to no handler of a mux. -/
structure Visit where
  found : Chain
  request : Request
  star : Bool
  dur : Int

/-- The middleware for browsers answers OPTIONS itself; OPTIONS for `*` comes to no
    handler at all. -/
def Visit.observed (cors : Bool) (v : Visit) : Bool := !(v.request.method = "OPTIONS" && (cors || v.star))

def Visit.pattern (v : Visit) : String := if v.star then "" else patternOf v.found v.request

def Visit.status (W : Config) (cors : Bool) (v : Visit) : Nat :=
  if v.star then 400 else (v.found.handle W cors v.request).1.status

/-- The call of record that a request causes. -/
def Visit.call (W : Config) (cors : Bool) (v : Visit) : Call :=
  ⟨bytesOf v.request.method, bytesOf (pathLabel v.pattern), v.status W cors, v.dur⟩

/-- The calls of record, whatever state each of the requests finds. -/
def calls (W : Config) (cors : Bool) (visits : List Visit) : List Call := (visits.filter (·.observed cors)).map (·.call W cors)

/-! ### The labels -/

/-- The labels of paths: those of the routes, and three of main. -/
def pathLabels : List String := "(unmatched)" :: "/" :: "/metrics" :: routes.map fun route => pathLabel (patternText route.pattern)

/-- The pairs of one of the methods and one of the labels of paths. -/
def labelPairs (methods : List String) : List (Bytes × Bytes) :=
  methods.flatMap fun m => pathLabels.map fun l => (bytesOf m, bytesOf l)

theorem routerPattern_label (r : Request) : pathLabel (routerPattern r) ∈ pathLabels := by
  unfold routerPattern
  cases found : findRoute r.method r.path with
  | none => exact .head _
  | some route =>
    have member : route ∈ routes := List.mem_of_mem_filter (List.mem_of_find?_eq_some found)
    have listed : pathLabel (patternText route.pattern) ∈ routes.map fun route => pathLabel (patternText route.pattern) :=
      List.mem_map_of_mem member
    exact .tail _ (.tail _ (.tail _ listed))

theorem outerPattern_label (r : Request) : pathLabel (outerPattern r) ∈ pathLabels := by
  unfold outerPattern
  split
  · have label : pathLabel "GET /metrics" = "/metrics" := by decide
    rw [label]
    exact .tail _ (.tail _ (.head _))
  · have label : pathLabel "/" = "/" := by decide
    rw [label]
    exact .tail _ (.head _)

theorem patternOf_label (c : Chain) (r : Request) : pathLabel (patternOf c r) ∈ pathLabels := by
  unfold patternOf
  split
  · exact outerPattern_label r
  · split
    · exact routerPattern_label r
    · exact outerPattern_label r

variable {W : Config} {cors : Bool}

/-- The path of a recorded pair comes from the routes, its method is that of the
    request. -/
theorem call_pair (v : Visit) : ∃ l ∈ pathLabels, pair (v.call W cors) = (bytesOf v.request.method, bytesOf l) := by
  refine ⟨pathLabel v.pattern, ?_, rfl⟩
  unfold Visit.pattern
  split
  · exact .head _
  · exact patternOf_label v.found v.request

theorem mem_labelPairs {methods : List String} {method l : String} (member : l ∈ pathLabels) :
    (bytesOf method, bytesOf l) ∈ labelPairs methods ↔ method ∈ methods := by
  unfold labelPairs
  rw [List.mem_flatMap]
  constructor
  · rintro ⟨m, listed, inside⟩
    obtain ⟨l', -, same⟩ := List.mem_map.mp inside
    rwa [← bytesOf_injective (Prod.ext_iff.mp same).1]
  · intro listed
    exact ⟨method, listed, List.mem_map_of_mem member⟩

/-- The recorded pairs are pairs of known methods with the labels of the routes
    exactly as long as no other method comes to the middleware. -/
theorem labels_bounded_iff (W : Config) (cors : Bool) (methods : List String) (visits : List Visit) :
    (∀ c ∈ calls W cors visits, pair c ∈ labelPairs methods) ↔
      ∀ v ∈ visits, v.observed cors = true → v.request.method ∈ methods := by
  have one (v : Visit) : pair (v.call W cors) ∈ labelPairs methods ↔ v.request.method ∈ methods := by
    obtain ⟨l, member, same⟩ := call_pair v
    rw [same, mem_labelPairs member]
  unfold calls
  simp only [List.forall_mem_map, List.mem_filter, one, and_imp]

/-- The characters of a method. -/
def isToken (method : String) : Bool :=
  method ≠ "" && method.toList.all fun c => c.isAlphanum || "!#$%&'*+-.^_`|~".toList.contains c

theorem longer {α : Type} (S : List (List α × List α)) : ∃ n, ∀ p ∈ S, p.1.length ≤ n := by
  induction S with
  | nil => exact ⟨0, nofun⟩
  | cons p S ih =>
    obtain ⟨n, all⟩ := ih
    refine ⟨max n p.1.length, List.forall_mem_cons.mpr ⟨le_max_right _ _, fun q member => ?_⟩⟩
    exact (all q member).trans (le_max_left _ _)

/-- Clients can have any number of methods recorded. -/
theorem labels_unbounded :
    ¬ ∃ S : List (Bytes × Bytes), ∀ (W : Config) (cors : Bool) (visits : List Visit),
      (∀ v ∈ visits, isToken v.request.method = true) → ∀ c ∈ calls W cors visits, pair c ∈ S := by
  rintro ⟨S, all⟩
  obtain ⟨n, bound⟩ := longer S
  let method := String.ofList (List.replicate (n + 1) 'A')
  let visit : Visit :=
    ⟨⟨newService (.float64 false) Users.bootstrapped, (newLimiters (.float64 false)).general⟩, plainRequest method ["items"] "" .malformed, false, 0⟩
  have letters : method.toList = List.replicate (n + 1) 'A' := String.toList_ofList
  have token : isToken method = true := by
    have filled : method ≠ "" := by
      intro empty
      rw [empty] at letters
      cases letters
    have allowed : ('A'.isAlphanum || "!#$%&'*+-.^_`|~".toList.contains 'A') = true := by decide
    unfold isToken
    rw [letters, List.all_replicate, if_neg (Nat.succ_ne_zero n), allowed, decide_eq_true filled]
    rfl
  have observed : visit.observed false = true := by simp [Visit.observed, visit]
  have member : visit.call plainConfig false ∈ calls plainConfig false [visit] :=
    List.mem_map_of_mem (List.mem_filter.mpr ⟨.head _, observed⟩)
  have listed := all plainConfig false [visit] (fun v member => List.mem_singleton.mp member ▸ token) _ member
  have short : (bytesOf method).length ≤ n := bound _ listed
  have one : (String.utf8EncodeChar 'A').length = 1 := by decide
  rw [bytesOf, letters, List.length_flatMap, List.map_replicate, one, List.sum_replicate_nat] at short
  omega

end Microserver.RouteLabels
