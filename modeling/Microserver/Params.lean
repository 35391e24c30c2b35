import Microserver.Exports
import Microserver.Tokens

/-!
Query parameters: paging, filters, sort order and the switches of a search. What
is wrong with them is an error text, which the handlers send with status 400.
-/
namespace Microserver.Params
open Microserver.Values Microserver.Store Microserver.Statements Microserver.Queries Microserver.Tokens Microserver.Exports

/-- `url.Values`, in the order in which it is ranged over. -/
structure Query where
  entries : List (String × List String)
  distinct : (entries.map (·.1)).Nodup

namespace Query

def empty : Query := ⟨[], List.nodup_nil⟩

/-- The first value of a parameter; a parameter that is not there is empty. -/
def get (query : Query) (key : String) : String := ((query.entries.lookup key).getD []).headD ""

end Query

def defaultListLimit : Int := 100

/-- A parameter as a number from `low` on; an empty one has its default. -/
def parseNumber (query : Query) (key : String) (default low : Int) (high : Option Int) (error : String) : Except String Int :=
  let v := query.get key
  if v = "" then .ok default
  else
    match parseInt v with
    | none => .error error
    | some n => if n < low ∨ high.any (· < n) then .error error else .ok n

/-- handleList reads its parameters in the same way. -/
def parseLimitOffset (query : Query) : Except String (Int × Int) := do
  let limit ← parseNumber query "limit" defaultListLimit 1 (some (maxListLimit : Int)) "limit must be a positive integer up to 1000"
  let offset ← parseNumber query "offset" 0 0 none "offset must be a non-negative integer"
  return (limit, offset)

/-- The limit of a search. -/
def parseSearchLimit (query : Query) : Except String Int :=
  parseNumber query "limit" 10 1 none "limit must be a positive integer"

/-- `strconv.ParseBool`. -/
def parseBool (s : String) : Option Bool :=
  if s ∈ ["1", "t", "T", "TRUE", "true", "True"] then some true
  else if s ∈ ["0", "f", "F", "FALSE", "false", "False"] then some false
  else none

def parseRerank (query : Query) : Except String Bool :=
  let v := query.get "rerank"
  if v = "" then .ok true
  else
    match parseBool v with
    | none => .error "rerank must be true or false"
    | some b => .ok b

/-! ### Filters and sort -/

def filterOps : List (String × FilterOp) :=
  [("eq", .eq), ("ne", .ne), ("lt", .lt), ("lte", .lte), ("gt", .gt), ("gte", .gte), ("like", .like)]

/-- Parameters that are no filters. -/
def reservedQueryParams : List String := ["limit", "offset", "q", "rerank", "sort", "op", "field", "group_by"]

/-- The text before the last `__` and the text after it. -/
def splitLast : List Char → Option (List Char × List Char)
  | [] => none
  | c :: rest =>
    match splitLast rest with
    | some (before, after) => some (c :: before, after)
    | none => if c = '_' ∧ rest.head? = some '_' then some ([], rest.tail) else none

/-- The field and the operator of a parameter. -/
def fieldAndOp (key : String) : String × String :=
  match splitLast key.toList with
  | some (c :: before, after) => (String.ofList (c :: before), String.ofList after)
  | _ => (key, "eq")

example : fieldAndOp "price__gte" = ("price", "gte") := by decide

/-- A float64; `none` is NaN. -/
abbrev Float64 := Option Double

/-- A float as it is bound; NaN is bound as NULL. -/
def bindFloat : Float64 → SqlValue
  | none => .null
  | some x => .real x

/-- A value is bound as a bool, an integer, a float or text, whatever it reads
    as first. `parseFloat` is `strconv.ParseFloat`. -/
def parseFilterValue (parseFloat : String → Option Float64) (raw : String) : SqlValue :=
  if raw = "true" then .integer 1
  else if raw = "false" then .integer 0
  else
    match parseInt raw with
    | some n => .integer n
    | none =>
      match parseFloat raw with
      | some x => bindFloat x
      | none => .text raw

/-- The conditions of one parameter. -/
def parseFilter (parseFloat : String → Option Float64) (key : String) (values : List String) :
    Except String (List FilterCondition) :=
  let (field, op) := fieldAndOp key
  if !collectionNameRe field then .error ("invalid filter field " ++ quote field)
  else
    match filterOps.lookup op with
    | none => .error ("unknown filter operator " ++ quote op ++ " on field " ++ quote field ++
        " (allowed: eq, ne, lt, lte, gt, gte, like)")
    | some sqlOp => .ok (values.map fun raw => ⟨field, sqlOp, parseFilterValue parseFloat raw⟩)

def parseFilters (parseFloat : String → Option Float64) (query : Query) : Except String (List FilterCondition) := do
  let params := query.entries.filter fun entry => entry.1 ∉ reservedQueryParams
  let conds ← params.mapM fun entry => parseFilter parseFloat entry.1 entry.2
  return conds.flatten

def parseSort (query : Query) : Except String (Option SortSpec) :=
  let raw := query.get "sort"
  if raw = "" then .ok none
  else
    let spec : SortSpec := match raw.toList with
      | '-' :: field => ⟨String.ofList field, true⟩
      | _ => ⟨raw, false⟩
    if !collectionNameRe spec.field then .error ("invalid sort field " ++ quote spec.field) else .ok (some spec)

end Microserver.Params
