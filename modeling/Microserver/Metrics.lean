import Mathlib.Data.List.AList
import Microserver.Quoting
import Microserver.Ranking
import Microserver.Tokens

/-!
The metrics: what each request adds to three maps, and the text in which they are
exposed. The series of a map are kept under keys in which a NUL separates the
labels.
-/
namespace Microserver.Metrics
open Microserver.Base64 Microserver.Quoting Microserver.Ranking Microserver.Tokens

/-! ### Maps -/

section Maps
variable {ι κ α : Type} [DecidableEq κ]

/-- What an element adds to the value under its key; a key that is not there has
    the value `zero`. -/
def accumulate (key : ι → κ) (add : α → ι → α) (zero : α) (m : AList fun _ : κ => α) (x : ι) : AList fun _ : κ => α :=
  m.insert (key x) (add ((m.lookup (key x)).getD zero) x)

variable {key : ι → κ} {add : α → ι → α} {zero : α}

theorem lookup_accumulate (m : AList fun _ : κ => α) (x : ι) (k : κ) :
    ((accumulate key add zero m x).lookup k).getD zero =
      if key x = k then add ((m.lookup k).getD zero) x else (m.lookup k).getD zero := by
  unfold accumulate
  split
  · rename_i same
    rw [← same, AList.lookup_insert, Option.getD_some]
  · rename_i different
    rw [AList.lookup_insert_ne (Ne.symm different)]

theorem mem_accumulate (m : AList fun _ : κ => α) (x : ι) (k : κ) :
    k ∈ (accumulate key add zero m x).keys ↔ k = key x ∨ k ∈ m.keys := by
  rw [← AList.mem_keys, ← AList.mem_keys, accumulate, AList.mem_insert]

/-- The value under a key is what the elements of this key have added. -/
theorem lookup_accumulated (xs : List ι) (m : AList fun _ : κ => α) (k : κ) :
    ((xs.foldl (accumulate key add zero) m).lookup k).getD zero = (xs.filter (key · = k)).foldl add ((m.lookup k).getD zero) := by
  induction xs generalizing m with
  | nil => rfl
  | cons x xs ih =>
    rw [List.foldl_cons, ih, lookup_accumulate]
    by_cases same : key x = k
    · rw [if_pos same, List.filter_cons_of_pos (p := fun x => decide (key x = k)) (decide_eq_true same), List.foldl_cons]
    · rw [if_neg same, List.filter_cons_of_neg (p := fun x => decide (key x = k)) (by simpa using same)]

theorem mem_accumulated (xs : List ι) (m : AList fun _ : κ => α) (k : κ) :
    k ∈ (xs.foldl (accumulate key add zero) m).keys ↔ k ∈ xs.map key ∨ k ∈ m.keys := by
  induction xs generalizing m with
  | nil => simp
  | cons x xs ih =>
    rw [List.foldl_cons, ih, mem_accumulate, List.map_cons, List.mem_cons]
    tauto

end Maps

/-! ### Recording -/

/-- Sums of seconds in float64 numbers: `add` adds `dur.Seconds()`, `format` is `%f`. -/
structure Seconds where
  Sum : Type
  zero : Sum
  add : Sum → Int → Sum
  format : Sum → Bytes
  oneLine : ∀ s, 10 ∉ format s

structure Collector (F : Seconds) where
  counts : AList fun _ : Bytes => Int64
  durationSum : AList fun _ : Bytes => F.Sum
  durationCount : AList fun _ : Bytes => Int64

variable {F : Seconds}

def newMetricsCollector (F : Seconds) : Collector F := ⟨∅, ∅, ∅⟩

/-- The arguments of a call of record; the duration is in nanoseconds. -/
structure Call where
  method : Bytes
  pattern : Bytes
  status : Int
  dur : Int

/-- `%d`. -/
def itoa (n : Int) : Bytes := bytesOf (toString n)

def metricsCountKey (method pattern : Bytes) (status : Int) : Bytes := method ++ 0 :: (pattern ++ 0 :: itoa status)

def metricsDurationKey (method pattern : Bytes) : Bytes := method ++ 0 :: pattern

def Call.countKey (c : Call) : Bytes := metricsCountKey c.method c.pattern c.status
def Call.durationKey (c : Call) : Bytes := metricsDurationKey c.method c.pattern

/-- `m[k]++`. -/
def increment (n : Int64) (_ : Call) : Int64 := n + 1

def Collector.record (m : Collector F) (c : Call) : Collector F where
  counts := accumulate Call.countKey increment 0 m.counts c
  durationSum := accumulate Call.durationKey (fun s c => F.add s c.dur) F.zero m.durationSum c
  durationCount := accumulate Call.durationKey increment 0 m.durationCount c

/-! ### Rendering -/

/-- `strings.SplitN` for a separator of one byte. -/
def splitN (sep : UInt8) : Nat → Bytes → List Bytes
  | 0, _ => []
  | 1, s => [s]
  | n + 2, s => if sep ∈ s then s.takeWhile (· != sep) :: splitN sep (n + 1) (s.dropWhile (· != sep)).tail else [s]

/-- A series with its labels. -/
def countSeries (table : Char → Bool) (method pattern status : Bytes) : Bytes :=
  bytesOf "http_requests_total\x7bmethod=" ++ (quote table method ++ (bytesOf ",path=" ++ (quote table pattern ++
    (bytesOf ",status=" ++ (quote table status ++ bytesOf "\x7d")))))

def durationSeries (table : Char → Bool) (name : String) (method pattern : Bytes) : Bytes :=
  bytesOf name ++ (bytesOf "\x7bmethod=" ++ (quote table method ++ (bytesOf ",path=" ++ (quote table pattern ++ bytesOf "\x7d"))))

/-- A series and its value. -/
def sample (series value : Bytes) : Bytes := series ++ (bytesOf " " ++ value)

/-- `sort.Strings`: byte by byte. -/
def sortedKeys {α : Type} (m : AList fun _ : Bytes => α) : List Bytes := sortBy (·.map UInt8.toNat) m.keys

/-- The line of a key; `parts[i]` is there in all of them. -/
def countLine (table : Char → Bool) (m : Collector F) (k : Bytes) : Bytes :=
  let parts := splitN 0 3 k
  sample (countSeries table (parts.getD 0 []) (parts.getD 1 []) (parts.getD 2 [])) (itoa ((m.counts.lookup k).getD 0).toInt)

def durationSumLine (table : Char → Bool) (m : Collector F) (k : Bytes) : Bytes :=
  let parts := splitN 0 2 k
  sample (durationSeries table "http_request_duration_seconds_sum" (parts.getD 0 []) (parts.getD 1 []))
    (F.format ((m.durationSum.lookup k).getD F.zero))

def durationCountLine (table : Char → Bool) (m : Collector F) (k : Bytes) : Bytes :=
  let parts := splitN 0 2 k
  sample (durationSeries table "http_request_duration_seconds_count" (parts.getD 0 []) (parts.getD 1 []))
    (itoa ((m.durationCount.lookup k).getD 0).toInt)

def countHeader : List String :=
  ["# HELP http_requests_total Total HTTP requests by method, route pattern, and status code.",
    "# TYPE http_requests_total counter"]

def durationSumHeader : List String :=
  ["# HELP http_request_duration_seconds_sum Sum of request durations in seconds by method and route pattern.",
    "# TYPE http_request_duration_seconds_sum counter"]

def durationCountHeader : List String :=
  ["# HELP http_request_duration_seconds_count Count of requests contributing to the duration sum, by method and route pattern.",
    "# TYPE http_request_duration_seconds_count counter"]

/-- Lines, each with its newline. -/
def written (ls : List Bytes) : Bytes := ls.flatMap (· ++ [10])

def Collector.render (table : Char → Bool) (m : Collector F) : Bytes :=
  let durKeys := sortedKeys m.durationSum
  written (countHeader.map bytesOf) ++ (written ((sortedKeys m.counts).map (countLine table m)) ++
    (written (durationSumHeader.map bytesOf) ++ (written (durKeys.map (durationSumLine table m)) ++
      (written (durationCountHeader.map bytesOf) ++ written (durKeys.map (durationCountLine table m))))))

end Microserver.Metrics
