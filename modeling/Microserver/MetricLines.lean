import Mathlib.Algebra.BigOperators.Group.List.Lemmas
import Mathlib.Algebra.Order.Ring.Int
import Microserver.FixedWidth
import Microserver.Metrics

/-!
What the exposed text says. Its lines of one name are as many as there are series
of this name, each with what the calls of the series have added up to, and no two
series have the same labels.
-/
namespace Microserver.MetricLines
open Microserver.Base64 Microserver.Quoting Microserver.Ranking Microserver.Tokens Microserver.Metrics

/-! ### Keys -/

/-- No label has a NUL. -/
def NulFree (c : Call) : Prop := 0 ∉ c.method ∧ 0 ∉ c.pattern

theorem toDigits_inj {n m : Nat} (same : Nat.toDigits 10 n = Nat.toDigits 10 m) : n = m := by
  have read := parseDigits_toDigits n
  rw [same, parseDigits_toDigits] at read
  exact (Option.some.inj read).symm

theorem minus_not_mem {n : Nat} {ds : List Char} : Nat.toDigits 10 n ≠ '-' :: ds := by
  intro same
  have digit : '-'.isDigit = true := Nat.isDigit_of_mem_toDigits (by decide) (by decide) (same ▸ List.mem_cons_self)
  cases digit

theorem itoa_inj {n m : Int} (same : itoa n = itoa m) : n = m := by
  have texts : (toString n).toList = (toString m).toList := by rw [bytesOf_injective same]
  by_cases left : n < 0 <;> by_cases right : m < 0
  · rw [toList_toString_neg left, toList_toString_neg right] at texts
    have values := toDigits_inj (List.cons.inj texts).2
    omega
  · rw [toList_toString_neg left, toList_toString_nonneg (by omega)] at texts
    exact absurd texts.symm minus_not_mem
  · rw [toList_toString_nonneg (by omega), toList_toString_neg right] at texts
    exact absurd texts minus_not_mem
  · rw [toList_toString_nonneg (by omega), toList_toString_nonneg (by omega)] at texts
    have values := toDigits_inj texts
    omega

theorem not_mem_itoa {b : UInt8} (small : b.toNat < 45) (n : Int) : b ∉ itoa n := by
  intro member
  obtain ⟨c, listed, encoded⟩ := List.mem_flatMap.mp member
  have same := mem_utf8EncodeChar encoded (by omega)
  rcases mem_toString listed with rfl | digit
  · have minus : '-'.toNat = 45 := rfl
    omega
  · have low := (Char.isDigit_iff_toNat.mp digit).1
    have zero : '0'.toNat = 48 := rfl
    omega

theorem splitN_append {sep : UInt8} {s : Bytes} (absent : sep ∉ s) (n : Nat) (rest : Bytes) :
    splitN sep (n + 2) (s ++ sep :: rest) = s :: splitN sep (n + 1) rest := by
  have other (b : UInt8) (member : b ∈ s) : (b != sep) = true := bne_iff_ne.mpr fun same => absent (same ▸ member)
  rw [splitN, if_pos (by simp), List.takeWhile_append_of_pos other, List.dropWhile_append_of_pos other]
  simp

theorem splitN_countKey {c : Call} (free : NulFree c) : splitN 0 3 c.countKey = [c.method, c.pattern, itoa c.status] := by
  unfold Call.countKey metricsCountKey
  rw [splitN_append free.1, splitN_append free.2]
  rfl

theorem splitN_durationKey {c : Call} (free : NulFree c) : splitN 0 2 c.durationKey = [c.method, c.pattern] := by
  unfold Call.durationKey metricsDurationKey
  rw [splitN_append free.1]
  rfl

/-- Method, pattern and status. -/
def series (c : Call) : Bytes × Bytes × Int := (c.method, c.pattern, c.status)

/-- Method and pattern. -/
def pair (c : Call) : Bytes × Bytes := (c.method, c.pattern)

theorem countKey_inj {c d : Call} (left : NulFree c) (right : NulFree d) : c.countKey = d.countKey ↔ series c = series d := by
  constructor
  · intro same
    have parts := splitN_countKey left
    rw [same, splitN_countKey right] at parts
    simp only [List.cons.injEq] at parts
    obtain ⟨method, pattern, status, -⟩ := parts
    rw [series, series, method, pattern, itoa_inj status]
  · intro same
    simp only [series, Prod.mk.injEq] at same
    obtain ⟨method, pattern, status⟩ := same
    rw [Call.countKey, Call.countKey, method, pattern, status]

theorem durationKey_inj {c d : Call} (left : NulFree c) (right : NulFree d) : c.durationKey = d.durationKey ↔ pair c = pair d := by
  constructor
  · intro same
    have parts := splitN_durationKey left
    rw [same, splitN_durationKey right] at parts
    simp only [List.cons.injEq] at parts
    obtain ⟨method, pattern, -⟩ := parts
    rw [pair, pair, method, pattern]
  · intro same
    simp only [pair, Prod.mk.injEq] at same
    obtain ⟨method, pattern⟩ := same
    rw [Call.durationKey, Call.durationKey, method, pattern]

/-! ### Lines -/

/-- The lines of a text; behind the last newline there is an empty one. -/
def lines (text : Bytes) : List Bytes := text.splitOn 10

/-- The lines of a name. -/
def samples (name : String) (text : Bytes) : List Bytes := (lines text).filter (bytesOf (name ++ "\x7b")).isPrefixOf

theorem lines_written {ls : List Bytes} (single : ∀ l ∈ ls, 10 ∉ l) : lines (written ls) = ls ++ [[]] := by
  unfold lines written
  induction ls with
  | nil => rfl
  | cons l ls ih =>
    obtain ⟨first, single⟩ := List.forall_mem_cons.mp single
    rw [List.flatMap_cons, List.append_assoc, List.singleton_append, List.splitOn_append_cons_self, List.splitOn_eq_singleton first,
      ih single]
    rfl

theorem written_append (ls ls' : List Bytes) : written ls ++ written ls' = written (ls ++ ls') := List.flatMap_append.symm

variable {F : Seconds} {table : Char → Bool} {m : Collector F}

/-- The label sets. -/
theorem countSeries_inj {a b c a' b' c' : Bytes} (same : countSeries table a b c = countSeries table a' b' c') :
    a = a' ∧ b = b' ∧ c = c' := by
  obtain ⟨method, same⟩ := quote_append_inj (List.append_cancel_left same)
  obtain ⟨pattern, same⟩ := quote_append_inj (List.append_cancel_left same)
  obtain ⟨status, -⟩ := quote_append_inj (List.append_cancel_left same)
  exact ⟨method, pattern, status⟩

theorem durationSeries_inj {name : String} {a b a' b' : Bytes} (same : durationSeries table name a b = durationSeries table name a' b') :
    a = a' ∧ b = b' := by
  obtain ⟨method, same⟩ := quote_append_inj (List.append_cancel_left (List.append_cancel_left same))
  obtain ⟨pattern, -⟩ := quote_append_inj (List.append_cancel_left same)
  exact ⟨method, pattern⟩

theorem newline_not_mem_countSeries (a b c : Bytes) : 10 ∉ countSeries table a b c := by
  have texts : 10 ∉ bytesOf "http_requests_total\x7bmethod=" ∧ 10 ∉ bytesOf ",path=" ∧ 10 ∉ bytesOf ",status=" ∧ 10 ∉ bytesOf "\x7d" := by
    decide
  simp [countSeries, texts, newline_not_mem_quote]

theorem newline_not_mem_durationSeries {name : String} (single : 10 ∉ bytesOf name) (a b : Bytes) :
    10 ∉ durationSeries table name a b := by
  have texts : 10 ∉ bytesOf "\x7bmethod=" ∧ 10 ∉ bytesOf ",path=" ∧ 10 ∉ bytesOf "\x7d" := by decide
  simp [durationSeries, single, texts, newline_not_mem_quote]

theorem newline_not_mem_sample {series value : Bytes} (left : 10 ∉ series) (right : 10 ∉ value) : 10 ∉ sample series value := by
  have blank : 10 ∉ bytesOf " " := by decide
  simp [sample, left, right, blank]

/-! ### The lines of a name -/

def names : List String := ["http_requests_total", "http_request_duration_seconds_sum", "http_request_duration_seconds_count"]

def headers : List String := countHeader ++ durationSumHeader ++ durationCountHeader

theorem newline_not_mem_name : ∀ name ∈ names, 10 ∉ bytesOf name := by decide

theorem newline_not_mem_header : ∀ l ∈ headers, 10 ∉ bytesOf l := by decide

theorem header_isPrefixOf : ∀ name ∈ names, ∀ l ∈ headers, (bytesOf (name ++ "\x7b")).isPrefixOf (bytesOf l) = false := by decide

/-- A line has one name. -/
theorem isPrefixOf_append (rest : Bytes) : ∀ name ∈ names, ∀ other ∈ names,
    (bytesOf (name ++ "\x7b")).isPrefixOf (bytesOf (other ++ "\x7b") ++ rest) = decide (name = other) := by
  have apart : ∀ name ∈ names, ∀ other ∈ names, name ≠ other → ¬ bytesOf (name ++ "\x7b") <+: bytesOf (other ++ "\x7b") := by
    decide
  intro name left other right
  by_cases same : name = other
  · rw [same, decide_eq_true rfl]
    exact List.isPrefixOf_iff_prefix.mpr (List.prefix_append _ _)
  · rw [decide_eq_false same, Bool.eq_false_iff]
    intro starts
    rcases List.prefix_or_prefix_of_prefix (List.isPrefixOf_iff_prefix.mp starts) (List.prefix_append _ _) with one | one
    · exact apart name left other right same one
    · exact apart other right name left (Ne.symm same) one

theorem countLine_eq (table : Char → Bool) (m : Collector F) (k : Bytes) :
    ∃ rest, countLine table m k = bytesOf ("http_requests_total" ++ "\x7b") ++ rest := by
  have name : bytesOf "http_requests_total\x7bmethod=" = bytesOf ("http_requests_total" ++ "\x7b") ++ bytesOf "method=" := by
    decide
  unfold countLine countSeries sample
  rw [name, List.append_assoc, List.append_assoc]
  exact ⟨_, rfl⟩

theorem durationLine_eq (table : Char → Bool) (name : String) (a b value : Bytes) :
    ∃ rest, sample (durationSeries table name a b) value = bytesOf (name ++ "\x7b") ++ rest := by
  have first : bytesOf "\x7bmethod=" = bytesOf "\x7b" ++ bytesOf "method=" := by decide
  unfold durationSeries sample
  rw [first, bytesOf_append, List.append_assoc, List.append_assoc, List.append_assoc]
  exact ⟨_, (List.append_assoc _ _ _).symm⟩

/-- All the lines. -/
theorem lines_render (table : Char → Bool) (m : Collector F) : lines (m.render table) =
    countHeader.map bytesOf ++ ((sortedKeys m.counts).map (countLine table m) ++
      (durationSumHeader.map bytesOf ++ ((sortedKeys m.durationSum).map (durationSumLine table m) ++
        (durationCountHeader.map bytesOf ++ (sortedKeys m.durationSum).map (durationCountLine table m))))) ++ [[]] := by
  unfold Collector.render
  dsimp only
  rw [written_append, written_append, written_append, written_append, written_append]
  have header (ls : List String) (inside : ls ⊆ headers) : ∀ l ∈ ls.map bytesOf, 10 ∉ l := by
    intro l member
    obtain ⟨text, listed, rfl⟩ := List.mem_map.mp member
    exact newline_not_mem_header text (inside listed)
  have count : ∀ l ∈ (sortedKeys m.counts).map (countLine table m), 10 ∉ l := by
    intro l member
    obtain ⟨k, -, rfl⟩ := List.mem_map.mp member
    exact newline_not_mem_sample (newline_not_mem_countSeries _ _ _) (not_mem_itoa (by decide) _)
  have sum : ∀ l ∈ (sortedKeys m.durationSum).map (durationSumLine table m), 10 ∉ l := by
    intro l member
    obtain ⟨k, -, rfl⟩ := List.mem_map.mp member
    exact newline_not_mem_sample (newline_not_mem_durationSeries (newline_not_mem_name _ (by decide)) _ _) (F.oneLine _)
  have durations : ∀ l ∈ (sortedKeys m.durationSum).map (durationCountLine table m), 10 ∉ l := by
    intro l member
    obtain ⟨k, -, rfl⟩ := List.mem_map.mp member
    exact newline_not_mem_sample (newline_not_mem_durationSeries (newline_not_mem_name _ (by decide)) _ _)
      (not_mem_itoa (by decide) _)
  refine lines_written fun l member => ?_
  simp only [List.mem_append] at member
  rcases member with member | member | member | member | member | member
  · exact header countHeader (by decide) l member
  · exact count l member
  · exact header durationSumHeader (by decide) l member
  · exact sum l member
  · exact header durationCountHeader (by decide) l member
  · exact durations l member

theorem filter_headers {name : String} (known : name ∈ names) {ls : List String} (inside : ls ⊆ headers) :
    (ls.map bytesOf).filter (bytesOf (name ++ "\x7b")).isPrefixOf = [] := by
  refine List.filter_eq_nil_iff.mpr fun l member => ?_
  obtain ⟨text, listed, rfl⟩ := List.mem_map.mp member
  exact Bool.eq_false_iff.mp (header_isPrefixOf name known text (inside listed))

theorem filter_lines {name other : String} (left : name ∈ names) (right : other ∈ names) {ls : List Bytes}
    (all : ∀ l ∈ ls, ∃ rest, l = bytesOf (other ++ "\x7b") ++ rest) :
    ls.filter (bytesOf (name ++ "\x7b")).isPrefixOf = if name = other then ls else [] := by
  split
  · rename_i same
    refine List.filter_eq_self.mpr fun l member => ?_
    obtain ⟨rest, rfl⟩ := all l member
    rw [isPrefixOf_append rest name left other right]
    exact decide_eq_true same
  · rename_i different
    refine List.filter_eq_nil_iff.mpr fun l member => ?_
    obtain ⟨rest, rfl⟩ := all l member
    rw [isPrefixOf_append rest name left other right, decide_eq_false different]
    exact Bool.false_ne_true

/-- The lines of one of the names. -/
theorem samples_render (table : Char → Bool) (m : Collector F) {name : String} (known : name ∈ names) :
    samples name (m.render table) =
      (if name = "http_requests_total" then (sortedKeys m.counts).map (countLine table m) else []) ++
        ((if name = "http_request_duration_seconds_sum" then (sortedKeys m.durationSum).map (durationSumLine table m) else []) ++
          (if name = "http_request_duration_seconds_count" then (sortedKeys m.durationSum).map (durationCountLine table m) else [])) := by
  have last : [[]].filter (bytesOf (name ++ "\x7b")).isPrefixOf = [] := by
    have all : ∀ name ∈ names, [[]].filter (bytesOf (name ++ "\x7b")).isPrefixOf = [] := by decide
    exact all name known
  have count : ∀ l ∈ (sortedKeys m.counts).map (countLine table m), ∃ rest, l = bytesOf ("http_requests_total" ++ "\x7b") ++ rest := by
    intro l member
    obtain ⟨k, -, rfl⟩ := List.mem_map.mp member
    exact countLine_eq table m k
  have sum : ∀ l ∈ (sortedKeys m.durationSum).map (durationSumLine table m),
      ∃ rest, l = bytesOf ("http_request_duration_seconds_sum" ++ "\x7b") ++ rest := by
    intro l member
    obtain ⟨k, -, rfl⟩ := List.mem_map.mp member
    exact durationLine_eq table _ _ _ _
  have durations : ∀ l ∈ (sortedKeys m.durationSum).map (durationCountLine table m),
      ∃ rest, l = bytesOf ("http_request_duration_seconds_count" ++ "\x7b") ++ rest := by
    intro l member
    obtain ⟨k, -, rfl⟩ := List.mem_map.mp member
    exact durationLine_eq table _ _ _ _
  unfold samples
  rw [lines_render, List.filter_append, last, List.append_nil, List.filter_append, List.filter_append, List.filter_append,
    List.filter_append, List.filter_append, filter_headers known (by decide), filter_headers known (by decide),
    filter_headers known (by decide), filter_lines known (by decide) count, filter_lines known (by decide) sum,
    filter_lines known (by decide) durations]
  rfl

/-! ### What has been recorded -/

/-- The metrics after some calls. -/
def recorded (F : Seconds) (calls : List Call) : Collector F := calls.foldl Collector.record (newMetricsCollector F)

variable {calls : List Call}

theorem recorded_counts : (recorded F calls).counts = calls.foldl (accumulate Call.countKey increment 0) ∅ :=
  (List.foldl_hom Collector.counts fun _ _ => rfl).symm

theorem recorded_durationSum :
    (recorded F calls).durationSum = calls.foldl (accumulate Call.durationKey (fun s c => F.add s c.dur) F.zero) ∅ :=
  (List.foldl_hom Collector.durationSum fun _ _ => rfl).symm

theorem recorded_durationCount : (recorded F calls).durationCount = calls.foldl (accumulate Call.durationKey increment 0) ∅ :=
  (List.foldl_hom Collector.durationCount fun _ _ => rfl).symm

/-- A number as an int64 holds it. -/
def wrapped (n : Int) : Int := n.bmod (2 ^ 64)

def counted (n : Nat) : Int := wrapped n

theorem counted_of_lt {n : Nat} (small : n < 2 ^ 63) : counted n = n := by
  unfold counted wrapped
  exact Int.bmod_eq_of_le (by omega) (by omega)

theorem foldl_increment (xs : List Call) (n : Int64) : xs.foldl increment n = n + Int64.ofNat xs.length := by
  induction xs generalizing n with
  | nil => exact (Int64.add_zero n).symm
  | cons x xs ih => rw [List.foldl_cons, ih, List.length_cons, Nat.add_comm, Int64.ofNat_add, ← Int64.add_assoc]; rfl

/-- How many of the calls have a label. -/
def number {κ : Type} [DecidableEq κ] (calls : List Call) (label : Call → κ) (k : κ) : Nat := calls.countP fun c => label c = k

theorem number_le {κ : Type} [DecidableEq κ] (label : Call → κ) (k : κ) : number calls label k ≤ calls.length := List.countP_le_length

/-- What `m[k]++` has made of a map. -/
theorem toInt_incremented {κ : Type} [DecidableEq κ] (key : Call → κ) (k : κ) :
    (((calls.foldl (accumulate key increment 0) ∅).lookup k).getD 0).toInt = counted (number calls key k) := by
  rw [lookup_accumulated, foldl_increment, AList.lookup_empty, Option.getD_none, Int64.zero_add, Int64.toInt_ofNat',
    number, List.countP_eq_length_filter]
  rfl

/-- The lines of a map, whose keys stand for labels. -/
theorem lines_dedup {κ : Type} [DecidableEq κ] {key : Call → Bytes} {label : Call → κ} {line : Bytes → Bytes} {line' : κ → Bytes}
    (inj : ∀ c ∈ calls, ∀ d ∈ calls, key c = key d ↔ label c = label d) (agree : ∀ c ∈ calls, line (key c) = line' (label c)) :
    (calls.map key).dedup.map line = (calls.map label).dedup.map line' := by
  induction calls with
  | nil => rfl
  | cons c calls ih =>
    have rest := ih (fun c left d right => inj c (.tail _ left) d (.tail _ right)) fun c member => agree c (.tail _ member)
    have again : key c ∈ calls.map key ↔ label c ∈ calls.map label := by
      simp only [List.mem_map]
      exact exists_congr fun d => and_congr_right fun member => inj d (.tail _ member) c (.head _)
    rw [List.map_cons, List.map_cons]
    by_cases member : key c ∈ calls.map key
    · rw [List.dedup_cons_of_mem member, List.dedup_cons_of_mem (again.mp member), rest]
    · rw [List.dedup_cons_of_notMem member, List.dedup_cons_of_notMem (mt again.mpr member), List.map_cons, List.map_cons, rest,
        agree c (.head _)]

/-- The keys of a map are those of the calls. -/
theorem sortedKeys_perm {α : Type} {key : Call → Bytes} {add : α → Call → α} {zero : α} {m : AList fun _ : Bytes => α}
    (same : m = calls.foldl (accumulate key add zero) ∅) : (sortedKeys m).Perm (calls.map key).dedup := by
  refine (sortBy_perm _ m.keys).trans ((List.perm_ext_iff_of_nodup m.keys_nodup (List.nodup_dedup _)).mpr fun k => ?_)
  rw [same, mem_accumulated, List.mem_dedup]
  simp

/-! ### The result -/

/-- A series of requests, as it is written. -/
def requestLabels (table : Char → Bool) (s : Bytes × Bytes × Int) : Bytes := countSeries table s.1 s.2.1 (itoa s.2.2)

/-- A series of durations, as it is written. -/
def durationLabels (table : Char → Bool) (name : String) (p : Bytes × Bytes) : Bytes := durationSeries table name p.1 p.2

/-- The seconds that the calls of a series have taken. -/
def taken (F : Seconds) (calls : List Call) (p : Bytes × Bytes) : F.Sum :=
  (calls.filter fun c => pair c = p).foldl (fun s c => F.add s c.dur) F.zero

/-- The text has one line for each series, the values of the counters are the
    numbers of the calls, as `value` holds them, and the requests of all statuses
    are the requests. -/
structure AddsUp (F : Seconds) (table : Char → Bool) (value : Nat → Int) (wrap : Int → Int) (calls : List Call) (text : Bytes) :
    Prop where
  requests : (samples "http_requests_total" text).Perm
    ((calls.map series).dedup.map fun s => sample (requestLabels table s) (itoa (value (number calls series s))))
  sums : (samples "http_request_duration_seconds_sum" text).Perm ((calls.map pair).dedup.map fun p =>
    sample (durationLabels table "http_request_duration_seconds_sum" p) (F.format (taken F calls p)))
  counts : (samples "http_request_duration_seconds_count" text).Perm ((calls.map pair).dedup.map fun p =>
    sample (durationLabels table "http_request_duration_seconds_count" p) (itoa (value (number calls pair p))))
  total : ∀ p, wrap (((calls.map series).dedup.filter fun s => (s.1, s.2.1) = p).map fun s => value (number calls series s)).sum =
    value (number calls pair p)
  distinct : (∀ s s', requestLabels table s = requestLabels table s' → s = s') ∧
    ∀ name p p', durationLabels table name p = durationLabels table name p' → p = p'

theorem requestLabels_inj {s s' : Bytes × Bytes × Int} (same : requestLabels table s = requestLabels table s') : s = s' := by
  obtain ⟨method, pattern, status⟩ := countSeries_inj same
  exact Prod.ext method (Prod.ext pattern (itoa_inj status))

theorem durationLabels_inj {name : String} {p p' : Bytes × Bytes} (same : durationLabels table name p = durationLabels table name p') :
    p = p' := by
  obtain ⟨method, pattern⟩ := durationSeries_inj same
  exact Prod.ext method pattern

theorem number_key {κ : Type} [DecidableEq κ] {key : Call → Bytes} {label : Call → κ}
    (inj : ∀ c ∈ calls, ∀ d ∈ calls, key c = key d ↔ label c = label d) {c : Call} (member : c ∈ calls) :
    number calls key (key c) = number calls label (label c) :=
  List.countP_congr fun d listed => by simpa using inj d listed c member

theorem samples_requests (free : ∀ c ∈ calls, NulFree c) :
    (samples "http_requests_total" ((recorded F calls).render table)).Perm
      ((calls.map series).dedup.map fun s => sample (requestLabels table s) (itoa (counted (number calls series s)))) := by
  have inj (c : Call) (left : c ∈ calls) (d : Call) (right : d ∈ calls) : c.countKey = d.countKey ↔ series c = series d :=
    countKey_inj (free c left) (free d right)
  rw [samples_render table _ (by decide)]
  rw [if_pos rfl, if_neg (by decide), if_neg (by decide), List.append_nil, List.append_nil]
  refine ((sortedKeys_perm recorded_counts).map _).trans (.of_eq (lines_dedup inj fun c member => ?_))
  unfold countLine
  rw [splitN_countKey (free c member), recorded_counts, toInt_incremented, number_key inj member]
  rfl

theorem samples_sums (free : ∀ c ∈ calls, NulFree c) :
    (samples "http_request_duration_seconds_sum" ((recorded F calls).render table)).Perm ((calls.map pair).dedup.map fun p =>
      sample (durationLabels table "http_request_duration_seconds_sum" p) (F.format (taken F calls p))) := by
  have inj (c : Call) (left : c ∈ calls) (d : Call) (right : d ∈ calls) : c.durationKey = d.durationKey ↔ pair c = pair d :=
    durationKey_inj (free c left) (free d right)
  rw [samples_render table _ (by decide)]
  rw [if_neg (by decide), if_pos rfl, if_neg (by decide), List.nil_append, List.append_nil]
  refine ((sortedKeys_perm recorded_durationSum).map _).trans (.of_eq (lines_dedup inj fun c member => ?_))
  have same : calls.filter (fun d => d.durationKey = c.durationKey) = calls.filter fun d => pair d = pair c :=
    List.filter_congr fun d listed => decide_eq_decide.mpr (inj d listed c member)
  unfold durationSumLine
  rw [splitN_durationKey (free c member), recorded_durationSum, lookup_accumulated, same]
  rfl

theorem samples_durations (free : ∀ c ∈ calls, NulFree c) :
    (samples "http_request_duration_seconds_count" ((recorded F calls).render table)).Perm ((calls.map pair).dedup.map fun p =>
      sample (durationLabels table "http_request_duration_seconds_count" p) (itoa (counted (number calls pair p)))) := by
  have inj (c : Call) (left : c ∈ calls) (d : Call) (right : d ∈ calls) : c.durationKey = d.durationKey ↔ pair c = pair d :=
    durationKey_inj (free c left) (free d right)
  rw [samples_render table _ (by decide)]
  rw [if_neg (by decide), if_neg (by decide), if_pos rfl, List.nil_append, List.nil_append]
  refine ((sortedKeys_perm recorded_durationSum).map _).trans (.of_eq (lines_dedup inj fun c member => ?_))
  unfold durationCountLine
  rw [splitN_durationKey (free c member), recorded_durationCount, toInt_incremented, number_key inj member]
  rfl

theorem counted_sum (ns : List Nat) : wrapped (ns.map counted).sum = counted ns.sum := by
  induction ns with
  | nil => rfl
  | cons n ns ih =>
    have rest : wrapped (counted n + (ns.map counted).sum) = wrapped (counted n + wrapped (ns.map counted).sum) :=
      Int.add_bmod_bmod.symm
    rw [List.map_cons, List.sum_cons, List.sum_cons, rest, ih]
    unfold counted wrapped
    rw [Int.bmod_add_bmod, Int.add_bmod_bmod, Nat.cast_add]

theorem count_map {κ : Type} [DecidableEq κ] (label : Call → κ) (k : κ) :
    @List.count κ instBEqOfDecidableEq k (calls.map label) = number calls label k := by
  rw [List.count, List.countP_map]
  rfl

/-- The requests of a method and a pattern, status by status. -/
theorem sum_number_series (calls : List Call) (p : Bytes × Bytes) :
    (((calls.map series).dedup.filter fun s => (s.1, s.2.1) = p).map (number calls series)).sum = number calls pair p := by
  have sum := List.sum_map_count_dedup_filter_eq_countP (fun s : Bytes × Bytes × Int => (s.1, s.2.1) = p) (calls.map series)
  simp only [count_map, List.countP_map] at sum
  exact sum

theorem cast_sum (ns : List Nat) : (ns.map fun n : Nat => (n : Int)).sum = ns.sum := by
  induction ns with
  | nil => rfl
  | cons n ns ih => rw [List.map_cons, List.sum_cons, List.sum_cons, ih, Nat.cast_add]

/-- The metrics add up, in the arithmetic of an int64; in that of the integers as
    long as there have been fewer than 2^63 calls. -/
theorem metrics_add_up {F : Seconds} {table : Char → Bool} {calls : List Call} (free : ∀ c ∈ calls, NulFree c) :
    AddsUp F table counted wrapped calls ((recorded F calls).render table) ∧
      (calls.length < 2 ^ 63 → AddsUp F table Nat.cast id calls ((recorded F calls).render table)) := by
  refine ⟨⟨samples_requests free, samples_sums free, samples_durations free, fun p => ?_, fun s s' => requestLabels_inj,
    fun name p p' => durationLabels_inj⟩, fun few => ⟨?_, samples_sums free, ?_, fun p => ?_, fun s s' => requestLabels_inj,
    fun name p p' => durationLabels_inj⟩⟩
  · have sum := counted_sum (((calls.map series).dedup.filter fun s => (s.1, s.2.1) = p).map (number calls series))
    rw [sum_number_series, List.map_map, Function.comp_def] at sum
    exact sum
  · refine (samples_requests free).trans (.of_eq (List.map_congr_left fun s _ => ?_))
    rw [counted_of_lt ((number_le _ _).trans_lt few)]
  · refine (samples_durations free).trans (.of_eq (List.map_congr_left fun p _ => ?_))
    rw [counted_of_lt ((number_le _ _).trans_lt few)]
  · have sum := cast_sum (((calls.map series).dedup.filter fun s => (s.1, s.2.1) = p).map (number calls series))
    rw [sum_number_series, List.map_map, Function.comp_def] at sum
    exact sum

/-- Seconds counted exactly in nanoseconds, and written to the microsecond. -/
def nanoseconds : Seconds where
  Sum := Int
  zero := 0
  add := (· + ·)
  format s := itoa (s / 1000000000) ++ 46 :: (FixedWidth.digits 6 (s % 1000000000 / 1000).toNat).flatMap String.utf8EncodeChar
  oneLine s := by
    have digits : (10 : UInt8) ∉ (FixedWidth.digits 6 (s % 1000000000 / 1000).toNat).flatMap String.utf8EncodeChar := by
      intro member
      obtain ⟨c, listed, encoded⟩ := List.mem_flatMap.mp member
      have digit := FixedWidth.digits_isDigit c listed
      have newline : c = '\n' := Char.toNat_inj.mp (mem_utf8EncodeChar encoded (by decide))
      rw [newline] at digit
      cases digit
    simp [digits, not_mem_itoa]

/-- Two requests for one pattern, and one for the same method and another pattern. -/
theorem metrics_add_up_three :
    let get (pattern : String) (status : Int) : Call := ⟨bytesOf "GET", bytesOf pattern, status, 500000000⟩
    let calls := [get "/items/\x7bid\x7d" 200, get "/items/\x7bid\x7d" 404, get "/health" 200]
    AddsUp nanoseconds (fun _ => false) counted wrapped calls ((recorded nanoseconds calls).render fun _ => false) ∧
      (calls.length < 2 ^ 63 → AddsUp nanoseconds (fun _ => false) Nat.cast id calls ((recorded nanoseconds calls).render fun _ => false)) :=
  metrics_add_up (by unfold NulFree; decide)

/-- A counter that has been incremented once too often. -/
theorem metrics_wrap :
    ¬ ∀ (F : Seconds) (table : Char → Bool) (calls : List Call), (∀ c ∈ calls, NulFree c) →
      AddsUp F table Nat.cast id calls ((recorded F calls).render table) := by
  intro all
  have held (c : Call) (free : NulFree c) (n : Nat) : counted (n + 1) = (n + 1 : Nat) := by
    have frees : ∀ d ∈ List.replicate (n + 1) c, NulFree d := fun d member => List.eq_of_mem_replicate member ▸ free
    have lines := (samples_requests frees).symm.trans (all nanoseconds (fun _ => false) _ frees).requests
    have times : number (List.replicate (n + 1) c) series (series c) = n + 1 := by
      simp [number, List.countP_replicate]
    rw [List.map_replicate, List.replicate_dedup (Nat.succ_ne_zero n), List.map_singleton, List.map_singleton, times,
      List.singleton_perm_singleton] at lines
    exact itoa_inj (List.append_cancel_left (List.append_cancel_left lines))
  exact absurd (held ⟨[], [], 0, 0⟩ ⟨List.not_mem_nil, List.not_mem_nil⟩ (2 ^ 63 - 1)) (by decide)

end Microserver.MetricLines
