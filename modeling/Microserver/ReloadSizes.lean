import Mathlib.Algebra.Order.BigOperators.Group.List
import Mathlib.Data.List.Infix
import Microserver.Reloads
import Microserver.Spellings

/-!
How large the batches of an export are. Every item was accepted in a body of at
most 1 MiB, but its export can be longer than that body was, and up to a hundred
of them go into one body of a reload.
-/
namespace Microserver.ReloadSizes
open Microserver.Values Microserver.Store Microserver.Programs Microserver.Statements Microserver.Operations
open Microserver.Handlers Microserver.Requests Microserver.Schema Microserver.Items Microserver.Histories Microserver.Reachable
open Microserver.Evaluations Microserver.BulkInserts Microserver.Exports Microserver.Reloads Microserver.Spellings

/-! ### Bodies -/

/-- A text up to the end of its value, which is what a decoder reads of it. -/
def upToEnd : Spelled → List Char
  | .spaced before text _ => before.map Space.char ++ upToEnd text
  | text => text.render

/-- A body as decodeJSON finds it behind limitBodySize. -/
def receive (float : String → Double) (body : Spelled) : RequestBody :=
  if maxRequestBodyBytes < bytes (upToEnd body) then .tooLarge else .json (body.value float)

/-- The name of a field of a struct. -/
def key (name : String) : Key := ⟨[], name.toList.map quoteChar, []⟩

/-- A document of a listing as encoding/json writes it. `spelled` is the text that is
    stored for the data of an id. -/
def exported (spelled : Int → Spelled) (d : Document) : Spelled :=
  .obj [] ([(key "id", .int d.id)] ++ (if d.text = "" then [] else [(key "text", .str (d.text.toList.map quoteChar))]) ++
    [(key "data", (spelled d.id).compact)])

/-- The length of a string without its quotes. -/
def quotedBytes (text : String) : Nat := (text.toList.map fun c => bytes (quoteChar c).render).sum

/-- The length of an exported document: its names and punctuation, id, text and data. -/
def exportedBytes (spelled : Int → Spelled) (d : Document) : Nat :=
  15 + bytes (toString d.id).toList + (if d.text = "" then 0 else 10 + quotedBytes d.text) + bytes (spelled d.id).compact.render

/-- The length of a batch. -/
def batchBytes (spelled : Int → Spelled) (batch : List Document) : Nat :=
  (batch.map fun d => exportedBytes spelled d + 1).sum + 1

/-- POST .../items/bulk with the batch as its body. -/
def post (float : String → Double) (coll : Collection) (batch : List Spelled) : Op Reply :=
  handleBulkInsertDocument coll.name (decodeJSON (decodeSlice decodeDocumentRequest) (receive float (.arr [] batch)))

/-- The batches are accepted one after the other. -/
def Accepts (h : Host) (float : String → Double) (coll : Collection) : List (List Spelled) → DB → Prop
  | [], _ => True
  | batch :: rest, s => ∃ reply s', (machine h).eval (post float coll batch) s = (.ok reply, s') ∧ reply.status = 201 ∧
      Accepts h float coll rest s'

variable {h : Host} {float : String → Double} {spelled : Int → Spelled} {coll : Collection} {s : DB} {docs batch : List Document}
  {d : Document}

/-! ### Lengths -/

theorem bytes_exported (spelled : Int → Spelled) (d : Document) : bytes (exported spelled d).render = exportedBytes spelled d := by
  have names : bytes (renderKey (key "id")) = 5 ∧ bytes (renderKey (key "text")) = 7 ∧ bytes (renderKey (key "data")) = 7 := by
    decide
  have text : bytes (renderString (d.text.toList.map quoteChar)) = quotedBytes d.text + 2 := by
    rw [bytes_renderString, List.map_map]
    rfl
  unfold exported exportedBytes
  rw [bytes_obj (by simp)]
  by_cases empty : d.text = ""
  · simp [empty, names, Spelled.render]
    omega
  · simp [empty, names, Spelled.render, text]
    omega

theorem bytes_batch (nonempty : batch ≠ []) : bytes (upToEnd (.arr [] (batch.map (exported spelled)))) = batchBytes spelled batch := by
  have items : batch.map (exported spelled) ≠ [] := by simpa using nonempty
  show bytes (Spelled.arr [] (batch.map (exported spelled))).render = _
  rw [bytes_arr items, List.map_map]
  simp only [Function.comp_def, bytes_exported]
  rfl

theorem value_exported (stored : (spelled d.id).value float = d.data) (listed : d.distance = none) :
    (exported spelled d).value float = encodeDocument d := by
  have name (field : String) : String.ofList (chars (key field).pieces) = field := by
    rw [key, chars_quote, String.ofList_toList]
  unfold exported encodeDocument
  by_cases empty : d.text = ""
  · simp [empty, listed, stored, Spelled.value, Spelled.fieldValues, Spelled.value_compact, name]
  · simp [empty, listed, stored, Spelled.value, Spelled.fieldValues, Spelled.value_compact, name, chars_quote]

theorem receive_batch (stored : ∀ d ∈ batch, (spelled d.id).value float = d.data) (listed : ∀ d ∈ batch, d.distance = none)
    (nonempty : batch ≠ []) : receive float (.arr [] (batch.map (exported spelled))) =
      if maxRequestBodyBytes < batchBytes spelled batch then .tooLarge else .json (.arr (batch.map encodeDocument)) := by
  have values : (Spelled.arr [] (batch.map (exported spelled))).value float = .arr (batch.map encodeDocument) := by
    rw [Spelled.value, Spelled.values_eq_map, List.map_map]
    exact congrArg Json.arr (List.map_congr_left fun d member => value_exported (stored d member) (listed d member))
  rw [receive, bytes_batch nonempty, values]

/-! ### One batch -/

theorem decodeJSON_refused {α : Type} {decode : Json → Option α} {body : RequestBody} {reply : Reply}
    (refused : decodeJSON decode body = .error reply) : reply.status ≠ 201 := by
  cases body with
  | tooLarge =>
    cases refused
    decide
  | malformed =>
    cases refused
    decide
  | json value =>
    unfold decodeJSON at refused
    by_cases deep : maxNestingDepth < value.depth
    · simp only [if_pos deep] at refused
      cases refused
      decide
    · simp only [if_neg deep] at refused
      cases decoded : decode value with
      | none =>
        rw [decoded] at refused
        cases refused
        decide
      | some req => simp [decoded] at refused

/-- A batch that is not decoded is not accepted, whatever the collection holds. -/
theorem post_refused {items : List Spelled} {reply reply' : Reply} {s' : DB}
    (refused : decodeJSON (decodeSlice decodeDocumentRequest) (receive float (.arr [] items)) = .error reply)
    (ran : (machine h).eval (post float coll items) s = (.ok reply', s')) : reply'.status ≠ 201 := by
  unfold post at ran
  rw [refused] at ran
  unfold handleBulkInsertDocument withCollection at ran
  rw [Prog.bind_eq, Machine.eval_bind, Machine.eval_attempt, eval_getCollection] at ran
  cases found : s.lookup coll.name with
  | none =>
    simp only [found, Option.elim_none] at ran
    cases ran
    decide
  | some c =>
    simp only [found, Option.elim_some, bulkInsertInto, withBody] at ran
    cases ran
    exact decodeJSON_refused refused

theorem firstWithoutText_none {reqs : List DocumentRequest} (i : Nat) (texts : ∀ req ∈ reqs, req.text ≠ "") :
    firstWithoutText i reqs = none := by
  induction reqs generalizing i with
  | nil => rfl
  | cons req rest ih =>
    obtain ⟨first, others⟩ := List.forall_mem_cons.mp texts
    rw [firstWithoutText, if_neg first, ih (i + 1) others]

theorem eval_bulkInsert {reqs : List DocumentRequest} {ids : List Int} {s' : DB} (registered : s.lookup coll.name = some coll)
    (nonempty : reqs ≠ []) (few : reqs.length ≤ bulkMaxItems) (texts : coll.hasVector = true → ∀ req ∈ reqs, req.text ≠ "")
    (inserted : (machine h).eval (insertDocumentBulk coll (reqs.map fun req => ⟨req.id, req.text, req.data⟩)) s = (.ok ids, s')) :
    (machine h).eval (handleBulkInsertDocument coll.name (.ok reqs)) s = (.ok ⟨201, .ids ids⟩, s') := by
  have number : ¬ reqs.length = 0 := by simpa using nonempty
  have textual : (if coll.hasVector then firstWithoutText 0 reqs else none) = none := by
    cases vector : coll.hasVector with
    | false => rfl
    | true => exact firstWithoutText_none 0 (texts vector)
  unfold handleBulkInsertDocument withCollection
  rw [Prog.bind_eq, Machine.eval_bind, Machine.eval_attempt, eval_getCollection, registered]
  simp only [Option.elim_some, bulkInsertInto, withBody, if_neg number, if_neg (not_lt.mpr few), textual, answer]
  rw [Prog.bind_eq, Machine.eval_bind, Machine.eval_attempt, inserted]
  rfl

/-- A document of an export as the collection accepts it, with the text of its data. -/
structure Reloadable (h : Host) (float : String → Double) (spelled : Int → Spelled) (coll : Collection) (d : Document) : Prop where
  accepted : Accepted h coll d
  text : coll.hasVector = true → d.text ≠ ""
  stored : (spelled d.id).value float = d.data

theorem receive_reloadable (each : ∀ d ∈ batch, Reloadable h float spelled coll d) (nonempty : batch ≠ []) :
    receive float (.arr [] (batch.map (exported spelled))) =
      if maxRequestBodyBytes < batchBytes spelled batch then .tooLarge else .json (.arr (batch.map encodeDocument)) :=
  receive_batch (fun d member => (each d member).stored) (fun d member => (each d member).accepted.1) nonempty

/-- A batch of documents that fit, and together fit into a body, is accepted. -/
theorem post_holds (holds : Holds coll s docs) (registered : s.lookup coll.name = some coll)
    (each : ∀ d ∈ batch, Reloadable h float spelled coll d) (distinct : ((docs ++ batch).map (·.id)).Nodup)
    (nonempty : batch ≠ []) (few : batch.length ≤ bulkMaxItems) (fits : ∀ d ∈ batch, Fits d)
    (small : batchBytes spelled batch ≤ maxRequestBodyBytes) :
    ∃ ids s', (machine h).eval (post float coll (batch.map (exported spelled))) s = (.ok ⟨201, .ids ids⟩, s') ∧
      Holds coll s' (docs ++ batch) ∧ s'.lookup coll.name = some coll := by
  obtain ⟨ids, s', inserted, holds'⟩ := eval_insertDocumentBulk_holds holds (fun d member => (each d member).accepted) distinct
  have decoded : decodeJSON (decodeSlice decodeDocumentRequest) (receive float (.arr [] (batch.map (exported spelled)))) =
      .ok (batch.map request) := by
    rw [receive_reloadable each nonempty, if_neg (not_lt.mpr small)]
    rcases decode_batch batch with ⟨-, decoded⟩ | ⟨deep, -⟩
    · exact decoded
    · exact absurd fits deep
  have schema : SameSchema s s' := by
    obtain ⟨ps, -, written⟩ := eval_insertDocumentBulk_ok_iff.mp inserted
    exact exec_sameSchema (h := h) (c := .insertDocumentBulk coll ps) trivial written
  refine ⟨ids, s', ?_, holds', (schema.lookup coll.name).trans registered⟩
  unfold post
  rw [decoded]
  refine eval_bulkInsert registered (by simpa using nonempty) (by simpa using few) (fun vector => ?_) inserted
  exact List.forall_mem_map.mpr fun d member => (each d member).text vector

/-- A batch with a document that does not fit, or that is too large, is not accepted. -/
theorem post_not_accepted (each : ∀ d ∈ batch, Reloadable h float spelled coll d) (nonempty : batch ≠ [])
    (wrong : ¬ ((∀ d ∈ batch, Fits d) ∧ batchBytes spelled batch ≤ maxRequestBodyBytes)) {reply : Reply} {s' : DB}
    (ran : (machine h).eval (post float coll (batch.map (exported spelled))) s = (.ok reply, s')) : reply.status ≠ 201 := by
  have body := receive_reloadable each nonempty
  by_cases large : maxRequestBodyBytes < batchBytes spelled batch
  · rw [if_pos large] at body
    exact post_refused (by rw [body]; rfl) ran
  · rw [if_neg large] at body
    rcases decode_batch batch with ⟨fits, -⟩ | ⟨-, reply', refused⟩
    · exact absurd ⟨fits, not_lt.mp large⟩ wrong
    · exact post_refused (by rw [body]; exact refused) ran

/-! ### All batches -/

/-- Batches of documents that fit are accepted one after the other exactly when each
    of them fits into a body. -/
theorem accepts_iff {batches : List (List Document)} (holds : Holds coll s docs) (registered : s.lookup coll.name = some coll)
    (each : ∀ d ∈ batches.flatten, Reloadable h float spelled coll d) (distinct : ((docs ++ batches.flatten).map (·.id)).Nodup)
    (sizes : ∀ batch ∈ batches, batch ≠ [] ∧ batch.length ≤ bulkMaxItems) :
    Accepts h float coll (batches.map (·.map (exported spelled))) s ↔
      ∀ batch ∈ batches, (∀ d ∈ batch, Fits d) ∧ batchBytes spelled batch ≤ maxRequestBodyBytes := by
  induction batches generalizing s docs with
  | nil => exact iff_of_true trivial nofun
  | cons batch rest ih =>
    rw [List.flatten_cons, List.forall_mem_append] at each
    rw [List.flatten_cons, ← List.append_assoc] at distinct
    obtain ⟨⟨nonempty, few⟩, others⟩ := List.forall_mem_cons.mp sizes
    have first : ((docs ++ batch).map (·.id)).Nodup := by
      rw [List.map_append] at distinct
      exact (List.nodup_append.mp distinct).1
    rw [List.forall_mem_cons, List.map_cons]
    constructor
    · rintro ⟨reply, s', ran, created, more⟩
      have right : (∀ d ∈ batch, Fits d) ∧ batchBytes spelled batch ≤ maxRequestBodyBytes := by
        by_contra wrong
        exact post_not_accepted each.1 nonempty wrong ran created
      obtain ⟨ids, s₁, ran', holds', registered'⟩ := post_holds holds registered each.1 first nonempty few right.1 right.2
      rw [ran] at ran'
      cases ran'
      exact ⟨right, (ih holds' registered' each.2 distinct others).mp more⟩
    · rintro ⟨⟨fits, small⟩, right⟩
      obtain ⟨ids, s₁, ran, holds', registered'⟩ := post_holds holds registered each.1 first nonempty few fits small
      exact ⟨_, s₁, ran, rfl, (ih holds' registered' each.2 distinct others).mpr right⟩

/-- The batches of all cuttings of a list are its runs. -/
theorem cuttings_iff {α : Type} {P : List α → Prop} {n : Nat} (positive : 1 ≤ n) (l : List α) :
    (∀ batches : List (List α), batches.flatten = l → (∀ batch ∈ batches, batch ≠ [] ∧ batch.length ≤ n) → ∀ batch ∈ batches, P batch) ↔
      ∀ run, run <:+: l → run ≠ [] → run.length ≤ n → P run := by
  have single (x : α) : [x] ≠ [] ∧ [x].length ≤ n := ⟨by simp, by simpa using positive⟩
  constructor
  · rintro all run ⟨before, after, whole⟩ nonempty few
    refine all (before.map (fun x => [x]) ++ run :: after.map fun x => [x]) ?_ ?_ run (by simp)
    · have alone (part : List α) : (part.map fun x => [x]).flatten = part :=
        (flatten_singletons (fun x => x) part).trans (List.map_id part)
      rw [List.flatten_append, List.flatten_cons, alone, alone, ← whole, List.append_assoc]
    · intro batch member
      rcases List.mem_append.mp member with front | back
      · obtain ⟨x, -, rfl⟩ := List.mem_map.mp front
        exact single x
      · rcases List.mem_cons.mp back with rfl | back
        · exact ⟨nonempty, few⟩
        · obtain ⟨x, -, rfl⟩ := List.mem_map.mp back
          exact single x
  · rintro all batches rfl sizes batch member
    exact all batch (List.infix_of_mem_flatten member) (sizes batch member).1 (sizes batch member).2

/-- The export of a collection comes to an end with all its items in ascending
    order, and every cutting of it into batches of at most 100 is accepted by an empty
    collection of the same kind exactly when every run of at most 100 documents fits
    into a body of 1 MiB and the data of every item leaves room for two levels more. -/
theorem reload_accepted_iff (h : Host) (float : String → Double) (s : DB) (sound : Sound s) (name : String) (coll : Collection)
    (found : s.lookup name = some coll)
    (texts : coll.hasVector = true → ∀ r ∈ items s coll.tableName,
      r.text ≠ "" ∧ ∃ vec, h.embed r.text = .ok vec ∧ (vec.length : Int) = coll.dimensions ∧ coll.dimensions % 8 = 0)
    (spelled : Int → Spelled) (stored : ∀ r ∈ items s coll.tableName, (spelled r.id).value float = r.data)
    (s' : DB) (target : Collection) (kind : target.hasVector = coll.hasVector ∧ target.dimensions = coll.dimensions)
    (registered : s'.lookup target.name = some target) (empty : Holds target s' []) :
    ∃ docs pages, handleExportDocuments h name pages s = some (.json 200 docs) ∧
      docs.Pairwise (fun a b => a.id < b.id) ∧ (∀ d, d ∈ docs ↔ ∃ r ∈ items s coll.tableName, d = document coll r) ∧
      ((∀ batches : List (List Spelled), batches.flatten = docs.map (exported spelled) →
          (∀ batch ∈ batches, batch ≠ [] ∧ batch.length ≤ bulkMaxItems) → Accepts h float target batches s') ↔
        (∀ run, run <:+: docs → run.length ≤ bulkMaxItems → batchBytes spelled run ≤ maxRequestBodyBytes) ∧
          ∀ r ∈ items s coll.tableName, r.data.depth + 2 ≤ maxNestingDepth) := by
  obtain ⟨t, docs, pages, docsTable, -, dumped, ascending, perm⟩ := export_ends h sound found
  have listed : ∀ d, d ∈ docs ↔ ∃ r ∈ items s coll.tableName, d = document coll r := mem_export_iff docsTable perm
  have distinct : (docs.map (·.id)).Nodup := List.pairwise_map.mpr (ascending.imp fun lt => ne_of_lt lt)
  have each : ∀ d ∈ docs, Reloadable h float spelled target d := by
    intro d member
    obtain ⟨r, there, rfl⟩ := (listed d).mp member
    refine ⟨accepted_document kind fun vector => (texts vector r there).2, fun vector => ?_, stored r there⟩
    rw [kind.1] at vector
    simpa [document, vector] using (texts vector r there).1
  refine ⟨docs, pages, dumped, ascending, listed, ?_⟩
  have runs : (∀ batches : List (List Spelled), batches.flatten = docs.map (exported spelled) →
        (∀ batch ∈ batches, batch ≠ [] ∧ batch.length ≤ bulkMaxItems) → Accepts h float target batches s') ↔
      ∀ run, run <:+: docs → run ≠ [] → run.length ≤ bulkMaxItems →
        (∀ d ∈ run, Fits d) ∧ batchBytes spelled run ≤ maxRequestBodyBytes := by
    rw [← cuttings_iff (by decide)]
    constructor
    · rintro all batches rfl sizes
      exact (accepts_iff empty registered each distinct sizes).mp
        (all _ (List.map_flatten ..).symm (by simpa using sizes))
    · intro all batches cut sizes
      obtain ⟨cuts, rfl, rfl⟩ := batches_of_flatten cut
      have sizes' : ∀ batch ∈ cuts, batch ≠ [] ∧ batch.length ≤ bulkMaxItems := by simpa using sizes
      exact (accepts_iff empty registered each distinct sizes').mpr (all cuts rfl sizes')
  rw [runs]
  constructor
  · intro all
    refine ⟨fun run part few => ?_, fun r there => ?_⟩
    · by_cases none : run = []
      · subst none
        show 1 ≤ maxRequestBodyBytes
        decide
      · exact (all run part none few).2
    · have member : document coll r ∈ docs := (listed _).mpr ⟨r, there, rfl⟩
      exact (all [document coll r] ((List.singleton_infix_iff _ _).mpr member) (by simp) (by simp [bulkMaxItems])).1 _
        (List.mem_singleton.mpr rfl)
  · rintro ⟨small, fits⟩ run part - few
    refine ⟨fun d member => ?_, small run part few⟩
    obtain ⟨r, there, rfl⟩ := (listed d).mp (part.subset member)
    exact fits r there

/-- The data of the item came in a body within the limit. -/
def Admitted (spelled : Int → Spelled) (r : Row) : Prop :=
  ∃ inside before k after, String.ofList (chars k.pieces) = "data" ∧
    bytes (upToEnd (.obj inside (before ++ (k, spelled r.id) :: after))) ≤ maxRequestBodyBytes

/-- The size of a batch does not depend on its order. -/
theorem batchBytes_perm {docs docs' : List Document} (perm : docs.Perm docs') : batchBytes spelled docs = batchBytes spelled docs' :=
  congrArg (· + 1) (perm.map _).sum_nat

/-- Of a batch that fits, every part fits. -/
theorem batchBytes_le {run : List Document} (part : run.Sublist docs) : batchBytes spelled run ≤ batchBytes spelled docs :=
  Nat.succ_le_succ ((part.map _).sum_le_sum fun _ _ => Nat.zero_le _)

/-- The spelling of the data of three items, the first with a blank before the number. -/
def threeSpellings : Int → Spelled
  | 1 => .obj [] [(key "n", .spaced [.blank] (.int 1) [])]
  | 2 => .bool true
  | _ => .null

/-- Three small items reload in two batches. -/
theorem reload_accepted_three : ∃ docs pages,
    handleExportDocuments Host.uniform "v" pages (threeItems (.bool true)) = some (.json 200 docs) ∧
      Accepts Host.uniform (fun _ => .posInf) ⟨"w", "coll_w", true, 8⟩
        ([docs.take 2, docs.drop 2].map (·.map (exported threeSpellings))) noVectors := by
  have texts : ∀ r ∈ items (threeItems (.bool true)) "coll_v",
      r.text ≠ "" ∧ ∃ vec, Host.uniform.embed r.text = .ok vec ∧ (vec.length : Int) = 8 ∧ (8 : Int) % 8 = 0 := by
    rw [items_threeItems]
    intro r there
    refine ⟨?_, List.replicate 8 0, rfl, by decide, by decide⟩
    simp only [List.mem_cons, List.not_mem_nil, or_false] at there
    rcases there with rfl | rfl | rfl <;> decide
  have stored : ∀ r ∈ items (threeItems (.bool true)) "coll_v", (threeSpellings r.id).value (fun _ => .posInf) = r.data := by
    rw [items_threeItems]
    intro r there
    simp only [List.mem_cons, List.not_mem_nil, or_false] at there
    rcases there with rfl | rfl | rfl <;> rfl
  obtain ⟨docs, pages, dumped, ascending, listed, iff⟩ := reload_accepted_iff Host.uniform (fun _ => .posInf)
    (threeItems (.bool true)) (threeItems_sound _) "v" ⟨"v", "coll_v", true, 8⟩ (threeItems_lookup _) (fun _ => texts)
    threeSpellings stored noVectors ⟨"w", "coll_w", true, 8⟩ ⟨rfl, rfl⟩ rfl holds_noVectors
  have three : docs.Perm [⟨1, "first", .obj [("n", .int 1)], none⟩, ⟨2, "second", .bool true, none⟩, ⟨3, "third", .null, none⟩] := by
    simp only [items_threeItems] at listed
    exact export_perm ascending listed (by simp [document])
  have number : docs.length = 3 := three.length_eq
  have small : batchBytes threeSpellings docs ≤ maxRequestBodyBytes := by
    rw [batchBytes_perm three]
    decide
  refine ⟨docs, pages, dumped, iff.mpr ⟨fun run part _ => (batchBytes_le part.sublist).trans small, ?_⟩ _ ?_ ?_⟩
  · rw [items_threeItems]
    simp [Json.depth, Json.depthFields, maxNestingDepth]
  · simp
  · intro batch member
    simp only [List.map_cons, List.map_nil, List.mem_cons, List.not_mem_nil, or_false] at member
    rcases member with rfl | rfl
    · exact ⟨List.ne_nil_of_length_pos (by simp [number]), by simp [bulkMaxItems]⟩
    · exact ⟨List.ne_nil_of_length_pos (by simp [number]), by simp [number, bulkMaxItems]⟩

/-- A string that repeats a character. -/
def repeated (c : Char) (legal : Unescaped c) (n : Nat) : Spelled := .str (List.replicate n (.plain c legal))

theorem bytes_repeated {c : Char} (legal : Unescaped c) (n : Nat) : bytes (repeated c legal n).render = n * c.utf8Size + 2 := by
  show bytes (renderString (List.replicate n (.plain c legal))) = _
  rw [bytes_renderString, List.map_replicate, List.sum_replicate_nat]
  rfl

theorem bytes_compact_repeated {c : Char} (legal : Unescaped c) (n : Nat) :
    bytes (repeated c legal n).compact.render = n * bytes (compactPiece (.plain c legal)).render + 2 := by
  show bytes (renderString ((List.replicate n (.plain c legal)).map compactPiece)) = _
  rw [bytes_renderString, List.map_replicate, List.map_replicate, List.sum_replicate_nat]

theorem exportedBytes_repeated {c : Char} (legal : Unescaped c) (n : Nat) (id : Int) (data : Json) :
    exportedBytes (fun _ => repeated c legal n) ⟨id, "", data, none⟩ =
      17 + bytes (toString id).toList + n * bytes (compactPiece (.plain c legal)).render := by
  show 15 + bytes (toString id).toList + (if "" = "" then 0 else 10 + quotedBytes "") + bytes (repeated c legal n).compact.render = _
  rw [bytes_compact_repeated, if_pos rfl]
  omega

/-- A body with nothing but data. -/
def dataBody (data : Spelled) : Spelled := .obj [] [(key "data", data)]

theorem bytes_dataBody (data : Spelled) : bytes (upToEnd (dataBody data)) = bytes data.render + 9 := by
  have name : bytes (renderKey (key "data")) = 7 := by decide
  show bytes (Spelled.obj [] [(key "data", data)]).render = _
  rw [bytes_obj (by simp)]
  simp [name]
  omega

theorem admitted_dataBody {spelled : Int → Spelled} {r : Row} (small : bytes (spelled r.id).render + 9 ≤ maxRequestBodyBytes) :
    Admitted spelled r := by
  refine ⟨[], [], key "data", [], ?_, ?_⟩
  · rw [key, chars_quote, String.ofList_toList]
  · exact (bytes_dataBody (spelled r.id)).trans_le small

/-- A collection "a" with two items that have this data. -/
def twoItems (data : Json) : DB :=
  reached Host.uniform [(.createCollection "a" false 0 ⟨[], List.nodup_nil⟩, []), (.insertDocument "a" none "" (some data), []),
    (.insertDocument "a" none "" (some data), [])]

theorem items_twoItems (data : Json) : items (twoItems data) "coll_a" = [⟨1, "", data, []⟩, ⟨2, "", data, []⟩] := rfl

theorem twoItems_sound (data : Json) : Sound (twoItems data) := (run_coherent Host.uniform _).sound

theorem twoItems_lookup (data : Json) : (twoItems data).lookup "a" = some ⟨"a", "coll_a", false, 0⟩ := rfl

/-- Two items that are too large for one batch do not reload together. -/
theorem twoItems_not_accepted {data : Spelled}
    (large : maxRequestBodyBytes < batchBytes (fun _ => data) [⟨1, "", data.value float, none⟩, ⟨2, "", data.value float, none⟩]) :
    ∃ docs pages, handleExportDocuments Host.uniform "a" pages (twoItems (data.value float)) = some (.json 200 docs) ∧ docs.length = 2 ∧
      ¬ Accepts Host.uniform float ⟨"a", "coll_a", false, 0⟩ [docs.map (exported fun _ => data)] noItem := by
  obtain ⟨t, docs, pages, docsTable, -, dumped, -, perm⟩ :=
    export_ends Host.uniform (twoItems_sound (data.value float)) (twoItems_lookup _)
  have rows : t.rows = [⟨1, "", data.value float, []⟩, ⟨2, "", data.value float, []⟩] := by
    rw [← items_of_docs docsTable]
    exact items_twoItems _
  rw [rows] at perm
  have each : ∀ d ∈ docs, Reloadable Host.uniform float (fun _ => data) ⟨"a", "coll_a", false, 0⟩ d := by
    intro d member
    obtain ⟨r, there, rfl⟩ := List.mem_map.mp (perm.mem_iff.mpr member)
    have same : r.data = data.value float := by
      simp only [List.mem_cons, List.not_mem_nil, or_false] at there
      rcases there with rfl | rfl <;> rfl
    exact ⟨accepted_document ⟨rfl, rfl⟩ nofun, nofun, same.symm⟩
  have number : docs.length = 2 := perm.length_eq.symm
  have nonempty : docs ≠ [] := List.ne_nil_of_length_pos (by omega)
  refine ⟨docs, pages, dumped, number, ?_⟩
  rintro ⟨reply, s', ran, created, -⟩
  refine post_not_accepted each nonempty (fun right => ?_) ran created
  rw [← batchBytes_perm perm] at right
  exact absurd right.2 (not_le.mpr large)

/-- Two items of 600000 letters are accepted one after the other, each in a body of
    600011 bytes, but no batch holds both; and an item of 200000 escaped characters
    fits into no batch at all. -/
theorem large_batch_refused :
    (∀ data : Json, (machine Host.uniform).eval (handleInsertDocument "a" (.ok ⟨none, "", some data⟩)) noItem =
        (.ok ⟨201, .id 1⟩, oneItem data) ∧
      (machine Host.uniform).eval (handleInsertDocument "a" (.ok ⟨none, "", some data⟩)) (oneItem data) =
        (.ok ⟨201, .id 2⟩, twoItems data)) ∧
    bytes (upToEnd (dataBody (repeated 'a' (by decide) 600000))) = 600011 ∧
    bytes (upToEnd (dataBody (repeated '<' (by decide) 200000))) = 200011 ∧
    maxRequestBodyBytes < exportedBytes (fun _ => repeated '<' (by decide) 200000) ⟨1, "", .null, none⟩ ∧
    ¬ ∀ (h : Host) (float : String → Double) (s : DB) (name : String) (coll : Collection), Sound s → s.lookup name = some coll →
      (coll.hasVector = true → ∀ r ∈ items s coll.tableName,
        r.text ≠ "" ∧ ∃ vec, h.embed r.text = .ok vec ∧ (vec.length : Int) = coll.dimensions ∧ coll.dimensions % 8 = 0) →
      ∀ spelled : Int → Spelled, (∀ r ∈ items s coll.tableName, (spelled r.id).value float = r.data) →
      (∀ r ∈ items s coll.tableName, Admitted spelled r) →
      ∀ (s' : DB) (target : Collection), target.hasVector = coll.hasVector ∧ target.dimensions = coll.dimensions →
      s'.lookup target.name = some target → Holds target s' [] →
      ∀ docs pages, handleExportDocuments h name pages s = some (.json 200 docs) →
      ∀ batches : List (List Spelled), batches.flatten = docs.map (exported spelled) →
        (∀ batch ∈ batches, batch ≠ [] ∧ batch.length ≤ bulkMaxItems) → Accepts h float target batches s' := by
  have letter : bytes (compactPiece (.plain 'a' (by decide))).render = 1 := by decide
  have escape : bytes (compactPiece (.plain '<' (by decide))).render = 6 := by decide
  have one : 'a'.utf8Size = 1 ∧ '<'.utf8Size = 1 := by decide
  have digit : bytes (toString (1 : Int)).toList = 1 ∧ bytes (toString (2 : Int)).toList = 1 := by decide
  refine ⟨fun data => ⟨rfl, rfl⟩, ?_, ?_, ?_, fun all => ?_⟩
  · rw [bytes_dataBody, bytes_repeated, one.1]
  · rw [bytes_dataBody, bytes_repeated, one.2]
  · rw [exportedBytes_repeated, escape, digit.1, maxRequestBodyBytes]
    omega
  · obtain ⟨long, spelling⟩ : ∃ long, long = repeated 'a' (by decide) 600000 := ⟨_, rfl⟩
    have size (id : Int) (data : Json) :
        exportedBytes (fun _ => long) ⟨id, "", data, none⟩ = 17 + bytes (toString id).toList + 600000 * 1 := by
      rw [spelling, exportedBytes_repeated, letter]
    have large : maxRequestBodyBytes <
        batchBytes (fun _ => long) [⟨1, "", long.value fun _ => .posInf, none⟩, ⟨2, "", long.value fun _ => .posInf, none⟩] := by
      simp only [batchBytes, List.map_cons, List.map_nil, List.sum_cons, List.sum_nil, size, digit, maxRequestBodyBytes]
      omega
    have admitted (r : Row) : Admitted (fun _ => long) r := by
      apply admitted_dataBody
      rw [spelling, bytes_repeated, one.1, maxRequestBodyBytes]
      omega
    obtain ⟨docs, pages, dumped, number, refused⟩ := twoItems_not_accepted large
    refine refused (all Host.uniform (fun _ => .posInf) _ "a" ⟨"a", "coll_a", false, 0⟩ (twoItems_sound _) (twoItems_lookup _) nofun
      (fun _ => long) ?_ (fun r _ => admitted r) noItem ⟨"a", "coll_a", false, 0⟩ ⟨rfl, rfl⟩ rfl holds_noItem docs pages dumped _
      (by simp) ?_)
    · rw [items_twoItems]
      simp
    · intro batch member
      rw [List.mem_singleton.mp member, List.length_map, number]
      exact ⟨fun none => by simp [List.map_eq_nil_iff.mp none] at number, by decide⟩

end Microserver.ReloadSizes
