import Microserver.BulkInserts
import Microserver.Exports

/-!
An export reloaded in batches. Every item becomes one JSON object, and a batch
of them is the body of a bulk insert. The array around the objects makes the
body one level deeper than that of a single insert, so the items that come back
are those whose data leaves room for two levels.
-/
namespace Microserver.Reloads
open Microserver.Values Microserver.Store Microserver.Programs Microserver.Statements Microserver.Operations
open Microserver.Handlers Microserver.Requests Microserver.Schema Microserver.Items Microserver.Reads Microserver.Ranking
open Microserver.Histories Microserver.Reachable Microserver.Evaluations Microserver.BulkInserts Microserver.Exports

/-! ### JSON -/

/-- A document as encoding/json writes it, without the empty fields. -/
def encodeDocument (d : Document) : Json :=
  .obj ([("id", .int d.id)] ++ (if d.text = "" then [] else [("text", .str d.text)]) ++ [("data", d.data)] ++
    match d.distance with
    | none => []
    | some x => [("distance", .real (.finite x))])

/-- What documentRequest takes from it. -/
def request (d : Document) : DocumentRequest := ⟨some d.id, d.text, some d.data⟩

theorem decodeDocumentRequest_encodeDocument (d : Document) : decodeDocumentRequest (encodeDocument d) = some (request d) := by
  have id : foldName "id" = "id" := by decide
  have text : foldName "text" = "text" := by decide
  have data : foldName "data" = "data" := by decide
  have distance : foldName "distance" = "distance" := by decide
  unfold encodeDocument decodeDocumentRequest decodeStruct request
  by_cases empty : d.text = ""
  · cases d.distance <;> simp [empty, id, data, distance, assignDocument, asString]
  · cases d.distance <;> simp [empty, id, text, data, distance, assignDocument, asString]

theorem decodeSlice_encodeDocument (docs : List Document) :
    decodeSlice decodeDocumentRequest (.arr (docs.map encodeDocument)) = some (docs.map request) := by
  unfold decodeSlice
  induction docs with
  | nil => rfl
  | cons d rest ih => simp_all [decodeDocumentRequest_encodeDocument]

theorem depth_encodeDocument (d : Document) : (encodeDocument d).depth = d.data.depth + 1 := by
  unfold encodeDocument
  by_cases empty : d.text = ""
  · cases d.distance <;> simp [empty, Json.depth, Json.depthFields]
  · cases d.distance <;> simp [empty, Json.depth, Json.depthFields]

theorem depthItems_le_iff {items : List Json} {n : Nat} : Json.depthItems items ≤ n ↔ ∀ x ∈ items, x.depth ≤ n := by
  induction items with
  | nil => simp [Json.depthItems]
  | cons x rest ih => simp [Json.depthItems, ih]

/-- The data of a document leaves room for an object and an array around it. -/
def Fits (d : Document) : Prop := d.data.depth + 2 ≤ maxNestingDepth

/-- A batch is decoded exactly when all its documents fit. -/
theorem decode_batch (docs : List Document) :
    (∀ d ∈ docs, Fits d) ∧
        decodeJSON (decodeSlice decodeDocumentRequest) (.json (.arr (docs.map encodeDocument))) = .ok (docs.map request) ∨
      (¬ ∀ d ∈ docs, Fits d) ∧
        ∃ reply, decodeJSON (decodeSlice decodeDocumentRequest) (.json (.arr (docs.map encodeDocument))) = .error reply := by
  have shallow : (Json.arr (docs.map encodeDocument)).depth ≤ maxNestingDepth ↔ ∀ d ∈ docs, Fits d := by
    have room : maxNestingDepth = maxNestingDepth - 1 + 1 := rfl
    rw [Json.depth, room, Nat.add_le_add_iff_right, depthItems_le_iff]
    simp only [List.forall_mem_map, depth_encodeDocument, Fits]
    refine forall₂_congr fun d _ => ?_
    omega
  unfold decodeJSON
  by_cases fits : ∀ d ∈ docs, Fits d
  · have room : ¬ maxNestingDepth < (Json.arr (docs.map encodeDocument)).depth := not_lt.mpr (shallow.mpr fits)
    simp only [if_neg room, decodeSlice_encodeDocument]
    exact .inl ⟨fits, trivial⟩
  · have deep : maxNestingDepth < (Json.arr (docs.map encodeDocument)).depth :=
      not_le.mp fun room => fits (shallow.mp room)
    simp only [if_pos deep]
    exact .inr ⟨fits, _, rfl⟩

/-! ### A collection and what it holds -/

/-- A collection without references that holds these items, in this order, each
    with its full-text row. -/
structure Holds (coll : Collection) (s : DB) (docs : List Document) : Prop where
  unreferenced : s.owned coll.name = []
  main : ∃ t, s.find coll.tableName = some t ∧ t.kind = mainKind coll ∧ t.rows.map (document coll) = docs
  fullText : coll.hasVector = true →
    ∃ t, s.find (ftsTableName coll.tableName) = some t ∧ t.kind = .fts5 ∧ t.rows.map (·.id) = docs.map (·.id)

/-- The insert handlers accept the text of the document for the collection. -/
def Accepted (h : Host) (coll : Collection) (d : Document) : Prop :=
  d.distance = none ∧ (coll.hasVector = false → d.text = "") ∧ (coll.hasVector = true →
    ∃ vec, h.embed d.text = .ok vec ∧ (vec.length : Int) = coll.dimensions ∧ coll.dimensions % 8 = 0)

section Load
variable {h : Host} {coll : Collection} {s : DB} {docs : List Document}

/-- A fresh id can be inserted into a table. -/
theorem insert_given {t : Table} {id : Int} (columns : Columns) (fresh : ∀ r ∈ t.rows, r.id ≠ id) :
    ∃ t', t.insert (some id) columns = .ok (id, t') ∧ t'.kind = t.kind ∧ t'.rows = t.rows ++ [columns.row id] := by
  have free : ¬ t.has id = true := fun taken => by
    obtain ⟨r, member, same⟩ := Table.has_iff.mp taken
    exact fresh r member same
  refine ⟨t.append id columns (Bool.eq_false_iff.mpr free), ?_, rfl, rfl⟩
  simp only [Table.insert, dif_neg free]

theorem insertRow_given_ok {table : String} {t : Table} {id : Int} {columns : Columns} (there : s.find table = some t)
    (fits : columns.fits t.kind = true) (fresh : ∀ r ∈ t.rows, r.id ≠ id) :
    ∃ t', s.insertRow table (some id) columns = .ok (id, s.set table t') ∧ t'.kind = t.kind ∧
      t'.rows = t.rows ++ [columns.row id] := by
  obtain ⟨t', inserted, kind, rows⟩ := insert_given columns fresh
  exact ⟨t', by simp [DB.insertRow, there, fits, inserted], kind, rows⟩

/-- The prepared form of an accepted document. -/
theorem prepares_of_accepted {s₀ : DB} (unreferenced : s₀.owned coll.name = []) {d : Document} (accepted : Accepted h coll d) :
    ∃ vec, Prepares h s₀ coll ⟨some d.id, d.text, some d.data⟩ ⟨some d.id, d.text, d.data, vec⟩ ∧
      (coll.hasVector = true → (vec.length : Int) = coll.dimensions ∧ coll.dimensions % 8 = 0) := by
  obtain ⟨-, -, embeds⟩ := accepted
  cases vector : coll.hasVector with
  | false => exact ⟨[], ⟨.inl unreferenced, [], by simp [vector], fun _ => rfl, rfl⟩, nofun⟩
  | true =>
    obtain ⟨vec, embedded, fits⟩ := embeds vector
    exact ⟨vec, ⟨.inl unreferenced, vec, fun _ => embedded, by simp [vector], rfl⟩, fun _ => fits⟩

/-- A prepared document goes into the table behind the others. -/
theorem insertPrepared_holds (holds : Holds coll s docs) {d : Document} {vec : Vector32}
    (accepted : Accepted h coll d)
    (fits : coll.hasVector = true → (vec.length : Int) = coll.dimensions ∧ coll.dimensions % 8 = 0)
    (fresh : d.id ∉ docs.map (·.id)) :
    ∃ s', insertPrepared coll ⟨some d.id, d.text, d.data, vec⟩ s = .ok (d.id, s') ∧ Holds coll s' (docs ++ [d]) := by
  obtain ⟨t, there, kind, rfl⟩ := holds.main
  obtain ⟨distance, plainText, -⟩ := accepted
  have freshRow : ∀ r ∈ t.rows, r.id ≠ d.id := fun r member same =>
    fresh (List.mem_map.mpr ⟨document coll r, List.mem_map_of_mem member, same⟩)
  have same (d' : Document) (id : d'.id = d.id) (text : d'.text = d.text) (data : d'.data = d.data)
      (none : d'.distance = .none) : d' = d := by
    cases d
    cases d'
    simp_all
  cases vector : coll.hasVector with
  | false =>
    have columns : (Columns.data d.data).fits t.kind = true := by simp [kind, mainKind, vector, Columns.fits]
    obtain ⟨t', inserted, kind', rows⟩ := insertRow_given_ok there columns freshRow
    refine ⟨s.set coll.tableName t', insertPrepared_ok_iff.mpr ⟨_, ?_, .inl ⟨vector, rfl⟩⟩, ⟨holds.unreferenced, ⟨t', ?_⟩, ?_⟩⟩
    · rw [vector]
      exact inserted
    · refine ⟨DB.find_set_same .., kind'.trans kind, ?_⟩
      rw [rows, List.map_append, List.map_singleton]
      congr 2
      exact same _ rfl (by simp [document, vector, plainText vector]) rfl rfl
    · intro impossible
      rw [vector] at impossible
      cases impossible
  | true =>
    have columns : (Columns.vector vec d.text d.data).fits t.kind = true := by
      simp [kind, mainKind, vector, Columns.fits, fits vector]
    obtain ⟨t', inserted, kind', rows⟩ := insertRow_given_ok there columns freshRow
    obtain ⟨u, index, indexKind, indexed⟩ := holds.fullText vector
    have apart : fold (ftsTableName coll.tableName) ≠ fold coll.tableName := fold_ftsTableName_ne _
    have index' : (s.set coll.tableName t').find (ftsTableName coll.tableName) = some u := by
      rw [DB.find_set, if_neg apart, index]
    have freshIndex : ∀ r ∈ u.rows, r.id ≠ d.id := fun r member equal =>
      fresh (by rw [← indexed]; exact List.mem_map.mpr ⟨r, member, equal⟩)
    have indexColumns : (Columns.fullText d.text).fits u.kind = true := by
      rw [indexKind]
      rfl
    obtain ⟨u', stored, indexKind', indexRows⟩ := insertRow_given_ok index' indexColumns freshIndex
    refine ⟨_, insertPrepared_ok_iff.mpr ⟨_, ?_, .inr ⟨vector, stored⟩⟩, ⟨holds.unreferenced, ⟨t', ?_⟩, fun _ => ⟨u', ?_⟩⟩⟩
    · rw [vector]
      exact inserted
    · refine ⟨by rw [DB.find_set, if_neg (Ne.symm apart), DB.find_set_same], kind'.trans kind, ?_⟩
      rw [rows, List.map_append, List.map_singleton]
      congr 2
      exact same _ rfl (by simp [document, vector, Columns.row]) rfl rfl
    · refine ⟨DB.find_set_same .., indexKind'.trans indexKind, ?_⟩
      rw [indexRows, List.map_append, indexed]
      simp

/-- A batch of accepted documents is inserted behind the others. -/
theorem insertDocumentBulkTx_holds {s₀ : DB} (unreferenced : s₀.owned coll.name = []) {i : Nat} {batch : List Document}
    (holds : Holds coll s docs) (accepted : ∀ d ∈ batch, Accepted h coll d) (distinct : ((docs ++ batch).map (·.id)).Nodup) :
    ∃ preparedItems ids s', List.Forall₂ (Prepares h s₀ coll) (batch.map fun d => ⟨some d.id, d.text, some d.data⟩) preparedItems ∧
      insertDocumentBulkTx coll i preparedItems s = .ok (ids, s') ∧ Holds coll s' (docs ++ batch) := by
  induction batch generalizing i s docs with
  | nil => exact ⟨[], [], s, .nil, rfl, by simpa using holds⟩
  | cons d rest ih =>
    obtain ⟨first, others⟩ := List.forall_mem_cons.mp accepted
    have fresh : d.id ∉ docs.map (·.id) := by
      intro taken
      rw [List.map_append, List.nodup_append] at distinct
      exact distinct.2.2 d.id taken d.id (by simp) rfl
    obtain ⟨vec, prepares, fits⟩ := prepares_of_accepted unreferenced first
    obtain ⟨s₁, inserted, holds₁⟩ := insertPrepared_holds holds first fits fresh
    have again : docs ++ d :: rest = docs ++ [d] ++ rest := by simp
    rw [again] at distinct ⊢
    obtain ⟨ps, ids, s', each, written, holds'⟩ := ih (i := i + 1) holds₁ others distinct
    exact ⟨_ :: ps, d.id :: ids, s', .cons prepares each,
      insertDocumentBulkTx_cons_ok_iff.mpr ⟨d.id, s₁, ids, inserted, written, rfl⟩, holds'⟩

/-- The bulk insert of such a batch. -/
theorem eval_insertDocumentBulk_holds {batch : List Document} (holds : Holds coll s docs)
    (accepted : ∀ d ∈ batch, Accepted h coll d) (distinct : ((docs ++ batch).map (·.id)).Nodup) :
    ∃ ids s', (machine h).eval (insertDocumentBulk coll ((batch.map request).map fun req => ⟨req.id, req.text, req.data⟩)) s =
      (.ok ids, s') ∧ Holds coll s' (docs ++ batch) := by
  obtain ⟨ps, ids, s', prepares, written, holds'⟩ :=
    insertDocumentBulkTx_holds (i := 0) holds.unreferenced holds accepted distinct
  refine ⟨ids, s', ?_, holds'⟩
  rw [List.map_map]
  exact eval_insertDocumentBulk_ok_iff.mpr ⟨ps, prepares, written⟩

end Load

/-! ### The reload -/

/-- The batches one after the other, each decoded and inserted; none when one of
    them is refused. -/
def reload (h : Host) (coll : Collection) : List (List Json) → DB → Option DB
  | [], s => some s
  | batch :: rest, s =>
    match decodeJSON (decodeSlice decodeDocumentRequest) (.json (.arr batch)) with
    | .error _ => none
    | .ok reqs =>
      match (machine h).eval (insertDocumentBulk coll (reqs.map fun req => ⟨req.id, req.text, req.data⟩)) s with
      | (.ok _, s') => reload h coll rest s'
      | (.error _, _) => none

section Reload
variable {h : Host} {coll : Collection} {s : DB} {docs : List Document}

/-- Batches of accepted documents that fit are inserted one after the other. -/
theorem reload_holds {batches : List (List Document)} (holds : Holds coll s docs)
    (accepted : ∀ d ∈ batches.flatten, Accepted h coll d) (distinct : ((docs ++ batches.flatten).map (·.id)).Nodup)
    (fits : ∀ d ∈ batches.flatten, Fits d) :
    ∃ s', reload h coll (batches.map (·.map encodeDocument)) s = some s' ∧ Holds coll s' (docs ++ batches.flatten) := by
  induction batches generalizing s docs with
  | nil => exact ⟨s, rfl, by simpa using holds⟩
  | cons batch rest ih =>
    rw [List.flatten_cons, List.forall_mem_append] at accepted fits
    rw [List.flatten_cons, ← List.append_assoc] at distinct ⊢
    have first : ((docs ++ batch).map (·.id)).Nodup := by
      rw [List.map_append] at distinct
      exact (List.nodup_append.mp distinct).1
    obtain ⟨ids, s₁, inserted, holds₁⟩ := eval_insertDocumentBulk_holds holds accepted.1 first
    obtain ⟨s', loaded, holds'⟩ := ih holds₁ accepted.2 distinct fits.2
    refine ⟨s', ?_, holds'⟩
    have decoded : decodeJSON (decodeSlice decodeDocumentRequest) (.json (.arr (batch.map encodeDocument))) =
        .ok (batch.map request) := by
      rcases decode_batch batch with ⟨-, decoded⟩ | ⟨deep, -⟩
      · exact decoded
      · exact absurd fits.1 deep
    rw [List.map_cons, reload]
    simp only [decoded, inserted]
    exact loaded

/-- Where a document does not fit, its batch is refused. -/
theorem reload_none {batches : List (List Document)} {d : Document} (member : d ∈ batches.flatten) (deep : ¬ Fits d) :
    reload h coll (batches.map (·.map encodeDocument)) s = none := by
  induction batches generalizing s with
  | nil => simp at member
  | cons batch rest ih =>
    rw [List.map_cons, reload]
    rcases decode_batch batch with ⟨fits, decoded⟩ | ⟨-, reply, refused⟩
    · have later : d ∈ rest.flatten := by
        rw [List.flatten_cons, List.mem_append] at member
        exact member.resolve_left fun here => deep (fits d here)
      simp only [decoded]
      split
      · exact ih later
      · rfl
    · simp only [refused]

end Reload

/-! ### The map from ids to texts and data -/

section Contents
variable {h : Host} {coll target : Collection} {s s' : DB}

/-- The main table of a collection has the columns that its queries read. -/
theorem docs_of_mainKind {t : Table} (there : s.find coll.tableName = some t) (kind : t.kind = mainKind coll) :
    s.docs coll.tableName = .ok t ∧ (coll.hasVector && t.kind = .plain) = false := by
  rw [kind, mainKind]
  rw [mainKind] at kind
  cases vector : coll.hasVector with
  | false =>
    rw [vector] at kind
    exact ⟨DB.docs_of_find there (.inl kind), rfl⟩
  | true =>
    rw [vector] at kind
    exact ⟨DB.docs_of_find there (.inr ⟨_, kind⟩), rfl⟩

/-- getDocumentByID finds the document in the list of all documents. -/
theorem eval_getDocumentByID {t : Table} (there : s.docs coll.tableName = .ok t)
    (columns : (coll.hasVector && t.kind = .plain) = false) (id : Int) :
    ((machine h).eval (getDocumentByID coll id) s).1 =
      (((t.rows.map (document coll)).find? (fun d => d.id == id)).elim (.error .documentNotFound) .ok) := by
  have found : s.rowById coll.tableName coll.hasVector id = .ok (t.rows.find? (fun r => r.id == id)) := by
    simp [DB.rowById, there, columns]
  have same : (t.rows.map (document coll)).find? (fun d => d.id == id) =
      (t.rows.find? (fun r => r.id == id)).map (document coll) := by
    rw [List.find?_map]
    rfl
  unfold getDocumentByID
  rw [Prog.bind_eq, Machine.eval_bind, eval_read, found, same]
  cases t.rows.find? (fun r => r.id == id) <;> rfl

/-- A list without repeated ids is searched alike in any order. -/
theorem find?_perm {l l' : List Document} (perm : l.Perm l') (distinct : (l.map (·.id)).Nodup) (id : Int) :
    l.find? (fun d => d.id == id) = l'.find? (fun d => d.id == id) := by
  have distinct' : (l'.map (·.id)).Nodup := (perm.map (·.id)).nodup_iff.mp distinct
  have found {m : List Document} {d : Document} (there : m.find? (fun d => d.id == id) = some d) : d ∈ m ∧ d.id = id :=
    ⟨List.mem_of_find?_eq_some there, by simpa using List.find?_some there⟩
  cases left : l.find? (fun d => d.id == id) with
  | none =>
    refine (List.find?_eq_none.mpr fun d member => ?_).symm
    exact List.find?_eq_none.mp left d (perm.mem_iff.mpr member)
  | some d =>
    obtain ⟨member, same⟩ := found left
    cases right : l'.find? (fun d => d.id == id) with
    | none => exact absurd (List.find?_eq_none.mp right d (perm.mem_iff.mp member)) (by simp [same])
    | some d' =>
      obtain ⟨member', same'⟩ := found right
      rw [List.inj_on_of_nodup_map distinct' (perm.mem_iff.mp member) member' (same.trans same'.symm)]

end Contents

/-- Batches of the encoded documents are the encoded batches of the documents. -/
theorem batches_of_flatten {α β : Type} {encode : α → β} {batches : List (List β)} {docs : List α}
    (cut : batches.flatten = docs.map encode) :
    ∃ cuts : List (List α), cuts.flatten = docs ∧ batches = cuts.map (·.map encode) := by
  induction batches generalizing docs with
  | nil => exact ⟨[], by simpa using cut.symm, rfl⟩
  | cons batch rest ih =>
    rw [List.flatten_cons] at cut
    obtain ⟨first, others, rfl, same, again⟩ := List.map_eq_append_iff.mp cut.symm
    obtain ⟨cuts, whole, each⟩ := ih again.symm
    exact ⟨first :: cuts, by rw [List.flatten_cons, whole], by rw [List.map_cons, same, each]⟩

theorem flatten_singletons {α β : Type} (f : α → β) (l : List α) : (l.map fun x => [f x]).flatten = l.map f := by
  rw [← List.flatMap_def, ← List.map_eq_flatMap]

/-- The batches load, and the new collection has the texts and data of the old one. -/
def Restores (h : Host) (coll : Collection) (s : DB) (target : Collection) (s' : DB) (batches : List (List Json)) : Prop :=
  ∃ s'', reload h target batches s' = some s'' ∧
    ∀ id, ((machine h).eval (getDocumentByID target id) s'').1 = ((machine h).eval (getDocumentByID coll id) s).1

/-- The export comes to an end with all items of the collection in ascending order. -/
theorem export_ends (h : Host) {s : DB} (sound : Sound s) {name : String} {coll : Collection}
    (found : s.lookup name = some coll) : ∃ t docs pages, s.docs coll.tableName = .ok t ∧
      (coll.hasVector && t.kind = .plain) = false ∧ handleExportDocuments h name pages s = some (.json 200 docs) ∧
      docs.Pairwise (fun a b => a.id < b.id) ∧ (t.rows.map (document coll)).Perm docs := by
  obtain ⟨t, there, mainTable⟩ := sound.main coll (DB.lookup_some found).1
  obtain ⟨docsTable, columns⟩ := docs_of_mainKind there mainTable
  obtain ⟨pages, ended⟩ := pages_end (h := h) docsTable columns 0
  refine ⟨t, _, pages, docsTable, columns, ?_, ?_, ((sortBy_perm (·.id) _).map _).symm⟩
  · unfold handleExportDocuments
    rw [eval_getCollection, found]
    simp only [List.take_zero] at ended
    simp only [Option.elim_some, ended, Pages.reply]
  · rw [List.pairwise_map]
    exact List.pairwise_map.mp (sortBy_ascending t.key)

/-- The exported documents are the items. -/
theorem mem_export_iff {s : DB} {coll : Collection} {t : Table} {docs : List Document} (there : s.docs coll.tableName = .ok t)
    (perm : (t.rows.map (document coll)).Perm docs) (d : Document) :
    d ∈ docs ↔ ∃ r ∈ items s coll.tableName, d = document coll r := by
  rw [← perm.mem_iff, items_of_docs there, List.mem_map]
  simp only [eq_comm]

/-- An item of a collection is accepted by one of the same kind. -/
theorem accepted_document {h : Host} {coll target : Collection} {r : Row}
    (kind : target.hasVector = coll.hasVector ∧ target.dimensions = coll.dimensions)
    (text : coll.hasVector = true → ∃ vec, h.embed r.text = .ok vec ∧ (vec.length : Int) = coll.dimensions ∧ coll.dimensions % 8 = 0) :
    Accepted h target (document coll r) := by
  refine ⟨rfl, fun plain => ?_, fun vector => ?_⟩
  · rw [kind.1] at plain
    simp [document, plain]
  · rw [kind.1] at vector
    simpa [document, vector, kind.2] using text vector

/-- The export of a collection comes to an end with all its items in ascending
    order, and every cutting of it into batches reloads into an empty collection
    of the same kind exactly when the data of every item leaves room for two
    levels more. -/
theorem export_reloads_iff (h : Host) (s : DB) (sound : Sound s) (name : String) (coll : Collection)
    (found : s.lookup name = some coll)
    (texts : coll.hasVector = true → ∀ r ∈ items s coll.tableName,
      ∃ vec, h.embed r.text = .ok vec ∧ (vec.length : Int) = coll.dimensions ∧ coll.dimensions % 8 = 0)
    (s' : DB) (target : Collection) (kind : target.hasVector = coll.hasVector ∧ target.dimensions = coll.dimensions)
    (empty : Holds target s' []) :
    ∃ docs pages, handleExportDocuments h name pages s = some (.json 200 docs) ∧
      docs.Pairwise (fun a b => a.id < b.id) ∧ (∀ d, d ∈ docs ↔ ∃ r ∈ items s coll.tableName, d = document coll r) ∧
      ((∀ batches : List (List Json), batches.flatten = docs.map encodeDocument → (∀ batch ∈ batches, batch.length ≤ bulkMaxItems) →
          Restores h coll s target s' batches) ↔
        ∀ r ∈ items s coll.tableName, r.data.depth + 2 ≤ maxNestingDepth) := by
  obtain ⟨t, docs, pages, docsTable, columns, exported, ascending, perm⟩ := export_ends h sound found
  have listed : ∀ d, d ∈ docs ↔ ∃ r ∈ items s coll.tableName, d = document coll r := mem_export_iff docsTable perm
  have distinct : (docs.map (·.id)).Nodup := List.pairwise_map.mpr (ascending.imp fun lt => ne_of_lt lt)
  have accepted : ∀ d ∈ docs, Accepted h target d := by
    intro d member
    obtain ⟨r, stored, rfl⟩ := (listed d).mp member
    exact accepted_document kind fun vector => texts vector r stored
  have fits : (∀ d ∈ docs, Fits d) ↔ ∀ r ∈ items s coll.tableName, r.data.depth + 2 ≤ maxNestingDepth := by
    constructor
    · intro all r stored
      exact all _ ((listed _).mpr ⟨r, stored, rfl⟩)
    · intro all d member
      obtain ⟨r, stored, rfl⟩ := (listed d).mp member
      exact all r stored
  refine ⟨docs, pages, exported, ascending, listed, ?_⟩
  rw [← fits]
  constructor
  · intro restores
    -- the items one by one are batches too
    by_contra deep
    obtain ⟨d, member, deep⟩ : ∃ d ∈ docs, ¬ Fits d := by simpa using deep
    have whole : (docs.map fun d => [d]).flatten = docs := (flatten_singletons id docs).trans (List.map_id docs)
    obtain ⟨s'', loaded, -⟩ := restores ((docs.map fun d => [d]).map (·.map encodeDocument))
      (by rw [← List.map_flatten, whole]) (by simp [bulkMaxItems])
    rw [reload_none (by rw [whole]; exact member) deep] at loaded
    cases loaded
  · intro all batches cut _
    obtain ⟨cuts, rfl, rfl⟩ := batches_of_flatten cut
    obtain ⟨s'', loaded, holds⟩ := reload_holds empty accepted distinct all
    refine ⟨s'', loaded, fun id => ?_⟩
    obtain ⟨t', there', mainTable', contents⟩ := holds.main
    obtain ⟨docsTable', columns'⟩ := docs_of_mainKind there' mainTable'
    rw [eval_getDocumentByID docsTable' columns', eval_getDocumentByID docsTable columns, contents, List.nil_append]
    rw [find?_perm perm ((perm.map (·.id)).nodup_iff.mpr distinct)]

/-- Arrays in arrays. -/
def nested : Nat → Json
  | 0 => .null
  | n + 1 => .arr [nested n]

theorem depth_nested (n : Nat) : (nested n).depth = n := by
  induction n with
  | zero => rfl
  | succ n ih => simp [nested, Json.depth, Json.depthItems, ih]

/-- A collection "a" with one item. -/
def oneItem (data : Json) : DB :=
  reached Host.uniform [(.createCollection "a" false 0 ⟨[], List.nodup_nil⟩, []), (.insertDocument "a" none "" (some data), [])]

/-- A collection "a" without items. -/
def noItem : DB := reached Host.uniform [(.createCollection "a" false 0 ⟨[], List.nodup_nil⟩, [])]

theorem holds_noItem : Holds ⟨"a", "coll_a", false, 0⟩ noItem [] :=
  ⟨rfl, ⟨.empty .plain, rfl, rfl, rfl⟩, nofun⟩

theorem items_oneItem (data : Json) : items (oneItem data) "coll_a" = [⟨1, "", data, []⟩] := rfl

theorem oneItem_sound (data : Json) : Sound (oneItem data) := (run_coherent Host.uniform _).sound

theorem oneItem_lookup (data : Json) : (oneItem data).lookup "a" = some ⟨"a", "coll_a", false, 0⟩ := rfl

/-- A collection "v" of vectors with three items, the second of which has this data. -/
def threeItems (data : Json) : DB :=
  reached Host.uniform [(.createCollection "v" true 8 ⟨[], List.nodup_nil⟩, []),
    (.insertDocument "v" none "first" (some (.obj [("n", .int 1)])), []), (.insertDocument "v" none "second" (some data), []),
    (.insertDocument "v" none "third" (some .null), [])]

theorem items_threeItems (data : Json) : items (threeItems data) "coll_v" = [⟨1, "first", .obj [("n", .int 1)], List.replicate 8 0⟩,
    ⟨2, "second", data, List.replicate 8 0⟩, ⟨3, "third", .null, List.replicate 8 0⟩] := rfl

theorem threeItems_sound (data : Json) : Sound (threeItems data) := (run_coherent Host.uniform _).sound

theorem threeItems_lookup (data : Json) : (threeItems data).lookup "v" = some ⟨"v", "coll_v", true, 8⟩ := rfl

/-- A collection "w" of vectors of the same dimensions without items. -/
def noVectors : DB := reached Host.uniform [(.createCollection "w" true 8 ⟨[], List.nodup_nil⟩, [])]

theorem holds_noVectors : Holds ⟨"w", "coll_w", true, 8⟩ noVectors [] :=
  ⟨rfl, ⟨.empty (.vec0 8), rfl, rfl, rfl⟩, fun _ => ⟨.empty .fts5, rfl, rfl, rfl⟩⟩

/-- An export lists every item once. -/
theorem export_perm {docs : List Document} {rows : List Row} {coll : Collection} (ascending : docs.Pairwise fun a b => a.id < b.id)
    (listed : ∀ d, d ∈ docs ↔ ∃ r ∈ rows, d = document coll r) (distinct : (rows.map (document coll)).Nodup) :
    docs.Perm (rows.map (document coll)) := by
  have once : docs.Nodup := ascending.imp fun lt same => by rw [same] at lt; exact lt_irrefl _ lt
  refine (List.perm_ext_iff_of_nodup once distinct).mpr fun d => ?_
  rw [listed, List.mem_map]
  simp only [eq_comm]

/-- Three items, one of them as deep as can be, reload in two batches. -/
theorem export_reloads_iff_three : ∃ docs pages,
    handleExportDocuments Host.uniform "v" pages (threeItems (nested 9998)) = some (.json 200 docs) ∧
      Restores Host.uniform ⟨"v", "coll_v", true, 8⟩ (threeItems (nested 9998)) ⟨"w", "coll_w", true, 8⟩ noVectors
        ([docs.take 2, docs.drop 2].map (·.map encodeDocument)) := by
  have texts : ∀ r ∈ items (threeItems (nested 9998)) "coll_v",
      ∃ vec, Host.uniform.embed r.text = .ok vec ∧ (vec.length : Int) = 8 ∧ (8 : Int) % 8 = 0 :=
    fun r _ => ⟨List.replicate 8 0, rfl, by decide, by decide⟩
  obtain ⟨docs, pages, exported, ascending, listed, iff⟩ := export_reloads_iff Host.uniform (threeItems (nested 9998))
    (threeItems_sound _) "v" ⟨"v", "coll_v", true, 8⟩ (threeItems_lookup _) (fun _ => texts) noVectors
    ⟨"w", "coll_w", true, 8⟩ ⟨rfl, rfl⟩ holds_noVectors
  have room : ∀ r ∈ items (threeItems (nested 9998)) "coll_v", r.data.depth + 2 ≤ maxNestingDepth := by
    rw [items_threeItems]
    simp [depth_nested, Json.depth, Json.depthFields, maxNestingDepth]
  simp only [items_threeItems] at listed
  have three : docs.length = 3 := (export_perm ascending listed (by simp [document])).length_eq
  refine ⟨docs, pages, exported, iff.mpr room _ ?_ ?_⟩
  · simp
  · intro batch member
    simp only [List.map_cons, List.map_nil, List.mem_cons, List.not_mem_nil, or_false] at member
    rcases member with rfl | rfl
    · simp [bulkMaxItems]
    · simp only [bulkMaxItems, List.length_map, List.length_drop]
      omega

theorem oneItem_not_restored {data : Json} (deep : maxNestingDepth < data.depth + 2) : ∃ docs pages,
    handleExportDocuments Host.uniform "a" pages (oneItem data) = some (.json 200 docs) ∧ docs.length = 1 ∧
      ¬ Restores Host.uniform ⟨"a", "coll_a", false, 0⟩ (oneItem data) ⟨"a", "coll_a", false, 0⟩ noItem
        ([docs].map (·.map encodeDocument)) := by
  obtain ⟨t, docs, pages, docsTable, -, exported, -, perm⟩ :=
    export_ends Host.uniform (oneItem_sound data) (oneItem_lookup data)
  have rows : t.rows = [⟨1, "", data, []⟩] := by
    rw [← items_of_docs docsTable]
    exact items_oneItem data
  rw [rows] at perm
  have member : (⟨1, "", data, none⟩ : Document) ∈ [docs].flatten := by
    simpa [document] using perm.subset (List.mem_singleton.mpr rfl)
  refine ⟨docs, pages, exported, perm.length_eq.symm, ?_⟩
  rintro ⟨s'', loaded, -⟩
  rw [reload_none member (not_le.mpr deep)] at loaded
  cases loaded

/-- A body that carries only data is decoded as long as the data leaves room for the object. -/
theorem decode_data {data : Json} (room : data.depth + 1 ≤ maxNestingDepth) :
    decodeJSON decodeDocumentRequest (.json (.obj [("data", data)])) = .ok ⟨none, "", some data⟩ := by
  have shallow : ¬ maxNestingDepth < (Json.obj [("data", data)]).depth := by
    simpa [Json.depth, Json.depthFields] using room
  have name : foldName "data" = "data" := by decide
  unfold decodeJSON
  simp only [if_neg shallow]
  simp [decodeDocumentRequest, decodeStruct, assignDocument, name]

/-- The data of an item can be as deep as the body of its own insert admits, and
    then the item does not reload. -/
theorem deep_item_not_restored :
    decodeJSON decodeDocumentRequest (.json (.obj [("data", nested 9999)])) = .ok ⟨none, "", some (nested 9999)⟩ ∧
    ¬ ∀ (h : Host) (s : DB) (name : String) (coll : Collection), Sound s → s.lookup name = some coll →
      (coll.hasVector = true → ∀ r ∈ items s coll.tableName,
        ∃ vec, h.embed r.text = .ok vec ∧ (vec.length : Int) = coll.dimensions ∧ coll.dimensions % 8 = 0) →
      ∀ (s' : DB) (target : Collection), target.hasVector = coll.hasVector ∧ target.dimensions = coll.dimensions →
      Holds target s' [] → ∀ docs pages, handleExportDocuments h name pages s = some (.json 200 docs) →
      ∀ batches : List (List Json), batches.flatten = docs.map encodeDocument → (∀ batch ∈ batches, batch.length ≤ bulkMaxItems) →
        Restores h coll s target s' batches := by
  have room : (nested 9999).depth + 1 ≤ maxNestingDepth := by rw [depth_nested, maxNestingDepth]
  have deep : maxNestingDepth < (nested 9999).depth + 2 := by rw [depth_nested, maxNestingDepth]; decide
  refine ⟨decode_data room, fun all => ?_⟩
  obtain ⟨docs, pages, exported, one, refused⟩ := oneItem_not_restored deep
  exact refused (all Host.uniform _ "a" ⟨"a", "coll_a", false, 0⟩ (oneItem_sound _) (oneItem_lookup _) nofun noItem
    ⟨"a", "coll_a", false, 0⟩ ⟨rfl, rfl⟩ holds_noItem docs pages exported _ (by simp) (by simp [one, bulkMaxItems]))

end Microserver.Reloads
