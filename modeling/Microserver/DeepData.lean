import Microserver.Embeddings
import Microserver.FailedDeletes
import Microserver.Listings
import Microserver.ReadHandlers
import Microserver.ReferentialRuns
import Microserver.Reloads

/-!
Data that is stored and cannot be read again. encoding/json decodes values ten
times as deep as json_extract reads, and one item that is too deep fails every
query that looks into the data of its collection. Runs that store shallower data
only, and leave no reference dangling, keep all requests going.
-/
namespace Microserver.DeepData
open Microserver.Values Microserver.Store Microserver.Programs Microserver.Statements Microserver.Operations
open Microserver.Schema Microserver.Items Microserver.Reads Microserver.Integrity Microserver.ReferenceChecks Microserver.Cascades
open Microserver.Tokens Microserver.Queries Microserver.Requests Microserver.ReadHandlers Microserver.Evaluations Microserver.FailedDeletes
open Microserver.Listings Microserver.Histories Microserver.Reachable Microserver.ReferentialRuns Microserver.RowInvariants Microserver.Embeddings

/-- The data of a row is as deep as json_extract reads, at most. -/
def Shallow (_ : TableKind) (row : Row) : Prop := row.data.depth ≤ jsonMaxDepth

/-- The call stores no data that is deeper. -/
def StoresShallow : Call → Prop
  | .insertDocument _ _ _ data => (dataOrEmpty data).depth ≤ jsonMaxDepth
  | .insertDocumentBulk _ batch => ∀ it ∈ batch, (dataOrEmpty it.data).depth ≤ jsonMaxDepth
  | .updateDocument _ _ _ data => (dataOrEmpty data).depth ≤ jsonMaxDepth
  | .createCollection .. | .renameCollection .. | .dropCollection .. | .deleteDocument .. => True

/-- Every listing and every count of a registered collection returns. -/
structure Reads (h : Host) (E : Engine) (s : DB) : Prop where
  lists : ∀ c ∈ s.collections, ∀ limit offset filters sort, ∃ docs,
    (machine h).eval (listDocuments c limit offset filters sort) s = (.ok docs, s)
  counts : ∀ c ∈ s.collections, ∀ field groupBy filters, (field = "" ∨ collectionNameRe field = true) →
    (groupBy = "" ∨ collectionNameRe groupBy = true) → ∃ results,
      (machine h).eval (aggregateDocuments E c "count" field groupBy filters) s = (.ok results, s)

/-- Every delete returns, or is refused because the item is referred to. -/
def Deletes (h : Host) (s : DB) : Prop :=
  ∀ c ∈ s.collections, ∀ id, (∃ found, ((machine h).eval (deleteDocument c id) s).1 = .ok found) ∨
    ∃ msg, ((machine h).eval (deleteDocument c id) s).1 = .error (.referentialConstraint msg)

variable {h : Host} {E : Engine} {s s' s₀ : DB} {c coll srcColl : Collection} {field : String} {row : Row} {id : Int}

/-! ### Reading -/

theorem orderBySQL_readable (spec : SortSpec) {rows : List Row} (legible : rows.all readable = true) :
    ∃ sorted, orderBySQL h spec rows = .ok sorted := by
  unfold orderBySQL
  rw [if_neg (by simp [legible])]
  split <;> exact ⟨_, rfl⟩

theorem listRows_returns (t : Table) (limit offset : Int) (filters : List FilterCondition) (sort : Option SortSpec)
    (legible : t.rows.all readable = true) : ∃ rows, listRows h t limit offset filters sort = .ok rows := by
  have sorted := readable_sorted legible
  unfold listRows
  cases sort with
  | some spec =>
    rw [filterWhere_readable fun _ => List.all_eq_true.mp legible]
    exact orderBySQL_readable spec (all_readable_filter legible)
  | none =>
    dsimp only
    split
    · exact ⟨_, scan_readable _ fun _ => List.all_eq_true.mp sorted⟩
    · exact ⟨_, filterWhere_readable fun _ => List.all_eq_true.mp sorted⟩

theorem aggregated_readable (field : String) {rows : List Row} (legible : rows.all readable = true) :
    ∃ values, aggregated h field rows = .ok values := by
  unfold aggregated
  rw [if_pos legible]
  split <;> exact ⟨_, rfl⟩

/-- A count is an integer, which ParseFloat reads. -/
theorem count_readable (digits : ∀ n : Nat, (E.parseFloat (toString (n : Int))).isSome = true) (field : String) {rows : List Row}
    (legible : rows.all readable = true) : ∃ values value x, aggregated h field rows = .ok values ∧
      AggFunction.count.eval E values = .ok value ∧ scanFloat E value = .ok x := by
  obtain ⟨values, read⟩ := aggregated_readable (h := h) field legible
  obtain ⟨x, parsed⟩ := Option.isSome_iff_exists.mp (digits (values.filter (· ≠ .null)).length)
  refine ⟨values, _, some x, read, rfl, ?_⟩
  simp only [scanFloat, scanFloat.scanText, parsed]

/-- A traversal returns when each of its steps does. -/
theorem mapM_ok {α β : Type} {f : α → Except Err β} {values : List α} (each : ∀ a ∈ values, ∃ b, f a = .ok b) :
    ∃ results, values.mapM f = .ok results := by
  induction values with
  | nil => exact ⟨[], rfl⟩
  | cons a rest ih =>
    rw [List.forall_mem_cons] at each
    obtain ⟨b, first⟩ := each.1
    obtain ⟨results, others⟩ := ih each.2
    refine ⟨b :: results, ?_⟩
    rw [List.mapM_cons, first, others]
    rfl

theorem groups_readable {groupBy : String} {rows : List Row} (legible : rows.all readable = true) {group : SqlValue × List Row}
    (member : group ∈ groups h groupBy rows) : group.2.all readable = true := by
  obtain ⟨v, -, rfl⟩ := List.mem_map.mp member
  exact all_readable_filter legible

theorem aggregateQuery_readable (digits : ∀ n : Nat, (E.parseFloat (toString (n : Int))).isSome = true) {t : Table}
    (docs : s.docs c.tableName = .ok t) (field groupBy : String) (filters : List FilterCondition)
    (legible : t.rows.all readable = true) : ∃ results, aggregateQuery E c .count field groupBy filters h s = .ok results := by
  have matching : (t.rows.filter (meets h filters)).all readable = true := all_readable_filter legible
  unfold aggregateQuery
  simp only [docs, filterWhere_readable fun _ => List.all_eq_true.mp legible, bind, Except.bind, pure, Except.pure]
  by_cases single : groupBy = ""
  · obtain ⟨values, value, x, read, counted, scanned⟩ := count_readable (h := h) digits field matching
    rw [if_pos single]
    simp only [read, counted, scanned]
    exact ⟨_, rfl⟩
  · rw [if_neg single, if_pos matching]
    refine mapM_ok fun group member => ?_
    obtain ⟨values, value, x, read, counted, scanned⟩ := count_readable (h := h) digits field (groups_readable matching member)
    simp only [read, counted, scanned]
    exact ⟨_, rfl⟩

/-- With shallow data every listing and every count returns. -/
theorem reads_of_shallow (digits : ∀ n : Nat, (E.parseFloat (toString (n : Int))).isSome = true) (sound : Sound s)
    (shallow : AllRows Shallow s) : Reads h E s := by
  have legible {c : Collection} {t : Table} (registered : c ∈ s.collections) (docs : s.docs c.tableName = .ok t) :
      t.rows.all readable = true := by
    rw [List.all_eq_true]
    intro r member
    rw [← items_of_docs docs] at member
    exact readable_iff.mpr (shallow c registered r member)
  constructor
  · intro c registered limit offset filters sort
    obtain ⟨t, docs, -, columns⟩ := docs_registered sound registered
    obtain ⟨rows, listed⟩ := listRows_returns (h := h) t limit offset filters sort (legible registered docs)
    unfold listDocuments
    rw [eval_read]
    simp only [listQuery, docs, columns, Bool.false_eq_true, ↓reduceIte, listed]
    exact ⟨_, rfl⟩
  · intro c registered field groupBy filters valid valid'
    obtain ⟨t, docs, -, -⟩ := docs_registered sound registered
    obtain ⟨results, aggregated⟩ := aggregateQuery_readable (h := h) digits docs field groupBy filters (legible registered docs)
    have count : aggOps.lookup "count" = some .count := rfl
    have named : ¬ (field ≠ "" ∧ (!collectionNameRe field) = true) := by
      rintro ⟨set, wrong⟩
      rcases valid with unset | right
      · exact set unset
      · simp [right] at wrong
    have named' : ¬ (groupBy ≠ "" ∧ (!collectionNameRe groupBy) = true) := by
      rintro ⟨set, wrong⟩
      rcases valid' with unset | right
      · exact set unset
      · simp [right] at wrong
    unfold aggregateDocuments
    simp only [count]
    rw [if_neg (by simp), if_neg named, if_neg named', eval_read, aggregated]
    exact ⟨_, rfl⟩

/-- A sort fails where some item of the collection is too deep. -/
theorem shallow_of_reads (sound : Sound s) (reads : Reads h E s) : AllRows Shallow s := by
  intro c registered row member
  by_contra deep
  obtain ⟨t, docs, -, columns⟩ := docs_registered sound registered
  obtain ⟨found, listed⟩ := reads.lists c registered 0 0 [] (some ⟨"f", false⟩)
  have unreadable : ¬ (t.rows.filter fun r => ([] : List FilterCondition).all fun c => c.holds h r.data).all readable = true := by
    rw [List.all_eq_true]
    intro all
    rw [items_of_docs docs] at member
    exact deep (readable_iff.mp (all row (List.mem_filter.mpr ⟨member, rfl⟩)))
  have fails : listRows h t 0 0 [] (some ⟨"f", false⟩) = .error malformedJSON := by
    unfold listRows filterWhere orderBySQL
    rw [if_neg (by simp)]
    exact if_pos unreadable
  unfold listDocuments at listed
  rw [eval_read] at listed
  simp only [listQuery, docs, columns, fails, Bool.false_eq_true, ↓reduceIte] at listed
  cases congrArg Prod.fst listed

theorem reads_iff (digits : ∀ n : Nat, (E.parseFloat (toString (n : Int))).isSome = true) (sound : Sound s) :
    Reads h E s ↔ AllRows Shallow s :=
  ⟨shallow_of_reads sound, reads_of_shallow digits sound⟩

/-! ### Deleting -/

theorem depthFields_assign (name : String) (value : Json) (m : List (String × Json)) :
    Json.depthFields (assign name value m) ≤ max value.depth (Json.depthFields m) := by
  induction m with
  | nil => exact le_rfl
  | cons entry rest ih =>
    obtain ⟨key, held⟩ := entry
    simp only [assign]
    split_ifs
    · exact le_rfl
    · exact max_le_max le_rfl (le_max_right _ _)
    · exact max_le ((le_max_left _ _).trans (le_max_right _ _))
        (ih.trans (max_le_max le_rfl (le_max_right _ _)))

theorem depthFields_unmarshalMap (fields : List (String × Json)) :
    Json.depthFields (unmarshalMap fields) ≤ Json.depthFields fields := by
  suffices general : ∀ m : List (String × Json),
      Json.depthFields (fields.foldl (fun m entry => assign entry.1 entry.2 m) m) ≤ max (Json.depthFields fields) (Json.depthFields m) from
    (general []).trans (max_le le_rfl (Nat.zero_le _))
  induction fields with
  | nil => exact fun m => le_max_right _ _
  | cons entry rest ih =>
    intro m
    refine (ih _).trans (max_le ((le_max_right _ _).trans (le_max_left _ _)) ?_)
    exact (depthFields_assign _ _ m).trans (max_le_max (le_max_left _ _) le_rfl)

theorem depth_setNull (field : String) (fields : List (String × Json)) :
    (Json.obj (setNull field fields)).depth ≤ (Json.obj fields).depth :=
  Nat.add_le_add_right ((depthFields_assign field .null _).trans
    (max_le (Nat.zero_le _) (depthFields_unmarshalMap fields))) 1

theorem shallow_nullable : Nullable h Shallow := by
  rintro c field row row' ⟨-, -, -, fields, object, nulled⟩ shallow
  unfold Shallow at *
  rw [object] at shallow
  rw [nulled]
  exact (depth_setNull field fields).trans shallow

/-- Nothing that is stored stands in the way of a delete. -/
structure Intact (h : Host) (s : DB) : Prop where
  sound : Sound s
  integral : Integral (s.references.map (byName s)) s
  unambiguous : Unambiguous s
  embedded : AllRows (WellEmbedded h) s
  shallow : AllRows Shallow s

/-- The rewriting of an item with a field nulled keeps what there is. -/
theorem Intact.nulling (intact : Intact h s) (registered : srcColl ∈ s.collections) (nulling : Nulling h srcColl field row s s') :
    Intact h s' := by
  obtain ⟨row', ⟨identity, -, -, fields, object, nulled⟩, wrote⟩ := nulling.wrote
  have stores {P : TableKind → Row → Prop} (rows : AllRows P s) : Stores P srcColl s := ⟨intact.sound, registered, rows⟩
  have named : s'.references.map (byName s') = s.references.map (byName s) := by
    rw [wrote.schema.references]
    refine List.map_congr_left fun r _ => ?_
    simp only [byName, wrote.schema.lookup]
  refine ⟨intact.sound.sameSchema wrote.schema, ?_, ((stores (P := fun _ row => row.data.Unambiguous) intact.unambiguous).nulling nullable_unambiguous nulling).rows,
    ((stores intact.embedded).nulling wellEmbedded_nullable nulling).rows,
    ((stores intact.shallow).nulling shallow_nullable nulling).rows⟩
  rw [named]
  refine intact.integral.stored wrote (fun r member => ?_) ?_
  · by_cases here : r.id = row.id
    · exact .inr ⟨row', rfl, identity.trans here.symm⟩
    · exact .inl here
  · rintro _ rfl
    rw [nulled]
    refine Acceptable.setNull (object ▸ intact.unambiguous srcColl registered row nulling.member) ?_
    rw [← object]
    exact intact.integral.acceptable nulling.member

/-- Its new data is accepted, as its old data is integral. -/
theorem Intact.accepts (intact : Intact h s) (registered : srcColl ∈ s.collections) (field : String)
    {fields : List (String × Json)} (member : row ∈ items s srcColl.tableName) (object : row.data = .obj fields) :
    Accepts s srcColl.name (some (.obj (setNull field fields))) := by
  refine .inr ⟨unmarshalMap (setNull field fields), rfl, fun r owned => ?_⟩
  obtain ⟨stored, owner⟩ := DB.mem_owned.mp owned
  have acceptable := intact.integral.acceptable member
  rw [object] at acceptable
  have read : (unmarshalMap (setNull field fields)).lookup r.fieldName = (Json.obj (setNull field fields)).field r.fieldName :=
    (lookup_unmarshalMap _ _).trans ((unambiguous_setNull field fields).lastField_eq _)
  rw [read]
  exact Acceptable.setNull (object ▸ intact.unambiguous srcColl registered row member) acceptable srcColl registered rfl (byName s r) (List.mem_map_of_mem stored) owner

/-- updateDocument rewrites an item that is there. -/
theorem Intact.rewrites (intact : Intact h s) (registered : srcColl ∈ s.collections) (field text : String)
    {fields : List (String × Json)} (member : row ∈ items s srcColl.tableName) (object : row.data = .obj fields)
    (same : srcColl.hasVector = true → text = row.text) :
    ∃ found s', (machine h).eval (updateDocument srcColl row.id text (some (.obj (setNull field fields)))) s = (.ok found, s') ∧
      Nulling h srcColl field row s s' := by
  have accepts := intact.accepts registered field member object
  obtain ⟨t, docs, kind, -⟩ := docs_registered intact.sound registered
  unfold updateDocument
  simp only [Prog.bind_eq, Prog.pure_eq, Machine.eval_bind_ok_iff, eval_validateReferences_ok_iff]
  cases vector : srcColl.hasVector with
  | false =>
    have updated : s.updateData srcColl.tableName (.obj (setNull field fields)) row.id =
        .ok (t.rows.countP (fun r => r.id == row.id), s.set srcColl.tableName (t.setData row.id (.obj (setNull field fields)))) := by
      simp [DB.updateData, docs]
    simp only [Bool.not_false, ↓reduceIte, Machine.eval_bind_ok_iff, Machine.eval_call_ok_iff]
    exact ⟨_, _, ⟨(), s, ⟨accepts, rfl⟩, _, _, updated, rfl⟩, member, fields, object, .inl ⟨vector, _, updated⟩⟩
  | true =>
    obtain ⟨u, index, indexed⟩ := intact.sound.fullText srcColl registered vector
    obtain ⟨computed, dimensions⟩ := intact.embedded srcColl registered row member _ (mainKind_vector vector)
    have fits : (Columns.vector row.embedding row.text (.obj (setNull field fields))).fits t.kind = true := by
      rw [kind, mainKind_vector vector]
      exact decide_eq_true dimensions
    have there : row ∈ t.rows := by rwa [← items_of_docs docs]
    obtain ⟨s', updated⟩ := updateDocumentTx_goes docs there rfl fits index indexed
    simp only [Bool.not_true, Bool.false_eq_true, ↓reduceIte, Machine.eval_bind_ok_iff, eval_embed_ok_iff, Machine.eval_call_ok_iff,
      same vector]
    exact ⟨true, s', ⟨(), s, ⟨accepts, rfl⟩, _, _, ⟨computed, rfl⟩, updated⟩, member, fields, object,
      .inr ⟨vector, row.embedding, computed, updated⟩⟩

/-- An item that the comparison finds is an object. -/
theorem matches_object (matched : Matches h field id row) : ∃ fields, row.data = .obj fields := by
  cases data : row.data with
  | obj fields => exact ⟨fields, rfl⟩
  | null | bool _ | int _ | real _ | str _ | arr _ =>
    refine absurd matched (not_matches_unset (.inl ?_))
    rw [data]
    rfl

/-- The items with these ids are objects. -/
def AreObjects (s : DB) (c : Collection) (ids : List Int) : Prop :=
  ∀ rid ∈ ids, ∃ row ∈ items s c.tableName, row.id = rid ∧ ∃ fields, row.data = .obj fields

theorem AreObjects.nulling {ids : List Int} (objects : AreObjects s srcColl ids) (nulling : Nulling h srcColl field row s s') :
    AreObjects s' srcColl ids := by
  obtain ⟨row', ⟨identity, -, -, fields, -, nulled⟩, wrote⟩ := nulling.wrote
  intro rid listed
  obtain ⟨r, member, same, object⟩ := objects rid listed
  by_cases here : r.id = row.id
  · exact ⟨row', (wrote.here row').mpr (.inr rfl), identity.trans (here.symm.trans same), _, nulled⟩
  · exact ⟨r, (wrote.here r).mpr (.inl ⟨member, here⟩), same, object⟩

theorem Intact.rowById (intact : Intact h s) (registered : srcColl ∈ s.collections) (member : row ∈ items s srcColl.tableName) :
    s.rowById srcColl.tableName srcColl.hasVector row.id = .ok (some row) := by
  obtain ⟨t, docs, -, columns⟩ := docs_registered intact.sound registered
  have searched : s.rowById srcColl.tableName srcColl.hasVector row.id = .ok (t.rows.find? fun r => r.id == row.id) := by
    simp only [DB.rowById, docs, columns, Bool.false_eq_true, ↓reduceIte]
  rw [searched]
  cases found : t.rows.find? fun r => r.id == row.id with
  | none =>
    rw [items_of_docs docs] at member
    simpa using List.find?_eq_none.mp found row member
  | some r =>
    obtain ⟨there, same⟩ := rowById_ok (searched.trans (by rw [found]))
    rw [items_injective there member same]

/-- The loop over the referencing items goes through. -/
theorem nullReferences_goes {ids : List Int} (intact : Intact h s) (registered : srcColl ∈ s.collections) (field : String)
    (objects : AreObjects s srcColl ids) :
    ∃ s', (machine h).eval (nullReferences srcColl field ids) s = (.ok (), s') ∧ Intact h s' ∧ SameSchema s s' := by
  induction ids generalizing s with
  | nil => exact ⟨s, rfl, intact, .refl s⟩
  | cons rid rest ih =>
    obtain ⟨⟨row, member, rfl, fields, object⟩, others⟩ := List.forall_mem_cons.mp objects
    have loaded : (machine h).eval (getDocumentByID srcColl row.id) s =
        (.ok ⟨row.id, if srcColl.hasVector then row.text else "", row.data, none⟩, s) := by
      unfold getDocumentByID
      rw [Prog.bind_eq, Machine.eval_bind, eval_read, intact.rowById registered member]
      rfl
    obtain ⟨found, s₁, updated, nulling⟩ := intact.rewrites registered field
      (if srcColl.hasVector then row.text else "") member object fun vector => if_pos vector
    obtain ⟨_, -, wrote⟩ := nulling.wrote
    obtain ⟨s₂, nulled, intact₂, same⟩ := ih (intact.nulling registered nulling) (by rw [wrote.schema.collections]; exact registered)
      (AreObjects.nulling others nulling)
    refine ⟨s₂, ?_, intact₂, wrote.schema.trans same⟩
    unfold nullReferences
    simp only [Prog.bind_eq, Machine.eval_bind_ok_iff, Machine.eval_within_ok_iff]
    refine ⟨_, s, loaded, ?_⟩
    simp only [object, Machine.eval_bind_ok_iff, Machine.eval_within_ok_iff]
    exact ⟨found, s₁, updated, nulled⟩

theorem matching_shallow (intact : Intact h s) (registered : srcColl ∈ s.collections) (field : String) (id : Int) :
    ∃ found, s.matching h srcColl.tableName field id = .ok found := by
  obtain ⟨t, docs, -, -⟩ := docs_registered intact.sound registered
  have shallow : ¬ t.rows.any (fun r => jsonMaxDepth < r.data.depth) = true := by
    rw [List.any_eq_true]
    rintro ⟨r, member, deep⟩
    rw [← items_of_docs docs] at member
    exact absurd (of_decide_eq_true deep) (not_lt.mpr (intact.shallow srcColl registered r member))
  unfold DB.matching
  rw [docs]
  exact ⟨_, if_neg shallow⟩

/-- The loop over the dependents goes through, or meets a restrict reference. -/
theorem checkDependents_goes (intact : Intact h s) (id : Int) (deps : List ReferenceDependent) :
    (∃ s', (machine h).eval (checkDependents id deps) s = (.ok (), s') ∧ Intact h s' ∧ SameSchema s s') ∨
      ∃ msg s', (machine h).eval (checkDependents id deps) s = (.error (.referentialConstraint msg), s') := by
  induction deps generalizing s with
  | nil => exact .inl ⟨s, rfl, intact, .refl s⟩
  | cons dep rest ih =>
    unfold checkDependents
    rw [Prog.bind_eq, Machine.eval_bind, Machine.eval_attempt, eval_getCollection]
    cases known : s.lookup dep.collectionName with
    | none => exact ih intact
    | some srcColl =>
      obtain ⟨registered, -⟩ := DB.lookup_some known
      obtain ⟨found, matched⟩ := matching_shallow intact registered dep.field id
      simp only [Option.elim_some, Prog.bind_eq]
      rw [Machine.eval_bind, eval_read, matched]
      simp only [Except.mapError]
      by_cases empty : found.isEmpty = true
      · rw [if_pos empty]
        exact ih intact
      rw [if_neg empty]
      by_cases restrict : dep.onDelete = onDeleteRestrict
      · rw [if_pos restrict]
        exact .inr ⟨_, s, rfl⟩
      rw [if_neg restrict]
      by_cases set : dep.onDelete = onDeleteSetNull
      · have objects : AreObjects s srcColl found := fun rid listed =>
          (mem_matching matched).mp listed |>.imp fun row there => ⟨there.1, there.2.1, matches_object there.2.2⟩
        obtain ⟨s₁, nulled, intact₁, same₁⟩ := nullReferences_goes intact registered dep.field objects
        rw [if_pos set, Machine.eval_bind, nulled]
        rcases ih intact₁ with ⟨s₂, done, intact₂, same₂⟩ | refused
        · exact .inl ⟨s₂, done, intact₂, same₁.trans same₂⟩
        · exact .inr refused
      · rw [if_neg set]
        exact ih intact

theorem deleteDocumentTx_goes (sound : Sound s) (registered : coll ∈ s.collections) (id : Int) :
    ∃ found s', deleteDocumentTx coll id s = .ok (found, s') := by
  obtain ⟨t, docs, -, -⟩ := docs_registered sound registered
  have deleted : s.deleteRow coll.tableName id =
      .ok (t.rows.countP (fun r => r.id == id), s.set coll.tableName (t.delete id)) := by simp [DB.deleteRow, docs]
  unfold deleteDocumentTx
  rw [deleted]
  by_cases none : t.rows.countP (fun r => r.id == id) = 0
  · exact ⟨false, s, if_pos none⟩
  cases vector : coll.hasVector with
  | false => exact ⟨true, _, if_neg none⟩
  | true =>
    obtain ⟨u, index, kind⟩ := sound.fullText coll registered vector
    rw [← find_set_fts (t := t.delete id)] at index
    have removed : deleteFullTextRow coll id (s.set coll.tableName (t.delete id)) =
        .ok ((s.set coll.tableName (t.delete id)).set (ftsTableName coll.tableName) (u.delete id)) := by
      simp [deleteFullTextRow, DB.deleteFullText, index, kind, Except.mapError]
    refine ⟨true, (s.set coll.tableName (t.delete id)).set (ftsTableName coll.tableName) (u.delete id), ?_⟩
    simp only [Except.mapError, bind, Except.bind, pure, Except.pure, none, ↓reduceIte, removed]

/-- A delete in an intact state returns, or is refused for the references to the item. -/
theorem Intact.deletes (intact : Intact h s) : Deletes h s := by
  intro c registered id
  unfold deleteDocument checkReferentialDelete getReferencesTargeting
  simp only [Prog.bind_eq]
  rw [Machine.eval_bind, Machine.eval_bind, eval_read]
  simp only [Except.mapError]
  rcases checkDependents_goes intact id
    ((h.visit (s.targeting c.name)).map fun r => ⟨r.collectionName, r.fieldName, r.onDelete⟩) with
    ⟨s₁, checked, intact₁, same⟩ | ⟨msg, s₁, refused⟩
  · rw [← same.collections] at registered
    obtain ⟨found, s₂, deleted⟩ := deleteDocumentTx_goes intact₁.sound registered id
    rw [checked]
    exact .inl ⟨found, congrArg Prod.fst (Machine.eval_ok _ deleted)⟩
  · rw [refused]
    exact .inr ⟨msg, rfl⟩

/-! ### Runs -/

theorem shallow_admitted {call : Call} (shallow : StoresShallow call) : Admitted h Shallow call := by
  have admits {text : String} {data : Json} (bound : data.depth ≤ jsonMaxDepth) : Admits h Shallow text data := by
    constructor
    · rintro row rfl
      exact bound
    · rintro _ row - rfl - -
      exact bound
  cases call with
  | insertDocument | updateDocument => exact admits shallow
  | insertDocumentBulk => exact fun it listed => admits (shallow it listed)
  | createCollection | renameCollection | dropCollection | deleteDocument => trivial

/-- References that are honoured between serial numbers are honoured by name. -/
theorem integral_byName {w : World} (healthy : Healthy w) : Integral (w.db.references.map (byName w.db)) w.db := by
  intro c registered row member d duty owner
  obtain ⟨r, stored, rfl⟩ := List.mem_map.mp duty
  obtain ⟨p, listed, rfl⟩ : ∃ p ∈ w.declared, p.1 = r := by
    have firsts : w.declared.map Prod.fst = w.db.references := List.map_fst_zip healthy.coherent.length.le
    rw [← firsts] at stored
    exact List.mem_map.mp stored
  obtain unset | isNull | ⟨n, held, target, known, serial, there⟩ := integral_duties.mp healthy.integral c registered row member p listed owner
  · exact .inl unset
  · exact .inr (.inl isNull)
  · refine .inr (.inr ⟨n, held, target, known, ?_, there⟩)
    show w.db.lookup p.1.targetCollection = some target
    rw [healthy.coherent.target p listed target.name serial]
    exact healthy.coherent.sound.lookup known

/-- Listings and counts go through after a run exactly when no item is nested too
    deep, and along runs that store no such item and leave no reference dangling
    deletes do as well. -/
theorem requests_succeed (h : Host) (E : Engine) (calls : List (Call × List Bool))
    (digits : ∀ n : Nat, (E.parseFloat (toString (n : Int))).isSome = true) :
    (Reads h E (reached h calls) ↔ AllRows Shallow (reached h calls)) ∧
      (Along (World.step h) (fun w call => StoresShallow call.1 ∧ Harmless w call.1) calls World.start →
        Reads h E (reached h calls) ∧ Deletes h (reached h calls)) := by
  have sound : Sound (reached h calls) := (run_coherent h calls).sound
  refine ⟨reads_iff digits sound, fun along => ?_⟩
  have both : (Healthy (World.run h calls World.start) ∧ Unambiguous (reached h calls)) ∧ AllRows Shallow (reached h calls) := by
    refine run_invariant (I := fun w : World => (Healthy w ∧ Unambiguous w.db) ∧ AllRows Shallow w.db) ?_
      ⟨⟨start_healthy, by simp [Unambiguous, World.start, openVecDB]⟩, by simp [AllRows, World.start, openVecDB]⟩ along
    rintro w call ⟨⟨healthy, unambiguous⟩, shallow⟩ ⟨stores, harmless⟩
    exact ⟨⟨healthy.step unambiguous harmless, step_unambiguous healthy.coherent.sound harmless.givesMaps unambiguous⟩,
      step_rows healthy.coherent.sound shallow_nullable (shallow_admitted stores) shallow⟩
  have intact : Intact h (reached h calls) := ⟨sound, integral_byName both.1.1, both.1.2, reached_wellEmbedded h calls, both.2⟩
  exact ⟨reads_of_shallow digits sound both.2, intact.deletes⟩

/-- An engine that reads the digits of natural numbers. -/
def digitsEngine : Engine := { Engine.plain with parseFloat := fun s => (parseDigits s.toList).map fun n => some (.finite (n : Nat)) }

theorem digitsEngine_exact (n : Nat) : digitsEngine.parseFloat (toString (n : Int)) = some (some (.finite n)) := by
  have text : (toString (n : Int)).toList = Nat.toDigits 10 n := toList_toString_nonneg (Int.natCast_nonneg n)
  simp only [digitsEngine, text, parseDigits_toDigits, Option.map_some]

theorem digitsEngine_reads (n : Nat) : (digitsEngine.parseFloat (toString (n : Int))).isSome = true := by
  rw [digitsEngine_exact, Option.isSome_some]

instance (call : Call) : Decidable (StoresShallow call) :=
  match call with
  | .insertDocument _ _ _ data => Nat.decLe (dataOrEmpty data).depth jsonMaxDepth
  | .insertDocumentBulk _ batch =>
    @List.decidableBAll _ (fun it : BulkDocumentItem => (dataOrEmpty it.data).depth ≤ jsonMaxDepth) (fun _ => Nat.decLe _ _) batch
  | .updateDocument _ _ _ data => Nat.decLe (dataOrEmpty data).depth jsonMaxDepth
  | .createCollection .. | .renameCollection .. | .dropCollection .. | .deleteDocument .. => isTrue trivial

/-- An item that is referred to can be deleted or is known to be referred to. -/
theorem requests_succeed_referencedItem : Reads Host.uniform digitsEngine (reached Host.uniform referencedItem) ∧
    Deletes Host.uniform (reached Host.uniform referencedItem) :=
  (requests_succeed Host.uniform digitsEngine referencedItem digitsEngine_reads).2 (by decide)

/-- The data of an item can be nested deeper than json_extract reads, and then no
    request that looks at the items of its collection succeeds. -/
theorem deep_item_breaks_reads :
    decodeJSON decodeDocumentRequest (.json (.obj [("data", Reloads.nested 1001)])) = .ok ⟨none, "", some (Reloads.nested 1001)⟩ ∧
    ¬ ∀ (h : Host) (E : Engine) (calls : List (Call × List Bool)),
      (∀ n : Nat, (E.parseFloat (toString (n : Int))).isSome = true) →
        Reads h E (reached h calls) ∧ Deletes h (reached h calls) := by
  have room : (Reloads.nested 1001).depth + 1 ≤ maxNestingDepth := by rw [Reloads.depth_nested, maxNestingDepth]; decide
  refine ⟨Reloads.decode_data room, fun all => ?_⟩
  have shallow := shallow_of_reads (Reloads.oneItem_sound (Reloads.nested 1001)) (all Host.uniform digitsEngine _ digitsEngine_reads).1
  have bound : (Reloads.nested 1001).depth ≤ jsonMaxDepth :=
    shallow ⟨"a", "coll_a", false, 0⟩ (List.mem_singleton.mpr rfl) ⟨1, "", Reloads.nested 1001, []⟩ (List.mem_singleton.mpr rfl)
  rw [Reloads.depth_nested] at bound
  exact absurd bound (by decide)

end Microserver.DeepData
