import Microserver.FullTextIndex
import Microserver.ReferenceChecks

/-!
The cascade of deleteDocument, reduced to its writes. `Nulling` is one rewriting
of a referencing item; what every rewriting and the delete itself keep, the
operation keeps, whatever fails in it.
-/
namespace Microserver.Cascades
open Microserver.Values Microserver.Store Microserver.Programs Microserver.Statements Microserver.Operations
open Microserver.Companion Microserver.Schema Microserver.Items Microserver.Reads Microserver.ReferenceChecks
open Microserver.FullTextIndex

variable {h : Host} {s s' : DB} {srcColl : Collection} {field : String} {row : Row} {id : Int}

/-- One item of `srcColl` is written back with a field nulled. -/
structure Nulling (h : Host) (srcColl : Collection) (field : String) (row : Row) (s s' : DB) : Prop where
  member : row ∈ items s srcColl.tableName
  writes : ∃ fields, row.data = .obj fields ∧
    (srcColl.hasVector = false ∧ (∃ n, s.updateData srcColl.tableName (.obj (setNull field fields)) row.id = .ok (n, s')) ∨
      srcColl.hasVector = true ∧ ∃ vec, h.embed row.text = .ok vec ∧
        updateDocumentTx srcColl row.id row.text (.obj (setNull field fields)) vec s = .ok (true, s'))

/-- The item that a rewriting leaves: its vector is computed anew from its text. -/
def Nulled (h : Host) (srcColl : Collection) (field : String) (row row' : Row) : Prop :=
  row'.id = row.id ∧ row'.text = row.text ∧
    (row'.embedding = row.embedding ∨ srcColl.hasVector = true ∧ h.embed row.text = .ok row'.embedding) ∧
    ∃ fields, row.data = .obj fields ∧ row'.data = .obj (setNull field fields)

theorem items_injective {table : String} {left right : Row} (member : left ∈ items s table) (member' : right ∈ items s table)
    (same : left.id = right.id) : left = right := by
  cases docs : s.docs table with
  | error e => simp [items, docs] at member
  | ok t =>
    rw [items_of_docs docs] at member member'
    exact List.inj_on_of_nodup_map t.key member member' same

/-- A rewriting replaces the item, and writes no other. -/
theorem Nulling.wrote (nulling : Nulling h srcColl field row s s') :
    ∃ row', Nulled h srcColl field row row' ∧ Wrote s s' srcColl.tableName (fun r => r.id ≠ row.id) (fun r => r = row') := by
  obtain ⟨member, fields, object, ⟨plain, n, updated⟩ | ⟨vector, vec, embedded, updated⟩⟩ := nulling
  · have wrote := updateData_wrote updated
    refine ⟨{ row with data := .obj (setNull field fields) }, ⟨rfl, rfl, .inl rfl, fields, object, rfl⟩,
      wrote.schema, wrote.others, fun r => ?_⟩
    rw [wrote.here r]
    refine or_congr_right ?_
    constructor
    · rintro ⟨old, stored, identity, rfl⟩
      rw [items_injective stored member identity]
    · rintro rfl
      exact ⟨row, member, rfl, rfl⟩
  · rcases updateDocumentTx_ok updated with ⟨impossible, -⟩ | ⟨-, -, wrote⟩
    · cases impossible
    · exact ⟨⟨row.id, row.text, .obj (setNull field fields), vec⟩,
        ⟨rfl, rfl, .inr ⟨vector, embedded⟩, fields, object, rfl⟩, wrote⟩

/-- The transaction of updateDocument renews the full-text row of the item. -/
theorem indexPairs_updateDocumentTx {coll : Collection} {text : String} {data : Json} {serialized : Vector32}
    (done : updateDocumentTx coll id text data serialized s = .ok (true, s')) (other : String) :
    indexPairs s' other = if fold (ftsTableName other) = fold (ftsTableName coll.tableName)
      then insert (id, text) (forget (indexPairs s other) id) else indexPairs s other := by
  rcases updateDocumentTx_cases done with ⟨impossible, -⟩ | ⟨-, -, n, s₁, s₂, s₃, deleted, inserted, removed, indexed⟩
  · cases impossible
  · rw [(indexPairs_insertFullText indexed other).2, indexPairs_deleteFullText removed other,
      indexPairs_insertRow (by simp) inserted other, indexPairs_deleteRow deleted other]
    split <;> rfl

/-- A rewriting leaves the full-text tables, but that it renews the row of its own item. -/
theorem Nulling.index (nulling : Nulling h srcColl field row s s') (other : String) :
    indexPairs s' other = if srcColl.hasVector = true ∧ fold other = fold srcColl.tableName
      then insert (pair row) (forget (indexPairs s other) row.id) else indexPairs s other := by
  obtain ⟨member, fields, object, ⟨plain, n, updated⟩ | ⟨vector, vec, embedded, updated⟩⟩ := nulling
  · rw [if_neg (by simp [plain]), indexPairs_updateData updated other]
  · rw [indexPairs_updateDocumentTx updated other]
    by_cases same : fold other = fold srcColl.tableName
    · rw [if_pos (ftsTableName_congr same), if_pos ⟨vector, same⟩]
      rfl
    · rw [if_neg fun equal => same (ftsTableName_injective equal), if_neg fun both => same both.2]

/-- The delete of an item leaves the full-text tables of the other collections. -/
theorem indexPairs_deleteDocumentTx {coll : Collection} {found : Bool} (done : deleteDocumentTx coll id s = .ok (found, s'))
    {other : String} (different : fold other ≠ fold coll.tableName) : indexPairs s' other = indexPairs s other := by
  rcases deleteDocumentTx_cases done with ⟨-, rfl, -⟩ | ⟨-, -, n, s₁, deleted, ⟨-, rfl⟩ | ⟨-, removed⟩⟩
  · rfl
  · exact indexPairs_deleteRow deleted other
  · rw [indexPairs_deleteFullText removed other, if_neg fun same => different (ftsTableName_injective same),
      indexPairs_deleteRow deleted other]

/-! ### What every write keeps -/

theorem wp_nullReferences_induct {I : DB → Prop} {ids : List Int}
    (keeps : ∀ s s' row, I s → row.id ∈ ids → Nulling h srcColl field row s s' → I s') (start : I s) :
    (machine h).wp (fun _ s' => I s') (nullReferences srcColl field ids) s := by
  induction ids generalizing s with
  | nil => exact start
  | cons rid rest ih =>
    unfold nullReferences
    rw [Prog.bind_eq, Machine.wp_bind, Machine.wp_within, wp_getDocumentByID (by intro e; exact start)]
    intro row found
    obtain ⟨member, rfl⟩ := rowById_ok found
    simp only [Except.mapError, Machine.Then]
    cases object : row.data with
    | null | bool _ | int _ | real _ | str _ | arr _ => exact start
    | obj fields =>
      have later (s₁ : DB) (nulling : Nulling h srcColl field row s s₁) : I s₁ ∧
          (machine h).wp (fun _ s' => I s') (nullReferences srcColl field rest) s₁ := by
        have next := keeps s s₁ row start List.mem_cons_self nulling
        exact ⟨next, ih (fun s s' r holds listed => keeps s s' r holds (List.mem_cons_of_mem _ listed)) next⟩
      simp only [Prog.bind_eq]
      rw [Machine.wp_bind, Machine.wp_within]
      refine wp_updateDocument (fun _ => start) ?_ ?_
      · intro plain _ n s₁ updated
        exact (later s₁ ⟨member, fields, object, .inl ⟨plain, n, updated⟩⟩).2
      · intro vector _ vec embedded found s₁ updated
        simp only [vector, ↓reduceIte] at embedded updated
        cases found with
        | false =>
          rcases updateDocumentTx_ok updated with ⟨-, -, absent⟩ | ⟨impossible, -⟩
          · exact absurd rfl (absent row member)
          · cases impossible
        | true => exact (later s₁ ⟨member, fields, object, .inr ⟨vector, vec, embedded, updated⟩⟩).2

/-- What the rewriting of each matching item keeps, checkReferentialDelete keeps.
    The match may be an earlier state's: the ids are read before the items. -/
theorem wp_checkDependents_induct {I : DB → Prop} {deps : List ReferenceDependent}
    (keeps : ∀ dep ∈ deps, dep.onDelete = onDeleteSetNull → ∀ s₁ srcColl, I s₁ →
      s₁.lookup dep.collectionName = some srcColl → ∀ row₁ ∈ items s₁ srcColl.tableName, Matches h dep.field id row₁ →
        ∀ s s' row, I s → row.id = row₁.id → Nulling h srcColl dep.field row s s' → I s') (start : I s) :
    (machine h).wp (fun _ s' => I s') (checkDependents id deps) s := by
  induction deps generalizing s with
  | nil => exact start
  | cons dep rest ih =>
    have onward (s₁ : DB) (holds : I s₁) : (machine h).wp (fun _ s' => I s') (checkDependents id rest) s₁ :=
      ih (fun dep' member => keeps dep' (List.mem_cons_of_mem _ member)) holds
    unfold checkDependents
    rw [Prog.bind_eq, Machine.wp_bind, Machine.wp_attempt, wp_getCollection]
    refine ⟨?_, fun _ => onward s start, ?_⟩
    · intro srcColl registered
      simp only [Machine.Then, Prog.bind_eq]
      rw [Machine.wp_bind, wp_read (by intro e; exact start)]
      intro found matched
      simp only [Machine.Then]
      by_cases none : found.isEmpty = true
      · rw [if_pos none]
        exact onward s start
      · rw [if_neg none]
        by_cases restrict : dep.onDelete = onDeleteRestrict
        · rw [if_pos restrict]
          exact start
        · rw [if_neg restrict]
          by_cases policy : dep.onDelete = onDeleteSetNull
          · rw [if_pos policy, Machine.wp_bind]
            refine (machine h).wp_mono ?_ (wp_nullReferences_induct (I := I) ?_ start)
            · intro r s₁ holds
              cases r with
              | error e => exact holds
              | ok _ => exact onward s₁ holds
            · intro s₁ s₂ row holds listed nulling
              obtain ⟨row₁, member, same, matched'⟩ := (mem_matching matched).mp listed
              exact keeps dep List.mem_cons_self policy s srcColl start registered row₁ member matched' s₁ s₂ row holds same.symm
                nulling
          · rw [if_neg policy]
            exact onward s start
    · have other : (Err.wrapped "looking up collection" (machine h).fault).is .collectionNotFound = false := by
        simp [Err.is, machine]
      simp only [Machine.Then]
      rw [if_neg (by rw [other]; exact Bool.false_ne_true)]
      exact start

/-- What its rewritings keep, checkReferentialDelete keeps. -/
theorem wp_checkReferentialDelete_induct {I : DB → Prop} {name : String}
    (keeps : ∀ r ∈ s.references, r.targetCollection = name → r.onDelete = onDeleteSetNull → ∀ s₁ srcColl, I s₁ →
      s₁.lookup r.collectionName = some srcColl → ∀ row₁ ∈ items s₁ srcColl.tableName, Matches h r.fieldName id row₁ →
        ∀ s₂ s₃ row, I s₂ → row.id = row₁.id → Nulling h srcColl r.fieldName row s₂ s₃ → I s₃) (start : I s) :
    (machine h).wp (fun _ s' => I s') (checkReferentialDelete name id) s := by
  refine wp_checkReferentialDelete (fun _ => start) fun deps rows => ?_
  refine wp_checkDependents_induct ?_ start
  intro dep member policy
  obtain ⟨r, known, target, rfl⟩ := (rows dep).mp member
  exact keeps r known target policy

/-- What its rewritings and its transaction keep, deleteDocument keeps. -/
theorem wp_deleteDocument_induct {I : DB → Prop} {coll : Collection}
    (keeps : ∀ r ∈ s.references, r.targetCollection = coll.name → r.onDelete = onDeleteSetNull → ∀ s₁ srcColl, I s₁ →
      s₁.lookup r.collectionName = some srcColl → ∀ row₁ ∈ items s₁ srcColl.tableName, Matches h r.fieldName id row₁ →
        ∀ s₂ s₃ row, I s₂ → row.id = row₁.id → Nulling h srcColl r.fieldName row s₂ s₃ → I s₃)
    (deletes : ∀ s₁ s₂ found, I s₁ → deleteDocumentTx coll id s₁ = .ok (found, s₂) → I s₂) (start : I s) :
    (machine h).wp (fun _ s' => I s') (deleteDocument coll id) s := by
  unfold deleteDocument
  rw [Prog.bind_eq, Machine.wp_bind]
  refine (machine h).wp_mono ?_ (wp_checkReferentialDelete_induct keeps start)
  intro r s₁ holds
  cases r with
  | error e => exact holds
  | ok _ =>
    simp only [Machine.Then]
    rw [Machine.wp_call]
    exact ⟨fun found s₂ deleted => deletes s₁ s₂ found holds deleted, fun _ _ => holds, holds⟩

end Microserver.Cascades
