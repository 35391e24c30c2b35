import Microserver.Histories

/-!
Failed deletes. checkReferentialDelete changes the dependents one after the
other, each in its own transaction, so what a failing deleteDocument leaves
behind depends on the first dependent that refers to the item: nothing is lost
exactly when the delete stops there.
-/
namespace Microserver.FailedDeletes
open Microserver.Values Microserver.Store Microserver.Programs Microserver.Statements Microserver.Operations
open Microserver.Schema Microserver.Items Microserver.Reads Microserver.ReferenceChecks Microserver.Histories

/-- A failed run of the operation ends in the state it started from. -/
def LeavesNoTrace {α : Type} (h : Host) (op : Op α) (s : DB) : Prop :=
  ∀ faults e, ((machine h).run op faults s).1 = .error e → ((machine h).run op faults s).2 = s

/-- The references that checkReferentialDelete goes through, in its order. -/
def dependents (h : Host) (s : DB) (collectionName : String) : List ReferenceDependent :=
  (h.visit (s.targeting collectionName)).map fun r => ⟨r.collectionName, r.fieldName, r.onDelete⟩

/-- The tables of a collection take a row with this embedding. -/
def TakesRow (h : Host) (s : DB) (coll : Collection) (text : String) (data : Json) : Prop :=
  coll.hasVector = true → ∃ vec, h.embed text = .ok vec ∧
    (∃ t, s.docs coll.tableName = .ok t ∧ (Columns.vector vec text data).fits t.kind = true) ∧
    ∃ u, s.find (ftsTableName coll.tableName) = some u ∧ u.kind = .fts5

/-- Nothing stands in the way of nulling the field in the item. -/
def Rewritable (h : Host) (s : DB) (srcColl : Collection) (field : String) (rid : Int) : Prop :=
  ∃ row fields, s.rowById srcColl.tableName srcColl.hasVector rid = .ok (some row) ∧ row.data = .obj fields ∧
    Accepts s srcColl.name (some (.obj (setNull field fields))) ∧
    TakesRow h s srcColl row.text (.obj (setNull field fields))

/-- The first dependent that refers to the item stops the delete before anything
    is written: it is `restrict`, or its first item cannot be rewritten. -/
def StopsFirst (h : Host) (s : DB) (id : Int) : List ReferenceDependent → Prop
  | [] => True
  | dep :: rest =>
    match s.lookup dep.collectionName with
    | none => StopsFirst h s id rest
    | some srcColl =>
      match s.matching h srcColl.tableName dep.field id with
      | .error _ => True
      | .ok [] => StopsFirst h s id rest
      | .ok (rid :: _) =>
        if dep.onDelete = onDeleteRestrict then True
        else if dep.onDelete = onDeleteSetNull then ¬ Rewritable h s srcColl dep.field rid
        else StopsFirst h s id rest

variable {h : Host} {s s' : DB}

/-! ### The rewriting update -/

theorem find_set_fts {table : String} {t : Table} :
    (s.set table t).find (ftsTableName table) = s.find (ftsTableName table) := by
  rw [DB.find_set, if_neg (fold_ftsTableName_ne table)]

/-- An INSERT of an absent id goes through. -/
theorem insertRow_absent {table : String} {t : Table} (s : DB) (id : Int) (columns : Columns) (there : s.find table = some t)
    (fits : columns.fits t.kind = true) (absent : t.has id = false) :
    ∃ t', s.insertRow table (some id) columns = .ok (id, s.set table t') ∧ t'.kind = t.kind := by
  refine ⟨t.append id columns absent, ?_, rfl⟩
  simp [DB.insertRow, there, fits, Table.insert, absent]

theorem delete_has (t : Table) (id : Int) : (t.delete id).has id = false := by
  simp [Table.has, Table.delete]

/-- The transaction of updateDocument goes through for an item that is there,
    when the tables take the row. -/
theorem updateDocumentTx_goes {coll : Collection} {id : Int} {text : String} {data : Json} {vec : Vector32}
    {t u : Table} {row : Row} (docs : s.docs coll.tableName = .ok t) (member : row ∈ t.rows) (identity : row.id = id)
    (fits : (Columns.vector vec text data).fits t.kind = true)
    (index : s.find (ftsTableName coll.tableName) = some u) (kind : u.kind = .fts5) :
    ∃ s', updateDocumentTx coll id text data vec s = .ok (true, s') := by
  have present : t.rows.countP (fun r => r.id == id) ≠ 0 := by
    intro none
    simpa [identity] using List.countP_eq_zero.mp none row member
  obtain ⟨t', inserted, -⟩ := insertRow_absent (s.set coll.tableName (t.delete id)) id (.vector vec text data)
    (DB.find_set_same s coll.tableName (t.delete id)) fits (delete_has t id)
  have index₂ : ((s.set coll.tableName (t.delete id)).set coll.tableName t').find (ftsTableName coll.tableName) = some u := by
    rw [find_set_fts, find_set_fts, index]
  obtain ⟨u', indexed, -⟩ := insertRow_absent
    (((s.set coll.tableName (t.delete id)).set coll.tableName t').set (ftsTableName coll.tableName) (u.delete id)) id (.fullText text)
    (DB.find_set_same _ _ _) (by rw [Table.delete_kind, kind]; rfl) (delete_has u id)
  refine ⟨(((s.set coll.tableName (t.delete id)).set coll.tableName t').set (ftsTableName coll.tableName) (u.delete id)).set
    (ftsTableName coll.tableName) u', ?_⟩
  simp only [updateDocumentTx, DB.deleteRow, docs, Except.mapError, bind, Except.bind, present, ↓reduceIte, inserted,
    deleteFullTextRow, DB.deleteFullText, index₂, kind, insertFullTextRow, indexed, pure, Except.pure]

/-- What the transaction of updateDocument needs when it finds the item. -/
theorem updateDocumentTx_needs {coll : Collection} {id : Int} {text : String} {data : Json} {vec : Vector32}
    (done : updateDocumentTx coll id text data vec s = .ok (true, s')) :
    (∃ t, s.docs coll.tableName = .ok t ∧ (Columns.vector vec text data).fits t.kind = true) ∧
      ∃ u, s.find (ftsTableName coll.tableName) = some u ∧ u.kind = .fts5 := by
  rcases updateDocumentTx_cases done with ⟨no, -⟩ | ⟨-, -, n, s₁, s₂, s₃, deleted, inserted, removed, -⟩
  · cases no
  · obtain ⟨t, docs, -, rfl⟩ := DB.deleteRow_ok deleted
    obtain ⟨t₁, t₂, there, fits, -, rfl⟩ := DB.insertRow_ok inserted
    rw [DB.find_set_same] at there
    cases there
    obtain ⟨u, index, kind, -⟩ := DB.deleteFullText_ok removed
    rw [find_set_fts, find_set_fts] at index
    exact ⟨⟨t, docs, fits⟩, u, index, kind⟩

/-! ### What fails after the first write -/

/-- Under `Q` a failure means that the state is `s`. -/
def FailsIn {α : Type} (s : DB) (r : Except Err α) (s' : DB) : Prop := ∀ e, r = .error e → s' = s

theorem failsIn_error {α : Type} (e : Err) : FailsIn s (.error e : Except Err α) s := fun _ _ => rfl

theorem failsIn_ok {α : Type} (a : α) : FailsIn s (.ok a : Except Err α) s' := fun _ impossible => by cases impossible

/-- The end of deleteDocument. -/
def deleteItself (coll : Collection) (id : Int) : Unit → Op Bool := fun _ => .call (fun e => e) (.deleteDocument coll id)

/-- What remains after a dependent can still fail, so it must not start from another state. -/
theorem checkDependents_fails {coll : Collection} {id : Int} {rest : List ReferenceDependent}
    (safe : (machine h).wp ((machine h).Then (FailsIn s) (deleteItself coll id)) (checkDependents id rest) s') : s' = s := by
  cases rest with
  | nil =>
    have failed : FailsIn s (.error (machine h).fault : Except Err Bool) s' := safe.2.2
    exact failed _ rfl
  | cons dep rest =>
    unfold checkDependents at safe
    rw [Prog.bind_eq, Machine.wp_bind, Machine.wp_attempt, wp_getCollection] at safe
    have failed := safe.2.2
    have other : (Err.wrapped "looking up collection" (machine h).fault).is .collectionNotFound = false := by
      simp [Err.is, machine]
    simp only [Machine.Then, other, Bool.false_eq_true, ↓reduceIte] at failed
    exact failed _ rfl

theorem nullReferences_fails {coll srcColl : Collection} {field : String} {id : Int} {ids : List Int}
    {rest : List ReferenceDependent}
    (safe : (machine h).wp ((machine h).Then ((machine h).Then (FailsIn s) (deleteItself coll id)) fun _ => checkDependents id rest)
      (nullReferences srcColl field ids) s') : s' = s := by
  cases ids with
  | nil => exact checkDependents_fails safe
  | cons rid ids =>
    unfold nullReferences getDocumentByID at safe
    rw [Prog.bind_eq, Machine.wp_bind, Machine.wp_within, Prog.bind_eq, Machine.wp_bind, Machine.wp_call] at safe
    exact safe.2.2 _ rfl

/-! ### The first write -/

theorem matching_cons {table field : String} {id rid : Int} {more : List Int}
    (done : s.matching h table field id = .ok (rid :: more)) :
    ∃ row ∈ items s table, row.id = rid ∧ row.data.field field ≠ some .null := by
  unfold DB.matching at done
  cases docs : s.docs table with
  | error e => simp [docs] at done
  | ok t =>
    simp only [docs] at done
    by_cases malformed : t.rows.any (fun r => jsonMaxDepth < r.data.depth) = true
    · rw [if_pos malformed] at done
      cases done
    · rw [if_neg malformed] at done
      have listed : rid ∈ (h.visit (t.rows.filter fun r => (jsonExtract h.jsonText r.data field).equalsInt id)).map (·.id) := by
        rw [Except.ok.inj done]
        exact List.mem_cons_self
      obtain ⟨row, member, identity⟩ := List.mem_map.mp listed
      rw [Host.mem_visit, List.mem_filter] at member
      rw [items_of_docs docs]
      refine ⟨row, member.1, identity, ?_⟩
      intro isNull
      rw [jsonExtract_unset (.inr isNull)] at member
      simp at member

/-- Nulling the field of an item that has it set changes the state. -/
theorem rewriting_changes {srcColl : Collection} {field : String} {rid : Int} {new : Row → Prop} {row₀ : Row}
    {fields : List (String × Json)} (wrote : Wrote s s' srcColl.tableName (fun r => r.id ≠ rid) new)
    (nulled : ∀ r, new r → r.id = rid ∧ r.data = .obj (setNull field fields))
    (member₀ : row₀ ∈ items s srcColl.tableName) (identity₀ : row₀.id = rid) (set : row₀.data.field field ≠ some .null) :
    s' ≠ s := by
  intro same
  have after := nulled_of_replaced wrote nulled row₀
  rw [same] at after
  exact set (after member₀ identity₀)

/-- The loop over the referencing items is safe only if its first item cannot be rewritten. -/
theorem nullReferences_safe {coll srcColl : Collection} {field : String} {id rid : Int} {more : List Int}
    {rest : List ReferenceDependent} (matched : s.matching h srcColl.tableName field id = .ok (rid :: more)) :
    (machine h).wp ((machine h).Then ((machine h).Then (FailsIn s) (deleteItself coll id)) fun _ => checkDependents id rest)
        (nullReferences srcColl field (rid :: more)) s ↔ ¬ Rewritable h s srcColl field rid := by
  obtain ⟨row₀, member₀, identity₀, set⟩ := matching_cons matched
  have stop (e : Err) : (machine h).Then ((machine h).Then (FailsIn s) (deleteItself coll id))
      (fun _ : Unit => checkDependents id rest) (.error e) s := failsIn_error e
  unfold nullReferences
  rw [Prog.bind_eq, Machine.wp_bind, Machine.wp_within, wp_getDocumentByID (by intro e; exact stop _)]
  simp only [Except.mapError, Machine.Then, Prog.bind_eq]
  constructor
  · rintro safe ⟨row, fields, found, object, accepts, takes⟩
    obtain ⟨member, identity⟩ := rowById_ok found
    have rewriting := safe row found
    simp only [object] at rewriting
    rw [Machine.wp_bind, Machine.wp_within] at rewriting
    unfold updateDocument at rewriting
    rw [Prog.bind_eq, Machine.wp_bind, wp_validateReferences (by intro e; exact stop _)] at rewriting
    have written := rewriting accepts
    cases vector : srcColl.hasVector with
    | false =>
      simp only [Machine.Then, vector, Bool.not_false, ↓reduceIte, Prog.bind_eq, Prog.pure_eq] at written
      rw [Machine.wp_bind, Machine.wp_call] at written
      cases docs : s.docs srcColl.tableName with
      | error e => simp [DB.rowById, docs] at found
      | ok t =>
        have updated : s.updateData srcColl.tableName (dataOrEmpty (some (.obj (setNull field fields)))) rid =
            .ok (t.rows.countP (fun r => r.id == rid), s.set srcColl.tableName
              (t.setData rid (.obj (setNull field fields)))) := by
          simp [DB.updateData, docs, dataOrEmpty]
        have wrote := updateData_wrote updated
        have nulled : ∀ r, (∃ old ∈ items s srcColl.tableName, old.id = rid ∧
            r = { old with data := .obj (setNull field fields) }) → r.id = rid ∧ r.data = .obj (setNull field fields) := by
          rintro r ⟨old, -, id', rfl⟩
          exact ⟨id', rfl⟩
        exact rewriting_changes wrote nulled member₀ identity₀ set (nullReferences_fails (written.1 _ _ updated))
    | true =>
      simp only [Machine.Then, vector, Bool.not_true, Bool.false_eq_true, ↓reduceIte, Prog.bind_eq] at written
      obtain ⟨vec, embedded, ⟨t, docs, fits⟩, u, index, kind⟩ := takes vector
      rw [Machine.wp_bind, wp_embed (by intro e; exact stop _)] at written
      have transaction := written vec (by simpa [vector] using embedded)
      simp only [Machine.Then] at transaction
      rw [Machine.wp_call] at transaction
      obtain ⟨s', done⟩ := updateDocumentTx_goes docs (by rw [← items_of_docs docs]; exact member) identity fits index kind
      rcases updateDocumentTx_ok done with ⟨impossible, -⟩ | ⟨-, -, wrote⟩
      · cases impossible
      · have nulled : ∀ r, r = (⟨rid, row.text, .obj (setNull field fields), vec⟩ : Row) →
            r.id = rid ∧ r.data = .obj (setNull field fields) := by
          rintro r rfl
          exact ⟨rfl, rfl⟩
        exact rewriting_changes wrote nulled member₀ identity₀ set (nullReferences_fails (transaction.1 true s' done))
  · intro stuck row found
    obtain ⟨member, identity⟩ := rowById_ok found
    cases object : row.data with
    | null | bool _ | int _ | real _ | str _ | arr _ => exact stop _
    | obj fields =>
      simp only
      rw [Machine.wp_bind, Machine.wp_within]
      unfold updateDocument
      rw [Prog.bind_eq, Machine.wp_bind, wp_validateReferences (by intro e; exact stop _)]
      intro accepts
      cases vector : srcColl.hasVector with
      | false =>
        refine absurd ⟨row, fields, found, object, accepts, ?_⟩ stuck
        intro impossible
        rw [vector] at impossible
        cases impossible
      | true =>
        simp only [Machine.Then, Bool.not_true, Bool.false_eq_true, ↓reduceIte, Prog.bind_eq]
        rw [Machine.wp_bind, wp_embed (by intro e; exact stop _)]
        intro vec embedded
        simp only [Machine.Then]
        rw [Machine.wp_call]
        refine ⟨?_, fun e _ => stop _, stop _⟩
        intro b s' done
        cases b with
        | true =>
          refine absurd ⟨row, fields, found, object, accepts, ?_⟩ stuck
          intro _
          exact ⟨vec, embedded, updateDocumentTx_needs done⟩
        | false =>
          rcases updateDocumentTx_ok done with ⟨-, -, absent⟩ | ⟨impossible, -⟩
          · exact absurd identity (absent row member)
          · cases impossible

/-- The loop over the dependents is safe exactly when the first one that refers to the item stops it. -/
theorem checkDependents_safe (coll : Collection) {id : Int} {deps : List ReferenceDependent} :
    (machine h).wp ((machine h).Then (FailsIn s) (deleteItself coll id)) (checkDependents id deps) s ↔ StopsFirst h s id deps := by
  have stop (e : Err) : (machine h).Then (FailsIn s) (deleteItself coll id) (.error e) s := failsIn_error e
  induction deps with
  | nil =>
    refine ⟨fun _ => trivial, fun _ => ?_⟩
    exact ⟨fun b _ _ => failsIn_ok b, fun e _ => failsIn_error e, failsIn_error _⟩
  | cons dep rest ih =>
    unfold checkDependents
    rw [Prog.bind_eq, Machine.wp_bind, Machine.wp_attempt, wp_getCollection]
    simp only [Machine.Then, ↓reduceIte, Err.is, decide_true]
    cases registered : s.lookup dep.collectionName with
    | none =>
      simp only [StopsFirst, registered]
      constructor
      · intro safe
        exact ih.mp (safe.2.1 trivial)
      · intro stops
        exact ⟨fun c impossible => (by cases impossible), fun _ => ih.mpr stops, stop _⟩
    | some srcColl =>
      have reading : (machine h).wp ((machine h).Then (FailsIn s) (deleteItself coll id))
          ((Prog.call (.wrapped ("checking references from " ++ quote dep.collectionName))
            (.read fun h s => s.matching h srcColl.tableName dep.field id)).bind fun found =>
              if found.isEmpty then checkDependents id rest
              else if dep.onDelete = onDeleteRestrict then
                .fail (.referentialConstraint ("cannot delete: referenced by " ++ toString found.length ++
                  " item(s) in collection " ++ quote dep.collectionName ++ " (field " ++ quote dep.field ++ ")"))
              else if dep.onDelete = onDeleteSetNull then
                (nullReferences srcColl dep.field found).bind fun _ => checkDependents id rest
              else checkDependents id rest) s ↔ StopsFirst h s id (dep :: rest) := by
        rw [Machine.wp_bind, wp_read (by intro e; exact stop _)]
        simp only [StopsFirst, registered]
        cases matched : s.matching h srcColl.tableName dep.field id with
        | error e => simp
        | ok found =>
          simp only [Except.ok.injEq, forall_eq', Machine.Then]
          cases found with
          | nil => exact ih
          | cons rid more =>
            simp only [List.isEmpty_cons, Bool.false_eq_true, ↓reduceIte]
            by_cases restrict : dep.onDelete = onDeleteRestrict
            · rw [if_pos restrict, if_pos restrict]
              exact ⟨fun _ => trivial, fun _ => stop _⟩
            · rw [if_neg restrict, if_neg restrict]
              by_cases setNull : dep.onDelete = onDeleteSetNull
              · rw [if_pos setNull, if_pos setNull, Machine.wp_bind]
                exact nullReferences_safe matched
              · rw [if_neg setNull, if_neg setNull]
                exact ih
      constructor
      · intro safe
        exact reading.mp (safe.1 srcColl rfl)
      · intro stops
        refine ⟨?_, fun impossible => (by cases impossible), stop _⟩
        intro c same
        cases same
        exact reading.mpr stops

/-- A failed delete leaves no trace, whatever fails in it, exactly when the first
    dependent that refers to the item stops it before the first write. -/
theorem deleteDocument_leavesNoTrace_iff (h : Host) (s : DB) (coll : Collection) (id : Int) :
    LeavesNoTrace h (deleteDocument coll id) s ↔ StopsFirst h s id (dependents h s coll.name) := by
  have judged : LeavesNoTrace h (deleteDocument coll id) s ↔ (machine h).wp (FailsIn s) (deleteDocument coll id) s := by
    rw [Machine.wp_iff_run]
    rfl
  rw [judged, ← checkDependents_safe coll]
  unfold deleteDocument checkReferentialDelete getReferencesTargeting
  simp only [Prog.bind_eq]
  rw [Machine.wp_bind, Machine.wp_bind, wp_read (by intro e; exact failsIn_error _)]
  simp only [Except.ok.injEq, forall_eq', Machine.Then]
  rfl

/-- An item of `t` with two dependents, the first of them `set_null` and the second `restrict`. -/
def mixedDependents : List (Call × List Bool) :=
  [(.createCollection "t" false 0 ⟨[], List.nodup_nil⟩, []),
    (.insertDocument "t" none "" none, []),
    (.createCollection "a" false 0 ⟨[("f", ⟨"t", "set_null"⟩)], List.nodup_singleton "f"⟩, []),
    (.createCollection "b" false 0 ⟨[("g", ⟨"t", "restrict"⟩)], List.nodup_singleton "g"⟩, []),
    (.insertDocument "a" none "" (some (.obj [("f", .int 1)])), []),
    (.insertDocument "b" none "" (some (.obj [("g", .int 1)])), [])]

/-- The refused delete has nulled the field of the first dependent. -/
theorem refused_delete_leaves_trace :
    ¬ ∀ (h : Host) (calls : List (Call × List Bool)) (coll : Collection) (id : Int),
      LeavesNoTrace h (deleteDocument coll id) (World.run h calls World.start).db := by
  intro all
  have refused : ((machine Host.uniform).run (deleteDocument ⟨"t", "coll_t", false, 0⟩ 1) []
      (World.run Host.uniform mixedDependents World.start).db).1.isOk = false := by decide
  have before : (items (World.run Host.uniform mixedDependents World.start).db "coll_a").any
      (fun row => (jsonExtract (fun _ => "") row.data "f").equalsInt 1) = true := by decide
  have after : (items ((machine Host.uniform).run (deleteDocument ⟨"t", "coll_t", false, 0⟩ 1) []
      (World.run Host.uniform mixedDependents World.start).db).2 "coll_a").any
      (fun row => (jsonExtract (fun _ => "") row.data "f").equalsInt 1) = false := by decide
  cases outcome : ((machine Host.uniform).run (deleteDocument ⟨"t", "coll_t", false, 0⟩ 1) []
      (World.run Host.uniform mixedDependents World.start).db).1 with
  | ok b =>
    rw [outcome] at refused
    cases refused
  | error e =>
    rw [all Host.uniform mixedDependents ⟨"t", "coll_t", false, 0⟩ 1 [] e outcome, before] at after
    cases after

end Microserver.FailedDeletes
