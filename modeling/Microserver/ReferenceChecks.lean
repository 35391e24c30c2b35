import Microserver.Integrity

/-!
The operations on items, each run alone: whatever fails on the way, they leave
the schema as it is and keep the duties, provided that what validateReferences
accepts is acceptable and that checkReferentialDelete looks at every duty that
the item to delete can serve.
-/
namespace Microserver.ReferenceChecks
open Microserver.Values Microserver.Store Microserver.Programs Microserver.Statements Microserver.Operations
open Microserver.Schema Microserver.Items Microserver.Reads Microserver.Integrity

variable {h : Host} {s s' : DB} {duties : List Duty} {coll : Collection}

/-- The schema is as before and the duties are met. -/
structure Keeps (duties : List Duty) (s s' : DB) : Prop where
  schema : SameSchema s s'
  integral : Integral duties s'

theorem Keeps.refl (integral : Integral duties s) : Keeps duties s s := ⟨SameSchema.refl s, integral⟩

/-! ### Storing items -/

theorem insertDocument_keeps {id : Option Int} {text : String} {data : Option Json} (integral : Integral duties s)
    (acceptable : Accepts s coll.name data → Acceptable duties s coll.tableName (dataOrEmpty data)) :
    (machine h).wp (fun _ s' => Keeps duties s s') (insertDocument coll id text data) s := by
  refine wp_insertDocument (fun _ => Keeps.refl integral) ?_ ?_
  · intro _ accepted assigned s' inserted
    exact ⟨(insertRow_wrote (by simp) inserted).schema, integral.insertRow inserted fun _ => acceptable accepted⟩
  · intro _ accepted vec _ assigned s' inserted
    have wrote := insertRow_wrote (by simp) inserted
    have after : Keeps duties s s' := ⟨wrote.schema, integral.insertRow inserted fun _ => acceptable accepted⟩
    refine ⟨fun _ => after, ?_⟩
    intro again s'' indexed
    exact ⟨(insertFullText_wrote wrote indexed).schema, after.integral.insertRow indexed (by simp)⟩

theorem insertDocumentBulk_keeps {items : List BulkDocumentItem} (integral : Integral duties s)
    (acceptable : ∀ it ∈ items, Accepts s coll.name it.data →
      Acceptable duties s coll.tableName (dataOrEmpty it.data)) :
    (machine h).wp (fun _ s' => Keeps duties s s') (insertDocumentBulk coll items) s := by
  refine wp_insertDocumentBulk (fun _ => Keeps.refl integral) ?_
  intro preparedItems each _ ids s' inserted
  obtain ⟨new, wrote, -⟩ := insertDocumentBulkTx_wrote inserted
  refine ⟨wrote.schema, integral.insertDocumentBulk inserted ?_⟩
  intro p member
  obtain ⟨it, listed, prepares⟩ := each p member
  rw [prepares.data]
  exact acceptable it listed prepares.accepted

theorem updateDocumentTx_schema {id : Int} {text : String} {data : Json} {serialized : Vector32} {found : Bool}
    (done : updateDocumentTx coll id text data serialized s = .ok (found, s')) : SameSchema s s' := by
  rcases updateDocumentTx_ok done with ⟨-, same, -⟩ | ⟨-, -, wrote⟩
  · rw [same]
    exact SameSchema.refl s
  · exact wrote.schema

theorem updateDocument_keeps {id : Int} {text : String} {data : Option Json} (integral : Integral duties s)
    (acceptable : Accepts s coll.name data → (∃ row ∈ items s coll.tableName, row.id = id) →
      Acceptable duties s coll.tableName (dataOrEmpty data)) :
    (machine h).wp (fun _ s' => Keeps duties s s') (updateDocument coll id text data) s := by
  refine wp_updateDocument (fun _ => Keeps.refl integral) ?_ ?_
  · intro _ accepted n s' updated
    exact ⟨(updateData_wrote updated).schema, integral.updateData updated (acceptable accepted)⟩
  · intro _ accepted vec _ found s' updated
    exact ⟨updateDocumentTx_schema updated, integral.updateDocument updated (acceptable accepted)⟩

/-! ### Nulling references -/

/-- The items are those of before, except that fields have become null. -/
structure Fades (s s' : DB) : Prop where
  schema : SameSchema s s'
  origin : ∀ table, ∀ row' ∈ items s' table, ∃ row ∈ items s table, row.id = row'.id ∧
    ∀ f, row'.data.field f = row.data.field f ∨ row'.data.field f = some .null

theorem Fades.refl (s : DB) : Fades s s := ⟨SameSchema.refl s, fun _ row member => ⟨row, member, rfl, fun _ => .inl rfl⟩⟩

theorem Fades.trans {s₁ s₂ s₃ : DB} (first : Fades s₁ s₂) (second : Fades s₂ s₃) : Fades s₁ s₃ := by
  refine ⟨first.schema.trans second.schema, ?_⟩
  intro table row₃ member
  obtain ⟨row₂, member₂, id₂, fields₂⟩ := second.origin table row₃ member
  obtain ⟨row₁, member₁, id₁, fields₁⟩ := first.origin table row₂ member₂
  refine ⟨row₁, member₁, id₁.trans id₂, ?_⟩
  intro f
  rcases fields₂ f with same | isNull
  · rw [same]
    exact fields₁ f
  · exact .inr isNull

/-- A statement that replaces the row of an id by one with a field nulled. -/
theorem nulled_of_replaced {field table : String} {id : Int} {new : Row → Prop} {fields : List (String × Json)}
    (wrote : Wrote s s' table (fun r => r.id ≠ id) new)
    (nulled : ∀ r, new r → r.id = id ∧ r.data = .obj (setNull field fields)) :
    ∀ row' ∈ items s' table, row'.id = id → row'.data.field field = some .null := by
  intro row' there id'
  rcases (wrote.here row').mp there with ⟨-, other⟩ | fresh
  · exact absurd id' other
  · rw [(nulled row' fresh).2]
    exact field_setNull_same field fields

/-- The rewritten item keeps its other fields if no name in it is ambiguous. -/
theorem Fades.replaced (field : String) {table : String} {id : Int} {new : Row → Prop} {fields : List (String × Json)} {row : Row}
    (wrote : Wrote s s' table (fun r => r.id ≠ id) new) (member : row ∈ items s table) (identity : row.id = id)
    (object : row.data = .obj fields) (unambiguous : row.data.Unambiguous)
    (nulled : ∀ r, new r → r.id = id ∧ r.data = .obj (setNull field fields)) : Fades s s' := by
  refine ⟨wrote.schema, ?_⟩
  intro other row' there
  rcases wrote.origin there with ⟨old, -⟩ | ⟨same, fresh⟩
  · exact ⟨row', old, rfl, fun _ => .inl rfl⟩
  · obtain ⟨id', data⟩ := nulled row' fresh
    refine ⟨row, by rwa [items_congr same], identity.trans id'.symm, ?_⟩
    intro f
    by_cases here : f = field
    · rw [data, here]
      exact .inr (field_setNull_same field fields)
    · rw [← unambiguous.lastField_eq f, data, object]
      exact .inl (field_setNull_other here fields)

/-- An object with a field nulled is acceptable where the object was. -/
theorem Acceptable.setNull {table field : String} {fields : List (String × Json)} (unambiguous : (Json.obj fields).Unambiguous)
    (acceptable : Acceptable duties s table (.obj fields)) : Acceptable duties s table (.obj (setNull field fields)) := by
  intro c registered same d duty owner
  by_cases here : d.field = field
  · rw [here]
    exact .inr (.inl (field_setNull_same field fields))
  · rw [field_setNull_other here, unambiguous.lastField_eq]
    exact acceptable c registered same d duty owner

/-- What nulling references keeps: the duties, and that no item is ambiguous. -/
structure Clear (duties : List Duty) (s : DB) : Prop where
  integral : Integral duties s
  unambiguous : Unambiguous s

/-- The rewritten item is unambiguous, whatever it was. -/
theorem unambiguous_replaced {field table : String} {kept new : Row → Prop} {fields : List (String × Json)}
    (unambiguous : Unambiguous s) (wrote : Wrote s s' table kept new)
    (nulled : ∀ r, new r → r.data = .obj (setNull field fields)) : Unambiguous s' := by
  intro c registered row' there
  rw [wrote.schema.collections] at registered
  rcases wrote.origin there with ⟨old, -⟩ | ⟨-, fresh⟩
  · exact unambiguous c registered row' old
  · rw [nulled row' fresh]
    exact unambiguous_setNull field fields

/-- The update of one referencing item. -/
theorem nullOne {srcColl : Collection} {field : String} {rid : Int} {text : String} {row : Row}
    {fields : List (String × Json)} (clear : Clear duties s) (registered : srcColl ∈ s.collections)
    (member : row ∈ items s srcColl.tableName) (identity : row.id = rid) (object : row.data = .obj fields) :
    (machine h).wp (fun r s' => Clear duties s' ∧ Fades s s' ∧
        (∀ b, r = .ok b → ∀ row' ∈ items s' srcColl.tableName, row'.id = rid → row'.data.field field = some .null))
      (updateDocument srcColl rid text (some (.obj (setNull field fields)))) s := by
  have stays (e : Err) : Clear duties s ∧ Fades s s ∧ (∀ b : Bool, Except.error e = .ok b →
      ∀ row' ∈ items s srcColl.tableName, row'.id = rid → row'.data.field field = some .null) :=
    ⟨clear, Fades.refl s, fun b impossible => by cases impossible⟩
  have unambiguous : row.data.Unambiguous := clear.unambiguous srcColl registered row member
  have acceptable : Acceptable duties s srcColl.tableName (.obj (setNull field fields)) := by
    refine Acceptable.setNull (object ▸ unambiguous) ?_
    rw [← object]
    exact clear.integral.acceptable member
  refine wp_updateDocument stays ?_ ?_
  · intro _ _ n s' updated
    have wrote := updateData_wrote updated
    have nulled : ∀ r, (∃ old ∈ items s srcColl.tableName, old.id = rid ∧
        r = { old with data := .obj (Values.setNull field fields) }) →
        r.id = rid ∧ r.data = .obj (Values.setNull field fields) := by
      rintro r ⟨old, -, id', rfl⟩
      exact ⟨id', rfl⟩
    exact ⟨⟨clear.integral.updateData updated fun _ => acceptable,
        unambiguous_replaced clear.unambiguous wrote fun r fresh => (nulled r fresh).2⟩,
      Fades.replaced field wrote member identity object unambiguous nulled, fun _ _ => nulled_of_replaced wrote nulled⟩
  · intro _ _ vec _ found s' updated
    rcases updateDocumentTx_ok updated with ⟨-, -, absent⟩ | ⟨-, -, wrote⟩
    · exact absurd identity (absent row member)
    · have nulled : ∀ r, r = (⟨rid, text, .obj (Values.setNull field fields), vec⟩ : Row) →
          r.id = rid ∧ r.data = .obj (Values.setNull field fields) := by
        rintro r rfl
        exact ⟨rfl, rfl⟩
      exact ⟨⟨clear.integral.updateDocument updated fun _ => acceptable,
          unambiguous_replaced clear.unambiguous wrote fun r fresh => (nulled r fresh).2⟩,
        Fades.replaced field wrote member identity object unambiguous nulled, fun _ _ => nulled_of_replaced wrote nulled⟩

theorem rowById_ok {table : String} {hasVector : Bool} {id : Int} {row : Row}
    (found : s.rowById table hasVector id = .ok (some row)) : row ∈ items s table ∧ row.id = id := by
  unfold DB.rowById at found
  cases docs : s.docs table with
  | error e => simp [docs] at found
  | ok t =>
    simp only [docs] at found
    by_cases wrong : (hasVector && t.kind = .plain) = true
    · simp [wrong] at found
    · rw [if_neg wrong] at found
      have here : t.rows.find? (fun r => r.id == id) = some row := Except.ok.inj found
      rw [items_of_docs docs]
      exact ⟨List.mem_of_find?_eq_some here, by simpa using List.find?_some here⟩

/-- The loop over the referencing items of one dependent. -/
theorem wp_nullReferences {srcColl : Collection} {field : String} {ids : List Int} (clear : Clear duties s)
    (registered : srcColl ∈ s.collections) :
    (machine h).wp (fun r s' => Clear duties s' ∧ Fades s s' ∧
        (r = .ok () → ∀ rid ∈ ids, ∀ row' ∈ items s' srcColl.tableName, row'.id = rid → row'.data.field field = some .null))
      (nullReferences srcColl field ids) s := by
  induction ids generalizing s with
  | nil => exact ⟨clear, Fades.refl s, by simp⟩
  | cons rid rest ih =>
    have stays (e : Err) : Clear duties s ∧ Fades s s ∧ (Except.error e = (.ok () : Except Err Unit) →
        ∀ r ∈ rid :: rest, ∀ row' ∈ items s srcColl.tableName, row'.id = r → row'.data.field field = some .null) :=
      ⟨clear, Fades.refl s, fun impossible => by cases impossible⟩
    unfold nullReferences
    rw [Prog.bind_eq, Machine.wp_bind, Machine.wp_within, wp_getDocumentByID (by intro e; exact stays _)]
    intro row found
    obtain ⟨member, identity⟩ := rowById_ok found
    simp only [Except.mapError, Machine.Then]
    cases object : row.data with
    | null | bool _ | int _ | real _ | str _ | arr _ => exact stays _
    | obj fields =>
      simp only [Prog.bind_eq]
      rw [Machine.wp_bind, Machine.wp_within]
      refine (machine h).wp_mono ?_ (nullOne clear registered member identity object)
      rintro r s₁ ⟨clear₁, fades₁, nulled⟩
      cases r with
      | error e => exact ⟨clear₁, fades₁, fun impossible => by cases impossible⟩
      | ok b =>
        refine (machine h).wp_mono ?_ (ih clear₁ (by rw [fades₁.schema.collections]; exact registered))
        rintro r₂ s₂ ⟨clear₂, fades₂, restNulled⟩
        refine ⟨clear₂, fades₁.trans fades₂, ?_⟩
        intro ok r listed row' there id'
        rcases List.mem_cons.mp listed with rfl | later
        · obtain ⟨row₁, member₁, id₁, fields₁⟩ := fades₂.origin _ row' there
          rcases fields₁ field with same | isNull
          · rw [same]
            exact nulled b rfl row₁ member₁ (id₁.trans id')
          · exact isNull
        · exact restNulled ok r later row' there id'

/-! ### Deleting items -/

/-- The row of an item that the comparison of checkReferentialDelete finds. -/
def Matches (h : Host) (field : String) (id : Int) (row : Row) : Prop :=
  (jsonExtract h.jsonText row.data field).equalsInt id = true

instance (h : Host) (field : String) (id : Int) (row : Row) : Decidable (Matches h field id row) := by
  unfold Matches
  exact inferInstance

theorem Matches.of_int {field : String} {id : Int} {row : Row} (refers : row.data.field field = some (.int id)) :
    Matches h field id row := by
  unfold Matches
  rw [jsonExtract_int refers]
  simp

theorem not_matches_unset {field : String} {id : Int} {row : Row}
    (unset : row.data.field field = none ∨ row.data.field field = some .null) : ¬ Matches h field id row := by
  unfold Matches
  rw [jsonExtract_unset unset]
  simp

theorem Matches.congr {field : String} {id : Int} {row row' : Row} (same : row'.data.field field = row.data.field field) :
    Matches h field id row' ↔ Matches h field id row := by
  unfold Matches jsonExtract
  rw [same]

theorem mem_matching {table field : String} {id : Int} {found : List Int} (done : s.matching h table field id = .ok found)
    {rid : Int} : rid ∈ found ↔ ∃ row ∈ items s table, row.id = rid ∧ Matches h field id row := by
  unfold DB.matching at done
  cases docs : s.docs table with
  | error e => simp [docs] at done
  | ok t =>
    simp only [docs] at done
    by_cases malformed : t.rows.any (fun r => jsonMaxDepth < r.data.depth) = true
    · rw [if_pos malformed] at done
      cases done
    · rw [if_neg malformed] at done
      cases done
      simp only [List.mem_map, Host.mem_visit, List.mem_filter, items_of_docs docs]
      constructor
      · rintro ⟨row, ⟨member, matched⟩, identity⟩
        exact ⟨row, member, identity, matched⟩
      · rintro ⟨row, member, identity, matched⟩
        exact ⟨row, ⟨member, matched⟩, identity⟩

/-- The comparison finds no item of the dependent's collection. -/
def Unmatched (h : Host) (id : Int) (s : DB) (dep : ReferenceDependent) : Prop :=
  ∀ c, s.lookup dep.collectionName = some c → ∀ row ∈ items s c.tableName, ¬ Matches h dep.field id row

theorem Unmatched.fades {id : Int} {dep : ReferenceDependent} (unmatched : Unmatched h id s dep) (fades : Fades s s') :
    Unmatched h id s' dep := by
  intro c found row' there
  rw [fades.schema.lookup] at found
  obtain ⟨row, member, -, fields⟩ := fades.origin _ row' there
  rcases fields dep.field with same | isNull
  · rw [Matches.congr same]
    exact unmatched c found row member
  · exact not_matches_unset (.inr isNull)

/-- No item of the dependent's collection refers to the id through its field. -/
def Cleared (id : Int) (s : DB) (dep : ReferenceDependent) : Prop :=
  ∀ c, s.lookup dep.collectionName = some c → ∀ row ∈ items s c.tableName, row.data.field dep.field ≠ some (.int id)

theorem Unmatched.cleared {id : Int} {dep : ReferenceDependent} (unmatched : Unmatched h id s dep) : Cleared id s dep :=
  fun c found row member refers => unmatched c found row member (.of_int refers)

/-- checkReferentialDelete passes only when it finds no item of a dependent any more. -/
theorem wp_checkDependents {id : Int} {deps : List ReferenceDependent} (clear : Clear duties s)
    (policy : ∀ dep ∈ deps, dep.onDelete = onDeleteRestrict ∨ dep.onDelete = onDeleteSetNull) :
    (machine h).wp (fun r s' => Clear duties s' ∧ Fades s s' ∧ (r = .ok () → ∀ dep ∈ deps, Unmatched h id s' dep))
      (checkDependents id deps) s := by
  induction deps generalizing s with
  | nil => exact ⟨clear, Fades.refl s, by simp⟩
  | cons dep rest ih =>
    have stays (e : Err) : Clear duties s ∧ Fades s s ∧ (Except.error e = (.ok () : Except Err Unit) →
        ∀ dep' ∈ dep :: rest, Unmatched h id s dep') :=
      ⟨clear, Fades.refl s, fun impossible => by cases impossible⟩
    -- once the first dependent is unmatched, the others become so after it
    have onward (s₁ : DB) (clear₁ : Clear duties s₁) (fades₁ : Fades s s₁) (unmatched : Unmatched h id s₁ dep) :
        (machine h).wp (fun r s' => Clear duties s' ∧ Fades s s' ∧
          (r = .ok () → ∀ dep' ∈ dep :: rest, Unmatched h id s' dep')) (checkDependents id rest) s₁ := by
      refine (machine h).wp_mono ?_ (ih clear₁ fun dep' member => policy dep' (List.mem_cons_of_mem _ member))
      rintro r s₂ ⟨clear₂, fades₂, others⟩
      refine ⟨clear₂, fades₁.trans fades₂, ?_⟩
      intro ok
      rw [List.forall_mem_cons]
      exact ⟨unmatched.fades fades₂, others ok⟩
    unfold checkDependents
    rw [Prog.bind_eq, Machine.wp_bind, Machine.wp_attempt, wp_getCollection]
    refine ⟨?_, ?_, ?_⟩
    · intro srcColl registered
      simp only [Machine.Then, Prog.bind_eq]
      rw [Machine.wp_bind, wp_read (by intro e; exact stays _)]
      intro found matched
      simp only [Machine.Then]
      by_cases none : found.isEmpty = true
      · rw [if_pos none]
        refine onward s clear (Fades.refl s) ?_
        intro c found' row member mentions
        rw [registered] at found'
        cases found'
        have listed := (mem_matching matched).mpr ⟨row, member, rfl, mentions⟩
        rw [List.isEmpty_iff.mp none] at listed
        cases listed
      · rw [if_neg none]
        by_cases restrict : dep.onDelete = onDeleteRestrict
        · rw [if_pos restrict]
          exact stays _
        · rw [if_neg restrict]
          have setNull : dep.onDelete = onDeleteSetNull := (policy dep List.mem_cons_self).resolve_left restrict
          rw [if_pos setNull, Machine.wp_bind]
          refine (machine h).wp_mono ?_ (wp_nullReferences clear (DB.lookup_some registered).1)
          rintro r s₁ ⟨clear₁, fades₁, nulled⟩
          cases r with
          | error e => exact ⟨clear₁, fades₁, fun impossible => by cases impossible⟩
          | ok _ =>
            refine onward s₁ clear₁ fades₁ ?_
            intro c found' row' there mentions
            rw [fades₁.schema.lookup, registered] at found'
            cases found'
            obtain ⟨row, member, id', fields⟩ := fades₁.origin _ row' there
            rcases fields dep.field with same | isNull
            · have listed := (mem_matching matched).mpr ⟨row, member, rfl, (Matches.congr same).mp mentions⟩
              exact not_matches_unset (.inr (nulled rfl row.id listed row' there id'.symm)) mentions
            · exact not_matches_unset (.inr isNull) mentions
    · intro unregistered
      simp only [Machine.Then, Err.is, decide_true, ↓reduceIte]
      refine onward s clear (Fades.refl s) ?_
      intro c found'
      rw [unregistered] at found'
      cases found'
    · simp only [Machine.Then]
      have other : (Err.wrapped "looking up collection" (machine h).fault).is .collectionNotFound = false := by
        simp [Err.is, machine]
      rw [if_neg (by rw [other]; exact Bool.false_ne_true)]
      exact stays _

/-- checkReferentialDelete goes through the rows that target the collection. -/
theorem wp_checkReferentialDelete {Q : Except Err Unit → DB → Prop} {name : String} {id : Int} (onError : ∀ e, Q (.error e) s)
    (onRows : ∀ deps : List ReferenceDependent, (∀ dep, dep ∈ deps ↔ ∃ r ∈ s.references, r.targetCollection = name ∧
      (⟨r.collectionName, r.fieldName, r.onDelete⟩ : ReferenceDependent) = dep) → (machine h).wp Q (checkDependents id deps) s) :
    (machine h).wp Q (checkReferentialDelete name id) s := by
  unfold checkReferentialDelete getReferencesTargeting
  rw [Prog.bind_eq, Machine.wp_bind, wp_read (by intro e; exact onError e)]
  intro deps listed
  cases Except.ok.inj listed
  refine onRows _ fun dep => ?_
  simp only [List.mem_map, Host.mem_visit, DB.mem_targeting, and_assoc]

theorem checkReferentialDelete_unmatches {name : String} {id : Int} (clear : Clear duties s)
    (policy : ∀ r ∈ s.references, r.onDelete = onDeleteRestrict ∨ r.onDelete = onDeleteSetNull) :
    (machine h).wp (fun r s' => Clear duties s' ∧ Fades s s' ∧ (r = .ok () → ∀ r ∈ s.references, r.targetCollection = name →
      Unmatched h id s' ⟨r.collectionName, r.fieldName, r.onDelete⟩)) (checkReferentialDelete name id) s := by
  refine wp_checkReferentialDelete (fun e => ⟨clear, Fades.refl s, nofun⟩) fun deps rows => ?_
  refine (machine h).wp_mono ?_ (wp_checkDependents clear ?_)
  · rintro r s₁ ⟨clear₁, fades₁, unmatched⟩
    exact ⟨clear₁, fades₁, fun ok row stored target => unmatched ok _ ((rows _).mpr ⟨row, stored, target, rfl⟩)⟩
  · intro dep member
    obtain ⟨r, stored, -, rfl⟩ := (rows dep).mp member
    exact policy r stored

/-- deleteDocument of a registered collection keeps the duties when every duty
    that its items can serve is declared in `collection_references` under its name. -/
theorem deleteDocument_keeps {id : Int} (clear : Clear duties s)
    (unique : ∀ c ∈ s.collections, s.lookup c.name = some c)
    (policy : ∀ r ∈ s.references, r.onDelete = onDeleteRestrict ∨ r.onDelete = onDeleteSetNull)
    (declared : ∀ d ∈ duties, ∀ t ∈ s.collections, d.target t → fold t.tableName = fold coll.tableName →
      ∃ r ∈ s.references, r.collectionName = d.owner ∧ r.fieldName = d.field ∧ r.targetCollection = coll.name) :
    (machine h).wp (fun _ s' => Keeps duties s s') (deleteDocument coll id) s := by
  unfold deleteDocument
  rw [Prog.bind_eq, Machine.wp_bind]
  refine (machine h).wp_mono ?_ (checkReferentialDelete_unmatches clear policy)
  rintro r s₁ ⟨clear₁, fades₁, unmatched⟩
  have here₁ : Keeps duties s s₁ := ⟨fades₁.schema, clear₁.integral⟩
  cases r with
  | error e => exact here₁
  | ok _ =>
    simp only [Machine.Then]
    rw [Machine.wp_call]
    refine ⟨?_, fun _ _ => here₁, here₁⟩
    intro found s₂ deleted
    have schema : SameSchema s₁ s₂ := by
      rcases deleteDocumentTx_ok deleted with ⟨-, same, -⟩ | ⟨-, -, wrote⟩
      · rw [same]
        exact SameSchema.refl s₁
      · exact wrote.schema
    refine ⟨fades₁.schema.trans schema, clear₁.integral.deleteDocument deleted fun _ => ?_⟩
    intro c registered row member _ d duty owner refers t registered' meets same
    rw [fades₁.schema.collections] at registered registered'
    obtain ⟨r, stored, owner', field, target⟩ := declared d duty t registered' meets same
    refine (unmatched rfl r stored target).cleared c ?_ row member (by rw [← field] at refers; exact refers)
    rw [fades₁.schema.lookup]
    show s.lookup r.collectionName = some c
    rw [owner', owner]
    exact unique c registered

end Microserver.ReferenceChecks
