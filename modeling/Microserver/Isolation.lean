import Mathlib
import Microserver.Embeddings
import Microserver.FreeNames

/-!
Collections beside each other. No two own a table together, and a call on one
leaves the items and full-text rows of the others, but for the fields that the
cascade of a delete nulls.
-/
namespace Microserver.Isolation
open Microserver.Values Microserver.Store Microserver.Programs Microserver.Statements Microserver.Operations
open Microserver.Companion Microserver.Schema Microserver.Items Microserver.Reads Microserver.ReferenceChecks
open Microserver.FullTextIndex Microserver.Cascades Microserver.Histories Microserver.Reachable Microserver.RowInvariants
open Microserver.Embeddings

/-- No table has two owners, and none of openVecDB's belongs to a collection. -/
def Apart (s : DB) : Prop :=
  ∀ c ∈ s.collections, (∀ d ∈ s.collections, c ≠ d → (ownedTables c).Disjoint (ownedTables d)) ∧
    (ownedTables c).Disjoint systemTables

/-- The collection that a call is addressed to. -/
def addressee : Call → String
  | .createCollection name .. => name
  | .renameCollection oldName _ => oldName
  | .dropCollection name => name
  | .insertDocument name .. => name
  | .insertDocumentBulk name _ => name
  | .updateDocument name .. => name
  | .deleteDocument name _ => name

/-- The collection registered as `owner` declared `field` as a set_null reference
    to the one registered as `target`. -/
def DeclaresSetNull (w : World) (owner target field : String) : Prop :=
  ∃ d ∈ w.history.declared, w.history.serial owner = some d.owner ∧ w.history.serial target = some d.target ∧
    d.field = field ∧ d.onDelete = onDeleteSetNull

instance (w : World) (owner target field : String) : Decidable (DeclaresSetNull w owner target field) := by
  unfold DeclaresSetNull
  exact inferInstance

/-- An item, and the item when some of the declared fields that held the id are null. -/
def Cleared (declared : String → Prop) (id : Int) (row row' : Row) : Prop :=
  row' = row ∨ row'.id = row.id ∧ row'.text = row.text ∧ row'.embedding = row.embedding ∧
    (∃ fields fields', row.data = .obj fields ∧ row'.data = .obj fields') ∧
    ∀ f, row'.data.field f = row.data.field f ∨
      declared f ∧ row.data.field f = some (.int id) ∧ row'.data.field f = some .null

/-- The items of a collection after a call on another one. -/
def KeepsItems (w w' : World) (c : Collection) : Call → Prop
  | .deleteDocument name id =>
    (∀ row ∈ items w.db c.tableName, ∃ row' ∈ items w'.db c.tableName, Cleared (DeclaresSetNull w c.name name) id row row') ∧
      ∀ row' ∈ items w'.db c.tableName, ∃ row ∈ items w.db c.tableName, Cleared (DeclaresSetNull w c.name name) id row row'
  | _ => items w'.db c.tableName = items w.db c.tableName

/-- A call leaves a collection that it is not addressed to. -/
structure Leaves (w w' : World) (call : Call) (c : Collection) : Prop where
  registered : c ∈ w'.db.collections
  items : KeepsItems w w' c call
  fullText : c.hasVector = true → indexPairs w'.db c.tableName = indexPairs w.db c.tableName

/-- The items that the cascade of a delete finds in another collection hold the
    id itself, in a field that their collection declared, list no other field twice
    with different values, and are indexed. -/
def SanctionedDelete (h : Host) (w : World) (name : String) (id : Int) : Prop :=
  ∀ c ∈ w.db.collections, c.name ≠ name → ∀ r ∈ w.db.references, r.collectionName = c.name → r.targetCollection = name →
    r.onDelete = onDeleteSetNull → ∀ row ∈ items w.db c.tableName, Matches h r.fieldName id row →
      DeclaresSetNull w c.name name r.fieldName ∧ row.data.field r.fieldName = some (.int id) ∧
        row.data.UnambiguousBut (some r.fieldName) ∧ (c.hasVector = true → pair row ∈ indexPairs w.db c.tableName)

def Sanctioned (h : Host) (w : World) : Call → Prop
  | .deleteDocument name id => SanctionedDelete h w name id
  | _ => True

instance (id : Int) : (value : Option Json) → Decidable (value = some (.int id))
  | some (.int n) => decidable_of_iff (n = id) (by simp)
  | none | some .null | some (.bool _) | some (.real _) | some (.str _) | some (.arr _) | some (.obj _) => .isFalse (by simp)

instance (h : Host) (w : World) (name : String) (id : Int) : Decidable (SanctionedDelete h w name id) := by
  unfold SanctionedDelete
  exact inferInstance

instance (h : Host) (w : World) : (call : Call) → Decidable (Sanctioned h w call)
  | .deleteDocument name id => inferInstanceAs (Decidable (SanctionedDelete h w name id))
  | .createCollection .. | .renameCollection .. | .dropCollection .. | .insertDocument .. | .insertDocumentBulk ..
  | .updateDocument .. => .isTrue trivial

variable {h : Host} {w : World} {s s' : DB} {c coll : Collection} {name text : String} {id : Int} {data : Option Json}

/-! ### Storing items -/

/-- A collection holds what it held. -/
structure Untouched (s s' : DB) (c : Collection) : Prop where
  schema : SameSchema s s'
  items : items s' c.tableName = items s c.tableName
  fullText : indexPairs s' c.tableName = indexPairs s c.tableName

theorem Untouched.refl (s : DB) (c : Collection) : Untouched s s c := ⟨.refl s, rfl, rfl⟩

theorem Untouched.trans {s₁ s₂ s₃ : DB} (first : Untouched s₁ s₂ c) (second : Untouched s₂ s₃ c) : Untouched s₁ s₃ c :=
  ⟨first.schema.trans second.schema, second.items.trans first.items, second.fullText.trans first.fullText⟩

theorem Untouched.insertRow {assigned : Int} {given : Option Int} {columns : Columns} (item : ∀ text, columns ≠ .fullText text)
    (different : fold c.tableName ≠ fold coll.tableName)
    (done : s.insertRow coll.tableName given columns = .ok (assigned, s')) : Untouched s s' c :=
  ⟨(insertRow_wrote item done).schema, (insertRow_wrote item done).others _ different, indexPairs_insertRow item done _⟩

theorem Untouched.insertFullText {assigned : Int} (different : fold c.tableName ≠ fold coll.tableName)
    (done : s.insertRow (ftsTableName coll.tableName) (some id) (.fullText text) = .ok (assigned, s')) : Untouched s s' c := by
  have wrote := insertFullText_wrote (Wrote.nothing s coll.tableName) done
  refine ⟨wrote.schema, wrote.others _ different, ?_⟩
  rw [(indexPairs_insertFullText done c.tableName).2, if_neg fun same => different (ftsTableName_injective same)]

theorem insertDocument_untouched {given : Option Int} (different : fold c.tableName ≠ fold coll.tableName) :
    (machine h).wp (fun _ s' => Untouched s s' c) (insertDocument coll given text data) s := by
  refine wp_insertDocument (fun _ => .refl s c) ?_ ?_
  · intro _ _ assigned s' inserted
    exact .insertRow (by simp) different inserted
  · intro _ _ vec _ assigned s' inserted
    have first : Untouched s s' c := .insertRow (by simp) different inserted
    exact ⟨fun _ => first, fun again s'' indexed => first.trans (.insertFullText different indexed)⟩

theorem insertDocumentBulk_untouched {batch : List BulkDocumentItem} (different : fold c.tableName ≠ fold coll.tableName) :
    (machine h).wp (fun _ s' => Untouched s s' c) (insertDocumentBulk coll batch) s := by
  refine wp_insertDocumentBulk (fun _ => .refl s c) ?_
  intro preparedItems _ _ ids s' inserted
  refine insertDocumentBulkTx_induct (I := fun s' => Untouched s s' c) ?_ (.refl s c) inserted
  intro p _ s₁ finalID s₂ untouched inserted
  obtain ⟨s₃, stored, ⟨-, rfl⟩ | ⟨-, indexed⟩⟩ := insertPrepared_cases inserted
  · exact untouched.trans (.insertRow (columns_item p _) different stored)
  · exact (untouched.trans (.insertRow (columns_item p _) different stored)).trans (.insertFullText different indexed)

theorem updateDocument_untouched (different : fold c.tableName ≠ fold coll.tableName) :
    (machine h).wp (fun _ s' => Untouched s s' c) (updateDocument coll id text data) s := by
  refine wp_updateDocument (fun _ => .refl s c) ?_ ?_
  · intro _ _ n s' updated
    exact ⟨(updateData_wrote updated).schema, (updateData_wrote updated).others _ different, indexPairs_updateData updated _⟩
  · intro _ _ vec _ found s' updated
    rcases updateDocumentTx_ok updated with ⟨-, rfl, -⟩ | ⟨rfl, -, wrote⟩
    · exact .refl s' c
    · refine ⟨wrote.schema, wrote.others _ different, ?_⟩
      rw [indexPairs_updateDocumentTx updated, if_neg fun same => different (ftsTableName_injective same)]

/-! ### Deleting items -/

variable {declared : String → Prop} {row row₀ row' : Row} {field : String}

theorem Cleared.id_eq (cleared : Cleared declared id row row') : row'.id = row.id := by
  rcases cleared with rfl | ⟨same, -⟩
  · rfl
  · exact same

theorem Cleared.text_eq (cleared : Cleared declared id row row') : row'.text = row.text := by
  rcases cleared with rfl | ⟨-, same, -⟩
  · rfl
  · exact same

/-- A field that matches now matched before. -/
theorem Cleared.matches (cleared : Cleared declared id row row') (matched : Matches h field id row') : Matches h field id row := by
  rcases cleared with rfl | ⟨-, -, -, -, fields⟩
  · exact matched
  · rcases fields field with same | ⟨-, -, isNull⟩
    · unfold Matches jsonExtract at matched ⊢
      rwa [← same]
    · unfold Matches at matched
      rw [jsonExtract_unset (.inr isNull)] at matched
      simp at matched

/-- One more declared field that held the id is nulled. -/
theorem Cleared.null (cleared : Cleared declared id row₀ row) (nulled : Nulled h coll field row row') (allowed : declared field)
    (unambiguous : row.data.UnambiguousBut (some field)) (held : row₀.data.field field = some (.int id))
    (embedded : coll.hasVector = true → h.embed row₀.text = .ok row₀.embedding) : Cleared declared id row₀ row' := by
  obtain ⟨id', text', embedding', fields, object, data'⟩ := nulled
  have shape : row.embedding = row₀.embedding ∧ (∃ fields₀, row₀.data = .obj fields₀) ∧ ∀ f, row.data.field f = row₀.data.field f ∨
      declared f ∧ row₀.data.field f = some (.int id) ∧ row.data.field f = some .null := by
    rcases cleared with rfl | ⟨-, -, embedding, ⟨fields₀, _, object₀, -⟩, each⟩
    · exact ⟨rfl, ⟨fields, object⟩, fun _ => .inl rfl⟩
    · exact ⟨embedding, ⟨fields₀, object₀⟩, each⟩
  obtain ⟨embedding, ⟨fields₀, object₀⟩, each⟩ := shape
  refine .inr ⟨id'.trans cleared.id_eq, text'.trans cleared.text_eq, ?_, ⟨fields₀, _, object₀, data'⟩, ?_⟩
  · rcases embedding' with kept | ⟨vector, computed⟩
    · exact kept.trans embedding
    · rw [cleared.text_eq, embedded vector] at computed
      exact (Except.ok.inj computed).symm
  · intro f
    rw [data']
    by_cases here : f = field
    · rw [here]
      exact .inr ⟨allowed, held, field_setNull_same field fields⟩
    · have same : row.data.lastField f = row.data.field f := unambiguous.lastField_eq fun equal => here (Option.some.inj equal)
      rw [field_setNull_other here, ← object, same]
      exact each f

/-- What the cascade of a delete makes of another collection, step by step. -/
structure Spares (w : World) (name : String) (id : Int) (c : Collection) (s : DB) : Prop where
  schema : SameSchema w.db s
  leaves : Leaves w ⟨s, w.history⟩ (.deleteDocument name id) c
  rewritten : ∀ row ∈ items s c.tableName, row ∈ items w.db c.tableName ∨ row.data.Unambiguous

theorem Spares.start (member : c ∈ w.db.collections) : Spares w name id c w.db :=
  ⟨SameSchema.refl w.db, ⟨member, ⟨fun row stored => ⟨row, stored, .inl rfl⟩, fun row stored => ⟨row, stored, .inl rfl⟩⟩,
    fun _ => rfl⟩, fun _ stored => .inl stored⟩

/-- A write that does not touch the collection. -/
theorem Spares.untouched (spares : Spares w name id c s) (untouched : Untouched s s' c) : Spares w name id c s' := by
  obtain ⟨before, ⟨registered, there, fullText⟩, rewritten⟩ := spares
  refine ⟨before.trans untouched.schema, ⟨by rw [untouched.schema.collections]; exact registered, ?_, fun vector => ?_⟩, ?_⟩
  · unfold KeepsItems at there ⊢
    rw [untouched.items]
    exact there
  · rw [untouched.fullText]
    exact fullText vector
  · rw [untouched.items]
    exact rewritten

/-- A rewriting of an item of the collection itself. -/
theorem Spares.rewrite (spares : Spares w name id c s) (allowed : DeclaresSetNull w c.name name field)
    (stored : row₀ ∈ items w.db c.tableName) (held : row₀.data.field field = some (.int id))
    (unambiguous : row₀.data.UnambiguousBut (some field)) (embedded : c.hasVector = true → h.embed row₀.text = .ok row₀.embedding)
    (indexed : c.hasVector = true → pair row₀ ∈ indexPairs w.db c.tableName) (same : row.id = row₀.id)
    (nulling : Nulling h c field row s s') : Spares w name id c s' := by
  obtain ⟨before, ⟨registered, ⟨forth, back⟩, fullText⟩, rewritten⟩ := spares
  -- the item comes from the one that held the id
  have origin : Cleared (DeclaresSetNull w c.name name) id row₀ row := by
    obtain ⟨row₁, stored₁, cleared⟩ := back row nulling.member
    obtain rfl := items_injective stored₁ stored (cleared.id_eq.symm.trans same)
    exact cleared
  obtain ⟨row', nulled, wrote⟩ := nulling.wrote
  have clear : row.data.UnambiguousBut (some field) := by
    rcases rewritten row nulling.member with old | new
    · rwa [items_injective old stored same]
    · exact new.but _
  have after : Cleared (DeclaresSetNull w c.name name) id row₀ row' := origin.null nulled allowed clear held embedded
  refine ⟨before.trans wrote.schema, ⟨by rw [wrote.schema.collections]; exact registered, ⟨?_, ?_⟩, ?_⟩, ?_⟩
  · intro r₀ there
    obtain ⟨r, kept, cleared⟩ := forth r₀ there
    by_cases here : r.id = row.id
    · obtain rfl := items_injective there stored (cleared.id_eq.symm.trans (here.trans same))
      exact ⟨row', (wrote.here row').mpr (.inr rfl), after⟩
    · exact ⟨r, (wrote.here r).mpr (.inl ⟨kept, here⟩), cleared⟩
  · intro r there
    rcases (wrote.here r).mp there with ⟨kept, -⟩ | rfl
    · exact back r kept
    · exact ⟨row₀, stored, after⟩
  · intro vector
    rw [nulling.index c.tableName, if_pos ⟨vector, rfl⟩, fullText vector]
    have unchanged : pair row = pair row₀ := Prod.ext same origin.text_eq
    rw [unchanged, same]
    exact insert_forget (indexPairs_single _ _) (indexed vector)
  · intro r there
    rcases (wrote.here r).mp there with ⟨kept, -⟩ | rfl
    · exact rewritten r kept
    · obtain ⟨-, -, -, fields, -, data⟩ := nulled
      rw [data]
      exact .inr (unambiguous_setNull field fields)

theorem deleteDocument_spares (coherent : Coherent w) (embedded : Embedded h w.db)
    (sanctioned : Sanctioned h w (.deleteDocument name id)) (member : c ∈ w.db.collections) (other : c.name ≠ name)
    (found : w.db.lookup name = some coll) :
    (machine h).wp (fun _ s' => Spares w name id c s') (deleteDocument coll id) w.db := by
  obtain ⟨registered, named⟩ := DB.lookup_some found
  refine wp_deleteDocument_induct ?_ ?_ (.start member)
  · intro r declared target policy s₁ srcColl spares₁ known row₁ member₁ matched s₂ s₃ row spares₂ same nulling
    rw [spares₁.schema.lookup] at known
    obtain ⟨registered', owner⟩ := DB.lookup_some known
    by_cases table : fold c.tableName = fold srcColl.tableName
    · obtain rfl := coherent.sound.table_injective member registered' table
      obtain ⟨row₀, stored, cleared⟩ := spares₁.leaves.items.2 row₁ member₁
      obtain ⟨allowed, held, unambiguous, indexed⟩ := sanctioned c member other r declared owner.symm (target.trans named) policy row₀ stored
        (cleared.matches matched)
      exact spares₂.rewrite allowed stored held unambiguous (fun vector => embedded c member vector row₀ stored) indexed
        (same.trans cleared.id_eq) nulling
    · obtain ⟨row', -, wrote⟩ := nulling.wrote
      refine spares₂.untouched ⟨wrote.schema, wrote.others _ table, ?_⟩
      rw [nulling.index, if_neg fun both => table both.2]
  · intro s₁ s₂ deleted spares done
    have table : fold c.tableName ≠ fold coll.tableName := by
      intro same
      obtain rfl := coherent.sound.table_injective member registered same
      exact other named
    rcases deleteDocumentTx_ok done with ⟨-, rfl, -⟩ | ⟨-, -, wrote⟩
    · exact spares
    · exact spares.untouched ⟨wrote.schema, wrote.others _ table, indexPairs_deleteDocumentTx done table⟩

/-! ### Calls -/

/-- One call on a collection leaves every other one. -/
theorem step_leaves {call : Call × List Bool} (coherent : Coherent w) (embedded : Embedded h w.db)
    (sanctioned : Sanctioned h w call.1) (member : c ∈ w.db.collections) (other : c.name ≠ addressee call.1) :
    Leaves w (w.step h call) call.1 c := by
  obtain ⟨call, faults⟩ := call
  have apart {n : String} {coll : Collection} (different : c.name ≠ n) (found : w.db.lookup n = some coll) :
      fold c.tableName ≠ fold coll.tableName := by
    obtain ⟨registered, named⟩ := DB.lookup_some found
    intro same
    obtain rfl := coherent.sound.table_injective member registered same
    exact different named
  -- the tables that a collection owns determine what it holds
  have owned {s' : DB} (kept : ∀ n ∈ ownedTables c, s'.tables n = w.db.tables n) (vector : c.hasVector = true) :
      indexPairs s' c.tableName = indexPairs w.db c.tableName := by
    have companion : s'.find (ftsTableName c.tableName) = w.db.find (ftsTableName c.tableName) := kept _ (fullText_mem_owned vector)
    unfold indexPairs indexRows
    rw [companion]
  have storing {α : Type} {op : Op α} (keeps : ∀ s', items s' c.tableName = items w.db c.tableName → KeepsItems w ⟨s', w.history⟩ c call)
      (untouched : (machine h).wp (fun _ s' => Untouched w.db s' c) op w.db) :
      (machine h).wp (fun _ s' => Leaves w ⟨s', w.history⟩ call c) op w.db :=
    (machine h).wp_mono (fun _ s' kept => ⟨by rw [kept.schema.collections]; exact member, keeps s' kept.items,
      fun _ => kept.fullText⟩) untouched
  refine step_rule (I := fun w' => Leaves w w' call c) ⟨member, ?_, fun _ => rfl⟩ ?_
  · cases call with
    | deleteDocument name id => exact ⟨fun row stored => ⟨row, stored, .inl rfl⟩, fun row stored => ⟨row, stored, .inl rfl⟩⟩
    | _ => rfl
  · cases call with
    | createCollection name hasVector dimensions references =>
      intro _ _ s' done
      have kept (n : String) (mine : n ∈ ownedTables c) := coherent.sound.createCollectionTx_kept done member mine
      obtain ⟨-, -, -, s₁, -, same⟩ := createCollectionTx_ok done
      refine ⟨?_, items_kept kept, owned kept⟩
      rw [same]
      exact List.mem_append_left _ member
    | renameCollection oldName newName =>
      intro _ s' done
      obtain ⟨-, -, -, rfl⟩ := renameCollectionTx_ok_iff.mp done
      refine ⟨List.mem_map.mpr ⟨c, member, ?_⟩, rfl, fun _ => rfl⟩
      have kept : c.name ≠ oldName := other
      unfold relabel
      rw [if_neg kept]
    | dropCollection name =>
      intro coll found s' done
      have kept (n : String) (mine : n ∈ ownedTables c) :=
        coherent.sound.dropCollectionTx_kept ⟨coll, found, rfl, fun vector => .inl vector⟩ done member other mine
      obtain ⟨-, -, -, registry, -⟩ := dropCollectionTx_ok done
      refine ⟨?_, items_kept kept, owned kept⟩
      rw [registry]
      exact List.mem_filter.mpr ⟨member, decide_eq_true other⟩
    | insertDocument name given text data =>
      exact fun coll found => storing (fun _ same => same) (insertDocument_untouched (apart other found))
    | insertDocumentBulk name batch =>
      exact fun coll found => storing (fun _ same => same) (insertDocumentBulk_untouched (apart other found))
    | updateDocument name id text data =>
      exact fun coll found => storing (fun _ same => same) (updateDocument_untouched (apart other found))
    | deleteDocument name id =>
      exact fun coll found => (machine h).wp_mono (fun _ _ spares => spares.leaves)
        (deleteDocument_spares coherent embedded sanctioned member other found)

theorem reached_apart (h : Host) (calls : List (Call × List Bool)) : Apart (reached h calls) := by
  have sound := (run_coherent h calls).sound
  intro c member
  refine ⟨fun d member' different n mine theirs => sound.disjoint c member d member' different n mine theirs, ?_⟩
  obtain ⟨name, -, table⟩ := reached_tableNames h calls c member
  exact fun n mine system => FreeNames.owned_not_system table mine system

/-- Whatever the run, no two collections share a table, nor does one share a
    table with openVecDB; and whatever the next call and the failures it meets,
    it leaves every collection that it is not addressed to, provided that a
    delete finds there only fields declared for it. -/
theorem collections_isolated (h : Host) (calls : List (Call × List Bool)) (call : Call × List Bool) :
    Apart (reached h calls) ∧
      (Sanctioned h (World.run h calls World.start) call.1 →
        ∀ c ∈ (reached h calls).collections, c.name ≠ addressee call.1 →
          Leaves (World.run h calls World.start) ((World.run h calls World.start).step h call) call.1 c) :=
  ⟨reached_apart h calls, fun sanctioned _ member other =>
    step_leaves (run_coherent h calls) (reached_embedded h calls) sanctioned member other⟩

/-- A collection, and a vector collection with a set_null reference to it and an
    item that refers to its item. -/
def referring : List (Call × List Bool) :=
  [(.createCollection "t" false 0 ⟨[], List.nodup_nil⟩, []),
    (.createCollection "d" true 8 ⟨[("f", ⟨"t", onDeleteSetNull⟩)], List.nodup_singleton "f"⟩, []),
    (.insertDocument "t" none "" none, []),
    (.insertDocument "d" none "a" (some (.obj [("f", .int 1)])), [])]

/-- The delete nulls the reference and leaves the rest of the item. -/
theorem collections_isolated_referring :
    Sanctioned Host.uniform (World.run Host.uniform referring World.start) (.deleteDocument "t" 1) ∧
      ∀ c ∈ (reached Host.uniform referring).collections, c.name ≠ "t" →
        Leaves (World.run Host.uniform referring World.start)
          ((World.run Host.uniform referring World.start).step Host.uniform (.deleteDocument "t" 1, [])) (.deleteDocument "t" 1) c :=
  ⟨by decide, (collections_isolated Host.uniform referring (.deleteDocument "t" 1, [])).2 (by decide)⟩

/-- A collection that declares no reference takes the name of one that did. -/
def redeclared : List (Call × List Bool) :=
  [(.createCollection "t" false 0 ⟨[], List.nodup_nil⟩, []),
    (.createCollection "d" false 0 ⟨[("f", ⟨"t", onDeleteSetNull⟩)], List.nodup_singleton "f"⟩, []),
    (.dropCollection "d", []), (.createCollection "d" false 0 ⟨[], List.nodup_nil⟩, []),
    (.insertDocument "t" none "" none, []),
    (.insertDocument "d" none "" (some (.obj [("f", .int 1)])), [])]

/-- A delete nulls a field that its collection never declared. -/
theorem undeclared_field_nulled :
    ¬ ∀ (h : Host) (calls : List (Call × List Bool)) (call : Call × List Bool), ∀ c ∈ (reached h calls).collections,
      c.name ≠ addressee call.1 →
        Leaves (World.run h calls World.start) ((World.run h calls World.start).step h call) call.1 c := by
  intro all
  have leaves := all Host.uniform redeclared (.deleteDocument "t" 1, []) ⟨"d", "coll_d", false, 0⟩ (by decide) (by decide)
  have before : ∃ row ∈ items (reached Host.uniform redeclared) "coll_d", row.data.field "f" = some (.int 1) := by decide
  have after : ∀ row ∈ items ((World.run Host.uniform redeclared World.start).step Host.uniform (.deleteDocument "t" 1, [])).db
      "coll_d", row.data.field "f" ≠ some (.int 1) := by decide
  have undeclared : ¬ DeclaresSetNull (World.run Host.uniform redeclared World.start) "d" "t" "f" := by decide
  obtain ⟨row, stored, held⟩ := before
  obtain ⟨row', there, rfl | ⟨-, -, -, -, fields⟩⟩ := leaves.items.1 row stored
  · exact after row' there held
  · rcases fields "f" with same | ⟨declared, -⟩
    · exact after row' there (same.trans held)
    · exact undeclared declared

end Microserver.Isolation
