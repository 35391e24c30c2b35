import Mathlib
import Microserver.RowInvariants

/-!
Referential integrity along sequential histories. Reference fields stay good as
long as no call cuts a reference whose target has lost its name: the rows of
`collection_references` outlive the collections they name, and are met again by
name when a name is used anew.
-/
namespace Microserver.ReferentialRuns
open Microserver.Values Microserver.Store Microserver.Programs Microserver.Statements Microserver.Operations
open Microserver.Schema Microserver.Items Microserver.Reads Microserver.Integrity Microserver.ReferenceChecks
open Microserver.Histories Microserver.RowInvariants

/-- Every field that getReferences lists for a registered collection is, in each
    of its items, unset or the id of an item that exists in the very collection
    the reference was declared against. -/
def Honoured (w : World) : Prop :=
  w.db.references.length = w.history.declared.length ∧
    ∀ c ∈ w.db.collections, ∀ row ∈ items w.db c.tableName, ∀ p ∈ w.declared, p.1.collectionName = c.name →
      Resolves w.db (fun t => w.history.serial t.name = some p.2.target) (row.data.field p.1.fieldName)

instance (w : World) : Decidable (Honoured w) := by
  unfold Honoured
  exact inferInstance

def Unset (value : Option Json) : Prop := value = none ∨ value = some .null

instance Unset.decidable : (value : Option Json) → Decidable (Unset value)
  | none => .isTrue (.inl rfl)
  | some .null => .isTrue (.inr rfl)
  | some (.int _) | some (.bool _) | some (.real _) | some (.str _) | some (.arr _) | some (.obj _) =>
    .isFalse (by simp [Unset])

/-- The data sets no reference field of the collection whose declared target is
    not the collection that has the target's name now. -/
def LiveTargets (w : World) (name : String) (data : Option Json) : Prop :=
  ∀ p ∈ w.declared, p.1.collectionName = name → Unset ((dataOrEmpty data).field p.1.fieldName) ∨
    w.history.serial p.1.targetCollection = some p.2.target

instance (w : World) (name : String) (data : Option Json) : Decidable (LiveTargets w name data) := by
  unfold LiveTargets
  exact inferInstance

/-- What a call must not do. The data of items are maps, and set no references to dropped
    collections; a collection is not dropped while items refer to it; a rename
    does not meet left-over references of its new name that its items break. -/
def Harmless (w : World) : Call → Prop
  | .insertDocument name _ _ data => (dataOrEmpty data).Unambiguous ∧ LiveTargets w name data
  | .insertDocumentBulk name items => ∀ it ∈ items, (dataOrEmpty it.data).Unambiguous ∧ LiveTargets w name it.data
  | .updateDocument name _ _ data => (dataOrEmpty data).Unambiguous ∧ LiveTargets w name data
  | .dropCollection name =>
    ∀ c ∈ w.db.collections, c.name ≠ name → ∀ row ∈ items w.db c.tableName, ∀ r ∈ w.db.references,
      r.collectionName = c.name → r.targetCollection = name → Unset (row.data.field r.fieldName)
  | .renameCollection oldName newName =>
    oldName ≠ newName → ∀ c ∈ w.db.collections, c.name = oldName → ∀ row ∈ items w.db c.tableName,
      ∀ p ∈ w.declared, p.1.collectionName = newName →
        Resolves w.db (fun t => w.history.serial t.name = some p.2.target) (row.data.field p.1.fieldName)
  | .createCollection .. => True
  | .deleteDocument .. => True

instance (w : World) : (call : Call) → Decidable (Harmless w call)
  | .insertDocument name _ _ data => inferInstanceAs (Decidable (_ ∧ LiveTargets w name data))
  | .insertDocumentBulk name items => inferInstanceAs (Decidable (∀ it ∈ items, _ ∧ LiveTargets w name it.data))
  | .updateDocument name _ _ data => inferInstanceAs (Decidable (_ ∧ LiveTargets w name data))
  | .dropCollection name => inferInstanceAs (Decidable (∀ c ∈ w.db.collections, c.name ≠ name → _))
  | .renameCollection oldName newName => inferInstanceAs (Decidable (oldName ≠ newName → _))
  | .createCollection .. => .isTrue trivial
  | .deleteDocument .. => .isTrue trivial

/-- The declarations as duties between serial numbers. -/
def duties (w : World) : List Duty :=
  w.declared.map fun p => ⟨p.1.collectionName, p.1.fieldName, fun t => w.history.serial t.name = some p.2.target⟩

theorem integral_duties {w : World} : Integral (duties w) w.db ↔
    ∀ c ∈ w.db.collections, ∀ row ∈ items w.db c.tableName, ∀ p ∈ w.declared, p.1.collectionName = c.name →
      Resolves w.db (fun t => w.history.serial t.name = some p.2.target) (row.data.field p.1.fieldName) := by
  simp only [Integral, duties, List.forall_mem_map]

/-- The record fits, and all duties are met. -/
structure Healthy (w : World) : Prop where
  coherent : Coherent w
  integral : Integral (duties w) w.db

theorem Healthy.honoured {w : World} (healthy : Healthy w) : Honoured w :=
  ⟨healthy.coherent.length, integral_duties.mp healthy.integral⟩

theorem start_healthy : Healthy World.start :=
  ⟨start_coherent, integral_duties.mpr (by simp [World.start, openVecDB])⟩

variable {h : Host} {w : World} {s' : DB}

/-- The operations on items leave the record alone. -/
theorem Healthy.keeps (healthy : Healthy w) (keeps : Keeps (duties w) w.db s') : Healthy ⟨s', w.history⟩ := by
  refine ⟨healthy.coherent.sameSchema keeps.schema, ?_⟩
  have same : duties ⟨s', w.history⟩ = duties w := by simp [duties, World.declared, keeps.schema.references]
  rw [same]
  exact keeps.integral

/-- What validateReferences accepts is acceptable when the targets live. -/
theorem Healthy.acceptable (healthy : Healthy w) {name : String} {coll : Collection} {data : Option Json}
    (found : w.db.lookup name = some coll) (unambiguous : (dataOrEmpty data).Unambiguous)
    (live : LiveTargets w name data) (accepted : Accepts w.db coll.name data) :
    Acceptable (duties w) w.db coll.tableName (dataOrEmpty data) := by
  obtain ⟨registered, named⟩ := DB.lookup_some found
  intro c member same d duty owner
  obtain ⟨p, declared, rfl⟩ := List.mem_map.mp duty
  have equal : c = coll := healthy.coherent.sound.table_injective member registered same
  have owns : p.1 ∈ w.db.owned coll.name := by
    rw [DB.mem_owned]
    exact ⟨(World.declared_row declared).1, by rw [← equal]; exact owner⟩
  rcases accepted with none | ⟨parsed, unmarshalled, each⟩
  · rw [none] at owns
    cases owns
  · have resolves := each p.1 owns
    rw [← lastField_dataOrEmpty unmarshalled, unambiguous.lastField_eq] at resolves
    rcases live p declared (by rw [← named]; exact (DB.mem_owned.mp owns).2) with unset | serial
    · rcases unset with absent | isNull
      · exact .inl absent
      · exact .inr (.inl isNull)
    · refine resolves.mono ?_
      intro t known
      show w.history.serial t.name = some p.2.target
      rw [(DB.lookup_some known).2]
      exact serial

/-- A duty of the record that a collection can serve is declared under its name. -/
theorem Healthy.declared_by_name (healthy : Healthy w) {name : String} {coll : Collection}
    (found : w.db.lookup name = some coll) : ∀ d ∈ duties w, ∀ t ∈ w.db.collections, d.target t →
      fold t.tableName = fold coll.tableName →
        ∃ r ∈ w.db.references, r.collectionName = d.owner ∧ r.fieldName = d.field ∧ r.targetCollection = coll.name := by
  intro d duty t member meets same
  obtain ⟨p, declared, rfl⟩ := List.mem_map.mp duty
  have equal : t = coll := healthy.coherent.sound.table_injective member (DB.lookup_some found).1 same
  refine ⟨p.1, (World.declared_row declared).1, rfl, rfl, ?_⟩
  rw [← equal]
  exact healthy.coherent.target p declared t.name meets

/-! ### The calls on the catalog -/

theorem Healthy.createCollection {name : String} {hasVector : Bool} {dimensions : Int} {references : ReferenceMap}
    (healthy : Healthy w) (checked : references.entries.findSome? referenceFieldError = none)
    (done : createCollectionTx name hasVector dimensions references w.db = .ok s') :
    Healthy ⟨s', w.history.record (.createCollection name hasVector dimensions references)⟩ := by
  have coherent := healthy.coherent.createCollection checked done
  refine ⟨coherent, integral_duties.mpr ?_⟩
  obtain ⟨fresh, -, -, s₁, -, same⟩ := createCollectionTx_ok done
  have kept (c : Collection) (member : c ∈ w.db.collections) : items s' c.tableName = items w.db c.tableName :=
    items_of_tables (healthy.coherent.sound.createCollectionTx_kept done member (main_mem_owned c))
  have unregistered (c : Collection) (member : c ∈ w.db.collections) : c.name ≠ name := by
    intro named
    rw [DB.registered_iff.mpr ⟨c, member, named⟩] at fresh
    cases fresh
  have registry : s'.collections = w.db.collections ++ [newCollection name hasVector dimensions] := by rw [same]
  have pairs : World.declared ⟨s', w.history.record (.createCollection name hasVector dimensions references)⟩ =
      w.declared ++ (references.entries.map fun e => referenceRow name e.1 e.2).zip (w.history.declarations references) := by
    rw [same]
    simp only [World.declared, History.record]
    rw [List.zip_append healthy.coherent.length]
  intro c member row there p declared owner
  simp only [registry] at member
  rcases List.mem_append.mp member with old | new
  · simp only [kept c old] at there
    rw [pairs] at declared
    rcases List.mem_append.mp declared with before | after
    · rcases integral_duties.mp healthy.integral c old row there p before owner with
        absent | isNull | ⟨n, int, t, registered, meets, target, held, identity⟩
      · exact .inl absent
      · exact .inr (.inl isNull)
      · refine .inr (.inr ⟨n, int, t, ?_, ?_, target, ?_, identity⟩)
        · simp only [registry]
          exact List.mem_append_left _ registered
        · simp only [History.record, unregistered t registered, ↓reduceIte]
          exact meets
        · simp only [kept t registered]
          exact held
    · obtain ⟨e, -, made⟩ := List.mem_map.mp (List.of_mem_zip after).1
      rw [← made] at owner
      exact absurd owner.symm (unregistered c old)
  · have empty := createCollectionTx_items done
    rw [← List.mem_singleton.mp new] at empty
    simp only [empty] at there
    cases there

theorem Healthy.renameCollection {oldName newName : String} (healthy : Healthy w)
    (harmless : Harmless w (.renameCollection oldName newName)) (done : renameCollectionTx oldName newName w.db = .ok s') :
    Healthy ⟨s', w.history.record (.renameCollection oldName newName)⟩ := by
  have coherent := healthy.coherent.renameCollection done
  obtain ⟨known, available, -, rfl⟩ := renameCollectionTx_ok_iff.mp done
  refine ⟨coherent, integral_duties.mpr ?_⟩
  -- a resolved field resolves to the same item under the new name
  have carried (k : Nat) (value : Option Json) (resolves : Resolves w.db (fun t => w.history.serial t.name = some k) value) :
      Resolves (renamed oldName newName w.db)
        (fun t => (w.history.record (.renameCollection oldName newName)).serial t.name = some k) value := by
    rcases resolves with absent | isNull | ⟨n, int, t, registered, meets, there⟩
    · exact .inl absent
    · exact .inr (.inl isNull)
    · exact .inr (.inr ⟨n, int, { t with name := relabel oldName newName t.name },
        List.mem_map.mpr ⟨t, registered, rfl⟩, (serial_renamed healthy.coherent available).mpr ⟨t.name, meets, rfl⟩, there⟩)
  intro c member row there p declared owner
  obtain ⟨c₀, stored, rfl⟩ := List.mem_map.mp member
  rw [renamed_declared] at declared
  obtain ⟨q, before, rfl⟩ := List.mem_map.mp declared
  refine carried q.2.target (row.data.field q.1.fieldName) ?_
  rcases relabel_eq_cases owner with same | ⟨different, meet⟩
  · exact integral_duties.mp healthy.integral c₀ stored row there q before same
  · -- a row under another name meets the collection only at the new name
    rcases meet with ⟨-, named⟩ | ⟨left, right⟩
    · have free := available.resolve_left different
      rw [DB.registered_iff.mpr ⟨c₀, stored, named⟩] at free
      cases free
    · exact harmless different c₀ stored right row there q before left

theorem Healthy.dropCollection {coll : Collection} {name : String} (healthy : Healthy w)
    (harmless : Harmless w (.dropCollection name)) (found : w.db.lookup name = some coll)
    (done : dropCollectionTx coll name w.db = .ok s') :
    Healthy ⟨s', w.history.record (.dropCollection name)⟩ := by
  have coherent := healthy.coherent.dropCollection found done
  refine ⟨coherent, integral_duties.mpr ?_⟩
  obtain ⟨-, -, refs, registry, -⟩ := dropCollectionTx_ok done
  have kept (c : Collection) (member : c ∈ w.db.collections) (other : c.name ≠ name) :
      items s' c.tableName = items w.db c.tableName :=
    items_of_tables (healthy.coherent.sound.dropCollectionTx_kept ⟨coll, found, rfl, fun vector => .inl vector⟩ done member
      other (main_mem_owned c))
  have pairs : World.declared ⟨s', w.history.record (.dropCollection name)⟩ = w.declared := by
    simp [World.declared, History.record, refs]
  intro c member row there p declared owner
  rw [pairs] at declared
  simp only [registry, List.mem_filter, decide_eq_true_eq] at member
  obtain ⟨stored, other⟩ := member
  simp only [kept c stored other] at there
  rcases integral_duties.mp healthy.integral c stored row there p declared owner with
    absent | isNull | ⟨n, int, t, registered, meets, target, held, identity⟩
  · exact .inl absent
  · exact .inr (.inl isNull)
  · have named : p.1.targetCollection = t.name := healthy.coherent.target p declared t.name meets
    by_cases gone : t.name = name
    · rcases harmless c stored other row there p.1 (World.declared_row declared).1 owner (named.trans gone) with
        absent | isNull
      · exact .inl absent
      · exact .inr (.inl isNull)
    · refine .inr (.inr ⟨n, int, t, ?_, ?_, target, ?_, identity⟩)
      · simp only [registry, List.mem_filter, decide_eq_true_eq]
        exact ⟨registered, gone⟩
      · simp only [History.record, gone, ↓reduceIte]
        exact meets
      · simp only [kept t registered gone]
        exact held

/-! ### Runs -/

/-- One call on a healthy world, whatever fails in it. -/
theorem Healthy.step (healthy : Healthy w) (unambiguous : Unambiguous w.db) {call : Call × List Bool} (harmless : Harmless w call.1) :
    Healthy (w.step h call) := by
  refine step_rule healthy ?_
  generalize call.1 = call at harmless
  have kept {α : Type} {op : Op α} (keeps : (machine h).wp (fun _ s' => Keeps (duties w) w.db s') op w.db) :
      (machine h).wp (fun _ s' => Healthy ⟨s', w.history⟩) op w.db :=
    (machine h).wp_mono (fun _ _ kept => healthy.keeps kept) keeps
  cases call with
  | createCollection name hasVector dimensions references => exact fun _ checked _ done => healthy.createCollection checked done
  | renameCollection oldName newName => exact fun _ _ done => healthy.renameCollection harmless done
  | dropCollection name => exact fun _ found _ done => healthy.dropCollection harmless found done
  | insertDocument name id text data =>
    exact fun coll found => kept (insertDocument_keeps healthy.integral (healthy.acceptable found harmless.1 harmless.2))
  | insertDocumentBulk name items =>
    exact fun coll found => kept (insertDocumentBulk_keeps healthy.integral fun it listed =>
      healthy.acceptable found (harmless it listed).1 (harmless it listed).2)
  | updateDocument name id text data =>
    exact fun coll found => kept (updateDocument_keeps healthy.integral fun accepted _ =>
      healthy.acceptable found harmless.1 harmless.2 accepted)
  | deleteDocument name id =>
    exact fun coll found => kept (deleteDocument_keeps ⟨healthy.integral, unambiguous⟩
      (fun c member => healthy.coherent.sound.lookup member) healthy.coherent.policy (healthy.declared_by_name found))

theorem Harmless.givesMaps {call : Call} (harmless : Harmless w call) : GivesMaps call := by
  cases call with
  | insertDocument _ _ _ _ | updateDocument _ _ _ _ => exact harmless.1
  | insertDocumentBulk _ batch => exact fun it listed => (harmless it listed).1
  | createCollection _ _ _ _ | renameCollection _ _ | dropCollection _ | deleteDocument _ _ => trivial

/-- Referential integrity along every run of harmless calls, whatever fails in them. -/
theorem references_honoured (h : Host) (calls : List (Call × List Bool))
    (harmless : Along (World.step h) (fun w call => Harmless w call.1) calls World.start) :
    Honoured (World.run h calls World.start) := by
  have both : Healthy (World.run h calls World.start) ∧ Unambiguous (World.run h calls World.start).db := by
    refine run_invariant (I := fun w : World => Healthy w ∧ Unambiguous w.db) ?_
      ⟨start_healthy, by simp [Unambiguous, World.start, openVecDB]⟩ harmless
    rintro w call ⟨healthy, unambiguous⟩ met
    exact ⟨healthy.step unambiguous met, step_unambiguous healthy.coherent.sound met.givesMaps unambiguous⟩
  exact both.1.honoured

/-- Two collections, the second with a reference to the first, and an item in each. -/
def referencedItem : List (Call × List Bool) :=
  [(.createCollection "t" false 0 ⟨[], List.nodup_nil⟩, []),
    (.insertDocument "t" none "" none, []),
    (.createCollection "d" false 0 ⟨[("f", ⟨"t", ""⟩)], List.nodup_singleton "f"⟩, []),
    (.insertDocument "d" none "" (some (.obj [("f", .int 1)])), [])]

/-- Deleting the item that is referred to is refused, renaming its collection is not. -/
theorem references_honoured_referencedItem :
    Along (World.step Host.uniform) (fun w call => Harmless w call.1)
        (referencedItem ++ [(.deleteDocument "t" 1, []), (.renameCollection "t" "u", [])]) World.start ∧
      Honoured (World.run Host.uniform (referencedItem ++ [(.deleteDocument "t" 1, []), (.renameCollection "t" "u", [])])
        World.start) :=
  ⟨by decide, references_honoured Host.uniform _ (by decide)⟩

/-- Dropping the collection that is referred to leaves the reference behind. -/
theorem dropped_target_not_honoured :
    ¬ ∀ (h : Host) (calls : List (Call × List Bool)), Honoured (World.run h calls World.start) := by
  intro all
  have broken : ¬ Honoured (World.run Host.uniform (referencedItem ++ [(.dropCollection "t", [])]) World.start) := by
    decide
  exact broken (all Host.uniform _)

end Microserver.ReferentialRuns
