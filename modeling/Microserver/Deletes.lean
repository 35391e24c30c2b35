import Mathlib
import Microserver.DeclaredReferences
import Microserver.Isolation

/-!
What a delete that succeeds does. The cascade nulls the fields that its
comparison finds under the rows of `collection_references`, and those only;
these are the references to the item as they were declared exactly when the
comparison finds nothing else.
-/
namespace Microserver.Deletes
open Microserver.Values Microserver.Store Microserver.Programs Microserver.Statements Microserver.Operations
open Microserver.Companion Microserver.Schema Microserver.Items Microserver.Reads Microserver.ReferenceChecks
open Microserver.FullTextIndex Microserver.Cascades Microserver.Histories Microserver.Reachable Microserver.Isolation
open Microserver.Integrity Microserver.RowInvariants

/-- The item when these fields are null. -/
structure Loses (fields : String → Prop) (row row' : Row) : Prop where
  id : row'.id = row.id
  text : row'.text = row.text
  nulled : ∀ f, fields f → row'.data.field f = some .null
  others : ∀ f, ¬ fields f → row'.data.field f = row.data.field f
  unchanged : (∀ f, ¬ fields f) → row' = row

/-- The collection registered as `owner` declared `field` as a restrict reference
    to the one registered as `target`. -/
def DeclaresRestrict (w : World) (owner target field : String) : Prop :=
  ∃ d ∈ w.history.declared, w.history.serial owner = some d.owner ∧ w.history.serial target = some d.target ∧
    d.field = field ∧ d.onDelete = onDeleteRestrict

/-- The item that a delete is about. -/
def IsDeleted (coll : Collection) (id : Int) (c : Collection) (row : Row) : Prop := c.name = coll.name ∧ row.id = id

instance (coll : Collection) (id : Int) (c : Collection) (row : Row) : Decidable (IsDeleted coll id c row) := by
  unfold IsDeleted
  exact inferInstance

/-- The item is gone, and with it every declared reference to it and nothing else. -/
structure Complete (w : World) (coll : Collection) (id : Int) (s' : DB) : Prop where
  unrestricted : ∀ c ∈ w.db.collections, ∀ row ∈ items w.db c.tableName, ∀ f, DeclaresRestrict w c.name coll.name f →
    row.data.field f ≠ some (.int id)
  gone : ∀ row ∈ items s' coll.tableName, row.id ≠ id
  unindexed : coll.hasVector = true → ¬ Holds (indexPairs s' coll.tableName) id
  others : ∀ c ∈ w.db.collections, ∀ row ∈ items w.db c.tableName, ¬ IsDeleted coll id c row →
    ∃ row' ∈ items s' c.tableName,
      Loses (fun f => DeclaresSetNull w c.name coll.name f ∧ row.data.field f = some (.int id)) row row'
  origin : ∀ c ∈ w.db.collections, ∀ row' ∈ items s' c.tableName, ∃ row ∈ items w.db c.tableName, row.id = row'.id

/-- What the cascade finds is the id itself, in a field that its collection
    declared; left-over references and the value true are no such thing. -/
def FindsDeclared (h : Host) (w : World) (coll : Collection) (id : Int) : Prop :=
  ∀ c ∈ w.db.collections, ∀ r ∈ w.db.references, r.collectionName = c.name → r.targetCollection = coll.name →
    r.onDelete = onDeleteSetNull → ∀ row ∈ items w.db c.tableName, ¬ IsDeleted coll id c row → Matches h r.fieldName id row →
      DeclaresSetNull w c.name coll.name r.fieldName ∧ row.data.field r.fieldName = some (.int id)

instance (h : Host) (w : World) (coll : Collection) (id : Int) : Decidable (FindsDeclared h w coll id) := by
  unfold FindsDeclared
  exact inferInstance

variable {h : Host} {w : World} {s s' : DB} {c coll srcColl : Collection} {name field : String} {id : Int}
  {fields : String → Prop} {row row₀ row₁ row' : Row} {calls : List (Call × List Bool)} {faults : List Bool}

theorem Loses.congr {fields' : String → Prop} (loses : Loses fields row row') (same : ∀ f, fields f ↔ fields' f) :
    Loses fields' row row' :=
  ⟨loses.id, loses.text, fun f there => loses.nulled f ((same f).mpr there), fun f absent => loses.others f fun there => absent ((same f).mp there),
    fun none => loses.unchanged fun f there => none f ((same f).mp there)⟩

/-! ### The cascade -/

/-- The fields of an item that the cascade nulls. -/
def Found (h : Host) (s : DB) (target : String) (id : Int) (c : Collection) (row : Row) (field : String) : Prop :=
  (∃ r ∈ s.references, r.collectionName = c.name ∧ r.fieldName = field ∧ r.targetCollection = target ∧
    r.onDelete = onDeleteSetNull) ∧ Matches h field id row

/-- The item when some of these fields have become null. -/
structure Fading (fields : String → Prop) (row row' : Row) : Prop where
  id : row'.id = row.id
  text : row'.text = row.text
  each : ∀ f, row'.data.field f = row.data.field f ∨ fields f ∧ row'.data.field f = some .null
  unchanged : row' = row ∨ ∃ f, fields f
  unambiguous : row'.data.Unambiguous

theorem Fading.refl (fields : String → Prop) (unambiguous : row.data.Unambiguous) : Fading fields row row :=
  ⟨rfl, rfl, fun _ => .inl rfl, .inl rfl, unambiguous⟩

theorem Fading.matches (fading : Fading fields row₀ row) (matched : Matches h field id row) : Matches h field id row₀ := by
  rcases fading.each field with same | ⟨-, isNull⟩
  · exact (Matches.congr same).mp matched
  · exact absurd matched (not_matches_unset (.inr isNull))

/-- One more of the fields is nulled. -/
theorem Fading.null (fading : Fading fields row₀ row) (nulled : Nulled h srcColl field row row') (allowed : fields field) :
    Fading fields row₀ row' := by
  obtain ⟨id', text', -, values, object, data'⟩ := nulled
  refine ⟨id'.trans fading.id, text'.trans fading.text, fun f => ?_, .inr ⟨field, allowed⟩,
    data' ▸ unambiguous_setNull field values⟩
  rw [data']
  by_cases here : f = field
  · rw [here]
    exact .inr ⟨allowed, field_setNull_same field values⟩
  · rw [field_setNull_other here, ← object, fading.unambiguous.lastField_eq]
    exact fading.each f

/-- Every one of the fields has become null when none of them is found any more. -/
theorem Fading.loses (fading : Fading fields row row') (matched : ∀ f, fields f → Matches h f id row)
    (unmatched : ∀ f, fields f → ¬ Matches h f id row') : Loses fields row row' := by
  refine ⟨fading.id, fading.text, fun f there => ?_, fun f absent => ?_, fun none => ?_⟩
  · rcases fading.each f with same | ⟨-, isNull⟩
    · exact absurd ((Matches.congr same).mpr (matched f there)) (unmatched f there)
    · exact isNull
  · rcases fading.each f with same | ⟨there, -⟩
    · exact same
    · exact absurd there absent
  · rcases fading.unchanged with same | ⟨f, there⟩
    · exact same
    · exact absurd there (none f)

/-- The items on the way through the cascade. -/
structure Cascading (h : Host) (s : DB) (target : String) (id : Int) (s' : DB) : Prop where
  schema : SameSchema s s'
  forth : ∀ c ∈ s.collections, ∀ row ∈ items s c.tableName, ∃ row' ∈ items s' c.tableName, Fading (Found h s target id c row) row row'
  back : ∀ c ∈ s.collections, ∀ row' ∈ items s' c.tableName, ∃ row ∈ items s c.tableName, Fading (Found h s target id c row) row row'

theorem Cascading.refl (unambiguous : Unambiguous s) : Cascading h s name id s :=
  ⟨.refl s, fun c registered row member => ⟨row, member, .refl _ (unambiguous c registered row member)⟩,
    fun c registered row member => ⟨row, member, .refl _ (unambiguous c registered row member)⟩⟩

/-- The rewriting of an item that the comparison has found. -/
theorem Cascading.rewrite {s₀ : DB} (sound : Sound s₀) (cascading : Cascading h s₀ name id s) (registered : srcColl ∈ s₀.collections)
    (stored : row₀ ∈ items s₀ srcColl.tableName) (found : Found h s₀ name id srcColl row₀ field) (same : row.id = row₀.id)
    (nulling : Nulling h srcColl field row s s') : Cascading h s₀ name id s' := by
  obtain ⟨row', nulled, wrote⟩ := nulling.wrote
  have origin : Fading (Found h s₀ name id srcColl row₀) row₀ row := by
    obtain ⟨row₁, stored₁, fading⟩ := cascading.back srcColl registered row nulling.member
    obtain rfl := items_injective stored₁ stored (fading.id.symm.trans same)
    exact fading
  have after := origin.null nulled found
  refine ⟨cascading.schema.trans wrote.schema, fun c member r₀ there => ?_, fun c member r there => ?_⟩
  · obtain ⟨r, kept, fading⟩ := cascading.forth c member r₀ there
    by_cases table : fold c.tableName = fold srcColl.tableName
    · obtain rfl := sound.table_injective member registered table
      by_cases here : r.id = row.id
      · obtain rfl := items_injective there stored (fading.id.symm.trans (here.trans same))
        exact ⟨row', (wrote.here row').mpr (.inr rfl), after⟩
      · exact ⟨r, (wrote.here r).mpr (.inl ⟨kept, here⟩), fading⟩
    · rw [wrote.others _ table]
      exact ⟨r, kept, fading⟩
  · by_cases table : fold c.tableName = fold srcColl.tableName
    · obtain rfl := sound.table_injective member registered table
      rcases (wrote.here r).mp there with ⟨kept, -⟩ | rfl
      · exact cascading.back c member r kept
      · exact ⟨row₀, stored, after⟩
    · rw [wrote.others _ table] at there
      exact cascading.back c member r there

/-- checkReferentialDelete nulls what it finds, and passes when nothing is left
    to be found. -/
theorem checkReferentialDelete_cascades (sound : Sound s) (unambiguous : Unambiguous s)
    (policy : ∀ r ∈ s.references, r.onDelete = onDeleteRestrict ∨ r.onDelete = onDeleteSetNull) :
    (machine h).wp (fun result s' => Cascading h s name id s' ∧ (result = .ok () → ∀ r ∈ s.references, r.targetCollection = name →
      Unmatched h id s' ⟨r.collectionName, r.fieldName, r.onDelete⟩)) (checkReferentialDelete name id) s := by
  have clear : Clear [] s := ⟨by simp [Integral], unambiguous⟩
  refine (machine h).wp_and (wp_checkReferentialDelete_induct ?_ (.refl unambiguous))
    ((machine h).wp_mono (fun _ _ after => after.2.2) (checkReferentialDelete_unmatches clear policy))
  intro r declared target set s₁ srcColl cascading₁ known row₁ member₁ matched s₂ s₃ row cascading₂ same nulling
  rw [cascading₁.schema.lookup] at known
  obtain ⟨registered, owner⟩ := DB.lookup_some known
  obtain ⟨row₀, stored, fading⟩ := cascading₁.back srcColl registered row₁ member₁
  exact cascading₂.rewrite sound registered stored ⟨⟨r, declared, owner.symm, rfl, target, set⟩, fading.matches matched⟩
    (same.trans fading.id) nulling

/-! ### The whole delete -/

/-- The items after a delete that succeeds. -/
structure Carried (h : Host) (s : DB) (coll : Collection) (id : Int) (s' : DB) : Prop where
  unmatched : ∀ r ∈ s.references, r.targetCollection = coll.name → r.onDelete = onDeleteRestrict →
    Unmatched h id s ⟨r.collectionName, r.fieldName, r.onDelete⟩
  gone : ∀ row ∈ items s' coll.tableName, row.id ≠ id
  unindexed : coll.hasVector = true → ¬ Holds (indexPairs s' coll.tableName) id
  others : ∀ c ∈ s.collections, ∀ row ∈ items s c.tableName, ¬ IsDeleted coll id c row →
    ∃ row' ∈ items s' c.tableName, Loses (Found h s coll.name id c row) row row'
  origin : ∀ c ∈ s.collections, ∀ row' ∈ items s' c.tableName, ∃ row ∈ items s c.tableName, row.id = row'.id

theorem deleteDocumentTx_unindexes (vector : coll.hasVector = true) (done : deleteDocumentTx coll id s = .ok (true, s')) :
    ¬ Holds (indexPairs s' coll.tableName) id := by
  rcases deleteDocumentTx_cases done with ⟨no, -⟩ | ⟨-, -, n, s₁, -, ⟨plain, -⟩ | ⟨-, removed⟩⟩
  · cases no
  · rw [plain] at vector
    cases vector
  · rw [indexPairs_deleteFullText removed, if_pos rfl]
    rintro ⟨p, ⟨-, other⟩, same⟩
    exact other same

/-- A restrict reference finds no item from the start: the cascade nulls no field
    that it declares. -/
theorem Cascading.unmatched {r : ReferenceRow} (cascading : Cascading h s name id s')
    (keys : (s.references.map fun r => (r.collectionName, r.fieldName)).Nodup) (stored : r ∈ s.references)
    (restrict : r.onDelete = onDeleteRestrict) (after : Unmatched h id s' ⟨r.collectionName, r.fieldName, r.onDelete⟩) :
    Unmatched h id s ⟨r.collectionName, r.fieldName, r.onDelete⟩ := by
  intro c known row member matched
  obtain ⟨registered, owner⟩ := DB.lookup_some known
  obtain ⟨row', there, fading⟩ := cascading.forth c registered row member
  have known' : s'.lookup r.collectionName = some c := by rw [cascading.schema.lookup, known]
  rcases fading.each r.fieldName with same | ⟨⟨⟨q, stored', owner', field, -, set⟩, -⟩, -⟩
  · exact after c known' row' there ((Matches.congr same).mpr matched)
  · obtain rfl := List.inj_on_of_nodup_map keys stored' stored (Prod.ext (owner'.trans owner) field)
    rw [restrict] at set
    exact absurd set (by decide)

theorem deleteDocument_carries (sound : Sound s) (unambiguous : Unambiguous s)
    (policy : ∀ r ∈ s.references, r.onDelete = onDeleteRestrict ∨ r.onDelete = onDeleteSetNull)
    (keys : (s.references.map fun r => (r.collectionName, r.fieldName)).Nodup) (registered : coll ∈ s.collections) :
    (machine h).wp (fun result s' => result = .ok true → Carried h s coll id s') (deleteDocument coll id) s := by
  unfold deleteDocument
  rw [Prog.bind_eq, Machine.wp_bind]
  refine (machine h).wp_mono ?_ (checkReferentialDelete_cascades sound unambiguous policy)
  rintro result s₁ ⟨cascading, unmatched⟩
  have failed {e : Err} {s' : DB} (ok : Except.error e = Except.ok true) : Carried h s coll id s' := by cases ok
  cases result with
  | error e => exact failed
  | ok _ =>
    simp only [Machine.Then]
    rw [Machine.wp_call]
    refine ⟨fun found s₂ done ok => ?_, fun _ _ => failed, failed⟩
    obtain rfl : found = true := Except.ok.inj ok
    rcases deleteDocumentTx_ok done with ⟨no, -⟩ | ⟨-, -, wrote⟩
    · cases no
    have gone : ∀ row ∈ items s₂ coll.tableName, row.id ≠ id := fun row there =>
      ((wrote.here row).mp there).elim (·.2) False.elim
    refine ⟨fun r stored target restrict => ?_, gone, fun vector => deleteDocumentTx_unindexes vector done, ?_, ?_⟩
    · exact cascading.unmatched keys stored restrict (unmatched rfl r stored target)
    · intro c member row stored other
      obtain ⟨row', there, fading⟩ := cascading.forth c member row stored
      have loses : Loses (Found h s coll.name id c row) row row' := by
        refine fading.loses (fun f found => found.2) ?_
        rintro f ⟨⟨r, declared, owner, rfl, target, -⟩, -⟩
        refine unmatched rfl r declared target c ?_ row' there
        rw [cascading.schema.lookup, owner]
        exact sound.lookup member
      refine ⟨row', ?_, loses⟩
      by_cases table : fold c.tableName = fold coll.tableName
      · obtain rfl := sound.table_injective member registered table
        exact (wrote.here row').mpr (.inl ⟨there, fun same => other ⟨rfl, loses.id.symm.trans same⟩⟩)
      · rwa [wrote.others _ table]
    · intro c member row' there
      have before : row' ∈ items s₁ c.tableName := by
        rcases wrote.origin there with ⟨old, -⟩ | ⟨-, impossible⟩
        · exact old
        · exact impossible.elim
      obtain ⟨row, stored, fading⟩ := cascading.back c member row' before
      exact ⟨row, stored, fading.id.symm⟩

/-! ### Declared references -/

/-- A declaration between registered collections has its row. -/
theorem declared_row (coherent : Coherent w) {d : Declaration} (declared : d ∈ w.history.declared) {owner target : String}
    (left : w.history.serial owner = some d.owner) (right : w.history.serial target = some d.target) :
    ∃ r ∈ w.db.references, r.collectionName = owner ∧ r.fieldName = d.field ∧ r.targetCollection = target ∧
      r.onDelete = d.onDelete := by
  rw [← DeclaredReferences.declared_snd coherent] at declared
  obtain ⟨p, listed, rfl⟩ := List.mem_map.mp declared
  obtain ⟨field, policy⟩ := coherent.row p listed
  exact ⟨p.1, (World.declared_row listed).1, coherent.owner p listed owner left, field, coherent.target p listed target right, policy⟩

theorem found_iff (coherent : Coherent w) (finds : FindsDeclared h w coll id) (member : c ∈ w.db.collections)
    (stored : row ∈ items w.db c.tableName) (other : ¬ IsDeleted coll id c row) (f : String) :
    Found h w.db coll.name id c row f ↔ DeclaresSetNull w c.name coll.name f ∧ row.data.field f = some (.int id) := by
  constructor
  · rintro ⟨⟨r, declared, owner, rfl, target, set⟩, matched⟩
    exact finds c member r declared owner target set row stored other matched
  · rintro ⟨⟨d, declared, owner, target, rfl, set⟩, held⟩
    obtain ⟨r, there, owner', field, target', set'⟩ := declared_row coherent declared owner target
    exact ⟨⟨r, there, owner', field, target', set'.trans set⟩, .of_int held⟩

theorem Carried.complete_iff (carried : Carried h w.db coll id s') (coherent : Coherent w) :
    Complete w coll id s' ↔ FindsDeclared h w coll id := by
  constructor
  · intro complete c member r declared owner target set row stored other matched
    obtain ⟨row', there, loses⟩ := carried.others c member row stored other
    obtain ⟨row'', there', exactly⟩ := complete.others c member row stored other
    obtain rfl := items_injective there there' (loses.id.trans exactly.id.symm)
    by_contra kept
    have isNull := loses.nulled r.fieldName ⟨⟨r, declared, owner, rfl, target, set⟩, matched⟩
    rw [exactly.others r.fieldName kept] at isNull
    exact not_matches_unset (.inr isNull) matched
  · intro finds
    refine ⟨?_, carried.gone, carried.unindexed, fun c member row stored other => ?_, carried.origin⟩
    · rintro c member row stored f ⟨d, declared, owner, target, rfl, restrict⟩ held
      obtain ⟨r, there, owner', field, target', restrict'⟩ := declared_row coherent declared owner target
      have known : w.db.lookup r.collectionName = some c := by
        rw [owner']
        exact coherent.sound.lookup member
      refine carried.unmatched r there target' (restrict'.trans restrict) c known row stored (.of_int ?_)
      show row.data.field r.fieldName = some (.int id)
      rw [field]
      exact held
    · obtain ⟨row', there, loses⟩ := carried.others c member row stored other
      exact ⟨row', there, loses.congr (found_iff coherent finds member stored other)⟩

theorem reached_carries (maps : ∀ call ∈ calls, GivesMaps call.1) (registered : coll ∈ (reached h calls).collections)
    (done : (machine h).run (deleteDocument coll id) faults (reached h calls) = (.ok true, s')) :
    Carried h (reached h calls) coll id s' := by
  have coherent := run_coherent h calls
  have carries : (machine h).wp (fun result s' => result = .ok true → Carried h (reached h calls) coll id s')
      (deleteDocument coll id) (reached h calls) :=
    deleteDocument_carries coherent.sound (reached_unambiguous maps) coherent.policy (reached_keys h calls) registered
  have carried := (machine h).wp_iff_run.mp carries faults
  rw [done] at carried
  exact carried rfl

/-- After any run of calls that store maps, a delete that returns true removes the item, nulls the
    declared set_null references to it and changes nothing else, provided that its
    cascade finds declared references only; and only then. -/
theorem delete_complete (h : Host) (calls : List (Call × List Bool)) (coll : Collection) (id : Int) (faults : List Bool) (s' : DB)
    (maps : ∀ call ∈ calls, GivesMaps call.1) (registered : coll ∈ (reached h calls).collections)
    (done : (machine h).run (deleteDocument coll id) faults (reached h calls) = (.ok true, s')) :
    Complete (World.run h calls World.start) coll id s' ↔ FindsDeclared h (World.run h calls World.start) coll id :=
  (reached_carries maps registered done).complete_iff (run_coherent h calls)

/-- The collection that the delete is addressed to. -/
def target : Collection := ⟨"t", "coll_t", false, 0⟩

/-- Its item 1 is deleted while an item of a vector collection refers to it. -/
theorem delete_complete_referring : Complete (World.run Host.uniform referring World.start) target 1
    ((machine Host.uniform).run (deleteDocument target 1) [] (reached Host.uniform referring)).2 :=
  (delete_complete Host.uniform referring target 1 [] _ (by decide) (by decide) (Prod.ext (by rfl) rfl)).mpr (by decide)

/-- A collection with an item that says true takes the name of one that declared
    a reference. -/
def renamedOver : List (Call × List Bool) :=
  [(.createCollection "t" false 0 ⟨[], List.nodup_nil⟩, []),
    (.createCollection "d" false 0 ⟨[("f", ⟨"t", onDeleteSetNull⟩)], List.nodup_singleton "f"⟩, []),
    (.dropCollection "d", []), (.createCollection "e" false 0 ⟨[], List.nodup_nil⟩, []),
    (.insertDocument "e" none "" (some (.obj [("f", .bool true)])), []), (.renameCollection "e" "d", []),
    (.insertDocument "t" none "" none, [])]

/-- The delete of item 1 nulls the value true. -/
theorem true_nulled :
    ¬ ∀ (h : Host) (calls : List (Call × List Bool)) (coll : Collection) (id : Int) (faults : List Bool) (s' : DB),
      (∀ call ∈ calls, GivesMaps call.1) → coll ∈ (reached h calls).collections →
      (machine h).run (deleteDocument coll id) faults (reached h calls) = (.ok true, s') →
        Complete (World.run h calls World.start) coll id s' := by
  intro all
  have registered : target ∈ (reached Host.uniform renamedOver).collections := by decide
  have done : (machine Host.uniform).run (deleteDocument target 1) [] (reached Host.uniform renamedOver) = (.ok true, _) :=
    Prod.ext (by rfl) rfl
  have maps : ∀ call ∈ renamedOver, GivesMaps call.1 := by decide
  have complete := all Host.uniform renamedOver target 1 [] _ maps registered done
  have finds := ((reached_carries maps registered done).complete_iff (run_coherent Host.uniform renamedOver)).mp complete
  exact absurd finds (by decide)

end Microserver.Deletes
