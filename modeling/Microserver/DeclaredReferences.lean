import Microserver.Reachable

/-!
The references of a collection are those that it was created with. Rows of
`collection_references` carry names, and a drop frees a name without removing
the rows that mention it; that is the one way in which the rows and the
declarations come apart.
-/
namespace Microserver.DeclaredReferences
open Microserver.Store Microserver.Programs Microserver.Statements Microserver.Operations Microserver.Schema Microserver.Items
open Microserver.Handlers Microserver.Histories Microserver.Reachable

/-- The name that the collection created under a serial number has now. -/
def nameOf (w : World) (k : Nat) : Option String :=
  (w.db.collections.map (·.name)).find? (fun n => w.history.serial n = some k)

/-- The references that the collection created under a serial number was created
    with: field, present name of the target, and `on_delete` with its default. -/
def declaredBy (w : World) (k : Nat) : List (String × Option String × String) :=
  (w.history.declared.filter (fun d => d.owner = k)).map (fun d => (d.field, nameOf w d.target, d.onDelete))

/-- getReferences answers with the references that the collection was created with. -/
def HasDeclared (h : Host) (w : World) (c : Collection) : Prop :=
  match w.history.serial c.name, ((machine h).eval (getReferences c.name) w.db).1 with
  | some k, .ok refs => (refs.map (fun r => (r.field, some r.collection, r.onDelete))).Perm (declaredBy w k)
  | _, _ => False

instance (h : Host) (w : World) (c : Collection) : Decidable (HasDeclared h w c) := by
  unfold HasDeclared
  split <;> exact inferInstance

/-- Every collection has its references, and every row names collections. -/
structure Faithful (h : Host) (w : World) : Prop where
  references : ∀ c ∈ w.db.collections, HasDeclared h w c
  owners : ∀ r ∈ w.db.references, w.db.registered r.collectionName = true
  targets : ∀ r ∈ w.db.references, w.db.registered r.targetCollection = true

/-- No row of `collection_references` mentions the name. -/
def Unmentioned (s : DB) (name : String) : Prop :=
  ∀ r ∈ s.references, r.collectionName ≠ name ∧ r.targetCollection ≠ name

/-- A drop of a registered collection, if its statements do not fail, finds the
    name mentioned nowhere. -/
def LeavesNothing (w : World) (call : Call × List Bool) : Prop :=
  match call.1 with
  | .dropCollection name =>
    w.db.registered name = true → call.2.headD false = false → call.2.tail.headD false = false → Unmentioned w.db name
  | _ => True

/-- Every row still names the collections that its declaration is about. -/
def Linked (w : World) : Prop :=
  ∀ p ∈ w.declared, w.history.serial p.1.collectionName = some p.2.owner ∧
    w.history.serial p.1.targetCollection = some p.2.target

variable {h : Host} {w : World}

/-! ### What the links mean -/

theorem nameOf_some {k : Nat} {n : String} (found : nameOf w k = some n) : w.history.serial n = some k := by
  simpa using List.find?_some found

theorem nameOf_serial (coherent : Coherent w) {k : Nat} {n : String} (serial : w.history.serial n = some k) :
    nameOf w k = some n := by
  have known := coherent.registered n
  rw [serial] at known
  obtain ⟨c, member, rfl⟩ := DB.registered_iff.mp known.symm
  cases found : nameOf w k with
  | none =>
    have absent := List.find?_eq_none.mp found c.name (List.mem_map.mpr ⟨c, member, rfl⟩)
    simp [serial] at absent
  | some m => rw [coherent.injective m c.name k (nameOf_some found) serial]

theorem declared_fst (coherent : Coherent w) : w.declared.map Prod.fst = w.db.references :=
  List.map_fst_zip coherent.length.le

theorem declared_snd (coherent : Coherent w) : w.declared.map Prod.snd = w.history.declared :=
  List.map_snd_zip coherent.length.ge

/-- What getReferences answers, and what it should answer, both read off the
    rows with their declarations. -/
theorem hasDeclared_iff (coherent : Coherent w) {c : Collection} {k : Nat} (serial : w.history.serial c.name = some k) :
    HasDeclared h w c ↔
      ((w.declared.filter (fun p => p.1.collectionName = c.name)).map
          (fun p => (p.1.fieldName, some p.1.targetCollection, p.1.onDelete))).Perm
        ((w.declared.filter (fun p => p.2.owner = k)).map (fun p => (p.2.field, nameOf w p.2.target, p.2.onDelete))) := by
  have answer : ((machine h).eval (getReferences c.name) w.db).1 =
      .ok ((h.visit (w.db.owned c.name)).map fun r => ⟨r.fieldName, r.targetCollection, r.onDelete⟩) := rfl
  have rows : w.db.owned c.name = (w.declared.filter (fun p => p.1.collectionName = c.name)).map Prod.fst := by
    unfold DB.owned
    rw [← declared_fst coherent, List.filter_map]
    rfl
  have declarations : declaredBy w k =
      (w.declared.filter (fun p => p.2.owner = k)).map (fun p => (p.2.field, nameOf w p.2.target, p.2.onDelete)) := by
    unfold declaredBy
    rw [← declared_snd coherent, List.filter_map, List.map_map]
    rfl
  unfold HasDeclared
  simp only [serial, answer]
  rw [declarations, List.map_map]
  have found : ((h.visit (w.db.owned c.name)).map
      ((fun r : Reference => (r.field, some r.collection, r.onDelete)) ∘
        fun r : ReferenceRow => ⟨r.fieldName, r.targetCollection, r.onDelete⟩)).Perm
      ((w.declared.filter (fun p => p.1.collectionName = c.name)).map
        (fun p => (p.1.fieldName, some p.1.targetCollection, p.1.onDelete))) := by
    refine ((h.visit_perm _).map _).trans ?_
    rw [rows, List.map_map]
    exact .refl _
  exact ⟨fun perm => found.symm.trans perm, fun perm => found.trans perm⟩

/-- In a list with as many elements of one kind as of a wider one, the two kinds are the same. -/
theorem filter_same {α : Type} {l : List α} {p q : α → Bool} (wider : ∀ x ∈ l, q x = true → p x = true)
    (lengths : (l.filter p).length = (l.filter q).length) : ∀ x ∈ l, p x = true → q x = true := by
  have inner : (l.filter p).filter q = l.filter q := by
    rw [List.filter_filter]
    refine List.filter_congr fun x member => ?_
    cases holds : q x with
    | false => simp
    | true => simp [wider x member holds]
  have all : ∀ x ∈ l.filter p, q x = true := by
    rw [← List.length_filter_eq_length_iff, inner]
    exact lengths.symm
  exact fun x member holds => all x (List.mem_filter.mpr ⟨member, holds⟩)

/-- The links are exactly what makes every collection have its references. -/
theorem faithful_iff (coherent : Coherent w) : Faithful h w ↔ Linked w := by
  constructor
  · intro faithful p member
    obtain ⟨stored, -⟩ := World.declared_row member
    obtain ⟨c, registered, named⟩ := DB.registered_iff.mp (faithful.owners p.1 stored)
    have known := coherent.registered c.name
    rw [DB.registered_iff.mpr ⟨c, registered, rfl⟩] at known
    obtain ⟨k, serial⟩ := Option.isSome_iff_exists.mp known
    have perm := (hasDeclared_iff coherent serial).mp (faithful.references c registered)
    -- no row but those of this incarnation carries its name
    have owner : p.2.owner = k := by
      have own := filter_same (l := w.declared) (p := fun p => p.1.collectionName = c.name) (q := fun p => p.2.owner = k) ?_ ?_
        p member (by simpa using named.symm)
      · simpa using own
      · intro q listed same
        simpa using coherent.owner q listed c.name (by rw [serial, decide_eq_true_eq.mp same])
      · simpa using perm.length_eq
    refine ⟨by rw [← named, serial, owner], ?_⟩
    have listed : p ∈ w.declared.filter (fun p => p.2.owner = k) := List.mem_filter.mpr ⟨member, by simpa using owner⟩
    obtain ⟨q, -, same⟩ := List.mem_map.mp (perm.mem_iff.mpr (List.mem_map.mpr ⟨p, listed, rfl⟩))
    have target : nameOf w p.2.target = some q.1.targetCollection := by
      simp only [Prod.mk.injEq] at same
      exact same.2.1.symm
    rw [coherent.target p member q.1.targetCollection (nameOf_some target)]
    exact nameOf_some target
  · intro linked
    have registered (n : String) (k : Nat) (serial : w.history.serial n = some k) : w.db.registered n = true := by
      rw [← coherent.registered n, serial]
      rfl
    refine ⟨?_, ?_, ?_⟩
    · intro c member
      have known := coherent.registered c.name
      rw [DB.registered_iff.mpr ⟨c, member, rfl⟩] at known
      obtain ⟨k, serial⟩ := Option.isSome_iff_exists.mp known
      rw [hasDeclared_iff coherent serial]
      have own : w.declared.filter (fun p => p.1.collectionName = c.name) = w.declared.filter (fun p => p.2.owner = k) := by
        refine List.filter_congr fun p listed => ?_
        rw [decide_eq_decide]
        constructor
        · intro named
          have owner := (linked p listed).1
          rw [named, serial] at owner
          exact (Option.some.inj owner).symm
        · intro owner
          exact coherent.owner p listed c.name (by rw [serial, owner])
      rw [own]
      refine List.Perm.of_eq (List.map_congr_left fun p listed => ?_)
      obtain ⟨stored, -⟩ := List.mem_filter.mp listed
      rw [nameOf_serial coherent (linked p stored).2, (coherent.row p stored).1, (coherent.row p stored).2]
    · intro r stored
      obtain ⟨d, member⟩ := coherent.declared_of_row stored
      exact registered _ _ (linked _ member).1
    · intro r stored
      obtain ⟨d, member⟩ := coherent.declared_of_row stored
      exact registered _ _ (linked _ member).2

/-! ### One call -/

theorem Linked.createCollection {name : String} {hasVector : Bool} {dimensions : Int} {references : ReferenceMap} {s' : DB}
    (coherent : Coherent w) (linked : Linked w)
    (done : createCollectionTx name hasVector dimensions references w.db = .ok s') :
    Linked ⟨s', w.history.record (.createCollection name hasVector dimensions references)⟩ := by
  obtain ⟨fresh, targets, -, s₁, -, rfl⟩ := createCollectionTx_ok done
  have kept (n : String) (k : Nat) (serial : w.history.serial n = some k) :
      (w.history.record (.createCollection name hasVector dimensions references)).serial n = some k := by
    have known := coherent.registered n
    rw [serial] at known
    have other : n ≠ name := by
      rintro rfl
      rw [fresh] at known
      cases known
    simpa only [History.record, other, ↓reduceIte] using serial
  intro p member
  rw [declared_createCollection coherent] at member
  rcases List.mem_append.mp member with old | new
  · exact ⟨kept _ _ (linked p old).1, kept _ _ (linked p old).2⟩
  · obtain ⟨e, listed, rfl⟩ := List.mem_map.mp new
    have known := coherent.registered e.2.collection
    rw [targets e listed] at known
    obtain ⟨k, serial⟩ := Option.isSome_iff_exists.mp known
    refine ⟨by simp [History.record, referenceRow], ?_⟩
    simp only [serial, Option.getD_some]
    exact kept _ _ serial

theorem Linked.renameCollection {oldName newName : String} {s' : DB} (coherent : Coherent w) (linked : Linked w)
    (done : renameCollectionTx oldName newName w.db = .ok s') :
    Linked ⟨s', w.history.record (.renameCollection oldName newName)⟩ := by
  obtain ⟨-, available, -, rfl⟩ := renameCollectionTx_ok_iff.mp done
  intro p member
  rw [renamed_declared] at member
  obtain ⟨q, stored, rfl⟩ := List.mem_map.mp member
  exact ⟨(serial_renamed coherent available).mpr ⟨_, (linked q stored).1, rfl⟩,
    (serial_renamed coherent available).mpr ⟨_, (linked q stored).2, rfl⟩⟩

/-- A drop breaks the links of the rows that mention the name, and no others. -/
theorem linked_dropCollection {coll : Collection} {name : String} {s' : DB} (coherent : Coherent w) (linked : Linked w)
    (done : dropCollectionTx coll name w.db = .ok s') :
    Linked ⟨s', w.history.record (.dropCollection name)⟩ ↔ Unmentioned w.db name := by
  obtain ⟨t, -, refs, -⟩ := dropCollectionTx_ok done
  have same : World.declared ⟨s', w.history.record (.dropCollection name)⟩ = w.declared := by
    simp [World.declared, History.record, refs]
  constructor
  · intro still r stored
    obtain ⟨d, member⟩ := coherent.declared_of_row stored
    rw [← same] at member
    obtain ⟨owner, target⟩ := still _ member
    constructor
    · rintro rfl
      simp [History.record] at owner
    · rintro rfl
      simp [History.record] at target
  · intro unmentioned p member
    rw [same] at member
    obtain ⟨stored, -⟩ := World.declared_row member
    obtain ⟨owner, target⟩ := unmentioned p.1 stored
    simp only [History.record, owner, target, ↓reduceIte]
    exact linked p member

/-- What a run of dropCollection does. -/
theorem dropCollection_run (h : Host) (s : DB) (name : String) (faults : List Bool) :
    (faults.headD false = false ∧ faults.tail.headD false = false ∧ ∃ coll s', s.lookup name = some coll ∧
        dropCollectionTx coll name s = .ok s' ∧ (machine h).run (Operations.dropCollection name) faults s = (.ok (), s')) ∨
      (¬ (faults.headD false = false ∧ faults.tail.headD false = false ∧ ∃ coll s', s.lookup name = some coll ∧
          dropCollectionTx coll name s = .ok s') ∧
        ∃ e, (machine h).run (Operations.dropCollection name) faults s = (.error e, s)) := by
  cases first : faults.headD false with
  | true => exact .inr ⟨by simp, _, (machine h).run_faulty first⟩
  | false =>
    have lookup : (machine h).exec (.read fun _ s => .ok (s.lookup name)) s = .ok (s.lookup name, s) := rfl
    cases found : s.lookup name with
    | none =>
      rw [found] at lookup
      exact .inr ⟨by simp, .collectionNotFound, (machine h).run_ok first lookup⟩
    | some coll =>
      rw [found] at lookup
      have rest : (machine h).run (Operations.dropCollection name) faults s =
          (machine h).run (.call id (.dropCollection coll name)) faults.tail s := (machine h).run_ok first lookup
      rw [rest]
      cases second : faults.tail.headD false with
      | true => exact .inr ⟨by simp, _, (machine h).run_faulty second⟩
      | false =>
        cases done : dropCollectionTx coll name s with
        | error e => exact .inr ⟨by simp [done], e, run_refused rfl done second⟩
        | ok s' => exact .inl ⟨rfl, rfl, coll, s', rfl, done, run_committed rfl done second⟩

/-- A drop keeps the links exactly when it leaves nothing behind. -/
theorem linked_step_drop {name : String} {faults : List Bool} (coherent : Coherent w) (linked : Linked w) :
    Linked (w.step h (.dropCollection name, faults)) ↔ LeavesNothing w (.dropCollection name, faults) := by
  rcases dropCollection_run h w.db name faults with ⟨first, second, coll, s', found, done, ran⟩ | ⟨idle, e, ran⟩
  · have step : w.step h (.dropCollection name, faults) = ⟨s', w.history.record (.dropCollection name)⟩ := by
      simp [World.step, Call.program, ran, Except.isOk, Except.toBool]
    rw [step, linked_dropCollection coherent linked done]
    have registered : w.db.registered name = true := by
      rw [← DB.lookup_isSome, found]
      rfl
    exact ⟨fun unmentioned _ _ _ => unmentioned, fun leaves => leaves registered first second⟩
  · have step : w.step h (.dropCollection name, faults) = w := by
      simp [World.step, Call.program, ran, Except.isOk, Except.toBool]
    rw [step]
    refine iff_of_true linked fun registered first second => (idle ⟨first, second, ?_⟩).elim
    rw [← DB.lookup_isSome, Option.isSome_iff_exists] at registered
    obtain ⟨coll, found⟩ := registered
    obtain ⟨s', done⟩ := coherent.sound.dropCollectionTx_goes name (DB.lookup_some found).1
    exact ⟨coll, s', found, done⟩

/-- A call other than a drop keeps the links. -/
theorem Linked.outcome {call : Call} {next : World} (coherent : Coherent w) (linked : Linked w)
    (other : ∀ name, call ≠ .dropCollection name) (outcome : Outcome w call next) : Linked next := by
  cases outcome with
  | schema same =>
    intro p member
    simp only [World.declared, same.references] at member
    exact linked p member
  | created _ _ done => exact linked.createCollection coherent done
  | renamed _ done => exact linked.renameCollection coherent done
  | dropped found done => exact absurd rfl (other _)

/-- One call keeps the links exactly when it leaves nothing behind. -/
theorem linked_step (coherent : Coherent w) (linked : Linked w) (call : Call × List Bool) :
    Linked (w.step h call) ↔ LeavesNothing w call := by
  obtain ⟨call, faults⟩ := call
  have outcome := step_outcome h w (call, faults)
  cases call with
  | dropCollection name => exact linked_step_drop coherent linked
  | createCollection _ _ _ _ | renameCollection _ _ | insertDocument _ _ _ _ | insertDocumentBulk _ _
    | updateDocument _ _ _ _ | deleteDocument _ _ =>
    exact iff_of_true (linked.outcome coherent (fun _ impossible => by cases impossible) outcome) trivial

/-! ### Runs -/

/-- Every collection has, all along a run, exactly the references that it was
    created with, and every row names collections, if and only if no drop of the
    run leaves a row behind that mentions the name. -/
theorem references_as_declared_iff (h : Host) (calls : List (Call × List Bool)) :
    Along (World.step h) LeavesNothing calls World.start ↔
      ∀ n, Faithful h (World.run h (calls.take n) World.start) := by
  have same (w : World) (call : Call × List Bool) (holds : Coherent w ∧ Linked w) :
      Coherent (w.step h call) ∧ Linked (w.step h call) ↔ LeavesNothing w call := by
    rw [linked_step holds.1 holds.2]
    exact and_iff_right (step_coherent holds.1 call)
  have start : Coherent World.start ∧ Linked World.start := ⟨start_coherent, by simp [Linked, World.start, World.declared]⟩
  rw [along_iff (I := fun w => Coherent w ∧ Linked w) same start]
  refine forall_congr' fun n => ?_
  have coherent := run_coherent h (calls.take n)
  rw [faithful_iff coherent]
  exact and_iff_right coherent

/-- A collection with a reference is dropped, and its name used again. -/
def recreated : List (Call × List Bool) :=
  [(.createCollection "t" false 0 ⟨[], List.nodup_nil⟩, []),
    (.createCollection "c" false 0 ⟨[("f", ⟨"t", ""⟩)], List.nodup_singleton "f"⟩, []),
    (.dropCollection "c", []),
    (.createCollection "c" false 0 ⟨[], List.nodup_nil⟩, [])]

/-- The new collection was created without references and has one. -/
theorem recreated_has_old_reference :
    ¬ ∀ (h : Host) (calls : List (Call × List Bool)), Faithful h (World.run h calls World.start) := by
  intro all
  have declared := (all Host.uniform recreated).references ⟨"c", "coll_c", false, 0⟩ (by decide)
  have wrong : ¬ HasDeclared Host.uniform (World.run Host.uniform recreated World.start) ⟨"c", "coll_c", false, 0⟩ := by
    decide
  exact wrong declared

end Microserver.DeclaredReferences
