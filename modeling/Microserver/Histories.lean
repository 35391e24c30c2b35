import Microserver.ReferenceChecks

/-!
Sequential histories of calls. Names are reused, so beside the database a
history records what names cannot tell: the serial number under which each
registered collection was created, and for each row of `collection_references`
the declaration that wrote it, by serial numbers. `Coherent` ties the record to
the database; every call keeps it.
-/
namespace Microserver.Histories
open Microserver.Values Microserver.Store Microserver.Programs Microserver.Statements Microserver.Operations
open Microserver.Schema Microserver.Items Microserver.Reads Microserver.Integrity Microserver.ReferenceChecks

/-- A call; the operations on items find their collection by name first. -/
inductive Call
  | createCollection (name : String) (hasVector : Bool) (dimensions : Int) (references : ReferenceMap)
  | renameCollection (oldName newName : String)
  | dropCollection (name : String)
  | insertDocument (name : String) (id : Option Int) (text : String) (data : Option Json)
  | insertDocumentBulk (name : String) (items : List BulkDocumentItem)
  | updateDocument (name : String) (id : Int) (text : String) (data : Option Json)
  | deleteDocument (name : String) (id : Int)

/-- An operation on the collection that has a name now. -/
def onCollection {α : Type} (name : String) (op : Collection → Op α) : Op Unit := do
  let coll ← getCollection name
  let _ ← op coll
  return ()

def Call.program : Call → Op Unit
  | .createCollection name hasVector dimensions references =>
    Operations.createCollection name hasVector dimensions references
  | .renameCollection oldName newName => Operations.renameCollection oldName newName
  | .dropCollection name => Operations.dropCollection name
  | .insertDocument name id text data => onCollection name fun coll => Operations.insertDocument coll id text data
  | .insertDocumentBulk name items => onCollection name fun coll => Operations.insertDocumentBulk coll items
  | .updateDocument name id text data => onCollection name fun coll => Operations.updateDocument coll id text data
  | .deleteDocument name id => onCollection name fun coll => Operations.deleteDocument coll id

/-- A reference as it was declared: between serial numbers. -/
structure Declaration where
  owner : Nat
  field : String
  target : Nat
  onDelete : String

/-- What names cannot tell. `declared` has one entry for each row of
    `collection_references`, in the order of the rows. -/
structure History where
  next : Nat
  serial : String → Option Nat
  declared : List Declaration

/-- The declarations of a createCollection call. -/
def History.declarations (g : History) (references : ReferenceMap) : List Declaration :=
  references.entries.map fun e => ⟨g.next, e.1, (g.serial e.2.collection).getD 0, e.2.onDeleteOrDefault⟩

/-- The record after a call that returned nil. -/
def History.record (g : History) : Call → History
  | .createCollection name _ _ references =>
    { next := g.next + 1,
      serial := fun n => if n = name then some g.next else g.serial n,
      declared := g.declared ++ g.declarations references }
  | .renameCollection oldName newName =>
    { g with serial := fun n => if n = newName then g.serial oldName else if n = oldName then none else g.serial n }
  | .dropCollection name => { g with serial := fun n => if n = name then none else g.serial n }
  | _ => g

structure World where
  db : DB
  history : History

/-- A new database and no history. -/
def World.start : World := ⟨openVecDB, ⟨0, fun _ => none, []⟩⟩

/-- One call run alone, with the failures it meets. -/
def World.step (h : Host) (w : World) (call : Call × List Bool) : World :=
  let outcome := (machine h).run call.1.program call.2 w.db
  ⟨outcome.2, if outcome.1.isOk then w.history.record call.1 else w.history⟩

def World.run (h : Host) (calls : List (Call × List Bool)) (w : World) : World := calls.foldl (World.step h) w

/-- The rows of `collection_references` with the declarations that wrote them. -/
def World.declared (w : World) : List (ReferenceRow × Declaration) := w.db.references.zip w.history.declared

/-- The record fits the database. -/
structure Coherent (w : World) : Prop where
  sound : Sound w.db
  length : w.db.references.length = w.history.declared.length
  registered : ∀ n, (w.history.serial n).isSome = w.db.registered n
  injective : ∀ n m k, w.history.serial n = some k → w.history.serial m = some k → n = m
  old : ∀ n k, w.history.serial n = some k → k < w.history.next
  oldDeclared : ∀ d ∈ w.history.declared, d.owner < w.history.next ∧ d.target < w.history.next
  owner : ∀ p ∈ w.declared, ∀ n, w.history.serial n = some p.2.owner → p.1.collectionName = n
  target : ∀ p ∈ w.declared, ∀ n, w.history.serial n = some p.2.target → p.1.targetCollection = n
  row : ∀ p ∈ w.declared, p.1.fieldName = p.2.field ∧ p.1.onDelete = p.2.onDelete
  policy : ∀ r ∈ w.db.references, r.onDelete = onDeleteRestrict ∨ r.onDelete = onDeleteSetNull

theorem start_coherent : Coherent World.start where
  sound := openVecDB_sound
  length := rfl
  registered := fun n => rfl
  injective := by simp [World.start]
  old := by simp [World.start]
  oldDeclared := by simp [World.start]
  owner := by simp [World.start, World.declared]
  target := by simp [World.start, World.declared]
  row := by simp [World.start, World.declared]
  policy := by simp [World.start, openVecDB]

/-- A row of `collection_references` has its declaration. -/
theorem Coherent.declared_of_row {w : World} (coherent : Coherent w) {r : ReferenceRow} (stored : r ∈ w.db.references) :
    ∃ d, (r, d) ∈ w.declared := by
  obtain ⟨i, bound, rfl⟩ := List.getElem_of_mem stored
  have bound' : i < w.history.declared.length := by rw [← coherent.length]; exact bound
  refine ⟨w.history.declared[i], ?_⟩
  have both : i < w.declared.length := by
    unfold World.declared
    rw [List.length_zip]
    omega
  have value : w.declared[i] = (w.db.references[i], w.history.declared[i]) := List.getElem_zip
  rw [← value]
  exact List.getElem_mem both

theorem World.declared_row {w : World} {p : ReferenceRow × Declaration} (member : p ∈ w.declared) :
    p.1 ∈ w.db.references ∧ p.2 ∈ w.history.declared := List.of_mem_zip member

/-- A statement that keeps the schema keeps the record in place. -/
theorem Coherent.sameSchema {w : World} (coherent : Coherent w) {s' : DB} (same : SameSchema w.db s') :
    Coherent ⟨s', w.history⟩ := by
  have pairs : (⟨s', w.history⟩ : World).declared = w.declared := by simp [World.declared, same.references]
  refine ⟨coherent.sound.sameSchema same, by rw [same.references]; exact coherent.length, ?_, coherent.injective,
    coherent.old, coherent.oldDeclared, by rw [pairs]; exact coherent.owner, by rw [pairs]; exact coherent.target,
    by rw [pairs]; exact coherent.row, by rw [same.references]; exact coherent.policy⟩
  intro n
  rw [coherent.registered n]
  simp [DB.registered, same.collections]

/-! ### The calls on the catalog -/

theorem wp_noValue {h : Host} {s : DB} {Q : Except Err Unit → DB → Prop} {c : Stmt Unit} {r : Except Err DB}
    (same : c.exec h s = noValue r) (onError : ∀ e, Q (.error e) s) (onOk : ∀ s', r = .ok s' → Q (.ok ()) s') :
    (machine h).wp Q (.call id c) s := by
  refine ⟨?_, fun e _ => onError e, onError _⟩
  intro b s' done
  have ran : noValue r = .ok (b, s') := by rw [← same]; exact done
  cases r with
  | error e => cases ran
  | ok s₁ =>
    simp only [noValue, Except.map, Except.ok.injEq, Prod.mk.injEq] at ran
    exact onOk s' (by rw [ran.2])

/-- A transaction without a result that meets no failure from outside. -/
theorem run_committed {h : Host} {s s' : DB} {c : Stmt Unit} {r : Except Err DB} {faults : List Bool}
    (same : c.exec h s = noValue r) (done : r = .ok s') (faultless : faults.headD false = false) :
    (machine h).run (.call id c) faults s = (.ok (), s') := by
  subst done
  exact (machine h).run_ok faultless same

theorem run_refused {h : Host} {s : DB} {c : Stmt Unit} {r : Except Err DB} {e : Err} {faults : List Bool}
    (same : c.exec h s = noValue r) (refused : r = .error e) (faultless : faults.headD false = false) :
    (machine h).run (.call id c) faults s = (.error e, s) := by
  subst refused
  exact (machine h).run_error faultless same

theorem wp_createCollection {h : Host} {s : DB} {Q : Except Err Unit → DB → Prop} {name : String} {hasVector : Bool}
    {dimensions : Int} {references : ReferenceMap} (onError : ∀ e, Q (.error e) s)
    (onOk : collectionNameRe name = true → references.entries.findSome? referenceFieldError = none →
      ∀ s', createCollectionTx name hasVector dimensions references s = .ok s' → Q (.ok ()) s') :
    (machine h).wp Q (createCollection name hasVector dimensions references) s := by
  unfold createCollection
  by_cases valid : (!collectionNameRe name) = true
  · rw [if_pos valid]
    exact onError _
  · rw [if_neg valid]
    by_cases wrong : hasVector = true ∧ (dimensions ≤ 0 ∨ maxDimensions < dimensions)
    · rw [if_pos wrong]
      exact onError _
    · rw [if_neg wrong]
      cases checked : references.entries.findSome? referenceFieldError with
      | some e => exact onError e
      | none => exact wp_noValue rfl onError (onOk (by simpa using valid) checked)

theorem wp_renameCollection {h : Host} {s : DB} {Q : Except Err Unit → DB → Prop} {oldName newName : String}
    (onError : ∀ e, Q (.error e) s)
    (onOk : collectionNameRe newName = true → ∀ s', renameCollectionTx oldName newName s = .ok s' → Q (.ok ()) s') :
    (machine h).wp Q (renameCollection oldName newName) s := by
  unfold renameCollection
  by_cases valid : (!collectionNameRe newName) = true
  · rw [if_pos valid]
    exact onError _
  · rw [if_neg valid]
    exact wp_noValue rfl onError (onOk (by simpa using valid))

theorem wp_dropCollection {h : Host} {s : DB} {Q : Except Err Unit → DB → Prop} {name : String}
    (onError : ∀ e, Q (.error e) s)
    (onOk : ∀ coll, s.lookup name = some coll → ∀ s', dropCollectionTx coll name s = .ok s' → Q (.ok ()) s') :
    (machine h).wp Q (dropCollection name) s := by
  unfold dropCollection
  rw [Prog.bind_eq, Machine.wp_bind, wp_getCollection_of onError]
  intro coll found
  exact wp_noValue rfl onError (onOk coll found)

/-- createCollection refuses every other `on_delete`. -/
theorem onDelete_of_checked {references : ReferenceMap} (checked : references.entries.findSome? referenceFieldError = none)
    {e : String × ReferenceSpec} (member : e ∈ references.entries) :
    e.2.onDeleteOrDefault = onDeleteRestrict ∨ e.2.onDeleteOrDefault = onDeleteSetNull := by
  have clean := List.findSome?_eq_none_iff.mp checked e member
  unfold referenceFieldError at clean
  by_cases name : collectionNameRe e.1 = true
  · simp only [name, Bool.not_true, Bool.false_eq_true, ↓reduceIte] at clean
    by_cases wrong : e.2.onDelete ≠ "" ∧ e.2.onDelete ≠ onDeleteRestrict ∧ e.2.onDelete ≠ onDeleteSetNull
    · rw [if_pos wrong] at clean
      cases clean
    · unfold ReferenceSpec.onDeleteOrDefault
      by_cases empty : e.2.onDelete = ""
      · rw [if_pos empty]
        exact .inl rfl
      · rw [if_neg empty]
        by_contra neither
        rw [not_or] at neither
        exact wrong ⟨empty, neither.1, neither.2⟩
  · simp [name] at clean

/-- What one call must establish, over all failures it can meet. -/
theorem step_invariant {h : Host} {I : World → Prop} {w : World} {call : Call} {faults : List Bool}
    (holds : (machine h).wp (fun r s' => I ⟨s', if r.isOk then w.history.record call else w.history⟩) call.program w.db) :
    I (w.step h (call, faults)) :=
  ((machine h).wp_iff_run.mp holds) faults

/-- An operation on the collection of a name, judged on that collection. -/
theorem wp_onCollection {h : Host} {α : Type} {s : DB} {I : DB → Prop} {name : String} {op : Collection → Op α} (here : I s)
    (holds : ∀ coll, s.lookup name = some coll → (machine h).wp (fun _ s' => I s') (op coll) s) :
    (machine h).wp (fun _ s' => I s') (onCollection name op) s := by
  unfold onCollection
  rw [Prog.bind_eq, Machine.wp_bind, wp_getCollection_of (by intro e; exact here)]
  intro coll found
  simp only [Machine.Then, Prog.bind_eq]
  rw [Machine.wp_bind]
  refine (machine h).wp_mono ?_ (holds coll found)
  intro r s' kept
  cases r with
  | error e => exact kept
  | ok a => exact kept

/-- What a call must establish for `I` to hold after it, whatever fails in it. -/
def Establishes (h : Host) (w : World) (I : World → Prop) (call : Call) : Prop :=
  match call with
  | .createCollection name hasVector dimensions references =>
    collectionNameRe name = true → references.entries.findSome? referenceFieldError = none →
      ∀ s', createCollectionTx name hasVector dimensions references w.db = .ok s' → I ⟨s', w.history.record call⟩
  | .renameCollection oldName newName =>
    collectionNameRe newName = true → ∀ s', renameCollectionTx oldName newName w.db = .ok s' → I ⟨s', w.history.record call⟩
  | .dropCollection name =>
    ∀ coll, w.db.lookup name = some coll → ∀ s', dropCollectionTx coll name w.db = .ok s' → I ⟨s', w.history.record call⟩
  | .insertDocument name id text data => ∀ coll, w.db.lookup name = some coll →
    (machine h).wp (fun _ s' => I ⟨s', w.history⟩) (Operations.insertDocument coll id text data) w.db
  | .insertDocumentBulk name items => ∀ coll, w.db.lookup name = some coll →
    (machine h).wp (fun _ s' => I ⟨s', w.history⟩) (Operations.insertDocumentBulk coll items) w.db
  | .updateDocument name id text data => ∀ coll, w.db.lookup name = some coll →
    (machine h).wp (fun _ s' => I ⟨s', w.history⟩) (Operations.updateDocument coll id text data) w.db
  | .deleteDocument name id => ∀ coll, w.db.lookup name = some coll →
    (machine h).wp (fun _ s' => I ⟨s', w.history⟩) (Operations.deleteDocument coll id) w.db

/-- The rule for one call run alone. -/
theorem step_rule {h : Host} {I : World → Prop} {w : World} {call : Call × List Bool} (here : I w)
    (establishes : Establishes h w I call.1) : I (w.step h call) := by
  obtain ⟨call, faults⟩ := call
  refine step_invariant ?_
  have unchanged (e : Err) : I ⟨w.db, if (Except.error e : Except Err Unit).isOk then w.history.record call
      else w.history⟩ := here
  -- the operations on items leave the record as it is
  have onItems {α : Type} {name : String} {op : Collection → Op α} (same : w.history.record call = w.history)
      (holds : ∀ coll, w.db.lookup name = some coll → (machine h).wp (fun _ s' => I ⟨s', w.history⟩) (op coll) w.db) :
      (machine h).wp (fun r s' => I ⟨s', if r.isOk then w.history.record call else w.history⟩) (onCollection name op) w.db := by
    rw [same]
    simp only [ite_self]
    exact wp_onCollection (I := fun s' => I ⟨s', w.history⟩) here holds
  cases call with
  | createCollection name hasVector dimensions references => exact wp_createCollection unchanged establishes
  | renameCollection oldName newName => exact wp_renameCollection unchanged establishes
  | dropCollection name => exact wp_dropCollection unchanged establishes
  | insertDocument name id text data => exact onItems rfl establishes
  | insertDocumentBulk name items => exact onItems rfl establishes
  | updateDocument name id text data => exact onItems rfl establishes
  | deleteDocument name id => exact onItems rfl establishes

variable {h : Host} {w : World} {s' : DB}

theorem registered_append {s : DB} {cs : List Collection} {rs : List ReferenceRow} {ts : String → Option Table} {c : Collection}
    (same : cs = s.collections ++ [c]) (n : String) :
    DB.registered ⟨cs, rs, ts⟩ n = (s.registered n || decide (c.name = n)) := by
  simp [DB.registered, same]

/-- The rows of a created collection come with its declarations. -/
theorem declared_createCollection {name : String} {hasVector : Bool} {dimensions : Int} {references : ReferenceMap}
    {cs : List Collection} {ts : String → Option Table} (coherent : Coherent w) :
    World.declared ⟨⟨cs, w.db.references ++ references.entries.map (fun e => referenceRow name e.1 e.2), ts⟩,
        w.history.record (.createCollection name hasVector dimensions references)⟩ =
      w.declared ++ references.entries.map (fun e => (referenceRow name e.1 e.2,
        ⟨w.history.next, e.1, (w.history.serial e.2.collection).getD 0, e.2.onDeleteOrDefault⟩)) := by
  simp only [World.declared, History.record, History.declarations]
  rw [List.zip_append coherent.length, List.zip_map']

/-- A created collection starts a new serial number. -/
theorem Coherent.createCollection {name : String} {hasVector : Bool} {dimensions : Int} {references : ReferenceMap}
    (coherent : Coherent w) (checked : references.entries.findSome? referenceFieldError = none)
    (done : createCollectionTx name hasVector dimensions references w.db = .ok s') :
    Coherent ⟨s', w.history.record (.createCollection name hasVector dimensions references)⟩ := by
  have sound := coherent.sound.createCollectionTx done
  obtain ⟨fresh, targets, -, s₁, -, rfl⟩ := createCollectionTx_ok done
  have unused : w.history.serial name = none := by
    have known := coherent.registered name
    rw [fresh] at known
    simpa using known
  have serial (n : String) (k : Nat) (other : k < w.history.next)
      (found : (w.history.record (.createCollection name hasVector dimensions references)).serial n = some k) :
      w.history.serial n = some k := by
    by_cases same : n = name
    · simp only [History.record, same, ↓reduceIte, Option.some.injEq] at found
      omega
    · simpa only [History.record, same, ↓reduceIte] using found
  -- the target of a new row is registered, so it has a serial number
  have target (e : String × ReferenceSpec) (member : e ∈ references.entries) :
      ∃ k, w.history.serial e.2.collection = some k := by
    have known := coherent.registered e.2.collection
    rw [targets e member] at known
    exact Option.isSome_iff_exists.mp known
  refine ⟨sound, ?_, ?_, ?_, ?_, ?_, ?_, ?_, ?_, ?_⟩
  · simp [History.record, History.declarations, coherent.length]
  · intro n
    rw [registered_append rfl n, ← coherent.registered n]
    by_cases same : n = name
    · simp [History.record, same, newCollection]
    · have different : name ≠ n := fun equal => same equal.symm
      simp [History.record, same, newCollection, different]
  · intro n m k first second
    simp only [History.record] at first second
    by_cases left : n = name <;> by_cases right : m = name
    · exact left.trans right.symm
    · simp only [left, right, ↓reduceIte, Option.some.injEq] at first second
      have small := coherent.old m k second
      omega
    · simp only [left, right, ↓reduceIte, Option.some.injEq] at first second
      have small := coherent.old n k first
      omega
    · simp only [left, right, ↓reduceIte] at first second
      exact coherent.injective n m k first second
  · intro n k found
    simp only [History.record] at found ⊢
    by_cases same : n = name
    · simp only [same, ↓reduceIte, Option.some.injEq] at found
      omega
    · simp only [same, ↓reduceIte] at found
      have small := coherent.old n k found
      omega
  · intro d member
    simp only [History.record] at member ⊢
    rcases List.mem_append.mp member with old | new
    · have small := coherent.oldDeclared d old
      omega
    · obtain ⟨e, listed, rfl⟩ := List.mem_map.mp new
      obtain ⟨k, found⟩ := target e listed
      have small := coherent.old _ k found
      simp only [found, Option.getD_some]
      omega
  · intro p member n found
    rw [declared_createCollection coherent] at member
    rcases List.mem_append.mp member with old | new
    · exact coherent.owner p old n (serial n _ (coherent.oldDeclared _ (World.declared_row old).2).1 found)
    · obtain ⟨e, listed, rfl⟩ := List.mem_map.mp new
      by_cases same : n = name
      · exact same.symm
      · simp only [History.record, same, ↓reduceIte] at found
        have small := coherent.old n _ found
        omega
  · intro p member n found
    rw [declared_createCollection coherent] at member
    rcases List.mem_append.mp member with old | new
    · exact coherent.target p old n (serial n _ (coherent.oldDeclared _ (World.declared_row old).2).2 found)
    · obtain ⟨e, listed, rfl⟩ := List.mem_map.mp new
      obtain ⟨k, known⟩ := target e listed
      simp only [known, Option.getD_some] at found
      exact coherent.injective _ n k known (serial n k (coherent.old _ k known) found)
  · intro p member
    rw [declared_createCollection coherent] at member
    rcases List.mem_append.mp member with old | new
    · exact coherent.row p old
    · obtain ⟨e, -, rfl⟩ := List.mem_map.mp new
      exact ⟨rfl, rfl⟩
  · intro r stored
    rcases List.mem_append.mp stored with old | new
    · exact coherent.policy r old
    · obtain ⟨e, listed, rfl⟩ := List.mem_map.mp new
      exact onDelete_of_checked checked listed

/-- The name that has a serial number after a rename had it before under the old name. -/
theorem serial_renamed {oldName newName : String} (coherent : Coherent w)
    (available : oldName = newName ∨ w.db.registered newName = false) {n : String} {k : Nat} :
    (w.history.record (.renameCollection oldName newName)).serial n = some k ↔
      ∃ m, w.history.serial m = some k ∧ relabel oldName newName m = n := by
  have vacant : oldName ≠ newName → w.history.serial newName = none := by
    intro different
    rcases available with equal | free
    · exact absurd equal different
    · have known := coherent.registered newName
      rw [free] at known
      simpa using known
  simp only [History.record, relabel]
  constructor
  · intro found
    by_cases new : n = newName
    · rw [if_pos new] at found
      exact ⟨oldName, found, by rw [if_pos rfl]; exact new.symm⟩
    · rw [if_neg new] at found
      by_cases old : n = oldName
      · rw [if_pos old] at found
        cases found
      · rw [if_neg old] at found
        exact ⟨n, found, if_neg old⟩
  · rintro ⟨m, found, name⟩
    by_cases old : m = oldName
    · rw [if_pos old] at name
      rw [if_pos name.symm, ← old]
      exact found
    · rw [if_neg old] at name
      subst name
      by_cases new : m = newName
      · by_cases same : oldName = newName
        · exact absurd (new.trans same.symm) old
        · rw [new, vacant same] at found
          cases found
      · rw [if_neg new, if_neg old]
        exact found

theorem renamed_declared {oldName newName : String} (g : History) :
    World.declared ⟨renamed oldName newName w.db, g⟩ =
      (World.declared ⟨w.db, g⟩).map (fun p => ({ p.1 with
        collectionName := relabel oldName newName p.1.collectionName,
        targetCollection := relabel oldName newName p.1.targetCollection }, p.2)) := by
  simp only [World.declared, renamed]
  rw [List.zip_map_left]
  rfl

/-- A rename moves serial numbers, not declarations. -/
theorem Coherent.renameCollection {oldName newName : String} (coherent : Coherent w)
    (done : renameCollectionTx oldName newName w.db = .ok s') :
    Coherent ⟨s', w.history.record (.renameCollection oldName newName)⟩ := by
  have sound := coherent.sound.renameCollectionTx done
  obtain ⟨known, available, -, rfl⟩ := renameCollectionTx_ok_iff.mp done
  have serial := @serial_renamed w oldName newName coherent available
  have registered_serial (m : String) (k : Nat) (found : w.history.serial m = some k) : w.db.registered m = true := by
    rw [← coherent.registered m, found]
    rfl
  refine ⟨sound, ?_, ?_, ?_, ?_, coherent.oldDeclared, ?_, ?_, ?_, ?_⟩
  · simp [renamed, History.record, coherent.length]
  · intro n
    rw [Bool.eq_iff_iff, Option.isSome_iff_exists, DB.registered_iff]
    constructor
    · rintro ⟨k, found⟩
      obtain ⟨m, before, name⟩ := serial.mp found
      obtain ⟨c, member, named⟩ := DB.registered_iff.mp (registered_serial m k before)
      refine ⟨{ c with name := relabel oldName newName c.name }, List.mem_map.mpr ⟨c, member, rfl⟩, ?_⟩
      rw [← name, ← named]
    · rintro ⟨c, member, name⟩
      obtain ⟨c₀, stored, rfl⟩ := List.mem_map.mp member
      have there := coherent.registered c₀.name
      rw [DB.registered_iff.mpr ⟨c₀, stored, rfl⟩] at there
      obtain ⟨k, found⟩ := Option.isSome_iff_exists.mp there
      exact ⟨k, serial.mpr ⟨c₀.name, found, name⟩⟩
  · intro n m k first second
    obtain ⟨x, before, rfl⟩ := serial.mp first
    obtain ⟨y, before', rfl⟩ := serial.mp second
    rw [coherent.injective x y k before before']
  · intro n k found
    obtain ⟨m, before, -⟩ := serial.mp found
    exact coherent.old m k before
  · intro p member n found
    rw [renamed_declared] at member
    obtain ⟨q, stored, rfl⟩ := List.mem_map.mp member
    obtain ⟨m, before, rfl⟩ := serial.mp found
    show relabel oldName newName q.1.collectionName = relabel oldName newName m
    rw [coherent.owner q stored m before]
  · intro p member n found
    rw [renamed_declared] at member
    obtain ⟨q, stored, rfl⟩ := List.mem_map.mp member
    obtain ⟨m, before, rfl⟩ := serial.mp found
    show relabel oldName newName q.1.targetCollection = relabel oldName newName m
    rw [coherent.target q stored m before]
  · intro p member
    rw [renamed_declared] at member
    obtain ⟨q, stored, rfl⟩ := List.mem_map.mp member
    exact coherent.row q stored
  · intro r stored
    obtain ⟨r₀, stored₀, rfl⟩ := List.mem_map.mp stored
    exact coherent.policy r₀ stored₀

theorem registered_filter {s : DB} {name : String} (same : s'.collections = s.collections.filter (fun c => c.name ≠ name))
    (n : String) : s'.registered n = (s.registered n && decide (n ≠ name)) := by
  rw [Bool.eq_iff_iff, DB.registered_iff, Bool.and_eq_true, DB.registered_iff, same]
  simp only [List.mem_filter, decide_eq_true_eq]
  constructor
  · rintro ⟨c, ⟨member, other⟩, rfl⟩
    exact ⟨⟨c, member, rfl⟩, other⟩
  · rintro ⟨⟨c, member, rfl⟩, other⟩
    exact ⟨c, ⟨member, other⟩, rfl⟩

/-- A drop ends a serial number; the declarations stay with their rows. -/
theorem Coherent.dropCollection {coll : Collection} {name : String} (coherent : Coherent w)
    (found : w.db.lookup name = some coll) (done : dropCollectionTx coll name w.db = .ok s') :
    Coherent ⟨s', w.history.record (.dropCollection name)⟩ := by
  have sound := coherent.sound.dropCollectionTx ⟨coll, found, rfl, fun vector => .inl vector⟩ done
  obtain ⟨t, -, refs, registry, -⟩ := dropCollectionTx_ok done
  have serial (n : String) (k : Nat) (after : (w.history.record (.dropCollection name)).serial n = some k) :
      w.history.serial n = some k := by
    by_cases same : n = name
    · simp [History.record, same] at after
    · simpa only [History.record, same, ↓reduceIte] using after
  have pairs : World.declared ⟨s', w.history.record (.dropCollection name)⟩ = w.declared := by
    simp [World.declared, History.record, refs]
  refine ⟨sound, by rw [refs]; exact coherent.length, ?_, ?_, ?_, coherent.oldDeclared, ?_, ?_, ?_, ?_⟩
  · intro n
    rw [registered_filter registry, ← coherent.registered n]
    by_cases same : n = name
    · simp [History.record, same]
    · simp [History.record, same]
  · intro n m k first second
    exact coherent.injective n m k (serial n k first) (serial m k second)
  · intro n k after
    exact coherent.old n k (serial n k after)
  · rw [pairs]
    intro p member n after
    exact coherent.owner p member n (serial n _ after)
  · rw [pairs]
    intro p member n after
    exact coherent.target p member n (serial n _ after)
  · rw [pairs]
    exact coherent.row
  · rw [refs]
    exact coherent.policy

end Microserver.Histories
