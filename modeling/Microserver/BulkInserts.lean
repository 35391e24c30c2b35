import Microserver.Evaluations
import Microserver.Reachable

/-!
insertDocumentBulk against insertDocument on one item after the other. The bulk
insert checks all items before it writes the first; as long as the references
point at other collections, the rows that it writes do not change what the
checks of later items find.
-/
namespace Microserver.BulkInserts
open Microserver.Values Microserver.Store Microserver.Programs Microserver.Statements Microserver.Operations
open Microserver.Schema Microserver.Items Microserver.Reads Microserver.ReferenceChecks
open Microserver.Evaluations Microserver.Histories Microserver.Reachable

/-- insertDocument on the items in order, up to the first that fails. -/
def insertEach (coll : Collection) : List BulkDocumentItem → Op (List Int)
  | [] => .ret []
  | it :: rest => do
    let id ← insertDocument coll it.id it.text it.data
    let ids ← insertEach coll rest
    return id :: ids

/-- The declared references point at other collections, which have other tables. -/
def TargetsOthers (s : DB) (coll : Collection) : Prop :=
  ∀ r ∈ s.owned coll.name, ∀ target ∈ s.lookup r.targetCollection, fold target.tableName ≠ fold coll.tableName

instance (s : DB) (coll : Collection) : Decidable (TargetsOthers s coll) :=
  inferInstanceAs (Decidable (∀ r ∈ s.owned coll.name, ∀ target ∈ s.lookup r.targetCollection,
    fold target.tableName ≠ fold coll.tableName))

/-- Collections of a sound database have other tables when they have other names. -/
theorem targetsOthers_of_names {s : DB} {coll : Collection} (sound : Sound s) (registered : coll ∈ s.collections)
    (names : ∀ r ∈ s.owned coll.name, r.targetCollection ≠ coll.name) : TargetsOthers s coll := by
  intro r declared target found same
  obtain ⟨member, name⟩ := DB.lookup_some found
  have equal : target = coll := sound.table_injective member registered same
  exact names r declared (by rw [← name, equal])

section Steps
variable {h : Host} {coll : Collection} {s s' : DB}

/-- What the checks of an item find, and what they prepare. -/
def Prepares (h : Host) (s : DB) (coll : Collection) (it : BulkDocumentItem) (p : Prepared) : Prop :=
  Accepts s coll.name it.data ∧ ∃ vec, (coll.hasVector = true → h.embed it.text = .ok vec) ∧
    (coll.hasVector = false → vec = []) ∧ p = ⟨it.id, it.text, dataOrEmpty it.data, vec⟩

theorem TargetsOthers.wrote {kept new : Row → Prop} (others : TargetsOthers s coll)
    (wrote : Wrote s s' coll.tableName kept new) : TargetsOthers s' coll := by
  intro r declared target found
  have owned : r ∈ s.owned coll.name := by
    rw [DB.owned, wrote.schema.references] at declared
    exact declared
  rw [wrote.schema.lookup] at found
  exact others r owned target found

/-- A write to the table of the collection leaves what its checks find. -/
theorem accepts_wrote {kept new : Row → Prop} (others : TargetsOthers s coll) (wrote : Wrote s s' coll.tableName kept new)
    (data : Option Json) : Accepts s' coll.name data ↔ Accepts s coll.name data := by
  have owned : s'.owned coll.name = s.owned coll.name := by rw [DB.owned, wrote.schema.references, DB.owned]
  have resolves {r : ReferenceRow} (declared : r ∈ s.owned coll.name) (value : Option Json) :
      Resolves s' (fun c => s'.lookup r.targetCollection = some c) value ↔
        Resolves s (fun c => s.lookup r.targetCollection = some c) value := by
    unfold Resolves
    simp only [wrote.schema.lookup, wrote.schema.collections]
    refine or_congr_right (or_congr_right (exists_congr fun n => and_congr_right fun _ => exists_congr fun c =>
      and_congr_right fun _ => and_congr_right fun found => ?_))
    rw [wrote.others c.tableName (others r declared c found)]
  unfold Accepts
  rw [owned]
  refine or_congr_right (exists_congr fun parsed => and_congr_right fun _ => forall₂_congr fun r declared => ?_)
  exact resolves declared _

theorem insertPrepared_ok_iff {p : Prepared} {id : Int} :
    insertPrepared coll p s = .ok (id, s') ↔
      ∃ s₁, s.insertRow coll.tableName p.id (p.columns coll.hasVector) = .ok (id, s₁) ∧
        (coll.hasVector = false ∧ s' = s₁ ∨ coll.hasVector = true ∧
          s₁.insertRow (ftsTableName coll.tableName) (some id) (.fullText p.text) = .ok (id, s')) := by
  refine ⟨insertPrepared_cases, ?_⟩
  rintro ⟨s₁, inserted, ⟨plain, rfl⟩ | ⟨vector, indexed⟩⟩
  · unfold insertPrepared
    rw [inserted, plain]
    rfl
  · unfold insertPrepared insertFullTextRow
    rw [inserted, vector]
    simp [indexed, Except.map]

/-- insertDocument prepares the item and writes it as the bulk insert does. -/
theorem eval_insertDocument_ok_iff {it : BulkDocumentItem} {id : Int} :
    (machine h).eval (insertDocument coll it.id it.text it.data) s = (.ok id, s') ↔
      ∃ p, Prepares h s coll it p ∧ insertPrepared coll p s = .ok (id, s') := by
  unfold insertDocument
  simp only [Prog.bind_eq, Prog.pure_eq, Machine.eval_bind_ok_iff, eval_validateReferences_ok_iff, Prepares,
    insertPrepared_ok_iff]
  cases vector : coll.hasVector with
  | false =>
    simp only [Bool.false_eq_true, ↓reduceIte, Machine.eval_call_ok_iff]
    constructor
    · rintro ⟨_, _, ⟨accepts, rfl⟩, inserted⟩
      exact ⟨_, ⟨accepts, [], nofun, fun _ => rfl, rfl⟩, s', inserted, .inl ⟨trivial, rfl⟩⟩
    · rintro ⟨p, ⟨accepts, vec, -, -, rfl⟩, s₁, inserted, ⟨-, rfl⟩ | ⟨impossible, -⟩⟩
      · exact ⟨(), s, ⟨accepts, rfl⟩, inserted⟩
      · cases impossible
  | true =>
    simp only [↓reduceIte, Machine.eval_bind_ok_iff, Machine.eval_call_ok_iff, eval_embed_ok_iff,
      Machine.eval_ret, Prod.mk.injEq, Except.ok.injEq]
    constructor
    · rintro ⟨_, _, ⟨accepts, rfl⟩, vec, _, ⟨embedded, rfl⟩, finalID, s₁, inserted, again, s₂, indexed, rfl, rfl⟩
      have same : again = finalID := insertRow_given indexed
      rw [same] at indexed
      exact ⟨_, ⟨accepts, vec, fun _ => embedded, nofun, rfl⟩, s₁, inserted, .inr ⟨trivial, indexed⟩⟩
    · rintro ⟨p, ⟨accepts, vec, embedded, -, rfl⟩, s₁, inserted, ⟨impossible, -⟩ | ⟨-, indexed⟩⟩
      · cases impossible
      · exact ⟨(), s, ⟨accepts, rfl⟩, vec, s, ⟨embedded trivial, rfl⟩, id, s₁, inserted, id, s', indexed, rfl, rfl⟩

theorem prepareItems_cons (coll : Collection) (i : Nat) (it : BulkDocumentItem) (rest : List BulkDocumentItem) :
    prepareItems coll i (it :: rest) =
      ((validateReferences coll.name it.data).within (.wrapped ("item " ++ toString i))).bind fun _ =>
        (if coll.hasVector then embed ("item " ++ toString i ++ ": embedding text") it.text else .ret []).bind fun serialized =>
          (prepareItems coll (i + 1) rest).bind fun preparedItems =>
            .ret (⟨it.id, it.text, dataOrEmpty it.data, serialized⟩ :: preparedItems) := by
  rw [prepareItems]
  cases coll.hasVector <;> rfl

/-- The loop that prepares the items changes nothing and checks each of them. -/
theorem eval_prepareItems_ok_iff {i : Nat} {items : List BulkDocumentItem} {preparedItems : List Prepared} :
    (machine h).eval (prepareItems coll i items) s = (.ok preparedItems, s') ↔
      List.Forall₂ (Prepares h s coll) items preparedItems ∧ s' = s := by
  induction items generalizing i preparedItems s' with
  | nil =>
    simp [prepareItems, eq_comm]
  | cons it rest ih =>
    have checked {r : Unit} {s₁ : DB} : (machine h).eval ((validateReferences coll.name it.data).within
        (.wrapped ("item " ++ toString i))) s = (.ok r, s₁) ↔ Accepts s coll.name it.data ∧ s₁ = s := by
      rw [Machine.eval_within_ok_iff, eval_validateReferences_ok_iff]
    have embedded {context : String} {vec : Vector32} {s₁ : DB} :
        (machine h).eval (if coll.hasVector then embed context it.text else .ret []) s = (.ok vec, s₁) ↔
          ((coll.hasVector = true → h.embed it.text = .ok vec) ∧ (coll.hasVector = false → vec = [])) ∧ s₁ = s := by
      cases coll.hasVector with
      | false => simp [eq_comm]
      | true => simp [eval_embed_ok_iff]
    rw [prepareItems_cons]
    constructor
    · intro done
      obtain ⟨_, s₁, validated, embedding⟩ := (machine h).eval_bind_ok_iff.mp done
      obtain ⟨accepts, rfl⟩ := checked.mp validated
      obtain ⟨vec, s₂, embeds, preparing⟩ := (machine h).eval_bind_ok_iff.mp embedding
      obtain ⟨⟨vector, plain⟩, rfl⟩ := embedded.mp embeds
      obtain ⟨prepared, s₃, followed, returned⟩ := (machine h).eval_bind_ok_iff.mp preparing
      obtain ⟨each, rfl⟩ := ih.mp followed
      cases returned
      exact ⟨.cons ⟨accepts, vec, vector, plain, rfl⟩ each, rfl⟩
    · rintro ⟨prepares, rfl⟩
      cases prepares with
      | cons first each =>
        obtain ⟨accepts, vec, vector, plain, rfl⟩ := first
        exact (machine h).eval_bind_ok_iff.mpr ⟨(), _, checked.mpr ⟨accepts, rfl⟩, (machine h).eval_bind_ok_iff.mpr
          ⟨vec, _, embedded.mpr ⟨⟨vector, plain⟩, rfl⟩, (machine h).eval_bind_ok_iff.mpr ⟨_, _, ih.mpr ⟨each, rfl⟩, rfl⟩⟩⟩

/-- The transaction writes the items one after the other. -/
theorem insertDocumentBulkTx_cons_ok_iff {i : Nat} {p : Prepared} {rest : List Prepared} {ids : List Int} :
    insertDocumentBulkTx coll i (p :: rest) s = .ok (ids, s') ↔
      ∃ id s₁ ids', insertPrepared coll p s = .ok (id, s₁) ∧ insertDocumentBulkTx coll (i + 1) rest s₁ = .ok (ids', s') ∧
        ids = id :: ids' := by
  rw [insertDocumentBulkTx]
  constructor
  · intro done
    cases inserted : insertPrepared coll p s with
    | error e => simp [inserted] at done
    | ok outcome =>
      cases followed : insertDocumentBulkTx coll (i + 1) rest outcome.2 with
      | error e => simp [inserted, followed] at done
      | ok outcome' =>
        simp only [inserted, followed, Except.ok.injEq, Prod.mk.injEq] at done
        obtain ⟨rfl, rfl⟩ := done
        exact ⟨outcome.1, outcome.2, outcome'.1, rfl, followed, rfl⟩
  · rintro ⟨id, s₁, ids', inserted, followed, rfl⟩
    simp [inserted, followed]

/-- The bulk insert of prepared items does what the single inserts do, wherever it starts to count them. -/
theorem eval_insertEach_ok_iff {i : Nat} {items : List BulkDocumentItem} {ids : List Int} (others : TargetsOthers s coll) :
    (machine h).eval (insertEach coll items) s = (.ok ids, s') ↔
      ∃ preparedItems, List.Forall₂ (Prepares h s coll) items preparedItems ∧
        insertDocumentBulkTx coll i preparedItems s = .ok (ids, s') := by
  induction items generalizing i s ids with
  | nil => simp [insertEach, insertDocumentBulkTx]
  | cons it rest ih =>
    -- what the first item writes leaves what the checks of the others find
    have later {p : Prepared} {id : Int} {s₁ : DB} (inserted : insertPrepared coll p s = .ok (id, s₁)) :
        TargetsOthers s₁ coll ∧ ∀ it q, Prepares h s₁ coll it q ↔ Prepares h s coll it q := by
      have wrote := insertPrepared_wrote inserted
      exact ⟨others.wrote wrote, fun it q => and_congr_left fun _ => accepts_wrote others wrote it.data⟩
    constructor
    · intro done
      obtain ⟨id, s₁, first, others'⟩ := (machine h).eval_bind_ok_iff.mp done
      obtain ⟨ids', s₂, followed, returned⟩ := (machine h).eval_bind_ok_iff.mp others'
      cases returned
      obtain ⟨p, prepares, inserted⟩ := eval_insertDocument_ok_iff.mp first
      obtain ⟨others₁, same⟩ := later inserted
      obtain ⟨ps, each, written⟩ := (ih (i := i + 1) others₁).mp followed
      exact ⟨p :: ps, .cons prepares (each.imp fun it q => (same it q).mp),
        insertDocumentBulkTx_cons_ok_iff.mpr ⟨id, s₁, ids', inserted, written, rfl⟩⟩
    · rintro ⟨_, prepares, written⟩
      cases prepares with
      | cons first each =>
        obtain ⟨id, s₁, ids', inserted, followed, rfl⟩ := insertDocumentBulkTx_cons_ok_iff.mp written
        obtain ⟨others₁, same⟩ := later inserted
        exact (machine h).eval_bind_ok_iff.mpr ⟨id, s₁, eval_insertDocument_ok_iff.mpr ⟨_, first, inserted⟩,
          (machine h).eval_bind_ok_iff.mpr ⟨ids', s', (ih (i := i + 1) others₁).mpr
            ⟨_, each.imp fun it q => (same it q).mpr, followed⟩, rfl⟩⟩

theorem eval_insertDocumentBulk_ok_iff {items : List BulkDocumentItem} {ids : List Int} :
    (machine h).eval (insertDocumentBulk coll items) s = (.ok ids, s') ↔
      ∃ preparedItems, List.Forall₂ (Prepares h s coll) items preparedItems ∧
        insertDocumentBulkTx coll 0 preparedItems s = .ok (ids, s') := by
  constructor
  · intro done
    obtain ⟨ps, s₁, prepared, written⟩ := (machine h).eval_bind_ok_iff.mp done
    obtain ⟨each, rfl⟩ := eval_prepareItems_ok_iff.mp prepared
    exact ⟨ps, each, (machine h).eval_call_ok_iff.mp written⟩
  · rintro ⟨ps, each, written⟩
    exact (machine h).eval_bind_ok_iff.mpr ⟨ps, s, eval_prepareItems_ok_iff.mpr ⟨each, rfl⟩, (machine h).eval_call_ok_iff.mpr written⟩

/-- A bulk insert that fails has written nothing, whichever statements fail. -/
theorem wp_insertDocumentBulk_error (items : List BulkDocumentItem) :
    (machine h).wp (fun r s' => ∀ e, r = .error e → s' = s) (insertDocumentBulk coll items) s := by
  unfold insertDocumentBulk
  rw [Prog.bind_eq, Machine.wp_bind]
  refine wp_prepareItems (fun e e' _ => rfl) fun preparedItems _ _ => ?_
  refine ⟨fun ids s' _ => ?_, fun e _ e' _ => rfl, fun e' _ => rfl⟩
  rintro e ⟨⟩

end Steps

/-- In every state, for a collection whose references point at other collections
    and for all items: the bulk insert returns ids exactly when insertDocument
    on one item after the other returns them, both leave the same database, and
    a bulk insert that fails leaves the database as it was. -/
theorem insertDocumentBulk_eq_insertEach (h : Host) (s : DB) (coll : Collection) (others : TargetsOthers s coll)
    (items : List BulkDocumentItem) :
    (∀ ids s', (machine h).eval (insertDocumentBulk coll items) s = (.ok ids, s') ↔
      (machine h).eval (insertEach coll items) s = (.ok ids, s')) ∧
    ∀ faults e s', (machine h).run (insertDocumentBulk coll items) faults s = (.error e, s') → s' = s := by
  refine ⟨fun ids s' => ?_, fun faults e s' failed => ?_⟩
  · rw [eval_insertDocumentBulk_ok_iff, eval_insertEach_ok_iff others]
  · have judged : (machine h).wp (fun r s' => ∀ e, r = .error e → s' = s) (insertDocumentBulk coll items) s :=
      wp_insertDocumentBulk_error items
    have unchanged := (machine h).wp_iff_run.mp judged faults
    rw [failed] at unchanged
    exact unchanged e rfl

/-- A collection "b" with a field that refers to items of "a", and one item in "a". -/
def bOnA : List (Call × List Bool) :=
  [(.createCollection "a" false 0 ⟨[], List.nodup_nil⟩, []),
    (.createCollection "b" false 0 ⟨[("f", ⟨"a", "restrict"⟩)], List.nodup_singleton "f"⟩, []),
    (.insertDocument "a" none "" none, [])]

/-- An automatic id and an explicit one. -/
theorem insertDocumentBulk_eq_insertEach_two :
    TargetsOthers (reached Host.uniform bOnA) ⟨"b", "coll_b", false, 0⟩ ∧
      ∃ s', (machine Host.uniform).eval (insertEach ⟨"b", "coll_b", false, 0⟩
        [⟨none, "", some (.obj [("f", .int 1)])⟩, ⟨some 7, "", none⟩]) (reached Host.uniform bOnA) = (.ok [1, 7], s') := by
  have others : TargetsOthers (reached Host.uniform bOnA) ⟨"b", "coll_b", false, 0⟩ :=
    targetsOthers_of_names (run_coherent Host.uniform bOnA).sound (by decide) (by decide)
  have bulk : ∃ s', (machine Host.uniform).eval (insertDocumentBulk ⟨"b", "coll_b", false, 0⟩
      [⟨none, "", some (.obj [("f", .int 1)])⟩, ⟨some 7, "", none⟩]) (reached Host.uniform bOnA) = (.ok [1, 7], s') :=
    ⟨_, rfl⟩
  obtain ⟨s', done⟩ := bulk
  exact ⟨others, s', ((insertDocumentBulk_eq_insertEach Host.uniform _ _ others _).1 _ _).mp done⟩

end Microserver.BulkInserts
