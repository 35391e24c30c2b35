import Microserver.AutomaticIds
import Microserver.FullTextSync

/-!
Automatic ids under concurrent requests. An INSERT without an id takes the id
after the mark of its table and moves the mark there; nothing moves it back. So
the ids that a collection without vectors hands out ascend in the order in which
the INSERTs are executed, whatever other requests insert, update and delete
in between (`concurrent_ids_ascend`).
-/
namespace Microserver.ConcurrentIds
open Microserver.Values Microserver.Store Microserver.Programs Microserver.Interleaving Microserver.Statements
open Microserver.Operations Microserver.Schema Microserver.Items Microserver.Reads Microserver.Handlers Microserver.Histories
open Microserver.Reachable Microserver.AutomaticIds Microserver.FullTextSync

variable {α β : Type} {h : Host} {table : String} {s s' : DB} {t t' t'' : Table} {ids ids' : List Int}

/-! ### Ids that are handed out -/

/-- The ids of the items of a bulk insert that came without one. -/
def automatic (preparedItems : List Prepared) (ids : List Int) : List Int :=
  ((preparedItems.zip ids).filter fun pair => pair.1.id.isNone).map (·.2)

/-- The ids that a statement has handed out in a table, by what it reports. -/
def handedOut (table : String) : Stmt β → β → List Int
  | .insertRow written none _, id => if fold written = fold table then [id] else []
  | .insertDocumentBulk coll preparedItems, ids => if fold coll.tableName = fold table then automatic preparedItems ids else []
  | _, _ => []

/-- The ids that a turn hands out. -/
def given (h : Host) (table : String) (pool : Pool Stmt Err DB α) (turn : Turn) : List Int :=
  match turn.2, pool.threads[turn.1]? with
  | false, some (.stmt c _) =>
    match (machine h).exec c pool.shared with
    | .ok (b, _) => handedOut table c b
    | .error _ => []
  | _, _ => []

/-- The ids that a run hands out, in the order of its turns. -/
def assigned (h : Host) (table : String) : List Turn → Pool Stmt Err DB α → List Int
  | [], _ => []
  | turn :: rest, pool => given h table pool turn ++ assigned h table rest (pool.step (machine h) turn)

/-! ### The mark -/

/-- No row is above the mark. -/
def Below (t : Table) : Prop := ∀ row ∈ t.rows, row.id ≤ t.seq

/-- The table has moved on, and has handed out these ids on the way. -/
structure Onward (t t' : Table) (ids : List Int) : Prop where
  kind : t'.kind = t.kind
  below : Below t'
  rises : t.seq ≤ t'.seq
  ascend : ids.Pairwise (· < ·)
  between : ∀ id ∈ ids, t.seq < id ∧ id ≤ t'.seq

theorem Onward.refl (below : Below t) : Onward t t [] := ⟨rfl, below, le_refl _, List.Pairwise.nil, by simp⟩

theorem Onward.trans (first : Onward t t' ids) (second : Onward t' t'' ids') : Onward t t'' (ids ++ ids') where
  kind := second.kind.trans first.kind
  below := second.below
  rises := first.rises.trans second.rises
  ascend := by
    refine List.pairwise_append.mpr ⟨first.ascend, second.ascend, fun id member id' member' => ?_⟩
    exact (first.between id member).2.trans_lt (second.between id' member').1
  between := by
    intro id member
    rcases List.mem_append.mp member with early | late
    · exact ⟨(first.between id early).1, (first.between id early).2.trans second.rises⟩
    · exact ⟨first.rises.trans_lt (second.between id late).1, (second.between id late).2⟩

theorem Onward.of_added (added : Added t t') (below : Below t) : Onward t t' [] := by
  refine ⟨added.kind, fun row member => ?_, added.rises, List.Pairwise.nil, by simp⟩
  rcases added.below row member with old | low
  · exact (below row old).trans added.rises
  · exact low

theorem Onward.of_thinned (thinned : Thinned t t') (below : Below t) : Onward t t' [] := by
  refine ⟨thinned.kind, fun row member => ?_, thinned.mark.ge, List.Pairwise.nil, by simp⟩
  obtain ⟨old, stored, same⟩ := thinned.fewer row member
  rw [← same, thinned.mark]
  exact below old stored

/-- An INSERT moves the table on; without an id it hands out the one after the mark. -/
theorem insert_onward {id : Option Int} {columns : Columns} {assigned : Int} (below : Below t)
    (done : t.insert id columns = .ok (assigned, t')) : Onward t t' (if id = none then [assigned] else []) := by
  have moved := Onward.of_added (insert_added done) below
  cases id with
  | some given => exact moved
  | none =>
    have largest : t.largest = t.seq := largest_eq below
    by_cases full : maxRowid ≤ t.largest
    · simp [Table.insert, full] at done
    · simp only [Table.insert, full] at done
      cases done
      refine ⟨moved.kind, moved.below, moved.rises, List.pairwise_singleton _ _, ?_⟩
      simp only [↓reduceIte, List.mem_singleton, forall_eq, largest, Table.append]
      omega

/-- A plain table below its mark stays in the database and moves on. -/
def Advances (table : String) (s s' : DB) (ids : List Int) : Prop :=
  ∀ t, s.find table = some t → t.kind = .plain → Below t → ∃ t', s'.find table = some t' ∧ Onward t t' ids

theorem Advances.trans {s'' : DB} (first : Advances table s s' ids) (second : Advances table s' s'' ids') :
    Advances table s s'' (ids ++ ids') := by
  intro t there plain below
  obtain ⟨t', there', moved⟩ := first t there plain below
  obtain ⟨t'', there'', moved'⟩ := second t' there' (moved.kind.trans plain) moved.below
  exact ⟨t'', there'', moved.trans moved'⟩

theorem Advances.refl (table : String) (s : DB) : Advances table s s [] := fun t there _ below => ⟨t, there, .refl below⟩

theorem advances_of_thinned (thinned : Within Thinned table s s') : Advances table s s' [] := by
  intro t there plain below
  obtain ⟨t', there', moved⟩ := thinned t there plain
  exact ⟨t', there', .of_thinned moved below⟩

theorem insertRow_advances (table : String) {written : String} {id : Option Int} {columns : Columns} {assigned : Int}
    (done : s.insertRow written id columns = .ok (assigned, s')) :
    Advances table s s' (if fold written = fold table ∧ id = none then [assigned] else []) := by
  intro t there plain below
  by_cases own : fold written = fold table
  · obtain ⟨t₀, t₁, there₀, -, inserted, rfl⟩ := DB.insertRow_ok done
    have same : t₀ = t := by
      have equal : s.find written = s.find table := by
        unfold DB.find
        rw [own]
      exact Option.some.inj (there₀.symm.trans (equal.trans there))
    subst same
    refine ⟨t₁, by rw [DB.find_set, if_pos own.symm], ?_⟩
    simpa [own] using insert_onward below inserted
  · have added : Within Added table s s' := insertRow_added done
    obtain ⟨t', there', moved⟩ := added t there plain
    rw [if_neg fun both => own both.1]
    exact ⟨t', there', .of_added moved below⟩

theorem insertDocumentBulkTx_advances {coll : Collection} {i : Nat} {preparedItems : List Prepared}
    (done : insertDocumentBulkTx coll i preparedItems s = .ok (ids, s')) :
    Advances table s s' (if fold coll.tableName = fold table then automatic preparedItems ids else []) := by
  induction preparedItems generalizing i s ids with
  | nil =>
    simp only [insertDocumentBulkTx, Except.ok.injEq, Prod.mk.injEq] at done
    rw [← done.1, ← done.2]
    simpa [automatic] using Advances.refl table s
  | cons p rest ih =>
    rw [insertDocumentBulkTx] at done
    cases inserted : insertPrepared coll p s with
    | error e => simp [inserted] at done
    | ok first =>
      obtain ⟨finalID, s₁⟩ := first
      simp only [inserted] at done
      cases later : insertDocumentBulkTx coll (i + 1) rest s₁ with
      | error e => simp [later] at done
      | ok outcome =>
        simp only [later, Except.ok.injEq, Prod.mk.injEq] at done
        obtain ⟨rfl, rfl⟩ := done
        have one : Advances table s s₁ (if fold coll.tableName = fold table ∧ p.id = none then [finalID] else []) := by
          obtain ⟨s₂, stored, ⟨-, rfl⟩ | ⟨-, indexed⟩⟩ := insertPrepared_cases inserted
          · exact insertRow_advances table stored
          · simpa using (insertRow_advances table stored).trans (insertRow_advances table indexed)
        have all := one.trans (ih later)
        by_cases own : fold coll.tableName = fold table
        · cases id : p.id with
          | none => simpa [own, id, automatic] using all
          | some given => simpa [own, id, automatic] using all
        · simpa [own] using all

/-- Every statement on items moves the table on by the ids that it hands out. -/
theorem exec_advances (table : String) {c : Stmt β} {b : β} (item : ItemStmt c) (ran : (machine h).exec c s = .ok (b, s')) :
    Advances table s s' (handedOut table c b) := by
  have thins (thinning : ThinningStmt c) : Advances table s s' [] := advances_of_thinned (exec_thinned (h := h) thinning ran)
  cases c with
  | insertRow written id columns =>
    have inserted := insertRow_advances table (show s.insertRow written id columns = .ok (b, s') from ran)
    cases id with
    | none => simpa [handedOut] using inserted
    | some given => simpa [handedOut] using inserted
  | insertDocumentBulk coll preparedItems =>
    exact insertDocumentBulkTx_advances (show insertDocumentBulkTx coll 0 preparedItems s = .ok (b, s') from ran)
  | read query => exact thins trivial
  | updateData written data id => exact thins trivial
  | updateDocument coll id text data serialized => exact thins trivial
  | deleteDocument coll id => exact thins trivial
  | createCollection _ _ _ _ | renameCollection _ _ | dropCollection _ _ => exact item.elim

/-! ### Runs -/

variable {pool : Pool Stmt Err DB α}

theorem step_advances (uses : ∀ p ∈ pool.threads, p.Uses ItemStmt) (turn : Turn) :
    Advances table pool.shared (pool.step (machine h) turn).shared (given h table pool turn) := by
  obtain ⟨i, faulty⟩ := turn
  unfold Pool.step given
  cases thread : pool.threads[i]? with
  | none => cases faulty <;> exact Advances.refl table _
  | some p =>
    cases p with
    | ret a => cases faulty <;> exact Advances.refl table _
    | fail e => cases faulty <;> exact Advances.refl table _
    | stmt c next =>
      cases faulty with
      | true => exact Advances.refl table _
      | false =>
        have item : ItemStmt c := (uses _ (List.mem_of_getElem? thread)).1
        cases ran : (machine h).exec c pool.shared with
        | error e => simpa [Machine.step, ran] using Advances.refl table pool.shared
        | ok outcome => simpa [Machine.step, ran] using exec_advances table item ran

theorem run_advances (uses : ∀ p ∈ pool.threads, p.Uses ItemStmt) (schedule : List Turn) :
    Advances table pool.shared (pool.run (machine h) schedule).shared (assigned h table schedule pool) := by
  induction schedule generalizing pool with
  | nil => exact Advances.refl table _
  | cons turn rest ih => exact (step_advances uses turn).trans (ih (Pool.uses_step uses turn))

theorem program_items (request : ItemWrite) : request.program.Uses ItemStmt :=
  request.program_uses item_of_update (fun _ _ _ => trivial) (fun _ _ => trivial) fun _ _ => trivial

/-- After any run of calls on items since its creation, concurrent requests on any
    collections, interleaved and failing in any way: the ids that a collection without
    vectors hands out in their course ascend, each of them is above all ids that its
    items have had before, and none is at or below an id that is in use at any moment
    before it is handed out. -/
theorem concurrent_ids_ascend {w : World} {calls : List (Call × List Bool)} {name : String} {dimensions : Int}
    {references : ReferenceMap} {s : DB} (created : createCollectionTx name false dimensions references s = .ok w.db)
    (onItems : ∀ call ∈ calls, ItemCall call.1) (requests : List ItemWrite) (schedule : List Turn) :
    let table := (newCollection name false dimensions).tableName
    let start := FullTextSync.pool (World.run h calls w).db requests
    (assigned h table schedule start).Pairwise (· < ·) ∧
    (∀ id ∈ assigned h table schedule start, ∀ old ∈ everHeld h w calls table, old < id) ∧
    ∀ earlier later, schedule = earlier ++ later → ∀ id ∈ assigned h table later (start.run (machine h) earlier),
      ∀ row ∈ items (start.run (machine h) earlier).shared table, row.id < id := by
  intro table start
  obtain ⟨t, marked⟩ := run_marked (h := h) created onItems
  have bound (id : Int) (held : id ∈ everHeld h w calls table) : id ≤ t.seq := marked.mark.2 (.inr held)
  have below : Below t := fun row member => bound row.id (marked.mem_everHeld member)
  have uses : ∀ p ∈ start.threads, p.Uses ItemStmt := by
    intro p member
    obtain ⟨request, -, rfl⟩ := List.mem_map.mp member
    exact program_items request
  obtain ⟨t', -, moved⟩ := run_advances (h := h) uses schedule t marked.there marked.plain below
  refine ⟨moved.ascend, fun id member old held => (bound old held).trans_lt (moved.between id member).1, ?_⟩
  rintro earlier later rfl id member row stored
  obtain ⟨t₁, there₁, moved₁⟩ := run_advances (h := h) uses earlier t marked.there marked.plain below
  have uses₁ : ∀ p ∈ (start.run (machine h) earlier).threads, p.Uses ItemStmt :=
    run_always (I := fun pool : Pool Stmt Err DB Reply => ∀ p ∈ pool.threads, p.Uses ItemStmt)
      (fun _ turn held => Pool.uses_step held turn) uses earlier
  have plain₁ : t₁.kind = .plain := moved₁.kind.trans marked.plain
  obtain ⟨t₂, -, moved₂⟩ := run_advances (h := h) uses₁ later t₁ there₁ plain₁ moved₁.below
  have rows : items (start.run (machine h) earlier).shared table = t₁.rows := items_of_docs (DB.docs_of_find there₁ (.inl plain₁))
  rw [rows] at stored
  exact (moved₁.below row stored).trans_lt (moved₂.between id member).1

/-- Two inserts without an id and a delete of the last item, step by step in turn. -/
def threeRequests : List ItemWrite :=
  [.insertDocument "t" (.ok ⟨none, "", none⟩), .bulkInsertDocument "t" (.ok [⟨none, "", none⟩, ⟨some 40, "", none⟩]),
    .deleteDocument "t" (some 12)]

def inTurn : List Turn :=
  [(0, false), (1, false), (2, false), (0, false), (1, false), (2, false), (0, false), (1, false), (2, false), (1, false)]

theorem concurrent_ids_ascend_mixed : (assigned Host.uniform (newCollection "t" false 0).tableName inTurn
    (FullTextSync.pool (World.run Host.uniform mixed opened).db threeRequests)).Pairwise (· < ·) :=
  (concurrent_ids_ascend opened_created (by simp [mixed, ItemCall]) threeRequests inTurn).1

end Microserver.ConcurrentIds
