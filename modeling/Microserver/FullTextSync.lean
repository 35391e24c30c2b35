import Microserver.FullTextIndex
import Microserver.Interleaving
import Microserver.Reachable
import Mathlib.Data.List.Perm.Basic

/-!
Main tables and full-text tables under concurrent requests. insertDocument
writes the two tables with one statement each; every other operation writes
them in one transaction. The tables agree, then, as far as nothing befalls the
second INSERT of an insertDocument.
-/
namespace Microserver.FullTextSync
open Microserver.Values Microserver.Store Microserver.Programs Microserver.Interleaving Microserver.Statements
open Microserver.Operations Microserver.Schema Microserver.Items Microserver.Handlers Microserver.Companion
open Microserver.FullTextIndex Microserver.Histories

/-- Requests that write items. -/
abbrev pool (s : DB) (requests : List ItemWrite) : Pool Stmt Err DB Reply := .start ItemWrite.program requests s

/-- The INSERT into a full-text table that a program issues next. -/
def pending {α : Type} : Op α → Option (String × Int × String)
  | .stmt (.insertRow index (some id) (.fullText text)) _ => some (index, id, text)
  | _ => none

/-- A row of the full-text table has the id. -/
def Indexed (s : DB) (index : String) (id : Int) : Prop :=
  match s.find index with
  | some t => t.has id = true
  | none => False

/-- One of the programs is about to index the id. -/
def Awaits (threads : List (Op Reply)) (index : String) (id : Int) : Prop :=
  ∃ p ∈ threads, match pending p with
    | some (index', id', _) => fold index' = fold index ∧ id' = id
    | none => False

/-- The statement leaves an item alone that is between its two INSERTs: the
    second one does not fail from outside, and no delete takes the row before it. -/
def Spares (s : DB) (threads : List (Op Reply)) (faulty : Bool) {β : Type} : Stmt β → Prop
  | .insertRow index (some id) (.fullText _) => faulty = true → Indexed s index id
  | .deleteDocument coll id => faulty = false → ¬ Awaits threads (ftsTableName coll.tableName) id
  | _ => True

/-- No item is disturbed between its two INSERTs. -/
def Undisturbed (pool : Pool Stmt Err DB Reply) (turn : Turn) : Prop :=
  match pool.threads[turn.1]? with
  | some (.stmt c _) => Spares pool.shared pool.threads turn.2 c
  | _ => True

/-- No program has stopped between the two INSERTs. -/
def Settled (pool : Pool Stmt Err DB Reply) : Prop :=
  ∀ p ∈ pool.threads, match pending p with
    | some (index, id, _) => Indexed pool.shared index id
    | none => True

instance (s : DB) (index : String) (id : Int) : Decidable (Indexed s index id) := by
  unfold Indexed
  split <;> exact inferInstance

instance (threads : List (Op Reply)) (index : String) (id : Int) : Decidable (Awaits threads index id) := by
  unfold Awaits
  have each (p : Op Reply) : Decidable (match pending p with
      | some (index', id', _) => fold index' = fold index ∧ id' = id
      | none => False) := by split <;> exact inferInstance
  exact inferInstance

instance (s : DB) (threads : List (Op Reply)) (faulty : Bool) :
    {β : Type} → (c : Stmt β) → Decidable (Spares s threads faulty c)
  | _, .insertRow index (some id) (.fullText _) => inferInstanceAs (Decidable (faulty = true → Indexed s index id))
  | _, .deleteDocument coll id =>
    inferInstanceAs (Decidable (faulty = false → ¬ Awaits threads (ftsTableName coll.tableName) id))
  | _, .insertRow _ none _ | _, .insertRow _ (some _) (.data _) | _, .insertRow _ (some _) (.vector ..)
  | _, .read _ | _, .updateData .. | _, .createCollection .. | _, .renameCollection .. | _, .dropCollection ..
  | _, .insertDocumentBulk .. | _, .updateDocument .. => .isTrue trivial

instance (pool : Pool Stmt Err DB Reply) (turn : Turn) : Decidable (Undisturbed pool turn) := by
  unfold Undisturbed
  cases pool.threads[turn.1]? with
  | none => exact inferInstance
  | some p => cases p <;> exact inferInstance

instance (pool : Pool Stmt Err DB Reply) : Decidable (Settled pool) := by
  unfold Settled
  have each (p : Op Reply) : Decidable (match pending p with
      | some (index, id, _) => Indexed pool.shared index id
      | none => True) := by split <;> exact inferInstance
  exact inferInstance

theorem settled_of_finished {pool : Pool Stmt Err DB Reply} (finished : pool.Finished) : Settled pool := by
  intro p member
  have done := finished p member
  cases p with
  | ret value => trivial
  | fail error => trivial
  | stmt c next => cases done

/-! ### The programs -/

variable {α β : Type} {C : List Collection}

/-- The statements of the requests; a delete is on a registered collection. -/
def Allowed (C : List Collection) : Stmt β → Prop
  | .createCollection .. => False
  | .renameCollection .. => False
  | .dropCollection .. => False
  | .insertRow _ id (.fullText _) => id.isSome = true
  | .deleteDocument coll _ => coll ∈ C
  | _ => True

/-- The INSERT into a full-text table that has to follow a statement. -/
def after : Stmt β → Except Err β → Option (String × Int × String)
  | .insertRow table _ (.vector _ text _), .ok id => some (ftsTableName table, id, text)
  | _, _ => none

/-- The program indexes exactly the items that it has inserted on their own. -/
def Orderly (C : List Collection) : Op α → Prop
  | .ret _ => True
  | .fail _ => True
  | .stmt c next => Allowed C c ∧ ∀ r, pending (next r) = after c r ∧ Orderly C (next r)

/-- Orderly, and not about to index anything. -/
structure Fresh (C : List Collection) (p : Op α) : Prop where
  orderly : Orderly C p
  quiet : pending p = none

theorem pending_bind {p : Op α} {f : α → Op β} (quiet : ∀ a, pending (f a) = none) : pending (p.bind f) = pending p := by
  cases p with
  | ret a => exact quiet a
  | fail e => rfl
  | stmt c next =>
    cases c with
    | insertRow table id columns => cases id <;> cases columns <;> rfl
    | _ => rfl

theorem Orderly.bind {p : Op α} {f : α → Op β} (start : Orderly C p) (follow : ∀ a, Fresh C (f a)) : Orderly C (p.bind f) := by
  induction p with
  | ret a => exact (follow a).orderly
  | fail e => trivial
  | stmt c next ih =>
    refine ⟨start.1, fun r => ⟨?_, ih r (start.2 r).2⟩⟩
    rw [pending_bind fun a => (follow a).quiet]
    exact (start.2 r).1

theorem Fresh.bind {p : Op α} {f : α → Op β} (start : Fresh C p) (follow : ∀ a, Fresh C (f a)) : Fresh C (p.bind f) :=
  ⟨start.orderly.bind follow, (pending_bind fun a => (follow a).quiet).trans start.quiet⟩

theorem Fresh.attempt {p : Op α} (fresh : Fresh C p) : Fresh C p.attempt := by
  have same (p : Op α) : pending p.attempt = pending p := by
    cases p with
    | ret a => rfl
    | fail e => rfl
    | stmt c next =>
      cases c with
      | insertRow table id columns => cases id <;> cases columns <;> rfl
      | _ => rfl
  refine ⟨?_, (same p).trans fresh.quiet⟩
  have orderly := fresh.orderly
  clear fresh
  induction p with
  | ret a => trivial
  | fail e => trivial
  | stmt c next ih =>
    refine ⟨orderly.1, fun r => ⟨?_, ih r (orderly.2 r).2⟩⟩
    rw [same]
    exact (orderly.2 r).1

/-- The statements that neither index an item nor call for that. -/
def Plain (C : List Collection) (c : Stmt β) : Prop :=
  Allowed C c ∧ (∀ r, after c r = none) ∧ ∀ (γ : Type) (next : Except Err β → Op γ), pending (.stmt c next) = none

/-- A program of such statements is orderly. -/
theorem Fresh.of_uses {p : Op α} (uses : p.Uses (Plain C)) : Fresh C p := by
  induction p with
  | ret a => exact ⟨trivial, rfl⟩
  | fail e => exact ⟨trivial, rfl⟩
  | stmt c next ih =>
    obtain ⟨⟨allowed, silent, quiet⟩, later⟩ := uses
    refine ⟨⟨allowed, fun r => ⟨?_, (ih r (later r)).orderly⟩⟩, quiet _ next⟩
    rw [silent r]
    exact (ih r (later r)).quiet

theorem plain_of_update (c : Stmt β) (update : UpdateStmt c) : Plain C c := by
  cases c with
  | read _ | updateData _ _ _ | updateDocument _ _ _ _ _ => exact ⟨trivial, fun _ => rfl, fun _ _ => rfl⟩
  | insertRow _ _ _ | createCollection _ _ _ _ | renameCollection _ _ | dropCollection _ _ | insertDocumentBulk _ _
    | deleteDocument _ _ => exact update.elim

theorem insertDocument_fresh (coll : Collection) (id : Option Int) (text : String) (data : Option Json) :
    Fresh C (insertDocument coll id text data) := by
  unfold insertDocument
  refine Fresh.bind (.of_uses (validateReferences_uses plain_of_update _ _)) fun _ => ?_
  by_cases vector : coll.hasVector = true
  · rw [if_pos vector]
    refine Fresh.bind (.of_uses (Prog.uses_call (plain_of_update _ trivial))) fun vec => ?_
    refine ⟨⟨trivial, fun r => ?_⟩, by cases id <;> rfl⟩
    cases r with
    | error e => exact ⟨rfl, trivial⟩
    | ok finalID =>
      refine ⟨rfl, rfl, fun r => ?_⟩
      cases r with
      | error e => exact ⟨rfl, trivial⟩
      | ok again => exact ⟨rfl, trivial⟩
  · rw [if_neg vector]
    refine ⟨⟨trivial, fun r => ?_⟩, by cases id <;> rfl⟩
    cases r with
    | error e => exact ⟨rfl, trivial⟩
    | ok finalID => exact ⟨rfl, trivial⟩

theorem answer_fresh {op : Op α} {reply : α → Reply} (fresh : Fresh C op) : Fresh C (answer op reply) := by
  refine fresh.attempt.bind fun outcome => ?_
  cases outcome <;> exact ⟨trivial, rfl⟩

theorem insertInto_fresh (body : Decoded DocumentRequest) (coll : Collection) : Fresh C (insertInto body coll) := by
  cases body with
  | error reply => exact ⟨trivial, rfl⟩
  | ok req =>
    unfold insertInto withBody
    by_cases missing : (coll.hasVector && req.text = "") = true
    · simp only [missing, ↓reduceIte]
      exact ⟨trivial, rfl⟩
    · simp only [missing]
      exact answer_fresh (insertDocument_fresh coll req.id req.text req.data)

/-- A request is an item handler on the collection that it looks up first. -/
theorem program_eq (request : ItemWrite) :
    ∃ name handle, request.program = withCollection name handle ∧ ∀ C, ∀ coll ∈ C, Fresh C (handle coll) := by
  cases request with
  | insertDocument name body => exact ⟨name, insertInto body, rfl, fun C coll _ => insertInto_fresh body coll⟩
  | bulkInsertDocument name body =>
    refine ⟨name, bulkInsertInto body, rfl, fun C coll _ => .of_uses ?_⟩
    have inserts (preparedItems : List Prepared) : Plain C (.insertDocumentBulk coll preparedItems) :=
      ⟨trivial, fun _ => rfl, fun _ _ => rfl⟩
    exact bulkInsertDocument_uses plain_of_update inserts body
  | updateDocument name id body =>
    exact ⟨name, updateIn id body, rfl, fun C coll _ => .of_uses (updateIn_uses plain_of_update coll id body)⟩
  | deleteDocument name id =>
    refine ⟨name, deleteFrom id, rfl, fun C coll registered => .of_uses ?_⟩
    have deletes (id : Int) : Plain C (.deleteDocument coll id) := ⟨registered, fun _ => rfl, fun _ _ => rfl⟩
    exact deleteFrom_uses plain_of_update deletes id

/-! ### One statement -/

variable {h : Host} {s s' : DB} {table : String}

/-- The copies for one main table that a program is about to make. -/
def expected (p : Op α) (table : String) : Set (Int × String) :=
  {q | ∃ index, pending p = some (index, q) ∧ fold index = fold (ftsTableName table)}

theorem expected_none {p : Op α} (quiet : pending p = none) : expected p table = ∅ := by
  ext q
  simp [expected, quiet]

theorem expected_some {p : Op α} {index : String} {q : Int × String} (found : pending p = some (index, q)) :
    expected p table = if fold index = fold (ftsTableName table) then {q} else ∅ := by
  ext r
  by_cases same : fold index = fold (ftsTableName table)
  · simp [expected, found, same, eq_comm]
  · simp [expected, found, same]

theorem item_of_allowed {c : Stmt β} (allowed : Allowed C c) : ItemStmt c := by
  cases c <;> trivial

theorem step_schema {p : Op α} (faulty : Bool) (orderly : Orderly C p) (s : DB) :
    SameSchema s ((machine h).step faulty p s).2 := by
  cases p with
  | ret a => exact SameSchema.refl s
  | fail e => exact SameSchema.refl s
  | stmt c next =>
    cases faulty with
    | true => exact SameSchema.refl s
    | false =>
      cases ran : (machine h).exec c s with
      | error e => simpa only [Machine.step, ran] using SameSchema.refl s
      | ok outcome => simpa only [Machine.step, ran] using exec_sameSchema (item_of_allowed orderly.1) ran

/-- A statement without a part in the copying keeps the full-text table as it is
    awaited. -/
theorem plain_step {c : Stmt β} {next : Except Err β → Op α} {others : Set (Int × String)} {faulty : Bool}
    (plain : Plain C c) (orderly : Orderly C (.stmt c next))
    (keeps : faulty = false → ∀ b s', (machine h).exec c s = .ok (b, s') → Follows s table others → Follows s' table others)
    (follows : Follows s table (expected (.stmt c next) table ∪ others)) :
    Follows ((machine h).step faulty (.stmt c next) s).2 table
      (expected ((machine h).step faulty (.stmt c next) s).1 table ∪ others) := by
  have later (r : Except Err β) : expected (next r) table ∪ others = others := by
    rw [expected_none ((orderly.2 r).1.trans (plain.2.1 r)), Set.empty_union]
  rw [expected_none (plain.2.2 α next), Set.empty_union] at follows
  cases faulty with
  | true =>
    simp only [Machine.step]
    rw [later]
    exact follows
  | false =>
    cases ran : (machine h).exec c s with
    | error e =>
      simp only [Machine.step, ran]
      rw [later]
      exact follows
    | ok outcome =>
      simp only [Machine.step, ran]
      rw [later]
      exact keeps rfl _ _ ran follows

theorem holds_expected {p : Op (Reply)} {threads : List (Op Reply)} {id : Int} (member : p ∈ threads)
    (here : Holds (expected p table) id) : Awaits threads (ftsTableName table) id := by
  obtain ⟨q, ⟨index, found, same⟩, rfl⟩ := here
  refine ⟨p, member, ?_⟩
  rw [found]
  exact ⟨same, rfl⟩

theorem holds_of_indexed {index : String} {id : Int} (tables : VectorTables s table)
    (same : fold index = fold (ftsTableName table)) (indexed : Indexed s index id) : Holds (indexPairs s table) id := by
  obtain ⟨u, there, kind⟩ := tables.index
  have found : s.find index = some u := by
    rw [← there]
    unfold DB.find
    rw [same]
  unfold Indexed at indexed
  simp only [found] at indexed
  rw [holds_indexPairs, indexRows_of_find found kind same.symm]
  exact Table.has_iff.mp indexed

theorem plain_data (table : String) (id : Option Int) (data : Json) : Plain C (.insertRow table id (.data data)) :=
  ⟨trivial, fun _ => rfl, fun _ _ => by cases id <;> rfl⟩

theorem plain_bulk (coll : Collection) (preparedItems : List Prepared) : Plain C (.insertDocumentBulk coll preparedItems) :=
  ⟨trivial, fun _ => rfl, fun _ _ => rfl⟩

theorem plain_delete {coll : Collection} (registered : coll ∈ C) (id : Int) : Plain C (.deleteDocument coll id) :=
  ⟨registered, fun _ => rfl, fun _ _ => rfl⟩

/-- The first of the two INSERTs: from then on the copy is awaited. -/
theorem insertMain_step {main : String} {given : Option Int} {embedding : Vector32} {text : String} {data : Json}
    {next : Except Err Int → Op α} {others : Set (Int × String)} {faulty : Bool}
    (orderly : Orderly C (.stmt (.insertRow main given (.vector embedding text data)) next))
    (follows : Follows s table others) :
    Follows ((machine h).step faulty (.stmt (.insertRow main given (.vector embedding text data)) next) s).2 table
      (expected ((machine h).step faulty (.stmt (.insertRow main given (.vector embedding text data)) next) s).1 table ∪
        others) := by
  have failed (e : Err) : expected (next (.error e)) table ∪ others = others := by
    rw [expected_none (orderly.2 (.error e)).1, Set.empty_union]
  cases faulty with
  | true =>
    simp only [Machine.step]
    rw [failed]
    exact follows
  | false =>
    cases ran : (machine h).exec (.insertRow main given (.vector embedding text data)) s with
    | error e =>
      simp only [Machine.step, ran]
      rw [failed]
      exact follows
    | ok outcome =>
      obtain ⟨assigned, s'⟩ := outcome
      have inserted : s.insertRow main given (.vector embedding text data) = .ok (assigned, s') := ran
      have stored := itemPairs_insertRow (by simp) inserted table
      have companion := indexPairs_insertRow (by simp) inserted table
      simp only [Machine.step, ran]
      rw [expected_some (orderly.2 (.ok assigned)).1]
      by_cases same : fold table = fold main
      · rw [if_pos same] at stored
        rw [if_pos (ftsTableName_congr same).symm, Set.singleton_union]
        unfold Follows
        rw [stored, companion]
        exact follows.write (assigned, text)
      · rw [if_neg same] at stored
        rw [if_neg fun equal => same (ftsTableName_injective equal).symm, Set.empty_union]
        exact follows.congr stored companion

/-- The second of the two INSERTs: the copy arrives, or one is there already. -/
theorem insertIndex_step {index : String} {id : Int} {text : String} {next : Except Err Int → Op α}
    {others : Set (Int × String)} {faulty : Bool} (orderly : Orderly C (.stmt (.insertRow index (some id) (.fullText text)) next))
    (tables : VectorTables s table) (spares : faulty = true → Indexed s index id)
    (follows : Follows s table (expected (.stmt (.insertRow index (some id) (.fullText text)) next) table ∪ others)) :
    Follows ((machine h).step faulty (.stmt (.insertRow index (some id) (.fullText text)) next) s).2 table
      (expected ((machine h).step faulty (.stmt (.insertRow index (some id) (.fullText text)) next) s).1 table ∪ others) := by
  have later (r : Except Err Int) : expected (next r) table ∪ others = others := by
    rw [expected_none (orderly.2 r).1, Set.empty_union]
  rw [expected_some (p := .stmt (.insertRow index (some id) (.fullText text)) next) rfl] at follows
  have givenUp (present : fold index = fold (ftsTableName table) → Holds (indexPairs s table) id) : Follows s table others := by
    by_cases same : fold index = fold (ftsTableName table)
    · rw [if_pos same, Set.singleton_union] at follows
      exact follows.giveUp (itemPairs_single s table) (present same)
    · rwa [if_neg same, Set.empty_union] at follows
  cases faulty with
  | true =>
    simp only [Machine.step]
    rw [later]
    exact givenUp fun same => holds_of_indexed tables same (spares rfl)
  | false =>
    cases ran : (machine h).exec (.insertRow index (some id) (.fullText text)) s with
    | error e =>
      simp only [Machine.step, ran]
      rw [later]
      exact givenUp fun same => insertFullText_refused tables.index same ran
    | ok outcome =>
      obtain ⟨assigned, s'⟩ := outcome
      have inserted : s.insertRow index (some id) (.fullText text) = .ok (assigned, s') := ran
      have stored := itemPairs_insertFullText inserted table
      obtain ⟨fresh, copied⟩ := indexPairs_insertFullText inserted table
      simp only [Machine.step, ran]
      rw [later]
      by_cases same : fold index = fold (ftsTableName table)
      · rw [if_pos same, Set.singleton_union] at follows
        rw [if_pos same.symm] at copied
        unfold Follows
        rw [stored, copied]
        exact follows.copy (fresh same.symm)
      · rw [if_neg same, Set.empty_union] at follows
        rw [if_neg fun equal => same equal.symm] at copied
        exact follows.congr stored copied

/-- One statement that spares the items between their INSERTs. -/
theorem step_follows {c : Stmt β} {next : Except Err β → Op Reply} {others : Set (Int × String)} {faulty : Bool}
    (threads : List (Op Reply)) (orderly : Orderly C (.stmt c next)) (tables : VectorTables s table)
    (own : ∀ coll ∈ C, fold table = fold coll.tableName → coll.hasVector = true) (spares : Spares s threads faulty c)
    (waits : ∀ id, Holds others id → Awaits threads (ftsTableName table) id)
    (follows : Follows s table (expected (.stmt c next) table ∪ others)) :
    Follows ((machine h).step faulty (.stmt c next) s).2 table
      (expected ((machine h).step faulty (.stmt c next) s).1 table ∪ others) := by
  cases c with
  | insertRow main given columns =>
    cases columns with
    | data data =>
      refine plain_step (plain_data main given data) orderly ?_ follows
      intro _ assigned s' done follows
      have stored := itemPairs_insertRow (by simp) (show s.insertRow main given (.data data) = .ok (assigned, s') from done) table
      by_cases same : fold table = fold main
      · obtain ⟨embedding, text, value, columns⟩ := tables.columns same done
        cases columns
      · rw [if_neg same] at stored
        exact follows.congr stored (indexPairs_insertRow (by simp) done table)
    | vector embedding text data =>
      refine insertMain_step orderly ?_
      have quiet : pending (.stmt (.insertRow main given (.vector embedding text data)) next) = none := by cases given <;> rfl
      rwa [expected_none quiet, Set.empty_union] at follows
    | fullText text =>
      cases given with
      | none => cases orderly.1
      | some id => exact insertIndex_step orderly tables spares follows
  | read query =>
    refine plain_step (plain_of_update _ trivial) orderly ?_ follows
    intro _ b s' done follows
    have ran : (query h s).map (fun b => (b, s)) = .ok (b, s') := done
    cases result : query h s with
    | error e => simp [result, Except.map] at ran
    | ok v =>
      simp only [result, Except.map, Except.ok.injEq, Prod.mk.injEq] at ran
      rwa [← ran.2]
  | updateData main data id =>
    refine plain_step (plain_of_update _ trivial) orderly ?_ follows
    intro _ n s' done follows
    exact follows.congr (itemPairs_updateData done table) (indexPairs_updateData done table)
  | insertDocumentBulk coll preparedItems =>
    refine plain_step (plain_bulk coll preparedItems) orderly ?_ follows
    intro _ ids s' done follows
    exact insertDocumentBulkTx_follows tables follows done
  | updateDocument coll id text data serialized =>
    refine plain_step (plain_of_update _ trivial) orderly ?_ follows
    intro _ found s' done follows
    exact updateDocumentTx_follows follows done
  | deleteDocument coll id =>
    refine plain_step (plain_delete orderly.1 id) orderly ?_ follows
    intro running found s' done follows
    refine deleteDocumentTx_follows follows (own coll orderly.1) ?_ done
    intro same held
    refine spares running ?_
    obtain ⟨p, member, awaits⟩ := waits id held
    refine ⟨p, member, ?_⟩
    cases found : pending p with
    | none => simp [found] at awaits
    | some q =>
      simp only [found] at awaits ⊢
      exact ⟨awaits.1.trans (ftsTableName_congr same), awaits.2⟩
  | createCollection _ _ _ _ | renameCollection _ _ | dropCollection _ _ => exact orderly.1.elim

/-! ### Interleavings -/

/-- A request is under way, or has yet to look its collection up. -/
def InFlight (C : List Collection) (p : Op Reply) : Prop :=
  Orderly C p ∨ ∃ name handle, p = withCollection name handle ∧ ∀ coll ∈ C, Fresh C (handle coll)

/-- The lookup of the collection. -/
theorem withCollection_step {handle : Collection → Op Reply} (name : String) (faulty : Bool)
    (fresh : ∀ coll ∈ s.collections, Fresh C (handle coll)) :
    Fresh C ((machine h).step faulty (withCollection name handle) s).1 ∧
      ((machine h).step faulty (withCollection name handle) s).2 = s := by
  cases faulty with
  | true => exact ⟨⟨trivial, rfl⟩, rfl⟩
  | false =>
    cases found : s.lookup name with
    | none =>
      have refused : (machine h).step false (withCollection name handle) s = (.ret (writeError 404 "collection not found"), s) := by
        simp [withCollection, getCollection, Prog.call, Prog.bind, Prog.attempt, Machine.step, machine, Stmt.exec, Except.map,
          found, Err.is]
      rw [refused]
      exact ⟨⟨trivial, rfl⟩, rfl⟩
    | some coll =>
      have handed : (machine h).step false (withCollection name handle) s = (handle coll, s) := by
        simp [withCollection, getCollection, Prog.call, Prog.bind, Prog.attempt, Machine.step, machine, Stmt.exec, Except.map,
          found]
      rw [handed]
      exact ⟨fresh coll (DB.lookup_some found).1, rfl⟩

/-- The copies for one main table that the programs are about to make. -/
def expectedOf (threads : List (Op Reply)) (table : String) : Set (Int × String) :=
  {q | ∃ p ∈ threads, q ∈ expected p table}

theorem expectedOf_perm {threads rest : List (Op Reply)} {p : Op Reply} (perm : threads.Perm (p :: rest)) :
    expectedOf threads table = expected p table ∪ expectedOf rest table := by
  ext q
  simp [expectedOf, perm.mem_iff]

theorem expectedOf_quiet {threads : List (Op Reply)} (quiet : ∀ p ∈ threads, pending p = none) : expectedOf threads table = ∅ := by
  ext q
  simp only [expectedOf, Set.mem_ofPred_eq, Set.mem_empty_iff_false, iff_false]
  rintro ⟨p, member, index, found, -⟩
  rw [quiet p member] at found
  cases found

/-- What holds in every state of an undisturbed run. -/
structure Holding (C : List Collection) (pool : Pool Stmt Err DB Reply) : Prop where
  collections : pool.shared.collections = C
  inFlight : ∀ p ∈ pool.threads, InFlight C p
  tables : ∀ c ∈ C, c.hasVector = true → VectorTables pool.shared c.tableName
  follows : ∀ c ∈ C, c.hasVector = true → Follows pool.shared c.tableName (expectedOf pool.threads c.tableName)

theorem Holding.step {pool : Pool Stmt Err DB Reply} {turn : Turn} (holding : Holding C pool)
    (own : ∀ c ∈ C, c.hasVector = true → ∀ coll ∈ C, fold c.tableName = fold coll.tableName → coll.hasVector = true)
    (undisturbed : Undisturbed pool turn) : Holding C (pool.step (machine h) turn) := by
  obtain ⟨i, faulty⟩ := turn
  unfold Pool.step
  cases found : pool.threads[i]? with
  | none => exact holding
  | some p =>
    obtain ⟨bound, here⟩ := List.getElem?_eq_some_iff.mp found
    have member : p ∈ pool.threads := List.mem_of_getElem? found
    have before : pool.threads.Perm (p :: pool.threads.eraseIdx i) := by
      rw [← here]
      exact (List.getElem_cons_eraseIdx_perm bound).symm
    -- the moving program is orderly after its turn, and the copies it awaits are up to date
    have moved : Orderly C ((machine h).step faulty p pool.shared).1 ∧
        SameSchema pool.shared ((machine h).step faulty p pool.shared).2 ∧
        ∀ c ∈ C, c.hasVector = true → Follows ((machine h).step faulty p pool.shared).2 c.tableName
          (expected ((machine h).step faulty p pool.shared).1 c.tableName ∪
            expectedOf (pool.threads.eraseIdx i) c.tableName) := by
      have follows (c : Collection) (registered : c ∈ C) (vector : c.hasVector = true) :
          Follows pool.shared c.tableName (expected p c.tableName ∪ expectedOf (pool.threads.eraseIdx i) c.tableName) := by
        rw [← expectedOf_perm before]
        exact holding.follows c registered vector
      rcases holding.inFlight p member with orderly | ⟨name, handle, rfl, fresh⟩
      · refine ⟨?_, step_schema faulty orderly pool.shared, fun c registered vector => ?_⟩
        · cases p with
          | ret a => trivial
          | fail e => trivial
          | stmt c next =>
            cases faulty with
            | true => exact (orderly.2 _).2
            | false => cases ran : (machine h).exec c pool.shared <;> simpa only [Machine.step, ran] using (orderly.2 _).2
        · cases p with
          | ret a => exact follows c registered vector
          | fail e => exact follows c registered vector
          | stmt statement next =>
            refine step_follows pool.threads orderly (holding.tables c registered vector) (own c registered vector) ?_ ?_
              (follows c registered vector)
            · simpa only [Undisturbed, found] using undisturbed
            · rintro id ⟨q, ⟨r, others, expects⟩, same⟩
              exact holds_expected (List.mem_of_mem_eraseIdx others) ⟨q, expects, same⟩
      · have known : ∀ coll ∈ pool.shared.collections, Fresh C (handle coll) := by
          rw [holding.collections]
          exact fresh
        obtain ⟨next, same⟩ := withCollection_step (h := h) name faulty known
        rw [same]
        refine ⟨next.orderly, SameSchema.refl _, fun c registered vector => ?_⟩
        rw [expected_none next.quiet]
        have awaited := follows c registered vector
        rwa [expected_none (p := withCollection name handle) rfl] at awaited
    obtain ⟨orderly, schema, follows⟩ := moved
    refine ⟨?_, ?_, ?_, ?_⟩
    · exact schema.collections.trans holding.collections
    · intro q among
      rcases List.mem_or_eq_of_mem_set among with old | rfl
      · exact holding.inFlight q old
      · exact .inl orderly
    · exact fun c registered vector => (holding.tables c registered vector).sameSchema schema
    · intro c registered vector
      rw [expectedOf_perm (List.set_perm_cons_eraseIdx bound _)]
      exact follows c registered vector

/-- Whatever the requests, their order of steps and the failures they meet: if
    no item is disturbed between its two INSERTs, and none is left there in the
    end, then main tables and full-text tables agree again. -/
theorem tables_agree (h : Host) (s : DB) (requests : List ItemWrite) (schedule : List Turn) (sound : Sound s)
    (start : InSync s) (undisturbed : Along (Pool.step (machine h)) Undisturbed schedule (pool s requests))
    (settled : Settled ((pool s requests).run (machine h) schedule)) :
    InSync ((pool s requests).run (machine h) schedule).shared := by
  have own (c : Collection) (registered : c ∈ s.collections) (vector : c.hasVector = true) (coll : Collection)
      (known : coll ∈ s.collections) (same : fold c.tableName = fold coll.tableName) : coll.hasVector = true := by
    rw [← sound.table_injective registered known same]
    exact vector
  have first : Holding s.collections (pool s requests) := by
    refine ⟨rfl, ?_, fun c registered vector => .of_sound sound registered vector, ?_⟩
    · intro p member
      obtain ⟨request, -, rfl⟩ := List.mem_map.mp member
      obtain ⟨name, handle, same, fresh⟩ := program_eq request
      exact .inr ⟨name, handle, same, fresh s.collections⟩
    · intro c registered vector
      have quiet : ∀ p ∈ (pool s requests).threads, pending p = none := by
        intro p member
        obtain ⟨request, -, rfl⟩ := List.mem_map.mp member
        obtain ⟨name, handle, same, -⟩ := program_eq request
        rw [same]
        rfl
      rw [expectedOf_quiet quiet]
      exact .of_eq (start c registered vector)
  have last : Holding s.collections ((pool s requests).run (machine h) schedule) :=
    run_invariant (I := Holding s.collections) (fun _ _ holding met => holding.step own met) first undisturbed
  intro c registered vector
  rw [last.collections] at registered
  refine (last.follows c registered vector).eq (itemPairs_single _ _) ?_
  rintro q ⟨p, member, index, found, same⟩
  have copied := settled p member
  simp only [found] at copied
  exact holds_of_indexed (last.tables c registered vector) same copied

/-- A vector collection without items. -/
def vectors : DB := (World.run Host.uniform [(.createCollection "v" true 8 ⟨[], List.nodup_nil⟩, [])] World.start).db

/-- An insert, and a delete of the item. -/
def insertAndDelete : List ItemWrite := [.insertDocument "v" (.ok ⟨some 1, "a", none⟩), .deleteDocument "v" (some 1)]

/-- The turns of the insert, then those of the delete. -/
def oneAfterTheOther : List Turn := List.replicate 5 (0, false) ++ List.replicate 3 (1, false)

/-- One after the other, the two requests leave the tables in agreement. -/
theorem tables_agree_insertThenDelete :
    Along (Pool.step (machine Host.uniform)) Undisturbed oneAfterTheOther (pool vectors insertAndDelete) ∧
      ((pool vectors insertAndDelete).run (machine Host.uniform) oneAfterTheOther).Finished ∧
      InSync ((pool vectors insertAndDelete).run (machine Host.uniform) oneAfterTheOther).shared :=
  ⟨by decide, by decide,
    tables_agree Host.uniform vectors insertAndDelete oneAfterTheOther (Reachable.run_coherent _ _).sound
      (by decide) (by decide) (settled_of_finished (by decide))⟩

/-- The INSERT into the full-text table fails when the item is in its main table. -/
theorem failed_indexing_breaks_sync :
    ¬ ∀ (h : Host) (s : DB) (requests : List ItemWrite) (schedule : List Turn), Sound s → InSync s →
      ((pool s requests).run (machine h) schedule).Finished →
        InSync ((pool s requests).run (machine h) schedule).shared := by
  intro all
  have agrees := all Host.uniform vectors [.insertDocument "v" (.ok ⟨some 1, "a", none⟩)]
    (List.replicate 4 (0, false) ++ [(0, true)]) (Reachable.run_coherent _ _).sound (by decide) (by decide)
  have broken : ¬ InSync ((pool vectors [.insertDocument "v" (.ok ⟨some 1, "a", none⟩)]).run (machine Host.uniform)
      (List.replicate 4 (0, false) ++ [(0, true)])).shared := by decide
  exact broken agrees

end Microserver.FullTextSync
