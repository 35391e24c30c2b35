import Microserver.Operations
import Mathlib.Data.List.Nodup

/-!
The SQL tables behind the registry. A collection owns its main table, the
companion full-text table of a vector collection, and their shadow tables;
`Sound` says that what the registry names is there and belongs to one
collection only. The catalog transactions keep it, dropCollection as long as
the registry row it read is still the registered one.
-/
namespace Microserver.Schema
open Microserver.Values Microserver.Store Microserver.Statements

/-- A table of a kind with its shadow tables, as the database indexes them. -/
def tableNames (kind : TableKind) (table : String) : List String := (table :: shadows kind table).map fold

def mainKind (c : Collection) : TableKind := if c.hasVector then .vec0 c.dimensions else .plain

/-- All tables of a collection. -/
def ownedTables (c : Collection) : List String :=
  tableNames (mainKind c) c.tableName ++
    if c.hasVector then tableNames .fts5 (ftsTableName c.tableName) else []

/-- The tables that openVecDB leaves in a new file. -/
def systemTables : List String :=
  ["collections", "collection_references", "users", "sqlite_sequence", "vec_items", "vec_items_info",
    "vec_items_chunks", "vec_items_rowids", "vec_items_vector_chunks00", "vec_items_vector_chunks01",
    "vec_items_auxiliary"]

/-- The database after openVecDB on a new file. -/
def openVecDB : DB where
  collections := []
  references := []
  tables n := if n ∈ systemTables then some (.empty .system) else none

/-- The registry and the tables agree. -/
structure Sound (s : DB) : Prop where
  names : (s.collections.map (·.name)).Nodup
  main : ∀ c ∈ s.collections, ∃ t, s.find c.tableName = some t ∧ t.kind = mainKind c
  fullText : ∀ c ∈ s.collections, c.hasVector = true →
    ∃ t, s.find (ftsTableName c.tableName) = some t ∧ t.kind = .fts5
  present : ∀ c ∈ s.collections, ∀ n ∈ ownedTables c, (s.tables n).isSome = true
  disjoint : ∀ c ∈ s.collections, ∀ d ∈ s.collections, c ≠ d → ∀ n ∈ ownedTables c, n ∉ ownedTables d
  belongs : ∀ n t, s.tables n = some t → (t.kind = .plain ∨ ∃ dims, t.kind = .vec0 dims) →
    ∃ c ∈ s.collections, n = fold c.tableName

theorem openVecDB_sound : Sound openVecDB where
  names := by simp [openVecDB]
  main := by simp [openVecDB]
  fullText := by simp [openVecDB]
  present := by simp [openVecDB]
  disjoint := by simp [openVecDB]
  belongs := by
    intro n t found kind
    by_cases system : n ∈ systemTables
    · simp only [openVecDB, system, ↓reduceIte, Option.some.injEq] at found
      subst found
      rcases kind with plain | ⟨dims, vector⟩ <;> contradiction
    · simp [openVecDB, system] at found

theorem mem_tableNames_main (kind : TableKind) (table : String) : fold table ∈ tableNames kind table := by
  simp [tableNames]

theorem main_mem_owned (c : Collection) : fold c.tableName ∈ ownedTables c :=
  List.mem_append_left _ (mem_tableNames_main _ _)

theorem fullText_mem_owned {c : Collection} (vector : c.hasVector = true) :
    fold (ftsTableName c.tableName) ∈ ownedTables c := by
  simp only [ownedTables, vector, ↓reduceIte]
  exact List.mem_append_right _ (mem_tableNames_main _ _)

/-! ### CREATE and DROP -/

/-- Inversion of CREATE: the names were free, and exactly they are taken now. -/
theorem createTable_ok {s s' : DB} {table : String} {kind : TableKind} (done : s.createTable table kind = .ok s') :
    (∀ n ∈ tableNames kind table, s.tables n = none) ∧
      s'.collections = s.collections ∧ s'.references = s.references ∧
      s'.find table = some (.empty kind) ∧
      (∀ n ∈ tableNames kind table, n ≠ fold table → s'.tables n = some (.empty .shadow)) ∧
      (∀ n, n ∉ tableNames kind table → s'.tables n = s.tables n) := by
  unfold DB.createTable at done
  by_cases taken : (table :: shadows kind table).any (fun n => (s.find n).isSome) = true
  · simp [taken] at done
  · simp only [taken] at done
    cases done
    refine ⟨?_, rfl, rfl, by simp [DB.find], ?_, ?_⟩
    · intro n member
      obtain ⟨m, listed, rfl⟩ := List.mem_map.mp member
      have free : ¬ (s.find m).isSome = true := fun some => taken (List.any_eq_true.mpr ⟨m, listed, some⟩)
      simpa [DB.find] using free
    · intro n member other
      have shadowed : n ∈ (shadows kind table).map fold := by
        rcases List.mem_cons.mp member with main | rest
        · exact absurd main other
        · exact rest
      simp only [other, shadowed, ↓reduceIte]
    · intro n absent
      have notMain : n ≠ fold table := fun same => absent (same ▸ mem_tableNames_main kind table)
      have notShadow : n ∉ (shadows kind table).map fold := fun listed => absent (List.mem_cons_of_mem _ listed)
      simp only [notMain, notShadow, ↓reduceIte]

/-- Inversion of DROP: the table was there, and it is gone with its shadow tables. -/
theorem dropTable_ok {s s' : DB} {table : String} (done : s.dropTable table = .ok s') :
    ∃ t, s.find table = some t ∧ s'.collections = s.collections ∧ s'.references = s.references ∧
      (∀ n ∈ tableNames t.kind table, s'.tables n = none) ∧
      (∀ n, n ∉ tableNames t.kind table → s'.tables n = s.tables n) := by
  unfold DB.dropTable at done
  cases there : s.find table with
  | none => simp [there] at done
  | some t =>
    simp only [there] at done
    cases done
    refine ⟨t, rfl, rfl, rfl, ?_, ?_⟩
    · intro n member
      exact if_pos member
    · intro n absent
      exact if_neg absent

theorem fold_ftsTableName_ne (table : String) : fold (ftsTableName table) ≠ fold table := by
  intro same
  have lengths := congrArg String.length same
  rw [ftsTableName, fold_append, String.length_append] at lengths
  have suffix : (fold "_fts").length = 4 := by decide
  omega

theorem fold_append_cancel {table a b : String} (same : fold (table ++ a) = fold (table ++ b)) : fold a = fold b := by
  rw [fold_append, fold_append] at same
  have lists := congrArg String.toList same
  rw [String.toList_append, String.toList_append] at lists
  exact String.toList_injective (List.append_cancel_left lists)

def mainSuffixes : List String :=
  ["", "_info", "_chunks", "_rowids", "_vector_chunks00", "_vector_chunks01", "_auxiliary"]

def fullTextSuffixes : List String :=
  ["_fts", "_fts_data", "_fts_idx", "_fts_content", "_fts_docsize", "_fts_config"]

/-- The tables of a vec0 table and those of its full-text table have different names. -/
theorem fullText_apart {d : Int} {table n : String} (main : n ∈ tableNames (.vec0 d) table) :
    n ∉ tableNames .fts5 (ftsTableName table) := by
  intro companion
  have left : tableNames (.vec0 d) table = mainSuffixes.map (fun suffix => fold (table ++ suffix)) := by
    have whole : fold table ++ fold "" = fold table := by rw [← fold_append, String.append_empty]
    simp [tableNames, shadows, mainSuffixes, whole]
  have right : tableNames .fts5 (ftsTableName table) = fullTextSuffixes.map (fun suffix => fold (table ++ suffix)) := by
    simp [tableNames, shadows, fullTextSuffixes, ftsTableName, String.append_assoc]
  rw [left] at main
  rw [right] at companion
  obtain ⟨suffix, ofMain, rfl⟩ := List.mem_map.mp main
  obtain ⟨suffix', ofCompanion, same⟩ := List.mem_map.mp companion
  have different : ∀ x ∈ mainSuffixes, ∀ y ∈ fullTextSuffixes, fold x ≠ fold y := by decide
  exact different suffix ofMain suffix' ofCompanion (fold_append_cancel same).symm

/-- CREATE goes through when the names are free. -/
theorem createTable_goes {s : DB} {table : String} {kind : TableKind} (free : ∀ n ∈ tableNames kind table, s.tables n = none) :
    ∃ s', s.createTable table kind = .ok s' := by
  have none : (table :: shadows kind table).any (fun n => (s.find n).isSome) = false := by
    rw [List.any_eq_false]
    intro n member
    rw [DB.find, free _ (List.mem_map.mpr ⟨n, member, rfl⟩)]
    simp
  unfold DB.createTable
  simp only [none]
  exact ⟨_, rfl⟩

theorem dropTable_goes {s : DB} {table : String} {t : Table} (there : s.find table = some t) :
    ∃ s', s.dropTable table = .ok s' := by
  unfold DB.dropTable
  rw [there]
  exact ⟨_, rfl⟩

theorem createTable_isSome {s s' : DB} {table : String} {kind : TableKind} (done : s.createTable table kind = .ok s')
    {n : String} (member : n ∈ tableNames kind table) : (s'.tables n).isSome = true := by
  obtain ⟨-, -, -, main, shadow, -⟩ := createTable_ok done
  by_cases same : n = fold table
  · subst same
    have found : s'.tables (fold table) = some (.empty kind) := main
    simp [found]
  · simp [shadow n member same]

/-- Inversion of the CREATEs of a collection. -/
theorem createTables_ok {s s' : DB} {c : Collection} (done : createTables c.tableName c.hasVector c.dimensions s = .ok s') :
    (∀ n ∈ ownedTables c, s.tables n = none) ∧
      s'.collections = s.collections ∧ s'.references = s.references ∧
      s'.find c.tableName = some (.empty (mainKind c)) ∧
      (c.hasVector = true → s'.find (ftsTableName c.tableName) = some (.empty .fts5)) ∧
      (∀ n ∈ ownedTables c, (s'.tables n).isSome = true) ∧
      (∀ n ∈ ownedTables c, n ≠ fold c.tableName → ∀ t, s'.tables n = some t → t.kind = .fts5 ∨ t.kind = .shadow) ∧
      (∀ n, n ∉ ownedTables c → s'.tables n = s.tables n) := by
  unfold createTables at done
  cases vector : c.hasVector with
  | false =>
    have owned : ownedTables c = tableNames .plain c.tableName := by simp [ownedTables, mainKind, vector]
    simp only [vector, Bool.false_eq_true, ↓reduceIte] at done
    cases created : s.createTable c.tableName .plain with
    | error e => simp [created, Except.mapError] at done
    | ok s₁ =>
      simp only [created, Except.mapError, Except.ok.injEq] at done
      subst done
      obtain ⟨free, registry, refs, main, shadow, others⟩ := createTable_ok created
      rw [owned]
      refine ⟨free, registry, refs, by simpa [mainKind, vector] using main, by simp,
        fun n member => createTable_isSome created member, ?_, others⟩
      intro n member different t found
      rw [shadow n member different] at found
      cases found
      exact .inr rfl
  | true =>
    have owned : ownedTables c =
        tableNames (.vec0 c.dimensions) c.tableName ++ tableNames .fts5 (ftsTableName c.tableName) := by
      simp [ownedTables, mainKind, vector]
    simp only [vector, ↓reduceIte, bind, Except.bind] at done
    cases created : s.createTable c.tableName (.vec0 c.dimensions) with
    | error e => simp [created, Except.mapError] at done
    | ok s₁ =>
      simp only [created, Except.mapError] at done
      cases indexed : s₁.createTable (ftsTableName c.tableName) .fts5 with
      | error e => simp [indexed] at done
      | ok s₂ =>
        simp only [indexed, Except.ok.injEq] at done
        subst done
        obtain ⟨free, registry, refs, main, shadow, others⟩ := createTable_ok created
        obtain ⟨free', registry', refs', main', shadow', others'⟩ := createTable_ok indexed
        -- the second CREATE found its names free, so it touched none of the first
        have apart : ∀ n ∈ tableNames (.vec0 c.dimensions) c.tableName,
            n ∉ tableNames .fts5 (ftsTableName c.tableName) := by
          intro n member twice
          have taken := createTable_isSome created member
          rw [free' n twice] at taken
          simp at taken
        rw [owned]
        refine ⟨?_, registry'.trans registry, refs'.trans refs, ?_, fun _ => main', ?_, ?_, ?_⟩
        · intro n member
          rcases List.mem_append.mp member with first | second
          · exact free n first
          · rw [← others n (fun first => apart n first second)]
            exact free' n second
        · have kept := others' _ (apart _ (mem_tableNames_main (.vec0 c.dimensions) c.tableName))
          have found : s₂.find c.tableName = s₁.find c.tableName := kept
          rw [found, main]
          simp [mainKind, vector]
        · intro n member
          rcases List.mem_append.mp member with first | second
          · rw [others' n (apart n first)]
            exact createTable_isSome created first
          · exact createTable_isSome indexed second
        · intro n member different t found
          rcases List.mem_append.mp member with first | second
          · rw [others' n (apart n first), shadow n first different] at found
            cases found
            exact .inr rfl
          · by_cases same : n = fold (ftsTableName c.tableName)
            · subst same
              have equal : some t = some (.empty .fts5) := found.symm.trans main'
              cases equal
              exact .inl rfl
            · rw [shadow' n second same] at found
              cases found
              exact .inr rfl
        · intro n absent
          rw [others' n (fun second => absent (List.mem_append_right _ second)),
            others n (fun first => absent (List.mem_append_left _ first))]

/-- The CREATEs of a collection go through when its names are free. -/
theorem createTables_goes {s : DB} {c : Collection} (free : ∀ n ∈ ownedTables c, s.tables n = none) :
    ∃ s', createTables c.tableName c.hasVector c.dimensions s = .ok s' := by
  unfold createTables
  cases vector : c.hasVector with
  | false =>
    have main : ∀ n ∈ tableNames .plain c.tableName, s.tables n = none := by simpa [ownedTables, mainKind, vector] using free
    obtain ⟨s₁, created⟩ := createTable_goes main
    simp only [Bool.false_eq_true, ↓reduceIte, created, Except.mapError]
    exact ⟨s₁, rfl⟩
  | true =>
    simp only [ownedTables, mainKind, vector, ↓reduceIte] at free
    obtain ⟨s₁, created⟩ := createTable_goes fun n main => free n (List.mem_append_left _ main)
    obtain ⟨-, -, -, -, -, others⟩ := createTable_ok created
    obtain ⟨s₂, indexed⟩ := @createTable_goes s₁ (ftsTableName c.tableName) .fts5 fun n companion => by
      rw [others n fun main => fullText_apart main companion]
      exact free n (List.mem_append_right _ companion)
    simp only [↓reduceIte, created, indexed, Except.mapError, bind, Except.bind]
    exact ⟨s₂, rfl⟩

/-! ### The catalog transactions -/

/-- The registry row that createCollection writes. -/
def newCollection (name : String) (hasVector : Bool) (dimensions : Int) : Collection :=
  ⟨name, "coll_" ++ name, hasVector, if hasVector then dimensions else 0⟩

/-- No stored row has the key of one of the entries. -/
def KeysFree (name : String) (entries : List (String × ReferenceSpec)) (s : DB) : Prop :=
  ∀ e ∈ entries, ∀ q ∈ s.references, ¬ (q.collectionName = name ∧ q.fieldName = e.1)

theorem insertReference_eq (r : ReferenceRow) (s : DB) :
    (∀ q ∈ s.references, ¬ (q.collectionName = r.collectionName ∧ q.fieldName = r.fieldName)) ∧
        insertReference r s = .ok { s with references := s.references ++ [r] } ∨
      (¬ ∀ q ∈ s.references, ¬ (q.collectionName = r.collectionName ∧ q.fieldName = r.fieldName)) ∧
        ∃ e, insertReference r s = .error e := by
  unfold insertReference
  by_cases taken : s.references.any (fun q => q.collectionName = r.collectionName ∧ q.fieldName = r.fieldName) = true
  · right
    rw [if_pos taken]
    refine ⟨?_, _, rfl⟩
    intro free
    obtain ⟨q, member, same⟩ := List.any_eq_true.mp taken
    exact free q member (by simpa using same)
  · left
    rw [if_neg taken]
    refine ⟨?_, rfl⟩
    intro q member same
    exact taken (List.any_eq_true.mpr ⟨q, member, by simpa using same⟩)

/-- The INSERTs of the declared references go through when all their keys are
    free, and are refused otherwise. -/
theorem insertReferences_eq (name : String) (entries : List (String × ReferenceSpec))
    (distinct : (entries.map (·.1)).Nodup) (s : DB) :
    KeysFree name entries s ∧ insertReferences name entries s =
        .ok { s with references := s.references ++ entries.map (fun e => referenceRow name e.1 e.2) } ∨
      ¬ KeysFree name entries s ∧ ∃ e, insertReferences name entries s = .error e := by
  induction entries generalizing s with
  | nil => left; simp [KeysFree, insertReferences]
  | cons entry rest ih =>
    obtain ⟨field, ref⟩ := entry
    obtain ⟨fresh, distinctRest⟩ := List.nodup_cons.mp distinct
    rcases insertReference_eq (referenceRow name field ref) s with ⟨free, inserted⟩ | ⟨taken, e, refused⟩
    · simp only [insertReferences, inserted]
      have later : KeysFree name rest { s with references := s.references ++ [referenceRow name field ref] } ↔
          KeysFree name rest s := by
        constructor
        · intro keys e member q stored
          exact keys e member q (List.mem_append_left _ stored)
        · intro keys e member q stored
          rcases List.mem_append.mp stored with old | new
          · exact keys e member q old
          · rintro ⟨-, sameField⟩
            rw [List.mem_singleton.mp new] at sameField
            have equal : field = e.1 := sameField
            exact fresh (equal ▸ List.mem_map.mpr ⟨e, member, rfl⟩)
      rcases ih distinctRest { s with references := s.references ++ [referenceRow name field ref] } with
        ⟨keys, done⟩ | ⟨clash, e, refused⟩
      · left
        refine ⟨?_, by simp [done]⟩
        intro e member q stored
        rcases List.mem_cons.mp member with rfl | listed
        · exact free q stored
        · exact later.mp keys e listed q stored
      · right
        refine ⟨fun keys => clash (later.mpr fun e listed => keys e (List.mem_cons_of_mem _ listed)), e, refused⟩
    · right
      refine ⟨?_, .wrapped ("registering reference " ++ quote field) e, by simp only [insertReferences, refused]⟩
      intro keys
      exact taken fun q stored => keys (field, ref) List.mem_cons_self q stored

/-- Inversion of the transaction of createCollection. -/
theorem createCollectionTx_ok {name : String} {hasVector : Bool} {dimensions : Int} {references : ReferenceMap}
    {s s' : DB} (done : createCollectionTx name hasVector dimensions references s = .ok s') :
    s.registered name = false ∧ (∀ e ∈ references.entries, s.registered e.2.collection = true) ∧
      KeysFree name references.entries s ∧
      ∃ s₁, createTables ("coll_" ++ name) hasVector (newCollection name hasVector dimensions).dimensions s = .ok s₁ ∧
        s' = { s₁ with
          collections := s.collections ++ [newCollection name hasVector dimensions],
          references := s.references ++ references.entries.map (fun e => referenceRow name e.1 e.2) } := by
  unfold createCollectionTx at done
  cases known : s.registered name with
  | true => simp [known] at done
  | false =>
    simp only [known, Bool.false_eq_true, ↓reduceIte] at done
    cases missing : references.entries.find? (fun entry => !s.registered entry.2.collection) with
    | some entry => simp [missing] at done
    | none =>
      have dims : createTables ("coll_" ++ name) hasVector (newCollection name hasVector dimensions).dimensions s =
          createTables ("coll_" ++ name) hasVector dimensions s := by
        cases hasVector <;> simp [createTables, newCollection]
      rw [dims]
      simp only [missing, bind, Except.bind] at done
      cases created : createTables ("coll_" ++ name) hasVector dimensions s with
      | error e => simp [created] at done
      | ok s₁ =>
        have made : createTables (newCollection name hasVector dimensions).tableName
            (newCollection name hasVector dimensions).hasVector (newCollection name hasVector dimensions).dimensions s =
              .ok s₁ := by rw [← created]; exact dims
        obtain ⟨-, registry, refs, -⟩ := createTables_ok made
        have free : s₁.registered name = false := by
          rw [← known]; simp [DB.registered, registry]
        simp only [created, insertCollection, free, Bool.false_eq_true, ↓reduceIte, Except.mapError] at done
        refine ⟨rfl, ?_, ?_⟩
        · intro e member
          simpa using List.find?_eq_none.mp missing e member
        · rcases insertReferences_eq name references.entries references.distinct
            { s₁ with collections := s₁.collections ++ [newCollection name hasVector dimensions] } with
            ⟨keys, inserted⟩ | ⟨-, e, refused⟩
          · have equal := Except.ok.inj (inserted.symm.trans done)
            refine ⟨?_, s₁, rfl, ?_⟩
            · intro e member q stored
              exact keys e member q (by simpa [refs] using stored)
            · rw [← equal]; simp [registry, refs]
          · have impossible := refused.symm.trans done
            cases impossible

/-- The transaction of createCollection goes through when the name is free and so
    is every name that it writes. -/
theorem createCollectionTx_goes {name : String} {hasVector : Bool} {dimensions : Int} {references : ReferenceMap} {s : DB}
    (fresh : s.registered name = false) (targets : ∀ e ∈ references.entries, s.registered e.2.collection = true)
    (free : ∀ n ∈ ownedTables (newCollection name hasVector dimensions), s.tables n = none)
    (keys : KeysFree name references.entries s) :
    ∃ s', createCollectionTx name hasVector dimensions references s = .ok s' := by
  obtain ⟨s₁, created⟩ := createTables_goes free
  obtain ⟨-, registry, refs, -⟩ := createTables_ok created
  have dims : createTables ("coll_" ++ name) hasVector dimensions s = .ok s₁ := by
    rw [← created]
    cases hasVector <;> simp [createTables, newCollection]
  have missing : references.entries.find? (fun entry => !s.registered entry.2.collection) = none := by
    rw [List.find?_eq_none]
    intro e member
    simp [targets e member]
  have unregistered : s₁.registered name = false := by
    rw [← fresh]
    simp [DB.registered, registry]
  have inserted := insertReferences_eq name references.entries references.distinct
    { s₁ with collections := s₁.collections ++ [newCollection name hasVector dimensions] }
  have keys₁ : KeysFree name references.entries
      { s₁ with collections := s₁.collections ++ [newCollection name hasVector dimensions] } := by
    intro e member q stored
    exact keys e member q (by rw [← refs]; exact stored)
  have written := (inserted.resolve_right fun refused => refused.1 keys₁).2
  unfold newCollection at written
  unfold createCollectionTx
  simp only [fresh, Bool.false_eq_true, ↓reduceIte, missing, dims, bind, Except.bind, insertCollection, unregistered,
    Except.mapError, written]
  exact ⟨_, rfl⟩

/-- A rename relabels the registry and both ends of the references. -/
def renamed (old new : String) (s : DB) : DB :=
  { s with
    collections := s.collections.map (fun c => { c with name := relabel old new c.name }),
    references := s.references.map (fun r =>
      { r with collectionName := relabel old new r.collectionName, targetCollection := relabel old new r.targetCollection }) }

/-- Renaming the owner `old` would give two rows one key. -/
def OwnersCollide (old new : String) (s : DB) : Prop :=
  old ≠ new ∧ ∃ q ∈ s.references, ∃ r ∈ s.references,
    q.collectionName = old ∧ r.collectionName = new ∧ q.fieldName = r.fieldName

/-- The transaction of renameCollection goes through exactly when the old name is
    registered, the new one is free, and no two reference rows meet. -/
theorem renameCollectionTx_ok_iff {old new : String} {s s' : DB} :
    renameCollectionTx old new s = .ok s' ↔
      s.registered old = true ∧ (old = new ∨ s.registered new = false) ∧ ¬ OwnersCollide old new s ∧
        s' = renamed old new s := by
  unfold renameCollectionTx
  cases known : s.registered old with
  | false => simp
  | true =>
    simp only [Bool.true_eq_false, ↓reduceIte, true_and]
    by_cases clash : old ≠ new ∧ s.registered new = true
    · rw [if_pos clash]
      constructor
      · intro impossible; cases impossible
      · rintro ⟨same | free, -⟩
        · exact absurd same clash.1
        · rw [clash.2] at free; cases free
    · rw [if_neg clash]
      have available : old = new ∨ s.registered new = false := by
        by_cases same : old = new
        · exact .inl same
        · exact .inr (by simpa using fun taken => clash ⟨same, taken⟩)
      by_cases collide : OwnersCollide old new s
      · have refused : ∃ e, renameOwners old new (renameCollections old new s) = .error e :=
          ⟨_, if_pos collide⟩
        obtain ⟨e, refused⟩ := refused
        simp [refused, Except.mapError, bind, Except.bind, collide]
      · have done : renameOwners old new (renameCollections old new s) = .ok
            { renameCollections old new s with
              references := s.references.map (fun r => { r with collectionName := relabel old new r.collectionName }) } :=
          if_neg collide
        simp only [done, Except.mapError, bind, Except.bind, pure, Except.pure, Except.ok.injEq, available, collide,
          not_false_eq_true, true_and]
        have value : renameTargets old new { renameCollections old new s with
            references := s.references.map (fun r => { r with collectionName := relabel old new r.collectionName }) } =
              renamed old new s := by
          simp [renameTargets, renameCollections, renamed, Function.comp_def]
        rw [value]
        exact eq_comm

/-- Inversion of the transaction of dropCollection. -/
theorem dropCollectionTx_ok {coll : Collection} {name : String} {s s' : DB}
    (done : dropCollectionTx coll name s = .ok s') :
    ∃ t, s.find coll.tableName = some t ∧ s'.references = s.references ∧
      s'.collections = s.collections.filter (fun c => c.name ≠ name) ∧
      (∀ n, s'.tables n = s.tables n ∨ s'.tables n = none) ∧
      (∀ n, s'.tables n ≠ s.tables n → n ∈ tableNames t.kind coll.tableName ∨
        coll.hasVector = true ∧ ∃ u, s.find (ftsTableName coll.tableName) = some u ∧
          n ∈ tableNames u.kind (ftsTableName coll.tableName)) ∧
      (∀ n ∈ tableNames t.kind coll.tableName, s'.tables n = none) ∧
      (coll.hasVector = true → ∃ u, s.find (ftsTableName coll.tableName) = some u ∧
        ∀ n ∈ tableNames u.kind (ftsTableName coll.tableName), s'.tables n = none) := by
  unfold dropCollectionTx at done
  cases dropped : s.dropTable coll.tableName with
  | error e => simp [dropped, Except.mapError, bind, Except.bind] at done
  | ok s₁ =>
    obtain ⟨t, there, registry, refs, gone, others⟩ := dropTable_ok dropped
    simp only [dropped, Except.mapError, bind, Except.bind, pure, Except.pure] at done
    cases vector : coll.hasVector with
    | false =>
      simp only [vector, Bool.false_eq_true, ↓reduceIte, Except.ok.injEq] at done
      subst done
      refine ⟨t, there, refs, by simp [registry], ?_, ?_, gone, by simp⟩
      · intro n
        by_cases member : n ∈ tableNames t.kind coll.tableName
        · exact .inr (gone n member)
        · exact .inl (others n member)
      · intro n changed
        by_cases member : n ∈ tableNames t.kind coll.tableName
        · exact .inl member
        · exact absurd (others n member) changed
    | true =>
      simp only [vector, ↓reduceIte] at done
      cases dropped' : s₁.dropTable (ftsTableName coll.tableName) with
      | error e => simp [dropped'] at done
      | ok s₂ =>
        simp only [dropped', Except.ok.injEq] at done
        subst done
        obtain ⟨u, there', registry', refs', gone', others'⟩ := dropTable_ok dropped'
        -- the companion table was there before the first DROP, which only removes
        have before : s.find (ftsTableName coll.tableName) = some u := by
          by_cases member : fold (ftsTableName coll.tableName) ∈ tableNames t.kind coll.tableName
          · have missing : s₁.find (ftsTableName coll.tableName) = none := gone _ member
            rw [missing] at there'
            cases there'
          · exact (others _ member).symm.trans there'
        refine ⟨t, there, refs'.trans refs, by simp [registry', registry], ?_, ?_, ?_, fun _ => ⟨u, before, gone'⟩⟩
        · intro n
          by_cases member' : n ∈ tableNames u.kind (ftsTableName coll.tableName)
          · exact .inr (gone' n member')
          · by_cases member : n ∈ tableNames t.kind coll.tableName
            · exact .inr ((others' n member').trans (gone n member))
            · exact .inl ((others' n member').trans (others n member))
        · intro n changed
          by_cases member' : n ∈ tableNames u.kind (ftsTableName coll.tableName)
          · exact .inr ⟨rfl, u, before, member'⟩
          · by_cases member : n ∈ tableNames t.kind coll.tableName
            · exact .inl member
            · exact absurd ((others' n member').trans (others n member)) changed
        · intro n member
          by_cases member' : n ∈ tableNames u.kind (ftsTableName coll.tableName)
          · exact gone' n member'
          · exact (others' n member').trans (gone n member)

/-! ### What the transactions keep -/

/-- The registry and the tables are the same up to what the tables hold. -/
structure SameSchema (s s' : DB) : Prop where
  collections : s'.collections = s.collections
  references : s'.references = s.references
  kinds : ∀ n, (s'.tables n).map (·.kind) = (s.tables n).map (·.kind)

theorem SameSchema.refl (s : DB) : SameSchema s s := ⟨rfl, rfl, fun _ => rfl⟩

theorem SameSchema.trans {s s' s'' : DB} (first : SameSchema s s') (second : SameSchema s' s'') : SameSchema s s'' :=
  ⟨second.collections.trans first.collections, second.references.trans first.references,
    fun n => (second.kinds n).trans (first.kinds n)⟩

theorem SameSchema.symm {s s' : DB} (same : SameSchema s s') : SameSchema s' s :=
  ⟨same.collections.symm, same.references.symm, fun n => (same.kinds n).symm⟩

theorem SameSchema.set {s : DB} {table : String} {t t' : Table} (there : s.find table = some t)
    (kind : t'.kind = t.kind) : SameSchema s (s.set table t') := by
  refine ⟨rfl, rfl, ?_⟩
  intro n
  by_cases same : n = fold table
  · subst same
    have before : s.tables (fold table) = some t := there
    simp [DB.set, before, kind]
  · simp [DB.set, same]

theorem SameSchema.find {s s' : DB} (same : SameSchema s s') {table : String} {t : Table}
    (there : s.find table = some t) : ∃ t', s'.find table = some t' ∧ t'.kind = t.kind := by
  have kinds := same.kinds (fold table)
  have before : s.tables (fold table) = some t := there
  rw [before] at kinds
  exact Option.map_eq_some_iff.mp kinds

theorem SameSchema.isSome {s s' : DB} (same : SameSchema s s') (n : String) :
    (s'.tables n).isSome = (s.tables n).isSome := by
  have kinds := congrArg Option.isSome (same.kinds n)
  simpa using kinds

theorem SameSchema.lookup {s s' : DB} (same : SameSchema s s') (name : String) : s'.lookup name = s.lookup name := by
  simp [DB.lookup, same.collections]

theorem Sound.sameSchema {s s' : DB} (sound : Sound s) (same : SameSchema s s') : Sound s' where
  names := by rw [same.collections]; exact sound.names
  main := by
    rw [same.collections]
    intro c member
    obtain ⟨t, there, kind⟩ := sound.main c member
    obtain ⟨t', there', kind'⟩ := same.find there
    exact ⟨t', there', kind'.trans kind⟩
  fullText := by
    rw [same.collections]
    intro c member vector
    obtain ⟨t, there, kind⟩ := sound.fullText c member vector
    obtain ⟨t', there', kind'⟩ := same.find there
    exact ⟨t', there', kind'.trans kind⟩
  present := by
    rw [same.collections]
    intro c member n owned
    rw [same.isSome n]
    exact sound.present c member n owned
  disjoint := by rw [same.collections]; exact sound.disjoint
  belongs := by
    rw [same.collections]
    intro n t found kind
    have before := same.kinds n
    rw [found] at before
    obtain ⟨t', there, kind'⟩ := Option.map_eq_some_iff.mp before.symm
    exact sound.belongs n t' there (by rw [kind']; exact kind)

/-- A name is registered once. -/
theorem Sound.name_injective {s : DB} (sound : Sound s) {c d : Collection} (left : c ∈ s.collections)
    (right : d ∈ s.collections) (same : c.name = d.name) : c = d :=
  List.inj_on_of_nodup_map sound.names left right same

theorem Sound.lookup {s : DB} (sound : Sound s) {c : Collection} (member : c ∈ s.collections) :
    s.lookup c.name = some c := by
  cases found : s.lookup c.name with
  | none =>
    have absent := DB.lookup_none.mp found
    rw [DB.registered_iff.mpr ⟨c, member, rfl⟩] at absent
    cases absent
  | some d =>
    obtain ⟨registered, name⟩ := DB.lookup_some found
    rw [sound.name_injective registered member name]

/-- Two collections do not share their main table. -/
theorem Sound.table_injective {s : DB} (sound : Sound s) {c d : Collection} (left : c ∈ s.collections)
    (right : d ∈ s.collections) (same : fold c.tableName = fold d.tableName) : c = d := by
  by_contra different
  refine sound.disjoint c left d right different (fold c.tableName) (main_mem_owned c) ?_
  rw [same]
  exact main_mem_owned d

/-- What a collection owns is not touched by the CREATEs of another one. -/
theorem Sound.createCollectionTx_kept {name : String} {hasVector : Bool} {dimensions : Int} {references : ReferenceMap}
    {s s' : DB} (sound : Sound s) (done : createCollectionTx name hasVector dimensions references s = .ok s')
    {c : Collection} (member : c ∈ s.collections) {n : String} (owned : n ∈ ownedTables c) : s'.tables n = s.tables n := by
  obtain ⟨-, -, -, s₁, created, rfl⟩ := createCollectionTx_ok done
  obtain ⟨free, -, -, -, -, -, -, others⟩ := createTables_ok (c := newCollection name hasVector dimensions) created
  refine others n fun clash => ?_
  have there := sound.present c member n owned
  rw [free n clash] at there
  cases there

/-- createCollection keeps the registry and the tables in agreement. -/
theorem Sound.createCollectionTx {name : String} {hasVector : Bool} {dimensions : Int} {references : ReferenceMap}
    {s s' : DB} (sound : Sound s) (done : createCollectionTx name hasVector dimensions references s = .ok s') :
    Sound s' := by
  obtain ⟨fresh, -, -, s₁, created, rfl⟩ := createCollectionTx_ok done
  obtain ⟨free, registry, refs, main, fullText, taken, kinds, others⟩ :=
    createTables_ok (c := newCollection name hasVector dimensions) created
  have kept : ∀ c ∈ s.collections, ∀ n ∈ ownedTables c, n ∉ ownedTables (newCollection name hasVector dimensions) := by
    intro c member n owned clash
    have there := sound.present c member n owned
    rw [free n clash] at there
    cases there
  refine ⟨?_, ?_, ?_, ?_, ?_, ?_⟩
  · rw [List.map_append, List.nodup_append]
    refine ⟨sound.names, by simp, ?_⟩
    intro old member new last same
    obtain ⟨c, stored, rfl⟩ := List.mem_map.mp member
    have equal : new = name := by simpa [newCollection] using last
    have known : s.registered name = true := DB.registered_iff.mpr ⟨c, stored, same.trans equal⟩
    rw [fresh] at known
    cases known
  · intro c member
    rcases List.mem_append.mp member with old | new
    · obtain ⟨t, there, kind⟩ := sound.main c old
      exact ⟨t, (others _ (kept c old _ (main_mem_owned c))).trans there, kind⟩
    · rw [List.mem_singleton.mp new]
      exact ⟨_, main, rfl⟩
  · intro c member vector
    rcases List.mem_append.mp member with old | new
    · obtain ⟨t, there, kind⟩ := sound.fullText c old vector
      exact ⟨t, (others _ (kept c old _ (fullText_mem_owned vector))).trans there, kind⟩
    · rw [List.mem_singleton.mp new] at vector ⊢
      exact ⟨_, fullText vector, rfl⟩
  · intro c member n owned
    rcases List.mem_append.mp member with old | new
    · have same : s₁.tables n = s.tables n := others n (kept c old n owned)
      exact (congrArg Option.isSome same).trans (sound.present c old n owned)
    · rw [List.mem_singleton.mp new] at owned
      exact taken n owned
  · intro c left d right different n owned clash
    rcases List.mem_append.mp left with old | new
    · rcases List.mem_append.mp right with old' | new'
      · exact sound.disjoint c old d old' different n owned clash
      · rw [List.mem_singleton.mp new'] at clash
        exact kept c old n owned clash
    · rcases List.mem_append.mp right with old' | new'
      · rw [List.mem_singleton.mp new] at owned
        exact kept d old' n clash owned
      · exact different ((List.mem_singleton.mp new).trans (List.mem_singleton.mp new').symm)
  · intro n t found kind
    by_cases owned : n ∈ ownedTables (newCollection name hasVector dimensions)
    · by_cases same : n = fold (newCollection name hasVector dimensions).tableName
      · exact ⟨_, List.mem_append_right _ (List.mem_singleton.mpr rfl), same⟩
      · have shadow := kinds n owned same t found
        rcases kind with plain | ⟨dims, vector⟩
        · rw [plain] at shadow; rcases shadow with h | h <;> cases h
        · rw [vector] at shadow; rcases shadow with h | h <;> cases h
    · obtain ⟨c, member, name⟩ := sound.belongs n t ((others n owned).symm.trans found) kind
      exact ⟨c, List.mem_append_left _ member, name⟩

/-- A rename makes no two names equal but the old one and the new one. -/
theorem relabel_eq_cases {old new x y : String} (same : relabel old new x = relabel old new y) :
    x = y ∨ old ≠ new ∧ (x = old ∧ y = new ∨ x = new ∧ y = old) := by
  unfold relabel at same
  by_cases first : x = old <;> by_cases second : y = old
  · exact .inl (first.trans second.symm)
  · rw [if_pos first, if_neg second] at same
    exact .inr ⟨fun equal => second (same.symm.trans equal.symm), .inl ⟨first, same.symm⟩⟩
  · rw [if_neg first, if_pos second] at same
    exact .inr ⟨fun equal => first (same.trans equal.symm), .inr ⟨same, second⟩⟩
  · rw [if_neg first, if_neg second] at same
    exact .inl same

/-- Registered names stay apart under a rename to a free name. -/
theorem relabel_injective {s : DB} {old new x y : String} (available : old = new ∨ s.registered new = false)
    (left : s.registered x = true) (right : s.registered y = true) (same : relabel old new x = relabel old new y) : x = y := by
  rcases relabel_eq_cases same with equal | ⟨different, meet⟩
  · exact equal
  · have free := available.resolve_left different
    rcases meet with ⟨-, rfl⟩ | ⟨rfl, -⟩
    · rw [right] at free
      cases free
    · rw [left] at free
      cases free

theorem find?_congr {α : Type} {p q : α → Bool} {l : List α} (same : ∀ x ∈ l, p x = q x) : l.find? p = l.find? q := by
  induction l with
  | nil => rfl
  | cons x rest ih =>
    obtain ⟨here, later⟩ := List.forall_mem_cons.mp same
    simp only [List.find?_cons, here, ih later]

/-- A registered name is found under its new name after a rename. -/
theorem lookup_renamed {s : DB} {old new x : String} (available : old = new ∨ s.registered new = false)
    (known : s.registered x = true) :
    (renamed old new s).lookup (relabel old new x) =
      (s.lookup x).map (fun c => { c with name := relabel old new c.name }) := by
  unfold DB.lookup renamed
  rw [List.find?_map]
  congr 1
  refine find?_congr ?_
  intro c member
  simp only [Function.comp_apply, decide_eq_decide]
  constructor
  · intro equal
    exact relabel_injective available (DB.registered_iff.mpr ⟨c, member, rfl⟩) known equal
  · intro equal
    rw [equal]

/-- renameCollection keeps the registry and the tables in agreement. -/
theorem Sound.renameCollectionTx {old new : String} {s s' : DB} (sound : Sound s)
    (done : renameCollectionTx old new s = .ok s') : Sound s' := by
  obtain ⟨-, available, -, rfl⟩ := renameCollectionTx_ok_iff.mp done
  have preimage : ∀ c ∈ (renamed old new s).collections, ∃ c₀ ∈ s.collections,
      c = { c₀ with name := relabel old new c₀.name } := by
    intro c member
    obtain ⟨c₀, stored, rfl⟩ := List.mem_map.mp member
    exact ⟨c₀, stored, rfl⟩
  refine ⟨?_, ?_, ?_, ?_, ?_, ?_⟩
  · have labels : (renamed old new s).collections.map (·.name) = (s.collections.map (·.name)).map (relabel old new) := by
      simp [renamed, Function.comp_def]
    rw [labels]
    refine List.Nodup.map_on ?_ sound.names
    intro x left y right same
    obtain ⟨c, stored, rfl⟩ := List.mem_map.mp left
    obtain ⟨d, stored', rfl⟩ := List.mem_map.mp right
    exact relabel_injective available (DB.registered_iff.mpr ⟨c, stored, rfl⟩) (DB.registered_iff.mpr ⟨d, stored', rfl⟩) same
  · intro c member
    obtain ⟨c₀, stored, rfl⟩ := preimage c member
    exact sound.main c₀ stored
  · intro c member
    obtain ⟨c₀, stored, rfl⟩ := preimage c member
    exact sound.fullText c₀ stored
  · intro c member
    obtain ⟨c₀, stored, rfl⟩ := preimage c member
    exact sound.present c₀ stored
  · intro c left d right different
    obtain ⟨c₀, stored, rfl⟩ := preimage c left
    obtain ⟨d₀, stored', rfl⟩ := preimage d right
    exact sound.disjoint c₀ stored d₀ stored' (by rintro rfl; exact different rfl)
  · intro n t found kind
    obtain ⟨c, member, name⟩ := sound.belongs n t found kind
    exact ⟨{ c with name := relabel old new c.name }, List.mem_map.mpr ⟨c, member, rfl⟩, name⟩

theorem tableNames_congr {kind : TableKind} {table other : String} (same : fold table = fold other) :
    tableNames kind table = tableNames kind other := by
  cases kind <;> simp [tableNames, shadows, same]

theorem ftsTableName_congr {table other : String} (same : fold table = fold other) :
    fold (ftsTableName table) = fold (ftsTableName other) := by
  simp [ftsTableName, same]

/-- What the DROPs for the registry row `coll` remove belongs to the collection
    that is now registered as `name`. -/
def DropsOwn (coll : Collection) (name : String) (s : DB) : Prop :=
  ∃ c, s.lookup name = some c ∧ fold c.tableName = fold coll.tableName ∧
    (coll.hasVector = true → c.hasVector = true ∨
      ∀ u, s.find (ftsTableName coll.tableName) = some u →
        ∀ n ∈ tableNames u.kind (ftsTableName coll.tableName), ∀ d ∈ s.collections, n ∉ ownedTables d)

/-- What another collection owns is not touched by the DROPs of a collection. -/
theorem Sound.dropCollectionTx_kept {coll : Collection} {name : String} {s s' : DB} (sound : Sound s)
    (own : DropsOwn coll name s) (done : dropCollectionTx coll name s = .ok s') {d : Collection}
    (member : d ∈ s.collections) (other : d.name ≠ name) {n : String} (owned : n ∈ ownedTables d) :
    s'.tables n = s.tables n := by
  obtain ⟨c, found, table, companion⟩ := own
  obtain ⟨registered, named⟩ := DB.lookup_some found
  obtain ⟨t, there, -, -, -, removed, -⟩ := dropCollectionTx_ok done
  have different : d ≠ c := fun same => other (same ▸ named)
  have main : t.kind = mainKind c := by
    obtain ⟨t', there', kind⟩ := sound.main c registered
    have equal : some t' = some t := by
      rw [← there', ← there]
      unfold DB.find
      rw [table]
    cases equal
    exact kind
  by_contra changed
  rcases removed n changed with first | ⟨vector, u, before, second⟩
  · rw [main, tableNames_congr table.symm] at first
    exact sound.disjoint d member c registered different n owned (List.mem_append_left _ first)
  · rcases companion vector with both | apart
    · obtain ⟨u', there', kind⟩ := sound.fullText c registered both
      have equal : some u' = some u := by
        rw [← there', ← before]
        unfold DB.find
        rw [ftsTableName_congr table]
      cases equal
      rw [kind, tableNames_congr (ftsTableName_congr table).symm] at second
      refine sound.disjoint d member c registered different n owned ?_
      simp only [ownedTables, both, ↓reduceIte]
      exact List.mem_append_right _ second
    · exact apart u before n second d member owned

/-- A registered collection can be dropped. -/
theorem Sound.dropCollectionTx_goes {coll : Collection} {s : DB} (sound : Sound s) (name : String)
    (registered : coll ∈ s.collections) : ∃ s', dropCollectionTx coll name s = .ok s' := by
  obtain ⟨t, there, kind⟩ := sound.main coll registered
  obtain ⟨s₁, dropped⟩ := dropTable_goes there
  unfold Statements.dropCollectionTx
  simp only [dropped, Except.mapError, bind, Except.bind, pure, Except.pure]
  cases vector : coll.hasVector with
  | false => exact ⟨_, rfl⟩
  | true =>
    obtain ⟨u, companion, -⟩ := sound.fullText coll registered vector
    obtain ⟨t', there', -, -, -, others⟩ := dropTable_ok dropped
    have same : t = t' := Option.some.inj (there.symm.trans there')
    have left : s₁.find (ftsTableName coll.tableName) = some u := by
      rw [← companion]
      refine others _ fun main => ?_
      rw [← same, kind, mainKind, if_pos vector] at main
      exact fullText_apart main (mem_tableNames_main _ _)
    obtain ⟨s₂, dropped'⟩ := dropTable_goes left
    simp only [dropped', ↓reduceIte]
    exact ⟨_, rfl⟩

/-- dropCollection keeps the registry and the tables in agreement, as long as
    what it drops is the collection it takes out of the registry. -/
theorem Sound.dropCollectionTx {coll : Collection} {name : String} {s s' : DB} (sound : Sound s)
    (own : DropsOwn coll name s) (done : dropCollectionTx coll name s = .ok s') : Sound s' := by
  have untouched : ∀ d ∈ s.collections, d.name ≠ name → ∀ n ∈ ownedTables d, s'.tables n = s.tables n :=
    fun d member other n owned => sound.dropCollectionTx_kept own done member other owned
  obtain ⟨c, found, table, -⟩ := own
  obtain ⟨registered, named⟩ := DB.lookup_some found
  obtain ⟨t, there, -, registry, removes, -, gone, -⟩ := dropCollectionTx_ok done
  have kept : ∀ d ∈ s.collections, d ≠ c → ∀ n ∈ ownedTables d, s'.tables n = s.tables n :=
    fun d member different =>
      untouched d member fun same => different (sound.name_injective member registered (same.trans named.symm))
  have remains : ∀ d, d ∈ s'.collections ↔ d ∈ s.collections ∧ d ≠ c := by
    intro d
    rw [registry]
    simp only [List.mem_filter, decide_eq_true_eq]
    constructor
    · rintro ⟨member, other⟩
      exact ⟨member, fun same => other (same ▸ named)⟩
    · rintro ⟨member, different⟩
      exact ⟨member, fun same => different (sound.name_injective member registered (same.trans named.symm))⟩
  refine ⟨?_, ?_, ?_, ?_, ?_, ?_⟩
  · rw [registry]
    exact sound.names.sublist (List.filter_sublist.map _)
  · intro d member
    obtain ⟨stored, different⟩ := (remains d).mp member
    obtain ⟨u, there', kind⟩ := sound.main d stored
    exact ⟨u, (kept d stored different _ (main_mem_owned d)).trans there', kind⟩
  · intro d member vector
    obtain ⟨stored, different⟩ := (remains d).mp member
    obtain ⟨u, there', kind⟩ := sound.fullText d stored vector
    exact ⟨u, (kept d stored different _ (fullText_mem_owned vector)).trans there', kind⟩
  · intro d member n owned
    obtain ⟨stored, different⟩ := (remains d).mp member
    rw [kept d stored different n owned]
    exact sound.present d stored n owned
  · intro d left e right different
    exact sound.disjoint d ((remains d).mp left).1 e ((remains e).mp right).1 different
  · intro n u there' kind
    rcases removes n with same | none
    · obtain ⟨d, stored, named'⟩ := sound.belongs n u (same.symm.trans there') kind
      refine ⟨d, (remains d).mpr ⟨stored, ?_⟩, named'⟩
      rintro rfl
      have missing : s'.tables n = none := by
        rw [named', table]
        exact gone _ (mem_tableNames_main _ _)
      rw [missing] at there'
      cases there'
    · rw [none] at there'
      cases there'

end Microserver.Schema
