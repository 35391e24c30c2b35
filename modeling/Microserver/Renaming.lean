import Microserver.DeclaredReferences
import Microserver.Queries

/-!
A rename as a relabelling of everything that can be observed. renameCollection
rewrites a name wherever it stands, so what it does to rows that carry the new
name already decides whether anything but the name changes.
-/
namespace Microserver.Renaming
open Microserver.Values Microserver.Store Microserver.Programs Microserver.Statements Microserver.Operations Microserver.Queries
open Microserver.Schema Microserver.Histories Microserver.Reachable Microserver.DeclaredReferences

/-- What an operation answers when nothing fails. -/
def answer (h : Host) {α : Type} (op : Op α) (s : DB) : Except Err α := ((machine h).eval op s).1

/-- The database after an operation in which nothing fails. -/
def next (h : Host) {α : Type} (op : Op α) (s : DB) : DB := ((machine h).eval op s).2

/-- An operation on the collection that has a name now. -/
def onNamed {α : Type} (name : String) (op : Collection → Op α) : Op α := do
  let coll ← getCollection name
  op coll

/-- Two answers that are lists have the same elements, up to `f`. -/
def SameUpTo {α : Type} (f : α → α) (before after : Except Err (List α)) : Prop :=
  ∃ xs ys, before = .ok xs ∧ after = .ok ys ∧ ys.Perm (xs.map f)

/-- Renaming `old` to `new` succeeds, changes every observation by the new name
    only, and is undone by renaming back. -/
structure PureRelabelling (h : Host) (old new : String) (s : DB) : Prop where
  succeeds : answer h (renameCollection old new) s = .ok ()
  collection : ∀ n, s.registered n = true →
    answer h (getCollection (relabel old new n)) (next h (renameCollection old new) s) =
      (answer h (getCollection n) s).map (fun c => { c with name := relabel old new c.name })
  item : ∀ n, s.registered n = true → ∀ id,
    answer h (onNamed (relabel old new n) fun coll => getDocumentByID coll id) (next h (renameCollection old new) s) =
      answer h (onNamed n fun coll => getDocumentByID coll id) s
  listing : ∀ n, s.registered n = true → ∀ limit offset filters sort,
    answer h (onNamed (relabel old new n) fun coll => listDocuments coll limit offset filters sort)
        (next h (renameCollection old new) s) =
      answer h (onNamed n fun coll => listDocuments coll limit offset filters sort) s
  references : ∀ n, s.registered n = true →
    SameUpTo (fun r => { r with collection := relabel old new r.collection }) (answer h (getReferences n) s)
      (answer h (getReferences (relabel old new n)) (next h (renameCollection old new) s))
  targeting : ∀ n, s.registered n = true →
    SameUpTo (fun d => { d with collectionName := relabel old new d.collectionName }) (answer h (getReferencesTargeting n) s)
      (answer h (getReferencesTargeting (relabel old new n)) (next h (renameCollection old new) s))
  undone : answer h (renameCollection new old) (next h (renameCollection old new) s) = .ok () ∧
    next h (renameCollection new old) (next h (renameCollection old new) s) = s

variable {h : Host} {s s' : DB} {old new n : String}

/-! ### What the operations answer -/

theorem renameCollection_eval (valid : collectionNameRe new = true) (h : Host) (s : DB) :
    (∃ s', renameCollectionTx old new s = .ok s' ∧ (machine h).eval (renameCollection old new) s = (.ok (), s')) ∨
      ∃ e, renameCollectionTx old new s = .error e ∧ (machine h).eval (renameCollection old new) s = (.error e, s) := by
  have program : renameCollection old new = .call id (.renameCollection old new) := by simp [renameCollection, valid]
  rw [program]
  cases done : renameCollectionTx old new s with
  | ok s' => exact .inl ⟨s', rfl, run_committed rfl done rfl⟩
  | error e => exact .inr ⟨e, rfl, run_refused rfl done rfl⟩

theorem answer_onNamed {α : Type} {op : Collection → Op α} :
    answer h (onNamed n op) s =
      match s.lookup n with
      | none => .error .collectionNotFound
      | some coll => answer h (op coll) s := by
  have lookup : (machine h).exec (.read fun _ s => .ok (s.lookup n)) s = .ok (s.lookup n, s) := rfl
  cases found : s.lookup n with
  | none =>
    rw [found] at lookup
    exact congrArg Prod.fst ((machine h).eval_ok lookup)
  | some coll =>
    rw [found] at lookup
    exact congrArg Prod.fst ((machine h).eval_ok lookup)

theorem answer_getCollection :
    answer h (getCollection n) s =
      match s.lookup n with
      | none => .error .collectionNotFound
      | some coll => .ok coll := by
  have lookup : (machine h).exec (.read fun _ s => .ok (s.lookup n)) s = .ok (s.lookup n, s) := rfl
  cases found : s.lookup n with
  | none =>
    rw [found] at lookup
    exact congrArg Prod.fst ((machine h).eval_ok lookup)
  | some coll =>
    rw [found] at lookup
    exact congrArg Prod.fst ((machine h).eval_ok lookup)

theorem answer_read {α : Type} {context : Err → Err} {query : Host → DB → Except Err α} :
    answer h (.call context (.read query)) s = (query h s).mapError context := by
  cases result : query h s with
  | error e =>
    have refused : (machine h).exec (.read query) s = .error e := by simp [machine, Stmt.exec, result, Except.map]
    exact congrArg Prod.fst ((machine h).eval_error refused)
  | ok a =>
    have read : (machine h).exec (.read query) s = .ok (a, s) := by simp [machine, Stmt.exec, result, Except.map]
    exact congrArg Prod.fst ((machine h).eval_ok read)

theorem answer_getDocumentByID {coll : Collection} {id : Int} :
    answer h (getDocumentByID coll id) s =
      match s.rowById coll.tableName coll.hasVector id with
      | .error e => .error (.wrapped "getting document" e)
      | .ok none => .error .documentNotFound
      | .ok (some r) => .ok ⟨r.id, if coll.hasVector then r.text else "", r.data, none⟩ := by
  have exec : (machine h).exec (.read fun _ s => s.rowById coll.tableName coll.hasVector id) s =
      (s.rowById coll.tableName coll.hasVector id).map (fun found => (found, s)) := rfl
  cases found : s.rowById coll.tableName coll.hasVector id with
  | error e =>
    rw [found] at exec
    exact congrArg Prod.fst ((machine h).eval_error exec)
  | ok row =>
    rw [found] at exec
    cases row <;> exact congrArg Prod.fst ((machine h).eval_ok exec)

/-- An operation that reads the tables answers alike under the new name. -/
theorem answer_renamed {α : Type} {op : Collection → Op α} (available : old = new ∨ s.registered new = false)
    (known : s.registered n = true) (same : ∀ coll name, answer h (op { coll with name := name }) (renamed old new s) = answer h (op coll) s) :
    answer h (onNamed (relabel old new n) op) (renamed old new s) = answer h (onNamed n op) s := by
  rw [answer_onNamed, answer_onNamed, lookup_renamed available known]
  cases s.lookup n with
  | none => rfl
  | some coll => exact same coll _

/-! ### Names that no row mentions -/

theorem relabel_eq_new_iff : relabel old new n = new ↔ n = old ∨ n = new := by
  unfold relabel
  by_cases same : n = old
  · simp [same]
  · simp [same]

theorem relabel_back (unused : n ≠ new) : relabel new old (relabel old new n) = n := by
  unfold relabel
  by_cases same : n = old
  · simp [same]
  · simp [same, unused]

theorem relabel_cancel {m : String} (left : m ≠ new) (right : n ≠ new) : relabel old new m = relabel old new n ↔ m = n := by
  constructor
  · intro same
    rw [← relabel_back left, same, relabel_back right]
  · rintro rfl
    rfl

/-- With the new name mentioned nowhere, a rename back restores the database. -/
theorem renamed_back (free : s.registered new = false) (unmentioned : Unmentioned s new) :
    renamed new old (renamed old new s) = s := by
  have collections : ∀ c ∈ s.collections, relabel new old (relabel old new c.name) = c.name := by
    intro c member
    refine relabel_back ?_
    rintro rfl
    rw [DB.registered_iff.mpr ⟨c, member, rfl⟩] at free
    cases free
  have references : ∀ r ∈ s.references, relabel new old (relabel old new r.collectionName) = r.collectionName ∧
      relabel new old (relabel old new r.targetCollection) = r.targetCollection :=
    fun r stored => ⟨relabel_back (unmentioned r stored).1, relabel_back (unmentioned r stored).2⟩
  obtain ⟨cs, rs, ts⟩ := s
  simp only [renamed, List.map_map, DB.mk.injEq, and_true]
  constructor
  · rw [List.map_congr_left (g := id)]
    · exact List.map_id cs
    · intro c member
      simp only [Function.comp_apply, collections c member, id]
  · rw [List.map_congr_left (g := id)]
    · exact List.map_id rs
    · intro r stored
      simp only [Function.comp_apply, references r stored, id]

/-! ### The rows that a name selects -/

section Rows
variable {rows : List ReferenceRow} (key : ReferenceRow → String) {f : ReferenceRow → ReferenceRow}
  (relabels : ∀ r, key (f r) = relabel old new (key r))
include relabels

/-- The new name selects the rows that the old one selected. -/
theorem selected_renamed (unused : ∀ r ∈ rows, key r ≠ new) (known : n ≠ new) :
    (rows.map f).filter (fun r => key r = relabel old new n) = (rows.filter (fun r => key r = n)).map f := by
  rw [List.filter_map]
  congr 1
  refine List.filter_congr fun r member => ?_
  simp only [Function.comp_apply, relabels, decide_eq_decide]
  exact relabel_cancel (unused r member) known

/-- It selects no more rows only if none carried it before. -/
theorem unused_of_selected (different : old ≠ new)
    (lengths : ((rows.map f).filter (fun r => key r = relabel old new old)).length = (rows.filter (fun r => key r = old)).length) :
    ∀ r ∈ rows, key r ≠ new := by
  intro r member carries
  have own := filter_same (l := rows) (p := fun r => decide (key r = old ∨ key r = new)) (q := fun r => decide (key r = old)) ?_ ?_
    r member (by simp [carries])
  · exact different ((decide_eq_true_eq.mp own).symm.trans carries)
  · intro q _ same
    simp [decide_eq_true_eq.mp same]
  · rw [← lengths, List.filter_map, List.length_map]
    have first : relabel old new old = new := if_pos rfl
    refine congrArg List.length (List.filter_congr fun q _ => ?_)
    simp only [Function.comp_apply, relabels, first, relabel_eq_new_iff]

end Rows

/-- Two answers read off rows that a rename has carried along. -/
theorem sameUpTo_visited {α : Type} {rows : List ReferenceRow} {f : ReferenceRow → ReferenceRow} {read : ReferenceRow → α}
    {g : α → α} (carried : ∀ r, read (f r) = g (read r)) :
    SameUpTo g (.ok ((h.visit rows).map read)) (.ok ((h.visit (rows.map f)).map read)) := by
  refine ⟨_, _, rfl, rfl, ?_⟩
  have after := (h.visit_perm (rows.map f)).map read
  have before := ((h.visit_perm rows).map read).map g
  refine after.trans (List.Perm.trans (.of_eq ?_) before.symm)
  rw [List.map_map, List.map_map]
  exact List.map_congr_left fun r _ => carried r

theorem length_of_sameUpTo {α : Type} {xs ys : List α} {g : α → α} (same : SameUpTo g (.ok xs) (.ok ys)) :
    ys.length = xs.length := by
  obtain ⟨_, _, first, second, perm⟩ := same
  cases first
  cases second
  simpa using perm.length_eq

theorem length_visited {α : Type} {rows : List ReferenceRow} {read : ReferenceRow → α} :
    ((h.visit rows).map read).length = rows.length := by
  rw [List.length_map, (h.visit_perm rows).length_eq]

/-! ### The relabelling -/

/-- Under a name that no row mentions, a rename changes the name and nothing else. -/
theorem pureRelabelling_of_unmentioned (names : ∀ c ∈ s.collections, collectionNameRe c.name = true)
    (valid : collectionNameRe new = true) (registered : s.registered old = true) (free : s.registered new = false)
    (unmentioned : Unmentioned s new) : PureRelabelling h old new s := by
  have different : old ≠ new := by
    rintro rfl
    rw [registered] at free
    cases free
  have known (n : String) (there : s.registered n = true) : n ≠ new := by
    rintro rfl
    rw [there] at free
    cases free
  have goes : renameCollectionTx old new s = .ok (renamed old new s) := by
    refine renameCollectionTx_ok_iff.mpr ⟨registered, .inr free, ?_, rfl⟩
    rintro ⟨-, q, -, r, stored, -, owner, -⟩
    exact (unmentioned r stored).1 owner
  have ran : (machine h).eval (renameCollection old new) s = (.ok (), renamed old new s) := by
    rcases renameCollection_eval valid h s with ⟨s', done, ran⟩ | ⟨e, refused, -⟩
    · rw [ran, Except.ok.inj (done.symm.trans goes)]
    · rw [goes] at refused
      cases refused
  have after : next h (renameCollection old new) s = renamed old new s := congrArg Prod.snd ran
  have back : renameCollectionTx new old (renamed old new s) = .ok s := by
    refine renameCollectionTx_ok_iff.mpr ⟨?_, .inr ?_, ?_, (renamed_back free unmentioned).symm⟩
    · obtain ⟨c, member, named⟩ := DB.registered_iff.mp registered
      refine DB.registered_iff.mpr ⟨_, List.mem_map.mpr ⟨c, member, rfl⟩, ?_⟩
      exact if_pos named
    · rw [Bool.eq_false_iff]
      intro still
      obtain ⟨c, member, named⟩ := DB.registered_iff.mp still
      obtain ⟨c₀, -, rfl⟩ := List.mem_map.mp member
      have fixed : relabel old new c₀.name = old := named
      unfold relabel at fixed
      split at fixed
      · exact different fixed.symm
      · contradiction
    · rintro ⟨-, -, -, r, stored, -, owner, -⟩
      obtain ⟨r₀, -, rfl⟩ := List.mem_map.mp stored
      have fixed : relabel old new r₀.collectionName = old := owner
      unfold relabel at fixed
      split at fixed
      · exact different fixed.symm
      · contradiction
  have undone : (machine h).eval (renameCollection new old) (renamed old new s) = (.ok (), s) := by
    obtain ⟨c, member, named⟩ := DB.registered_iff.mp registered
    have validOld : collectionNameRe old = true := named ▸ names c member
    rcases renameCollection_eval validOld h (renamed old new s) with ⟨s', done, ran⟩ | ⟨e, refused, -⟩
    · rw [ran, Except.ok.inj (done.symm.trans back)]
    · rw [back] at refused
      cases refused
  refine ⟨congrArg Prod.fst ran, ?_, ?_, ?_, ?_, ?_, ?_⟩
  · intro n there
    rw [after, answer_getCollection, answer_getCollection, lookup_renamed (.inr free) there]
    cases s.lookup n <;> rfl
  · intro n there id
    rw [after]
    refine answer_renamed (.inr free) there fun coll name => ?_
    rw [answer_getDocumentByID, answer_getDocumentByID]
    rfl
  · intro n there limit offset filters sort
    rw [after]
    refine answer_renamed (.inr free) there fun coll name => ?_
    rw [listDocuments, listDocuments, answer_read, answer_read]
    rfl
  · intro n there
    rw [after]
    have rows : (renamed old new s).owned (relabel old new n) = (s.owned n).map (fun r => { r with
        collectionName := relabel old new r.collectionName, targetCollection := relabel old new r.targetCollection }) :=
      selected_renamed (fun r => r.collectionName) (fun _ => rfl) (fun r stored => (unmentioned r stored).1) (known n there)
    have answered : answer h (getReferences (relabel old new n)) (renamed old new s) = .ok ((h.visit
        ((renamed old new s).owned (relabel old new n))).map fun r => ⟨r.fieldName, r.targetCollection, r.onDelete⟩) := rfl
    rw [answered, rows]
    exact sameUpTo_visited fun _ => rfl
  · intro n there
    rw [after]
    have rows : (renamed old new s).targeting (relabel old new n) = (s.targeting n).map (fun r => { r with
        collectionName := relabel old new r.collectionName, targetCollection := relabel old new r.targetCollection }) :=
      selected_renamed (fun r => r.targetCollection) (fun _ => rfl) (fun r stored => (unmentioned r stored).2) (known n there)
    have answered : answer h (getReferencesTargeting (relabel old new n)) (renamed old new s) = .ok ((h.visit
        ((renamed old new s).targeting (relabel old new n))).map fun r => ⟨r.collectionName, r.fieldName, r.onDelete⟩) := rfl
    rw [answered, rows]
    exact sameUpTo_visited fun _ => rfl
  · rw [after]
    exact ⟨congrArg Prod.fst undone, congrArg Prod.snd undone⟩

/-- A rename that changes nothing but the name finds no row that mentions the new one. -/
theorem PureRelabelling.unmentioned (pure : PureRelabelling h old new s) (valid : collectionNameRe new = true)
    (registered : s.registered old = true) (free : s.registered new = false) : Unmentioned s new := by
  have different : old ≠ new := by
    rintro rfl
    rw [registered] at free
    cases free
  have after : next h (renameCollection old new) s = renamed old new s := by
    rcases renameCollection_eval valid h s with ⟨s', done, ran⟩ | ⟨e, -, ran⟩
    · obtain ⟨-, -, -, same⟩ := renameCollectionTx_ok_iff.mp done
      rw [next, ran, same]
    · have succeeds := pure.succeeds
      rw [answer, ran] at succeeds
      cases succeeds
  have owners := pure.references old registered
  have targets := pure.targeting old registered
  rw [after] at owners targets
  have ownersLength := length_of_sameUpTo owners
  have targetsLength := length_of_sameUpTo targets
  rw [length_visited, length_visited] at ownersLength targetsLength
  intro r stored
  exact ⟨unused_of_selected (fun r => r.collectionName) (fun _ => rfl) different ownersLength r stored,
    unused_of_selected (fun r => r.targetCollection) (fun _ => rfl) different targetsLength r stored⟩

/-- In every state that calls reach, a rename of a registered collection to a
    valid free name is a pure relabelling exactly when no row mentions the name. -/
theorem rename_relabels_iff (h : Host) (calls : List (Call × List Bool)) (old new : String)
    (registered : (reached h calls).registered old = true) (free : (reached h calls).registered new = false)
    (valid : collectionNameRe new = true) :
    PureRelabelling h old new (reached h calls) ↔ Unmentioned (reached h calls) new :=
  ⟨fun pure => pure.unmentioned valid registered free,
    pureRelabelling_of_unmentioned (reached_names h calls) valid registered free⟩

/-- Two collections, the second with a reference to the first, and an item in each. -/
def twoCollections : List (Call × List Bool) :=
  [(.createCollection "t" false 0 ⟨[], List.nodup_nil⟩, []),
    (.createCollection "c" false 0 ⟨[("f", ⟨"t", ""⟩)], List.nodup_singleton "f"⟩, []),
    (.insertDocument "t" none "" none, []),
    (.insertDocument "c" none "" (some (.obj [("f", .int 1)])), [])]

theorem rename_relabels_target :
    PureRelabelling Host.uniform "t" "u" (reached Host.uniform twoCollections) ↔
      Unmentioned (reached Host.uniform twoCollections) "u" :=
  rename_relabels_iff Host.uniform twoCollections "t" "u" (by decide) (by decide) (by decide)

/-- After a drop the collection that takes the name takes the dropped one's reference. -/
theorem rename_takes_old_reference :
    ¬ ∀ (h : Host) (calls : List (Call × List Bool)) (old new : String), (reached h calls).registered old = true →
      (reached h calls).registered new = false → collectionNameRe new = true → PureRelabelling h old new (reached h calls) := by
  intro all
  have pure := all Host.uniform (twoCollections ++ [(.dropCollection "c", [])]) "t" "c" (by decide) (by decide)
    (by decide)
  have mentioned : ¬ Unmentioned (reached Host.uniform (twoCollections ++ [(.dropCollection "c", [])])) "c" := by
    unfold Unmentioned
    decide
  exact mentioned (pure.unmentioned (by decide) (by decide) (by decide))

end Microserver.Renaming
