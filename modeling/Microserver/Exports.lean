import Microserver.Paging
import Microserver.Interleaving
import Microserver.Evaluations
import Microserver.Queries
import Microserver.Requests

/-!
The export of a collection: pages of listDocuments until one is not full. Each
page is one query, so writes can come between them; the pages fit together as
long as, up to the last item listed, the collection has as many items as the
offset skips.
-/
namespace Microserver.Exports
open Microserver.Values Microserver.Store Microserver.Programs Microserver.Interleaving Microserver.Statements
open Microserver.Operations Microserver.Items Microserver.Queries Microserver.Ranking Microserver.Paging Microserver.Requests
open Microserver.Evaluations

def maxListLimit : Nat := 1000

/-- The loop of handleExportDocuments between two pages, and its ends. -/
inductive Pages
  | paging (offset : Nat) (all : List Document)
  | done (all : List Document)
  | failed (e : Err)

/-- One page; `faulty` makes its query fail from outside. -/
def Pages.step (h : Host) (coll : Collection) (faulty : Bool) (s : DB) : Pages → Pages
  | .paging offset all =>
    match ((machine h).run (listDocuments coll maxListLimit offset [] none) [faulty] s).1 with
    | .error e => .failed e
    | .ok batch =>
      if batch.length < maxListLimit then .done (all ++ batch) else .paging (offset + maxListLimit) (all ++ batch)
  | ended => ended

/-- What is written at the end. -/
def Pages.reply : Pages → Option (Written (List Document))
  | .paging .. => none
  | .done all => some (.json 200 all)
  | .failed e => some (.error 500 e.error)

/-- The handler after `pages` pages without writes and failures in between; none
    while it is not at its end. -/
def handleExportDocuments (h : Host) (name : String) (pages : Nat) (s : DB) : Option (Written (List Document)) :=
  match ((machine h).eval (getCollection name) s).1 with
  | .error e => some (if e.is .collectionNotFound then .error 404 "collection not found" else .error 500 e.error)
  | .ok coll => (Nat.iterate (Pages.step h coll false s) pages (.paging 0 [])).reply

/-! ### One page -/

section Page
variable {h : Host} {coll : Collection} {s : DB}

/-- A row as listDocuments returns it. -/
def document (coll : Collection) (r : Row) : Document := ⟨r.id, if coll.hasVector then r.text else "", r.data, none⟩

@[simp] theorem document_id (coll : Collection) (r : Row) : (document coll r).id = r.id := rfl

theorem scan_all (n : Nat) (rows : List Row) : scan h [] n rows = .ok (rows.take n) := by
  induction rows generalizing n with
  | nil => cases n <;> rfl
  | cons r rest ih =>
    cases n with
    | zero => rfl
    | succ n => simp [scan, ih, Except.map]

/-- A page of the rows that the query finds. -/
theorem listQuery_rows {t : Table} (there : s.docs coll.tableName = .ok t) (columns : (coll.hasVector && t.kind = .plain) = false)
    (limit offset : Nat) (filters : List FilterCondition) (sort : Option SortSpec) :
    listQuery coll limit offset filters sort h s =
      (listRows h t limit offset filters sort).map fun rows => ((rows.drop offset).take limit).map (document coll) := by
  have nonnegative : ¬ (limit : Int) < 0 := by omega
  unfold listQuery
  simp only [there, columns, Bool.false_eq_true, ↓reduceIte, limitRows, if_neg nonnegative, Int.toNat_natCast]
  rfl

theorem listQuery_of_rows {t : Table} (there : s.docs coll.tableName = .ok t)
    (columns : (coll.hasVector && t.kind = .plain) = false) {limit offset : Nat} {filters : List FilterCondition}
    {sort : Option SortSpec} {page : List Row}
    (listing : (listRows h t limit offset filters sort).map (fun rows => (rows.drop offset).take limit) = .ok page) :
    listQuery coll limit offset filters sort h s = .ok (page.map (document coll)) := by
  rw [listQuery_rows there columns]
  cases found : listRows h t limit offset filters sort with
  | error e => simp [found, Except.map] at listing
  | ok rows =>
    rw [found] at listing
    exact congrArg Except.ok (congrArg (List.map (document coll)) (Except.ok.inj listing))

/-- Without filters the listing is a page of the items in the order of their ids. -/
theorem listQuery_eq {t : Table} (there : s.docs coll.tableName = .ok t)
    (columns : (coll.hasVector && t.kind = .plain) = false) (limit offset : Nat) :
    listQuery coll limit offset [] none h s =
      .ok ((((sortBy (·.id) t.rows).drop offset).take limit).map (document coll)) := by
  refine listQuery_of_rows there columns ?_
  unfold listRows
  by_cases plain : t.kind = .plain ∧ 0 ≤ (limit : Int)
  · simp only [if_pos plain, Int.toNat_natCast, scan_all, Except.map]
    rw [List.drop_take, Nat.add_sub_cancel_left, List.take_take, Nat.min_self]
  · simp only [if_neg plain]
    simp [filterWhere, Except.map]

theorem listQuery_ok {limit offset : Nat} {batch : List Document}
    (listed : listQuery coll limit offset [] none h s = .ok batch) :
    ∃ t, s.docs coll.tableName = .ok t ∧
      batch = (((sortBy (·.id) t.rows).drop offset).take limit).map (document coll) := by
  cases there : s.docs coll.tableName with
  | error e => simp [listQuery, there] at listed
  | ok t =>
    cases columns : (coll.hasVector && t.kind = .plain) with
    | true => simp [listQuery, there, columns] at listed
    | false =>
      rw [listQuery_eq there columns, Except.ok.injEq] at listed
      exact ⟨t, rfl, listed.symm⟩

theorem run_listDocuments (faulty : Bool) (limit offset : Nat) :
    ((machine h).run (listDocuments coll limit offset [] none) [faulty] s).1 =
      if faulty then .error (.wrapped "listing documents" (machine h).fault)
      else (listQuery coll limit offset [] none h s).mapError (.wrapped "listing documents") := by
  cases faulty with
  | true => rfl
  | false =>
    cases listed : listQuery coll limit offset [] none h s with
    | error e =>
      have refused : (machine h).exec (.read (listQuery coll limit offset [] none)) s = .error e := by
        simp [machine, Stmt.exec, listed, Except.map]
      exact congrArg Prod.fst ((machine h).run_error rfl refused)
    | ok batch =>
      have read : (machine h).exec (.read (listQuery coll limit offset [] none)) s = .ok (batch, s) := by
        simp [machine, Stmt.exec, listed, Except.map]
      exact congrArg Prod.fst ((machine h).run_ok rfl read)

/-- The pages end or go on by what the query returns. -/
theorem step_paging (h : Host) (coll : Collection) (s : DB) (offset : Nat) (all : List Document) (faulty : Bool) :
    (∃ e, Pages.step h coll faulty s (.paging offset all) = .failed e) ∨
    ∃ t batch, s.docs coll.tableName = .ok t ∧
      batch = (((sortBy (·.id) t.rows).drop offset).take maxListLimit).map (document coll) ∧
      Pages.step h coll faulty s (.paging offset all) =
        if batch.length < maxListLimit then .done (all ++ batch) else .paging (offset + maxListLimit) (all ++ batch) := by
  simp only [Pages.step, run_listDocuments]
  cases faulty with
  | true => exact .inl ⟨_, rfl⟩
  | false =>
    cases listed : listQuery coll maxListLimit offset [] none h s with
    | error e => exact .inl ⟨_, rfl⟩
    | ok batch =>
      obtain ⟨t, there, same⟩ := listQuery_ok listed
      exact .inr ⟨t, batch, there, same, rfl⟩

/-- Without writes in between the pages come to an end, with all items. -/
theorem pages_end {t : Table} (there : s.docs coll.tableName = .ok t) (columns : (coll.hasVector && t.kind = .plain) = false)
    (offset : Nat) : ∃ pages, Nat.iterate (Pages.step h coll false s) pages
      (.paging offset (((sortBy (·.id) t.rows).map (document coll)).take offset)) =
        .done ((sortBy (·.id) t.rows).map (document coll)) := by
  have stepped (offset : Nat) (all : List Document) : Pages.step h coll false s (.paging offset all) =
      if ((((sortBy (·.id) t.rows).map (document coll)).drop offset).take maxListLimit).length < maxListLimit then
        .done (all ++ (((sortBy (·.id) t.rows).map (document coll)).drop offset).take maxListLimit)
      else .paging (offset + maxListLimit) (all ++ (((sortBy (·.id) t.rows).map (document coll)).drop offset).take maxListLimit) := by
    simp only [Pages.step, run_listDocuments, listQuery_eq there columns, Except.mapError, List.map_drop, List.map_take]
    rfl
  generalize (sortBy (·.id) t.rows).map (document coll) = docs at stepped
  induction remaining : docs.length - offset using Nat.strong_induction_on generalizing offset with
  | _ n ih =>
    by_cases last : ((docs.drop offset).take maxListLimit).length < maxListLimit
    · refine ⟨1, ?_⟩
      rw [Function.iterate_succ_apply, Function.iterate_zero_apply, stepped, if_pos last, ← List.take_add]
      rw [List.length_take, List.length_drop] at last
      have everything : docs.length ≤ offset + maxListLimit := by omega
      rw [List.take_of_length_le everything]
    · have shorter : docs.length - (offset + maxListLimit) < n := by
        rw [List.length_take, List.length_drop] at last
        have positive : 0 < maxListLimit := by decide
        omega
      obtain ⟨pages, ended⟩ := ih _ shorter (offset + maxListLimit) rfl
      refine ⟨pages + 1, ?_⟩
      rw [Function.iterate_succ_apply, stepped, if_neg last, ← List.take_add]
      exact ended

end Page

/-! ### Pages between writes -/

/-- The writes that go on while a collection is exported. -/
inductive Write
  | insertDocument (id : Option Int) (text : String) (data : Option Json)
  | updateDocument (id : Int) (text : String) (data : Option Json)
  | deleteDocument (id : Int)

def Write.program (coll : Collection) : Write → Op Unit
  | .insertDocument id text data => do
    let _ ← Operations.insertDocument coll id text data
    return ()
  | .updateDocument id text data => do
    let _ ← Operations.updateDocument coll id text data
    return ()
  | .deleteDocument id => do
    let _ ← Operations.deleteDocument coll id
    return ()

/-- The export and the writes that still run. -/
structure Dump where
  pool : Pool Stmt Err DB Unit
  pages : Pages

/-- The next page query, or a turn of the writes. -/
inductive Move
  | page (faulty : Bool)
  | write (turn : Turn)

def Dump.step (h : Host) (coll : Collection) (d : Dump) : Move → Dump
  | .page faulty => { d with pages := d.pages.step h coll faulty d.pool.shared }
  | .write turn => { d with pool := d.pool.step (machine h) turn }

def Dump.run (h : Host) (coll : Collection) (moves : List Move) (d : Dump) : Dump := moves.foldl (Dump.step h coll) d

def dump (coll : Collection) (s : DB) (writes : List Write) : Dump :=
  ⟨⟨s, writes.map (Write.program coll)⟩, .paging 0 []⟩

/-- There is an item with the id. -/
def Present (coll : Collection) (id : Int) (s : DB) : Prop := ∃ r ∈ items s coll.tableName, r.id = id

/-- The move is a page query of the export. -/
def Queries : Dump → Move → Prop
  | ⟨_, .paging _ _⟩, .page _ => True
  | _, _ => False

/-- Where a page is queried, the collection has as many items up to the last one
    listed as the offset skips. -/
def Aligned (coll : Collection) : Dump → Move → Prop
  | ⟨pool, .paging offset all⟩, .page _ =>
    Continues ((items pool.shared coll.tableName).map (·.id)) (all.map (·.id)) offset
  | _, _ => True

instance (coll : Collection) (id : Int) (s : DB) : Decidable (Present coll id s) :=
  inferInstanceAs (Decidable (∃ r ∈ items s coll.tableName, r.id = id))

instance : (d : Dump) → (m : Move) → Decidable (Queries d m)
  | ⟨_, .paging _ _⟩, .page _ => .isTrue trivial
  | ⟨_, .done _⟩, .page _ | ⟨_, .failed _⟩, .page _ | ⟨_, .paging _ _⟩, .write _ | ⟨_, .done _⟩, .write _
  | ⟨_, .failed _⟩, .write _ => .isFalse id

instance (coll : Collection) : (d : Dump) → (m : Move) → Decidable (Aligned coll d m)
  | ⟨pool, .paging offset all⟩, .page _ => inferInstanceAs (Decidable
    (Continues ((items pool.shared coll.tableName).map (·.id)) (all.map (·.id)) offset))
  | ⟨_, .done _⟩, .page _ | ⟨_, .failed _⟩, .page _ | ⟨_, .paging _ _⟩, .write _ | ⟨_, .done _⟩, .write _
  | ⟨_, .failed _⟩, .write _ => .isTrue trivial

section Run
variable {h : Host} {coll : Collection} {id : Int}

/-- What is listed so far is in ascending order and as long as the offset; an
    item that has been there at every page query is listed, or it lies ahead. -/
def Sofar (id : Int) : Pages → Prop
  | .paging offset all => all.length = offset ∧ (all.map (·.id)).Pairwise (· < ·) ∧
      (id ∈ all.map (·.id) ∨ ∀ n ∈ all.map (·.id), n < id)
  | .done all => (all.map (·.id)).Pairwise (· < ·) ∧ id ∈ all.map (·.id)
  | .failed _ => True

/-- A page query keeps this when it continues what was listed. -/
theorem sofar_step {s : DB} {offset : Nat} {all : List Document} (faulty : Bool) (sofar : Sofar id (.paging offset all))
    (continues : Continues ((items s coll.tableName).map (·.id)) (all.map (·.id)) offset) (present : Present coll id s) :
    Sofar id (Pages.step h coll faulty s (.paging offset all)) := by
  obtain ⟨length, ascending, listed⟩ := sofar
  rcases step_paging h coll s offset all faulty with
    ⟨e, failed⟩ | ⟨t, batch, there, listing, stepped⟩
  · rw [failed]
    trivial
  · have sorted : ((sortBy (·.id) t.rows).map (·.id)).Pairwise (· < ·) := sortBy_ascending t.key
    rw [items_of_docs there] at continues
    replace continues := continues.perm ((sortBy_perm (·.id) t.rows).map (·.id))
    have ids : batch.map (·.id) = page ((sortBy (·.id) t.rows).map (·.id)) offset maxListLimit := by
      rw [listing, List.map_map, page, ← List.map_drop, ← List.map_take]
      rfl
    have longer : ((all ++ batch).map (·.id)).Pairwise (· < ·) := by
      rw [List.map_append, ids]
      exact append_page_ascending sorted ascending continues
    have there_or_ahead : id ∈ (all ++ batch).map (·.id) ∨
        batch.length = maxListLimit ∧ ∀ n ∈ (all ++ batch).map (·.id), n < id := by
      rw [← List.length_map (·.id), List.map_append, ids, List.mem_append]
      rcases listed with before | ahead
      · exact .inl (.inl before)
      · have member : id ∈ (sortBy (·.id) t.rows).map (·.id) := by
          obtain ⟨r, stored, same⟩ := present
          rw [items_of_docs there] at stored
          exact List.mem_map.mpr ⟨r, (sortBy_perm _ _).mem_iff.mpr stored, same⟩
        have start : all.map (·.id) = [] → offset = 0 := by
          intro none
          rw [← length, List.map_eq_nil_iff.mp none]
          rfl
        rcases read_or_ahead sorted continues start member ahead with here | later
        · exact .inl (.inr here)
        · exact .inr later
    have short : batch.length ≤ maxListLimit := by
      rw [listing, List.length_map]
      exact List.length_take_le _ _
    rw [stepped]
    by_cases last : batch.length < maxListLimit
    · rw [if_pos last]
      exact ⟨longer, there_or_ahead.resolve_right fun full => by omega⟩
    · rw [if_neg last]
      refine ⟨?_, longer, there_or_ahead.imp_right And.right⟩
      rw [List.length_append, length]
      omega

theorem sofar_run {moves : List Move} {d : Dump} (start : Sofar id d.pages)
    (aligned : Along (Dump.step h coll) (Aligned coll) moves d)
    (stays : Along (Dump.step h coll) (fun d m => Queries d m → Present coll id d.pool.shared) moves d) :
    Sofar id (d.run h coll moves).pages := by
  refine run_invariant (I := fun d : Dump => Sofar id d.pages) ?_ start (along_and aligned stays)
  rintro ⟨pool, pages⟩ m sofar ⟨continues, present⟩
  cases m with
  | write turn => exact sofar
  | page faulty =>
    cases pages with
    | paging offset all => exact sofar_step faulty sofar continues (present trivial)
    | done all => exact sofar
    | failed e => exact sofar

end Run

/-- An item that is there at every page query of an export is listed once, if
    every page continues the pages before it. -/
theorem export_lists_once (h : Host) (coll : Collection) (s : DB) (writes : List Write) (moves : List Move) (id : Int)
    (aligned : Along (Dump.step h coll) (Aligned coll) moves (dump coll s writes))
    (stays : Along (Dump.step h coll) (fun d m => Queries d m → Present coll id d.pool.shared) moves (dump coll s writes))
    (all : List Document) (ended : ((dump coll s writes).run h coll moves).pages = .done all) :
    (all.map (·.id)).count id = 1 := by
  have sofar : Sofar id ((dump coll s writes).run h coll moves).pages :=
    sofar_run ⟨rfl, .nil, .inr (by simp)⟩ aligned stays
  rw [ended] at sofar
  exact List.count_eq_one_of_mem (sofar.1.imp fun lt => ne_of_lt lt) sofar.2

/-- A collection of the items 1 to `n`. -/
def numbered (n : Nat) : List Row := (List.range n).map fun (i : Nat) => ⟨(i : Int) + 1, "", .obj [], []⟩

theorem numbered_key (n : Nat) : ((numbered n).map (·.id)).Nodup := by
  rw [numbered, List.map_map]
  refine List.Nodup.map (fun i j same => ?_) List.nodup_range
  simpa using same

def thousandAndOne : DB where
  collections := [⟨"a", "coll_a", false, 0⟩]
  references := []
  tables := fun n => if n = "coll_a" then some ⟨.plain, numbered 1001, 1001, numbered_key 1001⟩ else none

/-- Two pages of the collection, and the statements of a write between them. -/
def writeBetweenPages : List Move := [.page false, .write (0, false), .write (0, false), .page false]

/-- An item added behind the last one listed leaves the pages in step. -/
theorem export_lists_once_insert : ∃ all,
    ((dump ⟨"a", "coll_a", false, 0⟩ thousandAndOne [.insertDocument (some 2000) "" none]).run Host.uniform
      ⟨"a", "coll_a", false, 0⟩ writeBetweenPages).pages = .done all ∧ (all.map (·.id)).count 1001 = 1 := by
  have finished : (match ((dump ⟨"a", "coll_a", false, 0⟩ thousandAndOne [.insertDocument (some 2000) "" none]).run
      Host.uniform ⟨"a", "coll_a", false, 0⟩ writeBetweenPages).pages with
      | .done _ => true
      | _ => false) = true := by decide +kernel
  cases ended : ((dump ⟨"a", "coll_a", false, 0⟩ thousandAndOne [.insertDocument (some 2000) "" none]).run Host.uniform
      ⟨"a", "coll_a", false, 0⟩ writeBetweenPages).pages with
  | paging offset all => simp [ended] at finished
  | failed e => simp [ended] at finished
  | done all =>
    exact ⟨all, rfl, export_lists_once Host.uniform ⟨"a", "coll_a", false, 0⟩ thousandAndOne _ _ 1001 (by decide +kernel)
      (by decide +kernel) all ended⟩

/-- When the first item is deleted between the pages, the second page skips one. -/
theorem delete_between_pages_omits :
    ¬ ∀ (h : Host) (coll : Collection) (s : DB) (writes : List Write) (moves : List Move) (id : Int),
      (∀ n, Present coll id ((dump coll s writes).run h coll (moves.take n)).pool.shared) →
      ∀ all, ((dump coll s writes).run h coll moves).pages = .done all → (all.map (·.id)).count id = 1 := by
  intro every
  have present : ∀ n, Present ⟨"a", "coll_a", false, 0⟩ 1001
      ((dump ⟨"a", "coll_a", false, 0⟩ thousandAndOne [.deleteDocument 1]).run Host.uniform ⟨"a", "coll_a", false, 0⟩
        (writeBetweenPages.take n)).pool.shared := by
    intro n
    rcases n with - | - | - | - | n
    · decide +kernel
    · decide +kernel
    · decide +kernel
    · decide +kernel
    · rw [List.take_of_length_le (by simp [writeBetweenPages])]
      decide +kernel
  have omitted : (match ((dump ⟨"a", "coll_a", false, 0⟩ thousandAndOne [.deleteDocument 1]).run Host.uniform
      ⟨"a", "coll_a", false, 0⟩ writeBetweenPages).pages with
      | .done all => decide ((all.map (·.id)).count 1001 = 0)
      | _ => false) = true := by decide +kernel
  cases ended : ((dump ⟨"a", "coll_a", false, 0⟩ thousandAndOne [.deleteDocument 1]).run Host.uniform
      ⟨"a", "coll_a", false, 0⟩ writeBetweenPages).pages with
  | paging offset all => simp [ended] at omitted
  | failed e => simp [ended] at omitted
  | done all =>
    have once := every Host.uniform _ _ _ _ 1001 present all ended
    simp only [ended, decide_eq_true_eq] at omitted
    omega

end Microserver.Exports
