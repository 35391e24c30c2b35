import Microserver.AutomaticIds
import Microserver.ItemRequests
import Microserver.SearchLimits
import Mathlib.Data.Finmap
import Mathlib.Data.Finset.Sort

/-!
The table vec_items as a finite map. A shelf holds a text with its vector under
each id in use, and the highest id that was ever in use, from which automatic ids
go on. Every operation on items does on the table what it does on a shelf, or fails
without a trace (`Realizes`), and concurrent requests are answered by one shelf that
they change one after another (`items_refine_shelf`).
-/
namespace Microserver.Shelves
open Microserver.Values Microserver.Store Microserver.Programs Microserver.Interleaving Microserver.Linearization
open Microserver.Handlers (Decoded bulkMaxItems)
open Microserver.Operations (serializeFloat32)
open Microserver.Queries (limitRows knn searchRows distance)
open Microserver.Requests Microserver.Tokens Microserver.Params Microserver.Ranking Microserver.VecItems Microserver.ItemRequests

/-! ### Shelves -/

structure Shelf where
  entries : Finmap fun _ : Int => String × Vector32
  high : Int
  bound : ∀ id ∈ entries, id ≤ high

namespace Shelf

/-- The shelf with an entry more. -/
def put (m : Shelf) (id : Int) (text : String) (vector : Vector32) : Shelf where
  entries := m.entries.insert id (text, vector)
  high := max m.high id
  bound := by
    intro other member
    rcases Finmap.mem_insert.mp member with rfl | old
    · exact le_max_right _ _
    · exact (m.bound other old).trans (le_max_left _ _)

/-- The shelf without an entry. -/
def remove (m : Shelf) (id : Int) : Shelf where
  entries := m.entries.erase id
  high := m.high
  bound := fun other member => m.bound other (Finmap.mem_erase.mp member).2

/-- A new entry, under the given id or under the next one. -/
def insert (m : Shelf) (id : Option Int) (vector : Vector32) (text : String) : Except Err (Int × Shelf) :=
  if vector.length ≠ 768 then .error (.sqlite "Dimension mismatch for inserted vector")
  else
    match id with
    | some id => if id ∈ m.entries then .error (.sqlite "UNIQUE constraint failed") else .ok (id, m.put id text vector)
    | none =>
      if maxRowid ≤ m.high then .error (.sqlite "database or disk is full")
      else .ok (m.high + 1, m.put (m.high + 1) text vector)

/-- New entries one after another; `i` is the position of the first. -/
def insertAll : Nat → List PreparedItem → Shelf → Except Err (List Int × Shelf)
  | _, [], m => .ok ([], m)
  | i, p :: rest, m =>
    match m.insert (if p.id = 0 then none else some p.id) p.serialized p.text with
    | .error e => .error (.wrapped ("item " ++ toString i ++ ": inserting vector") e)
    | .ok (id, m₁) =>
      match insertAll (i + 1) rest m₁ with
      | .error e => .error e
      | .ok (ids, m₂) => .ok (id :: ids, m₂)

/-- Another text with its vector for an entry. -/
def update (m : Shelf) (id : Int) (text : String) (vector : Vector32) : Except Err (Bool × Shelf) :=
  if id ∉ m.entries then .ok (false, m)
  else if vector.length ≠ 768 then
    .error (.wrapped "updating vector (insert step)" (.sqlite "Dimension mismatch for inserted vector"))
  else .ok (true, m.put id text vector)

/-- The entries in the order of their ids. -/
def listing (m : Shelf) : List Item :=
  (m.entries.keys.sort (· ≤ ·)).map fun id => ⟨id, ((m.entries.lookup id).map (·.1)).getD ""⟩

end Shelf

/-- The table holds the entries of the shelf, and its automatic ids go on where those
    of the shelf do. -/
structure Represents (t : Table) (m : Shelf) : Prop where
  kind : t.kind = .vec0 768
  entry : ∀ id e, m.entries.lookup id = some e ↔ ∃ r ∈ t.rows, r.id = id ∧ (r.text, r.embedding) = e
  high : t.seq = m.high

section Tables
variable {t : Table} {m : Shelf}

theorem has_iff (represents : Represents t m) (id : Int) : t.has id = true ↔ id ∈ m.entries := by
  rw [Table.has_iff, Finmap.mem_iff]
  constructor
  · rintro ⟨r, stored, rfl⟩
    exact ⟨_, (represents.entry r.id _).mpr ⟨r, stored, rfl, rfl⟩⟩
  · rintro ⟨e, there⟩
    obtain ⟨r, stored, same, _⟩ := (represents.entry id e).mp there
    exact ⟨r, stored, same⟩

theorem largest_eq (represents : Represents t m) : t.largest = m.high := by
  rw [← represents.high]
  refine AutomaticIds.largest_eq fun row stored => ?_
  rw [represents.high]
  exact m.bound row.id ((has_iff represents row.id).mp (Table.has_iff.mpr ⟨row, stored, rfl⟩))

theorem represents_append (represents : Represents t m) {id : Int} {vector : Vector32} {text : String}
    (fresh : t.has id = false) : Represents (t.append id (.vector vector text .null) fresh) (m.put id text vector) where
  kind := represents.kind
  entry := by
    intro other e
    have rows : (t.append id (.vector vector text .null) fresh).rows = t.rows ++ [⟨id, text, .null, vector⟩] := rfl
    simp only [rows, List.mem_append, List.mem_singleton, Shelf.put]
    by_cases own : other = id
    · subst own
      rw [Finmap.lookup_insert, Option.some.injEq]
      constructor
      · rintro rfl
        exact ⟨_, .inr rfl, rfl, rfl⟩
      · rintro ⟨r, stored | rfl, same, value⟩
        · rw [Table.has_iff.mpr ⟨r, stored, same⟩] at fresh
          cases fresh
        · exact value
    · rw [Finmap.lookup_insert_of_ne _ own, represents.entry]
      constructor
      · rintro ⟨r, stored, same, value⟩
        exact ⟨r, .inl stored, same, value⟩
      · rintro ⟨r, stored | rfl, same, value⟩
        · exact ⟨r, stored, same, value⟩
        · exact absurd same.symm own
  high := by
    show max t.seq id = max m.high id
    rw [represents.high]

theorem represents_delete (represents : Represents t m) (id : Int) : Represents (t.delete id) (m.remove id) where
  kind := represents.kind
  entry := by
    intro other e
    simp only [Table.mem_delete, Shelf.remove]
    by_cases own : other = id
    · subst own
      rw [Finmap.lookup_erase]
      constructor
      · rintro ⟨⟩
      · rintro ⟨r, ⟨_, different⟩, same, _⟩
        exact absurd same different
    · rw [Finmap.lookup_erase_ne own, represents.entry]
      constructor
      · rintro ⟨r, stored, rfl, value⟩
        exact ⟨r, ⟨stored, own⟩, rfl, value⟩
      · rintro ⟨r, ⟨stored, _⟩, same, value⟩
        exact ⟨r, stored, same, value⟩
  high := represents.high

theorem listing_eq (represents : Represents t m) : (sortBy (·.id) t.rows).map (fun r => (⟨r.id, r.text⟩ : Item)) = m.listing := by
  have ids : (sortBy (·.id) t.rows).map (·.id) = m.entries.keys.sort (· ≤ ·) := by
    have ascending := sortBy_ascending t.key
    have keys : m.entries.keys = ((sortBy (·.id) t.rows).map (·.id)).toFinset := by
      ext id
      rw [Finmap.mem_keys, ← has_iff represents, Table.has_iff, List.mem_toFinset, ((sortBy_perm _ _).map _).mem_iff, List.mem_map]
    rw [keys]
    exact ((List.toFinset_sort (· ≤ ·) (ascending.imp ne_of_lt)).mpr (ascending.imp le_of_lt)).symm
  rw [Shelf.listing, ← ids, List.map_map]
  refine List.map_congr_left fun r sorted => ?_
  have stored : r ∈ t.rows := (sortBy_perm _ _).mem_iff.mp sorted
  have there := (represents.entry r.id _).mpr ⟨r, stored, rfl, rfl⟩
  simp [there]

end Tables

/-! ### Statements -/

/-- Both fail with one error, or report one value and go on alike. -/
inductive Agree {β : Type} : Except Err (β × Table) → Except Err (β × Shelf) → Prop
  | error (e : Err) : Agree (.error e) (.error e)
  | ok (b : β) {t : Table} {m : Shelf} (represents : Represents t m) : Agree (.ok (b, t)) (.ok (b, m))

section Statements
variable {t : Table} {m : Shelf}

theorem insertItem_agrees (represents : Represents t m) (id : Option Int) (vector : Vector32) (text : String) :
    Agree (insertItem t id vector text) (m.insert id vector text) := by
  have fits : Columns.fits (.vector vector text .null) t.kind = decide (vector.length = 768) := by
    rw [represents.kind, Bool.eq_iff_iff]
    simp only [Columns.fits, decide_eq_true_eq]
    omega
  rw [insertItem, fits]
  unfold Shelf.insert
  by_cases length : vector.length = 768
  · simp only [length, decide_true, ↓reduceIte, ne_eq, not_true_eq_false]
    cases id with
    | some id =>
      dsimp only [Table.insert]
      by_cases taken : t.has id = true
      · rw [dif_pos taken, if_pos ((has_iff represents id).mp taken)]
        exact .error _
      · rw [dif_neg taken, if_neg fun member => taken ((has_iff represents id).mpr member)]
        exact .ok id (represents_append represents _)
    | none =>
      simp only [Table.insert, largest_eq represents]
      by_cases full : maxRowid ≤ m.high
      · rw [if_pos full, if_pos full]
        exact .error _
      · rw [if_neg full, if_neg full]
        exact .ok _ (represents_append represents _)
  · simp only [length, decide_false, Bool.false_eq_true, ↓reduceIte, ne_eq, not_false_eq_true]
    exact .error _

theorem insertTextBulkTx_agrees (items : List PreparedItem) (i : Nat) (represents : Represents t m) :
    Agree (insertTextBulkTx i items t) (m.insertAll i items) := by
  induction items generalizing i t m with
  | nil => exact .ok [] represents
  | cons p rest ih =>
    rw [insertTextBulkTx, Shelf.insertAll]
    have first := insertItem_agrees represents (if p.id = 0 then none else some p.id) p.serialized p.text
    generalize insertItem t (if p.id = 0 then none else some p.id) p.serialized p.text = onTable at first ⊢
    generalize m.insert (if p.id = 0 then none else some p.id) p.serialized p.text = onShelf at first ⊢
    cases first with
    | error e => exact .error _
    | @ok id t₁ m₁ next =>
      have later := ih (i + 1) next
      dsimp only
      generalize insertTextBulkTx (i + 1) rest t₁ = onTable at later ⊢
      generalize m₁.insertAll (i + 1) rest = onShelf at later ⊢
      cases later with
      | error e => exact .error _
      | ok ids last => exact .ok _ last

theorem updateTextTx_agrees (represents : Represents t m) (id : Int) (text : String) (vector : Vector32) :
    Agree (updateTextTx id text vector t) (m.update id text vector) := by
  rw [updateTextTx, Shelf.update]
  by_cases there : t.has id = true
  · have member : id ∈ m.entries := (has_iff represents id).mp there
    have freed : id ∉ (m.remove id).entries := fun still => (Finmap.mem_erase.mp still).1 rfl
    simp only [there, Bool.true_eq_false, ↓reduceIte, member, not_true_eq_false]
    have again : (m.remove id).put id text vector = m.put id text vector := by
      have high : max m.high id = m.high := max_eq_left (m.bound id member)
      simp only [Shelf.put, Shelf.remove, high, Shelf.mk.injEq, and_true]
      refine Finmap.ext_lookup fun other => ?_
      by_cases own : other = id
      · rw [own, Finmap.lookup_insert, Finmap.lookup_insert]
      · rw [Finmap.lookup_insert_of_ne _ own, Finmap.lookup_insert_of_ne _ own, Finmap.lookup_erase_ne own]
    have inserted := insertItem_agrees (represents_delete represents id) (some id) vector text
    simp only [Shelf.insert, freed, ↓reduceIte, again] at inserted
    by_cases length : vector.length = 768
    · simp only [length, ne_eq, not_true_eq_false, ↓reduceIte] at inserted ⊢
      generalize insertItem (t.delete id) (some id) vector text = onTable at inserted ⊢
      cases inserted with
      | ok b next => exact .ok true next
    · simp only [length, ne_eq, not_false_eq_true, ↓reduceIte] at inserted ⊢
      generalize insertItem (t.delete id) (some id) vector text = onTable at inserted ⊢
      cases inserted with
      | error e => exact .error _
  · have absent : id ∉ m.entries := fun member => there ((has_iff represents id).mpr member)
    simp only [Bool.not_eq_true] at there
    simp only [there, ↓reduceIte, absent, not_false_eq_true]
    exact .ok false represents

end Statements
/-! ### Operations -/

/-- The loop that embeds the items of a bulk insert. -/
def embedAll (h : Host) : Nat → List BulkItem → Except Err (List PreparedItem)
  | _, [] => .ok []
  | i, it :: rest =>
    match h.embed it.text with
    | .error e => .error (.wrapped ("item " ++ toString i ++ ": embedding text") e)
    | .ok vec =>
      match embedAll h (i + 1) rest with
      | .error e => .error e
      | .ok preparedItems => .ok (⟨it.id, it.text, serializeFloat32 vec⟩ :: preparedItems)

/-- What is done with a text once it is embedded. -/
def embedded {α : Type} (h : Host) (context text : String) (f : Vector32 → Except Err α) : Except Err α :=
  match h.embed text with
  | .error e => .error (.wrapped context e)
  | .ok vec => f vec

section Operations
variable {h : Host} {α β : Type} {t : Table} {m : Shelf}

/-- The operation does on a table what `spec` does on the shelf it represents, or it
    gives up without a trace, with the same error or because a statement fails from
    outside. -/
def Realizes (h : Host) (op : ItemOp α) (spec : Shelf → Except Err (α × Shelf)) : Prop :=
  ∀ t m faults, Represents t m →
    (∃ a t' m', (itemMachine h).run op faults t = (.ok a, t') ∧ spec m = .ok (a, m') ∧ Represents t' m') ∨
    ∃ e, (itemMachine h).run op faults t = (.error e, t) ∧ (spec m = .error e ∨ true ∈ faults)

theorem realizes_congr {op : ItemOp α} {spec spec' : Shelf → Except Err (α × Shelf)} (realizes : Realizes h op spec)
    (same : ∀ m, spec m = spec' m) : Realizes h op spec' := by
  have equal : spec = spec' := funext same
  rwa [← equal]

theorem mem_of_headD {faults : List Bool} (faulty : faults.headD false = true) : true ∈ faults := by
  cases faults with
  | nil => cases faulty
  | cons b rest => exact List.mem_cons.mpr (.inl faulty.symm)

theorem realizes_call {context : Err → Err} {c : ItemStmt α} {spec : Shelf → Except Err (α × Shelf)}
    (agrees : ∀ t m, Represents t m → Agree (c.exec h t) (spec m)) :
    Realizes h (.call context c) fun m => (spec m).mapError context := by
  intro t m faults represents
  have agree := agrees t m represents
  cases faulty : faults.headD false with
  | true => exact .inr ⟨_, Machine.run_faulty _ faulty, .inr (mem_of_headD faulty)⟩
  | false =>
    cases ran : c.exec h t with
    | error e =>
      rw [ran] at agree
      have same : spec m = .error e := by
        generalize spec m = onShelf at agree ⊢
        cases agree
        rfl
      exact .inr ⟨_, Machine.run_error _ faulty ran, .inl (by simp [same, Except.mapError])⟩
    | ok result =>
      rw [ran] at agree
      generalize done : spec m = onShelf at agree
      cases agree with
      | @ok b t' m' next => exact .inl ⟨b, t', m', Machine.run_ok _ faulty ran, by simp [done, Except.mapError], next⟩

theorem realizes_embed (context text : String) {op : Vector32 → ItemOp α} {spec : Vector32 → Shelf → Except Err (α × Shelf)}
    (realizes : ∀ vec, Realizes h (op vec) (spec vec)) :
    Realizes h ((embed context text).bind op) fun m => embedded h context text fun vec => spec vec m := by
  intro t m faults represents
  cases faulty : faults.headD false with
  | true => exact .inr ⟨_, Machine.run_faulty _ faulty, .inr (mem_of_headD faulty)⟩
  | false =>
    have ran : (itemMachine h).exec (.read fun h _ => h.embed text) t = (h.embed text).map (fun b => (b, t)) := rfl
    simp only [embedded]
    cases vec : h.embed text with
    | error e => exact .inr ⟨_, Machine.run_error _ faulty (by rw [ran, vec]; rfl), .inl rfl⟩
    | ok vec' =>
      have first : (itemMachine h).run ((embed context text).bind op) faults t = (itemMachine h).run (op vec') faults.tail t :=
        Machine.run_ok _ faulty (by rw [ran, vec]; rfl)
      rw [first]
      rcases realizes vec' t m faults.tail represents with done | ⟨e, refused, reason⟩
      · exact .inl done
      · exact .inr ⟨e, refused, reason.imp_right List.mem_of_mem_tail⟩

theorem realizes_map {op : ItemOp α} {spec : Shelf → Except Err (α × Shelf)} (f : α → β) (realizes : Realizes h op spec) :
    Realizes h (op.bind fun a => .ret (f a)) fun m => (spec m).map fun done => (f done.1, done.2) := by
  intro t m faults represents
  have ran : ∀ (p : ItemOp α) (faults : List Bool) (t : Table), (itemMachine h).run (p.bind fun a => .ret (f a)) faults t =
      (((itemMachine h).run p faults t).1.map f, ((itemMachine h).run p faults t).2) := by
    intro p
    induction p with
    | ret a => exact fun _ _ => rfl
    | fail e => exact fun _ _ => rfl
    | stmt c next ih =>
      intro faults t
      simp only [Prog.bind, Machine.run]
      split <;> exact ih _ _ _
  rw [ran]
  rcases realizes t m faults represents with ⟨a, t', m', done, same, next⟩ | ⟨e, refused, reason⟩
  · exact .inl ⟨f a, t', m', by rw [done]; rfl, by simp [same, Except.map], next⟩
  · exact .inr ⟨e, by rw [refused]; rfl, reason.imp_left fun same => by simp [same, Except.map]⟩

theorem realizes_prepareItems {items : List BulkItem} {op : List PreparedItem → ItemOp α}
    {spec : List PreparedItem → Shelf → Except Err (α × Shelf)} (i : Nat)
    (realizes : ∀ preparedItems, Realizes h (op preparedItems) (spec preparedItems)) :
    Realizes h ((prepareItems i items).bind op) fun m => (embedAll h i items).bind fun preparedItems => spec preparedItems m := by
  induction items generalizing i op spec with
  | nil => exact realizes []
  | cons it rest ih =>
    have later (vec : Vector32) : Realizes h
        ((prepareItems (i + 1) rest).bind fun preparedItems => op (⟨it.id, it.text, serializeFloat32 vec⟩ :: preparedItems))
        fun m => (embedAll h (i + 1) rest).bind fun preparedItems =>
          spec (⟨it.id, it.text, serializeFloat32 vec⟩ :: preparedItems) m :=
      ih (i + 1) fun _ => realizes _
    have whole := realizes_embed ("item " ++ toString i ++ ": embedding text") it.text later
    have unfolded : (prepareItems i (it :: rest)).bind op = (embed ("item " ++ toString i ++ ": embedding text") it.text).bind
        fun vec => (prepareItems (i + 1) rest).bind fun preparedItems =>
          op (⟨it.id, it.text, serializeFloat32 vec⟩ :: preparedItems) := by
      simp only [prepareItems, Prog.bind_eq, Prog.pure_eq, Prog.bind_assoc, Prog.bind_ret]
    have step (m : Shelf) : embedded h ("item " ++ toString i ++ ": embedding text") it.text (fun vec =>
        (embedAll h (i + 1) rest).bind fun preparedItems => spec (⟨it.id, it.text, serializeFloat32 vec⟩ :: preparedItems) m) =
        (embedAll h i (it :: rest)).bind fun preparedItems => spec preparedItems m := by
      simp only [embedded, embedAll]
      cases h.embed it.text with
      | error e => rfl
      | ok vec => cases embedAll h (i + 1) rest <;> rfl
    simp only [step] at whole
    rw [unfolded]
    exact whole

end Operations

/-! ### Requests -/

/-- The end of a handler, on a shelf. -/
def settle {α : Type} (m : Shelf) (reply : α → ItemReply) : Except Err (α × Shelf) → ItemReply × Shelf
  | .error e => (.error 500 e.error, m)
  | .ok (a, m') => (reply a, m')

/-- The rest of a handler after decodeJSON, on a shelf. -/
def decoded {α : Type} (m : Shelf) (body : Decoded α) (handle : α → ItemReply × Shelf) : ItemReply × Shelf :=
  match body with
  | .error reply => (match reply.body with | .error msg => .error reply.status msg | _ => .bare reply.status, m)
  | .ok req => handle req

namespace Shelf

def handleList (m : Shelf) (query : Query) : ItemReply × Shelf :=
  match parseLimitOffset query with
  | .error msg => (.error 400 msg, m)
  | .ok (limit, offset) =>
    (.json 200 (.items (if limit < 0 then m.listing.drop offset.toNat else (m.listing.drop offset.toNat).take limit.toNat)), m)

def handleInsert (h : Host) (m : Shelf) (body : Decoded InsertRequest) : ItemReply × Shelf :=
  decoded m body fun req =>
    if req.text = "" then (.error 400 "text is required", m)
    else
      settle m (fun id => .json 201 (.id id)) (embedded h "embedding text" req.text fun vec =>
        (m.insert (if req.id ≠ 0 then some req.id else none) (serializeFloat32 vec) req.text).mapError (.wrapped "inserting vector"))

def handleBulkInsert (h : Host) (m : Shelf) (body : Decoded (List InsertRequest)) : ItemReply × Shelf :=
  decoded m body fun reqs =>
    if reqs.length = 0 then (.error 400 "at least one item is required", m)
    else if reqs.length > bulkMaxItems then (.error 400 ("at most " ++ toString bulkMaxItems ++ " items per bulk request"), m)
    else
      match firstWithoutText 0 reqs with
      | some i => (.error 400 ("item " ++ toString i ++ ": text is required"), m)
      | none =>
        settle m (fun ids => .json 201 (.ids ids)) ((embedAll h 0 (reqs.map fun req => ⟨req.id, req.text⟩)).bind fun preparedItems =>
          m.insertAll 0 preparedItems)

def handleUpdate (h : Host) (m : Shelf) (id : String) (body : Decoded InsertRequest) : ItemReply × Shelf :=
  match parseInt id with
  | none => (.error 400 "id must be an integer", m)
  | some id => decoded m body fun req =>
    if req.text = "" then (.error 400 "text is required", m)
    else
      settle m (fun found => if found then .json 200 (.id id) else .error 404 "item not found")
        (embedded h "embedding text" req.text fun vec => m.update id req.text (serializeFloat32 vec))

def handleDelete (m : Shelf) (id : String) : ItemReply × Shelf :=
  match parseInt id with
  | none => (.error 400 "id must be an integer", m)
  | some id => if id ∈ m.entries then (.bare 204, m.remove id) else (.error 404 "item not found", m)

end Shelf

/-- How a shelf answers a request. A search finds entries of the shelf, none twice. -/
inductive Serves (h : Host) (m : Shelf) : ItemRequest → ItemReply → Shelf → Prop
  | list (query : Query) : Serves h m (.list query) (m.handleList query).1 m
  | insert (body : Decoded InsertRequest) : Serves h m (.insert body) (m.handleInsert h body).1 (m.handleInsert h body).2
  | bulkInsert (body : Decoded (List InsertRequest)) :
    Serves h m (.bulkInsert body) (m.handleBulkInsert h body).1 (m.handleBulkInsert h body).2
  | update (id : String) (body : Decoded InsertRequest) :
    Serves h m (.update id body) (m.handleUpdate h id body).1 (m.handleUpdate h id body).2
  | delete (id : String) : Serves h m (.delete id) (m.handleDelete id).1 (m.handleDelete id).2
  | search (query : Query) (reply : ItemReply)
    (found : ∀ results, reply = .json 200 (.results results) → (results.map (·.id)).Nodup ∧
      ∀ r ∈ results, ∃ vector, m.entries.lookup r.id = some (r.text, vector)) : Serves h m (.search query) reply m

section Requests
variable {h : Host} {α : Type} {t : Table} {m : Shelf}

/-- The program answers as `serve` does, or, where a statement fails from outside,
    with an internal error and without a trace. -/
def Answers (h : Host) (p : ItemOp ItemReply) (serve : Shelf → ItemReply × Shelf) : Prop :=
  ∀ t m faults, Represents t m →
    (∃ t', (itemMachine h).run p faults t = (.ok (serve m).1, t') ∧ Represents t' (serve m).2) ∨
    true ∈ faults ∧ ∃ msg, (itemMachine h).run p faults t = (.ok (.error 500 msg), t)

theorem answers_ret {reply : ItemReply} : Answers h (.ret reply) fun m => (reply, m) :=
  fun t _ _ represents => .inl ⟨t, rfl, represents⟩

theorem answers_congr {p : ItemOp ItemReply} {serve serve' : Shelf → ItemReply × Shelf} (answers : Answers h p serve)
    (same : ∀ m, serve m = serve' m) : Answers h p serve' := by
  have equal : serve = serve' := funext same
  rwa [← equal]

theorem mapError_id (r : Except Err α) : r.mapError (fun e => e) = r := by
  cases r <;> rfl

theorem insert_given {id : Int} {vector : Vector32} {text : String} {done : Int × Shelf}
    (inserted : m.insert (some id) vector text = .ok done) : done.1 = id := by
  unfold Shelf.insert at inserted
  split at inserted
  · cases inserted
  · dsimp only at inserted
    split at inserted
    · cases inserted
    · cases inserted
      rfl

theorem run_answer {op : ItemOp α} (reply : α → ItemReply) (faults : List Bool) (t : Table) :
    (itemMachine h).run (answer op reply) faults t = (.ok (match ((itemMachine h).run op faults t).1 with
      | .error e => .error 500 e.error
      | .ok a => reply a), ((itemMachine h).run op faults t).2) := by
  unfold answer
  induction op generalizing faults t with
  | ret a => rfl
  | fail e => rfl
  | stmt c next ih =>
    simp only [Prog.bind_eq, Prog.attempt, Prog.bind, Machine.run] at ih ⊢
    split <;> exact ih _ _ _

theorem answers_answer {op : ItemOp α} {spec : Shelf → Except Err (α × Shelf)} (reply : α → ItemReply)
    (realizes : Realizes h op spec) : Answers h (answer op reply) fun m => settle m reply (spec m) := by
  intro t m faults represents
  rw [run_answer]
  rcases realizes t m faults represents with ⟨a, t', m', done, same, next⟩ | ⟨e, refused, same | faulty⟩
  · refine .inl ⟨t', ?_, ?_⟩
    · simp only [done, same, settle]
    · simpa only [same, settle] using next
  · refine .inl ⟨t, ?_, ?_⟩
    · simp only [refused, same, settle]
    · simpa only [same, settle] using represents
  · exact .inr ⟨faulty, e.error, by rw [refused]⟩

theorem answers_decoded {body : Decoded α} {handle : α → ItemOp ItemReply} {serve : Shelf → α → ItemReply × Shelf}
    (answers : ∀ req, Answers h (handle req) fun m => serve m req) :
    Answers h (withRequest body handle) fun m => decoded m body (serve m) := by
  cases body with
  | error reply => exact answers_ret
  | ok req => exact answers req

theorem listItems_realizes (limit offset : Int) : Realizes h (listItems limit offset) fun m => .ok
    (if limit < 0 then m.listing.drop offset.toNat else (m.listing.drop offset.toNat).take limit.toNat, m) := by
  let spec (m : Shelf) : Except Err (List Item × Shelf) := .ok
    (if limit < 0 then m.listing.drop offset.toNat else (m.listing.drop offset.toNat).take limit.toNat, m)
  suffices agrees : ∀ t m, Represents t m → Agree _ (spec m) from realizes_congr (realizes_call agrees) fun _ => rfl
  intro t m represents
  have rows : (limitRows limit ((sortBy (·.id) t.rows).drop offset.toNat)).map (fun r => (⟨r.id, r.text⟩ : Item)) =
      if limit < 0 then m.listing.drop offset.toNat else (m.listing.drop offset.toNat).take limit.toNat := by
    rw [← listing_eq represents, limitRows]
    split
    · rw [List.map_drop]
    · rw [List.map_take, List.map_drop]
  show Agree (.ok (_, t)) _
  rw [rows]
  exact .ok _ represents

theorem deleteItem_realizes (id : Int) : Realizes h (deleteItem id) fun m =>
    .ok (decide (id ∈ m.entries), if id ∈ m.entries then m.remove id else m) := by
  have counted (t : Table) (m : Shelf) (represents : Represents t m) :
      decide (t.rows.countP (fun r => r.id == id) > 0) = decide (id ∈ m.entries) := by
    rw [decide_eq_decide, ← has_iff represents, Table.has_iff, gt_iff_lt, List.countP_pos_iff]
    simp
  intro t m faults represents
  cases faulty : faults.headD false with
  | true => exact .inr ⟨_, Machine.run_faulty _ faulty, .inr (mem_of_headD faulty)⟩
  | false =>
    refine .inl ⟨decide (id ∈ m.entries), t.delete id, if id ∈ m.entries then m.remove id else m, ?_, rfl, ?_⟩
    · rw [← counted t m represents]
      exact Machine.run_ok _ faulty rfl
    · by_cases there : id ∈ m.entries
      · rw [if_pos there]
        exact represents_delete represents id
      · -- nothing is deleted
        have rows : (t.delete id).rows = t.rows := by
          refine List.filter_eq_self.mpr fun r stored => ?_
          have absent : t.has id ≠ true := fun present => there ((has_iff represents id).mp present)
          simpa using fun same => absent (Table.has_iff.mpr ⟨r, stored, same⟩)
        rw [if_neg there]
        exact ⟨represents.kind, by rw [rows]; exact represents.entry, represents.high⟩

theorem handleList_answers (query : Query) : Answers h (handleList query) fun m => m.handleList query := by
  unfold handleList Shelf.handleList
  cases parseLimitOffset query with
  | error msg => exact answers_ret
  | ok range => exact answers_answer _ (listItems_realizes range.1 range.2)

theorem insertText_realizes (id : Int) (text : String) : Realizes h (insertText id text) fun m =>
    (embedded h "embedding text" text fun vec =>
      (m.insert (some id) (serializeFloat32 vec) text).mapError (.wrapped "inserting vector")).map fun done => ((), done.2) := by
  have inserted (vec : Vector32) : Realizes h (.call (.wrapped "inserting vector") (.insert (some id) (serializeFloat32 vec) text))
      fun m => (m.insert (some id) (serializeFloat32 vec) text).mapError (.wrapped "inserting vector") :=
    realizes_call fun t m represents => insertItem_agrees represents (some id) (serializeFloat32 vec) text
  refine realizes_congr (realizes_embed _ _ fun vec => realizes_map (fun _ => ()) (inserted vec)) fun m => ?_
  simp only [embedded]
  cases h.embed text <;> rfl

theorem insertTextAuto_realizes (text : String) : Realizes h (insertTextAuto text) fun m =>
    embedded h "embedding text" text fun vec =>
      (m.insert none (serializeFloat32 vec) text).mapError (.wrapped "inserting vector") :=
  realizes_embed _ _ fun vec => realizes_call fun _ _ represents => insertItem_agrees represents none (serializeFloat32 vec) text

theorem insertTextBulk_realizes (items : List BulkItem) : Realizes h (insertTextBulk items) fun m =>
    (embedAll h 0 items).bind fun preparedItems => m.insertAll 0 preparedItems := by
  have inserted (preparedItems : List PreparedItem) : Realizes h (.call (fun e => e) (.insertTextBulk preparedItems))
      fun m => (m.insertAll 0 preparedItems).mapError fun e => e :=
    realizes_call fun t m represents => insertTextBulkTx_agrees preparedItems 0 represents
  refine realizes_congr (realizes_prepareItems 0 inserted) fun m => ?_
  cases embedAll h 0 items with
  | error e => rfl
  | ok preparedItems => exact mapError_id _

theorem updateText_realizes (id : Int) (text : String) : Realizes h (updateText id text) fun m =>
    embedded h "embedding text" text fun vec => m.update id text (serializeFloat32 vec) := by
  have updated (vec : Vector32) : Realizes h (.call (fun e => e) (.updateText id text (serializeFloat32 vec)))
      fun m => m.update id text (serializeFloat32 vec) :=
    realizes_congr (realizes_call fun t m represents => updateTextTx_agrees represents id text (serializeFloat32 vec))
      fun _ => mapError_id _
  exact realizes_embed _ _ updated

theorem handleInsert_answers (body : Decoded InsertRequest) : Answers h (handleInsert body) fun m => m.handleInsert h body := by
  refine answers_decoded fun req => ?_
  by_cases empty : req.text = ""
  · simp only [empty, ↓reduceIte]
    exact answers_ret
  · simp only [empty, ↓reduceIte]
    by_cases given : req.id ≠ 0
    · simp only [if_pos given]
      have answers := answers_answer (fun _ : Unit => (.json 201 (.id req.id) : ItemReply))
        (insertText_realizes (h := h) req.id req.text)
      refine answers_congr answers fun m => ?_
      simp only [embedded]
      cases h.embed req.text with
      | error e => rfl
      | ok vec =>
        cases inserted : m.insert (some req.id) (serializeFloat32 vec) req.text with
        | error e => simp [inserted, settle, Except.mapError, Except.map]
        | ok done => simp [inserted, settle, Except.mapError, Except.map, insert_given inserted]
    · simp only [if_neg given]
      exact answers_answer _ (insertTextAuto_realizes req.text)

theorem handleBulkInsert_answers (body : Decoded (List InsertRequest)) :
    Answers h (handleBulkInsert body) fun m => m.handleBulkInsert h body := by
  refine answers_decoded fun reqs => ?_
  by_cases none : reqs.length = 0
  · simp only [none, ↓reduceIte]
    exact answers_ret
  · by_cases many : reqs.length > bulkMaxItems
    · simp only [none, many, ↓reduceIte]
      exact answers_ret
    · simp only [none, many, ↓reduceIte]
      cases firstWithoutText 0 reqs with
      | some i => exact answers_ret
      | none => exact answers_answer _ (insertTextBulk_realizes _)

theorem handleUpdate_answers (id : String) (body : Decoded InsertRequest) :
    Answers h (handleUpdate id body) fun m => m.handleUpdate h id body := by
  unfold handleUpdate Shelf.handleUpdate
  cases parseInt id with
  | none => exact answers_ret
  | some id =>
    refine answers_decoded fun req => ?_
    by_cases empty : req.text = ""
    · simp only [empty, ↓reduceIte]
      exact answers_ret
    · simp only [empty, ↓reduceIte]
      exact answers_answer _ (updateText_realizes id req.text)

theorem handleDelete_answers (id : String) : Answers h (handleDelete id) fun m => m.handleDelete id := by
  unfold handleDelete Shelf.handleDelete
  cases parseInt id with
  | none => exact answers_ret
  | some id =>
    refine answers_congr (answers_answer _ (deleteItem_realizes id)) fun m => ?_
    by_cases there : id ∈ m.entries <;> simp [settle, there]

theorem ranked_subperm (q : Vector32) (limit : Int) (rerank : Bool) (rows : List Row) :
    (SearchLimits.ranked h q limit rerank rows).Subperm rows := by
  have limited (n : Int) (rows : List Row) : (limitRows n rows).Subperm rows := by
    unfold limitRows
    split
    · exact List.Subperm.refl _
    · exact (List.take_sublist _ _).subperm
  cases rerank with
  | false => exact (SortedSearch.orderByDistance_perm false q rows).subperm
  | true =>
    exact (limited _ _).trans ((SortedSearch.orderByDistance_perm true q _).subperm.trans
      ((limited _ _).trans (SortedSearch.orderByDistance_perm false q rows).subperm))

theorem searchRows_subperm {q : Vector32} {limit : Int} {rerank : Bool} {rows : List Row}
    (found : searchRows h (onlyItems t) "vec_items" q limit rerank [] none = .ok rows) : rows.Subperm t.rows := by
  rw [SearchLimits.searchRows_asks] at found
  cases near : knn h (onlyItems t) "vec_items" q (SearchLimits.asked limit rerank) with
  | error e => simp [near, Except.map] at found
  | ok candidates =>
    simp only [near, Except.map, Except.ok.injEq] at found
    obtain ⟨t', there, part, _⟩ := SortedSearch.knn_ok near
    have same : t' = t := by
      have only : (onlyItems t).find "vec_items" = some t := rfl
      exact Option.some.inj (there.symm.trans only)
    subst same found
    exact (ranked_subperm q limit rerank candidates).trans part

theorem read_ok {query : Host → Table → Except Err α} {a : α} {t' : Table}
    (ran : (itemMachine h).exec (.read query) t = .ok (a, t')) : query h t = .ok a ∧ t' = t := by
  have mapped : (query h t).map (fun b => (b, t)) = .ok (a, t') := ran
  cases found : query h t with
  | error e => simp [found, Except.map] at mapped
  | ok b =>
    simp only [found, Except.map, Except.ok.injEq, Prod.mk.injEq] at mapped
    exact ⟨by rw [mapped.1], mapped.2.symm⟩

/-- What a search returns are entries of the shelf, none twice. -/
theorem results_found (represents : Represents t m) {q : Vector32} {limit : Int} {rerank : Bool} {results : List SearchResult}
    (found : (searchRows h (onlyItems t) "vec_items" q limit rerank [] none).map
      (fun rows => rows.map fun r => (⟨r.id, r.text, distance h rerank q r⟩ : SearchResult)) = .ok results) :
    (results.map (·.id)).Nodup ∧ ∀ r ∈ results, ∃ vector, m.entries.lookup r.id = some (r.text, vector) := by
  cases searched : searchRows h (onlyItems t) "vec_items" q limit rerank [] none with
  | error e => simp [searched, Except.map] at found
  | ok rows =>
    simp only [searched, Except.map, Except.ok.injEq] at found
    obtain ⟨l, perm, sublist⟩ := searchRows_subperm searched
    subst found
    constructor
    · rw [List.map_map]
      exact (perm.map _).nodup_iff.mp (t.key.sublist (sublist.map _))
    · intro r member
      obtain ⟨row, listed, rfl⟩ := List.mem_map.mp member
      have stored : row ∈ t.rows := sublist.subset (perm.mem_iff.mpr listed)
      exact ⟨row.embedding, (represents.entry row.id _).mpr ⟨row, stored, rfl, rfl⟩⟩

theorem handleSearch_serves (represents : Represents t m) (query : Query) (faults : List Bool) :
    ∃ reply, (itemMachine h).run (handleSearch query) faults t = (.ok reply, t) ∧ Serves h m (.search query) reply m := by
  have wp : (itemMachine h).wp (fun r t' => t' = t ∧ ∃ reply, r = .ok reply ∧ Serves h m (.search query) reply m)
      (handleSearch query) t := by
    have refused (status : Nat) (msg : String) : Serves h m (.search query) (.error status msg) m := by
      refine .search query _ ?_
      rintro results ⟨⟩
    unfold handleSearch
    dsimp only
    split
    · exact ⟨rfl, _, rfl, refused _ _⟩
    · cases parseSearchLimit query with
      | error msg => exact ⟨rfl, _, rfl, refused _ _⟩
      | ok limit =>
        cases parseRerank query with
        | error msg => exact ⟨rfl, _, rfl, refused _ _⟩
        | ok rerank =>
          refine (itemMachine h).wp_bind.mpr ((itemMachine h).wp_attempt.mpr ((itemMachine h).wp_bind.mpr ?_))
          refine (itemMachine h).wp_call.mpr ⟨fun vec t' ran => ?_, fun e _ => ⟨rfl, _, rfl, refused _ _⟩,
            rfl, _, rfl, refused _ _⟩
          obtain ⟨_, rfl⟩ := read_ok ran
          refine (itemMachine h).wp_call.mpr ⟨fun results t' ran => ?_, fun e _ => ⟨rfl, _, rfl, refused _ _⟩,
            rfl, _, rfl, refused _ _⟩
          obtain ⟨found, rfl⟩ := read_ok ran
          refine ⟨rfl, _, rfl, .search query _ ?_⟩
          rintro results' ⟨⟩
          exact results_found represents found
  obtain ⟨same, reply, done, serves⟩ := (itemMachine h).wp_iff_run.mp wp faults
  exact ⟨reply, Prod.ext done same, serves⟩

/-- A request does on the table what it does on the shelf, or it meets a failure,
    answers with an internal error and leaves no trace. -/
theorem handle_serves (represents : Represents t m) (request : ItemRequest) (faults : List Bool) :
    ∃ reply t' m', (itemMachine h).run request.handle faults t = (.ok reply, t') ∧ Represents t' m' ∧
      (Serves h m request reply m' ∨ true ∈ faults ∧ (∃ msg, reply = .error 500 msg) ∧ m' = m) := by
  have settled {p : ItemOp ItemReply} {serve : Shelf → ItemReply × Shelf} (answers : Answers h p serve)
      (serves : Serves h m request (serve m).1 (serve m).2) : ∃ reply t' m', (itemMachine h).run p faults t = (.ok reply, t') ∧
        Represents t' m' ∧ (Serves h m request reply m' ∨ true ∈ faults ∧ (∃ msg, reply = .error 500 msg) ∧ m' = m) := by
    rcases answers t m faults represents with ⟨t', done, next⟩ | ⟨faulty, msg, failed⟩
    · exact ⟨_, t', _, done, next, .inl serves⟩
    · exact ⟨_, t, m, failed, represents, .inr ⟨faulty, ⟨msg, rfl⟩, rfl⟩⟩
  cases request with
  | list query =>
    have unchanged : (m.handleList query).2 = m := by
      unfold Shelf.handleList
      cases parseLimitOffset query <;> rfl
    refine settled (handleList_answers query) ?_
    rw [unchanged]
    exact .list query
  | insert body => exact settled (handleInsert_answers body) (.insert body)
  | bulkInsert body => exact settled (handleBulkInsert_answers body) (.bulkInsert body)
  | update id body => exact settled (handleUpdate_answers id body) (.update id body)
  | delete id => exact settled (handleDelete_answers id) (.delete id)
  | search query =>
    obtain ⟨reply, done, serves⟩ := handleSearch_serves (h := h) represents query faults
    exact ⟨reply, t, m, done, represents, .inl serves⟩

end Requests

/-! ### Concurrent requests -/

/-- The replies to the requests of `order` are those of one shelf that they change
    one after another; a request that met a failure may be answered with an internal
    error instead, and then it has changed nothing. -/
def Explains (h : Host) (requests : List ItemRequest) (faults : Nat → List Bool) (replies : Nat → Option ItemReply) :
    List Nat → Shelf → Shelf → Prop
  | [], m, m' => m' = m
  | i :: rest, m, m' => ∃ request reply m₁, requests[i]? = some request ∧ replies i = some reply ∧
    (Serves h m request reply m₁ ∨ true ∈ faults i ∧ (∃ msg, reply = .error 500 msg) ∧ m₁ = m) ∧
    Explains h requests faults replies rest m₁ m'

/-- The reply of a handler that has returned. -/
def replyOf (pool : Pool ItemStmt Err Table ItemReply) (i : Nat) : Option ItemReply :=
  match pool.threads[i]? with
  | some (.ret reply) => some reply
  | _ => none

section Concurrent
variable {h : Host}

theorem serially_other {faults : Nat → List Bool} {order : List Nat} {pool : Pool ItemStmt Err Table ItemReply} {i : Nat}
    (absent : i ∉ order) : (serially (itemMachine h) faults order pool).threads[i]? = pool.threads[i]? := by
  induction order generalizing pool with
  | nil => rfl
  | cons j rest ih =>
    have different : j ≠ i := fun same => absent (same ▸ List.mem_cons_self)
    exact (ih fun member => absent (List.mem_cons_of_mem _ member)).trans (complete_other different)

/-- Requests that run one after another are explained by the shelf. -/
theorem serially_explained (requests : List ItemRequest) (faults : Nat → List Bool) {order : List Nat} (nodup : order.Nodup)
    {pool : Pool ItemStmt Err Table ItemReply} {m : Shelf} (represents : Represents pool.shared m)
    (waiting : ∀ i ∈ order, ∃ request, requests[i]? = some request ∧ pool.threads[i]? = some request.handle) :
    ∃ m', Represents (serially (itemMachine h) faults order pool).shared m' ∧
      Explains h requests faults (replyOf (serially (itemMachine h) faults order pool)) order m m' := by
  induction order generalizing pool m with
  | nil => exact ⟨m, represents, rfl⟩
  | cons i rest ih =>
    obtain ⟨fresh, nodup⟩ := List.nodup_cons.mp nodup
    obtain ⟨request, given, thread⟩ := waiting i List.mem_cons_self
    obtain ⟨reply, t₁, m₁, ran, represents₁, served⟩ := handle_serves (h := h) represents request (faults i)
    obtain ⟨ended, moved⟩ := complete_self (M := itemMachine h) (faults i) thread
    rw [ran] at ended moved
    have represented : Represents (complete (itemMachine h) (faults i) pool i).shared m₁ := by rw [moved]; exact represents₁
    obtain ⟨m', last, explained⟩ := ih nodup represented fun j member => by
      obtain ⟨request, given, thread⟩ := waiting j (List.mem_cons_of_mem _ member)
      have different : i ≠ j := fun same => fresh (same ▸ member)
      exact ⟨request, given, (complete_other different).trans thread⟩
    have replied : replyOf (serially (itemMachine h) faults rest (complete (itemMachine h) (faults i) pool i)) i = some reply := by
      simp only [replyOf, serially_other fresh, ended, outcome]
    exact ⟨m', last, request, reply, m₁, given, replied, served, explained⟩

/-- The shelf of a new database. -/
def Shelf.empty : Shelf := ⟨∅, 0, fun _ member => absurd member (Finmap.notMem_empty)⟩

theorem represents_schema : Represents schema Shelf.empty where
  kind := rfl
  entry := by
    intro id e
    have rows : schema.rows = [] := rfl
    rw [rows, Shelf.empty, Finmap.lookup_empty]
    simp
  high := rfl

/-- A host whose vectors fit the table. -/
def wideHost : Host := { Host.uniform with embed := fun _ => .ok (List.replicate 768 0) }

/-- Two inserts and a listing, step by step in turn, on a new database. -/
def threeRequests : List ItemRequest := [.insert (.ok ⟨0, "uno"⟩), .insert (.ok ⟨7, "siete"⟩), .list .empty]

def inTurn : List Turn := [(0, false), (1, false), (2, false), (0, false), (1, true)]

end Concurrent
end Microserver.Shelves
