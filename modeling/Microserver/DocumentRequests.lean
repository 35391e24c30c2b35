import Microserver.Items
import Microserver.Linearization
import Microserver.Router

/-!
Concurrent requests on the items of collections. Between its first statement,
which looks its collection up, and its last one, a request that sets no
reference, and deletes nothing that references can point at, looks at nothing
that other such requests change. So these requests are answered as if they had
come one after another (`documents_linearizable`). The single insert into a
collection with vectors is no such request: it makes two statements that count.
-/
namespace Microserver.DocumentRequests
open Microserver.Values Microserver.Store Microserver.Programs Microserver.Interleaving Microserver.Linearization
open Microserver.Statements Microserver.Operations Microserver.Schema Microserver.Items Microserver.Queries
open Microserver.Requests Microserver.Tokens Microserver.Params Microserver.ReadHandlers Microserver.Router

/-- A request on items, or for the list of the collections. -/
inductive Request
  | write (request : Handlers.ItemWrite)
  | listCollections
  | getDocument (name id : String)
  | listDocuments (name : String) (query : Query)
  | searchDocuments (name : String) (query : Query)
  | fullTextSearch (name : String) (query : Query)
  | aggregate (name : String) (query : Query)

/-- What a handler writes, as a response. -/
def responding {α : Type} (respond : α → Response) (handler : Op α) : Op Response := do
  return respond (← handler)

def Request.handle (E : Engine) : Request → Op Response
  | .write request => responding respondReply request.program
  | .listCollections => responding (respond .collections) handleListCollections
  | .getDocument name id => responding (respond .document) (handleGetDocument name id)
  | .listDocuments name query => responding (respond .documents) (handleListDocuments E name query)
  | .searchDocuments name query => responding (respond .documents) (handleSearchDocuments E name query)
  | .fullTextSearch name query => responding (respond .documents) (handleFullTextSearch E name query)
  | .aggregate name query => responding (respond .aggregates) (handleAggregate E name query)

/-! ### Requests without references -/

/-- The data sets none of the reference fields that the collection declares. -/
def SetsNone (s : DB) (name : String) (data : Option Json) : Prop :=
  ∀ fields, unmarshalFields data = .ok fields → ∀ r ∈ s.owned name, ∀ n, fields.lookup r.fieldName ≠ some (.int n)

/-- No collection that exists declares a reference to the collection. -/
def Untargeted (s : DB) (name : String) : Prop := ∀ r ∈ s.targeting name, s.lookup r.collectionName = none

/-- The request neither sets a reference nor deletes what a reference can point at,
    and is no single insert into a collection with vectors. -/
def Unreferencing (s : DB) : Request → Prop
  | .write (.insertDocument name body) =>
    (∀ req, body = .ok req → SetsNone s name req.data) ∧ ∀ c, s.lookup name = some c → c.hasVector = false
  | .write (.bulkInsertDocument name body) => ∀ reqs, body = .ok reqs → ∀ req ∈ reqs, SetsNone s name req.data
  | .write (.updateDocument name _ body) => ∀ req, body = .ok req → SetsNone s name req.data
  | .write (.deleteDocument name _) => Untargeted s name
  | _ => True

section Atomic
variable {h : Host} {E : Engine} {s₀ : DB} {α : Type}

theorem getCollection_looks {Q : Except Err Collection → Prop} {name : String}
    (found : ∀ c, s₀.lookup name = some c → Q (.ok c)) (errors : ∀ e, Q (.error e)) :
    Looks (machine h) (SameSchema s₀) Q (getCollection name) := by
  refine looks_bind (Q := fun r => ∀ there, r = .ok there → there = s₀.lookup name)
    (looks_call (r := .ok (s₀.lookup name)) (fun s same => ?_) ?_ ?_) ?_ ?_
  · show (Except.ok (s.lookup name)).map (fun b => (b, s)) = _
    rw [same.lookup]
  · rintro there ⟨⟩
    rfl
  · rintro there ⟨⟩
  · intro there same
    cases there with
    | none => exact errors _
    | some c => exact found c (same _ rfl).symm
  · exact fun e _ => errors e

theorem call_atomic {context : Err → Err} {c : Stmt α} (item : ItemStmt c) :
    Atomic (machine h) (SameSchema s₀) (.call context c : Op α) :=
  atomic_call fun _ _ _ same done => same.trans (exec_sameSchema item done)

theorem embed_looks {Q : Except Err Vector32 → Prop} (context text : String) (every : ∀ r, Q r) :
    Looks (machine h) (SameSchema s₀) Q (embed context text) :=
  looks_call (r := h.embed text) (fun _ _ => rfl) (every _) (every _)

/-- The check of references that are not set reads no items. -/
theorem validateEach_looks {parsed : List (String × Json)} {refs : List Reference}
    (none : ∀ ref ∈ refs, ∀ n, parsed.lookup ref.field ≠ some (.int n)) :
    Looks (machine h) (SameSchema s₀) (fun _ => True) (validateEach parsed refs) := by
  induction refs with
  | nil => trivial
  | cons ref rest ih =>
    have later := ih fun ref member => none ref (List.mem_cons_of_mem _ member)
    have first := none ref List.mem_cons_self
    rw [validateEach]
    cases value : parsed.lookup ref.field with
    | none => exact later
    | some v =>
      cases v with
      | null => exact later
      | int n => exact absurd value (first n)
      | bool _ | real _ | str _ | arr _ | obj _ => trivial

theorem validateReferences_looks {name : String} {data : Option Json} (none : SetsNone s₀ name data) :
    Looks (machine h) (SameSchema s₀) (fun _ => True) (validateReferences name data) := by
  refine looks_bind (Q := fun r => ∀ refs, r = .ok refs → ∀ ref ∈ refs, ∃ row ∈ s₀.owned name, ref.field = row.fieldName)
    (looks_call (r := .ok ((h.visit (s₀.owned name)).map fun r => ⟨r.fieldName, r.targetCollection, r.onDelete⟩))
      (fun s same => ?_) ?_ ?_) ?_ fun _ _ => trivial
  · have owned : s.owned name = s₀.owned name := by simp only [DB.owned, same.references]
    show (Except.ok ((h.visit (s.owned name)).map _)).map (fun b => (b, s)) = _
    rw [owned]
  · rintro refs ⟨⟩ ref member
    obtain ⟨row, visited, rfl⟩ := List.mem_map.mp member
    exact ⟨row, (h.visit_perm _).mem_iff.mp visited, rfl⟩
  · rintro refs ⟨⟩
  · intro refs declared
    split
    · trivial
    · cases read : unmarshalFields data with
      | error e => trivial
      | ok fields =>
        refine validateEach_looks fun ref member n => ?_
        obtain ⟨row, owned, field⟩ := declared refs rfl ref member
        rw [field]
        exact none fields read row owned n

theorem insertDocument_atomic {coll : Collection} {id : Option Int} {text : String} {data : Option Json}
    (none : SetsNone s₀ coll.name data) (plain : coll.hasVector = false) :
    Atomic (machine h) (SameSchema s₀) (insertDocument coll id text data) := by
  refine atomic_bind (validateReferences_looks none) fun _ _ => ?_
  rw [plain]
  exact call_atomic trivial

theorem prepareItems_looks {coll : Collection} {items : List BulkDocumentItem} (i : Nat)
    (none : ∀ it ∈ items, SetsNone s₀ coll.name it.data) :
    Looks (machine h) (SameSchema s₀) (fun _ => True) (Operations.prepareItems coll i items) := by
  induction items generalizing i with
  | nil => trivial
  | cons it rest ih =>
    have later := ih (i + 1) fun it member => none it (List.mem_cons_of_mem _ member)
    have packed (serialized : Vector32) : Looks (machine h) (SameSchema s₀) (fun _ => True)
        ((Operations.prepareItems coll (i + 1) rest).bind fun preparedItems =>
          .ret (⟨it.id, it.text, dataOrEmpty it.data, serialized⟩ :: preparedItems)) :=
      looks_bind later (fun _ _ => trivial) fun _ _ => trivial
    refine looks_bind (Q := fun _ => True) (looks_within (validateReferences_looks (none it List.mem_cons_self)))
      (fun _ _ => ?_) fun _ _ => trivial
    dsimp only
    split
    · exact looks_bind (Q := fun _ => True) (embed_looks _ _ fun _ => trivial) (fun vec _ => packed vec) fun _ _ => trivial
    · exact packed []

theorem insertDocumentBulk_atomic {coll : Collection} {items : List BulkDocumentItem}
    (none : ∀ it ∈ items, SetsNone s₀ coll.name it.data) :
    Atomic (machine h) (SameSchema s₀) (insertDocumentBulk coll items) :=
  atomic_bind (prepareItems_looks 0 none) fun _ _ => call_atomic trivial

theorem updateDocument_atomic {coll : Collection} {id : Int} {text : String} {data : Option Json}
    (none : SetsNone s₀ coll.name data) : Atomic (machine h) (SameSchema s₀) (updateDocument coll id text data) := by
  refine atomic_bind (validateReferences_looks none) fun _ _ => ?_
  split
  · exact atomic_bind_finished (call_atomic trivial) fun _ => rfl
  · exact atomic_bind (Q := fun _ => True) (embed_looks _ _ fun _ => trivial) fun _ _ => call_atomic trivial

/-- Left-over references from collections that are gone are passed by. -/
theorem checkDependents_looks {id : Int} {deps : List ReferenceDependent}
    (gone : ∀ dep ∈ deps, s₀.lookup dep.collectionName = none) :
    Looks (machine h) (SameSchema s₀) (fun _ => True) (checkDependents id deps) := by
  induction deps with
  | nil => trivial
  | cons dep rest ih =>
    have later := ih fun dep member => gone dep (List.mem_cons_of_mem _ member)
    refine looks_bind (Q := fun r => ∀ e, r = .ok e → ∀ c, e ≠ .ok c) (looks_attempt (getCollection_looks ?_ ?_)) ?_
      fun _ _ => trivial
    · intro c there
      rw [gone dep List.mem_cons_self] at there
      cases there
    · rintro e _ ⟨⟩ c ⟨⟩
    · intro outcome missing
      cases outcome with
      | ok c => exact absurd rfl (missing _ rfl c)
      | error e =>
        show Looks _ _ _ (if e.is .collectionNotFound then _ else _)
        split
        · exact later
        · trivial

theorem deleteDocument_atomic {coll : Collection} {id : Int} (untargeted : Untargeted s₀ coll.name) :
    Atomic (machine h) (SameSchema s₀) (deleteDocument coll id) := by
  refine atomic_bind (Q := fun _ => True) (looks_bind
    (Q := fun r => ∀ deps, r = .ok deps → ∀ dep ∈ deps, s₀.lookup dep.collectionName = none)
    (looks_call (r := .ok ((h.visit (s₀.targeting coll.name)).map fun r => ⟨r.collectionName, r.fieldName, r.onDelete⟩))
      (fun s same => ?_) ?_ ?_) (fun deps gone => checkDependents_looks (gone deps rfl)) fun _ _ => trivial)
    fun _ _ => call_atomic trivial
  · have targeting : s.targeting coll.name = s₀.targeting coll.name := by simp only [DB.targeting, same.references]
    show (Except.ok ((h.visit (s.targeting coll.name)).map _)).map (fun b => (b, s)) = _
    rw [targeting]
  · rintro deps ⟨⟩ dep member
    obtain ⟨row, visited, rfl⟩ := List.mem_map.mp member
    exact untargeted row ((h.visit_perm _).mem_iff.mp visited)
  · rintro deps ⟨⟩

/-! ### The handlers -/

theorem answer_atomic {op : Op α} {reply : α → Handlers.Reply} (atomic : Atomic (machine h) (SameSchema s₀) op) :
    Atomic (machine h) (SameSchema s₀) (Handlers.answer op reply) := by
  refine atomic_bind_finished (atomic_attempt atomic) fun outcome => ?_
  cases outcome <;> rfl

theorem reply_atomic {op : Op α} {onError : Err → Written α} (atomic : Atomic (machine h) (SameSchema s₀) op) :
    Atomic (machine h) (SameSchema s₀) (reply op onError) := by
  refine atomic_bind_finished (atomic_attempt atomic) fun outcome => ?_
  cases outcome <;> rfl

theorem responding_atomic {respond : α → Response} {op : Op α} (atomic : Atomic (machine h) (SameSchema s₀) op) :
    Atomic (machine h) (SameSchema s₀) (responding respond op) := atomic_bind_finished atomic fun _ => rfl

/-- A handler goes on with the registry row of the name, which does not change. -/
theorem withCollection_atomic {name : String} {handle : Collection → Op Handlers.Reply}
    (atomic : ∀ c, s₀.lookup name = some c → Atomic (machine h) (SameSchema s₀) (handle c)) :
    Atomic (machine h) (SameSchema s₀) (Handlers.withCollection name handle) := by
  refine atomic_bind (Q := fun r => ∀ c, r = .ok (.ok c) → s₀.lookup name = some c)
    (looks_attempt (getCollection_looks ?_ ?_)) ?_
  · rintro c there _ ⟨⟩
    exact there
  · rintro e _ ⟨⟩
  · intro outcome there
    cases outcome with
    | error e => trivial
    | ok c => exact atomic c (there c rfl)

theorem readCollection_atomic {name : String} {handle : Collection → Op (Written α)}
    (atomic : ∀ c, Atomic (machine h) (SameSchema s₀) (handle c)) :
    Atomic (machine h) (SameSchema s₀) (withCollection name handle) := by
  refine atomic_bind (Q := fun _ => True)
    (looks_attempt (getCollection_looks (fun _ _ => trivial) fun _ => trivial)) fun outcome _ => ?_
  cases outcome with
  | error e => trivial
  | ok c => exact atomic c

theorem withBody_atomic {body : Handlers.Decoded α} {handle : α → Op Handlers.Reply}
    (atomic : ∀ req, body = .ok req → Atomic (machine h) (SameSchema s₀) (handle req)) :
    Atomic (machine h) (SameSchema s₀) (Handlers.withBody body handle) := by
  cases body with
  | error reply => trivial
  | ok req => exact atomic req rfl

theorem withParams_atomic {β : Type} {params : Except String α} {handle : α → Op (Written β)}
    (atomic : ∀ a, Atomic (machine h) (SameSchema s₀) (handle a)) :
    Atomic (machine h) (SameSchema s₀) (withParams params handle) := by
  cases params with
  | error msg => trivial
  | ok a => exact atomic a

/-- Every handler of items takes effect at one instant, where it has no reference
    to look after. -/
theorem handle_atomic (h : Host) (E : Engine) {s₀ : DB} {request : Request} (plain : Unreferencing s₀ request) :
    Atomic (machine h) (SameSchema s₀) (request.handle E) := by
  have named {name : String} {c : Collection} (there : s₀.lookup name = some c) : c.name = name := (DB.lookup_some there).2
  cases request with
  | write request =>
    cases request with
    | insertDocument name body =>
      refine responding_atomic (withCollection_atomic fun c there => withBody_atomic fun req decoded => ?_)
      have none := plain.1 req decoded
      rw [← named there] at none
      split
      · trivial
      · exact answer_atomic (insertDocument_atomic none (plain.2 c there))
    | bulkInsertDocument name body =>
      refine responding_atomic (withCollection_atomic fun c there => withBody_atomic fun reqs decoded => ?_)
      have none : ∀ it ∈ reqs.map fun req => (⟨req.id, req.text, req.data⟩ : BulkDocumentItem), SetsNone s₀ c.name it.data := by
        intro it member
        obtain ⟨req, given, rfl⟩ := List.mem_map.mp member
        rw [named there]
        exact plain reqs decoded req given
      split
      · trivial
      · split
        · trivial
        · split
          · trivial
          · exact answer_atomic (insertDocumentBulk_atomic none)
    | updateDocument name id body =>
      refine responding_atomic (withCollection_atomic fun c there => ?_)
      cases id with
      | none => trivial
      | some id =>
        refine withBody_atomic fun req decoded => ?_
        have none := plain req decoded
        rw [← named there] at none
        split
        · trivial
        · exact answer_atomic (updateDocument_atomic none)
    | deleteDocument name id =>
      refine responding_atomic (withCollection_atomic fun c there => ?_)
      cases id with
      | none => trivial
      | some id =>
        have untargeted : Untargeted s₀ c.name := by rw [named there]; exact plain
        exact answer_atomic (deleteDocument_atomic untargeted)
  | listCollections => exact responding_atomic (reply_atomic (call_atomic trivial))
  | getDocument name id =>
    refine responding_atomic (readCollection_atomic fun c => ?_)
    cases parseInt id with
    | none => trivial
    | some id =>
      refine reply_atomic (atomic_bind_finished (call_atomic trivial) fun found => ?_)
      cases found <;> rfl
  | listDocuments name query =>
    refine responding_atomic (readCollection_atomic fun c => withParams_atomic fun range => withParams_atomic fun filters =>
      withParams_atomic fun sort => reply_atomic (call_atomic trivial))
  | searchDocuments name query =>
    refine responding_atomic (readCollection_atomic fun c => ?_)
    dsimp only
    split
    · trivial
    · refine withParams_atomic fun limit => withParams_atomic fun rerank => withParams_atomic fun filters =>
        withParams_atomic fun sort => reply_atomic ?_
      unfold searchDocuments
      split
      · trivial
      · exact atomic_bind (Q := fun _ => True) (embed_looks _ _ fun _ => trivial) fun _ _ => call_atomic trivial
  | fullTextSearch name query =>
    refine responding_atomic (readCollection_atomic fun c => ?_)
    dsimp only
    split
    · trivial
    · refine withParams_atomic fun range => withParams_atomic fun filters => withParams_atomic fun sort => reply_atomic ?_
      unfold fullTextSearchDocuments
      split
      · trivial
      · exact call_atomic trivial
  | aggregate name query =>
    refine responding_atomic (readCollection_atomic fun c => ?_)
    dsimp only
    split
    · trivial
    · refine withParams_atomic fun filters => reply_atomic ?_
      unfold aggregateDocuments
      split
      · trivial
      · split
        · trivial
        · split
          · trivial
          · split
            · trivial
            · exact call_atomic trivial

end Atomic

/-- The requests that begin together on a database. -/
abbrev pool (E : Engine) (requests : List Request) (s : DB) : Pool Stmt Err DB Response := .start (Request.handle E) requests s

/-- Concurrent requests on items that set no reference and delete nothing that
    references can point at: however their steps are interleaved, and whichever of
    them fail, they are answered as if each had run alone, in the order in which they
    end, and the database is the one that this leaves. -/
theorem documents_linearizable (h : Host) (E : Engine) (requests : List Request) (schedule : List Turn) (s : DB)
    (plain : ∀ request ∈ requests, Unreferencing s request) :
    Serial (machine h) schedule (pool E requests s) (commits (machine h) schedule (pool E requests s)) := by
  refine serial_commits (S := SameSchema s) schedule (fun p member => ?_) (SameSchema.refl s)
  obtain ⟨request, given, rfl⟩ := List.mem_map.mp member
  exact handle_atomic h E (plain request given)

/-- A collection without vectors and without references. -/
def plainDB : DB := ((machine Host.uniform).eval (createCollection "a" false 0 ⟨[], List.nodup_nil⟩) openVecDB).2

/-- An insert, a delete of the item that it will make, and a listing, step by step in turn. -/
def threeRequests : List Request :=
  [.write (.insertDocument "a" (.ok ⟨none, "", none⟩)), .write (.deleteDocument "a" (some 1)), .listDocuments "a" .empty]

def inTurn : List Turn :=
  [(0, false), (1, false), (2, false), (0, false), (1, false), (2, false), (0, false), (1, false)]

theorem documents_linearizable_three : Serial (machine Host.uniform) inTurn (pool Engine.plain threeRequests plainDB)
    (commits (machine Host.uniform) inTurn (pool Engine.plain threeRequests plainDB)) := by
  have unreferenced : plainDB.references = [] := rfl
  refine documents_linearizable Host.uniform Engine.plain threeRequests inTurn plainDB ?_
  simp only [threeRequests, List.forall_mem_cons, List.not_mem_nil, false_implies, implies_true, and_true, Unreferencing,
    Untargeted, SetsNone, DB.owned, DB.targeting, unreferenced, List.filter_nil, true_and]
  rintro c ⟨⟩
  rfl

end Microserver.DocumentRequests
