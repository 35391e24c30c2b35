import Microserver.Linearization
import Microserver.VecItems

/-!
Concurrent requests of /items and /search. A handler embeds the texts of its
request first, which reads no table, and then makes one statement or transaction;
so it takes effect at one instant, and concurrent requests are answered as if
they had come one after another (`items_linearizable`).
-/
namespace Microserver.ItemRequests
open Microserver.Values Microserver.Store Microserver.Programs Microserver.Interleaving Microserver.Linearization
open Microserver.Handlers (Decoded)
open Microserver.Requests Microserver.Tokens Microserver.Params Microserver.VecItems

/-- The requests of the fixed table. -/
inductive ItemRequest
  | list (query : Query)
  | insert (body : Decoded InsertRequest)
  | bulkInsert (body : Decoded (List InsertRequest))
  | update (id : String) (body : Decoded InsertRequest)
  | delete (id : String)
  | search (query : Query)

/-- The handler of the request. -/
def ItemRequest.handle : ItemRequest → ItemOp ItemReply
  | .list query => handleList query
  | .insert body => handleInsert body
  | .bulkInsert body => handleBulkInsert body
  | .update id body => handleUpdate id body
  | .delete id => handleDelete id
  | .search query => handleSearch query

section Atomic
variable {h : Host} {α : Type}

/-- Any state of the table. -/
def anyTable (_ : Table) : Prop := True

theorem embed_looks {Q : Except Err Vector32 → Prop} (context text : String) (every : ∀ r, Q r) :
    Looks (itemMachine h) anyTable Q (embed context text) :=
  looks_call (r := h.embed text) (fun _ _ => rfl) (every _) (every _)

theorem prepareItems_looks (items : List BulkItem) (i : Nat) :
    Looks (itemMachine h) anyTable (fun _ => True) (prepareItems i items) := by
  induction items generalizing i with
  | nil => trivial
  | cons it rest ih =>
    refine looks_bind (embed_looks _ _ fun _ => trivial) (fun vec _ => ?_) fun _ _ => trivial
    exact looks_bind (ih (i + 1)) (fun _ _ => trivial) fun _ _ => trivial

theorem call_atomic {context : Err → Err} (c : ItemStmt α) :
    Atomic (itemMachine h) anyTable (.call context c : ItemOp α) := atomic_call fun _ _ _ _ _ => trivial

theorem answer_atomic {op : ItemOp α} {reply : α → ItemReply} (atomic : Atomic (itemMachine h) anyTable op) :
    Atomic (itemMachine h) anyTable (answer op reply) := by
  refine atomic_bind_finished (atomic_attempt atomic) fun outcome => ?_
  cases outcome <;> rfl

theorem withRequest_atomic {body : Decoded α} {handle : α → ItemOp ItemReply}
    (atomic : ∀ req, Atomic (itemMachine h) anyTable (handle req)) :
    Atomic (itemMachine h) anyTable (withRequest body handle) := by
  cases body with
  | error reply => trivial
  | ok req => exact atomic req

/-- An operation that embeds a text and then makes its statement. -/
theorem embed_atomic {context text : String} {op : Vector32 → ItemOp α}
    (atomic : ∀ vec, Atomic (itemMachine h) anyTable (op vec)) :
    Atomic (itemMachine h) anyTable ((embed context text).bind op) :=
  atomic_bind (Q := fun _ => True) (embed_looks _ _ fun _ => trivial) fun vec _ => atomic vec

/-- Every handler of items takes effect at one instant. -/
theorem handle_atomic (h : Host) (request : ItemRequest) : Atomic (itemMachine h) anyTable request.handle := by
  cases request with
  | list query =>
    simp only [ItemRequest.handle, handleList]
    cases parseLimitOffset query with
    | error msg => trivial
    | ok range => exact answer_atomic (call_atomic _)
  | insert body =>
    refine withRequest_atomic fun req => ?_
    split
    · trivial
    · split
      · exact answer_atomic (embed_atomic fun vec => atomic_bind_finished (call_atomic _) fun _ => rfl)
      · exact answer_atomic (embed_atomic fun vec => call_atomic _)
  | bulkInsert body =>
    refine withRequest_atomic fun reqs => ?_
    split
    · trivial
    · split
      · trivial
      · split
        · trivial
        · exact answer_atomic (atomic_bind (prepareItems_looks _ 0) fun preparedItems _ => call_atomic _)
  | update id body =>
    simp only [ItemRequest.handle, handleUpdate]
    cases parseInt id with
    | none => trivial
    | some id =>
      refine withRequest_atomic fun req => ?_
      split
      · trivial
      · exact answer_atomic (embed_atomic fun vec => call_atomic _)
  | delete id =>
    simp only [ItemRequest.handle, handleDelete]
    cases parseInt id with
    | none => trivial
    | some id => exact answer_atomic (atomic_bind_finished (call_atomic _) fun _ => rfl)
  | search query =>
    simp only [ItemRequest.handle, handleSearch]
    split
    · trivial
    · cases parseSearchLimit query with
      | error msg => trivial
      | ok limit =>
        cases parseRerank query with
        | error msg => trivial
        | ok rerank => exact answer_atomic (embed_atomic fun vec => call_atomic _)

end Atomic

/-- The requests that begin together on a table. -/
abbrev pool (requests : List ItemRequest) (t : Table) : Pool ItemStmt Err Table ItemReply := .start ItemRequest.handle requests t

/-- However the steps of concurrent requests are interleaved, and whichever of them
    fail, the requests are answered as if each had run alone, in the order in which
    they end, and the table is the one that this leaves. -/
theorem items_linearizable (h : Host) (requests : List ItemRequest) (schedule : List Turn) (t : Table) :
    Serial (itemMachine h) schedule (pool requests t) (commits (itemMachine h) schedule (pool requests t)) := by
  refine serial_commits (S := anyTable) schedule (fun p member => ?_) trivial
  obtain ⟨request, _, rfl⟩ := List.mem_map.mp member
  exact handle_atomic h request

end Microserver.ItemRequests
