import Microserver.Handlers

/-!
Request bodies: what decodeJSON makes of a body for each of the request types.
A struct takes the fields of the object one after the other, whatever the case
of their names; names that it does not have are passed over.
-/
namespace Microserver.Requests
open Microserver.Values Microserver.Statements Microserver.Operations Microserver.Handlers

/-- The body of a request as the decoder finds it: longer than limitBodySize
    admits, no JSON value, or a value. -/
inductive RequestBody
  | tooLarge
  | malformed
  | json (value : Json)

def maxRequestBodyBytes : Nat := 1048576

/-- encoding/json refuses values that are nested deeper. -/
def maxNestingDepth : Nat := 10000

/-- What a handler writes: a status with a value, an error, or a status alone. -/
inductive Written (α : Type)
  | json (status : Nat) (value : α)
  | error (status : Nat) (msg : String)
  | bare (status : Nat)

def Written.code {α : Type} : Written α → Nat
  | .json status _ => status
  | .error status _ => status
  | .bare status => status

def decodeJSON {α : Type} (decode : Json → Option α) : RequestBody → Decoded α
  | .tooLarge =>
    .error (writeError 413 ("request body too large (max " ++ toString maxRequestBodyBytes ++ " bytes)"))
  | .malformed => .error (writeError 400 "invalid JSON body")
  | .json value =>
    if maxNestingDepth < value.depth then .error (writeError 400 "invalid JSON body")
    else
      match decode value with
      | none => .error (writeError 400 "invalid JSON body")
      | some req => .ok req

/-! ### Structs -/

/-- Letters that encoding/json takes for one another in names. -/
def foldRune (c : Char) : Char := if c = 'ſ' then 's' else if c = '\u212A' then 'k' else c.toLower

def foldName (name : String) : String := String.ofList (name.toList.map foldRune)

/-- A struct from an object; `assign` stores one field, unless its type is wrong. -/
def decodeStruct {α : Type} (assign : String → Json → α → Option α) (zero : α) : Json → Option α
  | .null => some zero
  | .obj fields => fields.foldlM (fun req entry => assign (foldName entry.1) entry.2 req) zero
  | _ => none

/-- A slice from an array. -/
def decodeSlice {α : Type} (decode : Json → Option α) : Json → Option (List α)
  | .null => some []
  | .arr items => items.mapM decode
  | _ => none

/-- A value for a field of type string; null leaves the field as it is. -/
def asString (old : String) : Json → Option String
  | .str s => some s
  | .null => some old
  | _ => none

def asInt (old : Int) : Json → Option Int
  | .int n => some n
  | .null => some old
  | _ => none

def asBool (old : Bool) : Json → Option Bool
  | .bool b => some b
  | .null => some old
  | _ => none

/-! ### The requests on items -/

/-- A pointer field is nil for null; a raw message takes null as a value. -/
def assignDocument (name : String) (v : Json) (req : DocumentRequest) : Option DocumentRequest :=
  if name = "id" then
    match v with
    | .int n => some { req with id := some n }
    | .null => some { req with id := none }
    | _ => none
  else if name = "text" then (asString req.text v).map fun text => { req with text := text }
  else if name = "data" then some { req with data := some v }
  else some req

def decodeDocumentRequest : Json → Option DocumentRequest := decodeStruct assignDocument ⟨none, "", none⟩

/-- The body of an insert or update in the fixed table. -/
structure InsertRequest where
  id : Int
  text : String

def decodeInsertRequest : Json → Option InsertRequest :=
  decodeStruct (fun name v req =>
    if name = "id" then (asInt req.id v).map fun id => { req with id := id }
    else if name = "text" then (asString req.text v).map fun text => { req with text := text }
    else some req) ⟨0, ""⟩

/-! ### The requests on collections -/

def ReferenceMap.empty : ReferenceMap := ⟨[], List.nodup_nil⟩

/-- `m[field] = ref`. -/
def ReferenceMap.set (m : ReferenceMap) (field : String) (ref : ReferenceSpec) : ReferenceMap :=
  ⟨m.entries.filter (fun entry => entry.1 ≠ field) ++ [(field, ref)], by
    rw [List.map_append, List.nodup_append]
    refine ⟨m.distinct.sublist (List.filter_sublist.map _), by simp, ?_⟩
    rintro a member b last rfl
    obtain ⟨entry, kept, rfl⟩ := List.mem_map.mp member
    have different := (List.mem_filter.mp kept).2
    rw [List.map_singleton, List.mem_singleton] at last
    simp [last] at different⟩

def decodeReferenceSpec : Json → Option ReferenceSpec :=
  decodeStruct (fun name v ref =>
    if name = "collection" then (asString ref.collection v).map fun c => { ref with collection := c }
    else if name = "on_delete" then (asString ref.onDelete v).map fun d => { ref with onDelete := d }
    else some ref) ⟨"", ""⟩

def decodeReferences (old : ReferenceMap) : Json → Option ReferenceMap
  | .null => some ReferenceMap.empty
  | .obj fields => fields.foldlM (fun m entry => (decodeReferenceSpec entry.2).map fun ref => ReferenceMap.set m entry.1 ref) old
  | _ => none

structure CreateCollectionRequest where
  name : String
  vector : Bool
  dimensions : Int
  references : ReferenceMap

def decodeCreateCollectionRequest : Json → Option CreateCollectionRequest :=
  decodeStruct (fun name v req =>
    if name = "name" then (asString req.name v).map fun n => { req with name := n }
    else if name = "vector" then (asBool req.vector v).map fun b => { req with vector := b }
    else if name = "dimensions" then (asInt req.dimensions v).map fun d => { req with dimensions := d }
    else if name = "references" then (decodeReferences req.references v).map fun m => { req with references := m }
    else some req) ⟨"", false, 0, ReferenceMap.empty⟩

def decodeRenameCollectionRequest : Json → Option String :=
  decodeStruct (fun name v req => if name = "name" then asString req v else some req) ""

/-! ### The requests on users -/

structure LoginRequest where
  username : String
  password : String

def decodeLoginRequest : Json → Option LoginRequest :=
  decodeStruct (fun name v req =>
    if name = "username" then (asString req.username v).map fun u => { req with username := u }
    else if name = "password" then (asString req.password v).map fun p => { req with password := p }
    else some req) ⟨"", ""⟩

structure CreateUserRequest where
  username : String
  password : String
  role : String

def decodeCreateUserRequest : Json → Option CreateUserRequest :=
  decodeStruct (fun name v req =>
    if name = "username" then (asString req.username v).map fun u => { req with username := u }
    else if name = "password" then (asString req.password v).map fun p => { req with password := p }
    else if name = "role" then (asString req.role v).map fun r => { req with role := r }
    else some req) ⟨"", "", ""⟩

structure ChangePasswordRequest where
  currentPassword : String
  newPassword : String

def decodeChangePasswordRequest : Json → Option ChangePasswordRequest :=
  decodeStruct (fun name v req =>
    if name = "current_password" then (asString req.currentPassword v).map fun p => { req with currentPassword := p }
    else if name = "new_password" then (asString req.newPassword v).map fun p => { req with newPassword := p }
    else some req) ⟨"", ""⟩

def decodeResetPasswordRequest : Json → Option String :=
  decodeStruct (fun name v req => if name = "new_password" then asString req v else some req) ""

end Microserver.Requests
