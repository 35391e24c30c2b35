import Mathlib.Data.List.Nodup
import Microserver.Base64
import Microserver.FixedWidth
import Microserver.Programs
import Microserver.Ranking
import Microserver.Requests

/-!
The backup directory: rotation, listing and download of backups, and what the
file system does for each of their calls. Paths are relative to the directory.
-/
namespace Microserver.Backups
open Microserver.Base64 Microserver.Programs Microserver.Ranking Microserver.Requests

/-! ### The directory -/

inductive FileErr
  | notExist
  | fault
  | errorf (msg : String)
  | wrapped (context : String) (err : FileErr)
deriving DecidableEq

def FileErr.error : FileErr → String
  | .notExist => "no such file or directory"
  | .fault => "input/output error"
  | .errorf msg => msg
  | .wrapped context err => context ++ ": " ++ err.error

/-- What stands under a name. `irregular` is all that is neither a file nor a
    directory: a symbolic link, a FIFO, a socket, a device. -/
inductive EntryKind
  | file
  | dir
  | irregular
deriving DecidableEq

/-- An entry of the backup directory; times are in nanoseconds, the content is what
    reading it gives. -/
structure Entry where
  name : String
  kind : EntryKind
  modTime : Int
  content : Bytes
deriving DecidableEq

/-- `e.IsDir()` -/
def Entry.isDir (e : Entry) : Bool := e.kind = .dir

/-- The entries of the directory; the name is the key. -/
structure Listing where
  entries : List Entry
  key : (entries.map (·.name)).Nodup

/-- The backup directory, when it is there. -/
abbrev Directory := Option Listing

def Listing.empty : Listing := ⟨[], List.nodup_nil⟩

def Listing.remove (d : Listing) (name : String) : Listing :=
  ⟨d.entries.filter fun e => e.name ≠ name, d.key.sublist (List.filter_sublist.map _)⟩

/-- The listing without a file of no bytes under a name; VACUUM INTO writes over it. -/
def Listing.discardEmpty (d : Listing) (name : String) : Listing :=
  ⟨d.entries.filter fun e => !(e.name = name && !e.isDir && e.content.isEmpty), d.key.sublist (List.filter_sublist.map _)⟩

/-- A new file under a name that is free. -/
def Listing.add (d : Listing) (e : Entry) : Option Listing :=
  if taken : e.name ∈ d.entries.map (·.name) then none
  else some ⟨d.entries ++ [e], by
    rw [List.map_append, List.nodup_append]
    refine ⟨d.key, by simp, ?_⟩
    rintro a member b last rfl
    rw [List.map_singleton, List.mem_singleton] at last
    exact taken (last ▸ member)⟩

/-- The calls of the file system. `vacuumInto` is SQLite's, `image` the file that
    it writes for the database. -/
inductive FileStmt : Type → Type
  | mkdirAll : FileStmt Unit
  | vacuumInto (name : String) (now : Int) (image : Bytes) : FileStmt Unit
  | readDir : FileStmt (List Entry)
  | remove (name : String) : FileStmt Unit
  | stat (name : String) : FileStmt Entry

def FileStmt.exec {β : Type} : FileStmt β → Directory → Except FileErr (β × Directory)
  | .mkdirAll, none => .ok ((), some Listing.empty)
  | .mkdirAll, some d => .ok ((), some d)
  | .vacuumInto _ _ _, none => .error (.errorf "unable to open database file")
  | .vacuumInto name now image, some d =>
    match (d.discardEmpty name).add ⟨name, .file, now, image⟩ with
    | none =>
      .error (.errorf (if d.entries.any fun e => e.name = name && e.isDir then "unable to open database file"
        else "output file already exists"))
    | some d' => .ok ((), some d')
  | .readDir, none => .error .notExist
  | .readDir, some d => .ok (sortBy (·.name) d.entries, some d)
  | .remove _, none => .error .notExist
  | .remove name, some d => if name ∈ d.entries.map (·.name) then .ok ((), some (d.remove name)) else .error .notExist
  | .stat _, none => .error .notExist
  | .stat name, some d =>
    match d.entries.find? (fun e => e.name = name) with
    | none => .error .notExist
    | some e => .ok (e, some d)

def fileMachine : Machine FileStmt FileErr Directory where
  exec := FileStmt.exec
  fault := .fault

abbrev FileOp (α : Type) := Prog FileStmt FileErr α

/-! ### Names -/

def backupPrefix : String := "backup-"
def backupSuffix : String := ".db"

/-- What pruneBackups and listBackupFiles take for a backup. -/
def isBackup (e : Entry) : Bool :=
  !e.isDir && backupPrefix.toList.isPrefixOf e.name.toList && backupSuffix.toList.isSuffixOf e.name.toList

/-- A text that meets one test for each of its characters. -/
def matchesAll : List (Char → Bool) → List Char → Bool
  | [], [] => true
  | test :: tests, c :: cs => test c && matchesAll tests cs
  | _, _ => false

def literally (text : String) : List (Char → Bool) := text.toList.map fun c d => c == d

def backupNameRe (name : String) : Bool :=
  matchesAll (literally backupPrefix ++ List.replicate 8 Char.isDigit ++ literally "-" ++ List.replicate 6 Char.isDigit ++
    literally "." ++ List.replicate 9 Char.isDigit ++ literally backupSuffix) name.toList

/-- A number in at least `width` digits. -/
def padded (width : Nat) (n : Nat) : String := String.ofList (FixedWidth.digits width n)

/-- The year, month and day of a day since the epoch, in the Gregorian calendar. -/
def civil (day : Int) : Int × Nat × Nat :=
  -- years begin in March, in eras of 400 years
  let shifted := day + 719468
  let era := shifted / 146097
  let dayOfEra := (shifted % 146097).toNat
  let yearOfEra := (dayOfEra - dayOfEra / 1460 + dayOfEra / 36524 - dayOfEra / 146096) / 365
  let dayOfYear := dayOfEra - (365 * yearOfEra + yearOfEra / 4 - yearOfEra / 100)
  let month := (5 * dayOfYear + 2) / 153
  let year := yearOfEra + era * 400
  (if month < 10 then year else year + 1, if month < 10 then month + 3 else month - 9,
    dayOfYear - (153 * month + 2) / 5 + 1)

/-- `t.UTC().Format("20060102-150405.000000000")`. -/
def formatUTC (t : Int) : String :=
  let second := t / 1000000000
  let (year, month, day) := civil (second / 86400)
  let ofDay := (second % 86400).toNat
  (if year < 0 then "-" else "") ++ padded 4 year.natAbs ++ padded 2 month ++ padded 2 day ++ "-" ++
    padded 2 (ofDay / 3600) ++ padded 2 (ofDay / 60 % 60) ++ padded 2 (ofDay % 60) ++ "." ++
    padded 9 (t % 1000000000).toNat

def backupName (now : Int) : String := backupPrefix ++ formatUTC now ++ backupSuffix

example : backupName 1709210096123456789 = "backup-20240229-123456.123456789.db" := by decide

/-! ### The operations -/

def removeBackups : List String → FileOp Unit
  | [] => .ret ()
  | n :: rest => do
    .call (.wrapped ("removing old backup " ++ n)) (.remove n)
    removeBackups rest

def pruneBackups (keep : Nat) : FileOp Unit := do
  let entries ← .call (.wrapped "reading backup dir") .readDir
  let names := sortBy id ((entries.filter isBackup).map (·.name))
  if names.length ≤ keep then .ret () else removeBackups (names.take (names.length - keep))

/-- `now` is the reading of the clock. The backup stays when pruning fails, but
    then there is an error besides its path. -/
def BackupRotate (now : Int) (image : Bytes) (keep : Nat) : FileOp String := do
  .call (.wrapped "creating backup dir") .mkdirAll
  let name := backupName now
  .call (.wrapped "backing up database") (.vacuumInto name now image)
  (pruneBackups keep).within (.wrapped "backup succeeded but pruning old backups failed")
  return name

structure BackupInfo where
  name : String
  sizeBytes : Nat
  createdAt : Int
deriving DecidableEq

def Entry.info (e : Entry) : BackupInfo := ⟨e.name, e.content.length, e.modTime⟩

/-- `e.Info()` of each entry that is a backup, in order. -/
def backupInfos : List Entry → FileOp (List BackupInfo)
  | [] => .ret []
  | e :: rest =>
    if isBackup e then do
      let current ← .call (.wrapped ("stat-ing backup " ++ e.name)) (.stat e.name)
      let backups ← backupInfos rest
      return { current.info with name := e.name } :: backups
    else backupInfos rest

/-- Newest first; a directory that is not there has no backups. -/
def listBackupFiles : FileOp (List BackupInfo) := do
  match ← (Prog.call (fun e => e) FileStmt.readDir : FileOp (List Entry)).attempt with
  | .error e => if e = .notExist then return [] else .fail (.wrapped "reading backup dir" e)
  | .ok entries =>
    let backups ← backupInfos entries
    return sortBy (fun b => OrderDual.toDual b.name) backups

def backupFilePath (name : String) : Except FileErr String :=
  if !backupNameRe name then .error (.errorf "invalid backup name") else .ok name

/-! ### The handlers -/

def backupKeep : Nat := 7

/-- What the handlers of backups write. -/
inductive BackupBody
  | info (backup : BackupInfo)
  | infos (backups : List BackupInfo)
  | file (name : String) (content : Bytes)

def handleTriggerBackup (now : Int) (image : Bytes) : FileOp (Written BackupBody) := do
  match ← (BackupRotate now image backupKeep).attempt with
  | .error e => return .error 500 e.error
  | .ok path =>
    match ← (Prog.call (fun e => e) (FileStmt.stat path) : FileOp Entry).attempt with
    | .error e => return .error 500 e.error
    | .ok info => return .json 201 (.info info.info)

def handleListBackups : FileOp (Written BackupBody) := do
  match ← listBackupFiles.attempt with
  | .error e => return .error 500 e.error
  | .ok backups => return .json 200 (.infos backups)

/-- A directory opens, but nothing can be copied from it. -/
def handleDownloadBackup (name : String) : FileOp (Written BackupBody) :=
  match backupFilePath name with
  | .error e => .ret (.error 400 e.error)
  | .ok path => do
    match ← (Prog.call (fun e => e) (FileStmt.stat path) : FileOp Entry).attempt with
    | .error e => return if e = .notExist then .error 404 "backup not found" else .error 500 e.error
    | .ok f => return .json 200 (.file path (if f.isDir then [] else f.content))

end Microserver.Backups
