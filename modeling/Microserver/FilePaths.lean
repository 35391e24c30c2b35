import Mathlib.Data.String.Basic

/-!
Paths with slashes. A path is cleaned element by element: empty elements and `.`
go, and `..` takes the element before it along. A path that is joined to a plain
name is the cleaned path with one more element.
-/
namespace Microserver.FilePaths

/-- A path in its shortest form. -/
structure Path where
  rooted : Bool
  elements : List (List Char)

namespace Path

def text (p : Path) : List Char :=
  if p.rooted then '/' :: ['/'].intercalate p.elements else if p.elements = [] then ['.'] else ['/'].intercalate p.elements

/-- The entry of that name in the directory. -/
def child (p : Path) (name : List Char) : Path := { p with elements := p.elements ++ [name] }

end Path

def components : List Char → List (List Char)
  | [] => [[]]
  | c :: cs =>
    if c = '/' then [] :: components cs
    else
      match components cs with
      | [] => [[c]]
      | element :: elements => (c :: element) :: elements

/-- One element of a path, behind those that are kept already, the last one first. -/
def cleanStep (rooted : Bool) (kept : List (List Char)) (element : List Char) : List (List Char) :=
  if element = [] ∨ element = ['.'] then kept
  else if element = ['.', '.'] then
    match kept with
    | [] => if rooted then [] else [element]
    | last :: before => if last = ['.', '.'] then element :: kept else before
  else element :: kept

def parse (path : List Char) : Path :=
  ⟨path.head? = some '/', ((components path).foldl (cleanStep (path.head? = some '/')) []).reverse⟩

/-- `filepath.Clean` -/
def clean (path : String) : String := String.ofList (parse path.toList).text

/-- `filepath.Join` of two elements; empty ones are passed over. -/
def join (dir name : String) : String :=
  if dir = "" then (if name = "" then "" else clean name) else if name = "" then clean dir else clean (dir ++ "/" ++ name)

/-- A name that stands for an entry of a directory. -/
structure Plain (name : List Char) : Prop where
  nonempty : name ≠ []
  noDot : name ≠ ['.']
  noDots : name ≠ ['.', '.']
  noSlash : '/' ∉ name

/-- The path is that of an entry of the directory, without further ones between. -/
def DirectChild (dir path : String) : Prop := ∃ name, Plain name ∧ path.toList = ((parse dir.toList).child name).text

theorem components_ne_nil (path : List Char) : components path ≠ [] := by
  cases path with
  | nil => exact List.cons_ne_nil _ _
  | cons c cs =>
    unfold components
    split
    · exact List.cons_ne_nil _ _
    · split <;> exact List.cons_ne_nil _ _

theorem components_append (before behind : List Char) :
    components (before ++ '/' :: behind) = components before ++ components behind := by
  induction before with
  | nil => rfl
  | cons c before ih =>
    rw [List.cons_append, components, components, ih]
    split
    · rfl
    · cases split : components before with
      | nil => exact absurd split (components_ne_nil before)
      | cons element elements => rfl

theorem components_plain {name : List Char} (noSlash : '/' ∉ name) : components name = [name] := by
  induction name with
  | nil => rfl
  | cons c name ih =>
    obtain ⟨first, rest⟩ := not_or.mp (List.mem_cons.not.mp noSlash)
    rw [components, if_neg (Ne.symm first), ih rest]

theorem cleanStep_plain {name : List Char} (plain : Plain name) (rooted : Bool) (kept : List (List Char)) :
    cleanStep rooted kept name = name :: kept := by
  unfold cleanStep
  rw [if_neg (by simp [plain.nonempty, plain.noDot]), if_neg plain.noDots]

/-- A name behind a directory. -/
theorem parse_child {dir name : List Char} (nonempty : dir ≠ []) (plain : Plain name) :
    parse (dir ++ '/' :: name) = (parse dir).child name := by
  have head : (dir ++ '/' :: name).head? = dir.head? := by
    cases dir with
    | nil => exact absurd rfl nonempty
    | cons c dir => rfl
  unfold parse Path.child
  rw [head, components_append, components_plain plain.noSlash, List.foldl_append, List.foldl_cons, List.foldl_nil,
    cleanStep_plain plain, List.reverse_cons]

theorem parse_name {name : List Char} (plain : Plain name) : parse name = (parse []).child name := by
  have head : name.head? ≠ some '/' := by
    cases name with
    | nil => simp
    | cons c name =>
      have first := (not_or.mp (List.mem_cons.not.mp plain.noSlash)).1
      simpa using Ne.symm first
  unfold parse Path.child
  rw [components_plain plain.noSlash, List.foldl_cons, List.foldl_nil, cleanStep_plain plain, decide_eq_false head]
  rfl

/-- What is joined to a plain name is a direct child. -/
theorem join_directChild (dir : String) {name : String} (plain : Plain name.toList) : DirectChild dir (join dir name) := by
  have named : name ≠ "" := fun same => plain.nonempty (by rw [same]; rfl)
  refine ⟨name.toList, plain, ?_⟩
  unfold join
  by_cases none : dir = ""
  · rw [if_pos none, if_neg named, none]
    unfold clean
    rw [String.toList_ofList, parse_name plain]
    rfl
  · rw [if_neg none, if_neg named]
    unfold clean
    have nonempty : dir.toList ≠ [] := fun same => none (String.toList_eq_nil_iff.mp same)
    have text : (dir ++ "/" ++ name).toList = dir.toList ++ '/' :: name.toList := by
      rw [String.toList_append, String.toList_append, List.append_assoc]
      rfl
    rw [String.toList_ofList, text, parse_child nonempty plain]

end Microserver.FilePaths
