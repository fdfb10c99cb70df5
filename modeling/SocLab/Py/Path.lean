import SocLab.Py.Text

/-!
# SocLab.Py.Path — `pathlib.Path` on a POSIX system, and the file system below it

A `Path` is a list of components, absolute or not; the operations of `PurePath` are lexical.  A
`FileSystem` is what the system calls of `Path` answer; it does not change while it is read.
-/

namespace Py

/-- The components below the anchor; `..` stays a component. -/
structure Path where
  isAbsolute : Bool
  parts : List String
  deriving DecidableEq

namespace Path

/-- `path / "a" / "b"` for components that are not empty. -/
def below (p : Path) (rel : List String) : Path := { p with parts := p.parts ++ rel }

/-- `path / part` for a single component or the empty text. -/
def join (p : Path) (part : String) : Path := if part = "" then p else p.below [part]

/-- `path / "a" / "b"`, component by component. -/
def joins (p : Path) (parts : List String) : Path := parts.foldl join p

/-- `path.name`. -/
def name (p : Path) : String := p.parts.getLastD ""

/-- `path.relative_to(root)`; none for a `ValueError`. -/
def relativeTo (p root : Path) : Option (List String) :=
  if p.isAbsolute = root.isAbsolute ∧ root.parts <+: p.parts then some (p.parts.drop root.parts.length)
  else none

/-- `path.as_posix()` for a relative path. -/
def asPosix (rel : List String) : String := if rel = [] then "." else "/".intercalate rel

/-- The suffix of a name: from its last dot on, unless the name starts or ends with that dot. -/
def suffixOf (name : String) : String :=
  let l := name.toList
  match l.reverse.findIdx? (· = '.') with
  | none => ""
  | some k =>
    let i := l.length - 1 - k
    if 0 < i ∧ i < l.length - 1 then String.ofList (l.drop i) else ""

/-- `path.suffix`. -/
def suffix (p : Path) : String := suffixOf p.name

theorem relativeTo_below (root : Path) (rel : List String) :
    (root.below rel).relativeTo root = some rel := by
  simp [relativeTo, below]

theorem relativeTo_eq_some {p root : Path} {rel : List String} :
    p.relativeTo root = some rel ↔ p = root.below rel := by
  constructor
  · intro h
    unfold relativeTo at h
    split_ifs at h with hprefix
    obtain ⟨habsolute, hparts⟩ := hprefix
    obtain ⟨p, parts⟩ := p
    obtain ⟨rest, rfl⟩ := hparts
    cases habsolute
    rw [Option.some.injEq, List.drop_left] at h
    rw [h]
    rfl
  · rintro rfl
    exact relativeTo_below root rel

theorem below_below (p : Path) (rel rel' : List String) :
    (p.below rel).below rel' = p.below (rel ++ rel') := by
  simp [below]

theorem below_nil (p : Path) : p.below [] = p := by simp [below]

/-- Components that are not empty are joined as they are. -/
theorem joins_eq_below {p : Path} {rel : List String} (h : ∀ part ∈ rel, part ≠ "") :
    p.joins rel = p.below rel := by
  induction rel generalizing p with
  | nil => exact (below_nil p).symm
  | cons part rel ih =>
    have hjoin : p.join part = p.below [part] := if_neg (h part (by simp))
    rw [joins, List.foldl_cons, hjoin]
    exact (ih fun q hq => h q (by simp [hq])).trans (below_below p [part] rel)

theorem name_below_singleton (p : Path) (n : String) : (p.below [n]).name = n := by
  simp [name, below, List.getLastD_eq_getLast?]

/-- A text without a slash is the POSIX path of one component only. -/
theorem asPosix_eq_iff {rel : List String} {s : String} (hslash : '/' ∉ s.toList) (hdot : s ≠ ".") :
    asPosix rel = s ↔ rel = [s] := by
  match rel with
  | [] => simp [asPosix, hdot.symm]
  | [name] => simp [asPosix]
  | a :: b :: rel =>
    refine iff_of_false ?_ (by simp)
    rintro rfl
    refine hslash ?_
    simp [asPosix]

example : suffixOf "a.b.yaml" = ".yaml" ∧ suffixOf ".yaml" = "" ∧ suffixOf "a." = "" := by decide

end Path

/-- What the mode of a file says. -/
inductive FileKind where
  | regular
  | directory
  | link
  | other
  deriving DecidableEq

/-- `os.lstat`: the kind, and whether the reparse-point attribute is set. -/
structure Stat where
  kind : FileKind
  reparse : Bool := false
  deriving DecidableEq

/-- The exceptions of the system calls: an `OSError` (or the `RuntimeError` of a loop of links), a
`UnicodeError` of a path or a content, and any other `ValueError`, which is what a path with a null character
gives. -/
inductive PathError where
  | os
  | unicode
  | value
  deriving DecidableEq

/-- Every `UnicodeError` is a `ValueError`. -/
def PathError.isValueError : PathError → Bool
  | os => false
  | unicode | value => true

/-- A file system, by what it answers. -/
structure FileSystem where
  lstat : Path → Except PathError Stat
  /-- `none` for an `OSError`; a `ValueError` is `False` for `path.is_dir()`. -/
  isDir : Path → Option Bool
  /-- The names in a directory, in the order of the system. -/
  iterdir : Path → Except PathError (List String)
  /-- `path.resolve(strict=True)`. -/
  resolve : Path → Except PathError Path
  readText : Path → Except PathError String

end Py
