import SocLab.Detection.Loader

/-!
# SocLab.Detection.Containment — what the loader reads lies below its root, behind no link

The file system is any answer to the system calls; it is fixed during a call.

* `Contained fs root path location`: `path` is the root and components below it, none of them `..` and none a
  link, and it resolves to `location` under the root.
* `checkedPath_eq_ok`: what `_checked_path` lets through is contained; `checkedPath_eq_exception`: a `ValueError`
  of the system escapes it, and `checkedPath_category`: every other failure is a file error.
* `loadDetectionRules_congr`: the content of other files does not matter to the loader.
* `loader_contained`: the contract of `_checked_path` holds of the paths whose check meets no `ValueError`.
-/

namespace SocLab

open Py Logic

/-- Something is at the path, and no link or reparse point. -/
def NoLink (fs : FileSystem) (path : Path) : Prop :=
  ∃ metadata, fs.lstat path = .ok metadata ∧ Stat.isLink metadata = false

/-- No component from the root down is a link or a reparse point. -/
def LinkFree (fs : FileSystem) (root : Path) (rel : List String) : Prop :=
  ∀ pre, pre <+: rel → NoLink fs (root.joins pre)

/-- The path lies below the root, lexically and behind no link, and so does what it resolves to. -/
structure Contained (fs : FileSystem) (root path location : Path) : Prop where
  lexical : ∃ rel, path = root.below rel ∧ ".." ∉ rel ∧ LinkFree fs root rel
  resolved : fs.resolve path = .ok location
  under : ∃ rel, location = root.below rel

/-- `resolve` follows links and nothing else: below a resolved root, a path behind no link stays as it is. -/
def FollowsLinks (fs : FileSystem) (root : Path) : Prop :=
  ∀ rel location, LinkFree fs root rel → fs.resolve (root.below rel) = .ok location → location = root.below rel

theorem Contained.location_eq {fs : FileSystem} {root path location : Path}
    (h : Contained fs root path location)
    (hfollows : FollowsLinks fs root) : location = path := by
  obtain ⟨rel, rfl, -, hfree⟩ := h.lexical
  exact hfollows rel location hfree h.resolved

/-! ### Paths -/

theorem relativePath_below {root : Path} {rel : List String} (h : ".." ∉ rel) :
    relativePath root (root.below rel) = Path.asPosix rel := by
  rw [relativePath, Path.relativeTo_below]
  exact if_neg h

/-- A path that is not called outside lies below the root. -/
theorem exists_of_relativePath {root path : Path} (h : relativePath root path ≠ "<outside-root>") :
    ∃ rel, path = root.below rel ∧ ".." ∉ rel := by
  unfold relativePath at h
  split at h
  · exact absurd rfl h
  · next rel hrel =>
    split_ifs at h with hparent
    · exact absurd rfl h
    · exact ⟨rel, Path.relativeTo_eq_some.mp hrel, hparent⟩

/-! ### The check -/

section Check

variable {fs : FileSystem} {root path location : Path}

theorem linkFree_nil : LinkFree fs root [] ↔ NoLink fs root := by
  constructor
  · intro h
    exact h [] List.prefix_rfl
  · intro h pre hpre
    rw [List.prefix_nil.mp hpre]
    exact h

theorem linkFree_concat {rel : List String} {part : String} :
    LinkFree fs root (rel ++ [part]) ↔ LinkFree fs root rel ∧ NoLink fs (root.joins (rel ++ [part])) := by
  constructor
  · intro h
    exact ⟨fun pre hpre => h pre (hpre.trans (List.prefix_append rel [part])), h _ List.prefix_rfl⟩
  · rintro ⟨hrel, hpart⟩ pre hpre
    rcases List.prefix_concat_iff.mp hpre with rfl | hpre
    · exact hpart
    · exact hrel pre hpre

/-- The loop over the components goes on where an earlier part of it ends. -/
theorem checkComponents_append (relative : String) (current : Path) (parts more : List String) :
    checkComponents fs relative current (parts ++ more) =
      (checkComponents fs relative current parts).bind fun _ =>
        checkComponents fs relative (current.joins parts) more := by
  induction parts generalizing current with
  | nil => rfl
  | cons part parts ih =>
    rw [List.cons_append, checkComponents, checkComponents]
    cases fs.lstat (current.join part) with
    | error error => rfl
    | ok metadata =>
      cases hlink : Stat.isLink metadata with
      | true => simp [hlink, Except.bind]
      | false =>
        have hjoins : current.joins (part :: parts) = (current.join part).joins parts := rfl
        simpa [hlink, hjoins] using ih (current.join part)

/-- The loop starts with the empty component, which is the root. -/
theorem checkComponents_concat (relative : String) (rel : List String) (part : String) :
    checkComponents fs relative root ("" :: (rel ++ [part])) =
      (checkComponents fs relative root ("" :: rel)).bind fun _ =>
        checkComponents fs relative (root.joins rel) [part] := by
  have hjoins : root.joins ("" :: rel) = root.joins rel := rfl
  rw [← List.cons_append, checkComponents_append, hjoins]

theorem checkComponents_singleton {relative part : String} {current : Path} :
    checkComponents fs relative current [part] = .ok () ↔ NoLink fs (current.join part) := by
  rw [checkComponents, NoLink]
  cases fs.lstat (current.join part) with
  | error error => simp
  | ok metadata => cases hlink : Stat.isLink metadata <;> simp [checkComponents, hlink]

theorem joins_concat (rel : List String) (part : String) :
    root.joins (rel ++ [part]) = (root.joins rel).join part := by
  rw [Path.joins, List.foldl_append]
  rfl

/-- **The loop looks at every component.** -/
theorem checkComponents_eq_ok {relative : String} {rel : List String} :
    checkComponents fs relative root ("" :: rel) = .ok () ↔ LinkFree fs root rel := by
  induction rel using List.reverseRecOn with
  | nil => exact checkComponents_singleton.trans linkFree_nil.symm
  | append_singleton rel part ih =>
    have hpart : checkComponents fs relative (root.joins rel) [part] = .ok () ↔
        NoLink fs (root.joins (rel ++ [part])) := by
      rw [joins_concat]
      exact checkComponents_singleton
    rw [checkComponents_concat, linkFree_concat, ← ih, ← hpart]
    cases checkComponents fs relative root ("" :: rel) with
    | error e => simp [Except.bind]
    | ok u => simp [Except.bind]

/-- **What `_checked_path` lets through**: a contained path that is not called like one outside. -/
theorem checkedPath_eq_ok : checkedPath fs root path = .ok location ↔
    relativePath root path ≠ "<outside-root>" ∧ Contained fs root path location := by
  unfold checkedPath
  dsimp only
  by_cases houtside : relativePath root path = "<outside-root>"
  · rw [if_pos houtside]
    exact iff_of_false (by rintro ⟨⟩) fun h => h.1 houtside
  rw [if_neg houtside]
  obtain ⟨rel, rfl, hparent⟩ := exists_of_relativePath houtside
  rw [Path.relativeTo_below, Option.getD_some, bind_eq_ok]
  constructor
  · rintro ⟨u, hcomponents, h⟩
    split at h
    · cases h
    · next resolved hresolved =>
      split_ifs at h with hunder
      cases h
      obtain ⟨rel', hrel'⟩ := Option.ne_none_iff_exists'.mp (by simpa using hunder)
      exact ⟨houtside, ⟨rel, rfl, hparent, checkComponents_eq_ok.mp hcomponents⟩, hresolved, rel',
        Path.relativeTo_eq_some.mp hrel'⟩
  · rintro ⟨-, ⟨rel', hrel', -, hfree⟩, hresolved, rel'', rfl⟩
    obtain rfl : rel = rel' := by simpa [Path.below] using hrel'
    refine ⟨(), checkComponents_eq_ok.mpr hfree, ?_⟩
    rw [hresolved]
    simp [Path.relativeTo_below]

/-! ### How the check fails -/

/-- The loop over the components comes, behind no link, to a path that the system refuses with a `ValueError`. -/
def RefusedComponent (fs : FileSystem) (root : Path) (rel : List String) : Prop :=
  ∃ pre error, pre <+: rel ∧ (∀ shorter, shorter <+: pre → shorter ≠ pre → NoLink fs (root.joins shorter)) ∧
    fs.lstat (root.joins pre) = .error error ∧ error.isValueError = true

/-- The check of the path meets a `ValueError`: at a component, or where it resolves what has no link. -/
def MeetsValueError (fs : FileSystem) (root path : Path) : Prop :=
  relativePath root path ≠ "<outside-root>" ∧ ∃ rel, path = root.below rel ∧
    (RefusedComponent fs root rel ∨
      LinkFree fs root rel ∧ ∃ error, fs.resolve path = .error error ∧ error.isValueError = true)

/-- One of the two file errors of the check. -/
def IsCheckError (relative : String) (e : DetectionRuleLoadError) : Prop :=
  ∃ category ∈ ["unsafe_path", "path_error"], e = .file relative category

theorem isCheckError_handle_iff {relative : String} {error : PathError} :
    IsCheckError relative (handlePathError relative "path_error" error) ↔ error.isValueError = false := by
  cases error with
  | os => exact iff_of_true ⟨"path_error", by simp, rfl⟩ rfl
  | unicode => exact iff_of_false (by rintro ⟨category, -, ⟨⟩⟩) (by decide)
  | value => exact iff_of_false (by rintro ⟨category, -, ⟨⟩⟩) (by decide)

theorem isCheckError_unsafePath (relative : String) : IsCheckError relative (.file relative "unsafe_path") :=
  ⟨"unsafe_path", by simp, rfl⟩

/-- One component fails with a file error, unless the system refuses it. -/
theorem checkComponents_singleton_error {relative part : String} {current : Path} {e : DetectionRuleLoadError}
    (h : checkComponents fs relative current [part] = .error e) :
    ¬ IsCheckError relative e ↔ ∃ error, fs.lstat (current.join part) = .error error ∧ error.isValueError = true := by
  rw [checkComponents] at h
  cases hlstat : fs.lstat (current.join part) with
  | error error =>
    rw [hlstat] at h
    cases h
    simp [isCheckError_handle_iff]
  | ok metadata =>
    rw [hlstat] at h
    dsimp only at h
    split_ifs at h
    · cases h
      refine iff_of_false (fun hnot => hnot (isCheckError_unsafePath relative)) ?_
      rintro ⟨error, ⟨⟩, -⟩
    · cases h

theorem refusedComponent_nil :
    RefusedComponent fs root [] ↔ ∃ error, fs.lstat root = .error error ∧ error.isValueError = true := by
  constructor
  · rintro ⟨pre, error, hpre, -, hlstat, herror⟩
    rw [List.prefix_nil.mp hpre] at hlstat
    exact ⟨error, hlstat, herror⟩
  · rintro ⟨error, hlstat, herror⟩
    refine ⟨[], error, List.prefix_rfl, fun shorter hshorter hne => ?_, hlstat, herror⟩
    exact absurd (List.prefix_nil.mp hshorter) hne

theorem refusedComponent_concat {rel : List String} {part : String} :
    RefusedComponent fs root (rel ++ [part]) ↔ RefusedComponent fs root rel ∨
      LinkFree fs root rel ∧
        ∃ error, fs.lstat (root.joins (rel ++ [part])) = .error error ∧ error.isValueError = true := by
  constructor
  · rintro ⟨pre, error, hpre, hbefore, hlstat, herror⟩
    rcases List.prefix_concat_iff.mp hpre with rfl | hpre
    · refine Or.inr ⟨fun shorter hshorter => ?_, error, hlstat, herror⟩
      refine hbefore shorter (hshorter.trans (List.prefix_append rel [part])) ?_
      rintro rfl
      simpa using hshorter.length_le
    · exact Or.inl ⟨pre, error, hpre, hbefore, hlstat, herror⟩
  · rintro (⟨pre, error, hpre, hbefore, hlstat, herror⟩ | ⟨hfree, error, hlstat, herror⟩)
    · exact ⟨pre, error, hpre.trans (List.prefix_append rel [part]), hbefore, hlstat, herror⟩
    · refine ⟨rel ++ [part], error, List.prefix_rfl, fun shorter hshorter hne => ?_, hlstat, herror⟩
      exact hfree shorter ((List.prefix_concat_iff.mp hshorter).resolve_left hne)

/-- Nothing on a link-free path is refused. -/
theorem LinkFree.not_refused {rel : List String} (h : LinkFree fs root rel) : ¬ RefusedComponent fs root rel := by
  rintro ⟨pre, error, hpre, -, hlstat, -⟩
  obtain ⟨metadata, hmetadata, -⟩ := h pre hpre
  cases hlstat.symm.trans hmetadata

/-- **How the loop fails**: with a file error, unless it comes to a refused component. -/
theorem checkComponents_error {relative : String} {rel : List String} {e : DetectionRuleLoadError}
    (h : checkComponents fs relative root ("" :: rel) = .error e) :
    ¬ IsCheckError relative e ↔ RefusedComponent fs root rel := by
  induction rel using List.reverseRecOn with
  | nil => exact (checkComponents_singleton_error h).trans refusedComponent_nil.symm
  | append_singleton rel part ih =>
    rw [checkComponents_concat] at h
    rw [refusedComponent_concat]
    cases hrel : checkComponents fs relative root ("" :: rel) with
    | error e' =>
      rw [hrel] at h
      cases h
      have hnotFree : ¬ LinkFree fs root rel := by
        intro hfree
        cases hrel.symm.trans (checkComponents_eq_ok.mpr hfree)
      rw [ih hrel]
      exact (or_iff_left fun hboth => hnotFree hboth.1).symm
    | ok u =>
      -- Nothing is refused in a link-free path, so only the last component is left.
      rw [hrel] at h
      have hfree := checkComponents_eq_ok.mp hrel
      rw [joins_concat, or_iff_right hfree.not_refused, and_iff_right hfree]
      exact checkComponents_singleton_error h

/-- **How `_checked_path` fails**: with a file error, unless it meets a `ValueError`. -/
theorem checkedPath_error {e : DetectionRuleLoadError} (h : checkedPath fs root path = .error e) :
    ¬ IsCheckError (relativePath root path) e ↔ MeetsValueError fs root path := by
  unfold checkedPath at h
  dsimp only at h
  by_cases houtside : relativePath root path = "<outside-root>"
  · rw [if_pos houtside] at h
    cases h
    exact iff_of_false (fun hnot => hnot (isCheckError_unsafePath _)) fun hmeets => hmeets.1 houtside
  rw [if_neg houtside] at h
  obtain ⟨rel, rfl, -⟩ := exists_of_relativePath houtside
  have hmeets : MeetsValueError fs root (root.below rel) ↔ RefusedComponent fs root rel ∨
      LinkFree fs root rel ∧
        ∃ error, fs.resolve (root.below rel) = .error error ∧ error.isValueError = true := by
    constructor
    · rintro ⟨-, rel', hrel', hcase⟩
      obtain rfl : rel = rel' := by simpa [Path.below] using hrel'
      exact hcase
    · exact fun hcase => ⟨houtside, rel, rfl, hcase⟩
  rw [hmeets]
  rw [Path.relativeTo_below, Option.getD_some] at h
  -- a component that is refused is met first; then `resolve` is the only call left
  cases hcomponents : checkComponents fs (relativePath root (root.below rel)) root ("" :: rel) with
  | error e' =>
    rw [hcomponents] at h
    cases h
    have hnotFree : ¬ LinkFree fs root rel := by
      intro hfree
      cases hcomponents.symm.trans (checkComponents_eq_ok.mpr hfree)
    rw [checkComponents_error hcomponents]
    exact (or_iff_left fun hboth => hnotFree hboth.1).symm
  | ok u =>
    rw [hcomponents, ok_bind] at h
    have hfree := checkComponents_eq_ok.mp hcomponents
    rw [or_iff_right hfree.not_refused, and_iff_right hfree]
    cases hresolve : fs.resolve (root.below rel) with
    | error error =>
      rw [hresolve] at h
      cases h
      simp [isCheckError_handle_iff]
    | ok resolved =>
      rw [hresolve] at h
      dsimp only at h
      split_ifs at h
      cases h
      refine iff_of_false (fun hnot => hnot (isCheckError_unsafePath _)) ?_
      rintro ⟨error, ⟨⟩, -⟩

/-- A path whose check meets a `ValueError` fails. -/
theorem MeetsValueError.exists_error (h : MeetsValueError fs root path) : ∃ e, checkedPath fs root path = .error e := by
  cases hchecked : checkedPath fs root path with
  | error e => exact ⟨e, rfl⟩
  | ok location =>
    exfalso
    obtain ⟨-, ⟨rel, rfl, -, hfree⟩, hresolved, -⟩ := checkedPath_eq_ok.mp hchecked
    obtain ⟨-, rel', hrel', hrefused | ⟨-, error, herror, -⟩⟩ := h
    · obtain rfl : rel = rel' := by simpa [Path.below] using hrel'
      exact hfree.not_refused hrefused
    · cases herror.symm.trans hresolved

end Check

/-! ### What the walk and the files depend on -/

section Congr

variable {fs fs' : FileSystem} (hlstat : fs'.lstat = fs.lstat) (hresolve : fs'.resolve = fs.resolve)
include hlstat

theorem checkComponents_congr (relative : String) (current : Path) (parts : List String) :
    checkComponents fs' relative current parts = checkComponents fs relative current parts := by
  induction parts generalizing current with
  | nil => rfl
  | cons part parts ih => rw [checkComponents, checkComponents, hlstat, ih]

include hresolve

theorem checkedPath_congr (root path : Path) : checkedPath fs' root path = checkedPath fs root path := by
  rw [checkedPath, checkedPath, checkComponents_congr hlstat, hresolve]

theorem visitEntries_congr (root : Path) (directories files entries : List Path) :
    visitEntries fs' root directories files entries = visitEntries fs root directories files entries := by
  induction entries generalizing directories files with
  | nil => rfl
  | cons entry entries ih =>
    rw [visitEntries, visitEntries, checkedPath_congr hlstat hresolve, hlstat]
    simp only [ih]

/-- The walk looks at no content. -/
theorem discover_congr (hiterdir : fs'.iterdir = fs.iterdir) (fuel : Nat) (root : Path) :
    discover fs' fuel root = discover fs fuel root := by
  have hvisit (directory : Path) : visitDirectory fs' root directory = visitDirectory fs root directory := by
    rw [visitDirectory, visitDirectory, checkedPath_congr hlstat hresolve, hiterdir]
    simp only [visitEntries_congr hlstat hresolve]
  rw [discover, discover, funext hvisit]

/-- A file is read where its path resolves to, and only if it passes the check. -/
theorem loadFile_congr (readRule : String → Except ReadFailure DetectionRule) (root path : Path)
    (hread : ∀ location, checkedPath fs root path = .ok location →
      fs'.readText location = fs.readText location) :
    loadFile fs' readRule root path = loadFile fs readRule root path := by
  rw [loadFile, loadFile, checkedPath_congr hlstat hresolve, hlstat]
  cases hchecked : checkedPath fs root path with
  | error e => rfl
  | ok location =>
    rw [ok_bind, ok_bind, hread location hchecked]

/-- **The content of files that are not contained does not matter.** -/
theorem loadDetectionRules_congr (hisDir : fs'.isDir = fs.isDir) (hiterdir : fs'.iterdir = fs.iterdir)
    {ruleRoot root : Path} (hroot : fs.resolve ruleRoot = .ok root)
    (hread : ∀ path location, Contained fs root path location → fs'.readText location = fs.readText location)
    (readRule : String → Except ReadFailure DetectionRule) (fuel : Nat) :
    loadDetectionRules fs' readRule fuel ruleRoot = loadDetectionRules fs readRule fuel ruleRoot := by
  have hload : loadFile fs' readRule root = loadFile fs readRule root := by
    funext path
    refine loadFile_congr hlstat hresolve readRule root path fun location hchecked => ?_
    exact hread path location (checkedPath_eq_ok.mp hchecked).2
  rw [loadDetectionRules, loadDetectionRules, hresolve, hisDir, hroot]
  simp only [discover_congr hlstat hresolve hiterdir, hload]

end Congr

/-! ### Containment -/

/-- The contract of `_checked_path`: it returns a contained path, or fails with one of two file errors. -/
structure ChecksPath (fs : FileSystem) (root path : Path) : Prop where
  returned : ∀ location, checkedPath fs root path = .ok location → Contained fs root path location
  failed : ∀ e, checkedPath fs root path = .error e → IsCheckError (relativePath root path) e

/-- **Path containment.**  `_checked_path` keeps its contract just where it meets no `ValueError`; and whatever
it meets, a path that it returns is the root and components below it, none of them `..` or a link, and resolves
under the root, where `resolve` only follows links to itself.  So the loader reads the content of contained
files only: it does the same when all other files say something else. -/
theorem loader_contained (fs : FileSystem) (root : Path) :
    (∀ path, ChecksPath fs root path ↔ ¬ MeetsValueError fs root path) ∧
    (∀ path location, checkedPath fs root path = .ok location →
      (∃ rel, path = root.below rel ∧ ".." ∉ rel ∧ LinkFree fs root rel) ∧ ∃ rel, location = root.below rel) ∧
    (FollowsLinks fs root → ∀ path location, checkedPath fs root path = .ok location → location = path) ∧
    ∀ ruleRoot readText readRule fuel, fs.resolve ruleRoot = .ok root →
      (∀ path location, Contained fs root path location → readText location = fs.readText location) →
      loadDetectionRules { fs with readText := readText } readRule fuel ruleRoot =
        loadDetectionRules fs readRule fuel ruleRoot := by
  have hcontained (path location : Path) (h : checkedPath fs root path = .ok location) :
      Contained fs root path location := (checkedPath_eq_ok.mp h).2
  refine ⟨fun path => ⟨fun hchecks hmeets => ?_, fun hnot => ⟨hcontained path, fun e h => ?_⟩⟩,
    fun path location h => ⟨(hcontained path location h).lexical, (hcontained path location h).under⟩,
    fun hfollows path location h => (hcontained path location h).location_eq hfollows, ?_⟩
  · obtain ⟨e, he⟩ := hmeets.exists_error
    exact (checkedPath_error he).mpr hmeets (hchecks.failed e he)
  · exact not_not.mp fun hnotError => hnot ((checkedPath_error h).mp hnotError)
  · intro ruleRoot readText readRule fuel hroot hread
    have hlstat : ({ fs with readText := readText } : FileSystem).lstat = fs.lstat := rfl
    exact loadDetectionRules_congr hlstat rfl rfl rfl hroot hread readRule fuel

/-! ### A path with a null character -/

/-- The directory `root` with nothing in it, on a system whose paths have no null character. -/
def emptyDirectory (root : Path) : FileSystem where
  lstat path :=
    if ∃ part ∈ path.parts, '\x00' ∈ part.toList then .error .value
    else if path = root then .ok ⟨.directory, false⟩ else .error .os
  isDir path := some (path = root)
  iterdir path := if path = root then .ok [] else .error .os
  resolve path :=
    if ∃ part ∈ path.parts, '\x00' ∈ part.toList then .error .value
    else if path = root then .ok path else .error .os
  readText _ := .error .os

/-- The `ValueError` of a null character escapes `_checked_path`, and `load_detection_rules` with it. -/
theorem checkedPath_nul :
    checkedPath (emptyDirectory ⟨true, ["srv"]⟩) ⟨true, ["srv"]⟩ ⟨true, ["srv", "a\x00b"]⟩ =
        .error (.exception .valueError) ∧
      ¬ ChecksPath (emptyDirectory ⟨true, ["srv"]⟩) ⟨true, ["srv"]⟩ ⟨true, ["srv", "a\x00b"]⟩ ∧
      ∀ readRule fuel, loadDetectionRules (emptyDirectory ⟨true, ["srv"]⟩) readRule fuel ⟨true, ["srv", "a\x00b"]⟩ =
        some (.error (.exception .valueError)) := by
  have hchecked : checkedPath (emptyDirectory ⟨true, ["srv"]⟩) ⟨true, ["srv"]⟩ ⟨true, ["srv", "a\x00b"]⟩ =
      .error (.exception .valueError) := by decide
  refine ⟨hchecked, fun hchecks => ?_, fun readRule fuel => rfl⟩
  obtain ⟨category, -, heq⟩ := hchecks.failed _ hchecked
  cases heq

end SocLab
