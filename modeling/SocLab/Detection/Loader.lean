import SocLab.Detection.Semantics
import SocLab.Logic.Except
import SocLab.Logic.Worklist
import SocLab.Py.Path
import SocLab.Py.Sorted
import Mathlib.Data.String.Basic

/-!
# SocLab.Detection.Loader — deterministic loading of a rule library inside an explicit root

`detection/loader.py`.  The system calls are those of a `FileSystem`.  What a text is as a document and as
a `DetectionRule` (the YAML syntax and the model) is the argument `readRule`, which gives a rule, the category
of a file error or an exception that the loader does not handle.

* `discover` is the walk of the source with a bound on its iterations.
* `loadFiles_eq_ok` and `loadFiles_eq_error`: the loop over the discovered files loads all of them or
  raises the error of the first file that fails or repeats an id.
-/

namespace SocLab

open Py Logic

/-- A path, file, document or rule failed validation, or two files declare the same rule identity;
`exception` is one that the loader does not handle. -/
inductive DetectionRuleLoadError where
  | file (path category : String)
  | duplicateId (ruleId firstPath duplicatePath : String)
  | exception (e : Exc)
  deriving DecidableEq

/-- How a text is no rule: with the category of a file error, or an exception that passes through. -/
inductive ReadFailure where
  | category (category : String)
  | exception (e : Exc)
  deriving DecidableEq

/-- `_relative_path`. -/
def relativePath (root path : Path) : String :=
  match path.relativeTo root with
  | none => "<outside-root>"
  | some relative => if ".." ∈ relative then "<outside-root>" else Path.asPosix relative

/-- Under `except (OSError, RuntimeError)` or `except OSError`: the file error of the category.  A `ValueError`
is neither and passes. -/
def handlePathError (relative category : String) : PathError → DetectionRuleLoadError
  | .os => .file relative category
  | .unicode => .exception (.other "UnicodeEncodeError")
  | .value => .exception .valueError

/-- The metadata of a link or of a reparse point. -/
def Stat.isLink (metadata : Stat) : Bool := metadata.kind = .link || metadata.reparse

/-- The loop of `_checked_path` over the components. -/
def checkComponents (fs : FileSystem) (relative : String) (current : Path) :
    List String → Except DetectionRuleLoadError Unit
  | [] => .ok ()
  | part :: parts =>
    match fs.lstat (current.join part) with
    | .error error => .error (handlePathError relative "path_error" error)
    | .ok metadata =>
      if Stat.isLink metadata then .error (.file relative "unsafe_path")
      else checkComponents fs relative (current.join part) parts

/-- Reject links and escapes before accessing a discovered path. -/
def checkedPath (fs : FileSystem) (root path : Path) : Except DetectionRuleLoadError Path :=
  let relative := relativePath root path
  if relative = "<outside-root>" then .error (.file relative "unsafe_path")
  else do
    -- the root itself is looked at first, as `root / ""`
    checkComponents fs relative root ("" :: (path.relativeTo root).getD [])
    match fs.resolve path with
    | .error error => .error (handlePathError relative "path_error" error)
    | .ok resolved =>
      if (resolved.relativeTo root).isNone then .error (.file relative "unsafe_path") else .ok resolved

/-- The loop of `_discover` over the entries of a directory; `directories` and `files` are those found so
far. -/
def visitEntries (fs : FileSystem) (root : Path) (directories files : List Path) :
    List Path → Except DetectionRuleLoadError (List Path × List Path)
  | [] => .ok (directories, files)
  | entry :: entries => do
    let checked ← checkedPath fs root entry
    match fs.lstat checked with
    | .error error => .error (handlePathError (relativePath root entry) "path_error" error)
    | .ok metadata =>
      -- a name with a rule suffix is no rule file when it names a directory
      if metadata.kind = .directory then visitEntries fs root (directories ++ [entry]) files entries
      else if entry.suffix ∈ [".yaml", ".yml"] then
        if metadata.kind ≠ .regular then .error (.file (relativePath root entry) "not_regular_file")
        else visitEntries fs root directories (files ++ [entry]) entries
      else visitEntries fs root directories files entries

/-- The body of the loop of `_discover` for one directory. -/
def visitDirectory (fs : FileSystem) (root directory : Path) :
    Except DetectionRuleLoadError (List Path × List Path) := do
  let checked ← checkedPath fs root directory
  match fs.iterdir checked with
  | .error error => .error (handlePathError (relativePath root directory) "read_error" error)
  | .ok names => visitEntries fs root [] [] (sorted Path.name (names.map fun name => checked.below [name]))

/-- `path.relative_to(root).as_posix()` for a path below the root. -/
def relativePosix (root path : Path) : String := Path.asPosix ((path.relativeTo root).getD [])

/-- `_discover`, with at most `fuel` directories: the directories found go on top of the stack, the first
one uppermost. -/
def discover (fs : FileSystem) (fuel : Nat) (root : Path) :
    Option (Except DetectionRuleLoadError (List Path)) :=
  (worklist (visitDirectory fs root) fuel [] [root]).map fun result =>
    result.map (sorted (relativePosix root))

/-- Under the handlers of `_load_file`, where a `UnicodeError` is handled as well. -/
def handleReadError (relative : String) : PathError → DetectionRuleLoadError
  | .unicode => .file relative "invalid_utf8"
  | .os => .file relative "read_error"
  | .value => .exception .valueError

/-- `_load_file`. -/
def loadFile (fs : FileSystem) (readRule : String → Except ReadFailure DetectionRule) (root path : Path) :
    Except DetectionRuleLoadError DetectionRule := do
  let relative := relativePath root path
  -- once more, before the file is read
  let checked ← checkedPath fs root path
  match fs.lstat checked with
  | .error error => .error (handleReadError relative error)
  | .ok metadata =>
    if metadata.kind ≠ .regular then .error (.file relative "not_regular_file")
    else
      match fs.readText checked with
      | .error error => .error (handleReadError relative error)
      | .ok content =>
        match readRule content with
        | .error (.category category) => .error (.file relative category)
        | .error (.exception e) => .error (.exception e)
        | .ok rule =>
          match validateDetectionRuleSemantics rule with
          | .ok () => .ok rule
          | .error (.detection _) => .error (.file relative "invalid_rule")
          -- `except DetectionEvaluationError` only
          | .error (.python e) => .error (.exception e)

/-- The loop of `load_detection_rules`: `ids` maps the ids of the rules so far to their files. -/
def loadFiles (load : Path → Except DetectionRuleLoadError DetectionRule) (posix : Path → String)
    (ids : List (String × String)) (rules : List DetectionRule) :
    List Path → Except DetectionRuleLoadError (List DetectionRule)
  | [] => .ok rules
  | path :: paths => do
    let rule ← load path
    match ids.lookup rule.id with
    | some first => .error (.duplicateId rule.id first (posix path))
    | none => loadFiles load posix ((rule.id, posix path) :: ids) (rules ++ [rule]) paths

/-- Load a complete library, sorted by root-relative POSIX path. -/
def loadDetectionRules (fs : FileSystem) (readRule : String → Except ReadFailure DetectionRule) (fuel : Nat)
    (ruleRoot : Path) : Option (Except DetectionRuleLoadError (List DetectionRule)) :=
  if ruleRoot.isAbsolute = false then some (.error (.file "." "absolute_root_required"))
  else
    match fs.resolve ruleRoot with
    | .error error => some (.error (handlePathError "." "invalid_root" error))
    | .ok root =>
      if fs.isDir root ≠ some true then some (.error (.file "." "invalid_root"))
      else (discover fs fuel root).map fun result =>
        -- all files are found before the first is read
        result.bind (loadFiles (loadFile fs readRule root) (relativePosix root) [] [])

/-! ### One file -/

section LoadFile

variable {fs : FileSystem} {readRule : String → Except ReadFailure DetectionRule} {root path : Path}

/-- A rule that is loaded passed the semantic check. -/
theorem semantics_of_loadFile {rule : DetectionRule} (h : loadFile fs readRule root path = .ok rule) :
    validateDetectionRuleSemantics rule = .ok () := by
  unfold loadFile at h
  obtain ⟨checked, -, h⟩ := bind_eq_ok.mp h
  split at h
  · cases h
  · split_ifs at h
    split at h
    · cases h
    · split at h
      · cases h
      · cases h
      · split at h
        · next hsemantics =>
          cases h
          exact hsemantics
        · cases h
        · cases h

end LoadFile

/-! ### The loop over the files -/

section LoadFiles

variable {load : Path → Except DetectionRuleLoadError DetectionRule} {posix : Path → String}
  {files : List Path} {rules : List DetectionRule} {e : DetectionRuleLoadError}

/-- Every file yields its rule and no two rules share an id. -/
structure Loaded (load : Path → Except DetectionRuleLoadError DetectionRule) (files : List Path)
    (rules : List DetectionRule) : Prop where
  each : List.Forall₂ (fun path rule => load path = .ok rule) files rules
  distinct : (rules.map (·.id)).Nodup

/-- `path` fails with `e` after the files `before`: it is invalid itself, or it repeats the id of the
unique one of them with that id. -/
def Faulty (load : Path → Except DetectionRuleLoadError DetectionRule) (posix : Path → String)
    (before : List Path) (path : Path) (e : DetectionRuleLoadError) : Prop :=
  load path = .error e ∨
    ∃ rule, load path = .ok rule ∧ ∃ first ∈ before, (∃ rule', load first = .ok rule' ∧ rule'.id = rule.id) ∧
      e = .duplicateId rule.id (posix first) (posix path)

/-- The error of the first file that is invalid or repeats an id. -/
def FirstFault (load : Path → Except DetectionRuleLoadError DetectionRule) (posix : Path → String)
    (files : List Path) (e : DetectionRuleLoadError) : Prop :=
  ∃ before path after, files = before ++ path :: after ∧ (∃ rules, Loaded load before rules) ∧
    Faulty load posix before path e

/-- The ids of loaded files, the last one first. -/
def idsOf (posix : Path → String) (files : List Path) (rules : List DetectionRule) :
    List (String × String) :=
  ((files.zip rules).map fun p => (p.2.id, posix p.1)).reverse

theorem idsOf_cons (path : Path) (rule : DetectionRule) :
    idsOf posix (path :: files) (rule :: rules) = idsOf posix files rules ++ [(rule.id, posix path)] := by
  simp [idsOf]

/-- The ids recorded for loaded files are those of their rules. -/
theorem lookup_idsOf {id first : String}
    (h : List.Forall₂ (fun path rule => load path = .ok rule) files rules)
    (hlookup : (idsOf posix files rules).lookup id = some first) :
    ∃ path ∈ files, (∃ rule, load path = .ok rule ∧ rule.id = id) ∧ first = posix path := by
  have hmem := mem_of_lookup hlookup
  rw [idsOf, List.mem_reverse] at hmem
  obtain ⟨p, hp, hpair⟩ := List.mem_map.mp hmem
  obtain ⟨hid, hposix⟩ := Prod.mk.inj hpair
  exact ⟨p.1, (List.of_mem_zip hp).1, ⟨p.2, (List.forall₂_iff_zip.mp h).2 hp, hid⟩, hposix.symm⟩

theorem mem_ids {id : String} (h : List.Forall₂ (fun path rule => load path = .ok rule) files rules) :
    id ∈ rules.map (·.id) ↔ ∃ path ∈ files, ∃ rule, load path = .ok rule ∧ rule.id = id := by
  constructor
  · intro hmem
    obtain ⟨rule, hrule, hid⟩ := List.mem_map.mp hmem
    obtain ⟨path, hpath, hload⟩ := exists_of_forall₂ h.flip rule hrule
    exact ⟨path, hpath, rule, hload, hid⟩
  · rintro ⟨path, hpath, rule, hload, rfl⟩
    obtain ⟨rule', hrule', hload'⟩ := exists_of_forall₂ h path hpath
    cases hload.symm.trans hload'
    exact List.mem_map_of_mem hrule'

theorem exists_lookup_idsOf (posix : Path → String) {id : String} (hlength : files.length = rules.length)
    (h : id ∈ rules.map (·.id)) : ∃ first, (idsOf posix files rules).lookup id = some first := by
  rw [← Option.ne_none_iff_exists', ne_eq, List.lookup_eq_none_iff]
  intro hnone
  obtain ⟨rule, hrule, rfl⟩ := List.mem_map.mp h
  have hsnd : (files.zip rules).map Prod.snd = rules := List.map_snd_zip (by omega)
  rw [← hsnd] at hrule
  obtain ⟨p, hp, rfl⟩ := List.mem_map.mp hrule
  have hentry := hnone (p.2.id, posix p.1) (by
    rw [idsOf, List.mem_reverse]
    exact List.mem_map_of_mem hp)
  simp at hentry

/-- Loaded files with one id are one file. -/
theorem Loaded.eq_of_id (h : Loaded load files rules) {path path' : Path} {rule rule' : DetectionRule}
    (hpath : path ∈ files) (hpath' : path' ∈ files) (hload : load path = .ok rule)
    (hload' : load path' = .ok rule') (hid : rule.id = rule'.id) : path = path' := by
  obtain ⟨heach, hdistinct⟩ := h
  induction heach with
  | nil => simp at hpath
  | @cons head headRule files rules hhead heach ih =>
    rw [List.map_cons, List.nodup_cons] at hdistinct
    rcases List.mem_cons.mp hpath with rfl | hmem <;> rcases List.mem_cons.mp hpath' with rfl | hmem'
    · rfl
    · cases hload.symm.trans hhead
      exact absurd ((mem_ids heach).mpr ⟨_, hmem', _, hload', hid.symm⟩) hdistinct.1
    · cases hload'.symm.trans hhead
      exact absurd ((mem_ids heach).mpr ⟨_, hmem, _, hload, hid⟩) hdistinct.1
    · exact ih hmem hmem' hdistinct.2

/-- The loop passes over files that are loaded. -/
theorem loadFiles_append (posix : Path → String) (ids : List (String × String)) (rules₀ : List DetectionRule)
    (heach : List.Forall₂ (fun path rule => load path = .ok rule) files rules)
    (hdistinct : (rules.map (·.id)).Nodup) (hnew : ∀ rule ∈ rules, ids.lookup rule.id = none)
    (rest : List Path) :
    loadFiles load posix ids rules₀ (files ++ rest) =
      loadFiles load posix (idsOf posix files rules ++ ids) (rules₀ ++ rules) rest := by
  induction heach generalizing ids rules₀ with
  | nil => simp [idsOf]
  | @cons path rule files rules hload heach ih =>
    rw [List.map_cons, List.nodup_cons] at hdistinct
    have hnew' : ∀ r ∈ rules, ((rule.id, posix path) :: ids).lookup r.id = none := by
      intro r hr
      have hne : (r.id == rule.id) = false := by
        rw [beq_eq_false_iff_ne]
        exact fun heq => hdistinct.1 (List.mem_map.mpr ⟨r, hr, heq⟩)
      rw [List.lookup_cons, hne]
      exact hnew r (by simp [hr])
    rw [List.cons_append, loadFiles, hload, ok_bind, hnew rule (by simp)]
    dsimp only
    rw [ih _ _ hdistinct.2 hnew', idsOf_cons, List.append_assoc, List.append_assoc]
    rfl

/-- Files that are loaded give their rules. -/
theorem loadFiles_of_loaded (h : Loaded load files rules) :
    loadFiles load posix [] [] files = .ok rules := by
  have hrun := loadFiles_append posix [] [] h.each h.distinct (fun _ _ => rfl) []
  rw [List.append_nil] at hrun
  rw [hrun]
  rfl

/-- The first file that is at fault gives its error. -/
theorem loadFiles_of_firstFault (h : FirstFault load posix files e) :
    loadFiles load posix [] [] files = .error e := by
  obtain ⟨before, path, after, rfl, ⟨rules, hloaded⟩, hfault⟩ := h
  rw [loadFiles_append posix [] [] hloaded.each hloaded.distinct (fun _ _ => rfl), List.append_nil,
    loadFiles]
  rcases hfault with herror | ⟨rule, hrule, first, hfirst, ⟨rule', hrule', hid⟩, rfl⟩
  · rw [herror]
    rfl
  · rw [hrule, ok_bind]
    obtain ⟨posixFirst, hlookup⟩ := exists_lookup_idsOf posix hloaded.each.length_eq
      ((mem_ids hloaded.each).mpr ⟨first, hfirst, rule', hrule', hid⟩)
    obtain ⟨first', hfirst', ⟨rule'', hrule'', hid'⟩, rfl⟩ := lookup_idsOf hloaded.each hlookup
    obtain rfl := hloaded.eq_of_id hfirst hfirst' hrule' hrule'' (hid.trans hid'.symm)
    rw [hlookup]

/-- Either every file is loaded, or some file is the first one at fault. -/
theorem loaded_or_firstFault (load : Path → Except DetectionRuleLoadError DetectionRule)
    (posix : Path → String) (files : List Path) :
    (∃ rules, Loaded load files rules) ∨ ∃ e, FirstFault load posix files e := by
  induction files using List.reverseRecOn with
  | nil => exact Or.inl ⟨[], .nil, List.nodup_nil⟩
  | append_singleton files path ih =>
    rcases ih with ⟨rules, hloaded⟩ | ⟨e, before, path', after, rfl, hbefore, hfault⟩
    · cases hload : load path with
      | error e => exact Or.inr ⟨e, files, path, [], rfl, ⟨rules, hloaded⟩, Or.inl hload⟩
      | ok rule =>
        by_cases hmem : rule.id ∈ rules.map (·.id)
        · obtain ⟨first, hfirst, hsame⟩ := (mem_ids hloaded.each).mp hmem
          exact Or.inr ⟨_, files, path, [], rfl, ⟨rules, hloaded⟩,
            Or.inr ⟨rule, hload, first, hfirst, hsame, rfl⟩⟩
        · refine Or.inl ⟨rules ++ [rule], List.rel_append hloaded.each (.cons hload .nil), ?_⟩
          rw [List.map_append, List.nodup_append]
          exact ⟨hloaded.distinct, by simp,
            by simpa using fun r hr heq => hmem (List.mem_map.mpr ⟨r, hr, heq⟩)⟩
    · exact Or.inr ⟨e, before, path', after ++ [path], by simp, hbefore, hfault⟩

/-- **The loop loads every file, or gives nothing.** -/
theorem loadFiles_eq_ok : loadFiles load posix [] [] files = .ok rules ↔ Loaded load files rules := by
  refine ⟨fun h => ?_, loadFiles_of_loaded⟩
  rcases loaded_or_firstFault load posix files with ⟨rules', hloaded⟩ | ⟨e, hfault⟩
  · cases h.symm.trans (loadFiles_of_loaded hloaded)
    exact hloaded
  · cases h.symm.trans (loadFiles_of_firstFault hfault)

/-- **The loop raises the error of the first file at fault.** -/
theorem loadFiles_eq_error : loadFiles load posix [] [] files = .error e ↔ FirstFault load posix files e := by
  refine ⟨fun h => ?_, loadFiles_of_firstFault⟩
  rcases loaded_or_firstFault load posix files with ⟨rules', hloaded⟩ | ⟨e', hfault⟩
  · cases h.symm.trans (loadFiles_of_loaded hloaded)
  · cases h.symm.trans (loadFiles_of_firstFault hfault)
    exact hfault

end LoadFiles

end SocLab
