import SocLab.Detection.Containment
import Mathlib.Algebra.GroupWithZero.Nat
import Mathlib.Algebra.Order.BigOperators.Group.List

/-!
# SocLab.Detection.Library — all-or-nothing loading of a library that is a finite tree

* `Tree.Mounted` relates a file system to a finite directory tree below a root.
* `discover_terminates`: as many iterations as the tree has nodes suffice for the walk.
* `loadDetectionRules_reordered`: the order in which the system enumerates a directory does not matter.
* `load_all_or_nothing` is the contract of `load_detection_rules`.
-/

namespace SocLab

open Py Logic

/-! ### Enumeration order -/

/-- The same file system, but the directories are enumerated in another order. -/
structure Reordered (fs fs' : FileSystem) : Prop where
  lstat : fs'.lstat = fs.lstat
  isDir : fs'.isDir = fs.isDir
  resolve : fs'.resolve = fs.resolve
  readText : fs'.readText = fs.readText
  iterdir : ∀ path, (∃ error, fs.iterdir path = .error error ∧ fs'.iterdir path = .error error) ∨
    ∃ names names', fs.iterdir path = .ok names ∧ fs'.iterdir path = .ok names' ∧ names.Perm names'

section Reordered

variable {fs fs' : FileSystem} (h : Reordered fs fs')
include h

theorem visitDirectory_reordered (root directory : Path) :
    visitDirectory fs' root directory = visitDirectory fs root directory := by
  rw [visitDirectory, visitDirectory, checkedPath_congr h.lstat h.resolve]
  congr 1
  funext checked
  rcases h.iterdir checked with ⟨error, herror, herror'⟩ | ⟨names, names', hnames, hnames', hperm⟩
  · rw [herror, herror']
  · rw [hnames, hnames']
    dsimp only
    rw [visitEntries_congr h.lstat h.resolve]
    congr 1
    refine (sorted_eq_of_perm_of_inj Path.name (fun a ha b hb hname => ?_) (hperm.map _)).symm
    obtain ⟨n, -, rfl⟩ := List.mem_map.mp ha
    obtain ⟨m, -, rfl⟩ := List.mem_map.mp hb
    rw [Path.name_below_singleton, Path.name_below_singleton] at hname
    rw [hname]

theorem loadFile_reordered (readRule : String → Except ReadFailure DetectionRule) (root path : Path) :
    loadFile fs' readRule root path = loadFile fs readRule root path :=
  loadFile_congr h.lstat h.resolve readRule root path fun _ _ => by rw [h.readText]

/-- **The result does not depend on the order in which directories are enumerated.** -/
theorem loadDetectionRules_reordered (readRule : String → Except ReadFailure DetectionRule) (fuel : Nat)
    (ruleRoot : Path) :
    loadDetectionRules fs' readRule fuel ruleRoot = loadDetectionRules fs readRule fuel ruleRoot := by
  have hdiscover (root : Path) : discover fs' fuel root = discover fs fuel root := by
    rw [discover, discover, funext (visitDirectory_reordered h root)]
  have hload (root : Path) : loadFile fs' readRule root = loadFile fs readRule root :=
    funext (loadFile_reordered h readRule root)
  rw [loadDetectionRules, loadDetectionRules, h.resolve, h.isDir]
  simp only [hdiscover, hload]

end Reordered

/-! ### Finite trees -/

/-- What is no directory. -/
inductive LeafKind where
  | regular
  | link
  | reparsePoint (kind : FileKind)
  | other

def LeafKind.metadata : LeafKind → Stat
  | regular => ⟨.regular, false⟩
  | link => ⟨.link, false⟩
  | reparsePoint kind => ⟨kind, true⟩
  | other => ⟨.other, false⟩

/-- A finite directory tree: a directory has finitely many names. -/
inductive Tree where
  | dir (names : List String) (child : String → Tree)
  | leaf (kind : LeafKind) (content : Except PathError String)

namespace Tree

def metadata : Tree → Stat
  | dir _ _ => ⟨.directory, false⟩
  | leaf kind _ => kind.metadata

/-- The node at a relative path. -/
def lookup : Tree → List String → Option Tree
  | t, [] => some t
  | dir names child, name :: rel => if name ∈ names then (child name).lookup rel else none
  | leaf _ _, _ :: _ => none

/-- The number of nodes. -/
def size : Tree → Nat
  | dir names child => 1 + (names.map fun name => (child name).size).sum
  | leaf _ _ => 1

/-- The file system shows the tree below `root`: a node that is no link resolves to itself. -/
structure Mounted (t : Tree) (fs : FileSystem) (root : Path) : Prop where
  lstat : ∀ rel node, t.lookup rel = some node → fs.lstat (root.below rel) = .ok node.metadata
  resolve : ∀ rel node, t.lookup rel = some node → Stat.isLink node.metadata = false →
    fs.resolve (root.below rel) = .ok (root.below rel)
  iterdir : ∀ rel names child, t.lookup rel = some (dir names child) →
    ∃ names', fs.iterdir (root.below rel) = .ok names' ∧ names'.Perm names
  names : ∀ rel names child, t.lookup rel = some (dir names child) → "" ∉ names

@[simp] theorem lookup_nil (t : Tree) : t.lookup [] = some t := by
  cases t <;> rfl

theorem lookup_concat {t : Tree} {rel names : List String} {child : String → Tree}
    (h : t.lookup rel = some (dir names child)) {name : String} (hname : name ∈ names) :
    t.lookup (rel ++ [name]) = some (child name) := by
  induction rel generalizing t with
  | nil =>
    rw [lookup_nil, Option.some.injEq] at h
    rw [h, List.nil_append, lookup, if_pos hname, lookup_nil]
  | cons n rel ih =>
    cases t with
    | leaf kind content => cases h
    | dir ns c =>
      rw [lookup] at h
      split_ifs at h with hn
      rw [List.cons_append, lookup, if_pos hn]
      exact ih h

/-- The way to a node passes through every node on it. -/
theorem lookup_append {t node : Tree} {pre rest : List String} (h : t.lookup (pre ++ rest) = some node) :
    ∃ m, t.lookup pre = some m ∧ m.lookup rest = some node := by
  induction pre generalizing t with
  | nil => exact ⟨t, lookup_nil t, h⟩
  | cons name pre ih =>
    cases t with
    | leaf kind content => cases h
    | dir names child =>
      rw [List.cons_append, lookup] at h
      split_ifs at h with hname
      obtain ⟨m, hm, hrest⟩ := ih h
      exact ⟨m, by rw [lookup, if_pos hname, hm], hrest⟩

/-- A name on the way to a node is a name of a directory. -/
theorem exists_dir_of_mem {t node : Tree} {rel : List String} {part : String} (h : t.lookup rel = some node)
    (hpart : part ∈ rel) : ∃ pre names child, t.lookup pre = some (dir names child) ∧ part ∈ names := by
  obtain ⟨pre, rest, rfl⟩ := List.append_of_mem hpart
  obtain ⟨m, hm, hrest⟩ := lookup_append h
  cases m with
  | leaf kind content => cases hrest
  | dir names child =>
    rw [lookup] at hrest
    split_ifs at hrest with hname
    exact ⟨pre, names, child, hm, hname⟩

/-- The nodes with their relative paths, a directory before what is below it. -/
def nodes : Tree → List (List String × Tree)
  | dir names child =>
    ([], dir names child) :: names.flatMap fun name => (child name).nodes.map fun p => (name :: p.1, p.2)
  | leaf kind content => [([], leaf kind content)]

/-- **The nodes are what can be looked up**, so that what holds of every node can be checked. -/
theorem mem_nodes {t node : Tree} {rel : List String} : (rel, node) ∈ t.nodes ↔ t.lookup rel = some node := by
  induction t generalizing rel with
  | dir names child ih =>
    cases rel with
    | nil => simp [nodes, eq_comm]
    | cons name rel =>
      rw [lookup]
      by_cases hname : name ∈ names
      · simp [nodes, ih, hname]
      · simp [nodes, hname]
  | leaf kind content => cases rel <;> simp [nodes, lookup, eq_comm]

theorem forall_lookup_iff {t : Tree} {P : List String → Tree → Prop} :
    (∀ rel node, t.lookup rel = some node → P rel node) ↔ ∀ p ∈ t.nodes, P p.1 p.2 := by
  simp only [← mem_nodes, Prod.forall]

theorem size_pos (t : Tree) : 0 < t.size := by
  cases t with
  | dir names child => rw [size]; omega
  | leaf kind content => exact Nat.one_pos

section Mounted

variable {t : Tree} {fs : FileSystem} {root : Path} {rel : List String} {node : Tree}

/-- The names on the way to a node are not empty. -/
theorem Mounted.parts_ne (h : t.Mounted fs root) (hnode : t.lookup rel = some node) :
    ∀ part ∈ rel, part ≠ "" := by
  rintro part hpart rfl
  obtain ⟨pre, names, child, hpre, hname⟩ := exists_dir_of_mem hnode hpart
  exact h.names pre names child hpre hname

end Mounted

end Tree

section Checked

variable {t : Tree} {fs : FileSystem} {root : Path} {rel : List String} {node : Tree} {location : Path}

/-- The way to a node leads through directories, so only the node itself may be a link. -/
theorem linkFree_mounted (h : t.Mounted fs root) (hnode : t.lookup rel = some node) :
    LinkFree fs root rel ↔ Stat.isLink node.metadata = false := by
  have hjoins {pre : List String} {m : Tree} (hm : t.lookup pre = some m) :
      fs.lstat (root.joins pre) = .ok m.metadata := by
    rw [Path.joins_eq_below (h.parts_ne hm), h.lstat pre m hm]
  constructor
  · intro hfree
    obtain ⟨metadata, hmetadata, hlink⟩ := hfree rel List.prefix_rfl
    rw [hjoins hnode, Except.ok.injEq] at hmetadata
    rw [hmetadata]
    exact hlink
  · rintro hlink pre ⟨rest, rfl⟩
    obtain ⟨m, hm, hrest⟩ := Tree.lookup_append hnode
    refine ⟨m.metadata, hjoins hm, ?_⟩
    cases m with
    | dir names child => rfl
    | leaf kind content =>
      cases rest with
      | nil =>
        cases hrest
        exact hlink
      | cons name rest => cases hrest

/-- **The check of a node of the tree.**  What is called outside the root does not pass. -/
theorem checkedPath_mounted (h : t.Mounted fs root) (hnode : t.lookup rel = some node) :
    checkedPath fs root (root.below rel) = .ok location ↔
      relativePath root (root.below rel) ≠ "<outside-root>" ∧ Stat.isLink node.metadata = false ∧
        location = root.below rel := by
  rw [checkedPath_eq_ok]
  refine and_congr_right fun hinside => ?_
  constructor
  · rintro ⟨⟨rel', hrel', -, hfree⟩, hresolved, -⟩
    obtain rfl : rel = rel' := by simpa [Path.below] using hrel'
    have hlink := (linkFree_mounted h hnode).mp hfree
    rw [h.resolve rel node hnode hlink, Except.ok.injEq] at hresolved
    exact ⟨hlink, hresolved.symm⟩
  · rintro ⟨hlink, rfl⟩
    obtain ⟨rel', hrel', hparent⟩ := exists_of_relativePath hinside
    exact ⟨⟨rel', hrel', hparent, by
      obtain rfl : rel = rel' := by simpa [Path.below] using hrel'
      exact (linkFree_mounted h hnode).mpr hlink⟩, h.resolve rel node hnode hlink, rel, rfl⟩

end Checked

/-- The directories that a visit of entries adds are among the entries. -/
theorem visitEntries_ok {fs : FileSystem} {root : Path} {entries ds fs₀ directories files : List Path}
    (h : visitEntries fs root ds fs₀ entries = .ok (directories, files)) :
    ∃ new, directories = ds ++ new ∧ new.Sublist entries ∧ ∀ entry ∈ new, ∃ checked,
      checkedPath fs root entry = .ok checked ∧ ∃ metadata, fs.lstat checked = .ok metadata ∧
        metadata.kind = .directory := by
  induction entries generalizing ds fs₀ with
  | nil =>
    cases h
    exact ⟨[], by simp, List.Sublist.refl _, by simp⟩
  | cons entry entries ih =>
    rw [visitEntries] at h
    obtain ⟨checked, hchecked, h⟩ := bind_eq_ok.mp h
    cases hmeta : fs.lstat checked with
    | error error => simp [hmeta] at h
    | ok metadata =>
      rw [hmeta] at h
      dsimp only at h
      split_ifs at h with hdir hsuffix hregular
      · obtain ⟨new, rfl, hsub, hnew⟩ := ih h
        refine ⟨entry :: new, by simp, hsub.cons_cons entry, ?_⟩
        exact List.forall_mem_cons.mpr ⟨⟨checked, hchecked, metadata, hmeta, hdir⟩, hnew⟩
      · obtain ⟨new, rfl, hsub, hnew⟩ := ih h
        exact ⟨new, rfl, hsub.cons entry, hnew⟩
      · obtain ⟨new, rfl, hsub, hnew⟩ := ih h
        exact ⟨new, rfl, hsub.cons entry, hnew⟩

/-- The file system that shows just the tree, its directories enumerated in the order of their names; it knows
no path that it cannot be asked about. -/
def Tree.fileSystem (t : Tree) (root : Path) : FileSystem where
  lstat path :=
    match (path.relativeTo root).bind t.lookup with
    | some node => .ok node.metadata
    | none => .error .os
  isDir path := some <|
    match (path.relativeTo root).bind t.lookup with
    | some (dir _ _) => true
    | _ => false
  iterdir path :=
    match (path.relativeTo root).bind t.lookup with
    | some (dir names _) => .ok names
    | _ => .error .os
  resolve path :=
    match (path.relativeTo root).bind t.lookup with
    | some node => if Stat.isLink node.metadata then .error .os else .ok path
    | none => .error .os
  readText path :=
    match (path.relativeTo root).bind t.lookup with
    | some (leaf .regular content) => content
    | _ => .error .os

/-- Such a file system shows the tree. -/
theorem Tree.mounted_fileSystem (t : Tree) (root : Path)
    (h : ∀ rel names child, t.lookup rel = some (dir names child) → "" ∉ names) :
    t.Mounted (t.fileSystem root) root where
  lstat rel node hnode := by
    simp [fileSystem, Path.relativeTo_below, hnode]
  resolve rel node hnode hlink := by
    simp [fileSystem, Path.relativeTo_below, hnode, hlink]
  iterdir rel names child hnode :=
    ⟨names, by simp [fileSystem, Path.relativeTo_below, hnode], List.Perm.refl _⟩
  names := h

/-! ### Directories -/

/-- A directory, with names as a file system gives them at every depth. -/
structure DirectoryTree where
  names : List String
  child : String → Tree
  proper : ∀ rel names' child', (Tree.dir names child).lookup rel = some (.dir names' child') →
    names'.Nodup ∧ "" ∉ names' ∧ ".." ∉ names'

/-- A regular file with a text. -/
def Tree.file (content : String) : Tree := .leaf .regular (.ok content)

/-- The child that one of the entries names. -/
def Tree.ofEntry (entries : List (String × Tree)) (name : String) : Tree :=
  (entries.lookup name).getD (.leaf .other (.error .os))

/-- A directory with these entries. -/
def Tree.ofEntries (entries : List (String × Tree)) : Tree := .dir (entries.map (·.1)) (ofEntry entries)

/-- A directory has each name once, and none that is empty or the parent. -/
def Tree.properNames : Tree → Bool
  | dir names _ => names.Nodup && "" ∉ names && ".." ∉ names
  | leaf _ _ => true

namespace DirectoryTree

def tree (t : DirectoryTree) : Tree := .dir t.names t.child

/-- A directory with these entries, whose names are proper at every depth. -/
def ofEntries (entries : List (String × Tree))
    (h : ∀ p ∈ (Tree.ofEntries entries).nodes, p.2.properNames = true) : DirectoryTree where
  names := entries.map (·.1)
  child := Tree.ofEntry entries
  proper rel names child hlookup := by
    have hproper := h (rel, .dir names child) (Tree.mem_nodes.mpr hlookup)
    simp only [Tree.properNames, Bool.and_eq_true, decide_eq_true_eq] at hproper
    exact ⟨hproper.1.1, hproper.1.2, hproper.2⟩

/-- The file system that shows just the directory. -/
theorem mounted (t : DirectoryTree) (root : Path) : t.tree.Mounted (t.tree.fileSystem root) root :=
  Tree.mounted_fileSystem _ _ fun rel names child hlookup => (t.proper rel names child hlookup).2.1

end DirectoryTree


/-! ### The walk of a finite tree -/

section Walk

variable {t : Tree} {fs : FileSystem} {root : Path}

/-- The path of a directory of the tree. -/
def IsDirectory (t : Tree) (root path : Path) : Prop :=
  ∃ rel names child, path = root.below rel ∧ t.lookup rel = some (.dir names child)

/-- The number of nodes from a path on. -/
def weight (t : Tree) (root path : Path) : Nat :=
  (((path.relativeTo root).bind t.lookup).map Tree.size).getD 0

theorem weight_below {rel : List String} {node : Tree} (h : t.lookup rel = some node) :
    weight t root (root.below rel) = node.size := by
  rw [weight, Path.relativeTo_below, Option.bind_some, h]
  rfl

/-- A node that is a directory and no link has entries. -/
theorem eq_dir_of_metadata {node : Tree} (hdir : node.metadata.kind = .directory)
    (hlink : Stat.isLink node.metadata = false) : ∃ names child, node = .dir names child := by
  cases node with
  | dir names child => exact ⟨names, child, rfl⟩
  | leaf kind content =>
    cases kind <;> simp [Tree.metadata, LeafKind.metadata, Stat.isLink] at hdir hlink

theorem visitDirectory_mounted (h : t.Mounted fs root) {path : Path} {items results : List Path}
    (hpath : IsDirectory t root path) (hvisit : visitDirectory fs root path = .ok (items, results)) :
    (∀ item ∈ items, IsDirectory t root item) ∧ (items.map (weight t root)).sum < weight t root path := by
  obtain ⟨rel, names, child, rfl, hnode⟩ := hpath
  obtain ⟨checked, hchecked, hvisit⟩ := bind_eq_ok.mp hvisit
  obtain ⟨-, -, rfl⟩ := (checkedPath_mounted h hnode).mp hchecked
  obtain ⟨names', hnames, hperm⟩ := h.iterdir rel names child hnode
  rw [hnames] at hvisit
  dsimp only at hvisit
  obtain ⟨new, hitems, hsub, hnew⟩ := visitEntries_ok hvisit
  rw [List.nil_append] at hitems
  subst hitems
  have hentries : (sorted Path.name (names'.map fun name => (root.below rel).below [name])).Perm
      (names.map fun name => root.below (rel ++ [name])) := by
    refine (sorted_perm _ _).trans ((hperm.map _).trans ?_)
    simp only [Path.below_below]
    exact List.Perm.refl _
  constructor
  · intro item hitem
    obtain ⟨checked, hchecked, metadata, hmetadata, hdir⟩ := hnew item hitem
    obtain ⟨name, hname, rfl⟩ := List.mem_map.mp (hentries.mem_iff.mp (hsub.subset hitem))
    have hchild := Tree.lookup_concat hnode hname
    obtain ⟨-, hlink, rfl⟩ := (checkedPath_mounted h hchild).mp hchecked
    rw [h.lstat _ _ hchild] at hmetadata
    cases hmetadata
    obtain ⟨names'', child'', heq⟩ := eq_dir_of_metadata hdir hlink
    exact ⟨_, names'', child'', rfl, hchild.trans (congrArg some heq)⟩
  · have hsum : ((names.map fun name => root.below (rel ++ [name])).map (weight t root)).sum =
        (names.map fun name => (child name).size).sum := by
      rw [List.map_map]
      congr 1
      refine List.map_congr_left fun name hname => ?_
      exact weight_below (Tree.lookup_concat hnode hname)
    have hle : (items.map (weight t root)).sum ≤
        ((names.map fun name => root.below (rel ++ [name])).map (weight t root)).sum := by
      rw [← (hentries.map _).sum_eq]
      exact (hsub.map _).sum_le_sum (by simp)
    rw [weight_below hnode, Tree.size]
    omega

/-- **The walk of a finite tree ends**, after at most as many iterations as the tree has nodes. -/
theorem discover_terminates (h : t.Mounted fs root) (hdir : ∃ names child, t = .dir names child) :
    ∃ discovered, ∀ fuel, t.size ≤ fuel → discover fs fuel root = some discovered := by
  obtain ⟨names, child, hdir⟩ := hdir
  have hroot : IsDirectory t root root :=
    ⟨[], names, child, (Path.below_nil root).symm, by rw [Tree.lookup_nil, hdir]⟩
  have hweight : weight t root root = t.size := by
    have hbelow : weight t root (root.below []) = t.size := weight_below (Tree.lookup_nil t)
    rwa [Path.below_nil] at hbelow
  have hpositive (path : Path) (hpath : IsDirectory t root path) : 0 < weight t root path := by
    obtain ⟨rel, names, child, rfl, hnode⟩ := hpath
    rw [weight_below hnode]
    exact Tree.size_pos _
  obtain ⟨r, hr⟩ : ∃ r, worklist (visitDirectory fs root) t.size [] [root] = some r :=
    worklist_terminates (weight t root)
      (fun path items results hpath hvisit => visitDirectory_mounted h hpath hvisit) hpositive
      (by simpa using hroot) (by simp [hweight])
  exact ⟨_, fun fuel hfuel => by rw [discover, worklist_mono hr hfuel, Option.map_some]⟩

end Walk

/-! ### Loading -/

/-- **All-or-nothing loading of a rule library.**  The walk ends; its error comes first.  Otherwise every
discovered file gives its rule, in the order of the root-relative paths and with distinct ids, or the error
is that of the first file at fault.  The order of enumeration does not matter. -/
theorem load_all_or_nothing {t : Tree} {fs : FileSystem} {ruleRoot root : Path}
    (readRule : String → Except ReadFailure DetectionRule) (habsolute : ruleRoot.isAbsolute = true)
    (hresolve : fs.resolve ruleRoot = .ok root) (hisDir : fs.isDir root = some true)
    (hmounted : t.Mounted fs root) (htree : ∃ names child, t = .dir names child) :
    ∃ discovered result,
      (∀ fuel, t.size ≤ fuel → discover fs fuel root = some discovered ∧
        loadDetectionRules fs readRule fuel ruleRoot = some result) ∧
      (∀ e, discovered = .error e → result = .error e) ∧
      (∀ files, discovered = .ok files →
        files.Pairwise (fun path path' => relativePosix root path ≤ relativePosix root path') ∧
        (∀ rules, result = .ok rules ↔ Loaded (loadFile fs readRule root) files rules) ∧
        ∀ e, result = .error e ↔ FirstFault (loadFile fs readRule root) (relativePosix root) files e) ∧
      ∀ fs', Reordered fs fs' → ∀ fuel,
        loadDetectionRules fs' readRule fuel ruleRoot = loadDetectionRules fs readRule fuel ruleRoot := by
  obtain ⟨discovered, hdiscovered⟩ := discover_terminates hmounted htree
  refine ⟨discovered, discovered.bind (loadFiles (loadFile fs readRule root) (relativePosix root) [] []),
    fun fuel hfuel => ⟨hdiscovered fuel hfuel, ?_⟩, ?_, ?_,
    fun fs' h fuel => loadDetectionRules_reordered h readRule fuel ruleRoot⟩
  · rw [loadDetectionRules, if_neg (by simp [habsolute]), hresolve]
    dsimp only
    rw [if_neg (by simp [hisDir]), hdiscovered fuel hfuel, Option.map_some]
  · rintro e rfl
    rfl
  · rintro files rfl
    refine ⟨?_, fun rules => loadFiles_eq_ok, fun e => loadFiles_eq_error⟩
    obtain ⟨r, -, hr⟩ := Option.map_eq_some_iff.mp (hdiscovered t.size le_rfl)
    obtain ⟨found, -, rfl⟩ := exists_of_map_ok hr
    exact pairwise_sorted (relativePosix root) found

/-- The rules that are loaded have distinct ids and passed the semantic check. -/
theorem semantics_of_loadDetectionRules {fs : FileSystem} {readRule : String → Except ReadFailure DetectionRule}
    {fuel : Nat} {ruleRoot : Path} {rules : List DetectionRule}
    (h : loadDetectionRules fs readRule fuel ruleRoot = some (.ok rules)) :
    (rules.map (·.id)).Nodup ∧ ∀ rule ∈ rules, validateDetectionRuleSemantics rule = .ok () := by
  unfold loadDetectionRules at h
  split_ifs at h
  · cases h
  · split at h
    · cases h
    · split_ifs at h
      · cases h
      · obtain ⟨discovered, -, h⟩ := Option.map_eq_some_iff.mp h
        cases discovered with
        | error e => cases h
        | ok files =>
          obtain ⟨heach, hdistinct⟩ := loadFiles_eq_ok.mp h
          refine ⟨hdistinct, fun rule hrule => ?_⟩
          obtain ⟨path, -, hload⟩ := exists_of_forall₂ heach.flip rule hrule
          exact semantics_of_loadFile hload

/-! ### Two libraries -/

/-- The texts that are read as rules. -/
def exampleReader (content : String) : Except ReadFailure DetectionRule :=
  if content = "logon" then .ok .exampleRule
  else if content = "host" then .ok .exampleHostRule
  else .error (.category "invalid_yaml")

/-- Two rules at different depths, and a file that is no rule. -/
def DirectoryTree.exampleRules : DirectoryTree := .ofEntries
  [("host.yml", .file "host"), ("auth", .ofEntries [("README.md", .file ""), ("logon.yaml", .file "logon")])]
  (by decide)

/-- A directory with a rule twice, next to a file that is invalid and later in the order. -/
def DirectoryTree.exampleFaults : DirectoryTree := .ofEntries
  [("host.yml", .file "host"), ("broken.yaml", .file "broken"),
    ("auth", .ofEntries [("nested", .ofEntries [("again.yaml", .file "logon")]), ("logon.yaml", .file "logon")])]
  (by decide)

theorem load_all_or_nothing_example :
    (∃ rules, loadDetectionRules (DirectoryTree.exampleRules.tree.fileSystem ⟨true, ["srv"]⟩) exampleReader 5
        ⟨true, ["srv"]⟩ = some (.ok rules) ∧ rules.map (·.id) = ["alice-logon", "host-logon"]) ∧
      ∀ fs', Reordered (DirectoryTree.exampleFaults.tree.fileSystem ⟨true, ["srv"]⟩) fs' →
        loadDetectionRules fs' exampleReader 7 ⟨true, ["srv"]⟩ =
          some (.error (.duplicateId "alice-logon" "auth/logon.yaml" "auth/nested/again.yaml")) := by
  constructor
  · obtain ⟨discovered, result, hload, -, hfiles, -⟩ := @load_all_or_nothing _ _ ⟨true, ["srv"]⟩ _
      exampleReader rfl rfl rfl (DirectoryTree.exampleRules.mounted ⟨true, ["srv"]⟩) ⟨_, _, rfl⟩
    obtain ⟨hdiscovered, hresult⟩ := hload 5 (by decide)
    have hfound : discover (DirectoryTree.exampleRules.tree.fileSystem ⟨true, ["srv"]⟩) 5 ⟨true, ["srv"]⟩ =
        some (.ok [⟨true, ["srv", "auth", "logon.yaml"]⟩, ⟨true, ["srv", "host.yml"]⟩]) := by decide +kernel
    cases hdiscovered.symm.trans hfound
    have hok := ((hfiles _ rfl).2.1 [.exampleRule, .exampleHostRule]).mpr
      ⟨.cons rfl (.cons rfl .nil), by decide⟩
    exact ⟨_, hresult.trans (congrArg some hok), by decide⟩
  · obtain ⟨discovered, result, hload, -, hfiles, horder⟩ := @load_all_or_nothing _ _ ⟨true, ["srv"]⟩ _
      exampleReader rfl rfl rfl (DirectoryTree.exampleFaults.mounted ⟨true, ["srv"]⟩) ⟨_, _, rfl⟩
    obtain ⟨hdiscovered, hresult⟩ := hload 7 (by decide)
    have hfound : discover (DirectoryTree.exampleFaults.tree.fileSystem ⟨true, ["srv"]⟩) 7 ⟨true, ["srv"]⟩ =
        some (.ok [⟨true, ["srv", "auth", "logon.yaml"]⟩, ⟨true, ["srv", "auth", "nested", "again.yaml"]⟩,
          ⟨true, ["srv", "broken.yaml"]⟩, ⟨true, ["srv", "host.yml"]⟩]) := by decide +kernel
    cases hdiscovered.symm.trans hfound
    -- The repeated id comes before the file that is invalid.
    have hfault := ((hfiles _ rfl).2.2 (.duplicateId "alice-logon" "auth/logon.yaml" "auth/nested/again.yaml")).mpr
      ⟨[_], _, [_, _], rfl, ⟨[.exampleRule], .cons rfl .nil, by decide⟩,
        Or.inr ⟨.exampleRule, rfl, _, List.mem_singleton_self _, ⟨.exampleRule, rfl, rfl⟩, rfl⟩⟩
    exact fun fs' hfs' => (horder fs' hfs' 7).trans (hresult.trans (congrArg some hfault))

end SocLab
