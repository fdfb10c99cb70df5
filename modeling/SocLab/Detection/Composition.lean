import SocLab.Detection.Discovery
import SocLab.Detection.Safety

/-!
# SocLab.Detection.Composition — libraries are made of their files

A `Library` is a directory tree that the walk accepts.  Loading depends on its rule files alone
(`Library.loads_iff`), and `library_union` says how a library that consists of two others loads and matches.
-/

namespace Py.Path

/-- The names of entries, joined by slashes, give the names back. -/
theorem asPosix_injective {rel rel' : List String} (hne : rel ≠ []) (hne' : rel' ≠ [])
    (hslash : ∀ name ∈ rel, '/' ∉ name.toList) (hslash' : ∀ name ∈ rel', '/' ∉ name.toList)
    (h : asPosix rel = asPosix rel') : rel = rel' := by
  have hsplit {rel : List String} (hne : rel ≠ []) (hslash : ∀ name ∈ rel, '/' ∉ name.toList) :
      (asPosix rel).toList.splitOn '/' = rel.map String.toList := by
    rw [asPosix, if_neg hne, String.toList_intercalate]
    exact List.splitOn_intercalate '/' (by simpa using hslash) (by simpa using hne)
  have hlists : rel.map String.toList = rel'.map String.toList := by
    rw [← hsplit hne hslash, ← hsplit hne' hslash', h]
  exact List.map_injective_iff.mpr (fun a b => String.toList_inj.mp) hlists

end Py.Path

namespace SocLab

open Py Logic

/-! ### Files that load -/

section Files

variable {load : Path → Except DetectionRuleLoadError DetectionRule} {files : List Path}
  {rules : List DetectionRule}

/-- The rule of a file, if it loads. -/
def ruleOf (load : Path → Except DetectionRuleLoadError DetectionRule) (path : Path) : Option DetectionRule :=
  (load path).toOption

theorem ruleOf_eq_some {path : Path} {rule : DetectionRule} :
    ruleOf load path = some rule ↔ load path = .ok rule := by
  rw [ruleOf]
  cases load path <;> simp [Except.toOption]

/-- Files are loaded when each gives a rule, and no two give one id. -/
theorem loaded_iff : Loaded load files rules ↔ (∀ path ∈ files, ∃ rule, load path = .ok rule) ∧
    rules = files.filterMap (ruleOf load) ∧ (rules.map (·.id)).Nodup := by
  constructor
  · intro h
    obtain ⟨heach, hdistinct⟩ := h
    refine ⟨fun path hpath => ?_, ?_, hdistinct⟩
    · obtain ⟨rule, -, hload⟩ := exists_of_forall₂ heach path hpath
      exact ⟨rule, hload⟩
    · clear hdistinct
      induction heach with
      | nil => rfl
      | cons hload _ ih => rw [List.filterMap_cons, ruleOf_eq_some.mpr hload, ← ih]
  · intro h
    obtain ⟨hloads, rfl, hdistinct⟩ := h
    refine ⟨?_, hdistinct⟩
    clear hdistinct
    induction files with
    | nil => exact .nil
    | cons path files ih =>
      obtain ⟨rule, hload⟩ := hloads path (by simp)
      rw [List.filterMap_cons, ruleOf_eq_some.mpr hload]
      exact .cons hload (ih fun path' hpath' => hloads path' (by simp [hpath']))

theorem loaded_congr {load' : Path → Except DetectionRuleLoadError DetectionRule}
    (h : ∀ path ∈ files, load path = load' path) : Loaded load files rules ↔ Loaded load' files rules := by
  have hrules : files.filterMap (ruleOf load) = files.filterMap (ruleOf load') :=
    List.filterMap_congr fun path hpath => by rw [ruleOf, ruleOf, h path hpath]
  rw [loaded_iff, loaded_iff, hrules]
  refine and_congr_left fun _ => forall₂_congr fun path hpath => ?_
  rw [h path hpath]

/-- No rule of the one list has the id of a rule of the other. -/
def IdsApart (rules rules' : List DetectionRule) : Prop := ∀ r ∈ rules, ∀ r' ∈ rules', r.id ≠ r'.id

theorem nodup_append_ids {rules' : List DetectionRule} : ((rules ++ rules').map (·.id)).Nodup ↔
    (rules.map (·.id)).Nodup ∧ (rules'.map (·.id)).Nodup ∧ IdsApart rules rules' := by
  rw [List.map_append, List.nodup_append]
  simp [IdsApart]

/-- **Files in two parts**: they load when both parts do and share no id, and then the rules are those of the
parts. -/
theorem loaded_parts (p : Path → Bool) : Loaded load files rules ↔
    rules = files.filterMap (ruleOf load) ∧ ∃ rules₁ rules₂, Loaded load (files.filter p) rules₁ ∧
      Loaded load (files.filter fun path => !p path) rules₂ ∧ IdsApart rules₁ rules₂ := by
  have hperm : ((files.filter p).filterMap (ruleOf load) ++
      (files.filter fun path => !p path).filterMap (ruleOf load)).Perm (files.filterMap (ruleOf load)) := by
    rw [← List.filterMap_append]
    exact (List.filter_append_perm p files).filterMap _
  have hids := (hperm.map (·.id)).nodup_iff
  rw [nodup_append_ids] at hids
  simp only [loaded_iff]
  constructor
  · intro h
    obtain ⟨hloads, rfl, hdistinct⟩ := h
    obtain ⟨h₁, h₂, hapart⟩ := hids.mpr hdistinct
    exact ⟨rfl, _, _, ⟨fun path hpath => hloads path (List.mem_filter.mp hpath).1, rfl, h₁⟩,
      ⟨fun path hpath => hloads path (List.mem_filter.mp hpath).1, rfl, h₂⟩, hapart⟩
  · intro h
    obtain ⟨rfl, _, _, ⟨hloads₁, rfl, h₁⟩, ⟨hloads₂, rfl, h₂⟩, hapart⟩ := h
    refine ⟨fun path hpath => ?_, rfl, hids.mp ⟨h₁, h₂, hapart⟩⟩
    by_cases hp : p path = true
    · exact hloads₁ path (List.mem_filter.mpr ⟨hpath, hp⟩)
    · exact hloads₂ path (List.mem_filter.mpr ⟨hpath, by simpa using hp⟩)

end Files

/-- The matches for two collections are the merged matches for each. -/
theorem evaluateEvent_append_iff {event : NormalizedEvent} {rules rules' : List DetectionRule}
    {ms : List DetectionMatch} (hnodup : ((rules ++ rules').map (·.id)).Nodup) :
    evaluateEvent (some event) (some ((rules ++ rules').map some)) = .ok ms ↔
      ∃ ms₁ ms₂, evaluateEvent (some event) (some (rules.map some)) = .ok ms₁ ∧
        evaluateEvent (some event) (some (rules'.map some)) = .ok ms₂ ∧
        ms = sorted (fun m => m.ruleId) (ms₁ ++ ms₂) := by
  constructor
  · intro h
    obtain ⟨hn, hn', -⟩ := nodup_append_ids.mp hnodup
    have hfails := not_fails_of_ok hnodup h
    have h₁ : evaluateEvent (some event) (some (rules.map some)) = _ :=
      evaluateEvent_ok hn fun r hr => hfails r (List.mem_append_left _ hr)
    have h₂ : evaluateEvent (some event) (some (rules'.map some)) = _ :=
      evaluateEvent_ok hn' fun r hr => hfails r (List.mem_append_right _ hr)
    refine ⟨_, _, h₁, h₂, ?_⟩
    rw [evaluateEvent_append hnodup h₁ h₂] at h
    exact (Except.ok.inj h).symm
  · intro h
    obtain ⟨ms₁, ms₂, h₁, h₂, rfl⟩ := h
    exact evaluateEvent_append hnodup h₁ h₂

/-! ### Libraries -/

/-- A directory tree below `root` that the loader walks to its end, with names as a file system gives them. -/
structure Library (ruleRoot root : Path) where
  tree : DirectoryTree
  fs : FileSystem
  resolve : fs.resolve ruleRoot = .ok root
  isDir : fs.isDir root = some true
  mounted : tree.tree.Mounted fs root
  clean : tree.tree.Clean root
  inside : "<outside-root>" ∉ tree.names
  slashes : ∀ rel names child, tree.tree.lookup rel = some (.dir names child) →
    ∀ name ∈ names, '/' ∉ name.toList

namespace Library

variable {ruleRoot root : Path} {path path' : Path}
  {readRule : String → Except ReadFailure DetectionRule} {rules : List DetectionRule}

/-- The path is one of the rule files of the library. -/
def Has (L : Library ruleRoot root) (path : Path) : Prop := IsRuleFile L.tree.tree root path

/-- The library loads with these rules. -/
def Loads (L : Library ruleRoot root) (readRule : String → Except ReadFailure DetectionRule)
    (rules : List DetectionRule) : Prop :=
  ∀ fuel, L.tree.tree.size ≤ fuel → loadDetectionRules L.fs readRule fuel ruleRoot = some (.ok rules)

/-- The rule files, in the order in which they are loaded. -/
def files (L : Library ruleRoot root) : List Path := sorted (relativePosix root) (L.tree.tree.ruleFiles root)

theorem mem_files (L : Library ruleRoot root) : path ∈ L.files ↔ L.Has path := by
  rw [files, mem_sorted, Tree.mem_ruleFiles]
  exact Iff.rfl

/-- The names on the way to a rule file have no slashes. -/
theorem exists_of_has {L : Library ruleRoot root} (h : L.Has path) :
    ∃ rel content, path = root.below rel ∧ L.tree.tree.lookup rel = some (.leaf .regular content) ∧
      rel ≠ [] ∧ ∀ name ∈ rel, '/' ∉ name.toList := by
  obtain ⟨rel, content, hpath, hlookup, -⟩ := h
  refine ⟨rel, content, hpath, hlookup, ?_, fun name hname => ?_⟩
  · rintro rfl
    cases hlookup
  · obtain ⟨pre, names, child, hpre, hmem⟩ := Tree.exists_dir_of_mem hlookup hname
    exact L.slashes pre names child hpre name hmem

theorem relativePosix_below (rel : List String) : relativePosix root (root.below rel) = Path.asPosix rel := by
  rw [relativePosix, Path.relativeTo_below]
  rfl

/-- Two rule files, of one library or of two, differ in their relative paths. -/
theorem eq_of_relativePosix {L L' : Library ruleRoot root} (h : L.Has path) (h' : L'.Has path')
    (heq : relativePosix root path = relativePosix root path') : path = path' := by
  obtain ⟨rel, -, rfl, -, hne, hslash⟩ := exists_of_has h
  obtain ⟨rel', -, rfl, -, hne', hslash'⟩ := exists_of_has h'
  rw [relativePosix_below, relativePosix_below] at heq
  rw [Path.asPosix_injective hne hne' hslash hslash' heq]

/-- The files stand in the strict order of their relative paths. -/
theorem pairwise_files (L : Library ruleRoot root) :
    L.files.Pairwise fun p q => relativePosix root p < relativePosix root q := by
  refine pairwise_lt_sorted (relativePosix root) ?_
  refine List.Nodup.map_on (fun p hp q hq heq => ?_) (Tree.nodup_ruleFiles (fun rel names child hdir => ?_) root)
  · exact eq_of_relativePosix (Tree.mem_ruleFiles.mp hp) (Tree.mem_ruleFiles.mp hq) heq
  · exact (L.tree.proper rel names child hdir).1

/-- **Loading a library is loading its files in order.** -/
theorem loads_iff (habsolute : ruleRoot.isAbsolute = true) (L : Library ruleRoot root) :
    L.Loads readRule rules ↔ Loaded (loadFile L.fs readRule root) L.files rules := by
  obtain ⟨discovered, hdiscovered, hwalk, hfiles⟩ := discover_eq_ok L.mounted ⟨L.tree.names, L.tree.child, rfl⟩
  obtain ⟨found, rfl⟩ := hwalk.mpr (admissible_iff.mpr ⟨L.clean, L.inside⟩)
  obtain ⟨hperm, hsorted⟩ := hfiles found rfl
  have hfound : found = L.files := by
    have hsame := sorted_of_pairwise (relativePosix root) hsorted
    rw [← hsame]
    refine sorted_eq_of_perm_of_inj _ (fun p hp q hq heq => ?_) hperm
    exact eq_of_relativePosix (Tree.mem_ruleFiles.mp (hperm.mem_iff.mp hp))
      (Tree.mem_ruleFiles.mp (hperm.mem_iff.mp hq)) heq
  have hload (fuel : Nat) (hfuel : L.tree.tree.size ≤ fuel) :
      loadDetectionRules L.fs readRule fuel ruleRoot =
        some (loadFiles (loadFile L.fs readRule root) (relativePosix root) [] [] L.files) := by
    rw [loadDetectionRules, if_neg (by simp [habsolute]), L.resolve]
    dsimp only
    rw [if_neg (by simp [L.isDir]), hdiscovered fuel hfuel, hfound]
    rfl
  have hok : loadFiles (loadFile L.fs readRule root) (relativePosix root) [] [] L.files = .ok rules ↔
      Loaded (loadFile L.fs readRule root) L.files rules := loadFiles_eq_ok
  rw [← hok]
  constructor
  · intro h
    have hrules := h L.tree.tree.size le_rfl
    rw [hload _ le_rfl] at hrules
    exact Option.some.inj hrules
  · intro h fuel hfuel
    rw [hload fuel hfuel, h]

/-- What the loader asks of a rule file holds. -/
theorem checkedPath_of_has {L : Library ruleRoot root} (h : L.Has path) :
    checkedPath L.fs root path = .ok path ∧ L.fs.lstat path = .ok ⟨.regular, false⟩ := by
  obtain ⟨rel, content, rfl, hlookup, -, -⟩ := exists_of_has h
  have hadmissible := admissible_iff.mpr ⟨L.clean, L.inside⟩ rel _ hlookup
  exact ⟨(checkedPath_mounted L.mounted hlookup).mpr ⟨hadmissible.inside, hadmissible.link, rfl⟩,
    L.mounted.lstat rel _ hlookup⟩

/-- A rule file gives its rule by its text. -/
theorem loadFile_eq_of_text {L L' : Library ruleRoot root} (h : L.Has path) (h' : L'.Has path)
    (htext : L.fs.readText path = L'.fs.readText path) :
    loadFile L.fs readRule root path = loadFile L'.fs readRule root path := by
  obtain ⟨hchecked, hlstat⟩ := checkedPath_of_has h
  obtain ⟨hchecked', hlstat'⟩ := checkedPath_of_has h'
  rw [loadFile, loadFile, hchecked, hchecked', ok_bind, ok_bind, hlstat, hlstat', htext]

/-- The library has the rule files of two others, with their texts. -/
structure Union (L L₁ L₂ : Library ruleRoot root) : Prop where
  files : ∀ path, L.Has path ↔ L₁.Has path ∨ L₂.Has path
  apart : ∀ path, L₁.Has path → ¬ L₂.Has path
  text₁ : ∀ path, L₁.Has path → L.fs.readText path = L₁.fs.readText path
  text₂ : ∀ path, L₂.Has path → L.fs.readText path = L₂.fs.readText path

section Union

variable {L L₁ L₂ : Library ruleRoot root} {rules₁ rules₂ : List DetectionRule}

theorem Union.symm (h : Union L L₁ L₂) : Union L L₂ L₁ where
  files path := (h.files path).trans or_comm
  apart path h₂ h₁ := h.apart path h₁ h₂
  text₁ := h.text₂
  text₂ := h.text₁

/-- The files of a part, among all files. -/
theorem Union.files_filter (h : Union L L₁ L₂) {p : Path → Bool} (hp : ∀ path, p path = true ↔ L₁.Has path) :
    L.files.filter p = L₁.files := by
  refine eq_of_pairwise_lt _ (L.pairwise_files.filter _) L₁.pairwise_files fun path => ?_
  rw [List.mem_filter, hp, mem_files, mem_files, h.files]
  exact and_iff_right_of_imp Or.inl

theorem Union.loads_part (habsolute : ruleRoot.isAbsolute = true) (h : Union L L₁ L₂) :
    L₁.Loads readRule rules₁ ↔ Loaded (loadFile L.fs readRule root) L₁.files rules₁ := by
  rw [loads_iff habsolute]
  refine loaded_congr fun path hpath => ?_
  have hhas := L₁.mem_files.mp hpath
  exact (loadFile_eq_of_text ((h.files path).mpr (Or.inl hhas)) hhas (h.text₁ path hhas)).symm

/-- **A library of two libraries.**  It loads exactly when both load and no id is in both; the rules of each
keep their order among all rules; and for every event the matches are those of the two, by rule id. -/
theorem library_union (habsolute : ruleRoot.isAbsolute = true) (h : Union L L₁ L₂) :
    ((∃ rules, L.Loads readRule rules) ↔ ∃ rules₁ rules₂, L₁.Loads readRule rules₁ ∧
      L₂.Loads readRule rules₂ ∧ IdsApart rules₁ rules₂) ∧
    ∀ rules rules₁ rules₂, L.Loads readRule rules → L₁.Loads readRule rules₁ → L₂.Loads readRule rules₂ →
      rules.Perm (rules₁ ++ rules₂) ∧ rules₁.Sublist rules ∧ rules₂.Sublist rules ∧
        ∀ event ms, evaluateEvent (some event) (some (rules.map some)) = .ok ms ↔
          ∃ ms₁ ms₂, evaluateEvent (some event) (some (rules₁.map some)) = .ok ms₁ ∧
            evaluateEvent (some event) (some (rules₂.map some)) = .ok ms₂ ∧
            ms = sorted (fun m => m.ruleId) (ms₁ ++ ms₂) := by
  classical
  -- the files of the union, split by the part that has them, are the files of the parts in the same order
  have hpart : L.files.filter (fun path => decide (L₁.Has path)) = L₁.files :=
    h.files_filter fun path => decide_eq_true_iff
  have hrest : L.files.filter (fun path => !decide (L₁.Has path)) = L₂.files := by
    rw [← h.symm.files_filter (p := fun path => decide (L₂.Has path)) fun path => decide_eq_true_iff]
    refine List.filter_congr fun path hpath => ?_
    rcases (h.files path).mp (L.mem_files.mp hpath) with h₁ | h₂
    · simp [h₁, h.apart path h₁]
    · have hnot : ¬ L₁.Has path := fun h₁ => h.apart path h₁ h₂
      simp [h₂, hnot]
  have hparts (rules : List DetectionRule) : L.Loads readRule rules ↔
      rules = L.files.filterMap (ruleOf (loadFile L.fs readRule root)) ∧
        ∃ rules₁ rules₂, L₁.Loads readRule rules₁ ∧ L₂.Loads readRule rules₂ ∧ IdsApart rules₁ rules₂ := by
    rw [loads_iff habsolute, loaded_parts fun path => decide (L₁.Has path), hpart, hrest]
    simp only [h.loads_part habsolute, h.symm.loads_part habsolute]
  constructor
  · simp only [hparts]
    exact ⟨fun hloads => hloads.choose_spec.2, fun hloads => ⟨_, rfl, hloads⟩⟩
  · intro rules rules₁ rules₂ hloads hloads₁ hloads₂
    obtain ⟨-, hrules, hdistinct⟩ := loaded_iff.mp ((loads_iff habsolute L).mp hloads)
    obtain ⟨-, hrules₁, -⟩ := loaded_iff.mp ((h.loads_part habsolute).mp hloads₁)
    obtain ⟨-, hrules₂, -⟩ := loaded_iff.mp ((h.symm.loads_part habsolute).mp hloads₂)
    rw [← hpart] at hrules₁
    rw [← hrest] at hrules₂
    have hperm : rules.Perm (rules₁ ++ rules₂) := by
      rw [hrules, hrules₁, hrules₂, ← List.filterMap_append]
      exact (List.filter_append_perm _ L.files).symm.filterMap _
    refine ⟨hperm, ?_, ?_, fun event ms => ?_⟩
    · rw [hrules, hrules₁]
      exact List.filter_sublist.filterMap _
    · rw [hrules, hrules₂]
      exact List.filter_sublist.filterMap _
    · rw [evaluateEvent_perm hperm]
      exact evaluateEvent_append_iff ((hperm.map _).nodup_iff.mp hdistinct)

/-- Files that are listed in two parts, with the texts of the parts, make a library of two. -/
theorem Union.of_files (hfiles : L.files.Perm (L₁.files ++ L₂.files)) (hapart : ∀ path ∈ L₁.files, path ∉ L₂.files)
    (htext₁ : ∀ path ∈ L₁.files, L.fs.readText path = L₁.fs.readText path)
    (htext₂ : ∀ path ∈ L₂.files, L.fs.readText path = L₂.fs.readText path) : Union L L₁ L₂ := by
  simp only [mem_files] at hapart htext₁ htext₂
  refine ⟨fun path => ?_, hapart, htext₁, htext₂⟩
  rw [← mem_files, hfiles.mem_iff, List.mem_append, mem_files, mem_files]

end Union

/-- No name has a slash. -/
def slashFree : Tree → Bool
  | .dir names _ => names.all fun name => '/' ∉ name.toList
  | .leaf _ _ => true

/-- A library that a file system shows with nothing else. -/
def ofTree (tree : DirectoryTree) (root : Path)
    (hresolve : (tree.tree.fileSystem root).resolve root = .ok root)
    (hisDir : (tree.tree.fileSystem root).isDir root = some true) (hclean : tree.tree.Clean root)
    (hinside : "<outside-root>" ∉ tree.names) (hslashes : ∀ p ∈ tree.tree.nodes, slashFree p.2 = true) :
    Library root root where
  tree := tree
  fs := tree.tree.fileSystem root
  resolve := hresolve
  isDir := hisDir
  mounted := tree.mounted root
  clean := hclean
  inside := hinside
  slashes rel names child hlookup name hname := by
    have hfree := hslashes (rel, .dir names child) (Tree.mem_nodes.mpr hlookup)
    rw [slashFree, List.all_eq_true] at hfree
    exact of_decide_eq_true (hfree name hname)

/-! ### Two libraries in one -/

/-- The rule files of `DirectoryTree.exampleRules`, in the directory `auth` and beside it. -/
def authLibrary : Library ⟨true, ["srv"]⟩ ⟨true, ["srv"]⟩ :=
  ofTree (.ofEntries [("auth", .ofEntries [("logon.yaml", .file "logon")])] (by decide)) _ rfl rfl
    (by decide) (by decide) (by decide)

def hostLibrary : Library ⟨true, ["srv"]⟩ ⟨true, ["srv"]⟩ :=
  ofTree (.ofEntries [("host.yml", .file "host")] (by decide)) _ rfl rfl (by decide) (by decide) (by decide)

def wholeLibrary : Library ⟨true, ["srv"]⟩ ⟨true, ["srv"]⟩ :=
  ofTree .exampleRules _ rfl rfl (by decide) (by decide) (by decide)

theorem wholeLibrary_union : Union wholeLibrary authLibrary hostLibrary :=
  .of_files (by decide +kernel) (by decide +kernel) (by decide +kernel) (by decide +kernel)

theorem authLibrary_loads : authLibrary.Loads exampleReader [.exampleRule] := by
  have hfiles : authLibrary.files = [⟨true, ["srv", "auth", "logon.yaml"]⟩] := by decide +kernel
  refine (loads_iff rfl _).mpr ?_
  rw [hfiles]
  exact ⟨.cons rfl .nil, List.nodup_singleton _⟩

theorem hostLibrary_loads : hostLibrary.Loads exampleReader [.exampleHostRule] := by
  have hfiles : hostLibrary.files = [⟨true, ["srv", "host.yml"]⟩] := by decide +kernel
  refine (loads_iff rfl _).mpr ?_
  rw [hfiles]
  exact ⟨.cons rfl .nil, List.nodup_singleton _⟩

theorem library_union_example : ∃ rules ms, wholeLibrary.Loads exampleReader rules ∧
    rules.Perm [.exampleRule, .exampleHostRule] ∧
      evaluateEvent (some .exampleLogon) (some (rules.map some)) = .ok ms ∧
        ms.map (·.ruleId) = ["alice-logon", "host-logon"] := by
  obtain ⟨hloads, hunion⟩ := @library_union _ _ exampleReader _ _ _ rfl wholeLibrary_union
  have hapart : IdsApart [.exampleRule] [.exampleHostRule] := by simp [IdsApart, DetectionRule.exampleRule,
    DetectionRule.exampleHostRule]
  obtain ⟨rules, hrules⟩ := hloads.mpr ⟨_, _, authLibrary_loads, hostLibrary_loads, hapart⟩
  obtain ⟨hperm, -, -, hmatches⟩ := hunion _ _ _ hrules authLibrary_loads hostLibrary_loads
  obtain ⟨ms₁, hms₁, hids₁⟩ := exists_of_map_ok (show (evaluateEvent (some .exampleLogon)
    (some ([DetectionRule.exampleRule].map some))).map (·.map (·.ruleId)) = .ok ["alice-logon"] by decide +kernel)
  obtain ⟨ms₂, hms₂, hids₂⟩ := exists_of_map_ok (show (evaluateEvent (some .exampleLogon)
    (some ([DetectionRule.exampleHostRule].map some))).map (·.map (·.ruleId)) = .ok ["host-logon"] by decide +kernel)
  refine ⟨rules, _, hrules, hperm, (hmatches _ _).mpr ⟨ms₁, ms₂, hms₁, hms₂, rfl⟩, ?_⟩
  have hmap := map_sorted (fun id : String => id) (fun m : DetectionMatch => m.ruleId) (ms₁ ++ ms₂)
  rw [hmap, List.map_append, hids₁, hids₂]
  decide

end Library

end SocLab
