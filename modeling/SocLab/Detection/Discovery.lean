import SocLab.Detection.Library

/-!
# SocLab.Detection.Discovery — the walk finds every rule file once and rejects every link

* `Tree.ruleFiles` lists the rule files of a tree; `Tree.Clean` says that the tree has no link, no reparse point
  and no special file with the suffix of a rule.
* `Admissible` is what the walk asks of one node, `visitDirectory_eq_ok` what one iteration gives, and
  `discover_eq_ok` what the whole walk gives.
* `discovery_exact_iff`: `_discover` is exact but where the root has an entry named `<outside-root>`.
-/

namespace SocLab

open Py Logic

/-! ### What is to be found -/

/-- `.suffix in {".yaml", ".yml"}`. -/
def ruleSuffix (path : Path) : Bool := path.suffix ∈ [".yaml", ".yml"]

/-- The path of a regular file with the suffix of a rule, at any depth. -/
def IsRuleFile (t : Tree) (root path : Path) : Prop :=
  ∃ rel content, path = root.below rel ∧ t.lookup rel = some (.leaf .regular content) ∧ ruleSuffix path = true

/-- No link or reparse point, whatever it is called, and no special file with the suffix of a rule. -/
structure Tree.Clean (t : Tree) (root : Path) : Prop where
  links : ∀ rel node, t.lookup rel = some node → Stat.isLink node.metadata = false
  regular : ∀ rel node, t.lookup rel = some node → ruleSuffix (root.below rel) = true →
    node.metadata.kind = .directory ∨ node.metadata.kind = .regular

/-- Whether a tree is clean can be read off its nodes. -/
theorem Tree.clean_iff {t : Tree} {root : Path} : t.Clean root ↔ ∀ p ∈ t.nodes,
    Stat.isLink p.2.metadata = false ∧ (ruleSuffix (root.below p.1) = true →
      p.2.metadata.kind = .directory ∨ p.2.metadata.kind = .regular) := by
  refine Iff.trans ?_ (Tree.forall_lookup_iff (P := fun rel node => Stat.isLink node.metadata = false ∧
    (ruleSuffix (root.below rel) = true → node.metadata.kind = .directory ∨ node.metadata.kind = .regular)))
  constructor
  · exact fun h rel node hnode => ⟨h.links rel node hnode, h.regular rel node hnode⟩
  · exact fun h => ⟨fun rel node hnode => (h rel node hnode).1, fun rel node hnode => (h rel node hnode).2⟩

instance (t : Tree) (root : Path) : Decidable (t.Clean root) := decidable_of_iff' _ Tree.clean_iff

/-- The rule files of the tree at `path`, in the order of the names. -/
def Tree.ruleFiles : Tree → Path → List Path
  | dir names child, path => names.flatMap fun name => (child name).ruleFiles (path.below [name])
  | leaf .regular _, path => if ruleSuffix path then [path] else []
  | leaf _ _, _ => []

namespace Tree

theorem mem_ruleFiles {t : Tree} {path p : Path} : p ∈ t.ruleFiles path ↔ IsRuleFile t path p := by
  -- along the tree; a path below a directory starts with one of its names
  induction t generalizing path with
  | dir names child ih =>
    rw [ruleFiles, List.mem_flatMap]
    constructor
    · rintro ⟨name, hname, hp⟩
      obtain ⟨rel, content, rfl, hlookup, hsuffix⟩ := (ih name).mp hp
      rw [Path.below_below] at hsuffix ⊢
      exact ⟨name :: rel, content, rfl, by rwa [lookup, if_pos hname], hsuffix⟩
    · rintro ⟨rel, content, rfl, hlookup, hsuffix⟩
      cases rel with
      | nil => cases hlookup
      | cons name rel =>
        rw [lookup] at hlookup
        split_ifs at hlookup with hname
        refine ⟨name, hname, (ih name).mpr ⟨rel, content, ?_, hlookup, hsuffix⟩⟩
        rw [Path.below_below, List.singleton_append]
  | leaf kind content =>
    have hnil {rel : List String} {node : Tree} (h : (leaf kind content).lookup rel = some node) :
        rel = [] ∧ node = leaf kind content := by
      cases rel with
      | nil => exact ⟨rfl, by cases h; rfl⟩
      | cons name rel => cases h
    cases kind with
    | regular =>
      have hmem : p ∈ (leaf .regular content).ruleFiles path ↔ p = path ∧ ruleSuffix p = true := by
        rw [ruleFiles]
        by_cases hsuffix : ruleSuffix path = true
        · rw [if_pos hsuffix, List.mem_singleton]
          exact ⟨fun h => ⟨h, h ▸ hsuffix⟩, fun h => h.1⟩
        · rw [if_neg hsuffix]
          refine iff_of_false List.not_mem_nil ?_
          rintro ⟨rfl, h⟩
          exact hsuffix h
      rw [hmem]
      constructor
      · rintro ⟨rfl, hsuffix⟩
        exact ⟨[], content, (Path.below_nil p).symm, rfl, hsuffix⟩
      · rintro ⟨rel, content', rfl, hlookup, hsuffix⟩
        obtain ⟨rfl, -⟩ := hnil hlookup
        rw [Path.below_nil] at hsuffix ⊢
        exact ⟨rfl, hsuffix⟩
    | link | reparsePoint | other =>
      refine iff_of_false List.not_mem_nil ?_
      rintro ⟨rel, content', -, hlookup, -⟩
      cases (hnil hlookup).2

/-- **No rule file is listed twice**: what is below two names of a directory is disjoint. -/
theorem nodup_ruleFiles {t : Tree} (h : ∀ rel names child, t.lookup rel = some (dir names child) → names.Nodup)
    (path : Path) : (t.ruleFiles path).Nodup := by
  induction t generalizing path with
  | dir names child ih =>
    rw [ruleFiles, List.nodup_flatMap]
    refine ⟨fun name hname => ih name (fun rel names' child' hlookup => ?_) _, ?_⟩
    · exact h (name :: rel) names' child' (by rwa [lookup, if_pos hname])
    · refine (h [] names child rfl).imp fun {m n} hmn => ?_
      intro p hm hn
      obtain ⟨rel, -, hrel, -, -⟩ := mem_ruleFiles.mp hm
      obtain ⟨rel', -, hrel', -, -⟩ := mem_ruleFiles.mp hn
      rw [hrel, Path.below_below, Path.below_below] at hrel'
      have hcons : [m] ++ rel = [n] ++ rel' := by simpa [Path.below] using hrel'
      exact hmn (List.cons.inj hcons).1
  | leaf kind content =>
    cases kind with
    | regular =>
      rw [ruleFiles]
      split_ifs
      · exact List.nodup_singleton path
      · exact List.nodup_nil
    | link | reparsePoint | other => exact List.nodup_nil

end Tree

/-! ### One iteration -/

/-- What the walk asks of a node. -/
structure Admissible (root : Path) (rel : List String) (node : Tree) : Prop where
  inside : relativePath root (root.below rel) ≠ "<outside-root>"
  link : Stat.isLink node.metadata = false
  regular : ruleSuffix (root.below rel) = true →
    node.metadata.kind = .directory ∨ node.metadata.kind = .regular

section Visit

variable {t : Tree} {fs : FileSystem} {root : Path} {rel : List String} {node : Tree}
  {directories files entries : List Path} {found : List Path × List Path}

/-- The node at a path. -/
def nodeAt (t : Tree) (root path : Path) : Option Tree := (path.relativeTo root).bind t.lookup

theorem nodeAt_below : nodeAt t root (root.below rel) = t.lookup rel := by
  rw [nodeAt, Path.relativeTo_below, Option.bind_some]

/-- A directory of the tree is at the path. -/
def directoryAt (t : Tree) (root path : Path) : Bool :=
  match nodeAt t root path with
  | some (.dir _ _) => true
  | _ => false

/-- A rule file of the tree is at the path. -/
def ruleFileAt (t : Tree) (root path : Path) : Bool :=
  match nodeAt t root path with
  | some (.leaf .regular _) => ruleSuffix path
  | _ => false

/-- Where no special file can stand, the check of the path is the whole check. -/
theorem admissible_iff_checked (hkind : ruleSuffix (root.below rel) = true →
    node.metadata.kind = .directory ∨ node.metadata.kind = .regular) :
    Admissible root rel node ↔
      relativePath root (root.below rel) ≠ "<outside-root>" ∧ Stat.isLink node.metadata = false :=
  ⟨fun h => ⟨h.inside, h.link⟩, fun h => ⟨h.1, h.2, hkind⟩⟩

/-- One entry, as the source treats it by its metadata. -/
theorem visitEntries_checked (h : t.Mounted fs root) (hnode : t.lookup rel = some node) :
    visitEntries fs root directories files (root.below rel :: entries) = .ok found ↔
      (relativePath root (root.below rel) ≠ "<outside-root>" ∧ Stat.isLink node.metadata = false) ∧
        (if node.metadata.kind = .directory then
            visitEntries fs root (directories ++ [root.below rel]) files entries
          else if (root.below rel).suffix ∈ [".yaml", ".yml"] then
            if node.metadata.kind ≠ .regular then
              .error (.file (relativePath root (root.below rel)) "not_regular_file")
            else visitEntries fs root directories (files ++ [root.below rel]) entries
          else visitEntries fs root directories files entries) = .ok found := by
  rw [visitEntries, bind_eq_ok]
  constructor
  · rintro ⟨checked, hchecked, hrest⟩
    obtain ⟨hinside, hlink, rfl⟩ := (checkedPath_mounted h hnode).mp hchecked
    rw [h.lstat rel node hnode] at hrest
    exact ⟨⟨hinside, hlink⟩, hrest⟩
  · rintro ⟨⟨hinside, hlink⟩, hrest⟩
    refine ⟨_, (checkedPath_mounted h hnode).mpr ⟨hinside, hlink, rfl⟩, ?_⟩
    rw [h.lstat rel node hnode]
    exact hrest

/-- **One entry**: it is admissible, and goes to the directories, to the files or nowhere. -/
theorem visitEntries_cons (h : t.Mounted fs root) (hnode : t.lookup rel = some node) :
    visitEntries fs root directories files (root.below rel :: entries) = .ok found ↔
      Admissible root rel node ∧ visitEntries fs root
        (directories ++ if directoryAt t root (root.below rel) then [root.below rel] else [])
        (files ++ if ruleFileAt t root (root.below rel) then [root.below rel] else []) entries = .ok found := by
  have hsuffix : (root.below rel).suffix ∈ [".yaml", ".yml"] ↔ ruleSuffix (root.below rel) = true := by
    rw [ruleSuffix, decide_eq_true_iff]
  rw [visitEntries_checked h hnode, directoryAt, ruleFileAt, nodeAt_below, hnode]
  simp only [hsuffix]
  -- links are refused first, whatever they are called
  by_cases hlink : Stat.isLink node.metadata = true
  · refine iff_of_false (fun hchecked => ?_) fun hchecked => ?_
    · exact absurd (hlink.symm.trans hchecked.1.2) (by decide)
    · exact absurd (hlink.symm.trans hchecked.1.link) (by decide)
  cases node with
  | dir names child =>
    have hkind : (Tree.dir names child).metadata.kind = .directory := rfl
    rw [admissible_iff_checked fun _ => Or.inl hkind, if_pos hkind]
    simp
  | leaf kind content =>
    cases kind with
    | regular =>
      have hkind : (Tree.leaf .regular content).metadata.kind = .regular := rfl
      rw [admissible_iff_checked fun _ => Or.inr hkind, hkind]
      by_cases hrule : ruleSuffix (root.below rel) = true
      · simp [hrule]
      · simp [hrule]
    | link => exact absurd rfl hlink
    | reparsePoint kind => exact absurd (by simp [Stat.isLink, Tree.metadata, LeafKind.metadata]) hlink
    | other =>
      have hkind : (Tree.leaf .other content).metadata.kind = .other := rfl
      by_cases hrule : ruleSuffix (root.below rel) = true
      · refine iff_of_false (fun hchecked => ?_) fun hchecked => ?_
        · simp [hkind, hrule] at hchecked
        · simpa [hkind] using hchecked.1.regular hrule
      · rw [admissible_iff_checked fun hyes => absurd hyes hrule, hkind]
        simp [hrule]

/-- **The entries of a directory** are admissible, and those that are directories or rule files are found. -/
theorem visitEntries_eq_ok (h : t.Mounted fs root)
    (hentries : ∀ entry ∈ entries, ∃ rel node, entry = root.below rel ∧ t.lookup rel = some node) :
    visitEntries fs root directories files entries = .ok found ↔
      (∀ rel node, root.below rel ∈ entries → t.lookup rel = some node → Admissible root rel node) ∧
        found = (directories ++ entries.filter (directoryAt t root),
          files ++ entries.filter (ruleFileAt t root)) := by
  induction entries generalizing directories files with
  | nil =>
    rw [visitEntries]
    simp [eq_comm]
  | cons entry entries ih =>
    obtain ⟨rel, node, rfl, hnode⟩ := hentries entry (by simp)
    have hfilter (p : Path → Bool) (found : List Path) (entry : Path) :
        (found ++ if p entry then [entry] else []) ++ entries.filter p =
          found ++ (entry :: entries).filter p := by
      rw [List.filter_cons, List.append_assoc]
      split_ifs <;> rfl
    rw [visitEntries_cons h hnode, ih fun entry hentry => hentries entry (by simp [hentry]), hfilter, hfilter,
      ← and_assoc]
    refine and_congr_left fun _ => ?_
    constructor
    · rintro ⟨hfirst, hrest⟩ rel' node' hmem hnode'
      rcases List.mem_cons.mp hmem with heq | hmem
      · obtain rfl : rel' = rel := by simpa [Path.below] using heq
        rw [hnode, Option.some.injEq] at hnode'
        exact hnode' ▸ hfirst
      · exact hrest rel' node' hmem hnode'
    · intro hall
      exact ⟨hall rel node (by simp) hnode, fun rel' node' hmem => hall rel' node' (by simp [hmem])⟩

/-- **One iteration**, in whatever order the names of the directory are enumerated. -/
theorem visitDirectory_eq_ok (h : t.Mounted fs root) {names : List String} {child : String → Tree}
    (hdir : t.lookup rel = some (.dir names child)) :
    ∃ entries : List Path, entries.Perm (names.map fun name => root.below (rel ++ [name])) ∧
      ∀ found, visitDirectory fs root (root.below rel) = .ok found ↔
        relativePath root (root.below rel) ≠ "<outside-root>" ∧
          (∀ name ∈ names, Admissible root (rel ++ [name]) (child name)) ∧
            found = (entries.filter (directoryAt t root), entries.filter (ruleFileAt t root)) := by
  obtain ⟨names', hnames, hperm⟩ := h.iterdir rel names child hdir
  have hentries : (sorted Path.name (names'.map fun name => (root.below rel).below [name])).Perm
      (names.map fun name => root.below (rel ++ [name])) := by
    refine (sorted_perm _ _).trans ((hperm.map _).trans ?_)
    simp only [Path.below_below]
    exact List.Perm.refl _
  have hmem (entry : Path)
      (hentry : entry ∈ sorted Path.name (names'.map fun name => (root.below rel).below [name])) :
      ∃ name ∈ names, entry = root.below (rel ++ [name]) := by
    obtain ⟨name, hname, rfl⟩ := List.mem_map.mp (hentries.mem_iff.mp hentry)
    exact ⟨name, hname, rfl⟩
  refine ⟨_, hentries, fun found => ?_⟩
  have hcheck : visitDirectory fs root (root.below rel) = .ok found ↔
      relativePath root (root.below rel) ≠ "<outside-root>" ∧ visitEntries fs root [] []
        (sorted Path.name (names'.map fun name => (root.below rel).below [name])) = .ok found := by
    rw [visitDirectory, bind_eq_ok]
    constructor
    · rintro ⟨checked, hchecked, hrest⟩
      obtain ⟨hinside, -, rfl⟩ := (checkedPath_mounted h hdir).mp hchecked
      rw [hnames] at hrest
      exact ⟨hinside, hrest⟩
    · rintro ⟨hinside, hrest⟩
      refine ⟨_, (checkedPath_mounted h hdir).mpr ⟨hinside, rfl, rfl⟩, ?_⟩
      rw [hnames]
      exact hrest
  -- every entry that is listed is a node of the tree, so the loop over them is decided by the nodes
  have hnodes : ∀ entry ∈ sorted Path.name (names'.map fun name => (root.below rel).below [name]),
      ∃ rel node, entry = root.below rel ∧ t.lookup rel = some node := by
    intro entry hentry
    obtain ⟨name, hname, rfl⟩ := hmem entry hentry
    exact ⟨rel ++ [name], child name, rfl, Tree.lookup_concat hdir hname⟩
  rw [hcheck, visitEntries_eq_ok h hnodes, List.nil_append, List.nil_append]
  refine and_congr_right fun _ => and_congr_left fun _ => ?_
  constructor
  · intro hall name hname
    refine hall (rel ++ [name]) (child name) (hentries.mem_iff.mpr ?_) (Tree.lookup_concat hdir hname)
    exact List.mem_map_of_mem hname
  · intro hall rel' node hentry hnode
    obtain ⟨name, hname, heq⟩ := hmem _ hentry
    obtain rfl : rel' = rel ++ [name] := by simpa [Path.below] using heq
    rw [Tree.lookup_concat hdir hname, Option.some.injEq] at hnode
    exact hnode ▸ hall name hname

end Visit

/-! ### The walk -/

section Walk

variable {t : Tree} {fs : FileSystem} {root path : Path}

/-- Every node from the path on is admissible. -/
def AdmissibleFrom (t : Tree) (root path : Path) : Prop :=
  ∀ rel rest node, path = root.below rel → t.lookup (rel ++ rest) = some node →
    Admissible root (rel ++ rest) node

/-- The rule files from the path on. -/
def ruleFilesFrom (t : Tree) (root path : Path) : List Path :=
  match nodeAt t root path with
  | some node => node.ruleFiles path
  | none => []

theorem directoryAt_iff :
    directoryAt t root path = true ↔ ∃ names child, nodeAt t root path = some (.dir names child) := by
  rw [directoryAt]
  split
  · next names child hnode => exact iff_of_true rfl ⟨names, child, hnode⟩
  · next hnot =>
    refine iff_of_false Bool.false_ne_true ?_
    rintro ⟨names, child, hnode⟩
    exact hnot names child hnode

/-- What is found from an entry: itself if it is a rule file, what is found below it if it is a directory. -/
theorem ruleFilesFrom_cases (t : Tree) (root path : Path) :
    (ruleFileAt t root path = true ∧ directoryAt t root path = false ∧ ruleFilesFrom t root path = [path]) ∨
      (ruleFileAt t root path = false ∧ directoryAt t root path = true) ∨
      (ruleFileAt t root path = false ∧ directoryAt t root path = false ∧ ruleFilesFrom t root path = []) := by
  unfold ruleFileAt directoryAt ruleFilesFrom
  cases nodeAt t root path with
  | none => exact Or.inr (Or.inr ⟨rfl, rfl, rfl⟩)
  | some node =>
    cases node with
    | dir names child => exact Or.inr (Or.inl ⟨rfl, rfl⟩)
    | leaf kind content =>
      cases kind with
      | regular =>
        by_cases hsuffix : ruleSuffix path = true
        · exact Or.inl ⟨hsuffix, rfl, if_pos hsuffix⟩
        · exact Or.inr (Or.inr ⟨by simpa using hsuffix, rfl, if_neg hsuffix⟩)
      | link => exact Or.inr (Or.inr ⟨rfl, rfl, rfl⟩)
      | reparsePoint kind => exact Or.inr (Or.inr ⟨rfl, rfl, rfl⟩)
      | other => exact Or.inr (Or.inr ⟨rfl, rfl, rfl⟩)

theorem ruleFilesFrom_entries (t : Tree) (root : Path) (entries : List Path) :
    (entries.flatMap (ruleFilesFrom t root)).Perm (entries.filter (ruleFileAt t root) ++
      (entries.filter (directoryAt t root)).flatMap (ruleFilesFrom t root)) := by
  induction entries with
  | nil => exact .nil
  | cons entry entries ih =>
    rw [List.flatMap_cons, List.filter_cons, List.filter_cons]
    rcases ruleFilesFrom_cases t root entry with ⟨hfile, hdir, hfound⟩ | ⟨hfile, hdir⟩ | ⟨hfile, hdir, hfound⟩
    · rw [hfile, hdir, hfound]
      exact ih.cons entry
    · rw [hfile, hdir, if_neg Bool.false_ne_true, if_pos rfl, List.flatMap_cons]
      exact (ih.append_left _).trans (List.perm_append_comm_assoc ..)
    · rw [hfile, hdir, hfound]
      exact ih

/-- **One iteration loses nothing**: the rule files below a directory are those in it and those below the
directories in it. -/
theorem ruleFilesFrom_visit (h : t.Mounted fs root) (hpath : IsDirectory t root path)
    {items results : List Path}
    (hvisit : visitDirectory fs root path = .ok (items, results)) :
    (ruleFilesFrom t root path).Perm (results ++ items.flatMap (ruleFilesFrom t root)) := by
  obtain ⟨rel, names, child, rfl, hdir⟩ := hpath
  obtain ⟨entries, hperm, hok⟩ := visitDirectory_eq_ok h hdir
  obtain ⟨-, -, hfound⟩ := (hok _).mp hvisit
  obtain ⟨rfl, rfl⟩ := Prod.mk.inj hfound
  have hself : ruleFilesFrom t root (root.below rel) =
      (names.map fun name => root.below (rel ++ [name])).flatMap (ruleFilesFrom t root) := by
    rw [ruleFilesFrom, nodeAt_below, hdir, List.flatMap_map]
    show (Tree.dir names child).ruleFiles (root.below rel) = _
    rw [Tree.ruleFiles]
    refine List.flatMap_congr fun name hname => ?_
    rw [ruleFilesFrom, nodeAt_below, Tree.lookup_concat hdir hname, Path.below_below]
  rw [hself]
  exact (hperm.symm.flatMap_right _).trans (ruleFilesFrom_entries t root entries)

/-- **One iteration rejects nothing else**: a directory is admissible with all below it when its visit succeeds
and the directories in it are. -/
theorem admissibleFrom_visit (h : t.Mounted fs root) (hpath : IsDirectory t root path) :
    AdmissibleFrom t root path ↔ ∃ items results, visitDirectory fs root path = .ok (items, results) ∧
      ∀ item ∈ items, AdmissibleFrom t root item := by
  obtain ⟨rel, names, child, rfl, hdir⟩ := hpath
  obtain ⟨entries, hperm, hok⟩ := visitDirectory_eq_ok h hdir
  have hentry {name : String} (hname : name ∈ names) : root.below (rel ++ [name]) ∈ entries :=
    hperm.mem_iff.mpr (List.mem_map_of_mem hname)
  constructor
  · intro hall
    have hself := hall rel [] (.dir names child) rfl (by rwa [List.append_nil])
    rw [List.append_nil] at hself
    refine ⟨_, _, (hok _).mpr ⟨hself.inside, fun name hname => ?_, rfl⟩, fun item hitem => ?_⟩
    · exact hall rel [name] (child name) rfl (Tree.lookup_concat hdir hname)
    · obtain ⟨name, hname, rfl⟩ := List.mem_map.mp (hperm.mem_iff.mp (List.mem_filter.mp hitem).1)
      intro rel' rest node heq hnode
      obtain rfl : rel ++ [name] = rel' := by simpa [Path.below] using heq
      rw [List.append_assoc] at hnode ⊢
      exact hall rel ([name] ++ rest) node rfl hnode
  · rintro ⟨items, results, hvisit, hitems⟩ rel' rest node heq hnode
    obtain rfl : rel = rel' := by simpa [Path.below] using heq
    obtain ⟨hinside, hnames, hfound⟩ := (hok _).mp hvisit
    obtain ⟨rfl, rfl⟩ := Prod.mk.inj hfound
    -- the directory itself is checked by the visit, what is deeper by the visits of its items
    cases rest with
    | nil =>
      rw [List.append_nil] at hnode ⊢
      rw [hdir, Option.some.injEq] at hnode
      subst hnode
      exact ⟨hinside, rfl, fun _ => Or.inl rfl⟩
    | cons name rest =>
      obtain ⟨m, hm, hrest⟩ := Tree.lookup_append hnode
      rw [hdir, Option.some.injEq] at hm
      subst hm
      rw [Tree.lookup] at hrest
      split_ifs at hrest with hname
      have hchild := Tree.lookup_concat hdir hname
      rw [List.append_cons] at hnode ⊢
      cases rest with
      | nil =>
        rw [Tree.lookup_nil, Option.some.injEq] at hrest
        rw [List.append_nil]
        exact hrest ▸ hnames name hname
      | cons next rest =>
        cases hdown : child name with
        | leaf kind content =>
          rw [hdown] at hrest
          cases hrest
        | dir names' child' =>
          have hitem : root.below (rel ++ [name]) ∈ entries.filter (directoryAt t root) := by
            rw [List.mem_filter, directoryAt_iff, nodeAt_below, hchild, hdown]
            exact ⟨hentry hname, names', child', rfl⟩
          exact hitems _ hitem (rel ++ [name]) (next :: rest) node rfl hnode

/-- **The whole walk** ends, succeeds when every node is admissible, and then finds the rule files. -/
theorem discover_eq_ok (h : t.Mounted fs root) (hdir : ∃ names child, t = .dir names child) :
    ∃ discovered, (∀ fuel, t.size ≤ fuel → discover fs fuel root = some discovered) ∧
      ((∃ files, discovered = .ok files) ↔ ∀ rel node, t.lookup rel = some node → Admissible root rel node) ∧
      ∀ files, discovered = .ok files → files.Perm (t.ruleFiles root) ∧
        files.Pairwise fun p q => relativePosix root p ≤ relativePosix root q := by
  obtain ⟨discovered, hdiscovered⟩ := discover_terminates h hdir
  obtain ⟨names, child, hroot⟩ := hdir
  -- the invariant of the worklist: what is pending is a directory of the tree
  have hpending : ∀ p ∈ [root], IsDirectory t root p := by
    intro p hp
    rw [List.mem_singleton.mp hp]
    exact ⟨[], names, child, (Path.below_nil root).symm, by rw [Tree.lookup_nil, hroot]⟩
  have hitems (p : Path) (items results : List Path) (hp : IsDirectory t root p)
      (hvisit : visitDirectory fs root p = .ok (items, results)) : ∀ q ∈ items, IsDirectory t root q :=
    (visitDirectory_mounted h hp hvisit).1
  obtain ⟨r, hr, rfl⟩ := Option.map_eq_some_iff.mp (hdiscovered t.size le_rfl)
  have hok := worklist_isOk_iff hitems (fun p hp => admissibleFrom_visit h hp) hpending hr
  have hall : (∀ p ∈ [root], AdmissibleFrom t root p) ↔
      ∀ rel node, t.lookup rel = some node → Admissible root rel node := by
    rw [List.forall_mem_singleton]
    constructor
    · exact fun hall rel node hnode => hall [] rel node (Path.below_nil root).symm hnode
    · intro hall rel rest node heq hnode
      exact hall (rel ++ rest) node hnode
  refine ⟨_, hdiscovered, ?_, ?_⟩
  · rw [← hall, ← hok]
    cases r with
    | ok found => exact iff_of_true ⟨_, rfl⟩ ⟨_, rfl⟩
    | error e => exact iff_of_false (by rintro ⟨_, ⟨⟩⟩) (by rintro ⟨_, ⟨⟩⟩)
  · rintro files hfiles
    obtain ⟨found, rfl, rfl⟩ := exists_of_map_ok hfiles
    have hperm := worklist_perm hitems (fun p items results hp => ruleFilesFrom_visit h hp) hpending hr
    rw [List.nil_append, List.flatMap_singleton, ruleFilesFrom] at hperm
    have hnode : nodeAt t root root = some t := by
      have hbelow : nodeAt t root (root.below []) = some t := nodeAt_below.trans (Tree.lookup_nil t)
      rwa [Path.below_nil] at hbelow
    rw [hnode] at hperm
    exact ⟨(sorted_perm _ _).trans hperm, pairwise_sorted ..⟩

end Walk

/-! ### The name of no path -/

section Exact

variable {t : DirectoryTree} {fs : FileSystem} {root : Path}

theorem relativePath_outside_iff {rel : List String} {node : Tree} (hnode : t.tree.lookup rel = some node) :
    relativePath root (root.below rel) = "<outside-root>" ↔ rel = ["<outside-root>"] := by
  have hparent : ".." ∉ rel := by
    intro hpart
    obtain ⟨pre, names, child, hpre, hname⟩ := Tree.exists_dir_of_mem hnode hpart
    exact (t.proper pre names child hpre).2.2 hname
  rw [relativePath_below hparent]
  exact Path.asPosix_eq_iff (by decide) (by decide)

/-- What the walk asks of the whole tree. -/
theorem admissible_iff : (∀ rel node, t.tree.lookup rel = some node → Admissible root rel node) ↔
    t.tree.Clean root ∧ "<outside-root>" ∉ t.names := by
  constructor
  · intro hall
    refine ⟨⟨fun rel node hnode => (hall rel node hnode).link,
      fun rel node hnode => (hall rel node hnode).regular⟩,
      fun hname => ?_⟩
    have hnode : t.tree.lookup ["<outside-root>"] = some (t.child "<outside-root>") := by
      rw [DirectoryTree.tree, Tree.lookup, if_pos hname, Tree.lookup_nil]
    exact (hall _ _ hnode).inside ((relativePath_outside_iff hnode).mpr rfl)
  · rintro ⟨hclean, hname⟩ rel node hnode
    refine ⟨fun houtside => ?_, hclean.links rel node hnode, hclean.regular rel node hnode⟩
    obtain rfl := (relativePath_outside_iff hnode).mp houtside
    rw [DirectoryTree.tree, Tree.lookup, if_neg hname] at hnode
    cases hnode

/-- `_discover` is exact on the tree: it ends, succeeds exactly when the tree is clean, and then gives the rule
files at every depth, each once, in the order of their root-relative POSIX paths. -/
def DiscoveryExact (t : DirectoryTree) (fs : FileSystem) (root : Path) : Prop :=
  ∃ discovered, (∀ fuel, t.tree.size ≤ fuel → discover fs fuel root = some discovered) ∧
    ((∃ files, discovered = .ok files) ↔ t.tree.Clean root) ∧
    ∀ files, discovered = .ok files → files.Nodup ∧ (∀ path, path ∈ files ↔ IsRuleFile t.tree root path) ∧
      files.Pairwise fun p q => relativePosix root p ≤ relativePosix root q

/-- That entry of the root is taken for one outside, and nothing is found. -/
theorem not_discoveryExact (h : t.tree.Mounted fs root) (hclean : t.tree.Clean root)
    (hname : "<outside-root>" ∈ t.names) : ¬ DiscoveryExact t fs root := by
  rintro ⟨discovered', hdiscovered', hok', -⟩
  obtain ⟨discovered, hdiscovered, hok, -⟩ := discover_eq_ok h ⟨t.names, t.child, rfl⟩
  have heq : discovered' = discovered := by
    have hsize := hdiscovered' t.tree.size le_rfl
    rw [hdiscovered t.tree.size le_rfl, Option.some.injEq] at hsize
    exact hsize.symm
  rw [heq, hok, admissible_iff] at hok'
  exact (hok'.mpr hclean).2 hname

/-- **`_discover` is exact, but on a clean tree whose root has an entry named `<outside-root>`.** -/
theorem discovery_exact_iff (h : t.tree.Mounted fs root) :
    DiscoveryExact t fs root ↔ ¬ (t.tree.Clean root ∧ "<outside-root>" ∈ t.names) := by
  refine ⟨fun hexact hboth => not_discoveryExact h hboth.1 hboth.2 hexact, fun hnot => ?_⟩
  obtain ⟨discovered, hdiscovered, hok, hfiles⟩ := discover_eq_ok h ⟨t.names, t.child, rfl⟩
  rw [admissible_iff] at hok
  refine ⟨discovered, hdiscovered, ?_, fun files hfound => ?_⟩
  · rw [hok]
    exact ⟨fun hc => hc.1, fun hc => ⟨hc, fun hname => hnot ⟨hc, hname⟩⟩⟩
  · obtain ⟨hperm, hsorted⟩ := hfiles files hfound
    refine ⟨hperm.nodup_iff.mpr (Tree.nodup_ruleFiles (fun rel names child hdir => ?_) root),
      fun path => hperm.mem_iff.trans Tree.mem_ruleFiles, hsorted⟩
    exact (t.proper rel names child hdir).1

end Exact

/-- Rule files at every depth, among other files. -/
def DirectoryTree.exampleNested : DirectoryTree := .ofEntries
  [("host.yml", .file "host"), ("socket", .leaf .other (.error .os)), ("auth", .ofEntries
    [("README.md", .file ""), ("deep", .ofEntries [("b.yml", .file "b"), ("a.yaml", .file "a")]),
      ("logon.yaml", .file "logon"), ("EMPTY.YAML", .ofEntries [])])] (by decide)

/-- A link to a file that is no rule, below a directory. -/
def DirectoryTree.exampleLinked : DirectoryTree := .ofEntries
  [("host.yml", .file "host"), ("auth", .ofEntries [("notes", .leaf .link (.error .os)), ("a.yaml", .file "a")])]
  (by decide)

theorem discovery_exact_example :
    (DiscoveryExact .exampleNested (DirectoryTree.exampleNested.tree.fileSystem ⟨true, ["srv"]⟩) ⟨true, ["srv"]⟩ ∧
      discover (DirectoryTree.exampleNested.tree.fileSystem ⟨true, ["srv"]⟩) 10 ⟨true, ["srv"]⟩ =
        some (.ok [⟨true, ["srv", "auth", "deep", "a.yaml"]⟩, ⟨true, ["srv", "auth", "deep", "b.yml"]⟩,
          ⟨true, ["srv", "auth", "logon.yaml"]⟩, ⟨true, ["srv", "host.yml"]⟩])) ∧
      DiscoveryExact .exampleLinked (DirectoryTree.exampleLinked.tree.fileSystem ⟨true, ["srv"]⟩) ⟨true, ["srv"]⟩ ∧
        discover (DirectoryTree.exampleLinked.tree.fileSystem ⟨true, ["srv"]⟩) 6 ⟨true, ["srv"]⟩ =
          some (.error (.file "auth/notes" "unsafe_path")) :=
  ⟨⟨(discovery_exact_iff (DirectoryTree.exampleNested.mounted _)).mpr (by decide), by decide +kernel⟩,
    (discovery_exact_iff (DirectoryTree.exampleLinked.mounted _)).mpr (by decide), by decide +kernel⟩

/-- The library whose only entry is the regular file `<outside-root>`. -/
def DirectoryTree.outsideRoot : DirectoryTree := .ofEntries [("<outside-root>", .file "")] (by decide)

/-- That library has no link and nothing special, and is refused. -/
theorem discovery_outsideRoot :
    DirectoryTree.outsideRoot.tree.Mounted (DirectoryTree.outsideRoot.tree.fileSystem ⟨true, ["srv"]⟩)
        ⟨true, ["srv"]⟩ ∧
      DirectoryTree.outsideRoot.tree.Clean ⟨true, ["srv"]⟩ ∧
      discover (DirectoryTree.outsideRoot.tree.fileSystem ⟨true, ["srv"]⟩) 2 ⟨true, ["srv"]⟩ =
        some (.error (.file "<outside-root>" "unsafe_path")) ∧
      ¬ DiscoveryExact .outsideRoot (DirectoryTree.outsideRoot.tree.fileSystem ⟨true, ["srv"]⟩)
        ⟨true, ["srv"]⟩ := by
  have hmounted := DirectoryTree.outsideRoot.mounted ⟨true, ["srv"]⟩
  have hclean : DirectoryTree.outsideRoot.tree.Clean ⟨true, ["srv"]⟩ := by decide
  exact ⟨hmounted, hclean, by decide, not_discoveryExact hmounted hclean (List.mem_singleton_self _)⟩

end SocLab
