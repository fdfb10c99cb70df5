import SocLab.Detection.Loader
import SocLab.Models.RuleParsing
import SocLab.Py.Yaml

/-!
# SocLab.Detection.RuleYaml — the YAML of a rule, and that no key is silently overridden

The part of `_load_file` between the text and the rule, from `detection/loader.py`, over what is relied on of
PyYAML.

* `checkEvents` is the loop over the events, `checkKeys` the one of `_RuleSafeLoader.construct_mapping`, and
  `readRule` what becomes of a text.
* `GoodKeys` says what keys a mapping may have, and `Represents node v` that every dict in `v` has one entry for
  each pair of its node, under its key.
* `noSilentOverride_iff`: a file with a bad key or a reference fails as `unsafe_yaml` or `invalid_yaml`, unless
  a scalar before that key makes the library raise an exception that the loader does not handle.
-/

namespace SocLab

open Py Py.Yaml Logic

/-! ### From the text to the rule -/

/-- `_UnsafeYamlError`. -/
def unsafeYamlError : Exc := .other "_UnsafeYamlError"

/-- The loop of `_RuleSafeLoader.construct_mapping`; `keys` are those so far. -/
def checkKeys (keys : List String) : List (Node × Node) → Except Exc Unit
  | [] => .ok ()
  | (.scalar tag value, _) :: pairs =>
    if tag ≠ strTag ∨ value = "<<" ∨ value ∈ keys then .error unsafeYamlError
    else checkKeys (value :: keys) pairs
  | _ :: _ => .error unsafeYamlError

/-- An alias, an anchor or an explicit tag. -/
def Forbidden : Event → Prop
  | .alias _ => True
  | .scalar anchor tag | .collectionStart anchor tag => anchor ≠ none ∨ tag ≠ none
  | .other => False

instance (event : Event) : Decidable (Forbidden event) :=
  match event with
  | .alias _ => isTrue trivial
  | .scalar anchor tag => inferInstanceAs (Decidable (anchor ≠ none ∨ tag ≠ none))
  | .collectionStart anchor tag => inferInstanceAs (Decidable (anchor ≠ none ∨ tag ≠ none))
  | .other => isFalse id

/-- The loop over the events. -/
def checkEvents : List Event → Except Exc Unit
  | [] => .ok ()
  | event :: events => if Forbidden event then .error unsafeYamlError else checkEvents events

/-- The events are checked as they come, and then the document is constructed. -/
def readDocument (lib : SafeLoader) (content : String) : Except Exc Value := do
  checkEvents (lib.parse content).1
  -- the events before the syntax error are checked first
  match (lib.parse content).2 with
  | some e => .error e
  | none =>
    match ← lib.compose content with
    | none => .ok .none
    | some root => lib.construct (checkKeys []) root

/-- The exceptions of `except (YAMLError, ValueError, RecursionError)`. -/
def invalidYaml : List Exc := [yamlError, .valueError, .recursionError]

/-- What `_load_file` makes of the text of a file, up to the semantic check. -/
def readRule (lib : SafeLoader) (content : String) : Except ReadFailure DetectionRule :=
  match readDocument lib content with
  | .error e =>
    if e = unsafeYamlError then .error (.category "unsafe_yaml")
    else if e ∈ invalidYaml then .error (.category "invalid_yaml")
    else .error (.exception e)
  -- an empty mapping is refused with what is no mapping
  | .ok (.dict (item :: items)) =>
    match DetectionRule.modelValidate (.dict (item :: items)) with
    | .ok rule => .ok rule
    | .invalid _ => .error (.category "invalid_rule")
    | .exception e => .error (.exception e)
  | .ok _ => .error (.category "invalid_document")

/-! ### Keys -/

/-- The keys are texts, none of them the merge key, and pairwise different. -/
def GoodKeys (pairs : List (Node × Node)) : Prop :=
  ∃ keys : List String, pairs.map (·.1) = keys.map (.scalar strTag ·) ∧ "<<" ∉ keys ∧ keys.Nodup

theorem checkKeys_eq_ok {seen : List String} {pairs : List (Node × Node)} :
    checkKeys seen pairs = .ok () ↔ ∃ keys : List String, pairs.map (·.1) = keys.map (.scalar strTag ·) ∧
      "<<" ∉ keys ∧ keys.Nodup ∧ ∀ key ∈ keys, key ∉ seen := by
  -- the keys seen so far grow with the loop
  induction pairs generalizing seen with
  | nil => exact iff_of_true rfl ⟨[], rfl, by simp, List.nodup_nil, by simp⟩
  | cons p pairs ih =>
    obtain ⟨key, node⟩ := p
    have hcons {keys : List String} (h : key :: pairs.map (·.1) = keys.map (.scalar strTag ·)) :
        ∃ k ks, keys = k :: ks ∧ key = .scalar strTag k ∧ pairs.map (·.1) = ks.map (.scalar strTag ·) := by
      cases keys with
      | nil => cases h
      | cons k ks =>
        rw [List.map_cons, List.cons.injEq] at h
        exact ⟨k, ks, rfl, h⟩
    cases key with
    | scalar tag value =>
      rw [checkKeys]
      split_ifs with hbad
      · refine iff_of_false (by rintro ⟨⟩) ?_
        rintro ⟨keys, hkeys, hmerge, -, hseen⟩
        obtain ⟨k, ks, rfl, hkey, -⟩ := hcons hkeys
        cases hkey
        rcases hbad with htag | rfl | hmem
        · exact htag rfl
        · exact hmerge (by simp)
        · exact hseen value (by simp) hmem
      · push Not at hbad
        obtain ⟨rfl, hmerge, hmem⟩ := hbad
        rw [ih]
        constructor
        · rintro ⟨keys, hkeys, hmerge', hnodup, hseen⟩
          have hnew : value ∉ keys := fun h => hseen value h (by simp)
          refine ⟨value :: keys, by simp [hkeys], by simp [hmerge.symm, hmerge'],
            List.nodup_cons.mpr ⟨hnew, hnodup⟩, ?_⟩
          exact List.forall_mem_cons.mpr ⟨hmem, fun k hk hs => hseen k hk (by simp [hs])⟩
        · rintro ⟨keys, hkeys, hmerge', hnodup, hseen⟩
          obtain ⟨k, ks, rfl, hkey, hks⟩ := hcons hkeys
          cases hkey
          obtain ⟨hnew, hnodup⟩ := List.nodup_cons.mp hnodup
          refine ⟨ks, hks, fun h => hmerge' (by simp [h]), hnodup, fun k hk hs => ?_⟩
          rcases List.mem_cons.mp hs with rfl | hs
          · exact hnew hk
          · exact hseen k (by simp [hk]) hs
    | sequence tag items =>
      refine iff_of_false (by rintro ⟨⟩) ?_
      rintro ⟨keys, hkeys, -⟩
      obtain ⟨k, ks, -, hkey, -⟩ := hcons hkeys
      cases hkey
    | mapping tag pairs' =>
      refine iff_of_false (by rintro ⟨⟩) ?_
      rintro ⟨keys, hkeys, -⟩
      obtain ⟨k, ks, -, hkey, -⟩ := hcons hkeys
      cases hkey

/-- **`construct_mapping` lets exactly the good keys through.** -/
theorem checkKeys_iff {pairs : List (Node × Node)} : checkKeys [] pairs = .ok () ↔ GoodKeys pairs := by
  rw [checkKeys_eq_ok, GoodKeys]
  simp

theorem checkKeys_error {seen : List String} {pairs : List (Node × Node)} {e : Exc}
    (h : checkKeys seen pairs = .error e) : e = unsafeYamlError := by
  induction pairs generalizing seen with
  | nil => cases h
  | cons p pairs ih =>
    obtain ⟨key, node⟩ := p
    cases key with
    | scalar tag value =>
      rw [checkKeys] at h
      split_ifs at h
      · cases h
        rfl
      · exact ih h
    | sequence tag items =>
      cases h
      rfl
    | mapping tag pairs' =>
      cases h
      rfl

/-- **The loop over the events** passes when none is forbidden, and otherwise raises the marker. -/
theorem checkEvents_eq (events : List Event) : (checkEvents events = .ok () ∧ ∀ e ∈ events, ¬ Forbidden e) ∨
    (checkEvents events = .error unsafeYamlError ∧ ∃ e ∈ events, Forbidden e) := by
  induction events with
  | nil => exact Or.inl ⟨rfl, by simp⟩
  | cons event events ih =>
    rw [checkEvents]
    by_cases hforbidden : Forbidden event
    · exact Or.inr ⟨if_pos hforbidden, event, by simp, hforbidden⟩
    · rw [if_neg hforbidden]
      rcases ih with ⟨hok, hnone⟩ | ⟨herror, e, he, hforbidden'⟩
      · exact Or.inl ⟨hok, List.forall_mem_cons.mpr ⟨hforbidden, hnone⟩⟩
      · exact Or.inr ⟨herror, e, by simp [he], hforbidden'⟩

/-! ### Documents -/

section Represents

variable (scalar : String → String → Except Exc Value)

mutual

/-- At every depth a dict has one entry for each pair of its node, with the value of the pair under its key. -/
def Represents : Node → Value → Prop
  | .scalar tag value, v => scalar tag value = .ok v
  | .sequence _ items, v => ∃ vs, v = .list vs ∧ RepresentsList items vs
  | .mapping _ pairs, v => ∃ d : Dict, v = .dict d ∧ d.length = pairs.length ∧ RepresentsPairs pairs d

def RepresentsList : List Node → List Value → Prop
  | [], vs => vs = []
  | n :: ns, vs => ∃ w ws, vs = w :: ws ∧ Represents n w ∧ RepresentsList ns ws

def RepresentsPairs : List (Node × Node) → Dict → Prop
  | [], _ => True
  | (k, n) :: ps, d => (∃ key w, k = .scalar strTag key ∧ d.lookup key = some w ∧ Represents n w) ∧
    RepresentsPairs ps d

end

variable {scalar}

theorem representsList_of {ns : List Node} {vs : List Value} (h : List.Forall₂ (Represents scalar) ns vs) :
    RepresentsList scalar ns vs := by
  induction h with
  | nil => rfl
  | cons hn _ ih => exact ⟨_, _, rfl, hn, ih⟩

theorem representsPairs_of {ps : List (Node × Node)} {d : Dict}
    (h : ∀ p ∈ ps, ∃ key w, p.1 = .scalar strTag key ∧ d.lookup key = some w ∧ Represents scalar p.2 w) :
    RepresentsPairs scalar ps d := by
  induction ps with
  | nil => trivial
  | cons p ps ih =>
    obtain ⟨k, n⟩ := p
    exact ⟨h (k, n) (by simp), ih fun q hq => h q (by simp [hq])⟩

/-- The constructed entries of a mapping with good keys: its keys, in order, each with the value of its pair. -/
theorem exists_items (hstr : ∀ value, scalar strTag value = .ok (.str value)) {pairs : List (Node × Node)}
    {keys : List String} {entries : List (Value × Value)}
    (hkeys : pairs.map (·.1) = keys.map (.scalar strTag ·))
    (h : List.Forall₂ (fun p e => Constructs scalar p.1 e.1 ∧ Constructs scalar p.2 e.2) pairs entries) :
    ∃ items : List (String × Value), entries = items.map (fun p => (.str p.1, p.2)) ∧ items.map (·.1) = keys ∧
      List.Forall₂ (fun p q => p.1 = .scalar strTag q.1 ∧ Constructs scalar p.2 q.2) pairs items := by
  induction h generalizing keys with
  | nil =>
    cases keys with
    | nil => exact ⟨[], rfl, rfl, .nil⟩
    | cons k ks => cases hkeys
  | @cons p e pairs entries hp _ ih =>
    cases keys with
    | nil => cases hkeys
    | cons k ks =>
      rw [List.map_cons, List.map_cons, List.cons.injEq] at hkeys
      obtain ⟨hkey, hrest⟩ := hkeys
      obtain ⟨items, rfl, hitems, hpairs⟩ := ih hrest
      obtain ⟨key, w⟩ := e
      obtain rfl : key = .str k := by
        have hkey' : Constructs scalar p.1 key := hp.1
        rw [hkey, Constructs, hstr] at hkey'
        exact (Except.ok.inj hkey').symm
      exact ⟨(k, w) :: items, rfl, by rw [List.map_cons, hitems], .cons ⟨hkey, hp.2⟩ hpairs⟩

/-- **With good keys at every depth nothing is overridden.** -/
theorem represents_of_constructs (hstr : ∀ value, scalar strTag value = .ok (.str value)) {node : Node}
    {v : Value} (hgood : ∀ tag pairs, .mapping tag pairs ∈ node.nodes → GoodKeys pairs)
    (h : Constructs scalar node v) : Represents scalar node v := by
  induction node generalizing v with
  | scalar tag value => exact h
  | sequence tag items ih =>
    obtain ⟨vs, rfl, hvs⟩ := h
    refine ⟨vs, rfl, representsList_of (forall₂_imp_of_mem ((constructsList_iff scalar).mp hvs) ?_)⟩
    intro n hn w hw
    refine ih n hn (fun tag' pairs hmem => hgood tag' pairs ?_) hw
    exact List.mem_cons_of_mem _ (Node.mem_nodesList.mpr ⟨n, hn, hmem⟩)
  | mapping tag pairs ih =>
    obtain ⟨entries, hentries, hdict⟩ := h
    obtain ⟨keys, hkeys, -, hnodup⟩ := hgood tag pairs (Node.mem_nodes_self _)
    obtain ⟨items, rfl, hitems, hpairs⟩ := exists_items hstr hkeys ((constructsPairs_iff scalar).mp hentries)
    have hitemsNodup : (items.map (·.1)).Nodup := by rwa [hitems]
    refine ⟨items, ?_, hpairs.length_eq.symm, representsPairs_of fun p hp => ?_⟩
    · rw [hdict items rfl, assigned_of_nodup hitemsNodup]
    · obtain ⟨q, hq, hkey, hvalue⟩ := exists_of_forall₂ hpairs p hp
      refine ⟨q.1, q.2, hkey, Value.lookup_of_mem hitemsNodup hq, ?_⟩
      refine (ih p hp).2 (fun tag' pairs' hmem => hgood tag' pairs' ?_) hvalue
      exact List.mem_cons_of_mem _ (Node.mem_nodesPairs.mpr ⟨p, hp, Or.inr hmem⟩)

end Represents

/-! ### The guard -/

section Guard

variable {lib : SafeLoader} {content : String} {root : Node} {e : Exc}

/-- An alias, an anchor or an explicit tag in the events, or a mapping with a bad key in the graph. -/
def Unsafe (lib : SafeLoader) (content : String) : Prop :=
  (∃ event ∈ (lib.parse content).1, Forbidden event) ∨
    ∃ root, lib.compose content = .ok (some root) ∧
      ∃ tag pairs, .mapping tag pairs ∈ root.nodes ∧ ¬ GoodKeys pairs

/-- The construction of the node raises nothing. -/
def Passes (lib : SafeLoader) : Node → Prop
  | .scalar tag value => ∃ v, lib.scalar tag value = .ok v
  | .sequence _ _ => True
  | .mapping _ pairs => GoodKeys pairs

/-- The file at `path` passes the check of its path and is a regular file with that text. -/
def HasText (fs : FileSystem) (base path : Path) (content : String) : Prop :=
  ∃ location metadata, checkedPath fs base path = .ok location ∧ fs.lstat location = .ok metadata ∧
    metadata.kind = .regular ∧ fs.readText location = .ok content

/-- No key is silently overridden: a document is constructed only with good keys at every depth, and then has
all of them; a file with anything else fails as unsafe or invalid YAML. -/
structure NoSilentOverride (lib : SafeLoader) (content : String) : Prop where
  constructed : ∀ root document, lib.compose content = .ok (some root) →
    lib.construct (checkKeys []) root = .ok document →
      (∀ tag pairs, .mapping tag pairs ∈ root.nodes → GoodKeys pairs) ∧ Represents lib.scalar root document
  rejected : Unsafe lib content → ∀ fs base path, HasText fs base path content →
    ∃ category ∈ ["unsafe_yaml", "invalid_yaml"],
      loadFile fs (readRule lib) base path = .error (.file (relativePath base path) category)

/-- A text without references but with a bad key, in which the first node whose construction raises anything is
a scalar, and that with an exception that the loader does not handle. -/
def EscapesFirst (lib : SafeLoader) (content : String) : Prop :=
  (∀ event ∈ (lib.parse content).1, ¬ Forbidden event) ∧
    ∃ root, lib.compose content = .ok (some root) ∧
      (∃ tag pairs, .mapping tag pairs ∈ root.nodes ∧ ¬ GoodKeys pairs) ∧
        ∃ before tag value after e, lib.order root = before ++ .scalar tag value :: after ∧
          (∀ node ∈ before, Passes lib node) ∧ lib.scalar tag value = .error e ∧
            e ≠ unsafeYamlError ∧ e ∉ invalidYaml

theorem visit_eq_ok {node : Node} : visit lib.scalar (checkKeys []) node = .ok () ↔ Passes lib node := by
  cases node with
  | scalar tag value =>
    rw [visit, Passes]
    cases lib.scalar tag value with
    | ok v => exact iff_of_true rfl ⟨v, rfl⟩
    | error e => exact iff_of_false (by rintro ⟨⟩) (by rintro ⟨v, ⟨⟩⟩)
  | sequence tag items => exact iff_of_true rfl trivial
  | mapping tag pairs => exact checkKeys_iff

/-- The text is composed once its events have passed. -/
theorem readDocument_eq (hevents : ∀ event ∈ (lib.parse content).1, ¬ Forbidden event)
    (hroot : lib.compose content = .ok (some root)) :
    readDocument lib content = lib.construct (checkKeys []) root := by
  have hpass : checkEvents (lib.parse content).1 = .ok () := by
    rcases checkEvents_eq (lib.parse content).1 with ⟨hok, -⟩ | ⟨-, event, hevent, hforbidden⟩
    · exact hok
    · exact absurd hforbidden (hevents event hevent)
  rw [readDocument, hpass, ok_bind, lib.compose_parses content _ hroot, hroot]
  rfl

/-- Every node passes, or the construction ends with the first exception. -/
theorem construct_first (lib : SafeLoader) (root : Node) : (∀ node ∈ root.nodes, Passes lib node) ∨
    ∃ before x after e, lib.order root = before ++ x :: after ∧ (∀ node ∈ before, Passes lib node) ∧
      visit lib.scalar (checkKeys []) x = .error e ∧ lib.construct (checkKeys []) root = .error e := by
  rcases exists_first_error (visit lib.scalar (checkKeys [])) (lib.order root) with
    hall | ⟨before, x, after, e, horder, hbefore, hx⟩
  · refine Or.inl fun node hnode => ?_
    obtain ⟨u, hu⟩ := hall node ((lib.mem_order root node).mpr hnode)
    exact visit_eq_ok.mp hu
  · refine Or.inr ⟨before, x, after, e, horder, fun node hnode => ?_, hx, ?_⟩
    · obtain ⟨u, hu⟩ := hbefore node hnode
      exact visit_eq_ok.mp hu
    · rw [lib.construct_error, horder]
      exact mapM_of_error hbefore hx

/-- A document is constructed only if every node of the graph is. -/
theorem passes_of_construct {document : Value} (h : lib.construct (checkKeys []) root = .ok document) :
    ∀ node ∈ root.nodes, Passes lib node := by
  rcases construct_first lib root with hall | ⟨before, x, after, e, -, -, -, herror⟩
  · exact hall
  · rw [h] at herror
    cases herror

/-- The first exception of a construction is the marker, or that of a scalar before every bad key. -/
theorem construct_bad {tag : String} {pairs : List (Node × Node)} (hnode : .mapping tag pairs ∈ root.nodes)
    (hbad : ¬ GoodKeys pairs) : ∃ e, lib.construct (checkKeys []) root = .error e ∧
      (e = unsafeYamlError ∨ ∃ before tag value after, lib.order root = before ++ .scalar tag value :: after ∧
        (∀ node ∈ before, Passes lib node) ∧ lib.scalar tag value = .error e) := by
  rcases construct_first lib root with hall | ⟨before, x, after, e, horder, hbefore, hx, herror⟩
  · exact absurd (hall _ hnode) hbad
  · refine ⟨e, herror, ?_⟩
    cases x with
    | scalar tag value => exact Or.inr ⟨before, tag, value, after, horder, hbefore, error_of_map_error hx⟩
    | sequence tag items => cases hx
    | mapping tag pairs => exact Or.inl (checkKeys_error hx)

/-- The error of a file whose text is no rule. -/
def loadError (relative : String) : ReadFailure → DetectionRuleLoadError
  | .category category => .file relative category
  | .exception e => .exception e

theorem loadFile_of_readRule {fs : FileSystem} {base path : Path} (h : HasText fs base path content)
    {failure : ReadFailure} (hread : readRule lib content = .error failure) :
    loadFile fs (readRule lib) base path = .error (loadError (relativePath base path) failure) := by
  obtain ⟨location, metadata, hchecked, hmetadata, hregular, htext⟩ := h
  rw [loadFile, hchecked, ok_bind, hmetadata]
  dsimp only
  rw [if_neg (not_not_intro hregular), htext]
  dsimp only
  rw [hread]
  cases failure <;> rfl

/-- A text that is refused with an exception of the loader is a file error. -/
theorem readRule_of_handled (h : readDocument lib content = .error e)
    (he : e = unsafeYamlError ∨ e ∈ invalidYaml) :
    ∃ category ∈ ["unsafe_yaml", "invalid_yaml"], readRule lib content = .error (.category category) := by
  rw [readRule, h]
  dsimp only
  by_cases hmarker : e = unsafeYamlError
  · exact ⟨"unsafe_yaml", by simp, if_pos hmarker⟩
  · rw [if_neg hmarker, if_pos (he.resolve_left hmarker)]
    exact ⟨"invalid_yaml", by simp, rfl⟩

theorem readRule_of_escape (h : readDocument lib content = .error e) (hmarker : e ≠ unsafeYamlError)
    (hinvalid : e ∉ invalidYaml) : readRule lib content = .error (.exception e) := by
  rw [readRule, h]
  dsimp only
  rw [if_neg hmarker, if_neg hinvalid]

/-- A file system in which every path is a regular file with that text. -/
def uniform (content : String) : FileSystem where
  lstat _ := .ok ⟨.regular, false⟩
  isDir _ := some false
  iterdir _ := .error .os
  resolve path := .ok path
  readText _ := .ok content

theorem hasText_uniform (content : String) : HasText (uniform content) ⟨true, []⟩ ⟨true, []⟩ content :=
  ⟨⟨true, []⟩, ⟨.regular, false⟩, rfl, rfl, rfl, rfl⟩

/-- The construction ends with the exception of a scalar before which every node passes. -/
theorem readDocument_of_scalar (hevents : ∀ event ∈ (lib.parse content).1, ¬ Forbidden event)
    (hroot : lib.compose content = .ok (some root)) {before after : List Node} {tag value : String}
    (horder : lib.order root = before ++ .scalar tag value :: after)
    (hbefore : ∀ node ∈ before, Passes lib node)
    (hvalue : lib.scalar tag value = .error e) : readDocument lib content = .error e := by
  rw [readDocument_eq hevents hroot, lib.construct_error, horder]
  refine mapM_of_error (fun node hnode => ⟨(), visit_eq_ok.mpr (hbefore node hnode)⟩) ?_
  rw [visit, hvalue]
  rfl

/-- An exception that escapes is no file error. -/
theorem not_noSilentOverride (h : EscapesFirst lib content) : ¬ NoSilentOverride lib content := by
  intro hguard
  obtain ⟨hevents, root, hroot, hbad, before, tag, value, after, e, horder, hbefore, hvalue, hmarker,
    hinvalid⟩ := h
  have hread := readRule_of_escape (readDocument_of_scalar hevents hroot horder hbefore hvalue) hmarker hinvalid
  obtain ⟨category, -, hload⟩ := hguard.rejected (Or.inr ⟨root, hroot, hbad⟩) _ _ _ (hasText_uniform content)
  rw [loadFile_of_readRule (hasText_uniform content) hread] at hload
  cases hload

/-- **No key is silently overridden, and a file with a bad key or a reference fails as unsafe or invalid YAML,
unless an exception that is not handled comes first.** -/
theorem noSilentOverride_iff (lib : SafeLoader) (content : String) :
    NoSilentOverride lib content ↔ ¬ EscapesFirst lib content := by
  refine ⟨fun hguard hescape => not_noSilentOverride hescape hguard, fun hnot => ⟨?_, ?_⟩⟩
  · intro root document hroot hdocument
    have hgood : ∀ tag pairs, .mapping tag pairs ∈ root.nodes → GoodKeys pairs :=
      fun tag pairs hnode => passes_of_construct hdocument _ hnode
    exact ⟨hgood, represents_of_constructs lib.scalar_str hgood (lib.construct_ok _ root document hdocument)⟩
  · intro hunsafe fs base path htext
    have hhandled : ∃ e, readDocument lib content = .error e ∧ (e = unsafeYamlError ∨ e ∈ invalidYaml) := by
      rcases checkEvents_eq (lib.parse content).1 with ⟨-, hevents⟩ | ⟨herror, -⟩
      · rcases hunsafe with ⟨event, hevent, hforbidden⟩ | ⟨root, hroot, tag, pairs, hnode, hbad⟩
        · exact absurd hforbidden (hevents event hevent)
        · obtain ⟨e, hconstruct, hfirst⟩ := construct_bad hnode hbad
          refine ⟨e, (readDocument_eq hevents hroot).trans hconstruct, ?_⟩
          rcases hfirst with hmarker | ⟨before, tag', value, after, horder, hbefore, hvalue⟩
          · exact Or.inl hmarker
          · by_contra hescape
            rw [not_or] at hescape
            exact hnot ⟨hevents, root, hroot, ⟨tag, pairs, hnode, hbad⟩, before, tag', value, after, e, horder,
              hbefore, hvalue, hescape⟩
      · exact ⟨_, by rw [readDocument, herror]; rfl, Or.inl rfl⟩
    obtain ⟨e, hread, he⟩ := hhandled
    obtain ⟨category, hcategory, hrule⟩ := readRule_of_handled hread he
    exact ⟨category, hcategory, loadFile_of_readRule htext hrule⟩

end Guard

/-! ### A file that fails otherwise -/

/-- A float in base 60 whose highest digit has a weight beyond the floats. -/
def longFloat : String := "1" ++ String.join (List.replicate 174 ":0") ++ ".0"

/-- A text with that version and, below it, a condition with a key twice. -/
def longFloatText : String := "version: " ++ longFloat ++ "\ncondition: {field: event_id, field: provider}\n"

namespace LongFloat

def floatTag : String := "tag:yaml.org,2002:float"

def mapTag : String := "tag:yaml.org,2002:map"

def plain (value : String) : Node := .scalar strTag value

def condition : Node := .mapping mapTag [(plain "field", plain "event_id"), (plain "field", plain "provider")]

def root (float : String) : Node :=
  .mapping mapTag [(plain "version", .scalar floatTag float), (plain "condition", condition)]

/-- Start of the stream, of the document and of the mapping; its scalars and the inner mapping; the ends. -/
def events : List Event :=
  [.other, .other, .collectionStart none none, .scalar none none, .scalar none none, .scalar none none,
    .collectionStart none none, .scalar none none, .scalar none none, .scalar none none, .scalar none none,
    .other, .other, .other, .other]

/-- The constructor of a float multiplies its digits by the powers of 60. -/
def scalar (float tag value : String) : Except Exc Value :=
  if tag = strTag then .ok (.str value)
  else if tag = floatTag ∧ value = float then .error .overflowError
  else .error yamlError

def parse (text content : String) : List Event × Option Exc :=
  if content = text then (events, none) else ([], some yamlError)

def compose (float text content : String) : Except Exc (Option Node) :=
  if content = text then .ok (some (root float)) else .error yamlError

theorem compose_parses (float text content : String) (r : Option Node)
    (h : compose float text content = .ok r) :
    (parse text content).2 = none := by
  rw [compose] at h
  rw [parse]
  split_ifs at h ⊢
  rfl

/-- The library on that text. -/
def loader (float text : String) : SafeLoader :=
  .preorder (scalar float) (parse text) (compose float text) (compose_parses float text) fun _ => if_pos rfl

variable (float text : String)

theorem parse_eq : (loader float text).parse text = (events, none) := by
  change parse text text = _
  rw [parse, if_pos rfl]

theorem compose_eq : (loader float text).compose text = .ok (some (root float)) := by
  change compose float text text = _
  rw [compose, if_pos rfl]

theorem scalar_eq : (loader float text).scalar floatTag float = .error .overflowError := by
  change scalar float floatTag float = _
  rw [scalar, if_neg (by decide), if_pos ⟨rfl, rfl⟩]

theorem not_forbidden : ∀ event ∈ ((loader float text).parse text).1, ¬ Forbidden event := by
  rw [parse_eq]
  decide

theorem mem_condition : condition ∈ (root float).nodes := by
  simp [root, condition, plain, Node.nodes, Node.nodesPairs]

theorem not_goodKeys : ¬ GoodKeys [(plain "field", plain "event_id"), (plain "field", plain "provider")] := by
  rw [← checkKeys_iff]
  simp [plain, checkKeys]

theorem order_eq : (loader float text).order (root float) = [root float, plain "version"] ++
    .scalar floatTag float :: Node.nodesPairs [(plain "condition", condition)] := rfl

/-- The keys of the root raise nothing, nor does the key `version`. -/
theorem passes_before : ∀ node ∈ [root float, plain "version"], Passes (loader float text) node := by
  have hroot : Passes (loader float text) (root float) := by
    refine checkKeys_iff.mp ?_
    simp [plain, checkKeys]
  exact List.forall_mem_cons.mpr ⟨hroot, List.forall_mem_singleton.mpr ⟨_, (loader float text).scalar_str _⟩⟩

/-- The float is reached before the key that is there twice. -/
theorem escapesFirst : EscapesFirst (loader float text) text :=
  ⟨not_forbidden float text, root float, compose_eq float text, ⟨mapTag, _, mem_condition float, not_goodKeys⟩,
    _, _, _, _, _, order_eq float text, passes_before float text, scalar_eq float text, by decide, by decide⟩

end LongFloat

open LongFloat in
/-- The condition has a key twice, and an `OverflowError` gets out instead of a file error. -/
theorem readRule_longFloat : Unsafe (loader longFloat longFloatText) longFloatText ∧
    readRule (loader longFloat longFloatText) longFloatText = .error (.exception .overflowError) ∧
      ¬ NoSilentOverride (loader longFloat longFloatText) longFloatText := by
  have hdocument : readDocument (loader longFloat longFloatText) longFloatText = .error .overflowError :=
    readDocument_of_scalar (not_forbidden _ _) (compose_eq _ _) (order_eq _ _) (passes_before _ _)
      (scalar_eq _ _)
  exact ⟨Or.inr ⟨root longFloat, compose_eq _ _, mapTag, _, mem_condition _, not_goodKeys⟩,
    readRule_of_escape hdocument (by decide) (by decide), not_noSilentOverride (escapesFirst _ _)⟩

end SocLab
