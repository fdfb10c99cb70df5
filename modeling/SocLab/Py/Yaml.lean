import SocLab.Py.Value
import SocLab.Logic.Except

/-!
# SocLab.Py.Yaml — what PyYAML gives: events, nodes, and the values built from them

PyYAML is no part of the repository.  Here are its data and what a caller relies on.

* `Event` and `Node`; without aliases a composed graph is a tree.
* `Constructs scalar node v`: `v` is built from the node as `construct_mapping` and the constructors of
  sequences and scalars do it, where a later item of a mapping replaces an earlier one with its key.
* `SafeLoader`: the calls, and what is documented of them.
-/

namespace Py

namespace Yaml

/-! ### Events and nodes -/

/-- `AliasEvent`, `ScalarEvent`, `CollectionStartEvent`, and the events that are none of these. -/
inductive Event where
  | alias (anchor : String)
  | scalar (anchor tag : Option String)
  | collectionStart (anchor tag : Option String)
  | other

/-- A composed node, with its resolved tag. -/
inductive Node where
  | scalar (tag value : String)
  | sequence (tag : String) (value : List Node)
  | mapping (tag : String) (value : List (Node × Node))

/-- The tag of a plain text. -/
def strTag : String := "tag:yaml.org,2002:str"

namespace Node

mutual

/-- The nodes of the graph, keys of mappings included. -/
def nodes : Node → List Node
  | scalar tag value => [scalar tag value]
  | sequence tag items => sequence tag items :: nodesList items
  | mapping tag pairs => mapping tag pairs :: nodesPairs pairs

/-- The nodes of the elements. -/
def nodesList : List Node → List Node
  | [] => []
  | n :: ns => nodes n ++ nodesList ns

/-- The nodes of the keys and values. -/
def nodesPairs : List (Node × Node) → List Node
  | [] => []
  | (k, n) :: ps => nodes k ++ (nodes n ++ nodesPairs ps)

end

/-- Induction over nodes: a collection over all of its members at once. -/
@[elab_as_elim, induction_eliminator]
theorem induction {P : Node → Prop} (scalar : ∀ tag value, P (scalar tag value))
    (sequence : ∀ tag items, (∀ n ∈ items, P n) → P (sequence tag items))
    (mapping : ∀ tag pairs, (∀ p ∈ pairs, P p.1 ∧ P p.2) → P (mapping tag pairs)) : ∀ n, P n :=
  @Node.rec P (fun ns => ∀ n ∈ ns, P n) (fun ps => ∀ p ∈ ps, P p.1 ∧ P p.2) (fun p => P p.1 ∧ P p.2) scalar
    sequence mapping (fun _ h => absurd h (by simp))
    (fun n ns hn hns m hm => by
      rcases List.mem_cons.mp hm with rfl | hm
      · exact hn
      · exact hns m hm)
    (fun _ h => absurd h (by simp))
    (fun p ps hp hps q hq => by
      rcases List.mem_cons.mp hq with rfl | hq
      · exact hp
      · exact hps q hq)
    fun _ _ hk hn => ⟨hk, hn⟩

theorem mem_nodesList {n : Node} {ns : List Node} : n ∈ nodesList ns ↔ ∃ m ∈ ns, n ∈ m.nodes := by
  induction ns with
  | nil => simp [nodesList]
  | cons m ns ih => simp [nodesList, ih]

theorem mem_nodesPairs {n : Node} {ps : List (Node × Node)} :
    n ∈ nodesPairs ps ↔ ∃ p ∈ ps, n ∈ p.1.nodes ∨ n ∈ p.2.nodes := by
  induction ps with
  | nil => simp [nodesPairs]
  | cons p ps ih =>
    obtain ⟨k, m⟩ := p
    simp [nodesPairs, ih, or_assoc]

theorem mem_nodes_self (n : Node) : n ∈ n.nodes := by
  cases n <;> simp [nodes]

end Node

/-! ### Values -/

/-- The items of a dict that is assigned key by key. -/
def assigned (items : List (String × Value)) : Dict := items.foldl (fun d p => d.set p.1 p.2) []

theorem foldl_set_of_nodup {items : List (String × Value)} {d : Dict}
    (h : ((d ++ items).map (·.1)).Nodup) : items.foldl (fun d p => d.set p.1 p.2) d = d ++ items := by
  induction items generalizing d with
  | nil => simp
  | cons p items ih =>
    have hassoc : d ++ p :: items = d ++ [p] ++ items := by simp
    have hnew : p.1 ∉ d.map (·.1) := by
      intro hmem
      rw [List.map_append, List.map_cons] at h
      exact (List.nodup_append.mp h).2.2 p.1 hmem p.1 (by simp) rfl
    rw [List.foldl_cons, Dict.set_of_notMem hnew, hassoc]
    exact ih (by rwa [← hassoc])

/-- Distinct keys are each assigned once. -/
theorem assigned_of_nodup {items : List (String × Value)} (h : (items.map (·.1)).Nodup) :
    assigned items = items :=
  foldl_set_of_nodup h

section Constructs

variable (scalar : String → String → Except Exc Value)

mutual

/-- The value is built from the node; of a dict it says what it is where all of its keys are texts. -/
def Constructs : Node → Value → Prop
  | .scalar tag value, v => scalar tag value = .ok v
  | .sequence _ items, v => ∃ vs, v = .list vs ∧ ConstructsList items vs
  | .mapping _ pairs, v => ∃ entries, ConstructsPairs pairs entries ∧
    ∀ items : List (String × Value), entries = items.map (fun p => (.str p.1, p.2)) → v = .dict (assigned items)

/-- The elements, one by one. -/
def ConstructsList : List Node → List Value → Prop
  | [], vs => vs = []
  | n :: ns, vs => ∃ w ws, vs = w :: ws ∧ Constructs n w ∧ ConstructsList ns ws

/-- The keys and values, pair by pair. -/
def ConstructsPairs : List (Node × Node) → List (Value × Value) → Prop
  | [], entries => entries = []
  | (k, n) :: ps, entries => ∃ key w rest, entries = (key, w) :: rest ∧ Constructs k key ∧ Constructs n w ∧
    ConstructsPairs ps rest

end

theorem constructsList_iff {ns : List Node} {vs : List Value} :
    ConstructsList scalar ns vs ↔ List.Forall₂ (Constructs scalar) ns vs := by
  induction ns generalizing vs with
  | nil => simp [ConstructsList]
  | cons n ns ih =>
    rw [ConstructsList, List.forall₂_cons_left_iff]
    simp only [ih]
    constructor
    · rintro ⟨w, ws, rfl, hw, hws⟩
      exact ⟨w, ws, hw, hws, rfl⟩
    · rintro ⟨w, ws, hw, hws, rfl⟩
      exact ⟨w, ws, rfl, hw, hws⟩

theorem constructsPairs_iff {ps : List (Node × Node)} {entries : List (Value × Value)} :
    ConstructsPairs scalar ps entries ↔
      List.Forall₂ (fun p e => Constructs scalar p.1 e.1 ∧ Constructs scalar p.2 e.2) ps entries := by
  induction ps generalizing entries with
  | nil => simp [ConstructsPairs]
  | cons p ps ih =>
    obtain ⟨k, n⟩ := p
    rw [ConstructsPairs, List.forall₂_cons_left_iff]
    simp only [ih]
    constructor
    · rintro ⟨key, w, rest, rfl, hkey, hw, hrest⟩
      exact ⟨(key, w), rest, ⟨hkey, hw⟩, hrest, rfl⟩
    · rintro ⟨⟨key, w⟩, rest, ⟨hkey, hw⟩, hrest, rfl⟩
      exact ⟨key, w, rest, rfl, hkey, hw, hrest⟩

end Constructs

/-! ### The safe loader -/

/-- `YAMLError`. -/
def yamlError : Exc := .other "YAMLError"

/-- What the construction of one node may raise: the constructor of its scalar, or the check that a subclass
makes of a mapping before it calls the inherited `construct_mapping`. -/
def visit (scalar : String → String → Except Exc Value) (check : List (Node × Node) → Except Exc Unit) :
    Node → Except Exc Unit
  | .scalar tag value => (scalar tag value).map fun _ => ()
  | .sequence _ _ => .ok ()
  | .mapping _ pairs => check pairs

/-- The calls of the library, and what is documented of them. -/
structure SafeLoader where
  /-- `parse(text)`: the events, and the exception that ends them. -/
  parse : String → List Event × Option Exc
  /-- `get_single_node()`; none where the text has no document. -/
  compose : String → Except Exc (Option Node)
  /-- The constructor of a scalar with that tag. -/
  scalar : String → String → Except Exc Value
  /-- The nodes below a root in the order in which they are constructed. -/
  order : Node → List Node
  /-- `construct_document(root)` of a subclass with that check in its `construct_mapping`. -/
  construct : (List (Node × Node) → Except Exc Unit) → Node → Except Exc Value
  /-- A text composes only if it parses. -/
  compose_parses : ∀ text root, compose text = .ok root → (parse text).2 = none
  /-- Every node is constructed, a mapping by `construct_mapping`. -/
  mem_order : ∀ root node, node ∈ order root ↔ node ∈ root.nodes
  scalar_str : ∀ value, scalar strTag value = .ok (.str value)
  /-- The construction ends with the first exception that a node raises. -/
  construct_error : ∀ check root e, construct check root = .error e ↔
    (order root).mapM (visit scalar check) = .error e
  construct_ok : ∀ check root v, construct check root = .ok v → Constructs scalar root v

/-! ### A loader that has these laws -/

section Preorder

variable (scalar : String → String → Except Exc Value)

mutual

/-- The value of a node whose scalars are constructed; keys that are no texts are left out. -/
def build : Node → Value
  | .scalar tag value =>
    match scalar tag value with
    | .ok v => v
    | .error _ => .none
  | .sequence _ items => .list (buildList items)
  | .mapping _ pairs => .dict (assigned (buildPairs pairs))

/-- The elements, built. -/
def buildList : List Node → List Value
  | [] => []
  | n :: ns => build n :: buildList ns

/-- The pairs whose keys are texts, built. -/
def buildPairs : List (Node × Node) → List (String × Value)
  | [] => []
  | (k, n) :: ps =>
    match build k with
    | .str key => (key, build n) :: buildPairs ps
    | _ => buildPairs ps

end

theorem buildList_eq (ns : List Node) : buildList scalar ns = ns.map (build scalar) := by
  induction ns with
  | nil => rfl
  | cons n ns ih => rw [buildList, ih]; rfl

/-- Where all keys are texts, none is left out. -/
theorem buildPairs_eq {ps : List (Node × Node)} {items : List (String × Value)}
    (h : ps.map (fun p => (build scalar p.1, build scalar p.2)) = items.map fun p => (.str p.1, p.2)) :
    buildPairs scalar ps = items := by
  induction ps generalizing items with
  | nil =>
    cases items with
    | nil => rfl
    | cons q items => cases h
  | cons p ps ih =>
    obtain ⟨k, n⟩ := p
    cases items with
    | nil => cases h
    | cons q items =>
      rw [List.map_cons, List.map_cons, List.cons.injEq, Prod.mk.injEq] at h
      obtain ⟨⟨hkey, hvalue⟩, hrest⟩ := h
      rw [buildPairs, hkey, ih hrest, hvalue]

theorem constructs_build {node : Node}
    (h : ∀ tag value, .scalar tag value ∈ node.nodes → ∃ v, scalar tag value = .ok v) :
    Constructs scalar node (build scalar node) := by
  induction node with
  | scalar tag value =>
    obtain ⟨v, hv⟩ := h tag value (Node.mem_nodes_self _)
    rw [Constructs, build, hv]
  | sequence tag items ih =>
    refine ⟨_, rfl, (constructsList_iff scalar).mpr ?_⟩
    rw [buildList_eq, List.forall₂_map_right_iff, List.forall₂_same]
    intro n hn
    exact ih n hn fun tag' value hmem =>
      h tag' value (List.mem_cons_of_mem _ (Node.mem_nodesList.mpr ⟨n, hn, hmem⟩))
  | mapping tag pairs ih =>
    refine ⟨pairs.map fun p => (build scalar p.1, build scalar p.2), (constructsPairs_iff scalar).mpr ?_,
      fun items hitems => by rw [build, buildPairs_eq scalar hitems]⟩
    rw [List.forall₂_map_right_iff, List.forall₂_same]
    intro p hp
    have hbelow {n : Node} (hn : n ∈ p.1.nodes ∨ n ∈ p.2.nodes) : n ∈ (Node.mapping tag pairs).nodes :=
      List.mem_cons_of_mem _ (Node.mem_nodesPairs.mpr ⟨p, hp, hn⟩)
    exact ⟨(ih p hp).1 fun tag' value hmem => h tag' value (hbelow (Or.inl hmem)),
      (ih p hp).2 fun tag' value hmem => h tag' value (hbelow (Or.inr hmem))⟩

/-- The loader that constructs every node before those below it. -/
def SafeLoader.preorder (parse : String → List Event × Option Exc) (compose : String → Except Exc (Option Node))
    (hparses : ∀ text root, compose text = .ok root → (parse text).2 = none)
    (hstr : ∀ value, scalar strTag value = .ok (.str value)) : SafeLoader where
  parse := parse
  compose := compose
  scalar := scalar
  order := Node.nodes
  construct check root := (root.nodes.mapM (visit scalar check)).map fun _ => build scalar root
  compose_parses := hparses
  mem_order _ _ := Iff.rfl
  scalar_str := hstr
  construct_error check root e := by
    cases root.nodes.mapM (visit scalar check) with
    | ok us => exact iff_of_false (by rintro ⟨⟩) (by rintro ⟨⟩)
    | error e' => exact ⟨fun h => by cases h; rfl, fun h => by cases h; rfl⟩
  construct_ok check root v h := by
    obtain ⟨us, hus, rfl⟩ := Logic.exists_of_map_ok h
    refine constructs_build scalar fun tag value hmem => ?_
    obtain ⟨u, -, hu⟩ := Logic.exists_of_forall₂ (Logic.mapM_eq_ok.mp hus) _ hmem
    obtain ⟨w, hw, -⟩ := Logic.exists_of_map_ok hu
    exact ⟨w, hw⟩

end Preorder

end Yaml

end Py
