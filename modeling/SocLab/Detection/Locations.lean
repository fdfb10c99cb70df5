import SocLab.Detection.Explanation
import SocLab.Logic.Address

/-!
# SocLab.Detection.Locations — the locations of a trace are addresses

`validate_trace` compares a node with its children only; here is what that says of the whole trace.

* `TraceNode.path n p` are the kinds and the indices on the way to the address `p`; `LocationStep.text` is what
  one of them adds to a location.
* `located_of_valid`: the location of the node at an address, written and read back.
* `locations_are_addresses`: in a match the location of a node is its address, and no two nodes share one.
-/

namespace SocLab

open Py Logic

namespace TraceNode

def kind (n : TraceNode) : TraceKind := n.evidence.kind

/-- `self.children`. -/
def childList (n : TraceNode) : List TraceNode := n.children.get []

/-- The step to the child of that index. -/
def step (n : TraceNode) (index : Nat) : LocationStep :=
  if n.kind = .not_ then .not_ else .child n.kind index

/-- The steps to the node at an address: the kind of every node on the way, and the index of the child. -/
def path : TraceNode → List Nat → List LocationStep
  | _, [] => []
  | n, i :: p =>
    match n.childList[i]? with
    | some c => n.step i :: path c p
    | none => []

end TraceNode

namespace LocationStep

/-- `.all[i]`, `.any[i]` or `.not`. -/
def text : LocationStep → String
  | .child kind index => "." ++ StrEnum.value kind ++ "[" ++ toString index ++ "]"
  | .not_ => ".not"

/-- The index that a step stands for; the child of `not` is its first. -/
def index : LocationStep → Nat
  | .child _ index => index
  | .not_ => 0

end LocationStep

section Trace

variable {n c : TraceNode} {i : Nat}

/-- A node at a location: how far it is from `n`, written and read back. -/
structure LocatedFrom (n c : TraceNode) (steps : List LocationStep) (p : List Nat) : Prop where
  written : c.location = n.location ++ String.join (steps.map LocationStep.text)
  read : ∀ pre, readLocation n.location = some pre → readLocation c.location = some (pre ++ steps)
  address : steps.map LocationStep.index = p

theorem LocatedFrom.refl (n : TraceNode) : LocatedFrom n n [] [] where
  written := by simp
  read pre h := by rw [h, List.append_nil]
  address := rfl

theorem LocatedFrom.cons {b : TraceNode} {s : LocationStep} {steps : List LocationStep} {p : List Nat}
    (hc : LocatedFrom n c [s] [i]) (hb : LocatedFrom c b steps p) : LocatedFrom n b (s :: steps) (i :: p) where
  written := by
    rw [hb.written, hc.written]
    simp [String.append_assoc]
  read pre h := by
    rw [hb.read _ (hc.read pre h), List.append_assoc, List.singleton_append]
  address := by
    obtain ⟨hi, -⟩ := List.cons.inj hc.address
    rw [List.map_cons, hb.address, hi]

/-- **One step**: the validator ties the location of a child to that of its parent. -/
theorem located_child (h : n.Valid) (hc : n.childList[i]? = some c) : LocatedFrom n c [n.step i] [i] := by
  obtain ⟨e, cs⟩ := n
  have hshape := validateTrace_eq_ok.mp (TraceNode.valid_mk.mp h).1
  have hmem : (c.location, i) ∈ ((cs.get []).map TraceNode.location).zipIdx := by
    rw [List.mem_zipIdx_iff_getElem?, List.getElem?_map]
    exact congrArg (Option.map TraceNode.location) hc
  -- `all` and `any` are alike; `not` names its child without an index
  have hlist (hkind : e.kind = .all ∨ e.kind = .any) :
      LocatedFrom (.mk e cs) c [(TraceNode.mk e cs).step i] [i] := by
    have hlocation : c.location = childLocation e.location e.kind i := (hshape.list hkind).2 _ hmem
    have hstep : (TraceNode.mk e cs).step i = .child e.kind i := by
      refine if_neg fun hnot => ?_
      have hnot : e.kind = .not_ := hnot
      rw [hnot] at hkind
      exact absurd hkind (by decide)
    rw [hstep]
    refine ⟨?_, fun pre hpre => ?_, rfl⟩
    · rw [hlocation]
      simp [childLocation, LocationStep.text, TraceNode.location, TraceNode.evidence, String.append_assoc]
    · rw [hlocation]
      exact readLocation_child hkind i hpre
  cases hkind : e.kind with
  | leaf =>
    have hnil := (hshape.leaf hkind).1
    rw [hnil] at hmem
    cases hmem
  | all => exact hlist (Or.inl hkind)
  | any => exact hlist (Or.inr hkind)
  | not_ =>
    rw [hshape.not_ hkind] at hmem
    obtain ⟨hlocation, rfl⟩ : c.location = notLocation e.location ∧ i = 0 := by simpa using hmem
    have hstep : (TraceNode.mk e cs).step 0 = .not_ := if_pos hkind
    rw [hstep]
    refine ⟨?_, fun pre hpre => ?_, rfl⟩
    · rw [hlocation]
      simp [notLocation, LocationStep.text, TraceNode.location, TraceNode.evidence]
    · rw [hlocation]
      exact readLocation_not hpre

theorem valid_of_mem_childList (h : n.Valid) (hc : c ∈ n.childList) : c.Valid := by
  obtain ⟨e, cs⟩ := n
  exact (TraceNode.valid_mk.mp h).2 c hc

/-- **The whole trace**, by induction on the address. -/
theorem located_of_valid {p : List Nat} (h : n.Valid) (hc : descend TraceNode.childList n p = some c) :
    LocatedFrom n c (n.path p) p := by
  induction p generalizing n with
  | nil =>
    cases hc
    exact .refl _
  | cons i p ih =>
    obtain ⟨d, hd, hc⟩ := descend_cons_eq_some.mp hc
    have hpath : n.path (i :: p) = n.step i :: d.path p := by rw [TraceNode.path, hd]
    rw [hpath]
    exact (located_child h hd).cons (ih (valid_of_mem_childList h (List.mem_of_getElem? hd)) hc)

/-- The location of a node tells its address when that of the root can be read. -/
theorem address_of_location {p q : List Nat} {b : TraceNode} {pre : List LocationStep} (h : n.Valid)
    (hroot : readLocation n.location = some pre) (hb : descend TraceNode.childList n p = some b)
    (hc : descend TraceNode.childList n q = some c) (heq : b.location = c.location) : p = q := by
  have hlb := located_of_valid h hb
  have hlc := located_of_valid h hc
  have hread := hlb.read pre hroot
  rw [heq, hlc.read pre hroot, Option.some.injEq, List.append_cancel_left_eq] at hread
  rw [← hlb.address, ← hlc.address, hread]

/-- The nodes of a trace are the nodes at its addresses. -/
theorem mem_nodes_iff {b : TraceNode} : b ∈ n.nodes ↔ ∃ p, descend TraceNode.childList n p = some b := by
  induction n with
  | mk e cs ih =>
    have hnodes : b ∈ (TraceNode.mk e cs).nodes ↔ b = .mk e cs ∨ ∃ c ∈ cs.get [], b ∈ c.nodes := by
      cases cs with
      | unset => simp [TraceNode.nodes]
      | set cs => simp [TraceNode.nodes, TraceNode.mem_nodesAll]
    rw [hnodes]
    constructor
    · rintro (rfl | ⟨c, hc, hb⟩)
      · exact ⟨[], rfl⟩
      · obtain ⟨p, hp⟩ := (ih c hc).mp hb
        obtain ⟨i, hi⟩ := List.mem_iff_getElem?.mp hc
        exact ⟨i :: p, descend_cons_eq_some.mpr ⟨c, hi, hp⟩⟩
    · rintro ⟨p, hp⟩
      cases p with
      | nil =>
        cases hp
        exact Or.inl rfl
      | cons i p =>
        obtain ⟨c, hc, hb⟩ := descend_cons_eq_some.mp hp
        have hmem : c ∈ cs.get [] := List.mem_of_getElem? hc
        exact Or.inr ⟨c, hmem, (ih c hmem).mpr ⟨p, hb⟩⟩

end Trace

/-- **The locations of a match are addresses**: each is `$` and the steps to its node, and two nodes at one
location are one node. -/
theorem locations_are_addresses (m : DetectionMatch) :
    (∀ p n, descend TraceNode.childList m.trace.node p = some n →
        n.location = "$" ++ String.join ((m.trace.node.path p).map LocationStep.text)) ∧
      (∀ p q n n', descend TraceNode.childList m.trace.node p = some n →
        descend TraceNode.childList m.trace.node q = some n' → n.location = n'.location → p = q) ∧
      ∀ n, n ∈ m.trace.node.nodes ↔ ∃ p, descend TraceNode.childList m.trace.node p = some n := by
  have hroot : m.trace.node.location = "$" := (validateMatch_eq_ok.mp m.valid).2.2.2.2
  have hread : readLocation m.trace.node.location = some [] := by
    rw [hroot]
    decide
  refine ⟨fun p n hn => ?_, fun p q n n' hn hn' => ?_, fun n => mem_nodes_iff⟩
  · rw [(located_of_valid m.trace.valid hn).written, hroot]
  · exact address_of_location m.trace.valid hread hn hn'

end SocLab
