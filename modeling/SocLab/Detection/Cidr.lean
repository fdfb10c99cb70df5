import SocLab.Detection.Success
import SocLab.Logic.Block

/-!
# SocLab.Detection.Cidr — `ip_in_cidr` as membership in blocks

A network that `ip_network` reads is an aligned block of the addresses of its family, so that membership is a
comparison with two bounds, and two networks lie within one another or apart.
-/

namespace Py

open Logic

/-- The number of an address in its family; a scope does not count. -/
def IPAddress.number : IPAddress → Nat
  | v4 n => n
  | v6 n _ => n

namespace IPNetwork

/-- The network has the addresses of a family whose numbers make up a block. -/
structure Spans (net : IPNetwork) (version base hostBits : Nat) : Prop where
  aligned : 2 ^ hostBits ∣ base
  iff_mem : ∀ a : IPAddress, a.inNetwork net = true ↔ a.version = version ∧ a.number ∈ block base hostBits

variable {net net' : IPNetwork} {version version' base base' hostBits hostBits' len : Nat}

theorem netmask_eq (bits len : Nat) : netmask bits len = 2 ^ bits - 2 ^ (bits - len) := rfl

/-- The number of bits of an address. -/
def width (a : IPAddress) : Nat := if a.version = 4 then 32 else 128

/-- A number without host bits is aligned, and its mask asks for its block. -/
theorem and_netmask {w n : Nat} (hn : n < 2 ^ w) (hmask : n &&& netmask w len = n) :
    2 ^ (w - len) ∣ n ∧ ∀ x < 2 ^ w, x &&& netmask w len = n ↔ x ∈ block n (w - len) := by
  have hhost : w - len ≤ w := Nat.sub_le ..
  have haligned : 2 ^ (w - len) ∣ n := by
    rw [netmask_eq, and_leading hn hhost] at hmask
    exact ⟨n / 2 ^ (w - len), by rw [mul_comm, hmask]⟩
  exact ⟨haligned, fun x hx => and_leading_eq hx hhost haligned⟩

/-- An address without host bits and the mask of its length span a block. -/
theorem spans_ofAddress {a : IPAddress} (h : ofAddress a (netmask (width a) len) = some net) :
    ∃ version base hostBits, net.Spans version base hostBits := by
  cases a with
  | v4 n =>
    simp only [ofAddress] at h
    split_ifs at h with hmask
    cases h
    obtain ⟨haligned, hmem⟩ := and_netmask n.isLt hmask
    refine ⟨4, n.val, 32 - len, haligned, fun b => ?_⟩
    cases b with
    | v4 m => exact beq_iff_eq.trans ((hmem m.val m.isLt).trans (and_iff_right rfl).symm)
    | v6 m scope => exact iff_of_false (by simp [IPAddress.inNetwork]) fun hb => by cases hb.1
  | v6 n scope =>
    simp only [ofAddress] at h
    split_ifs at h with hmask
    cases h
    obtain ⟨haligned, hmem⟩ := and_netmask n.isLt hmask
    refine ⟨6, n.val, 128 - len, haligned, fun b => ?_⟩
    cases b with
    | v4 m => exact iff_of_false (by simp [IPAddress.inNetwork]) fun hb => by cases hb.1
    | v6 m scope => exact beq_iff_eq.trans ((hmem m.val m.isLt).trans (and_iff_right rfl).symm)

/-- A network is read as an address with the mask of a length. -/
theorem exists_ofAddress {l : List Char} (h : read l = some net) :
    ∃ a len, ofAddress a (netmask (width a) len) = some net := by
  unfold read at h
  dsimp only at h
  split at h
  · next addr hsplit =>
    obtain ⟨a, -, h⟩ := Option.bind_eq_some_iff.mp (show (IPAddress.read addr).bind _ = some net from h)
    exact ⟨a, width a, h⟩
  · next addr mask hsplit =>
    obtain ⟨a, -, h⟩ := Option.bind_eq_some_iff.mp (show (IPAddress.read addr).bind _ = some net from h)
    dsimp only at h
    split_ifs at h with hversion
    · obtain ⟨len, -, h⟩ := Option.bind_eq_some_iff.mp h
      exact ⟨a, len, by rw [width, if_pos hversion]; exact h⟩
    · obtain ⟨len, -, h⟩ := Option.bind_eq_some_iff.mp h
      exact ⟨a, len, by rw [width, if_neg hversion]; exact h⟩
  · cases h

/-- **A network that is read spans an aligned block.** -/
theorem exists_spans {text : String} (h : ipNetwork text = .ok net) :
    ∃ version base hostBits, net.Spans version base hostBits := by
  unfold ipNetwork at h
  split at h
  · next n hread =>
    cases h
    obtain ⟨a, len, hnet⟩ := exists_ofAddress hread
    exact spans_ofAddress hnet
  · cases h

/-- **Two networks lie within one another or apart.** -/
theorem Spans.nested_or_disjoint (h : net.Spans version base hostBits)
    (h' : net'.Spans version' base' hostBits') :
    (∀ a : IPAddress, a.inNetwork net = true → a.inNetwork net' = true) ∨
      (∀ a : IPAddress, a.inNetwork net' = true → a.inNetwork net = true) ∨
      ∀ a : IPAddress, ¬ (a.inNetwork net = true ∧ a.inNetwork net' = true) := by
  simp only [h.iff_mem, h'.iff_mem]
  by_cases hversion : version = version'
  · subst hversion
    rcases block_nested_or_disjoint base base' hostBits hostBits' with hsub | hsub | hdisjoint
    · exact Or.inl fun a ha => ⟨ha.1, hsub ha.2⟩
    · exact Or.inr (Or.inl fun a ha => ⟨ha.1, hsub ha.2⟩)
    · exact Or.inr (Or.inr fun a ha => hdisjoint a.number ha.1.2 ha.2.2)
  · exact Or.inr (Or.inr fun a ha => hversion (ha.1.1.symm.trans ha.2.1))

end IPNetwork

end Py

namespace SocLab

open Py Logic

section Leaf

variable {event : NormalizedEvent} {l l' : LeafCondition} {kind : FieldType} {operands : List Operand}
  {field : ResolvedField} {net : IPNetwork} {o : ConditionOutcome} {t : ConditionTrace}

/-- The network that the operand of a leaf names. -/
def networkOf (l : LeafCondition) : Option IPNetwork :=
  match l.value.get .none with
  | .str text => (ipNetwork text).toOption
  | _ => none

/-- The address that a field of an event holds. -/
def addressAt (event : NormalizedEvent) (path : String) : Option IPAddress :=
  match resolveEventField event path with
  | .ok ⟨_, _, .present, some (.ip a)⟩ => some a
  | _ => none

theorem exists_spans_of_networkOf (h : networkOf l = some net) :
    ∃ version base hostBits, net.Spans version base hostBits := by
  unfold networkOf at h
  split at h
  · next text _ =>
    cases hnet : ipNetwork text with
    | ok n =>
      rw [hnet] at h
      cases h
      exact IPNetwork.exists_spans hnet
    | error e =>
      rw [hnet] at h
      cases h
  · cases h

theorem operands_of_cidr (hop : l.op = .ipInCidr) (h : validatedOperands kind l = .ok operands) :
    ∃ net, networkOf l = some net ∧ operands = [.network net] := by
  unfold validatedOperands at h
  simp only [hop, existenceOperators, List.mem_cons, reduceCtorEq, List.not_mem_nil, or_self,
    if_false] at h
  split_ifs at h
  split at h
  · next text htext =>
    split at h
    · next n hn =>
      cases h
      refine ⟨n, ?_, rfl⟩
      rw [networkOf, htext]
      dsimp only
      rw [hn]
      rfl
    · cases h
    · cases h
  · cases h

theorem eq_ip_of_comparedValue {s : Scalar} {a : IPAddress} (h : comparedValue s = .ok (.ip a)) :
    s = .ip a := by
  cases s with
  | datetime d =>
    rw [comparedValue] at h
    split at h
    · cases h
    · cases h
  | _ =>
    cases h
    try rfl

/-- What the comparison of a field with a network comes to. -/
theorem outcome_of_cidr (h : leafOutcome field .ipInCidr [.network net] = .ok o) :
    o = .true ↔ ∃ a, (field.presence = .present ∧ field.value = some (.ip a)) ∧ a.inNetwork net = true := by
  obtain ⟨path, ft, presence, value⟩ := field
  rw [leafOutcome, if_neg (by decide)] at h
  cases presence with
  | present =>
    cases value with
    | none =>
      cases h
      exact iff_of_false (by simp) (by simp)
    | some s =>
      obtain ⟨b, hb, ho⟩ := bind_eq_ok.mp h
      cases ho
      obtain ⟨s', hs', hb⟩ := bind_eq_ok.mp hb
      cases s' with
      | ip a =>
        obtain rfl := eq_ip_of_comparedValue hs'
        cases hb
        cases ha : a.inNetwork net <;> simp [outcome, ha]
      | _ => cases hb
  | _ =>
    cases h
    exact iff_of_false (by simp) (by simp)

theorem addressAt_eq_some {path : String} (h : resolveEventField event path = .ok field) {a : IPAddress} :
    addressAt event path = some a ↔ field.presence = .present ∧ field.value = some (.ip a) := by
  obtain ⟨path', ft, presence, value⟩ := field
  rw [addressAt, h]
  cases presence with
  | present =>
    cases value with
    | none => simp
    | some s => cases s <;> simp
  | _ => simp

/-- **A leaf with `ip_in_cidr` is true when its field holds an address of its network.** -/
theorem outcome_ipInCidr (hop : l.op = .ipInCidr) (hnet : networkOf l = some net)
    (h : evaluateCondition event (.leaf l) = .ok t) :
    t.outcome = .true ↔ ∃ a, addressAt event l.field = some a ∧ a.inNetwork net = true := by
  rw [evaluateCondition_eq_ok] at h
  obtain ⟨field, operands, o, hfield, hoperands, ho, -, hnode⟩ := evaluateLeaf_eq_ok.mp h
  obtain ⟨net', hnet', rfl⟩ := operands_of_cidr hop hoperands
  rw [hnet] at hnet'
  cases hnet'
  rw [hop] at ho
  have houtcome : t.outcome = o := by
    rw [ConditionTrace.outcome, hnode]
    rfl
  rw [houtcome, outcome_of_cidr ho]
  exact exists_congr fun a => and_congr_left fun _ => (addressAt_eq_some hfield).symm

/-- Without a network the leaf does not evaluate. -/
theorem exists_networkOf (hop : l.op = .ipInCidr) (h : evaluateCondition event (.leaf l) = .ok t) :
    ∃ net, networkOf l = some net := by
  rw [evaluateCondition_eq_ok] at h
  obtain ⟨field, operands, o, -, hoperands, -, -, -⟩ := evaluateLeaf_eq_ok.mp h
  obtain ⟨net, hnet, -⟩ := operands_of_cidr hop hoperands
  exact ⟨net, hnet⟩

/-- The leaf is true on the event. -/
def LeafTrue (event : NormalizedEvent) (l : LeafCondition) : Prop :=
  ∃ t, evaluateCondition event (.leaf l) = .ok t ∧ t.outcome = .true

theorem leafEvaluates_of_leafTrue (h : LeafTrue event l) : LeafEvaluates event l := by
  obtain ⟨t, ht, -⟩ := h
  exact ⟨t, ht⟩

/-- A leaf that evaluates is true exactly on the addresses of its network. -/
theorem leafTrue_iff (hop : l.op = .ipInCidr) (hnet : networkOf l = some net) (h : LeafEvaluates event l) :
    LeafTrue event l ↔ ∃ a, addressAt event l.field = some a ∧ a.inNetwork net = true := by
  obtain ⟨t, ht⟩ := h
  rw [← outcome_ipInCidr hop hnet ht]
  refine ⟨fun htrue => ?_, fun ho => ⟨t, ht, ho⟩⟩
  obtain ⟨t', ht', ho⟩ := htrue
  rw [ht] at ht'
  cases ht'
  exact ho

theorem not_leafEvaluates (hop : l.op = .ipInCidr) (hnone : networkOf l = none) : ¬ LeafEvaluates event l := by
  intro h
  obtain ⟨t, ht⟩ := h
  obtain ⟨net, hnet⟩ := exists_networkOf hop ht
  rw [hnone] at hnet
  cases hnet

/-- The leaf asks for the addresses between two bounds. -/
theorem leafTrue_bounds (hop : l.op = .ipInCidr) :
    ∃ version base hostBits, 2 ^ hostBits ∣ base ∧ ∀ event, LeafEvaluates event l →
      (LeafTrue event l ↔ ∃ a, addressAt event l.field = some a ∧ a.version = version ∧
        base ≤ a.number ∧ a.number < base + 2 ^ hostBits) := by
  cases hnet : networkOf l with
  | none => exact ⟨4, 0, 0, one_dvd _, fun event h => absurd h (not_leafEvaluates hop hnet)⟩
  | some net =>
    obtain ⟨version, base, hostBits, hspans⟩ := exists_spans_of_networkOf hnet
    refine ⟨version, base, hostBits, hspans.aligned, fun event h => ?_⟩
    rw [leafTrue_iff hop hnet h]
    refine exists_congr fun a => and_congr_right fun _ => ?_
    rw [hspans.iff_mem, mem_block_iff hspans.aligned]

/-- Where every address of one network is in the other, one leaf implies the other. -/
theorem LeafTrue.mono {net' : IPNetwork} (hop : l.op = .ipInCidr) (hop' : l'.op = .ipInCidr)
    (hfield : l'.field = l.field) (hnet : networkOf l = some net) (hnet' : networkOf l' = some net')
    (hsub : ∀ a : IPAddress, a.inNetwork net = true → a.inNetwork net' = true)
    (hevaluates : LeafEvaluates event l') (h : LeafTrue event l) : LeafTrue event l' := by
  obtain ⟨a, haddress, ha⟩ := (leafTrue_iff hop hnet (leafEvaluates_of_leafTrue h)).mp h
  rw [leafTrue_iff hop' hnet' hevaluates, hfield]
  exact ⟨a, haddress, hsub a ha⟩

end Leaf

/-- **`ip_in_cidr` by blocks of addresses**: for each leaf there are bounds, of one family, so that on every
event on which it evaluates the leaf is true when its field holds an address between them; and of two leaves
on one field, one implies the other on all of these events, or they are true together on none. -/
theorem cidr_blocks {l l' : LeafCondition} (hop : l.op = .ipInCidr) (hop' : l'.op = .ipInCidr)
    (hfield : l'.field = l.field) :
    (∃ version base hostBits, 2 ^ hostBits ∣ base ∧ ∀ event, LeafEvaluates event l →
      (LeafTrue event l ↔ ∃ a, addressAt event l.field = some a ∧ a.version = version ∧
        base ≤ a.number ∧ a.number < base + 2 ^ hostBits)) ∧
    ((∀ event, LeafEvaluates event l → LeafEvaluates event l' → LeafTrue event l → LeafTrue event l') ∨
      (∀ event, LeafEvaluates event l → LeafEvaluates event l' → LeafTrue event l' → LeafTrue event l) ∨
      ∀ event, ¬ (LeafTrue event l ∧ LeafTrue event l')) := by
  refine ⟨leafTrue_bounds hop, ?_⟩
  by_cases hnets : ∃ net net', networkOf l = some net ∧ networkOf l' = some net'
  · obtain ⟨net, net', hnet, hnet'⟩ := hnets
    obtain ⟨version, base, hostBits, hspans⟩ := exists_spans_of_networkOf hnet
    obtain ⟨version', base', hostBits', hspans'⟩ := exists_spans_of_networkOf hnet'
    rcases hspans.nested_or_disjoint hspans' with hsub | hsub | hdisjoint
    · exact Or.inl fun event _ h' htrue => htrue.mono hop hop' hfield hnet hnet' hsub h'
    · exact Or.inr (Or.inl fun event h _ htrue => htrue.mono hop' hop hfield.symm hnet' hnet hsub h)
    · refine Or.inr (Or.inr fun event hboth => ?_)
      obtain ⟨a, haddress, ha⟩ := (leafTrue_iff hop hnet (leafEvaluates_of_leafTrue hboth.1)).mp hboth.1
      obtain ⟨b, hb, hmem⟩ := (leafTrue_iff hop' hnet' (leafEvaluates_of_leafTrue hboth.2)).mp hboth.2
      rw [hfield, haddress] at hb
      cases hb
      exact hdisjoint a ⟨ha, hmem⟩
  · -- a leaf without a network evaluates on no event
    refine Or.inr (Or.inr fun event hboth => hnets ?_)
    obtain ⟨t, ht, -⟩ := hboth.1
    obtain ⟨t', ht', -⟩ := hboth.2
    obtain ⟨net, hnet⟩ := exists_networkOf hop ht
    obtain ⟨net', hnet'⟩ := exists_networkOf hop' ht'
    exact ⟨net, net', hnet, hnet'⟩

/-- A logon from an address of the fourth version. -/
def NormalizedEvent.exampleLogonFrom (address : Fin (2 ^ 32)) : NormalizedEvent :=
  { NormalizedEvent.exampleLogon with
    context := .authentication
      { outcome := .success, user := .unset, domain := .unset, logonType := .unset,
        sourceIp := .set (some (.v4 address)), sourcePort := .unset, workstation := .unset } }

/-- `10.1.0.0/16` lies in `10.0.0.0/8`: the address `10.1.2.3` is in both, `10.2.3.4` in the larger one only. -/
theorem cidr_blocks_example :
    let l : LeafCondition := ⟨"context.source_ip", .ipInCidr, .set (.str "10.1.0.0/16"), by decide⟩
    let l' : LeafCondition := ⟨"context.source_ip", .ipInCidr, .set (.str "10.0.0.0/8"), by decide⟩
    (∀ event, LeafEvaluates event l → LeafEvaluates event l' → LeafTrue event l → LeafTrue event l') ∧
      LeafTrue (.exampleLogonFrom 167838211) l ∧ LeafTrue (.exampleLogonFrom 167838211) l' ∧
      LeafTrue (.exampleLogonFrom 167904004) l' ∧ ¬ LeafTrue (.exampleLogonFrom 167904004) l := by
  intro l l'
  have hop : l.op = .ipInCidr := rfl
  have hop' : l'.op = .ipInCidr := rfl
  have hboth : LeafTrue (.exampleLogonFrom 167838211) l ∧ LeafTrue (.exampleLogonFrom 167838211) l' :=
    ⟨exists_of_map_ok (by decide +kernel), exists_of_map_ok (by decide +kernel)⟩
  have hlarger : LeafTrue (.exampleLogonFrom 167904004) l' := exists_of_map_ok (by decide +kernel)
  obtain ⟨t, ht, hfalse⟩ : ∃ t, evaluateCondition (.exampleLogonFrom 167904004) (.leaf l) = .ok t ∧
      t.outcome = .false := exists_of_map_ok (by decide +kernel)
  have hnot : ¬ LeafTrue (.exampleLogonFrom 167904004) l := by
    rintro ⟨t', ht', htrue⟩
    cases ht.symm.trans ht'
    exact absurd (hfalse.symm.trans htrue) (by decide)
  refine ⟨?_, hboth.1, hboth.2, hlarger, hnot⟩
  -- The two addresses exclude the other cases of the theorem.
  rcases (cidr_blocks hop hop' rfl).2 with hnested | hnested | hdisjoint
  · exact hnested
  · exact absurd (hnested _ ⟨t, ht⟩ (leafEvaluates_of_leafTrue hlarger) hlarger) hnot
  · exact absurd hboth (hdisjoint _)

end SocLab
