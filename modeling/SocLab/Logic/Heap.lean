import SocLab.Logic.Except
import Mathlib.Data.Set.Basic
import Mathlib.Logic.Relation

/-!
# SocLab.Logic.Heap — mutable cells that may be shared, and the data they hold

A cell has a label and fields, and a field holds an immutable atom or the address of a cell.  `Shape` is data
without addresses; `Holds h r t` says that what is reached from `r` in the heap `h` is the data `t`.

* `Closed S`: no cell in the region `S` refers to one outside of it; `Closed.reach` makes it a statement on
  what is reached, and `Holds.congr` is the frame rule: only writes in the region can change what it holds.
* `Holds.unique`: a place holds one shape at most.
* `deepcopy` and `store` build what is reached from new cells only: `deepcopy_grows`, `store_spec`.
* `Grows`: a heap that was only added to, where what was added does not refer to what was there; `Derived`: what
  was added may share cells with one place.
* `Divided S T`: two regions that do not refer to each other; nothing is reached from both.  `Widens` is a heap
  that was added to, with the two regions afterwards: `Divided.grow`, `Divided.derive`, `Divided.alloc`.
-/

namespace Logic

/-- What a variable or a field holds. -/
inductive Ref (α : Type) where
  | atom (a : α)
  | cell (address : Nat)

/-- What is stored under one address: a label, and references to values and cells. -/
structure Cell (α β : Type) where
  label : β
  fields : List (Ref α)

/-- The cells, by their addresses. -/
structure Heap (α β : Type) where
  cells : List (Cell α β)

/-- Data without addresses. -/
inductive Shape (α β : Type) where
  | leaf (a : α)
  | node (label : β) (children : List (Shape α β))

variable {α β : Type}

namespace Ref

/-- The place lies in a region, as every atom does. -/
def In (S : Set Nat) : Ref α → Prop
  | .atom _ => True
  | .cell n => n ∈ S

/-- The same place, when every cell has moved. -/
def rename (f : Nat → Nat) : Ref α → Ref α
  | .atom a => .atom a
  | .cell n => .cell (f n)

theorem In.mono {S T : Set Nat} (h : S ⊆ T) {r : Ref α} (hr : r.In S) : r.In T := by
  cases r with
  | atom a => trivial
  | cell n => exact h hr

@[simp] theorem rename_id (r : Ref α) : r.rename id = r := by cases r <;> rfl

theorem In.rename {S T : Set Nat} {f : Nat → Nat} (h : ∀ n ∈ S, f n ∈ T) {r : Ref α} (hr : r.In S) :
    (r.rename f).In T := by
  cases r with
  | atom a => trivial
  | cell n => exact h n hr

end Ref

/-- The cell with its addresses mapped. -/
def Cell.rename (f : Nat → Nat) (c : Cell α β) : Cell α β := ⟨c.label, c.fields.map (Ref.rename f)⟩

@[simp] theorem Cell.rename_id (c : Cell α β) : c.rename id = c := by
  have h : (Ref.rename id : Ref α → Ref α) = id := funext Ref.rename_id
  rw [Cell.rename, h, List.map_id]

namespace Heap

variable {h h' h'' : Heap α β} {S : Set Nat} {r r' : Ref α} {t t' : Shape α β}

/-- The first free address. -/
def size (h : Heap α β) : Nat := h.cells.length

/-- The addresses in use. -/
def all (h : Heap α β) : Set Nat := {n | n < h.size}

/-- The addresses that were added. -/
def added (h h' : Heap α β) : Set Nat := {n | h.size ≤ n ∧ n < h'.size}

@[simp] theorem mem_all {n : Nat} : n ∈ h.all ↔ n < h.size := Iff.rfl

@[simp] theorem mem_added {n : Nat} : n ∈ h.added h' ↔ h.size ≤ n ∧ n < h'.size := Iff.rfl

theorem added_subset {h₁ h₂ h₃ h₄ : Heap α β} (hle : h₁.size ≤ h₂.size) (hle' : h₃.size ≤ h₄.size) :
    h₂.added h₃ ⊆ h₁.added h₄ := fun _ hn => ⟨hle.trans hn.1, hn.2.trans_le hle'⟩

/-- The cell at the end of the heap. -/
def alloc (h : Heap α β) (c : Cell α β) : Heap α β := ⟨h.cells ++ [c]⟩

/-- The cell at an address is overwritten. -/
def write (h : Heap α β) (n : Nat) (c : Cell α β) : Heap α β := ⟨h.cells.set n c⟩

/-! ### Regions -/

/-- No cell of the region refers to one outside of it. -/
def Closed (h : Heap α β) (S : Set Nat) : Prop :=
  ∀ n ∈ S, ∀ c, h.cells[n]? = some c → ∀ r ∈ c.fields, r.In S

/-- One place stands in a field of the cell at another. -/
def Points (h : Heap α β) (r r' : Ref α) : Prop :=
  ∃ n c, r = .cell n ∧ h.cells[n]? = some c ∧ r' ∈ c.fields

/-- What can be followed to from a reference. -/
def Reach (h : Heap α β) : Ref α → Ref α → Prop := Relation.ReflTransGen h.Points

/-- **What is reached from a closed region lies in it.** -/
theorem Closed.reach (hS : h.Closed S) (hr : r.In S) (hreach : h.Reach r r') : r'.In S := by
  induction hreach with
  | refl => exact hr
  | tail _ hstep ih =>
    obtain ⟨n, c, rfl, hc, hmem⟩ := hstep
    exact hS n ih c hc _ hmem

theorem Closed.congr (hS : h.Closed S) (hsame : ∀ n ∈ S, h'.cells[n]? = h.cells[n]?) : h'.Closed S := by
  intro n hn c hc
  rw [hsame n hn] at hc
  exact hS n hn c hc

theorem Closed.union {T : Set Nat} (hS : h.Closed S) (hT : h.Closed T) : h.Closed (S ∪ T) := by
  intro n hn c hc r hr
  rcases hn with hn | hn
  · exact (hS n hn c hc r hr).mono Set.subset_union_left
  · exact (hT n hn c hc r hr).mono Set.subset_union_right

/-- A write of places of a region to a cell of it leaves the region closed. -/
theorem Closed.write (hS : h.Closed S) {m : Nat} {d : Cell α β} (hd : ∀ r ∈ d.fields, r.In S) :
    (h.write m d).Closed S := by
  intro n hn c hc
  have hcell : (h.cells.set m d)[n]? = some c := hc
  by_cases hm : m = n
  · subst hm
    rw [List.getElem?_set_self'] at hcell
    obtain ⟨-, -, rfl⟩ := Option.map_eq_some_iff.mp hcell
    exact hd
  · rw [List.getElem?_set_ne hm] at hcell
    exact hS n hn c hcell

/-- A write elsewhere leaves the cells of a region alone. -/
theorem getElem?_write {m : Nat} (hm : m ∉ S) (d : Cell α β) :
    ∀ n ∈ S, (h.write m d).cells[n]? = h.cells[n]? := by
  intro n hn
  have hne : m ≠ n := by
    intro heq
    exact hm (heq ▸ hn)
  exact List.getElem?_set_ne hne

theorem size_write (h : Heap α β) (m : Nat) (d : Cell α β) : (h.write m d).size = h.size := List.length_set

/-- The heap is two regions that do not refer to each other. -/
structure Divided (h : Heap α β) (S T : Set Nat) : Prop where
  all : S ∪ T = h.all
  disjoint : ∀ n ∈ S, n ∉ T
  left : h.Closed S
  right : h.Closed T

namespace Divided

variable {T : Set Nat}

theorem symm (hd : h.Divided S T) : h.Divided T S where
  all := (Set.union_comm T S).trans hd.all
  disjoint := fun n hn hn' => hd.disjoint n hn' hn
  left := hd.right
  right := hd.left

theorem subset_all (hd : h.Divided S T) : S ⊆ h.all := by
  rw [← hd.all]
  exact Set.subset_union_left

theorem closed_all (hd : h.Divided S T) : h.Closed h.all := by
  rw [← hd.all]
  exact hd.left.union hd.right

/-- What lies in the heap lies in one of the regions. -/
theorem in_or (hd : h.Divided S T) (hr : r.In h.all) : r.In S ∨ r.In T := by
  cases r with
  | atom a => exact Or.inl trivial
  | cell n =>
    rw [← hd.all] at hr
    exact hr

/-- **Nothing is reached from both regions.** -/
theorem not_reach (hd : h.Divided S T) (hr : r.In S) (hr' : r'.In T) {n : Nat} (hn : h.Reach r (.cell n)) :
    ¬ h.Reach r' (.cell n) := by
  intro hn'
  have hS : n ∈ S := hd.left.reach hr hn
  have hT : n ∈ T := hd.right.reach hr' hn'
  exact hd.disjoint n hS hT

/-- A write of places of a region to a cell of it. -/
theorem write (hd : h.Divided S T) {n : Nat} (hn : n ∈ T) {c : Cell α β} (hc : ∀ r ∈ c.fields, r.In T) :
    (h.write n c).Divided S T where
  all := by
    have hsize : (h.write n c).size = h.size := size_write h n c
    rw [hd.all]
    ext m
    simp only [mem_all, hsize]
  disjoint := hd.disjoint
  left := hd.left.congr (getElem?_write (fun hn' => hd.disjoint n hn' hn) c)
  right := hd.right.write hc

end Divided

/-! ### What a place holds -/

/-- The reference stands for the tree. -/
inductive Holds (h : Heap α β) : Ref α → Shape α β → Prop
  | leaf (a : α) : Holds h (.atom a) (.leaf a)
  | node {n : Nat} {c : Cell α β} {ts : List (Shape α β)} (hcell : h.cells[n]? = some c)
      (hlength : c.fields.length = ts.length)
      (hfields : ∀ i (hi : i < c.fields.length) (hi' : i < ts.length), Holds h c.fields[i] ts[i]) :
      Holds h (.cell n) (.node c.label ts)

theorem holds_node {n : Nat} {b : β} {ts : List (Shape α β)} :
    h.Holds (.cell n) (.node b ts) ↔
      ∃ c, h.cells[n]? = some c ∧ c.label = b ∧ List.Forall₂ h.Holds c.fields ts := by
  constructor
  · intro hholds
    cases hholds with
    | node hcell hlength hfields =>
      exact ⟨_, hcell, rfl, List.forall₂_iff_get.mpr ⟨hlength, hfields⟩⟩
  · rintro ⟨c, hcell, rfl, hfields⟩
    obtain ⟨hlength, hfields⟩ := List.forall₂_iff_get.mp hfields
    exact .node hcell hlength hfields

/-- **A place holds one shape at most.** -/
theorem Holds.unique (ht : h.Holds r t) (ht' : h.Holds r t') : t = t' := by
  induction ht generalizing t' with
  | leaf a =>
    cases ht'
    rfl
  | node hcell hlength hfields ih =>
    cases ht' with
    | node hcell' hlength' hfields' =>
      obtain rfl := Option.some.inj (hcell.symm.trans hcell')
      congr 1
      refine List.ext_getElem (by omega) fun i hi hi' => ?_
      have hi'' := hi
      rw [← hlength] at hi''
      exact ih i hi'' hi (hfields' i hi'' hi')

/-- **Cells that have moved hold what they held.** -/
theorem Holds.rename {f : Nat → Nat} (hS : h.Closed S)
    (hsame : ∀ n ∈ S, ∀ c, h.cells[n]? = some c → h'.cells[f n]? = some (c.rename f)) (hr : r.In S)
    (ht : h.Holds r t) : h'.Holds (r.rename f) t := by
  induction ht with
  | leaf a => exact .leaf a
  | @node n c ts hcell hlength hfields ih =>
    have hcell' := hsame n hr c hcell
    have hlength' : (c.rename f).fields.length = ts.length := (List.length_map _).trans hlength
    refine Holds.node (c := c.rename f) hcell' hlength' fun i hi hi' => ?_
    have hi'' : i < c.fields.length := by omega
    have hfield := ih i hi'' hi' (hS n hr c hcell _ (List.getElem_mem hi''))
    have hrename : (c.rename f).fields[i] = c.fields[i].rename f := List.getElem_map _
    rw [hrename]
    exact hfield

/-- **The frame rule**: what lies in a closed region holds what it held, when its cells are as they were. -/
theorem Holds.congr (hS : h.Closed S) (hsame : ∀ n ∈ S, h'.cells[n]? = h.cells[n]?) (hr : r.In S)
    (ht : h.Holds r t) : h'.Holds r t := by
  have hrename := ht.rename (f := id) hS
    (fun n hn c hc => by rw [id, hsame n hn, hc, Cell.rename_id]) hr
  rwa [Ref.rename_id] at hrename

/-! ### Growth -/

/-- The heap was added to, and what was added refers to nothing that was there. -/
structure Grows (h h' : Heap α β) : Prop where
  before : h.cells <+: h'.cells
  closed : h'.Closed (h.added h')

theorem Grows.refl (h : Heap α β) : h.Grows h where
  before := List.prefix_refl _
  closed := by
    intro n hn
    rw [mem_added] at hn
    omega

theorem Grows.size_le (hg : h.Grows h') : h.size ≤ h'.size := hg.before.length_le

theorem getElem?_of_before (hbefore : h.cells <+: h'.cells) : ∀ n ∈ h.all, h'.cells[n]? = h.cells[n]? := by
  intro n hn
  obtain ⟨rest, hrest⟩ := hbefore
  rw [← hrest]
  exact List.getElem?_append_left hn

theorem Grows.getElem? (hg : h.Grows h') : ∀ n ∈ h.all, h'.cells[n]? = h.cells[n]? := getElem?_of_before hg.before

theorem Grows.trans (hg : h.Grows h') (hg' : h'.Grows h'') : h.Grows h'' where
  before := hg.before.trans hg'.before
  closed := by
    have hle := hg.size_le
    have hle' := hg'.size_le
    have hsplit : h.added h'' = h.added h' ∪ h'.added h'' := by
      ext n
      simp only [Set.mem_union, mem_added]
      omega
    rw [hsplit]
    refine Closed.union (hg.closed.congr fun n hn => hg'.getElem? n ?_) hg'.closed
    exact hn.2

/-- What was closed stays closed, with what was added or without. -/
theorem Grows.closed_of (hg : h.Grows h') (hS : h.Closed S) (hall : S ⊆ h.all) : h'.Closed S :=
  hS.congr fun n hn => hg.getElem? n (hall hn)

theorem Grows.holds (hg : h.Grows h') (hS : h.Closed S) (hall : S ⊆ h.all) (hr : r.In S) (ht : h.Holds r t) :
    h'.Holds r t :=
  ht.congr hS (fun n hn => hg.getElem? n (hall hn)) hr

/-- The heap was added to, and what was added refers to what is reached from `r` or was added, too. -/
structure Derived (h : Heap α β) (r : Ref α) (h' : Heap α β) (r' : Ref α) : Prop where
  before : h.cells <+: h'.cells
  within : ∀ S, h.Closed S → r.In S → h'.Closed (S ∪ h.added h') ∧ r'.In (S ∪ h.added h')

/-- A region with what was added is closed when the new cells refer to it only. -/
theorem closed_of_before (hbefore : h.cells <+: h'.cells) (hS : h.Closed S)
    (hnew : ∀ n ∈ h.added h', ∀ c, h'.cells[n]? = some c → ∀ r ∈ c.fields, r.In (S ∪ h.added h')) :
    h'.Closed (S ∪ h.added h') := by
  intro n hn c hc r hr
  by_cases hold : n < h.size
  · have hnS : n ∈ S := hn.resolve_right fun hadded => by
      rw [mem_added] at hadded
      omega
    rw [getElem?_of_before hbefore n hold] at hc
    exact (hS n hnS c hc r hr).mono Set.subset_union_left
  · obtain ⟨hlt, -⟩ := List.getElem?_eq_some_iff.mp hc
    exact hnew n ⟨not_lt.mp hold, hlt⟩ c hc r hr

/-- The addresses in use are those that were and those that were added. -/
theorem all_union_added (hbefore : h.cells <+: h'.cells) : h.all ∪ h.added h' = h'.all := by
  have hle : h.size ≤ h'.size := hbefore.length_le
  ext n
  simp only [Set.mem_union, mem_added, mem_all]
  omega

theorem Grows.closed_all (hg : h.Grows h') (hall : h.Closed h.all) : h'.Closed h'.all := by
  rw [← all_union_added hg.before]
  exact (hg.closed_of hall Set.Subset.rfl).union hg.closed

/-- New data is derived from any place. -/
theorem Grows.derived (hg : h.Grows h') (hr' : r'.In (h.added h')) (r : Ref α) : h.Derived r h' r' where
  before := hg.before
  within _ hS _ :=
    ⟨closed_of_before hg.before hS fun n hn c hc r hr => (hg.closed n hn c hc r hr).mono Set.subset_union_right,
      hr'.mono Set.subset_union_right⟩

/-- A heap that was added to, with its two regions. -/
structure Widens (h : Heap α β) (S T : Set Nat) (h' : Heap α β) (S' T' : Set Nat) : Prop where
  before : h.cells <+: h'.cells
  divided : h'.Divided S' T'
  left : S ⊆ S'
  right : T ⊆ T'

section Widens

variable {T S' T' S'' T'' : Set Nat}

theorem Widens.trans (hw : h.Widens S T h' S' T') (hw' : h'.Widens S' T' h'' S'' T'') :
    h.Widens S T h'' S'' T'' where
  before := hw.before.trans hw'.before
  divided := hw'.divided
  left := hw.left.trans hw'.left
  right := hw.right.trans hw'.right

theorem Widens.symm (hw : h.Widens S T h' S' T') : h.Widens T S h' T' S' where
  before := hw.before
  divided := hw.divided.symm
  left := hw.right
  right := hw.left

/-- What was held is still held. -/
theorem Widens.holds (hw : h.Widens S T h' S' T') (hd : h.Divided S T) (hr : r.In h.all) (ht : h.Holds r t) :
    h'.Holds r t :=
  ht.congr hd.closed_all (getElem?_of_before hw.before) hr

theorem Widens.subset_all (hw : h.Widens S T h' S' T') : h.all ⊆ h'.all := by
  rw [← all_union_added hw.before]
  exact Set.subset_union_left

/-- What was added joins one of the regions. -/
theorem Divided.widen (hd : h.Divided S T) (hbefore : h.cells <+: h'.cells) (hclosed : h'.Closed (S ∪ h.added h')) :
    h.Widens S T h' (S ∪ h.added h') T where
  before := hbefore
  divided := {
    all := by
      rw [Set.union_right_comm, hd.all]
      exact all_union_added hbefore
    disjoint := by
      intro n hn hnT
      have hlt : n < h.size := hd.symm.subset_all hnT
      rcases hn with hn | hn
      · exact hd.disjoint n hn hnT
      · rw [mem_added] at hn
        omega
    left := hclosed
    right := hd.right.congr fun n hn => getElem?_of_before hbefore n (hd.symm.subset_all hn) }
  left := Set.subset_union_left
  right := Set.Subset.rfl

theorem Divided.grow (hd : h.Divided S T) (hg : h.Grows h') : h.Widens S T h' (S ∪ h.added h') T :=
  hd.widen hg.before ((hg.closed_of hd.left hd.subset_all).union hg.closed)

/-- **What shares cells with a place joins the region of the place.** -/
theorem Divided.derive (hd : h.Divided S T) (hr : r.In S) (hx : h.Derived r h' r') :
    h.Widens S T h' (S ∪ h.added h') T ∧ r'.In (S ∪ h.added h') :=
  ⟨hd.widen hx.before (hx.within S hd.left hr).1, (hx.within S hd.left hr).2⟩

/-- A new cell that refers to one of the regions. -/
theorem Divided.alloc (hd : h.Divided S T) {c : Cell α β} (hc : ∀ r ∈ c.fields, r.In S) :
    h.Widens S T (h.alloc c) (S ∪ h.added (h.alloc c)) T ∧
      Ref.In (α := α) (S ∪ h.added (h.alloc c)) (.cell h.size) := by
  have hsize : (h.alloc c).size = h.size + 1 := List.length_append
  refine ⟨hd.widen (List.prefix_append _ _) (closed_of_before (List.prefix_append _ _) hd.left ?_), Or.inr ?_⟩
  · intro n hn c' hc' r hr
    rw [mem_added] at hn
    obtain rfl : n = h.size := by omega
    have hlast : (h.alloc c).cells[h.size]? = some c := List.getElem?_concat_length
    obtain rfl := Option.some.inj (hlast.symm.trans hc')
    exact (hc r hr).mono Set.subset_union_left
  · rw [mem_added]
    omega

end Widens

/-! ### Copies -/

/-- `copy.deepcopy`: the copy refers to copies only, and what is shared in the original is shared in the copy.
Every cell is doubled; the doubles that the copy does not reach are garbage. -/
def deepcopy (h : Heap α β) (r : Ref α) : Heap α β × Ref α :=
  (⟨h.cells ++ h.cells.map (Cell.rename (h.size + ·))⟩, r.rename (h.size + ·))

theorem getElem?_deepcopy {n : Nat} (r : Ref α) {c : Cell α β} (hc : h.cells[n]? = some c) :
    (h.deepcopy r).1.cells[h.size + n]? = some (c.rename (h.size + ·)) := by
  have hright : h.cells.length ≤ h.size + n := Nat.le_add_right _ _
  show (h.cells ++ h.cells.map (Cell.rename (h.size + ·)))[h.size + n]? = _
  rw [List.getElem?_append_right hright, List.getElem?_map]
  have hsub : h.size + n - h.cells.length = n := Nat.add_sub_cancel_left _ _
  rw [hsub, hc]
  rfl

theorem size_deepcopy (h : Heap α β) (r : Ref α) : (h.deepcopy r).1.size = h.size + h.size := by
  show (h.cells ++ h.cells.map (Cell.rename (h.size + ·))).length = _
  rw [List.length_append, List.length_map]
  rfl

theorem deepcopy_grows (hall : h.Closed h.all) (r : Ref α) : h.Grows (h.deepcopy r).1 where
  before := List.prefix_append _ _
  closed := by
    intro n hn c hc r' hr'
    rw [mem_added, size_deepcopy] at hn
    obtain ⟨m, rfl⟩ := Nat.exists_eq_add_of_le hn.1
    have hm : m < h.size := by omega
    have hcell : h.cells[m]? = some h.cells[m] := List.getElem?_eq_getElem hm
    rw [getElem?_deepcopy r hcell] at hc
    obtain rfl := Option.some.inj hc
    obtain ⟨r₀, hr₀, rfl⟩ := List.mem_map.mp hr'
    refine (hall m hm _ hcell r₀ hr₀).rename fun k hk => ?_
    rw [mem_all] at hk
    rw [mem_added, size_deepcopy]
    omega

theorem deepcopy_added (hr : r.In h.all) : (h.deepcopy r).2.In (h.added (h.deepcopy r).1) := by
  refine hr.rename fun n hn => ?_
  rw [mem_all] at hn
  rw [mem_added, size_deepcopy]
  omega

/-- **A copy holds what the original holds.** -/
theorem holds_deepcopy (hall : h.Closed h.all) (hr : r.In h.all) (ht : h.Holds r t) :
    (h.deepcopy r).1.Holds (h.deepcopy r).2 t :=
  ht.rename hall (fun _ _ _ hc => getElem?_deepcopy r hc) hr

/-! ### New data -/

mutual

/-- Builds the data from new cells. -/
def store (h : Heap α β) : Shape α β → Heap α β × Ref α
  | .leaf a => (h, .atom a)
  | .node b ts =>
    let (h', rs) := h.storeAll ts
    (h'.alloc ⟨b, rs⟩, .cell h'.size)

/-- The trees, one after the other. -/
def storeAll (h : Heap α β) : List (Shape α β) → Heap α β × List (Ref α)
  | [] => (h, [])
  | t :: ts =>
    let (h₁, r) := h.store t
    let (h₂, rs) := h₁.storeAll ts
    (h₂, r :: rs)

end

/-- What is known of data that was built. -/
structure Built (h h' : Heap α β) (r : Ref α) (t : Shape α β) : Prop where
  added : r.In (h.added h')
  holds : h'.Holds r t

/-- What was built first is still there. -/
theorem Built.grows (hb : h.Built h' r t) (hg : h.Grows h') (hg' : h'.Grows h'') : h.Built h'' r t where
  added := by
    refine hb.added.mono fun n hn => ?_
    have hle := hg'.size_le
    rw [mem_added] at hn ⊢
    omega
  holds := hg'.holds hg.closed (fun _ hn => hn.2) hb.added hb.holds

/-- What is built later is as new. -/
theorem Built.of_grows (hb : h'.Built h'' r t) (hg : h.Grows h') : h.Built h'' r t where
  added := by
    refine hb.added.mono fun n hn => ?_
    have hle := hg.size_le
    rw [mem_added] at hn ⊢
    omega
  holds := hb.holds

/-- A new cell whose fields are all new. -/
theorem grows_alloc {rs : List (Ref α)} {ts : List (Shape α β)} (hg : h.Grows h')
    (hrs : List.Forall₂ (h.Built h') rs ts) (b : β) :
    h.Grows (h'.alloc ⟨b, rs⟩) ∧ h.Built (h'.alloc ⟨b, rs⟩) (.cell h'.size) (.node b ts) := by
  have hsize : (h'.alloc ⟨b, rs⟩).size = h'.size + 1 := List.length_append
  have hle := hg.size_le
  have hold : ∀ n ∈ h.added h', (h'.alloc ⟨b, rs⟩).cells[n]? = h'.cells[n]? := by
    intro n hn
    exact List.getElem?_append_left hn.2
  have hnew : (h'.alloc ⟨b, rs⟩).cells[h'.size]? = some ⟨b, rs⟩ := List.getElem?_concat_length
  have hfields : ∀ r ∈ rs, r.In (h.added h') := by
    intro r hr
    obtain ⟨t, -, hb⟩ := exists_of_forall₂ hrs r hr
    exact hb.added
  refine ⟨⟨hg.before.trans (List.prefix_append _ _), ?_⟩, ?_, ?_⟩
  · have hregion : h.added h' ⊆ h.added (h'.alloc ⟨b, rs⟩) := by
      intro n hn
      rw [mem_added] at hn ⊢
      omega
    intro n hn c hc r hr
    -- the new cell points to what was added before it, the others point where they did
    by_cases hlast : n = h'.size
    · subst hlast
      obtain rfl := Option.some.inj (hnew.symm.trans hc)
      exact (hfields r hr).mono hregion
    · have hn : n ∈ h.added h' := by
        rw [mem_added] at hn ⊢
        omega
      rw [hold n hn] at hc
      exact (hg.closed n hn c hc r hr).mono hregion
  · show h'.size ∈ h.added (h'.alloc ⟨b, rs⟩)
    rw [mem_added]
    omega
  · refine holds_node.mpr ⟨_, hnew, rfl, ?_⟩
    exact hrs.imp fun r t hb => hb.holds.congr hg.closed hold hb.added

mutual

/-- **What `store` builds is new and holds the data.** -/
theorem store_spec (h : Heap α β) : ∀ t : Shape α β,
    h.Grows (h.store t).1 ∧ h.Built (h.store t).1 (h.store t).2 t
  | .leaf a => ⟨.refl h, trivial, .leaf a⟩
  | .node b ts => by
    obtain ⟨hg, hrs⟩ := storeAll_spec h ts
    exact grows_alloc hg hrs b

theorem storeAll_spec (h : Heap α β) : ∀ ts : List (Shape α β),
    h.Grows (h.storeAll ts).1 ∧ List.Forall₂ (h.Built (h.storeAll ts).1) (h.storeAll ts).2 ts
  | [] => ⟨.refl h, .nil⟩
  | t :: ts => by
    obtain ⟨hg, hb⟩ := store_spec h t
    obtain ⟨hg', hrs⟩ := storeAll_spec (h.store t).1 ts
    exact ⟨hg.trans hg', .cons (hb.grows hg hg') (hrs.imp fun r t hb => hb.of_grows hg)⟩

end

end Heap

end Logic
