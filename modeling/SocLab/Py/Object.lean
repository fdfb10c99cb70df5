import SocLab.Py.Value
import SocLab.Logic.Heap

/-!
# SocLab.Py.Object — Python values as objects in memory

Lists, dicts and model instances are mutable objects that other objects may refer to; every other value is
immutable.  `Value.shape` is a value as data of a heap, and `Value.ofShape` reads it back, so a place in memory
holds one value at most.

* `attributes` is the `__dict__` of an instance; `forall₂_attributes` says what its fields hold.
-/

namespace Py

open Logic

/-- The class of a mutable object, with the names under which its parts stand. -/
inductive Object where
  | list
  | dict (keys : List String)
  | model (cls : String) (keys fieldsSet : List String)

/-- Objects by identity, and values without one. -/
abbrev Memory := Heap Value Object

namespace Value

mutual

/-- The objects that a value is made of, as a tree. -/
def shape : Value → Shape Value Object
  | .list items => .node .list (shapeList items)
  | .dict items => .node (.dict (items.map (·.1))) (shapeItems items)
  | .model cls fields fieldsSet => .node (.model cls (fields.map (·.1)) fieldsSet) (shapeItems fields)
  | v => .leaf v

/-- The trees of the elements. -/
def shapeList : List Value → List (Shape Value Object)
  | [] => []
  | v :: vs => shape v :: shapeList vs

/-- The trees of the entries. -/
def shapeItems : List (String × Value) → List (Shape Value Object)
  | [] => []
  | (_, v) :: items => shape v :: shapeItems items

end

mutual

/-- The value of a tree. -/
def ofShape : Shape Value Object → Value
  | .leaf v => v
  | .node .list ts => .list (ofShapes ts)
  | .node (.dict keys) ts => .dict (keys.zip (ofShapes ts))
  | .node (.model cls keys fieldsSet) ts => .model cls (keys.zip (ofShapes ts)) fieldsSet

/-- The values of the members. -/
def ofShapes : List (Shape Value Object) → List Value
  | [] => []
  | t :: ts => ofShape t :: ofShapes ts

end

mutual

theorem ofShape_shape : ∀ v : Value, ofShape v.shape = v
  | .list items => by rw [shape, ofShape, ofShapes_shapeList]
  | .dict items => by rw [shape, ofShape, zip_shapeItems]
  | .model cls fields fieldsSet => by rw [shape, ofShape, zip_shapeItems]
  | .none | .bool _ | .int _ | .float _ | .str _ | .enum _ _ | .datetime _ | .ip _ | .object _ => rfl

theorem ofShapes_shapeList : ∀ vs : List Value, ofShapes (shapeList vs) = vs
  | [] => rfl
  | v :: vs => by rw [shapeList, ofShapes, ofShape_shape, ofShapes_shapeList]

theorem zip_shapeItems : ∀ items : List (String × Value),
    (items.map (·.1)).zip (ofShapes (shapeItems items)) = items
  | [] => rfl
  | (k, v) :: items => by
    rw [List.map_cons, shapeItems, ofShapes, List.zip_cons_cons, ofShape_shape, zip_shapeItems]

end

/-- Values are told apart by their shapes. -/
theorem shape_injective {v w : Value} (h : v.shape = w.shape) : v = w := by
  rw [← ofShape_shape v, h, ofShape_shape]

end Value

namespace Memory

variable {h : Memory} {r : Ref Value} {v w : Value}

/-- The object at a place is the value. -/
abbrev Is (h : Memory) (r : Ref Value) (v : Value) : Prop := h.Holds r v.shape

/-- **An object is one value at most.** -/
theorem Is.unique (hv : h.Is r v) (hw : h.Is r w) : v = w := Value.shape_injective (Heap.Holds.unique hv hw)

/-- `vars(instance)`, whose values are the objects themselves. -/
def attributes (h : Memory) : Ref Value → List (String × Ref Value)
  | .atom _ => []
  | .cell n =>
    match h.cells[n]? with
    | some ⟨.model _ keys _, fields⟩ => keys.zip fields
    | _ => []

/-- Under each name of an instance stands the object that is the value of the field. -/
theorem forall₂_attributes {cls : String} {fields : Dict} {fieldsSet : List String}
    (hr : h.Is r (.model cls fields fieldsSet)) :
    List.Forall₂ (fun p q => p.1 = q.1 ∧ h.Is p.2 q.2) (attributes h r) fields := by
  have hzip : ∀ (rs : List (Ref Value)) (items : Dict), List.Forall₂ h.Holds rs (Value.shapeItems items) →
      List.Forall₂ (fun p q => p.1 = q.1 ∧ h.Is p.2 q.2) ((items.map (·.1)).zip rs) items := by
    intro rs items
    induction items generalizing rs with
    | nil => exact fun _ => .nil
    | cons p items ih =>
      intro hrs
      rw [Value.shapeItems] at hrs
      cases hrs with
      | cons hp hrest => exact .cons ⟨rfl, hp⟩ (ih _ hrest)
  cases r with
  | atom a => cases hr
  | cell n =>
    obtain ⟨⟨label, rs⟩, hcell, hlabel, hfields⟩ := Heap.holds_node.mp hr
    obtain rfl : label = _ := hlabel
    rw [attributes, hcell]
    exact hzip rs fields hfields

/-- What is found under a name, when the items agree name by name. -/
theorem lookup_of_forall₂ {α β : Type} {R : α → β → Prop} {xs : List (String × α)} {ys : List (String × β)}
    (h : List.Forall₂ (fun p q => p.1 = q.1 ∧ R p.2 q.2) xs ys) {k : String} {y : β} (hy : ys.lookup k = some y) :
    ∃ x, xs.lookup k = some x ∧ R x y := by
  induction h with
  | nil => cases hy
  | @cons p q xs ys hpq _ ih =>
    obtain ⟨name, x⟩ := p
    obtain ⟨name', y'⟩ := q
    obtain ⟨rfl, hxy⟩ := hpq
    rw [List.lookup_cons] at hy ⊢
    by_cases hk : k = name
    · subst hk
      rw [beq_self_eq_true] at hy ⊢
      obtain rfl := Option.some.inj hy
      exact ⟨x, rfl, hxy⟩
    · have hne : (k == name) = false := beq_false_of_ne hk
      rw [hne] at hy ⊢
      exact ih hy

/-- What stands under the names of an instance is what it refers to. -/
theorem points_of_mem_attributes {p : String × Ref Value} (hp : p ∈ attributes h r) : h.Points r p.2 := by
  cases r with
  | atom a => cases hp
  | cell n =>
    rw [attributes] at hp
    split at hp
    · next cls keys fieldsSet fields hcell => exact ⟨n, _, rfl, hcell, (List.of_mem_zip hp).2⟩
    · cases hp

/-- The objects under the names of an instance lie in every closed region that it lies in. -/
theorem attributes_in {S : Set Nat} (hS : h.Closed S) (hr : r.In S) : ∀ p ∈ attributes h r, p.2.In S :=
  fun _ hp => hS.reach hr (.single (points_of_mem_attributes hp))

/-- A place whose value is immutable is that value. -/
theorem eq_atom_of_is (hv : v.shape = .leaf v) (hr : h.Is r v) : r = .atom v := by
  rw [Is, hv] at hr
  cases hr
  rfl

end Memory

end Py
