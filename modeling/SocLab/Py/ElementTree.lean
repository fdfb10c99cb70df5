import SocLab.Py.Builtin
import Mathlib.Data.List.Forall2
import Mathlib.Data.List.Flatten
import Mathlib.Logic.Relation

/-!
# SocLab.Py.ElementTree — `xml.etree.ElementTree`

An `Element` is what a parser of XML gives: the names are in Clark's notation, `{namespace}local`.  The
text behind an element and the methods that change one are left out.  The parser itself is no part of
the development; `ParseError` is what it raises.

`Reorder` is a change of the order of siblings, somewhere in a tree.
-/

namespace Py

/-- `ElementTree.ParseError`. -/
structure ParseError where
  deriving DecidableEq

/-- `xml.etree.ElementTree.Element`. -/
inductive Element where
  | mk (tag : String) (attrib : List (String × String)) (text : Option String) (children : List Element)

namespace Element

/-- `element.tag`. -/
def tag : Element → String
  | mk tag _ _ _ => tag

/-- `element.get(name)`. -/
def get : Element → String → Option String
  | mk _ attrib _ _, name => attrib.lookup name

/-- `element.text`. -/
def text : Element → Option String
  | mk _ _ text _ => text

/-- The children in the order of the text. -/
def children : Element → List Element
  | mk _ _ _ children => children

mutual

/-- `list(element.iter())`: the element and all elements below it, in document order. -/
def iter : Element → List Element
  | mk tag attrib text children => mk tag attrib text children :: iterAll children

/-- The elements of several trees, in document order. -/
def iterAll : List Element → List Element
  | [] => []
  | e :: es => iter e ++ iterAll es

end

theorem iter_eq (e : Element) : e.iter = e :: iterAll e.children := by
  cases e
  rw [iter]
  rfl

theorem iterAll_eq_flatMap (es : List Element) : iterAll es = es.flatMap iter := by
  induction es with
  | nil => rfl
  | cons e es ih => rw [iterAll, ih, List.flatMap_cons]

/-- Below elements without children there is nothing. -/
theorem iterAll_of_childless {es : List Element} (h : ∀ e ∈ es, e.children = []) : iterAll es = es := by
  induction es with
  | nil => rfl
  | cons e es ih =>
    have hrest := ih fun e' he' => h e' (List.mem_cons_of_mem e he')
    rw [iterAll, iter_eq, h e List.mem_cons_self, hrest]
    rfl

/-- The children of one element change their order. -/
inductive Reorder : Element → Element → Prop where
  | siblings {tag : String} {attrib : List (String × String)} {text : Option String}
      {children children' : List Element} :
    children.Perm children' → Reorder (mk tag attrib text children) (mk tag attrib text children')
  | inside {tag : String} {attrib : List (String × String)} {text : Option String}
      {before after : List Element} {child child' : Element} :
    Reorder child child' →
      Reorder (mk tag attrib text (before ++ child :: after)) (mk tag attrib text (before ++ child' :: after))

namespace Reorder

variable {e e' : Element}

theorem symm (h : Reorder e e') : Reorder e' e := by
  induction h with
  | siblings hperm => exact .siblings hperm.symm
  | inside _ ih => exact .inside ih

theorem tag_eq (h : Reorder e e') : e'.tag = e.tag := by cases h <;> rfl

theorem get_eq (h : Reorder e e') (name : String) : e'.get name = e.get name := by cases h <;> rfl

theorem text_eq (h : Reorder e e') : e'.text = e.text := by cases h <;> rfl

/-- The children are the same in another order, or in the same order with another order below. -/
theorem children (h : Reorder e e') :
    e.children.Perm e'.children ∨ List.Forall₂ (Relation.ReflGen Reorder) e.children e'.children := by
  cases h with
  | siblings hperm => exact Or.inl hperm
  | inside h =>
    refine Or.inr (List.rel_append ?_ (.cons (.single h) ?_))
    · exact List.forall₂_same.mpr fun _ _ => .refl
    · exact List.forall₂_same.mpr fun _ _ => .refl

/-- The same tags occur equally often. -/
theorem perm_iter (h : Reorder e e') : (e.iter.map tag).Perm (e'.iter.map tag) := by
  induction h with
  | siblings hperm =>
    rw [iter, iter, iterAll_eq_flatMap, iterAll_eq_flatMap]
    exact ((hperm.flatMap_right _).map _).cons _
  | inside _ ih =>
    rw [iter, iter, iterAll_eq_flatMap, iterAll_eq_flatMap]
    simp only [List.flatMap_append, List.flatMap_cons, List.map_cons, List.map_append]
    exact ((ih.append_right _).append_left _).cons _

end Reorder

end Element

end Py
