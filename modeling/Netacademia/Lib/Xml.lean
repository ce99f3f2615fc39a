/-
# XML trees

A node of a tree is an element, or a comment or processing instruction, which has
neither a tag that is a name nor children. A parser may read back a tree that it
wrote with other texts in it, the blanks of a pretty print; `bare` is the tree
without texts, and what depends on tags and attributes can be read off it.
-/
import Mathlib.Data.List.Basic

namespace Lib

inductive Xml
  | element (tag : List Char) (attrib : List (List Char × List Char)) (text : Option (List Char))
      (children : List Xml)
  | other

namespace Xml

def tag : Xml → Option (List Char)
  | .element tag _ _ _ => some tag
  | .other => none

def attrib : Xml → List (List Char × List Char)
  | .element _ attrib _ _ => attrib
  | .other => []

def text : Xml → Option (List Char)
  | .element _ _ text _ => text
  | .other => none

def children : Xml → List Xml
  | .element _ _ _ children => children
  | .other => []

/-- The children of the children, in document order. -/
def grandchildren (n : Xml) : List Xml := n.children.flatMap children

/-- The elements with the tag. -/
def named (name : List Char) (ns : List Xml) : List Xml := ns.filter fun n => n.tag == some name

mutual

/-- The tree without its texts. -/
def bare : Xml → Xml
  | .element tag attrib _ children => .element tag attrib none (bares children)
  | .other => .other

def bares : List Xml → List Xml
  | [] => []
  | n :: ns => bare n :: bares ns

end

theorem bares_eq_map (ns : List Xml) : bares ns = ns.map bare := by
  induction ns with
  | nil => rfl
  | cons n ns ih => rw [bares, ih, List.map_cons]

theorem children_bare (n : Xml) : n.bare.children = n.children.map bare := by
  cases n with
  | element tag attrib text ns => exact bares_eq_map ns
  | other => rfl

theorem grandchildren_bare (n : Xml) : n.bare.grandchildren = n.grandchildren.map bare := by
  rw [grandchildren, grandchildren, children_bare, List.flatMap_map, List.map_flatMap]
  exact congrArg (fun f => n.children.flatMap f) (funext children_bare)

/-- A tree that is read back has no more grandchildren. -/
theorem grandchildren_eq_nil {m n : Xml} (h : m.bare = n.bare) (hn : n.grandchildren = []) :
    m.grandchildren = [] := by
  have hm : m.grandchildren.map bare = [] := by
    rw [← grandchildren_bare, h, grandchildren_bare, hn, List.map_nil]
  exact List.map_eq_nil_iff.mp hm

/-- A loop over the children of the children is one over the grandchildren. -/
theorem foldlM_grandchildren {σ : Type*} (f : σ → Xml → Option σ) (n : Xml) (s : σ) :
    n.children.foldlM (fun s c => c.children.foldlM f s) s = n.grandchildren.foldlM f s := by
  rw [grandchildren]
  induction n.children generalizing s with
  | nil => rfl
  | cons c cs ih =>
    rw [List.foldlM_cons, List.flatMap_cons, List.foldlM_append]
    exact congrArg _ (funext ih)

end Xml
end Lib
