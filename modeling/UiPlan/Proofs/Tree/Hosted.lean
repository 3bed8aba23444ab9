import UiPlan.Tree.Basic

/-! Trees that a host can show: every element has one of a fixed set of tags, every
attribute one of a fixed set of names, and the elements that a host closes by itself hold
nothing. The building functions keep a tree hosted, whatever texts and values they are
given.
-/
namespace UiPlan.Tree

def hostTags : List String :=
  ["button", "circle", "div", "h1", "h2", "h3", "h4", "img", "input", "label", "li", "nav", "p",
    "polyline", "span", "svg", "table", "tbody", "td", "th", "thead", "tr", "ul"]

def hostAttributes : List String :=
  ["class", "style", "disabled", "type", "placeholder", "src", "alt", "aria-hidden", "width",
    "height", "points", "fill", "stroke", "stroke-width", "cx", "cy", "r"]

def voidTags : List String := ["input", "img"]

inductive Hosted : Tree → Prop
  | text (content : String) : Hosted (.text content)
  | group {children : List Tree} (inside : ∀ child ∈ children, Hosted child) :
      Hosted (.group children)
  | element {tag : String} {attributes : List (String × String)} {children : List Tree}
      (known : tag ∈ hostTags) (named : ∀ entry ∈ attributes, entry.1 ∈ hostAttributes)
      (hollow : tag ∈ voidTags → children = []) (inside : ∀ child ∈ children, Hosted child) :
      Hosted (.element tag attributes children)

structure Element where
  tag : String
  attributes : List (String × String)
  children : List Tree

mutual
def elements : Tree → List Element
  | .element tag attributes children => ⟨tag, attributes, children⟩ :: elementsOf children
  | .group children => elementsOf children
  | .text _ => []

def elementsOf : List Tree → List Element
  | [] => []
  | tree :: rest => tree.elements ++ elementsOf rest
end

/-- A judgment on trees that says something of every element and holds of the trees inside. -/
structure Descends (judgment : Tree → Prop) (states : Element → Prop) : Prop where
  group : ∀ {children}, judgment (.group children) → ∀ child ∈ children, judgment child
  element : ∀ {tag attributes children}, judgment (.element tag attributes children) →
    states ⟨tag, attributes, children⟩ ∧ ∀ child ∈ children, judgment child

mutual

/-- A judgment that goes down the tree says the same of every element in it. -/
theorem Descends.elements {judgment : Tree → Prop} {states : Element → Prop}
    (descends : Descends judgment states) :
    ∀ {tree : Tree}, judgment tree → ∀ element ∈ tree.elements, states element
  | .text _, _ => by simp [Tree.elements]
  | .group children, holds => by
    rw [Tree.elements]
    exact descends.elementsOf (descends.group holds)
  | .element tag attributes children, holds => by
    obtain ⟨here, inside⟩ := descends.element holds
    rw [Tree.elements]
    exact List.forall_mem_cons.mpr ⟨here, descends.elementsOf inside⟩

theorem Descends.elementsOf {judgment : Tree → Prop} {states : Element → Prop}
    (descends : Descends judgment states) :
    ∀ {trees : List Tree}, (∀ tree ∈ trees, judgment tree) →
      ∀ element ∈ elementsOf trees, states element
  | [], _ => by simp [Tree.elementsOf]
  | tree :: rest, all => by
    obtain ⟨first, others⟩ := List.forall_mem_cons.mp all
    rw [Tree.elementsOf]
    exact List.forall_mem_append.mpr ⟨descends.elements first, descends.elementsOf others⟩

end

/-- A hosted tree holds host elements with host attributes, and its void elements hold nothing. -/
theorem Hosted.elements {tree : Tree} (hosted : Hosted tree) :
    ∀ element ∈ tree.elements, element.tag ∈ hostTags ∧
      (∀ entry ∈ element.attributes, entry.1 ∈ hostAttributes) ∧
        (element.tag ∈ voidTags → element.children = []) := by
  have descends : Descends Hosted fun element => element.tag ∈ hostTags ∧
      (∀ entry ∈ element.attributes, entry.1 ∈ hostAttributes) ∧
        (element.tag ∈ voidTags → element.children = []) := by
    refine ⟨fun hosted => ?_, fun hosted => ?_⟩
    · cases hosted with
      | group inside => exact inside
    · cases hosted with
      | element known named hollow inside => exact ⟨⟨known, named, hollow⟩, inside⟩
  exact descends.elements hosted

theorem forall_mem_placeAttribute {holds : String × String → Prop} {name value : String}
    {attributes : List (String × String)} (own : holds (name, value))
    (others : ∀ entry ∈ attributes, holds entry) :
    ∀ entry ∈ placeAttribute name value attributes, holds entry := by
  induction attributes with
  | nil => exact List.forall_mem_singleton.mpr own
  | cons head rest step =>
    obtain ⟨first, behind⟩ := List.forall_mem_cons.mp others
    unfold placeAttribute
    split
    · exact List.forall_mem_cons.mpr ⟨own, behind⟩
    split
    · exact List.forall_mem_cons.mpr ⟨own, others⟩
    · exact List.forall_mem_cons.mpr ⟨first, step behind⟩

theorem withFlag_of {holds : Tree → Prop} {tree : Tree} {name : String} (on : Bool)
    (plain : holds tree) (flagged : holds (tree.withAttribute name "")) :
    holds (tree.withFlag name on) := by
  unfold withFlag
  split
  · exact flagged
  · exact plain

theorem hosted_ofTag (tag : String) (known : hostTags.contains tag = true) : Hosted (ofTag tag) :=
  .element (List.contains_iff_mem.mp known) (by simp) (fun _ => rfl) (by simp)

namespace Hosted

variable {tree : Tree} (hosted : Hosted tree)
include hosted

theorem withAttribute (name value : String) (named : hostAttributes.contains name = true) :
    Hosted (tree.withAttribute name value) := by
  cases hosted with
  | text content => exact .text content
  | group inside => exact .group inside
  | element known others hollow inside =>
    exact .element known (forall_mem_placeAttribute (List.contains_iff_mem.mp named) others) hollow inside

theorem withFlag (name : String) (on : Bool) (named : hostAttributes.contains name = true) :
    Hosted (tree.withFlag name on) :=
  withFlag_of on hosted (hosted.withAttribute name "" named)

end Hosted

def solidTags : List String := hostTags.filter fun tag => !voidTags.contains tag

structure Holder (tree : Tree) : Prop where
  hosted : Hosted tree
  opens : ∀ tag, tree.tag? = some tag → tag ∉ voidTags

theorem holder_ofTag (tag : String) (solid : solidTags.contains tag = true) : Holder (ofTag tag) := by
  obtain ⟨known, outside⟩ := List.mem_filter.mp (List.contains_iff_mem.mp solid)
  refine ⟨hosted_ofTag tag (List.contains_iff_mem.mpr known), fun other same => ?_⟩
  obtain rfl := Option.some.inj same
  simpa using outside

namespace Holder

variable {tree : Tree} (holder : Holder tree)
include holder

theorem withAttribute (name value : String) (named : hostAttributes.contains name = true) :
    Holder (tree.withAttribute name value) := by
  refine ⟨holder.hosted.withAttribute name value named, ?_⟩
  have same : (tree.withAttribute name value).tag? = tree.tag? := by cases tree <;> rfl
  rw [same]
  exact holder.opens

theorem withFlag (name : String) (on : Bool) (named : hostAttributes.contains name = true) :
    Holder (tree.withFlag name on) :=
  withFlag_of on holder (holder.withAttribute name "" named)

theorem withChildren {children : List Tree} (inside : ∀ child ∈ children, Hosted child) :
    Hosted (tree.withChildren children) := by
  obtain ⟨hosted, opens⟩ := holder
  cases hosted with
  | text content => exact .text content
  | group before => exact .group (List.forall_mem_append.mpr ⟨before, inside⟩)
  | element known named hollow before =>
    exact .element known named (fun void => absurd void (opens _ rfl))
      (List.forall_mem_append.mpr ⟨before, inside⟩)

end Holder

end UiPlan.Tree
