import UiPlan.Proofs.Tree.Hosted

/-! Trees whose attributes are in order and of a kind. The judgment leaves open which names may
have which values; whatever is chosen, the building functions keep it as long as each attribute
they set is of the kind, and they always keep the attributes of an element sorted by name. A tree
is built if it is hosted as well; this is what the components are followed with.
-/
namespace UiPlan.Tree

def InOrder (attributes : List (String × String)) : Prop :=
  attributes.Pairwise fun entry later => entry.1 < later.1

inductive Styled (fit : String → String → Prop) : Tree → Prop
  | text (content : String) : Styled fit (.text content)
  | group {children : List Tree} (inside : ∀ child ∈ children, Styled fit child) :
      Styled fit (.group children)
  | element {tag : String} {attributes : List (String × String)} {children : List Tree}
      (sorted : InOrder attributes) (fits : ∀ entry ∈ attributes, fit entry.1 entry.2)
      (inside : ∀ child ∈ children, Styled fit child) :
      Styled fit (.element tag attributes children)

private theorem inOrder_placeAttribute (name value : String) {attributes : List (String × String)}
    (sorted : InOrder attributes) : InOrder (placeAttribute name value attributes) := by
  induction attributes with
  | nil => exact List.pairwise_singleton _ _
  | cons entry rest step =>
    obtain ⟨other, old⟩ := entry
    obtain ⟨first, ordered⟩ := List.pairwise_cons.mp sorted
    unfold placeAttribute
    split
    · rename_i same
      subst same
      exact List.pairwise_cons.mpr ⟨first, ordered⟩
    split
    · rename_i less
      have behind : ∀ entry ∈ rest, name < entry.1 :=
        fun entry later => String.lt_trans less (first entry later)
      exact List.pairwise_cons.mpr ⟨List.forall_mem_cons.mpr ⟨less, behind⟩, sorted⟩
    · rename_i apart notLess
      have greater : other < name := Std.lt_of_le_of_ne (String.not_lt.mp notLess) (Ne.symm apart)
      exact List.pairwise_cons.mpr ⟨forall_mem_placeAttribute greater first, step ordered⟩

variable {fit : String → String → Prop}

theorem styled_ofTag (tag : String) : Styled fit (ofTag tag) := .element .nil (by simp) (by simp)

namespace Styled

variable {tree : Tree} (styled : Styled fit tree)
include styled

theorem withAttribute {name value : String} (fits : fit name value) :
    Styled fit (tree.withAttribute name value) := by
  cases styled with
  | text content => exact .text content
  | group inside => exact .group inside
  | element sorted others inside =>
    exact .element (inOrder_placeAttribute name value sorted) (forall_mem_placeAttribute fits others) inside

theorem withFlag {name : String} (on : Bool) (fits : fit name "") :
    Styled fit (tree.withFlag name on) :=
  withFlag_of on styled (styled.withAttribute fits)

theorem withChildren {children : List Tree} (inside : ∀ child ∈ children, Styled fit child) :
    Styled fit (tree.withChildren children) := by
  cases styled with
  | text content => exact .text content
  | group before => exact .group (List.forall_mem_append.mpr ⟨before, inside⟩)
  | element sorted fits before =>
    exact .element sorted fits (List.forall_mem_append.mpr ⟨before, inside⟩)

/-- Every element of a built tree has its attributes in order, and they fit. -/
theorem elements : ∀ element ∈ tree.elements, InOrder element.attributes ∧
    ∀ entry ∈ element.attributes, fit entry.1 entry.2 := by
  have descends : Descends (Styled fit) fun element => InOrder element.attributes ∧
      ∀ entry ∈ element.attributes, fit entry.1 entry.2 := by
    refine ⟨fun styled => ?_, fun styled => ?_⟩
    · cases styled with
      | group inside => exact inside
    · cases styled with
      | element sorted fits inside => exact ⟨⟨sorted, fits⟩, inside⟩
  exact descends.elements styled

end Styled

structure Sets (fit : String → String → Prop) (name value : String) : Prop where
  named : hostAttributes.contains name = true
  fits : fit name value

structure Built (fit : String → String → Prop) (tree : Tree) : Prop where
  hosted : Hosted tree
  styled : Styled fit tree

structure Ready (fit : String → String → Prop) (tree : Tree) : Prop where
  holder : Holder tree
  styled : Styled fit tree

theorem built_text (content : String) : Built fit (.text content) := ⟨.text content, .text content⟩

theorem built_group {children : List Tree} (inside : ∀ child ∈ children, Built fit child) :
    Built fit (.group children) :=
  ⟨.group fun child member => (inside child member).hosted,
    .group fun child member => (inside child member).styled⟩

theorem built_ofTag (tag : String) (known : hostTags.contains tag = true) : Built fit (ofTag tag) :=
  ⟨hosted_ofTag tag known, styled_ofTag tag⟩

theorem ready_ofTag (tag : String) (solid : solidTags.contains tag = true) : Ready fit (ofTag tag) :=
  ⟨holder_ofTag tag solid, styled_ofTag tag⟩

variable {tree : Tree} {name value : String}

namespace Built

theorem withAttribute (built : Built fit tree) (sets : Sets fit name value) :
    Built fit (tree.withAttribute name value) :=
  ⟨built.hosted.withAttribute name value sets.named, built.styled.withAttribute sets.fits⟩

theorem withFlag (built : Built fit tree) (on : Bool) (sets : Sets fit name "") :
    Built fit (tree.withFlag name on) :=
  ⟨built.hosted.withFlag name on sets.named, built.styled.withFlag on sets.fits⟩

end Built

namespace Ready

theorem withAttribute (ready : Ready fit tree) (sets : Sets fit name value) :
    Ready fit (tree.withAttribute name value) :=
  ⟨ready.holder.withAttribute name value sets.named, ready.styled.withAttribute sets.fits⟩

theorem withFlag (ready : Ready fit tree) (on : Bool) (sets : Sets fit name "") :
    Ready fit (tree.withFlag name on) :=
  ⟨ready.holder.withFlag name on sets.named, ready.styled.withFlag on sets.fits⟩

theorem withChildren (ready : Ready fit tree) {children : List Tree}
    (inside : ∀ child ∈ children, Built fit child) : Built fit (tree.withChildren children) :=
  ⟨ready.holder.withChildren fun child member => (inside child member).hosted,
    ready.styled.withChildren fun child member => (inside child member).styled⟩

theorem withChild (ready : Ready fit tree) {child : Tree} (inside : Built fit child) :
    Built fit (tree.withChild child) :=
  ready.withChildren (List.forall_mem_singleton.mpr inside)

end Ready

end UiPlan.Tree
