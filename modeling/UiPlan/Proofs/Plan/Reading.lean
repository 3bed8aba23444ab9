import UiPlan.Plan.Fence
import UiPlan.Proofs.Json.ReadBack

/-! What is true of every plan that was read. Its elements do not stand deeper inside one
another than lists and objects may in JSON, the values of its props can be written and
read back as long as they hold no doubles, and what became a malformed node names no type.
-/
namespace UiPlan.Plan

namespace Node

def namesType (value : Json) : Bool :=
  match value.member? "type" with
  | some (.str _) => true
  | _ => false

/-- A node that was read from a value with at most `depth` lists and objects inside one
another. -/
inductive Regular : (depth : Nat) → Node → Prop
  | text (depth : Nat) (content : String) : Regular depth (.text content)
  | malformed (depth : Nat) {value : Json} (unnamed : namesType value = false) :
      Regular depth (.malformed value)
  | element {depth : Nat} {type : String} {props : List (String × Json)} {children : List Node}
      (plain : ∀ entry ∈ props, entry.2.isDistinct = true ∧ entry.2.nesting ≤ depth)
      (inside : ∀ child ∈ children, Regular depth child) :
      Regular (depth + 1) (.element type props children)

/-- No prop of an element in the node holds a double. -/
def Integral (node : Node) : Prop :=
  ∀ element ∈ node.elements, ∀ entry ∈ element.props, entry.2.isIntegral = true

theorem ofItems_eq_map (items : List Json) : ofItems items = items.map ofJson := by
  induction items with
  | nil => rfl
  | cons item items step => rw [ofItems, step, List.map_cons]

theorem mem_elementsOf {element : Element} {nodes : List Node} :
    element ∈ elementsOf nodes ↔ ∃ node ∈ nodes, element ∈ node.elements := by
  induction nodes with
  | nil => simp [elementsOf]
  | cons node rest step => simp [elementsOf, step]

/-- A child of an object is a text, or it was read from an item of a list in the object. -/
theorem mem_childrenOf {members : List (String × Json)} {child : Node}
    (inside : child ∈ childrenOf members) :
    (∃ content, child = .text content) ∨
      ∃ name items item, (name, .arr items) ∈ members ∧ item ∈ items ∧ child = ofJson item := by
  induction members with
  | nil => cases inside
  | cons entry rest step =>
    obtain ⟨name, value⟩ := entry
    rw [childrenOf] at inside
    split at inside
    · unfold childrenIn at inside
      split at inside
      · rename_i items
        rw [ofItems_eq_map, List.mem_map] at inside
        obtain ⟨item, member, rfl⟩ := inside
        exact .inr ⟨name, items, item, by simp, member, rfl⟩
      · exact .inl ⟨_, List.mem_singleton.mp inside⟩
      · cases inside
    · rcases step inside with text | ⟨name, items, item, present, member, same⟩
      · exact .inl text
      · exact .inr ⟨name, items, item, by simp [present], member, same⟩

private theorem mem_propsOf {members : List (String × Json)} {entry : String × Json}
    (inside : entry ∈ propsOf members) : ∃ props, ("props", .obj props) ∈ members ∧ entry ∈ props := by
  unfold propsOf at inside
  cases found : Table.get? members "props" with
  | none =>
    rw [found] at inside
    cases inside
  | some value =>
    rw [found, Option.getD_some] at inside
    unfold propsIn at inside
    split at inside
    · exact ⟨_, Table.mem_of_get? found, inside⟩
    · cases inside

theorem ofJson_obj (members : List (String × Json)) :
    (∃ type, ofJson (.obj members) = .element type (propsOf members) (childrenOf members)) ∨
      namesType (.obj members) = false ∧ ofJson (.obj members) = .malformed (.obj members) := by
  cases found : Table.get? members "type" with
  | none => exact .inr ⟨by simp [namesType, Json.member?, found], by rw [ofJson, found]⟩
  | some value =>
    cases value with
    | str type => exact .inl ⟨type, by rw [ofJson, found]⟩
    | null | bool | num | arr | obj =>
      exact .inr ⟨by simp [namesType, Json.member?, found], by rw [ofJson, found]⟩

/-- Nodes are read from the outside to the inside: an object is read after the items of its
lists. -/
theorem reading_induction {motive : Json → Prop}
    (plain : ∀ value, (∀ members, value ≠ .obj members) → motive value)
    (object : ∀ members, (∀ name items, (name, .arr items) ∈ members →
      ∀ item ∈ items, motive item) → motive (.obj members)) (value : Json) : motive value := by
  induction size : value.nesting using Nat.strongRecOn generalizing value with
  | ind size step =>
    cases value with
    | obj members =>
      refine object members fun name items present item member => ?_
      have outer := Json.nesting_lt_obj present
      have inner := Json.nesting_lt_arr member
      exact step item.nesting (by omega) item rfl
    | null | bool | num | str | arr => exact plain _ (fun _ => nofun)

theorem regular_ofJson {value : Json} {depth : Nat} (shallow : value.nesting ≤ depth)
    (distinct : value.isDistinct = true) : Regular depth (ofJson value) := by
  induction value using reading_induction generalizing depth with
  | plain value other =>
    cases value with
    | obj members => exact absurd rfl (other members)
    | str content => exact .text depth content
    | null | bool | num | arr => exact .malformed depth rfl
  | object members step =>
    have within := (Json.isDistinct_obj.mp distinct).2
    rcases ofJson_obj members with ⟨type, same⟩ | ⟨unnamed, same⟩
    · rw [same]
      have positive : 1 ≤ depth := by
        simp only [Json.nesting] at shallow
        omega
      obtain ⟨depth, rfl⟩ := Nat.exists_eq_add_of_le' positive
      refine .element ?_ ?_
      · intro entry member
        obtain ⟨props, present, given⟩ := mem_propsOf member
        have outer := Json.nesting_lt_obj present
        have inner := Json.nesting_lt_obj given
        exact ⟨(Json.isDistinct_obj.mp (within _ present)).2 _ given, by omega⟩
      · intro child member
        rcases mem_childrenOf member with ⟨content, rfl⟩ | ⟨name, items, item, present, given, rfl⟩
        · exact .text depth content
        · -- The list around the child takes one more level, which leaves room to spare.
          have outer := Json.nesting_lt_obj present
          have inner := Json.nesting_lt_arr given
          exact step name items present item given (by omega)
            (Json.isDistinct_arr.mp (within _ present) _ given)
    · rw [same]
      exact .malformed depth unnamed

theorem Integral.props {type : String} {props : List (String × Json)} {children : List Node}
    (integral : Integral (.element type props children)) {entry : String × Json}
    (inside : entry ∈ props) : entry.2.isIntegral = true :=
  integral ⟨type, props, children⟩ (by simp [elements]) entry inside

theorem Integral.child {type : String} {props : List (String × Json)} {children : List Node}
    (integral : Integral (.element type props children)) {child : Node} (inside : child ∈ children) :
    Integral child := by
  intro element present
  refine integral element ?_
  rw [elements, List.mem_cons, mem_elementsOf]
  exact .inr ⟨child, inside, present⟩

end Node

/-- A plan whose root, if there is one, was read from JSON within the depth limit. -/
def Regular (plan : Plan) : Prop := ∀ root, plan.layout = some root → root.Regular Json.depthLimit

/-- No prop in the plan holds a double. -/
def Integral (plan : Plan) : Prop :=
  ∀ element ∈ plan.elements, ∀ entry ∈ element.props, entry.2.isIntegral = true

theorem Integral.root {plan : Plan} (integral : plan.Integral) {root : Node}
    (layout : plan.layout = some root) : root.Integral := by
  intro element inside
  exact integral element (by simpa [elements, layout] using inside)

theorem regular_ofJson {value : Json} (shallow : value.nesting ≤ Json.depthLimit)
    (distinct : value.isDistinct = true) : (ofJson value).Regular := by
  intro root layout
  unfold ofJson at layout
  split at layout
  · cases layout
  · cases layout
  · rename_i read _ found
    obtain ⟨rfl⟩ := layout
    unfold Json.member? at found
    split at found
    · rename_i members
      have inside := Table.mem_of_get? found
      have lower := Json.nesting_lt_obj inside
      exact Node.regular_ofJson (by omega) ((Json.isDistinct_obj.mp distinct).2 _ inside)
    · cases found

/-- Every plan that was read is regular, as the JSON reader has a depth limit. -/
theorem regular_of_parse {source : List Char} {plan : Plan} (ok : parse source = .ok plan) :
    plan.Regular := by
  obtain ⟨value, parsed, rfl⟩ := except_map_ok ok
  exact regular_ofJson (Json.nesting_le_of_parse parsed) (Json.isDistinct_of_parse parsed)

end UiPlan.Plan
