import UiPlan.Component.Library
import UiPlan.Proofs.Table

/-! What text components show. Some components only place what they are given: their text is the
text of their children, behind a title if they have one.
-/
namespace UiPlan

namespace Tree

theorem textContentOf_append (front back : List Tree) :
    textContentOf (front ++ back) = textContentOf front ++ textContentOf back := by
  induction front with
  | nil => simp [textContentOf]
  | cons tree rest step => simp [textContentOf, step, String.append_assoc]

end Tree

namespace Component

open UiPlan.Tree (textContentOf textContentOf_append)

theorem textContent_box (tag className : String) (children : List Tree) :
    (box tag className children).textContent = textContentOf children := rfl

variable (props : Props)

theorem textContentOf_content : textContentOf props.content =
    if props.children.isEmpty then props.textOr "children" "" else textContentOf props.children := by
  unfold Props.content Props.textOr
  split
  · cases props.text? "children" <;> simp [textContentOf, Tree.textContent]
  · rfl

def holders : List Component := [.container, .flex, .grid, .button, .typography]

/-- Nothing but the children is seen of a component that only holds them. -/
theorem textContent_render_holder {component : Component} (holder : component ∈ holders) :
    (component.render props).textContent = textContentOf props.content := by
  simp only [holders, List.mem_cons, List.not_mem_nil, or_false] at holder
  rcases holder with rfl | rfl | rfl | rfl | rfl
  · rfl
  · rfl
  · rfl
  · change (renderButton props).textContent = _
    rw [renderButton, Tree.withFlag]
    split <;> rfl
  · rfl

private theorem nonEmptyText?_eq (name : String) :
    props.nonEmptyText? name = (props.text? name).filter (· ≠ "") := by
  unfold Props.nonEmptyText?
  split
  · rename_i empty
    rw [empty]
    rfl
  · rename_i full
    cases found : props.text? name with
    | none => rfl
    | some content =>
      have other : content ≠ "" := fun empty => full (found.trans (congrArg some empty))
      simp [Option.filter, other]

/-- An empty title is not shown, and has no text either. -/
theorem textContent_renderCard : (renderCard props).textContent =
    props.textOr "title" "" ++ textContentOf props.content := by
  have title : textContentOf ((props.nonEmptyText? "title").map fun title =>
      box "h3" "ui-card__title" [.text title]).toList = props.textOr "title" "" := by
    rw [nonEmptyText?_eq, Props.textOr]
    cases props.text? "title" with
    | none => rfl
    | some content =>
      by_cases empty : content = ""
      · subst empty
        rfl
      · simp [Option.filter, empty, textContentOf, textContent_box, Tree.textContent]
  simp only [renderCard, textContent_box, textContentOf_append, title]
  simp [textContentOf, textContent_box]

/-- An open dialog shows its title, be it empty, and then its children. -/
theorem textContent_renderModal {props : Props} (opened : props.flagOr "isOpen" true = true) :
    (renderModal props).textContent = props.textOr "title" "" ++ textContentOf props.content := by
  rw [renderModal, if_pos opened]
  simp [textContentOf, textContent_box, Tree.textContent]

end Component

end UiPlan
