import UiPlan.Proofs.Component.Built
import UiPlan.Proofs.Tree.Height

/-! How many nodes a component puts on top of one another. Around the children it is given it puts at
most three, as a dialog does; what it builds from its props alone is at most six nodes high, and
only a table is.
-/
namespace UiPlan.Component

open UiPlan.Tree (ofTag heightOf heightOf_le_iff height_withChildren_le)

section Parts

variable {tree : Tree} {trees : List Tree} {n : Nat}

theorem height_withChildren (low : tree.height ≤ n + 1) (inside : ∀ child ∈ trees, child.height ≤ n) :
    (tree.withChildren trees).height ≤ n + 1 := by
  have bound := height_withChildren_le tree trees
  have lower := heightOf_le_iff.mpr inside
  omega

theorem height_withChild {child : Tree} (low : tree.height ≤ n + 1) (inside : child.height ≤ n) :
    (tree.withChild child).height ≤ n + 1 :=
  height_withChildren low (all_one inside)

theorem height_box {tag className : String} (inside : ∀ child ∈ trees, child.height ≤ n) :
    (box tag className trees).height ≤ n + 1 :=
  height_withChildren (by simp) inside

theorem height_textBox (tag className content : String) :
    (box tag className [.text content]).height ≤ 2 :=
  height_box (all_one (Nat.le_refl 1))

theorem height_textTag (tag content : String) : ((ofTag tag).withChild (.text content)).height ≤ 2 :=
  height_withChild (by simp) (Nat.le_refl 1)

theorem height_icon (name : String) : (icon name).height = 1 := by simp [icon]

end Parts

section Holders

variable {props : Props} {n : Nat} (positive : 1 ≤ n) (inside : ∀ child ∈ props.children, child.height ≤ n)
include positive inside

theorem height_content : ∀ child ∈ props.content, child.height ≤ n :=
  all_content (fun _ => positive) inside

private theorem height_renderButton : (renderButton props).height ≤ n + 1 :=
  height_withChildren (by simp) (height_content positive inside)

private theorem height_renderTypography : (renderTypography props).height ≤ n + 1 := by
  simp only [renderTypography]
  exact height_box (height_content positive inside)

private theorem height_renderCard : (renderCard props).height ≤ n + 2 := by
  have body : (box "div" "ui-card__body" props.content).height ≤ n + 1 :=
    height_box (height_content positive inside)
  refine height_box (all_titled (fun content => ?_) (all_one body))
  have title := height_textBox "h3" "ui-card__title" content
  omega

private theorem height_renderModal : (renderModal props).height ≤ n + 3 := by
  unfold renderModal
  split
  · have title := height_textBox "h3" "ui-modal__title" (props.textOr "title" "")
    have body : (box "div" "ui-modal__body" props.content).height ≤ n + 1 :=
      height_box (height_content positive inside)
    exact height_box (all_one (height_box (all_two (by omega) body)))
  · simp [Tree.empty, Tree.height, heightOf]

end Holders

private theorem height_renderInput (props : Props) : (renderInput props).height ≤ 3 := by
  have field : (inputField props).height = 1 := by
    unfold inputField
    split <;> simp
  exact height_box (all_titled (fun _ => height_textBox _ _ _) (all_one (by omega)))

private theorem height_renderTable (props : Props) : (renderTable props).height ≤ 6 := by
  have cells : ∀ tag value, (cell tag value).height ≤ 2 := fun tag value => height_textTag tag _
  have row : ∀ row, (tableRow row).height ≤ 3 := fun row =>
    height_withChildren (by simp) (all_map (cells "td") _)
  have titles : ((ofTag "tr").withChildren ((props.items "columns").map (cell "th"))).height ≤ 3 :=
    height_withChildren (by simp) (all_map (cells "th") _)
  have head : ((ofTag "thead").withChild
      ((ofTag "tr").withChildren ((props.items "columns").map (cell "th")))).height ≤ 4 :=
    height_withChild (by simp) titles
  have body : ((ofTag "tbody").withChildren ((props.items "rows").map tableRow)).height ≤ 4 :=
    height_withChildren (by simp) (all_map row _)
  exact height_box (all_one (height_box (all_two head body)))

private theorem height_renderSidebar (props : Props) : (renderSidebar props).height ≤ 4 := by
  have item : ∀ item, (sidebarItem (props.text? "activeItem") item).height ≤ 3 := by
    intro item
    unfold sidebarItem
    obtain ⟨label, named⟩ := itemLabel item
    have glyph := height_icon (itemGlyph label named)
    exact height_withChildren (by simp) (all_two (by omega) (height_textTag "span" label))
  exact height_box (all_map item (props.items "items"))

private theorem height_renderNavbar (props : Props) : (renderNavbar props).height ≤ 4 := by
  have brand := height_textBox "div" "ui-navbar__brand" (props.textOr "brand" "")
  have link : ∀ item, (box "li" "ui-navbar__link" [.text (displayText item)]).height ≤ 2 := fun _ =>
    height_textBox _ _ _
  exact height_box (all_two (by omega) (height_box (all_map link (props.items "items"))))

private theorem height_renderImage (props : Props) : (renderImage props).height ≤ 2 :=
  height_withChild (by simp) (by simp)

private theorem height_renderAlert (props : Props) : (renderAlert props).height ≤ 3 :=
  height_box (all_two (by simp [height_icon]) (height_textTag _ _))

namespace Chart

private theorem height_bars (data : List DataPoint) : (bars data).height ≤ 4 := by
  have each : ∀ index point, (bar (scale data) index point).height ≤ 3 := fun index point =>
    height_withChild (by simp) (height_textBox _ _ _)
  exact height_box (all_mapIdx each data)

private theorem height_line (data : List DataPoint) : (line data).height ≤ 4 := by
  have dots : ∀ place, (dot place).height ≤ 2 := fun place => by simp [dot]
  have label : ∀ point : DataPoint, (((ofTag "span").withStyle
      "font-size: 11px; color: #6b7280; min-width: 30px; text-align: center").withChild
        (.text point.label)).height ≤ 2 := fun point => height_withChild (by simp) (Nat.le_refl 1)
  refine height_box (all_two ?_ ?_)
  · refine height_withChildren (by simp) (List.forall_mem_cons.mpr ⟨by simp, ?_⟩)
    exact all_map dots (coordinates data)
  · exact height_withChildren (by simp) (all_map label data)

private theorem height_pie (data : List DataPoint) : (pie data).height ≤ 4 := by
  have item : ∀ index point, (legendItem index point).height ≤ 2 := fun index point =>
    height_box (all_two (by simp) (Nat.le_refl 1))
  exact height_box (all_two (by simp) (height_box (all_mapIdx item data)))

private theorem height_body (kind : String) (data : List DataPoint) : (body kind data).height ≤ 4 := by
  unfold body
  split
  · have notice : noData.height ≤ 2 := height_withChild (by simp) (Nat.le_refl 1)
    omega
  · split
    · exact height_bars data
    · exact height_line data
    · exact height_pie data
    · simp [Tree.empty, Tree.height, heightOf]

end Chart

private theorem height_renderChart (props : Props) : (renderChart props).height ≤ 5 := by
  refine height_box (all_titled (fun content => ?_) (all_one (Chart.height_body _ _)))
  have title := height_textBox "h4" "ui-chart__title" content
  omega

/-- A component with children of some height, at least three, is at most three nodes higher. -/
theorem height_render (component : Component) {props : Props} {n : Nat} (three : 3 ≤ n)
    (inside : ∀ child ∈ props.children, child.height ≤ n) : (component.render props).height ≤ n + 3 := by
  have positive : 1 ≤ n := by omega
  cases component with
  | button => exact Nat.le_trans (height_renderButton positive inside) (by omega)
  | card => exact Nat.le_trans (height_renderCard positive inside) (by omega)
  | input => exact Nat.le_trans (height_renderInput props) (by omega)
  | table => exact Nat.le_trans (height_renderTable props) (by omega)
  | modal => exact height_renderModal positive inside
  | sidebar => exact Nat.le_trans (height_renderSidebar props) (by omega)
  | navbar => exact Nat.le_trans (height_renderNavbar props) (by omega)
  | typography => exact Nat.le_trans (height_renderTypography positive inside) (by omega)
  | chart => exact Nat.le_trans (height_renderChart props) (by omega)
  | image => exact Nat.le_trans (height_renderImage props) (by omega)
  | alert => exact Nat.le_trans (height_renderAlert props) (by omega)
  | flex => exact Nat.le_trans (height_box (height_content positive inside)) (by omega)
  | grid => exact Nat.le_trans (height_box (height_content positive inside)) (by omega)
  | container => exact Nat.le_trans (height_box (height_content positive inside)) (by omega)

end UiPlan.Component
