import UiPlan.Component.Library
import UiPlan.Proofs.Tree.Styled

/-! Every component builds a hosted tree when its children are, with attributes of a kind. The texts
of a program only ever become texts and the values of attributes; a tag that depends on a prop is
taken from a list. Most attributes are the same whatever the props are, or are neither classes nor
types; the few classes and types that are made from props are listed for each component, and what
they have to fit is left open.
-/
namespace UiPlan.Component

open UiPlan.Tree (Built Ready Sets ofTag built_text built_group built_ofTag ready_ofTag
  hostAttributes solidTags)

section Children

variable {good : Tree → Prop}

theorem all_one {tree : Tree} (only : good tree) : ∀ child ∈ [tree], good child :=
  List.forall_mem_singleton.mpr only

theorem all_two {first second : Tree} (front : good first) (back : good second) :
    ∀ child ∈ [first, second], good child :=
  List.forall_mem_cons.mpr ⟨front, all_one back⟩

theorem all_map {α : Type} {tree : α → Tree} (each : ∀ item, good (tree item)) (items : List α) :
    ∀ child ∈ items.map tree, good child :=
  List.forall_mem_map.mpr fun item _ => each item

theorem all_mapIdx {α : Type} {tree : Nat → α → Tree} (each : ∀ index item, good (tree index item))
    (items : List α) : ∀ child ∈ items.mapIdx tree, good child := by
  intro child member
  obtain ⟨index, _, rfl⟩ := List.mem_mapIdx.mp member
  exact each index _

theorem all_option {α : Type} {tree : α → Tree} (each : ∀ item, good (tree item))
    (item : Option α) : ∀ child ∈ (item.map tree).toList, good child := by
  intro child member
  rw [Option.mem_toList, Option.map_eq_some_iff] at member
  obtain ⟨present, _, rfl⟩ := member
  exact each present

theorem all_titled {heading : String → Tree} {title : Option String} {rest : List Tree}
    (head : ∀ content, good (heading content)) (behind : ∀ child ∈ rest, good child) :
    ∀ child ∈ (title.map heading).toList ++ rest, good child := by
  intro child member
  rcases List.mem_append.mp member with front | back
  · exact all_option head title child front
  · exact behind child back

theorem all_content {props : Props} (text : ∀ content, good (.text content))
    (inside : ∀ child ∈ props.children, good child) : ∀ child ∈ props.content, good child := by
  unfold Props.content
  split
  · exact all_option text _
  · exact inside

end Children

def iconNames : List String :=
  ["check-circle", "alert-triangle", "x-circle", "info", "home", "settings", "user", "bar-chart",
    "pie-chart", "file-text", "credit-card", "users", "layout"]

def fixedClasses : List String :=
  ["ui-input", "ui-input-group", "ui-input-group__label", "ui-table-wrapper", "ui-table",
    "ui-image-container", "ui-card", "ui-card__title", "ui-card__body", "ui-container",
    "ui-modal-overlay", "ui-modal", "ui-modal__title", "ui-modal__body", "ui-navbar",
    "ui-navbar__brand", "ui-navbar__link", "ui-navbar__links", "ui-sidebar", "ui-sidebar__item",
    "ui-sidebar__item ui-sidebar__item--active", "ui-chart", "ui-chart__title", "ui-chart__bars",
    "ui-chart__bar", "ui-chart__bar-label", "ui-chart__line-container", "ui-chart__pie",
    "ui-chart__pie-visual", "ui-chart__pie-legend", "ui-chart__pie-legend-item",
    "ui-chart__pie-legend-dot"] ++ iconNames.map ("ui-icon ui-icon--" ++ ·)

def chosenStyles (props : Props) : Component → List (String × String)
  | .button => [("class", buttonClass props)]
  | .input => [("type", props.textOr "type" "text")]
  | .typography => [("class", typographyClass props)]
  | .alert => [("class", alertClass props)]
  | .flex => [("class", flexClass props)]
  | .grid => [("class", gridClass props)]
  | _ => []

def isPlain (name : String) : Bool := hostAttributes.contains name && name ≠ "class" && name ≠ "type"

structure Lenient (fit : String → String → Prop) : Prop where
  plain : ∀ name value, isPlain name = true → fit name value
  fixed : ∀ value ∈ fixedClasses, fit "class" value

variable {fit : String → String → Prop} {props : Props}

theorem built_box {tag className : String} {children : List Tree}
    (solid : solidTags.contains tag = true) (fits : fit "class" className)
    (inside : ∀ child ∈ children, Built fit child) : Built fit (box tag className children) :=
  (ready_ofTag tag solid).withAttribute ⟨rfl, fits⟩ |>.withChildren inside

theorem built_textTag {tag content : String} (solid : solidTags.contains tag = true) :
    Built fit ((ofTag tag).withChild (.text content)) :=
  (ready_ofTag tag solid).withChild (built_text content)

namespace Lenient

variable (lenient : Lenient fit)
include lenient

theorem sets (name value : String) (plain : isPlain name = true) : Sets fit name value := by
  refine ⟨?_, lenient.plain name value plain⟩
  simp only [isPlain, Bool.and_eq_true] at plain
  exact plain.1.1

theorem style (value : String) : Sets fit "style" value := lenient.sets _ _ (by decide)

theorem className (value : String) (fixed : fixedClasses.contains value = true) :
    Sets fit "class" value :=
  ⟨rfl, lenient.fixed value (List.contains_iff_mem.mp fixed)⟩

theorem box {tag className : String} {children : List Tree}
    (fixed : fixedClasses.contains className = true ∧ solidTags.contains tag = true)
    (inside : ∀ child ∈ children, Built fit child) :
    Built fit (Component.box tag className children) :=
  built_box fixed.2 (lenient.className className fixed.1).fits inside

theorem textBox {tag className content : String}
    (fixed : fixedClasses.contains className = true ∧ solidTags.contains tag = true) :
    Built fit (Component.box tag className [.text content]) :=
  lenient.box fixed (all_one (built_text content))

theorem icon {name : String} (known : name ∈ iconNames) : Built fit (Component.icon name) := by
  have fixed : "ui-icon ui-icon--" ++ name ∈ fixedClasses :=
    List.mem_append_right _ (List.mem_map_of_mem known)
  exact (built_ofTag "span" rfl).withAttribute ⟨rfl, lenient.fixed _ fixed⟩
    |>.withAttribute (lenient.sets "aria-hidden" "true" (by decide))

end Lenient

private theorem alertIcon_mem (kind : String) : alertIcon kind ∈ iconNames := by
  unfold alertIcon
  split <;> decide

theorem glyph?_mem {name glyph : String} (found : glyph? name = some glyph) : glyph ∈ iconNames := by
  unfold glyph? at found
  split at found <;> simp_all [iconNames]

private theorem itemGlyph_mem (label : String) (icon : Option String) : itemGlyph label icon ∈ iconNames := by
  unfold itemGlyph
  cases found : (glyph? label).or (icon.bind glyph?) with
  | none => decide
  | some glyph =>
    rcases Option.or_eq_some_iff.mp found with own | ⟨_, named⟩
    · exact glyph?_mem own
    · obtain ⟨name, _, given⟩ := Option.bind_eq_some_iff.mp named
      exact glyph?_mem given

private theorem headingTags_solid : ∀ tag ∈ headingTags, solidTags.contains tag = true := by decide

section Components

variable (lenient : Lenient fit)
include lenient

private theorem built_renderButton (fits : fit "class" (buttonClass props))
    (inside : ∀ child ∈ props.children, Built fit child) : Built fit (renderButton props) := by
  have button := (ready_ofTag "button" rfl).withAttribute ⟨rfl, fits⟩
  have disabled := button.withFlag (props.flagOr "disabled" false)
    (lenient.sets "disabled" "" (by decide))
  exact disabled.withChildren (all_content built_text inside)

private theorem built_renderInput (fits : fit "type" (props.textOr "type" "text")) :
    Built fit (renderInput props) := by
  have field : Built fit (inputField props) := by
    have typed := (built_ofTag "input" rfl).withAttribute (lenient.className "ui-input" (by decide))
      |>.withAttribute ⟨rfl, fits⟩
    have disabled := typed.withFlag (props.flagOr "disabled" false)
      (lenient.sets "disabled" "" (by decide))
    unfold inputField
    split
    · exact disabled.withAttribute (lenient.sets "placeholder" _ (by decide))
    · exact disabled
  exact lenient.box (by decide) (all_titled (fun _ => lenient.textBox (by decide)) (all_one field))

private theorem built_renderTable (props : Props) : Built fit (renderTable props) := by
  have row : ∀ row, Built fit (tableRow row) := fun row =>
    (ready_ofTag "tr" rfl).withChildren (all_map (fun _ => built_textTag rfl) _)
  have titles : Built fit ((ofTag "tr").withChildren ((props.items "columns").map (cell "th"))) :=
    (ready_ofTag "tr" rfl).withChildren (all_map (fun _ => built_textTag rfl) _)
  have head := (ready_ofTag "thead" rfl).withChild titles
  have body := (ready_ofTag "tbody" rfl).withChildren (all_map row (props.items "rows"))
  exact lenient.box (by decide) (all_one (lenient.box (by decide) (all_two head body)))

omit lenient in
private theorem built_renderTypography (fits : fit "class" (typographyClass props))
    (inside : ∀ child ∈ props.children, Built fit child) : Built fit (renderTypography props) := by
  simp only [renderTypography]
  split
  · rename_i heading
    have solid := headingTags_solid _ (List.contains_iff_mem.mp heading)
    exact built_box solid fits (all_content built_text inside)
  · exact built_box rfl fits (all_content built_text inside)

private theorem built_renderImage (props : Props) : Built fit (renderImage props) := by
  have picture := (built_ofTag "img" rfl).withAttribute
    (lenient.sets "src" (props.textOr "src" placeholderImage) (by decide))
    |>.withAttribute (lenient.sets "alt" (props.textOr "alt" "") (by decide))
    |>.withAttribute (lenient.style "width: 100%; height: 100%; object-fit: cover")
  have frame := (ready_ofTag "div" rfl).withAttribute
    (lenient.className "ui-image-container" (by decide))
  exact (frame.withAttribute (lenient.style _)).withChild picture

private theorem built_renderAlert (fits : fit "class" (alertClass props)) : Built fit (renderAlert props) :=
  built_box rfl fits (all_two (lenient.icon (alertIcon_mem _)) (built_textTag rfl))

private theorem built_renderCard (inside : ∀ child ∈ props.children, Built fit child) :
    Built fit (renderCard props) := by
  have body : Built fit (box "div" "ui-card__body" props.content) :=
    lenient.box (by decide) (all_content built_text inside)
  exact lenient.box (by decide) (all_titled (fun _ => lenient.textBox (by decide)) (all_one body))

private theorem built_renderModal (inside : ∀ child ∈ props.children, Built fit child) :
    Built fit (renderModal props) := by
  unfold renderModal
  split
  · have title : Built fit (box "h3" "ui-modal__title" [.text (props.textOr "title" "")]) :=
      lenient.textBox (by decide)
    have body : Built fit (box "div" "ui-modal__body" props.content) :=
      lenient.box (by decide) (all_content built_text inside)
    exact lenient.box (by decide) (all_one (lenient.box (by decide) (all_two title body)))
  · exact built_group (by simp)

private theorem built_renderNavbar (props : Props) : Built fit (renderNavbar props) := by
  have brand : Built fit (box "div" "ui-navbar__brand" [.text (props.textOr "brand" "")]) :=
    lenient.textBox (by decide)
  have link : ∀ item, Built fit (box "li" "ui-navbar__link" [.text (displayText item)]) := fun _ =>
    lenient.textBox (by decide)
  have links : Built fit (box "ul" "ui-navbar__links" _) :=
    lenient.box (by decide) (all_map link (props.items "items"))
  exact lenient.box (by decide) (all_two brand links)

private theorem built_sidebarItem (active : Option String) (item : Json) :
    Built fit (sidebarItem active item) := by
  have fixed : fixedClasses.contains (if active = some (itemLabel item).1
      then "ui-sidebar__item ui-sidebar__item--active" else "ui-sidebar__item") = true := by
    split <;> decide
  have entry := (ready_ofTag "div" rfl).withAttribute (lenient.className _ fixed)
    |>.withAttribute (lenient.style "display: flex; align-items: center; gap: 10px")
  exact entry.withChildren (all_two (lenient.icon (itemGlyph_mem _ _)) (built_textTag rfl))

private theorem built_renderSidebar (props : Props) : Built fit (renderSidebar props) :=
  lenient.box (by decide) (all_map (built_sidebarItem lenient _) _)

end Components

namespace Chart

variable (lenient : Lenient fit)
include lenient

private theorem built_bar (top : Float) (index : Nat) (point : DataPoint) : Built fit (bar top index point) := by
  have column := (ready_ofTag "div" rfl).withAttribute
    (lenient.className "ui-chart__bar" (by decide))
  exact (column.withAttribute (lenient.style _)).withChild (lenient.textBox (by decide))

private theorem built_dot (place : String × String) : Built fit (dot place) := by
  have centered := (built_ofTag "circle" rfl).withAttribute (lenient.sets "cx" place.1 (by decide))
    |>.withAttribute (lenient.sets "cy" place.2 (by decide))
  exact centered.withAttribute (lenient.sets "r" "4" (by decide))
    |>.withAttribute (lenient.sets "fill" (color 0) (by decide))

private theorem built_line (data : List DataPoint) : Built fit (line data) := by
  have path := (built_ofTag "polyline" rfl).withAttribute (lenient.sets "points"
      (" ".intercalate ((coordinates data).map fun place => place.1 ++ "," ++ place.2)) (by decide))
    |>.withAttribute (lenient.sets "fill" "none" (by decide))
    |>.withAttribute (lenient.sets "stroke" (color 0) (by decide))
    |>.withAttribute (lenient.sets "stroke-width" "2" (by decide))
  have drawing := (ready_ofTag "svg" rfl).withAttribute (lenient.sets "width" "100%" (by decide))
    |>.withAttribute (lenient.sets "height" "120" (by decide))
    |>.withAttribute (lenient.style "overflow: visible")
  have graph := drawing.withChildren
    (List.forall_mem_cons.mpr ⟨path, all_map (built_dot lenient) (coordinates data)⟩)
  have label : ∀ point : DataPoint, Built fit (((ofTag "span").withStyle
      "font-size: 11px; color: #6b7280; min-width: 30px; text-align: center").withChild
        (.text point.label)) := fun point =>
    (ready_ofTag "span" rfl).withAttribute (lenient.style _) |>.withChild (built_text point.label)
  have labels := (ready_ofTag "div" rfl).withAttribute (lenient.style
      ("display: flex; justify-content: flex-start; gap: 45px; " ++
        "padding-left: 15px; overflow-x: auto"))
    |>.withChildren (all_map label data)
  exact lenient.box (by decide) (all_two graph labels)

private theorem built_legendItem (index : Nat) (point : DataPoint) : Built fit (legendItem index point) := by
  have dot := (built_ofTag "span" rfl).withAttribute
    (lenient.className "ui-chart__pie-legend-dot" (by decide))
  exact lenient.box (by decide) (all_two (dot.withAttribute (lenient.style _)) (built_text _))

private theorem built_pie (data : List DataPoint) : Built fit (pie data) := by
  have visual := (built_ofTag "div" rfl).withAttribute
    (lenient.className "ui-chart__pie-visual" (by decide))
  have legend : Built fit (box "div" "ui-chart__pie-legend" (data.mapIdx legendItem)) :=
    lenient.box (by decide) (all_mapIdx (built_legendItem lenient) data)
  exact lenient.box (by decide) (all_two (visual.withAttribute (lenient.style _)) legend)

private theorem built_body (kind : String) (data : List DataPoint) : Built fit (body kind data) := by
  unfold body
  split
  · exact (ready_ofTag "div" rfl).withAttribute (lenient.style _) |>.withChild (built_text _)
  · split
    · exact lenient.box (by decide) (all_mapIdx (built_bar lenient _) data)
    · exact built_line lenient data
    · exact built_pie lenient data
    · exact built_group (by simp)

end Chart

private theorem built_renderChart (lenient : Lenient fit) (props : Props) : Built fit (renderChart props) :=
  lenient.box (by decide) (all_titled (fun _ => lenient.textBox (by decide))
    (all_one (Chart.built_body lenient _ _)))

/-- A component with built children renders a built tree when the classes and types that it makes
from its props fit. -/
theorem built_render (lenient : Lenient fit) (component : Component)
    (chosen : ∀ entry ∈ chosenStyles props component, fit entry.1 entry.2)
    (inside : ∀ child ∈ props.children, Built fit child) : Built fit (component.render props) := by
  cases component with
  | button => exact built_renderButton lenient (chosen _ List.mem_cons_self) inside
  | card => exact built_renderCard lenient inside
  | input => exact built_renderInput lenient (chosen _ List.mem_cons_self)
  | table => exact built_renderTable lenient props
  | modal => exact built_renderModal lenient inside
  | sidebar => exact built_renderSidebar lenient props
  | navbar => exact built_renderNavbar lenient props
  | typography => exact built_renderTypography (chosen _ List.mem_cons_self) inside
  | chart => exact built_renderChart lenient props
  | image => exact built_renderImage lenient props
  | alert => exact built_renderAlert lenient (chosen _ List.mem_cons_self)
  | flex => exact built_box rfl (chosen _ List.mem_cons_self) (all_content built_text inside)
  | grid => exact built_box rfl (chosen _ List.mem_cons_self) (all_content built_text inside)
  | container => exact lenient.box (by decide) (all_content built_text inside)

end UiPlan.Component
