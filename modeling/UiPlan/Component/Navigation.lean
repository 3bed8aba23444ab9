import UiPlan.Component.Basic

/-! The two navigation components. -/
namespace UiPlan.Component

open UiPlan.Tree (ofTag)

def renderNavbar (props : Props) : Tree :=
  let links := (props.items "items").map fun item =>
    box "li" "ui-navbar__link" [.text (displayText item)]
  box "nav" "ui-navbar" [box "div" "ui-navbar__brand" [.text (props.textOr "brand" "")],
    box "ul" "ui-navbar__links" links]

def glyph? : String → Option String
  | "Home" => some "home"
  | "Settings" => some "settings"
  | "User" => some "user"
  | "Profile" => some "user"
  | "Chart" => some "bar-chart"
  | "Analytics" => some "pie-chart"
  | "Docs" => some "file-text"
  | "Billing" => some "credit-card"
  | "Users" => some "users"
  | "Dashboard" => some "layout"
  | _ => none

def itemLabel : Json → String × Option String
  | .obj members =>
    (((Table.get? members "label").map displayText).getD "",
      (Table.get? members "icon").map displayText)
  | value => (displayText value, none)

def itemGlyph (label : String) (icon : Option String) : String :=
  ((glyph? label).or (icon.bind glyph?)).getD "layout"

def sidebarItem (active : Option String) (item : Json) : Tree :=
  let (label, named) := itemLabel item
  let className := if active = some label then "ui-sidebar__item ui-sidebar__item--active"
    else "ui-sidebar__item"
  (((ofTag "div").withClass className).withStyle
    "display: flex; align-items: center; gap: 10px").withChildren
    [icon (itemGlyph label named), (ofTag "span").withChild (.text label)]

def renderSidebar (props : Props) : Tree :=
  box "nav" "ui-sidebar" ((props.items "items").map (sidebarItem (props.text? "activeItem")))

end UiPlan.Component
