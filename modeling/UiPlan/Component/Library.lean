import UiPlan.Component.Chart
import UiPlan.Component.Navigation

/-! The component library: the components that can be rendered, by name. -/
namespace UiPlan

inductive Component where
  | button
  | card
  | input
  | table
  | modal
  | sidebar
  | navbar
  | typography
  | chart
  | image
  | alert
  | flex
  | grid
  | container
  deriving DecidableEq, Repr

namespace Component

def all : List Component :=
  [.button, .card, .input, .table, .modal, .sidebar, .navbar, .typography, .chart, .image,
    .alert, .flex, .grid, .container]

def name : Component → String
  | .button => "Button"
  | .card => "Card"
  | .input => "Input"
  | .table => "Table"
  | .modal => "Modal"
  | .sidebar => "Sidebar"
  | .navbar => "Navbar"
  | .typography => "Typography"
  | .chart => "Chart"
  | .image => "Image"
  | .alert => "Alert"
  | .flex => "Flex"
  | .grid => "Grid"
  | .container => "Container"

def ofName? (name : String) : Option Component := all.find? (·.name = name)

def render (component : Component) (props : Props) : Tree :=
  match component with
  | .button => renderButton props
  | .card => renderCard props
  | .input => renderInput props
  | .table => renderTable props
  | .modal => renderModal props
  | .sidebar => renderSidebar props
  | .navbar => renderNavbar props
  | .typography => renderTypography props
  | .chart => renderChart props
  | .image => renderImage props
  | .alert => renderAlert props
  | .flex => renderFlex props
  | .grid => renderGrid props
  | .container => renderContainer props

end Component

end UiPlan
