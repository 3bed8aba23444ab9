import UiPlan.Registry.Basic

/-! The fourteen standard components, in the order in which they are announced. -/
namespace UiPlan.Registry

private def prop (name : String) (kind : PropKind) : PropSpec := { name := name, kind := kind }

private def choiceOr (name : String) (values : List String) (default : String) : PropSpec :=
  { name := name, kind := .enum, values := values, default := some (.str default) }

private def listOf (name items : String) : PropSpec :=
  { name := name, kind := .array, items := some items }

private def needed (spec : PropSpec) : PropSpec := { spec with required := true }

private def told (spec : PropSpec) (description : String) : PropSpec :=
  { spec with description := some description }

private def orElse (spec : PropSpec) (default : Json) : PropSpec :=
  { spec with default := some default }

private def children : PropSpec := needed (prop "children" .node)

private def gap : PropSpec := choiceOr "gap" ["sm", "md", "lg"] "md"

private def component (name description : String) (props : List PropSpec) : ComponentSpec :=
  ⟨name, description, props⟩

def standardSpecs : List ComponentSpec :=
  [component "Button" "A clickable button"
     [told (needed (prop "children" .string)) "Button label text",
      choiceOr "variant" ["primary", "secondary", "outline", "danger"] "primary",
      choiceOr "size" ["sm", "md", "lg"] "md",
      orElse (prop "disabled" .boolean) (.bool false),
      told (prop "onClick" .string) "What happens when clicked (just a description)"],
   component "Card" "A container with a border and padding, used to group related content"
     [told (prop "title" .string) "Card header title",
      told children "Content inside the card"],
   component "Input" "A text input field"
     [told (prop "label" .string) "Label above the input",
      told (prop "placeholder" .string) "Placeholder text",
      choiceOr "type" ["text", "email", "password", "number", "search"] "text",
      orElse (prop "disabled" .boolean) (.bool false)],
   component "Table" "A data table that shows rows and columns"
     [told (needed (listOf "columns" "string")) "Column header names",
      told (needed (listOf "rows" "array")) "2D array of cell values"],
   component "Modal" "A popup dialog/overlay"
     [told (needed (prop "title" .string)) "Modal title",
      orElse (prop "isOpen" .boolean) (.bool true),
      told children "Content inside the modal"],
   component "Sidebar" "A vertical navigation panel on the left side"
     [told (needed (listOf "items" "object")) "Array of \x7blabel, icon\x7d objects",
      told (prop "activeItem" .string) "Currently active item label"],
   component "Navbar" "A horizontal navigation bar at the top"
     [told (prop "brand" .string) "Brand/logo text",
      told (listOf "items" "string") "Navigation link labels"],
   component "Typography" "Text element for headings and body text"
     [choiceOr "variant" ["h1", "h2", "h3", "h4", "body", "caption"] "body",
      told (needed (prop "children" .string)) "The text content"],
   component "Chart" "A simple chart/graph (uses mocked data)"
     [choiceOr "type" ["bar", "line", "pie"] "bar",
      told (prop "title" .string) "Chart title",
      told (listOf "data" "object") ("Array of objects. Each object MUST have 'label' (string) and " ++
        "'value' (number). Example: [\x7b'label': 'A', 'value': 10\x7d]")],
   component "Image" "An image placeholder"
     [told (orElse (prop "src" .string) (.str "https://placehold.co/600x400"))
        "Image URL (e.g. 'https://placehold.co/600x400')",
      told (needed (prop "alt" .string)) "Alt text for the image",
      told (orElse (prop "width" .string) (.str "100%")) "Width of the image",
      told (orElse (prop "height" .string) (.str "auto")) "Height of the image"],
   component "Alert" "A notification/alert banner"
     [told (needed (prop "message" .string)) "Alert message",
      choiceOr "type" ["info", "success", "warning", "error"] "info"],
   component "Flex" "A flexbox layout container to arrange children horizontally or vertically"
     [choiceOr "direction" ["row", "column"] "row",
      gap,
      choiceOr "align" ["start", "center", "end", "stretch"] "stretch",
      choiceOr "justify" ["start", "center", "end", "between", "around"] "start",
      orElse (prop "wrap" .boolean) (.bool false),
      children],
   component "Grid" "A CSS grid layout container"
     [told (orElse (prop "columns" .number) (.ofNat 2)) "Number of columns",
      gap,
      children],
   component "Container" "A centered content wrapper with max-width" [children]]

def standard : Registry := .ofList standardSpecs

end UiPlan.Registry
