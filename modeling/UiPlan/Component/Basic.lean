import UiPlan.Component.Props
import UiPlan.Decimal.Rounding

/-! The simple components: each turns its props and children into a tree of host
elements.
-/
namespace UiPlan.Component

open UiPlan.Tree (ofTag)

def box (tag className : String) (children : List Tree) : Tree :=
  ((ofTag tag).withClass className).withChildren children

def icon (name : String) : Tree :=
  ((ofTag "span").withClass ("ui-icon ui-icon--" ++ name)).withAttribute "aria-hidden" "true"

def buttonClass (props : Props) : String :=
  "ui-btn ui-btn--" ++ props.textOr "variant" "primary" ++ " ui-btn--" ++ props.textOr "size" "md"

def renderButton (props : Props) : Tree :=
  (((ofTag "button").withClass (buttonClass props)).withFlag "disabled"
    (props.flagOr "disabled" false)).withChildren props.content

def inputField (props : Props) : Tree :=
  let field := (((ofTag "input").withClass "ui-input").withAttribute "type"
    (props.textOr "type" "text")).withFlag "disabled" (props.flagOr "disabled" false)
  match props.text? "placeholder" with
  | some placeholder => field.withAttribute "placeholder" placeholder
  | none => field

def renderInput (props : Props) : Tree :=
  let label := (props.nonEmptyText? "label").map fun label =>
    box "label" "ui-input-group__label" [.text label]
  box "div" "ui-input-group" (label.toList ++ [inputField props])

def cell (tag : String) (value : Json) : Tree := (ofTag tag).withChild (.text (displayText value))

def tableRow (row : Json) : Tree := (ofTag "tr").withChildren ((row.items?.getD []).map (cell "td"))

def renderTable (props : Props) : Tree :=
  let header := (ofTag "tr").withChildren ((props.items "columns").map (cell "th"))
  let rows := (props.items "rows").map tableRow
  box "div" "ui-table-wrapper" [box "table" "ui-table"
    [(ofTag "thead").withChild header, (ofTag "tbody").withChildren rows]]

def headingTags : List String := ["h1", "h2", "h3", "h4"]

def typographyClass (props : Props) : String :=
  "ui-typo ui-typo--" ++ props.textOr "variant" "body"

def renderTypography (props : Props) : Tree :=
  let variant := props.textOr "variant" "body"
  box (if headingTags.contains variant then variant else "p") (typographyClass props) props.content

def placeholderImage : String := "https://placehold.co/600x400"

def renderImage (props : Props) : Tree :=
  let style := "width: " ++ props.textOr "width" "100%" ++ "; height: " ++
    props.textOr "height" "auto" ++ "; display: flex; justify-content: center; " ++
    "align-items: center; overflow: hidden; border-radius: 8px"
  let picture := (((ofTag "img").withAttribute "src" (props.textOr "src" placeholderImage)).withAttribute
    "alt" (props.textOr "alt" "")).withStyle "width: 100%; height: 100%; object-fit: cover"
  (((ofTag "div").withClass "ui-image-container").withStyle style).withChild picture

def alertIcon : String → String
  | "success" => "check-circle"
  | "warning" => "alert-triangle"
  | "error" => "x-circle"
  | _ => "info"

def alertClass (props : Props) : String := "ui-alert ui-alert--" ++ props.textOr "type" "info"

def renderAlert (props : Props) : Tree :=
  box "div" (alertClass props)
    [icon (alertIcon (props.textOr "type" "info")),
      (ofTag "span").withChild (.text (props.textOr "message" ""))]

def renderCard (props : Props) : Tree :=
  let title := (props.nonEmptyText? "title").map fun title => box "h3" "ui-card__title" [.text title]
  box "div" "ui-card" (title.toList ++ [box "div" "ui-card__body" props.content])

def renderContainer (props : Props) : Tree := box "div" "ui-container" props.content

def flexClass (props : Props) : String :=
  "ui-flex ui-flex--" ++ props.textOr "direction" "row" ++
    " ui-flex--gap-" ++ props.textOr "gap" "md" ++
    " ui-flex--align-" ++ props.textOr "align" "stretch" ++
    " ui-flex--justify-" ++ props.textOr "justify" "start" ++
    (if props.flagOr "wrap" false then " ui-flex--wrap" else "")

def renderFlex (props : Props) : Tree := box "div" (flexClass props) props.content

/-- Whole numbers up to four are taken as they are, or as the double nearest to them; larger
numbers are taken as four. -/
def gridColumns (props : Props) : String :=
  match props.get? "columns" with
  | none => "2"
  | some (.num (.int value _)) =>
    if 4 < value then "4" else String.ofList (Number.intText (Decimal.roundInt value))
  | some _ =>
    match props.number? "columns" with
    | none => props.textOr "columns" "2"
    | some n =>
      if 4 < n then "4"
      else if n.isFinite && n == n.floor then String.ofList (Number.intText n.toInt64.toInt)
      else props.textOr "columns" "2"

def gridClass (props : Props) : String :=
  "ui-grid ui-grid--cols-" ++ gridColumns props ++ " ui-grid--gap-" ++ props.textOr "gap" "md"

def renderGrid (props : Props) : Tree := box "div" (gridClass props) props.content

def renderModal (props : Props) : Tree :=
  if props.flagOr "isOpen" true then
    box "div" "ui-modal-overlay" [box "div" "ui-modal"
      [box "h3" "ui-modal__title" [.text (props.textOr "title" "")],
        box "div" "ui-modal__body" props.content]]
  else Tree.empty

end UiPlan.Component
