import UiPlan.Component.Basic
import UiPlan.Decimal.Layout

/-! Charts drawn with plain elements. Heights and points are worked out in doubles and
written as display text.
-/
namespace UiPlan.Component

open UiPlan.Tree (ofTag)

structure DataPoint where
  label : String
  value : Float

namespace Chart

def point (entry : Json) : DataPoint where
  label := match entry.member? "label" with
    | some (.str "") => "Unknown"
    | some (.str label) => label
    | some (.num label) => .ofList label.text
    | _ => "Unknown"
  value := match entry.member? "value" with
    | some (.num value) => value.toFloat
    | _ => 0

def colors : List String := ["#4f46e5", "#06b6d4", "#f59e0b", "#ef4444", "#10b981", "#8b5cf6"]

def color (index : Nat) : String := (colors[index % colors.length]?).getD ""

def shown (x : Float) : String := .ofList (Decimal.Layout.displayText.text x)

def larger (a b : Float) : Float := if a < b then b else a

def scale (data : List DataPoint) : Float := data.foldl (fun top point => larger top point.value) 1

def bar (top : Float) (index : Nat) (point : DataPoint) : Tree :=
  let height := larger (point.value / top * 100) 4
  (((ofTag "div").withClass "ui-chart__bar").withStyle
    ("height: " ++ shown height ++ "%; background: " ++ color index)).withChild
    (box "span" "ui-chart__bar-label" [.text point.label])

def bars (data : List DataPoint) : Tree :=
  box "div" "ui-chart__bars" (data.mapIdx (bar (scale data)))

def coordinates (data : List DataPoint) : List (String × String) :=
  let top := scale data
  data.mapIdx fun index point =>
    (shown (.ofNat index * 60 + 30), shown (120 - point.value / top * 100))

def dot (place : String × String) : Tree :=
  ((((ofTag "circle").withAttribute "cx" place.1).withAttribute "cy" place.2).withAttribute
    "r" "4").withAttribute "fill" (color 0)

def line (data : List DataPoint) : Tree :=
  let places := coordinates data
  let path := (((((ofTag "polyline").withAttribute "points"
    (" ".intercalate (places.map fun place => place.1 ++ "," ++ place.2))).withAttribute
    "fill" "none").withAttribute "stroke" (color 0)).withAttribute "stroke-width" "2")
  let drawing := (((ofTag "svg").withAttribute "width" "100%").withAttribute "height" "120").withStyle
    "overflow: visible"
  let labels := ((ofTag "div").withStyle ("display: flex; justify-content: flex-start; gap: 45px; " ++
    "padding-left: 15px; overflow-x: auto")).withChildren (data.map fun point =>
      ((ofTag "span").withStyle
        "font-size: 11px; color: #6b7280; min-width: 30px; text-align: center").withChild
        (.text point.label))
  box "div" "ui-chart__line-container" [drawing.withChildren (path :: places.map dot), labels]

def stops (total : Float) (start : Float) (index : Nat) : List DataPoint → List String
  | [] => []
  | point :: rest =>
    let finish := start + point.value / total * 100
    (color index ++ " " ++ shown start ++ "% " ++ shown finish ++ "%") ::
      stops total finish (index + 1) rest

def legendItem (index : Nat) (point : DataPoint) : Tree :=
  box "div" "ui-chart__pie-legend-item"
    [((ofTag "span").withClass "ui-chart__pie-legend-dot").withStyle ("background: " ++ color index),
      .text (point.label ++ ": " ++ shown point.value)]

def pie (data : List DataPoint) : Tree :=
  let sum := data.foldl (fun sum point => sum + point.value) 0
  let total := if sum == 0 then 1 else sum
  let slices := ", ".intercalate (stops total 0 0 data)
  box "div" "ui-chart__pie"
    [((ofTag "div").withClass "ui-chart__pie-visual").withStyle
      ("background: conic-gradient(" ++ slices ++ ")"),
      box "div" "ui-chart__pie-legend" (data.mapIdx legendItem)]

def noData : Tree :=
  ((ofTag "div").withStyle ("padding: 20px; text-align: center; color: #6b7280; " ++
    "background: #f9fafb; border-radius: 8px")).withChild (.text "No chart data available")

def body (kind : String) (data : List DataPoint) : Tree :=
  if data.isEmpty then noData
  else match kind with
    | "bar" => bars data
    | "line" => line data
    | "pie" => pie data
    | _ => Tree.empty

end Chart

def renderChart (props : Props) : Tree :=
  let title := (props.nonEmptyText? "title").map fun title => box "h4" "ui-chart__title" [.text title]
  box "div" "ui-chart" (title.toList ++
    [Chart.body (props.textOr "type" "bar") ((props.items "data").map Chart.point)])

end UiPlan.Component
