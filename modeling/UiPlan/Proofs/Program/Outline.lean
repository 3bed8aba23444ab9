import UiPlan.Program.Compile
import UiPlan.Program.Term
import UiPlan.Proofs.Plan.Reading
import UiPlan.Proofs.Text.Cleaning

/-! The term a plan stands for, read directly off its nodes. The contents of an element
are pieces: words, terms, and gaps, which show nothing but keep the words around them
apart. Neighbouring words form a run, and a run becomes one text. Nothing here speaks of
program text.
-/
namespace UiPlan.Program

open Plan (Node)

inductive Piece where
  | words (content : String)
  | gap
  | term (term : Term)

/-- What a run of neighbouring words becomes: one text, or nothing if all are empty. -/
def runTerms (run : List String) : List Term :=
  if run.all (· = "") then []
  else [.text (.ofList (Text.joinedTexts (run.map String.toList)))]

def gather (run : List String) : List Piece → List Term
  | [] => runTerms run
  | .words content :: rest => gather (run ++ [content]) rest
  | .gap :: rest => runTerms run ++ gather [] rest
  | .term term :: rest => runTerms run ++ term :: gather [] rest

mutual
/-- An element of a registered type is a term with the props that can be written, in
their order. A string under `children` stands in front of the children. -/
def piece? (registry : Registry) : Node → Option Piece
  | .text content => some (.words content)
  | .element type props children =>
    if type = "" then none
    else if registry.contains type then
      some (.term (.element type
        (props.filter fun entry => entry.1 ≠ "children" && isPropName entry.1.toList)
        (gather [] ((Markup.contentOf props).toList.map .words ++ pieces registry children))))
    else some .gap
  | .malformed _ => none

def pieces (registry : Registry) : List Node → List Piece
  | [] => []
  | node :: rest => (piece? registry node).toList ++ pieces registry rest
end

def placeholder : Term := .element fragment [] [.text "No UI generated yet."]

/-- The term of a plan. A root that is no component stands inside a fragment. -/
def outline (registry : Registry) (plan : Plan) : Term :=
  match plan.layout.bind (piece? registry) with
  | none => placeholder
  | some (.term term) => term
  | some other => .element fragment [] (gather [] [other])

section Common

variable {good : Term → Prop} {registry : Registry}

theorem all_runTerms (text : ∀ content, good (.text content)) (run : List String) :
    ∀ term ∈ runTerms run, good term := by
  unfold runTerms
  split
  · simp
  · exact List.forall_mem_singleton.mpr (text _)

theorem all_gather (text : ∀ content, good (.text content)) {all : List Piece}
    (each : ∀ term, .term term ∈ all → good term) (run : List String) :
    ∀ term ∈ gather run all, good term := by
  induction all generalizing run with
  | nil => exact all_runTerms text run
  | cons piece rest step =>
    have behind := step fun term inside => each term (by simp [inside])
    cases piece with
    | words content => exact behind (run ++ [content])
    | gap =>
      rw [gather]
      exact List.forall_mem_append.mpr ⟨all_runTerms text run, behind []⟩
    | term own =>
      have here : good own := each own List.mem_cons_self
      rw [gather]
      exact List.forall_mem_append.mpr
        ⟨all_runTerms text run, List.forall_mem_cons.mpr ⟨here, behind []⟩⟩

def Shows (registry : Registry) (good : Term → Prop) (given : Plan.Element) : Prop :=
  registry.contains given.type = true → ∀ terms, (∀ term ∈ terms, good term) →
    good (.element given.type (Markup.attributesOf given.props) terms)

mutual
theorem all_piece? (text : ∀ content, good (.text content)) (node : Node)
    (shown : ∀ given ∈ node.elements, Shows registry good given) :
    ∀ term, piece? registry node = some (.term term) → good term := by
  match node with
  | .text _ => simp [piece?]
  | .malformed _ => simp [piece?]
  | .element type props children =>
    obtain ⟨own, deeper⟩ := List.forall_mem_cons.mp shown
    intro term same
    rw [piece?] at same
    split at same
    · cases same
    · split at same
      · rename_i registered
        obtain rfl := Piece.term.inj (Option.some.inj same)
        refine own registered _ (all_gather text ?_ [])
        intro inner inside
        rcases List.mem_append.mp inside with front | back
        · simp at front
        · exact all_pieces text children deeper inner back
      · cases same

theorem all_pieces (text : ∀ content, good (.text content)) (nodes : List Node)
    (shown : ∀ given ∈ Node.elementsOf nodes, Shows registry good given) :
    ∀ term, .term term ∈ pieces registry nodes → good term := by
  match nodes with
  | [] => simp [pieces]
  | node :: rest =>
    obtain ⟨here, behind⟩ := List.forall_mem_append.mp shown
    intro term inside
    rw [pieces, List.mem_append, Option.mem_toList] at inside
    exact inside.elim (all_piece? text node here term) (all_pieces text rest behind term)
end

/-- What texts and fragments have, and every element shown passes on from its contents, the outline
of the plan has. -/
theorem all_outline {plan : Plan} (text : ∀ content, good (.text content))
    (fragments : ∀ terms, (∀ term ∈ terms, good term) → good (.element fragment [] terms))
    (shown : ∀ given ∈ plan.elements, Shows registry good given) : good (outline registry plan) := by
  unfold outline
  split
  · exact fragments _ (List.forall_mem_singleton.mpr (text _))
  · rename_i term found
    obtain ⟨root, layout, same⟩ := Option.bind_eq_some_iff.mp found
    refine all_piece? text root ?_ term same
    simpa [Plan.elements, layout] using shown
  · rename_i other plain _
    refine fragments _ (all_gather text ?_ [])
    intro term inside
    exact absurd (List.mem_singleton.mp inside).symm (plain term)

end Common

namespace Markup

mutual
def piece : Markup → Piece
  | .text content => .words content
  | .blocked _ => .gap
  | .element tag attributes content children =>
    .term (.element tag attributes (gather content.toList (piecesOf children)))

def piecesOf : List Markup → List Piece
  | [] => []
  | markup :: rest => markup.piece :: piecesOf rest
end

def rootTerm : Markup → Term
  | .element tag attributes content children =>
    .element tag attributes (gather content.toList (piecesOf children))
  | other => .element fragment [] (gather [] [other.piece])

end Markup

private theorem gather_words (run : List String) (content : Option String) (rest : List Piece) :
    gather run (content.toList.map .words ++ rest) = gather (run ++ content.toList) rest := by
  cases content <;> simp [gather]

theorem ofMalformed?_of_namesType (registry : Registry) {value : Json}
    (unnamed : Node.namesType value = false) : Markup.ofMalformed? registry value = none := by
  unfold Markup.ofMalformed?
  split
  · rename_i name found
    simp [Node.namesType, found] at unnamed
  · rfl

private theorem pieces_eq_of_forall {registry : Registry} {nodes : List Node}
    (each : ∀ node ∈ nodes, piece? registry node = (Markup.ofNode? registry node).map Markup.piece) :
    pieces registry nodes = Markup.piecesOf (Markup.ofNodes registry nodes) := by
  induction nodes with
  | nil => rfl
  | cons node rest step =>
    rw [pieces, Markup.ofNodes, each node (by simp), step fun other inside => each other (by simp [inside])]
    cases Markup.ofNode? registry node <;> rfl

/-- The compiler sees in a node what the outline shows. -/
theorem piece?_eq (registry : Registry) {depth : Nat} {node : Node} (regular : node.Regular depth) :
    piece? registry node = (Markup.ofNode? registry node).map Markup.piece := by
  induction regular with
  | text => rfl
  | malformed _ unnamed =>
    rw [Markup.ofNode?, ofMalformed?_of_namesType registry unnamed]
    rfl
  | element _ _ step =>
    rw [piece?, Markup.ofNode?, pieces_eq_of_forall step, gather_words]
    split
    · rfl
    · split <;> rfl

end UiPlan.Program
