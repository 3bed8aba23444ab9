import UiPlan.Proofs.Component.Height
import UiPlan.Proofs.Engine.Closure
import UiPlan.Proofs.Program.Nesting

/-! How high a rendered tree is. Each level of a term makes at most three levels of the tree, and what
a term holds at its deepest level is at most six nodes high, so the bound that the reader puts on
terms is one on trees.
-/
namespace UiPlan.Engine

open Program (Term)
open UiPlan.Tree (Branch WalkedWithin heightOf heightOf_le_iff walkedWithin_of_height_le)

variable {engine : Engine}

theorem height_of_literalTrees (value : Json) {trees : List Tree}
    (ok : literalTrees value = .ok trees) : ∀ tree ∈ trees, tree.height ≤ 1 :=
  good_of_literalTrees (fun _ => Nat.le_refl 1) value ok

theorem height_group {trees : List Tree} {n : Nat} (inside : ∀ tree ∈ trees, tree.height ≤ n) :
    (Tree.group trees).height ≤ n + 1 :=
  Nat.succ_le_succ (heightOf_le_iff.mpr inside)

mutual
/-- Each level of a term adds three nodes at most, and three are enough for a leaf. -/
theorem height_of_evaluate (term : Term) {trees : List Tree}
    (ok : engine.evaluate term = .ok trees) : ∀ tree ∈ trees, tree.height ≤ 3 * term.depth + 3 := by
  match term with
  | .text content =>
    obtain rfl := Except.ok.inj ok
    simp
  | .literal value =>
    intro tree member
    have low := height_of_literalTrees value ok tree member
    omega
  | .group children =>
    obtain ⟨inner, found, rfl⟩ := evaluate_group_iff.mp ok
    have whole := height_group (height_of_evaluateAll children found)
    rw [Term.depth, List.forall_mem_singleton]
    omega
  | .element tag attributes children =>
    obtain ⟨inner, found, here⟩ := evaluate_element_iff.mp ok
    have inside := height_of_evaluateAll children found
    rcases here with ⟨_, rfl⟩ | ⟨_, component, _, rfl⟩
    · have whole := height_group inside
      rw [Term.depth, List.forall_mem_singleton]
      omega
    · have whole : (component.render ⟨attributeValues attributes, inner⟩).height ≤ _ :=
        Component.height_render component (Nat.le_add_left 3 _) inside
      rw [Term.depth, List.forall_mem_singleton]
      omega

theorem height_of_evaluateAll (terms : List Term) {trees : List Tree}
    (ok : engine.evaluateAll terms = .ok trees) :
    ∀ tree ∈ trees, tree.height ≤ 3 * Term.depthOf terms + 3 := by
  match terms with
  | [] =>
    obtain rfl := Except.ok.inj ok
    simp
  | term :: rest =>
    obtain ⟨first, more, found, others, rfl⟩ := evaluateAll_cons_iff.mp ok
    intro tree member
    rw [Term.depthOf]
    rcases List.mem_append.mp member with front | back
    · have low := height_of_evaluate term found tree front
      omega
    · have low := height_of_evaluateAll rest others tree back
      omega
end

/-- Only a literal makes more than one tree, and so the group that holds them adds no height to what
an element makes. -/
theorem height_ofTrees {term : Term} {trees : List Tree} {tree : Tree}
    (evaluated : engine.evaluate term = .ok trees) (shown : Rendered.ofTrees trees = .tree tree) :
    tree.height ≤ 3 * term.depth + 3 := by
  have each := height_of_evaluate term evaluated
  unfold Rendered.ofTrees at shown
  split at shown
  · cases shown
  · obtain rfl := Rendered.tree.inj shown
    exact each _ (by simp)
  · rename_i single
    obtain rfl := Rendered.tree.inj shown
    cases term with
    | text content =>
      obtain rfl := Except.ok.inj evaluated
      exact absurd rfl (single _)
    | literal value =>
      have whole := height_group (height_of_literalTrees value evaluated)
      omega
    | group children =>
      obtain ⟨inner, _, rfl⟩ := evaluate_group_iff.mp evaluated
      exact absurd rfl (single _)
    | element tag attributes children =>
      obtain ⟨inner, _, here⟩ := evaluate_element_iff.mp evaluated
      rcases here with ⟨_, rfl⟩ | ⟨_, component, _, rfl⟩ <;> exact absurd rfl (single _)

private theorem depth_le_of_returned? {code : String} {term : Term} (returned : returned? code = some term) :
    term.depth ≤ 200 := by
  obtain ⟨functions, function, parsed, entered, body⟩ := function_of_returned? returned
  have member : function ∈ functions := by
    unfold entryPoint? at entered
    split at entered
    · rename_i found
      split at entered
      · obtain rfl := Option.some.inj entered
        exact List.mem_reverse.mp (List.mem_of_find?_eq_some found)
      · cases entered
    · cases entered
  exact Program.bounded_of_parse parsed function member term body

/-- Whatever a program says, the term it returns has no more than 200 elements and groups inside one
another, and the tree it renders has no branch of more than 603 nodes. So no walk over the tree has
more than 603 calls open at once. -/
theorem render_height {code : String} {tree : Tree} (ok : engine.render code = .ok (.tree tree)) :
    (∃ term, returned? code = some term ∧ term.depth ≤ 200) ∧
      (∀ path, Branch tree path → path.length ≤ 3 * 200 + 3) ∧ WalkedWithin (3 * 200 + 3) tree := by
  obtain ⟨term, trees, returned, evaluated, shown⟩ := evaluate_returned? ok
  have shallow := depth_le_of_returned? returned
  have low := height_ofTrees evaluated shown
  refine ⟨⟨term, returned, shallow⟩, fun path branch => ?_, ?_⟩
  · have long := branch.length_le
    omega
  · exact walkedWithin_of_height_le (by omega)

def tableDialogCode : String :=
  "function GeneratedUI() \x7b return <Modal><Table rows=\x7b[[\"x\"]]\x7d /></Modal> \x7d"

def tableDialog : Tree :=
  .element "div" [("class", "ui-modal-overlay")] [.element "div" [("class", "ui-modal")]
    [.element "h3" [("class", "ui-modal__title")] [.text ""],
      .element "div" [("class", "ui-modal__body")]
        [.element "div" [("class", "ui-table-wrapper")] [.element "table" [("class", "ui-table")]
          [.element "thead" [] [.element "tr" [] []],
            .element "tbody" [] [.element "tr" [] [.element "td" [] [.text "x"]]]]]]]]

theorem render_height_tableDialog :
    standard.render tableDialogCode = .ok (.tree tableDialog) ∧ tableDialog.height = 3 * 2 + 3 ∧
      (∃ term, returned? tableDialogCode = some term ∧ term.depth ≤ 200) ∧
      (∀ path, Branch tableDialog path → path.length ≤ 3 * 200 + 3) ∧
        WalkedWithin (3 * 200 + 3) tableDialog := by
  have modal : standard.resolve? "Modal" = some .modal := by decide
  have table : standard.resolve? "Table" = some .table := by decide
  have parsed : Program.parse (Program.declarations tableDialogCode.toList) =
      .ok [⟨"GeneratedUI", [], some (.element "Modal" []
        [.element "Table" [("rows", .arr [.arr [.str "x"]])] []])⟩] := by
    simp only [tableDialogCode, String.reduceToList]
    rfl
  have solid : (Text.trim tableDialogCode.toList).isEmpty = false := by
    simp only [tableDialogCode, String.reduceToList]
    rfl
  have evaluated : standard.evaluate (.element "Modal" []
      [.element "Table" [("rows", .arr [.arr [.str "x"]])] []]) = .ok [tableDialog] := by
    simp only [evaluate, evaluateAll, modal, table]
    rfl
  have rendered : standard.render tableDialogCode = .ok (.tree tableDialog) :=
    render_of_evaluate solid parsed rfl rfl evaluated
  exact ⟨rendered, by decide, render_height rendered⟩

end UiPlan.Engine
