import UiPlan.Proofs.Engine.Rendering

/-! What becomes of texts. A container shows its texts as one, with a space between each two, and
leaves out those that are empty. A text by itself is shown as it is, except that a tab inside it
becomes a space.
-/
namespace UiPlan

namespace Plan

def ofTexts (contents : List String) : Plan := ⟨some (.element "Container" [] (contents.map .text))⟩

def ofWords (content : String) : Plan :=
  ⟨some (.element "Typography" [("children", .str content)] [])⟩

private theorem regular_ofTexts (contents : List String) : (ofTexts contents).Regular := by
  intro root layout
  obtain rfl := Option.some.inj layout
  refine .element (by simp) fun child inside => ?_
  obtain ⟨content, _, rfl⟩ := List.mem_map.mp inside
  exact .text _ content

private theorem integral_ofTexts (contents : List String) : (ofTexts contents).Integral := by
  have noElements : Node.elementsOf (contents.map .text) = [] := by
    induction contents with
    | nil => rfl
    | cons content rest step => exact step
  simp [Integral, ofTexts, elements, Node.elements, noElements]

private theorem regular_ofWords (content : String) : (ofWords content).Regular := by
  intro root layout
  obtain rfl := Option.some.inj layout
  refine .element (List.forall_mem_singleton.mpr ⟨rfl, Nat.zero_le _⟩) (by simp)

private theorem integral_ofWords (content : String) : (ofWords content).Integral := by
  simp [Integral, ofWords, elements, Node.elements, Node.elementsOf, Json.isIntegral, Json.every,
    Json.isWhole]

end Plan

namespace Program

private theorem pieces_texts (registry : Registry) (contents : List String) :
    pieces registry (contents.map .text) = contents.map .words := by
  induction contents with
  | nil => rfl
  | cons content rest step => exact congrArg (Piece.words content :: ·) step

private theorem gather_run (run contents : List String) :
    gather run (contents.map .words) = runTerms (run ++ contents) := by
  induction contents generalizing run with
  | nil => rw [List.map_nil, gather, List.append_nil]
  | cons content rest step => rw [List.map_cons, gather, step, List.append_assoc, List.singleton_append]

private theorem outline_ofTexts (contents : List String) :
    outline .standard (.ofTexts contents) = .element "Container" [] (runTerms contents) := by
  have registered : Registry.standard.contains "Container" = true := by decide
  have inside : gather [] ((Markup.contentOf []).toList.map .words ++
      pieces .standard (contents.map .text)) = runTerms contents := by
    rw [pieces_texts]
    exact gather_run [] contents
  simp only [outline, Plan.ofTexts, Option.bind_some, piece?, registered, inside]
  rfl

private theorem outline_ofWords (content : String) :
    outline .standard (.ofWords content) = .element "Typography" [] (runTerms [content]) := by
  have registered : Registry.standard.contains "Typography" = true := by decide
  simp only [outline, Plan.ofWords, Option.bind_some, piece?, registered]
  rfl

end Program

namespace Engine

open Program (compile outline runTerms)

def runTrees (contents : List String) : List Tree :=
  if contents.all (· = "") then []
  else [.text (.ofList (Text.joinedTexts (contents.map String.toList)))]

theorem evaluateAll_runTerms (engine : Engine) (contents : List String) :
    engine.evaluateAll (runTerms contents) = .ok (runTrees contents) := by
  unfold runTerms runTrees
  split <;> rfl

private theorem textContent_runTrees (contents : List String) :
    Tree.textContentOf (runTrees contents) = .ofList (Text.joinedTexts (contents.map String.toList)) := by
  unfold runTrees
  split
  · rename_i empty
    have allEmpty : (contents.map String.toList).filter (· ≠ []) = [] := by
      simpa [List.filter_eq_nil_iff] using empty
    rw [Text.joinedTexts, allEmpty]
    rfl
  · simp [Tree.textContentOf, Tree.textContent]

def shownText (content : String) : String := .ofList (Text.shown content.toList)

theorem runTrees_singleton {content : String} (full : content ≠ "") :
    runTrees [content] = [.text (shownText content)] := by
  have nonempty : content.toList ≠ [] := by simpa using full
  simp [runTrees, full, Text.joinedTexts, nonempty, shownText]

def containerTree (children : List Tree) : Tree := .element "div" [("class", "ui-container")] children

def paragraphTree (children : List Tree) : Tree :=
  .element "p" [("class", "ui-typo ui-typo--body")] children

theorem content_of_children (children : List Tree) : (⟨[], children⟩ : Component.Props).content = children := by
  unfold Component.Props.content
  split
  · rename_i empty
    exact (List.isEmpty_iff.mp empty).symm
  · rfl

/-- A container with texts shows them as one run. -/
theorem render_ofTexts (contents : List String) :
    standard.render (compile .standard (.ofTexts contents)).code =
      .ok (.tree (containerTree (runTrees contents))) := by
  have resolved : standard.resolve? "Container" = some .container := by decide
  have evaluated : standard.evaluate (outline .standard (.ofTexts contents)) =
      .ok [containerTree (runTrees contents)] := by
    rw [Program.outline_ofTexts]
    have built : Component.renderContainer ⟨[], runTrees contents⟩ = containerTree (runTrees contents) := by
      unfold Component.renderContainer
      rw [content_of_children]
      rfl
    simp only [evaluate, evaluateAll_runTerms, resolved]
    exact congrArg (fun tree => Except.ok [tree]) built
  exact render_of_outline (Plan.regular_ofTexts contents) (Plan.integral_ofTexts contents) evaluated

private theorem render_ofWords (content : String) :
    standard.render (compile .standard (.ofWords content)).code =
      .ok (.tree (paragraphTree (runTrees [content]))) := by
  have resolved : standard.resolve? "Typography" = some .typography := by decide
  have evaluated : standard.evaluate (outline .standard (.ofWords content)) =
      .ok [paragraphTree (runTrees [content])] := by
    rw [Program.outline_ofWords]
    have built : Component.renderTypography ⟨[], runTrees [content]⟩ =
        paragraphTree (runTrees [content]) := by
      unfold Component.renderTypography
      rw [content_of_children]
      rfl
    simp only [evaluate, evaluateAll_runTerms, resolved]
    exact congrArg (fun tree => Except.ok [tree]) built
  exact render_of_outline (Plan.regular_ofWords content) (Plan.integral_ofWords content) evaluated

/-- A text that is not empty is all that a container or a typography shows of it. It is shown with
spaces for the tabs inside it, so it is shown as it is exactly if all its tabs are at its ends. -/
theorem render_leaf {content : String} (full : content ≠ "") :
    standard.render (compile .standard (.ofTexts [content])).code =
        .ok (.tree (containerTree [.text (shownText content)])) ∧
      standard.render (compile .standard (.ofWords content)).code =
        .ok (.tree (paragraphTree [.text (shownText content)])) ∧
      (shownText content = content ↔ '\t' ∉ Text.middle content.toList) := by
  have single := runTrees_singleton full
  refine ⟨?_, ?_, ?_⟩
  · rw [render_ofTexts, single]
  · rw [render_ofWords, single]
  · rw [← Text.shown_eq_self_iff, shownText, ← String.toList_inj, String.toList_ofList]

def guardedText : String := "\t<b>&amp;\r\n\x7b'\"\x7d  x \t"

theorem render_leaf_guardedText : guardedText ≠ "" ∧
    standard.render (compile .standard (.ofTexts [guardedText])).code =
      .ok (.tree (containerTree [.text guardedText])) ∧
    standard.render (compile .standard (.ofWords guardedText)).code =
      .ok (.tree (paragraphTree [.text guardedText])) := by
  have full : guardedText ≠ "" := by decide
  obtain ⟨contained, written, unchanged⟩ := render_leaf full
  have same : shownText guardedText = guardedText := unchanged.mpr (by decide)
  rw [same] at contained written
  exact ⟨full, contained, written⟩

/-- A tab inside a text is lost. -/
theorem leaf_loses_tab : ¬ ∀ content : String, content ≠ "" →
    ∃ tag attributes, standard.render (compile .standard (.ofTexts [content])).code =
      .ok (.tree (.element tag attributes [.text content])) := by
  intro kept
  obtain ⟨tag, attributes, same⟩ := kept "a\tb" (by decide)
  have shown := (render_ofTexts ["a\tb"]).symm.trans same
  rw [runTrees_singleton (by decide)] at shown
  have alike := Tree.element.inj (Rendered.tree.inj (Except.ok.inj shown))
  have text : shownText "a\tb" = "a\tb" := by simpa using alike.2.2
  exact absurd text (by decide)

theorem textContent_ofTexts (contents : List String) :
    (containerTree (runTrees contents)).textContent =
      .ofList (Text.joinedTexts (contents.map String.toList)) := textContent_runTrees contents

private theorem filter_map_toList (contents : List String) :
    (contents.map String.toList).filter (· ≠ []) = (contents.filter (· ≠ "")).map String.toList := by
  rw [List.filter_map]
  congr 2
  funext content
  simp

private theorem join_filter (contents : List String) :
    (String.join contents).toList = ((contents.filter (· ≠ "")).map String.toList).flatten := by
  rw [String.toList_join]
  induction contents with
  | nil => rfl
  | cons content rest step =>
    by_cases empty : content = ""
    · simp [empty, step]
    · simp [empty, step]

/-- Texts without tabs in a container are shown with a single space between each two of them,
where empty texts do not count. So nothing comes between their characters exactly if at most one
of them is not empty. -/
theorem render_siblings {contents : List String}
    (plain : ∀ content ∈ contents, '\t' ∉ content.toList) :
    ∃ tree, standard.render (compile .standard (.ofTexts contents)).code = .ok (.tree tree) ∧
      tree.textContent = " ".intercalate (contents.filter (· ≠ "")) ∧
      (tree.textContent = String.join contents ↔ (contents.filter (· ≠ "")).length ≤ 1) := by
  have joined : (containerTree (runTrees contents)).textContent =
      " ".intercalate (contents.filter (· ≠ "")) := by
    have each : ∀ item ∈ contents.map String.toList, '\t' ∉ item := List.forall_mem_map.mpr plain
    rw [textContent_ofTexts, Text.joinedTexts_of_not_mem each, filter_map_toList, ← String.toList_inj,
      String.toList_ofList, String.toList_intercalate]
    rfl
  refine ⟨_, render_ofTexts contents, joined, ?_⟩
  have parts := Text.intercalate_eq_flatten_iff (List.cons_ne_nil ' ' [])
    ((contents.filter (· ≠ "")).map String.toList)
  rw [joined, ← String.toList_inj, String.toList_intercalate, join_filter]
  simpa using parts

theorem render_siblings_three : (∀ content ∈ ["a ", "", "b"], '\t' ∉ content.toList) ∧
    ∃ tree, standard.render (compile .standard (.ofTexts ["a ", "", "b"])).code = .ok (.tree tree) ∧
      tree.textContent = "a  b" := by
  have plain : ∀ content ∈ ["a ", "", "b"], '\t' ∉ content.toList := by decide
  obtain ⟨tree, shown, same, _⟩ := render_siblings plain
  exact ⟨plain, tree, shown, same⟩

/-- Two texts gain the space between them. -/
theorem siblings_gain_space : ¬ ∀ contents : List String,
    (∀ content ∈ contents, '\t' ∉ content.toList) →
      ∃ tree, standard.render (compile .standard (.ofTexts contents)).code = .ok (.tree tree) ∧
        tree.textContent = String.join contents := by
  intro kept
  obtain ⟨tree, shown, same⟩ := kept ["a", "b"] (by decide)
  have only := (render_ofTexts ["a", "b"]).symm.trans shown
  obtain rfl : containerTree (runTrees ["a", "b"]) = tree := by simpa using only
  rw [textContent_ofTexts] at same
  exact absurd same (by decide)

end Engine

end UiPlan
