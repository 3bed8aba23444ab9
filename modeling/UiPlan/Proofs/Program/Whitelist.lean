import UiPlan.Check.Props
import UiPlan.Proofs.Program.Lines

/-! What a program imports, what it is said to use and what the reader finds in it are the same
components, all of them registered. If the plan passes the check, they are also what the plan
names: nothing is refused, and nothing is left out.
-/
namespace UiPlan.Program

open Plan (Node)

namespace Markup

structure Keeps (tags blocked : List String) (elements : List Plan.Element) : Prop where
  shown : tags = elements.map (·.type)
  unblocked : blocked = []

mutual
theorem keeps_of_nodeViolations {registry : Registry} {path : String} (node : Node)
    (clean : Check.nodeViolations registry path node = []) :
    ∃ markup, ofNode? registry node = some markup ∧
      Keeps markup.tags markup.blockedNames node.elements := by
  match node with
  | .text content => exact ⟨.text content, rfl, rfl, rfl⟩
  | .malformed value => exact absurd clean (Check.nodeViolations_malformed_ne_nil registry path value)
  | .element type props children =>
    rw [Check.nodeViolations] at clean
    obtain ⟨own, below⟩ := List.append_eq_nil_iff.mp clean
    obtain ⟨typed, registered⟩ := Check.registered_of_typeViolations own
    obtain ⟨shown, unblocked⟩ := keeps_of_childViolations children below
    refine ⟨.element type (attributesOf props) (contentOf props) (ofNodes registry children), ?_, ?_, ?_⟩
    · rw [ofNode?, if_neg typed, if_pos registered]
    · rw [tags, shown, Node.elements, List.map_cons]
    · rw [blockedNames, unblocked]

theorem keeps_of_childViolations {registry : Registry} {path : String} {index : Nat}
    (nodes : List Node) (clean : Check.childViolations registry path index nodes = []) :
    Keeps (tagsOf (ofNodes registry nodes)) (blockedNamesOf (ofNodes registry nodes))
      (Node.elementsOf nodes) := by
  match nodes with
  | [] => exact ⟨rfl, rfl⟩
  | node :: rest =>
    rw [Check.childViolations] at clean
    obtain ⟨here, behind⟩ := List.append_eq_nil_iff.mp clean
    obtain ⟨markup, found, own⟩ := keeps_of_nodeViolations node here
    obtain ⟨shown, unblocked⟩ := keeps_of_childViolations rest behind
    constructor
    · simp only [ofNodes, found, tagsOf, Node.elementsOf, List.map_append, own.shown, shown]
    · simp only [ofNodes, found, blockedNamesOf, own.unblocked, unblocked, List.append_nil]
end

mutual
theorem tags_settled (markup : Markup) : markup.settled.tags = markup.tags := by
  match markup with
  | .text _ | .blocked _ => rfl
  | .element tag attributes content children => rw [settled, tags, tags, tagsOf_settledOf children]

theorem tagsOf_settledOf (markups : List Markup) : tagsOf (settledOf markups) = tagsOf markups := by
  match markups with
  | [] => rfl
  | markup :: rest => rw [settledOf, tagsOf, tagsOf, tags_settled markup, tagsOf_settledOf rest]
end

end Markup

def componentTags (term : Term) : List String := term.tags.filter (· ≠ fragment)

/-- An artifact tells, in its list and in its import, which components its term uses. -/
structure Artifact.Announces (artifact : Artifact) (registry : Registry) (term : Term) : Prop where
  once : artifact.usedComponents.Nodup
  registered : ∀ name ∈ artifact.usedComponents, name ∈ registry.names
  found : artifact.usedComponents = (componentTags term).eraseDups
  imported : artifact.usedComponents ≠ [] →
    ∃ rest, artifact.code = importText artifact.usedComponents ++ "\n" ++ rest
  bare : artifact.usedComponents = [] → ∀ line ∈ linesOf artifact.code.toList, beginsImport line = false

/-- An artifact shows all elements of a plan and refuses none. -/
structure Artifact.Completes (artifact : Artifact) (plan : Plan) (term : Term) : Prop where
  uncommented : ∀ line ∈ linesOf artifact.code.toList, opensComment line = false
  used : artifact.usedComponents = (plan.elements.map (·.type)).eraseDups
  drawn : componentTags term = plan.elements.map (·.type)

theorem componentTags_rootTerm {registry : Registry} (apart : fragment ∉ registry.names) {node : Node}
    {markup : Markup} (found : Markup.ofNode? registry node = some markup) :
    componentTags markup.settled.rootTerm = markup.tags := by
  have all : markup.tags.filter (· ≠ fragment) = markup.tags := by
    apply List.filter_eq_self.mpr
    intro tag inside
    have registered := Markup.contains_of_mem_tags node found tag inside
    rw [Registry.contains_iff_mem_names] at registered
    simp only [decide_eq_true_eq]
    rintro rfl
    exact apart registered
  unfold componentTags
  rcases Markup.tags_rootTerm markup.settled with same | ⟨wrapped, untagged⟩
  · rw [same, Markup.tags_settled, all]
  · rw [Markup.tags_settled] at untagged
    rw [wrapped, untagged]
    rfl

theorem announces_fallback (registry : Registry) : Artifact.fallback.Announces registry placeholder where
  once := List.nodup_nil
  registered := nofun
  found := rfl
  imported := fun nonempty => absurd rfl nonempty
  bare := fun _ => by decide +kernel

/-- A program imports what it uses, in the order of the first uses. -/
theorem announces_ofMarkup {registry : Registry} (apart : fragment ∉ registry.names) {depth : Nat}
    {node : Node} {markup : Markup} (writable : markup.Writable depth)
    (found : Markup.ofNode? registry node = some markup) :
    (Artifact.ofMarkup markup).Announces registry markup.settled.rootTerm where
  once := Markup.nodup_recordUses markup
  registered := fun name inside =>
    (registry.contains_iff_mem_names name).mp
      (Markup.contains_of_mem_tags node found name (Markup.mem_recordUses.mp inside))
  found := by rw [componentTags_rootTerm apart found, ← Markup.recordUses_nil]; rfl
  imported := fun nonempty => by
    have uses : markup.recordUses [] ≠ [] := nonempty
    refine ⟨.ofList ('\n' :: (entryOpening.toList ++ bodyText markup.emitRoot)), ?_⟩
    apply String.toList_inj.mp
    rw [toList_code, toList_importLine uses]
    simp only [String.toList_append, String.toList_ofList, List.append_assoc]
    rfl
  bare := fun empty => by
    have uses : markup.recordUses [] = [] := empty
    have opened : (importLine []).toList = [] := rfl
    rw [toList_code, uses, opened, List.nil_append]
    exact beginsImport_of_keepsLines (keepsLines_entryOpening (keepsLines_bodyText writable))

/-- A program that keeps every element of a plan has neither a comment nor a missing type. -/
theorem completes_ofMarkup {registry : Registry} (apart : fragment ∉ registry.names) {depth : Nat}
    {plan : Plan} {root : Node} (layout : plan.layout = some root) {markup : Markup}
    (writable : markup.Writable depth) (found : Markup.ofNode? registry root = some markup)
    (keeps : Markup.Keeps markup.tags markup.blockedNames root.elements) :
    (Artifact.ofMarkup markup).Completes plan markup.settled.rootTerm := by
  have elements : plan.elements = root.elements := by simp [Plan.elements, layout]
  refine ⟨(noComment_code writable).mpr keeps.unblocked, ?_, ?_⟩
  · rw [elements, ← keeps.shown, ← Markup.recordUses_nil]
    rfl
  · rw [elements, ← keeps.shown, componentTags_rootTerm apart found]

/-- Compiling a plan that was read gives a program whose components are announced; if the check finds
nothing in the plan, they are all of the plan's. -/
theorem uses_compile {registry : Registry} (tags : NamesTags registry) (apart : fragment ∉ registry.names)
    {plan : Plan} (regular : plan.Regular) :
    ∃ term, parse (declarations (compile registry plan).code.toList) = .ok [⟨entryPoint, [], some term⟩] ∧
      (compile registry plan).Announces registry term ∧
      (Check.violations registry false plan = [] → (compile registry plan).Completes plan term) := by
  cases layout : plan.layout with
  | none =>
    rw [compile, layout]
    refine ⟨placeholder, parse_fallback, announces_fallback registry, fun valid => ?_⟩
    simp [Check.violations, Check.structureViolations, layout] at valid
  | some root =>
    have rooted := regular root layout
    rw [compile, layout]
    simp only [compileNode]
    -- A root without violations is always written, so only a markup completes the plan.
    have whole : Check.violations registry false plan = [] →
        ∃ markup, Markup.ofNode? registry root = some markup ∧
          Markup.Keeps markup.tags markup.blockedNames root.elements := by
      intro valid
      have clean : Check.nodeViolations registry Check.rootPath root = [] := by
        simpa [Check.violations, Check.structureViolations, layout] using valid
      exact Markup.keeps_of_nodeViolations root clean
    cases found : Markup.ofNode? registry root with
    | none =>
      refine ⟨placeholder, parse_fallback, announces_fallback registry, fun valid => ?_⟩
      obtain ⟨markup, other, _⟩ := whole valid
      rw [found] at other
      cases other
    | some markup =>
      have writable := writable_ofNode? tags (Nat.le_refl _) rooted found
      refine ⟨markup.settled.rootTerm, parse_ofMarkup writable (Nat.le_refl _),
        announces_ofMarkup apart writable found, fun valid => ?_⟩
      obtain ⟨same, other, keeps⟩ := whole valid
      obtain rfl := Option.some.inj (found.symm.trans other)
      exact completes_ofMarkup apart layout writable found keeps

/-- Whatever text a plan was read from, the program that is compiled from it imports exactly the
components that the reader finds in it, and no others than the registered ones. If the check
finds nothing in the plan, nothing the plan names is refused or missing. -/
theorem uses_compile_standard {source : List Char} {plan : Plan} (ok : Plan.parse source = .ok plan) :
    ∃ term, parse (declarations (compile .standard plan).code.toList) = .ok [⟨entryPoint, [], some term⟩] ∧
      (compile .standard plan).Announces .standard term ∧
      (Check.violations .standard false plan = [] → (compile .standard plan).Completes plan term) := by
  have apart : fragment ∉ Registry.standard.names := by decide
  exact uses_compile namesTags_standard apart (Plan.regular_of_parse ok)

theorem uses_compile_grid :
    Plan.parse ("\x7b\"layout\":\x7b\"type\":\"Grid\",\"children\":" ++
      "[\x7b\"type\":\"Card\"\x7d,\x7b\"type\":\"Card\"\x7d]\x7d\x7d").toList =
        .ok ⟨some (.element "Grid" [] [.element "Card" [] [], .element "Card" [] []])⟩ ∧
      ∃ term, componentTags term = ["Grid", "Card", "Card"] ∧
        (compile .standard ⟨some (.element "Grid" [] [.element "Card" [] [], .element "Card" [] []])⟩).Announces
          .standard term := by
  have read : Plan.parse ("\x7b\"layout\":\x7b\"type\":\"Grid\",\"children\":" ++
      "[\x7b\"type\":\"Card\"\x7d,\x7b\"type\":\"Card\"\x7d]\x7d\x7d").toList =
        .ok ⟨some (.element "Grid" [] [.element "Card" [] [], .element "Card" [] []])⟩ := by
    simp only [String.toList_append, String.reduceToList]
    rfl
  have valid : Check.violations .standard false
      ⟨some (.element "Grid" [] [.element "Card" [] [], .element "Card" [] []])⟩ = [] := by
    have grid : Registry.standard.contains "Grid" = true := by decide
    have card : Registry.standard.contains "Card" = true := by decide
    simp [Check.violations, Check.structureViolations, Check.nodeViolations, Check.childViolations,
      Check.typeViolations, grid, card]
  obtain ⟨term, _, announced, completed⟩ := uses_compile_standard read
  exact ⟨read, term, (completed valid).drawn, announced⟩

end UiPlan.Program
