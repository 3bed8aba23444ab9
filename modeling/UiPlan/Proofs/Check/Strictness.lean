import Mathlib.Data.List.Basic
import UiPlan.Check.Props
import UiPlan.Proofs.Check.RawNodes
import UiPlan.Registry.Standard

/-! The strict check told by the elements of a plan. An element is reached by its place, which says
the child to take on each level, and the elements come in the order of their places. On an element
whose type is registered the strict check finds first the required props it lacks and then each prop
it should not have, or not with that value. Nothing else sets the strict check apart from the lenient
one, so a plan without violations is one whose elements all conform to their declarations.
-/
namespace UiPlan

def PropSpec.Admits (prop : PropSpec) (value : Json) : Prop :=
  match prop.kind with
  | .string => ∃ text, value = .str text
  | .boolean => ∃ flag, value = .bool flag
  | .number => ∃ number, value = .num number
  | .enum => ∃ text ∈ prop.values, value = .str text
  | .array => ∃ items, value = .arr items
  | .node =>
    (∃ text, value = .str text) ∨ (∃ items, value = .arr items) ∨ ∃ members, value = .obj members

theorem PropSpec.accepts_iff_admits (prop : PropSpec) (value : Json) :
    prop.accepts value = true ↔ prop.Admits value := by
  unfold accepts Admits
  cases prop.kind <;> cases value <;> simp

instance (prop : PropSpec) (value : Json) : Decidable (prop.Admits value) :=
  decidable_of_iff _ (prop.accepts_iff_admits value)

def ComponentSpec.Unambiguous (spec : ComponentSpec) : Prop := (spec.props.map PropSpec.name).Nodup

instance (spec : ComponentSpec) : Decidable spec.Unambiguous := inferInstanceAs (Decidable (List.Nodup _))

def Registry.Unambiguous (registry : Registry) : Prop := ∀ spec ∈ registry.components, spec.Unambiguous

theorem Registry.Unambiguous.of_get? {registry : Registry} (unambiguous : registry.Unambiguous)
    {name : String} {spec : ComponentSpec} (found : registry.get? name = some spec) : spec.Unambiguous :=
  unambiguous spec (List.mem_of_find?_eq_some found)

theorem Registry.unambiguous_standard : standard.Unambiguous := by
  unfold Unambiguous
  decide

namespace Plan

def Element.Provides (given : Element) (name : String) : Prop :=
  name ∈ given.props.map Prod.fst ∨ name = "children" ∧ given.children ≠ []

instance (given : Element) (name : String) : Decidable (given.Provides name) :=
  inferInstanceAs (Decidable (_ ∨ _ ∧ _))

/-- Every required prop is provided, and only declared props are given, with values they admit. -/
structure Element.ConformsTo (given : Element) (spec : ComponentSpec) : Prop where
  required : ∀ prop ∈ spec.props, prop.required = true → given.Provides prop.name
  declared : ∀ entry ∈ given.props, ∃ prop ∈ spec.props, prop.name = entry.1 ∧ prop.Admits entry.2

namespace Node

def elementAt? : List Nat → Node → Option Element
  | [], .element type props children => some ⟨type, props, children⟩
  | index :: place, .element _ _ children => children[index]?.bind (elementAt? place)
  | _, _ => none

mutual
/-- The elements with their places, each before those below it. -/
def placed : Node → List (List Nat × Element)
  | .element type props children => ([], ⟨type, props, children⟩) :: placedOf 0 children
  | _ => []

def placedOf (index : Nat) : List Node → List (List Nat × Element)
  | [] => []
  | child :: rest =>
    child.placed.map (fun entry => (index :: entry.1, entry.2)) ++ placedOf (index + 1) rest
end

mutual
theorem mem_placed (node : Node) (place : List Nat) (given : Element) :
    (place, given) ∈ node.placed ↔ node.elementAt? place = some given := by
  match node with
  | .text _ | .malformed _ => cases place <;> simp [placed, elementAt?]
  | .element type props children =>
    rw [placed, List.mem_cons, mem_placedOf children]
    cases place with
    | nil => simp [elementAt?, eq_comm]
    | cons index place => simp [elementAt?]

theorem mem_placedOf (nodes : List Node) (index : Nat) (place : List Nat) (given : Element) :
    (place, given) ∈ placedOf index nodes ↔ ∃ offset rest, place = (index + offset) :: rest ∧
      nodes[offset]?.bind (elementAt? rest) = some given := by
  match nodes with
  | [] => simp [placedOf]
  | node :: rest =>
    rw [placedOf, List.mem_append, List.mem_map, mem_placedOf rest]
    constructor
    · rintro (⟨⟨inner, other⟩, inside, same⟩ | ⟨offset, inner, rfl, found⟩)
      · obtain ⟨rfl, rfl⟩ := Prod.mk.inj same
        exact ⟨0, inner, rfl, (mem_placed node inner other).mp inside⟩
      · exact ⟨offset + 1, inner, by congr 1; omega, found⟩
    · rintro ⟨offset, inner, rfl, found⟩
      cases offset with
      | zero => exact .inl ⟨(inner, given), (mem_placed node inner given).mpr found, rfl⟩
      | succ offset => exact .inr ⟨offset, inner, by congr 1; omega, found⟩
end

/- The lexicographic order of places is the order of a walk that takes an element before those below
it and the children one after the other. -/
mutual
theorem ordered_placed (node : Node) : (node.placed.map Prod.fst).Pairwise (· < ·) := by
  match node with
  | .text _ | .malformed _ => exact .nil
  | .element type props children =>
    rw [placed, List.map_cons, List.pairwise_cons]
    refine ⟨fun place inside => ?_, ordered_placedOf children 0⟩
    obtain ⟨⟨_, given⟩, found, rfl⟩ := List.mem_map.mp inside
    obtain ⟨offset, rest, rfl, _⟩ := (mem_placedOf children 0 _ given).mp found
    exact List.nil_lt_cons _ _

theorem ordered_placedOf (nodes : List Node) (index : Nat) :
    ((placedOf index nodes).map Prod.fst).Pairwise (· < ·) := by
  match nodes with
  | [] => exact .nil
  | node :: rest =>
    rw [placedOf, List.map_append, List.map_map, List.pairwise_append]
    refine ⟨?_, ordered_placedOf rest (index + 1), fun first here later there => ?_⟩
    · have inner := List.pairwise_map.mp (ordered_placed node)
      exact List.pairwise_map.mpr (inner.imp fun below => List.cons_lt_cons_self.mpr below)
    · obtain ⟨⟨inner, given⟩, _, rfl⟩ := List.mem_map.mp here
      obtain ⟨⟨_, other⟩, found, rfl⟩ := List.mem_map.mp there
      obtain ⟨offset, outer, rfl, _⟩ := (mem_placedOf rest (index + 1) _ other).mp found
      exact List.cons_lt_cons_iff.mpr (.inl (by omega))
end

end Node

def placed (plan : Plan) : List (List Nat × Element) := (plan.layout.map Node.placed).getD []

def elementAt? (plan : Plan) (place : List Nat) : Option Element :=
  plan.layout.bind (Node.elementAt? place)

theorem mem_placed {plan : Plan} {place : List Nat} {given : Element} :
    (place, given) ∈ plan.placed ↔ plan.elementAt? place = some given := by
  unfold placed elementAt?
  cases plan.layout with
  | none => simp
  | some root => simpa using Node.mem_placed root place given

theorem ordered_placed (plan : Plan) : (plan.placed.map Prod.fst).Pairwise (· < ·) := by
  unfold placed
  cases plan.layout with
  | none => exact .nil
  | some root => exact Node.ordered_placed root

end Plan

namespace Check

open Plan (Node Element)

def lacking (spec : ComponentSpec) (path : String) (given : Element) : List Violation :=
  (spec.props.filter fun prop => prop.required = true ∧ ¬given.Provides prop.name).map
    fun prop => missingProp spec path prop.name

def unfit (spec : ComponentSpec) (path : String) (entry : String × Json) : List Violation :=
  if ∀ prop ∈ spec.props, prop.name ≠ entry.1 then [unknownProp spec path entry.1]
  else (spec.props.filter fun prop => prop.name = entry.1 ∧ ¬prop.Admits entry.2).map
    fun prop => invalidProp spec prop path entry.1 entry.2

/-- What the declaration finds wrong with an element; a type that is not registered has none. -/
def faults (registry : Registry) (path : String) (given : Element) : List Violation :=
  match registry.get? given.type with
  | none => []
  | some spec => lacking spec path given ++ given.props.flatMap (unfit spec path)

section Declared

variable {spec : ComponentSpec}

private theorem filter_declared {props : List PropSpec} (distinct : (props.map PropSpec.name).Nodup)
    {prop : PropSpec} (inside : prop ∈ props) (wrong : PropSpec → Prop) [DecidablePred wrong] :
    props.filter (fun other => other.name = prop.name ∧ wrong other) = if wrong prop then [prop] else [] := by
  obtain ⟨before, behind, rfl⟩ := List.append_of_mem inside
  rw [List.map_append, List.map_cons, List.nodup_append, List.nodup_cons] at distinct
  obtain ⟨_, ⟨notBehind, _⟩, apart⟩ := distinct
  have dropped {others : List PropSpec} (absent : ∀ other ∈ others, other.name ≠ prop.name) :
      others.filter (fun other => other.name = prop.name ∧ wrong other) = [] := by
    rw [List.filter_eq_nil_iff]
    intro other member
    simp [absent other member]
  have early := dropped fun other member => apart _ (List.mem_map_of_mem member) prop.name (by simp)
  have late := dropped fun other member same => notBehind (same ▸ List.mem_map_of_mem member)
  rw [List.filter_append, List.filter_cons, early, late]
  by_cases bad : wrong prop
  · simp [bad]
  · simp [bad]

theorem unfit_of_undeclared {path : String} {entry : String × Json}
    (undeclared : ∀ prop ∈ spec.props, prop.name ≠ entry.1) :
    unfit spec path entry = [unknownProp spec path entry.1] := if_pos undeclared

theorem unfit_of_declared (unambiguous : spec.Unambiguous) {prop : PropSpec} (inside : prop ∈ spec.props)
    (path : String) (value : Json) :
    unfit spec path (prop.name, value) =
      if prop.Admits value then [] else [invalidProp spec prop path prop.name value] := by
  have declared : ¬∀ other ∈ spec.props, other.name ≠ prop.name := fun undeclared => undeclared prop inside rfl
  rw [unfit, if_neg declared, filter_declared unambiguous inside fun other => ¬other.Admits value]
  by_cases admits : prop.Admits value
  · simp [admits]
  · simp [admits]

private theorem toList_propViolation? (unambiguous : spec.Unambiguous) (path : String) (entry : String × Json) :
    (propViolation? spec path entry).toList = unfit spec path entry := by
  obtain ⟨name, value⟩ := entry
  unfold propViolation?
  cases found : spec.prop? name with
  | none =>
    have undeclared : ∀ prop ∈ spec.props, prop.name ≠ name := by
      simpa [ComponentSpec.prop?] using found
    rw [unfit_of_undeclared undeclared]
    rfl
  | some prop =>
    have inside : prop ∈ spec.props := List.mem_of_find?_eq_some found
    have named : prop.name = name := by simpa using List.find?_some found
    subst named
    rw [unfit_of_declared unambiguous inside]
    simp only [prop.accepts_iff_admits]
    split <;> rfl

private theorem provides_iff (given : Element) (name : String) :
    provides given.props given.children name = true ↔ given.Provides name := by
  simp [provides, Element.Provides, Table.has_iff_mem_keys, Table.keys]

theorem elementViolations_eq (unambiguous : spec.Unambiguous) (path : String) (given : Element) :
    elementViolations spec path given.props given.children =
      lacking spec path given ++ given.props.flatMap (unfit spec path) := by
  have absent : missingProps spec path given.props given.children = lacking spec path given := by
    simp only [missingProps, lacking, ← provides_iff]
    congr 2
    funext prop
    simp
  have wrong : given.props.filterMap (propViolation? spec path) =
      given.props.flatMap (unfit spec path) := by
    rw [List.filterMap_eq_flatMap_toList]
    exact List.flatMap_congr fun entry _ => toList_propViolation? unambiguous path entry
  rw [elementViolations, absent, wrong]

private theorem lacking_eq_nil_iff {path : String} {given : Element} :
    lacking spec path given = [] ↔
      ∀ prop ∈ spec.props, prop.required = true → given.Provides prop.name := by
  simp [lacking, List.filter_eq_nil_iff]

private theorem unfit_eq_nil_iff (unambiguous : spec.Unambiguous) {path : String} {entry : String × Json} :
    unfit spec path entry = [] ↔ ∃ prop ∈ spec.props, prop.name = entry.1 ∧ prop.Admits entry.2 := by
  obtain ⟨name, value⟩ := entry
  constructor
  · intro clean
    by_cases undeclared : ∀ prop ∈ spec.props, prop.name ≠ name
    · rw [unfit_of_undeclared undeclared] at clean
      cases clean
    · push Not at undeclared
      obtain ⟨prop, inside, rfl⟩ := undeclared
      rw [unfit_of_declared unambiguous inside] at clean
      by_cases admits : prop.Admits value
      · exact ⟨prop, inside, rfl, admits⟩
      · rw [if_neg admits] at clean
        cases clean
  · rintro ⟨prop, inside, rfl, admits⟩
    rw [unfit_of_declared unambiguous inside, if_pos admits]

end Declared

section Walk

variable {registry : Registry}

theorem faults_eq_nil_iff (unambiguous : registry.Unambiguous) {path : String} {given : Element}
    {spec : ComponentSpec} (found : registry.get? given.type = some spec) :
    faults registry path given = [] ↔ given.ConformsTo spec := by
  have fit (entry : String × Json) : unfit spec path entry = [] ↔
      ∃ prop ∈ spec.props, prop.name = entry.1 ∧ prop.Admits entry.2 :=
    unfit_eq_nil_iff (unambiguous.of_get? found)
  rw [faults, found]
  dsimp only
  rw [List.append_eq_nil_iff, lacking_eq_nil_iff, List.flatMap_eq_nil_iff]
  simp only [fit]
  constructor
  · exact fun ⟨required, declared⟩ => ⟨required, declared⟩
  · exact fun conforms => ⟨conforms.required, conforms.declared⟩

mutual
theorem propViolationsAt_eq (unambiguous : registry.Unambiguous) (path : String) (node : Node) :
    propViolationsAt registry path node =
      node.placed.flatMap fun entry => faults registry (entry.1.foldl childPath path) entry.2 := by
  match node with
  | .text _ | .malformed _ => rfl
  | .element type props children =>
    rw [propViolationsAt, Node.placed, List.flatMap_cons,
      ← propViolationsOf_eq unambiguous path 0 children, faults, List.foldl_nil]
    cases found : registry.get? type with
    | none => rfl
    | some spec =>
      have own := elementViolations_eq (unambiguous.of_get? found) path ⟨type, props, children⟩
      exact congrArg (· ++ _) own

theorem propViolationsOf_eq (unambiguous : registry.Unambiguous) (path : String) (index : Nat)
    (nodes : List Node) :
    propViolationsOf registry path index nodes =
      (Node.placedOf index nodes).flatMap fun entry =>
        faults registry (entry.1.foldl childPath path) entry.2 := by
  match nodes with
  | [] => rfl
  | node :: rest =>
    -- Below the child the path begins with the step to it, as the place does.
    rw [propViolationsOf, Node.placedOf, List.flatMap_append, List.flatMap_map,
      propViolationsAt_eq unambiguous _ node, propViolationsOf_eq unambiguous path (index + 1) rest]
    rfl
end

private theorem propViolations_eq (unambiguous : registry.Unambiguous) (plan : Plan) :
    propViolations registry plan =
      plan.placed.flatMap fun entry => faults registry (pathText entry.1) entry.2 := by
  unfold propViolations Plan.placed
  cases plan.layout with
  | none => rfl
  | some root => exact propViolationsAt_eq unambiguous rootPath root

private theorem childViolations_eq_nil {path : String} {index : Nat} {nodes : List Node}
    (clean : childViolations registry path index nodes = []) {offset : Nat} {node : Node}
    (found : nodes[offset]? = some node) :
    nodeViolations registry (childPath path (index + offset)) node = [] := by
  induction nodes generalizing index offset with
  | nil => cases found
  | cons first rest step =>
    rw [childViolations] at clean
    obtain ⟨here, behind⟩ := List.append_eq_nil_iff.mp clean
    cases offset with
    | zero =>
      obtain rfl := Option.some.inj found
      exact here
    | succ offset =>
      rw [← Nat.succ_add_eq_add_succ]
      exact step behind found

private theorem registered_of_nodeViolations {path : String} {node : Node}
    (clean : nodeViolations registry path node = []) {place : List Nat} {given : Element}
    (found : node.elementAt? place = some given) : ∃ spec, registry.get? given.type = some spec := by
  induction place generalizing path node with
  | nil =>
    cases node with
    | text | malformed => cases found
    | element type props children =>
      obtain rfl := Option.some.inj found
      rw [nodeViolations] at clean
      have own := registered_of_typeViolations (List.append_eq_nil_iff.mp clean).1
      exact Option.isSome_iff_exists.mp own.2
  | cons index place step =>
    cases node with
    | text | malformed => cases found
    | element type props children =>
      rw [nodeViolations] at clean
      obtain ⟨child, taken, below⟩ := Option.bind_eq_some_iff.mp found
      exact step (childViolations_eq_nil (List.append_eq_nil_iff.mp clean).2 taken) below

theorem registered_of_violations {plan : Plan} (clean : violations registry false plan = [])
    {place : List Nat} {given : Element} (found : plan.elementAt? place = some given) :
    ∃ spec, registry.get? given.type = some spec := by
  have structural := (List.append_eq_nil_iff.mp clean).1
  obtain ⟨root, layout, below⟩ := Option.bind_eq_some_iff.mp found
  rw [structureViolations, layout] at structural
  exact registered_of_nodeViolations structural below

end Walk

/-- The strict check adds to the lenient one what is wrong with each element at its path, for the
elements that a place leads to, all of them once and in the order of their places. It finds nothing
iff the lenient check does not and every element conforms to the declaration of its type. -/
theorem strict_violations_of_elements {registry : Registry} (unambiguous : registry.Unambiguous)
    (plan : Plan) :
    violations registry true plan = violations registry false plan ++
        plan.placed.flatMap (fun entry => faults registry (pathText entry.1) entry.2) ∧
      (∀ place given, (place, given) ∈ plan.placed ↔ plan.elementAt? place = some given) ∧
      (plan.placed.map Prod.fst).Pairwise (· < ·) ∧
      (violations registry true plan = [] ↔ violations registry false plan = [] ∧
        ∀ place given, plan.elementAt? place = some given →
          ∃ spec, registry.get? given.type = some spec ∧ given.ConformsTo spec) := by
  have told : violations registry true plan = violations registry false plan ++
      plan.placed.flatMap (fun entry => faults registry (pathText entry.1) entry.2) := by
    simp [violations, propViolations_eq unambiguous]
  refine ⟨told, fun _ _ => Plan.mem_placed, plan.ordered_placed, ?_⟩
  rw [told, List.append_eq_nil_iff, List.flatMap_eq_nil_iff]
  refine and_congr_right fun structural => ?_
  constructor
  · intro clean place given found
    obtain ⟨spec, registered⟩ := registered_of_violations structural found
    have own := clean (place, given) (Plan.mem_placed.mpr found)
    exact ⟨spec, registered, (faults_eq_nil_iff unambiguous registered).mp own⟩
  · rintro conforms ⟨place, given⟩ inside
    obtain ⟨spec, registered, conforming⟩ := conforms place given (Plan.mem_placed.mp inside)
    exact (faults_eq_nil_iff unambiguous registered).mpr conforming

def savePanel : Plan :=
  ⟨some (.element "Panel" []
    [.text "Save?", .element "Button" [("size", .str "xl"), ("icon", .null)] []])⟩

theorem strict_violations_of_savePanel : Registry.standard.Unambiguous ∧
    violations .standard true savePanel = violations .standard false savePanel ++
      [⟨.missingRequiredProp, "Component \"Button\" at layout.children[1] is missing required prop " ++
          "\"children\"", some "layout.children[1]"⟩,
        ⟨.invalidPropValue, "Prop \"size\" of \"Button\" expects one of: sm, md, lg, got \"xl\"",
          some "layout.children[1].props.size"⟩,
        ⟨.unknownProp, "Component \"Button\" has no prop \"icon\"",
          some "layout.children[1].props.icon"⟩] := by
  refine ⟨Registry.unambiguous_standard, ?_⟩
  rw [(strict_violations_of_elements Registry.unambiguous_standard savePanel).1]
  rfl

end Check

end UiPlan
