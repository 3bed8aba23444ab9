import UiPlan.Plan.Fence
import UiPlan.Registry.Standard
import UiPlan.Proofs.Program.Source
import UiPlan.Proofs.Program.Uses

/-! Compiling a plan and reading the program back gives the term of its markup, with each
double replaced by what is read from its text. For a plan without doubles this is the term
that the outline reads off the plan. This holds for every plan that was read from a text
and for every registry whose names are tags.
-/
namespace UiPlan.Program

open Plan (Node)

private theorem readExpression_parens {depth : Nat} {cs tail rest after : List Char} {term : Term}
    (front : skipTrivia cs = .ok ('<' :: tail))
    (read : readElement depth ('<' :: tail) = .ok (term, rest))
    (closed : skipTrivia rest = .ok (')' :: after)) :
    readExpression (depth + 1) ('(' :: cs) = .ok (term, after) := by
  have inner : readExpression depth cs = .ok (term, rest) := by
    unfold readExpression
    simp only [front, read]
  have opened : skipTrivia ('(' :: cs) = .ok ('(' :: cs) := rfl
  have ending : expect ")" (')' :: after) = .ok after := rfl
  unfold readExpression
  simp only [opened, inner, closed, ending]
  rfl

def bodyText (root : List Char) : List Char :=
  "  return (\n".toList ++ (root ++ "\n  );\n\x7d".toList)

private theorem readBody_text {root tail : List Char} {term : Term}
    (front : ∀ rest, skipTrivia (root ++ rest) = .ok ('<' :: (tail ++ rest)))
    (read : ∀ rest, readElement 199 ('<' :: (tail ++ rest)) = .ok (term, rest)) :
    readBody ('\n' :: bodyText root) = .ok (some term, []) := by
  let ending := "\n  );\n\x7d".toList
  have entered : skipTrivia ('\n' :: bodyText root) =
      .ok ("return (\n".toList ++ (root ++ ending)) := rfl
  have returned : keyword? ['r', 'e', 't', 'u', 'r', 'n'] ("return (\n".toList ++ (root ++ ending)) =
      some (" (\n".toList ++ (root ++ ending)) := rfl
  have opened : skipTrivia (" (\n".toList ++ (root ++ ending)) = .ok ('(' :: '\n' :: (root ++ ending)) := rfl
  have begun : skipTrivia ('\n' :: (root ++ ending)) = .ok ('<' :: (tail ++ ending)) :=
    (skipTrivia_blank (by decide) _).trans (front ending)
  have closed : skipTrivia ending = .ok (')' :: ";\n\x7d".toList) := rfl
  -- The parentheses take one of the two hundred levels.
  have expression : readExpression maxDepth ('(' :: '\n' :: (root ++ ending)) =
      .ok (term, ";\n\x7d".toList) := readExpression_parens begun (read ending) closed
  have semicolon : skipTrivia ";\n\x7d".toList = .ok (';' :: "\n\x7d".toList) := rfl
  have brace : skipTrivia "\n\x7d".toList = .ok ['\x7d'] := rfl
  have value : readReturned (" (\n".toList ++ (root ++ ending)) = .ok (some term, ['\x7d']) := by
    simp only [readReturned, opened]
    split
    case h_1 same => cases same
    case h_2 same => exact absurd (Except.ok.inj same) (by simp)
    case h_3 same => exact absurd (Except.ok.inj same) (by simp)
    case h_4 same =>
      rw [← Except.ok.inj same]
      simp only [expression, semicolon, brace]
      rfl
  simp only [readBody, entered, returned, value]

private theorem readFunction_text {root tail : List Char} {term : Term}
    (front : ∀ rest, skipTrivia (root ++ rest) = .ok ('<' :: (tail ++ rest)))
    (read : ∀ rest, readElement 199 ('<' :: (tail ++ rest)) = .ok (term, rest)) :
    readFunction (" GeneratedUI() \x7b\n".toList ++ bodyText root) =
      .ok (⟨entryPoint, [], some term⟩, []) := by
  let body := bodyText root
  have body_read := readBody_text front read
  have spaced : skipTrivia (" GeneratedUI() \x7b\n".toList ++ body) =
      .ok ("GeneratedUI() \x7b\n".toList ++ body) := rfl
  have named : readName? isNameChar ("GeneratedUI() \x7b\n".toList ++ body) =
      some (entryPoint, "() \x7b\n".toList ++ body) := rfl
  have opening : skipTrivia ("() \x7b\n".toList ++ body) = .ok ("() \x7b\n".toList ++ body) := rfl
  have opened : expect "(" ("() \x7b\n".toList ++ body) = .ok (") \x7b\n".toList ++ body) := rfl
  have parameters : readParameters (") \x7b\n".toList ++ body) = .ok ([], " \x7b\n".toList ++ body) := rfl
  have braced : skipTrivia (" \x7b\n".toList ++ body) = .ok ("\x7b\n".toList ++ body) := rfl
  have entered : expect "\x7b" ("\x7b\n".toList ++ body) = .ok ('\n' :: body) := rfl
  unfold readFunction
  rw [spaced]
  simp only [named, opening, opened, parameters, braced, entered, bind, Except.bind]
  rw [body_read]
  rfl

theorem parse_text {root tail lead : List Char} {term : Term}
    (front : ∀ rest, skipTrivia (root ++ rest) = .ok ('<' :: (tail ++ rest)))
    (read : ∀ rest, readElement 199 ('<' :: (tail ++ rest)) = .ok (term, rest))
    (blank : lead = [] ∨ lead = ['\n', '\n']) :
    parse (lead ++ ("function GeneratedUI() \x7b\n".toList ++ bodyText root)) =
      .ok [⟨entryPoint, [], some term⟩] := by
  let source := "function GeneratedUI() \x7b\n".toList ++ bodyText root
  have skipped : skipTrivia (lead ++ source) = .ok ('f' :: ("unction GeneratedUI() \x7b\n".toList ++ bodyText root)) := by
    rcases blank with rfl | rfl <;> rfl
  have keyword : keyword? ['f', 'u', 'n', 'c', 't', 'i', 'o', 'n']
      ('f' :: ("unction GeneratedUI() \x7b\n".toList ++ bodyText root)) =
        some (" GeneratedUI() \x7b\n".toList ++ bodyText root) := rfl
  have functions : readFunctionsFrom ((lead ++ source).length + 1) [] (lead ++ source) =
      .ok [⟨entryPoint, [], some term⟩] := by
    obtain ⟨left, enough⟩ : ∃ left, (lead ++ source).length = left + 1 :=
      ⟨(lead ++ source).length - 1, by simp only [source, List.length_append]; simp; omega⟩
    have done : skipTrivia [] = .ok [] := rfl
    rw [enough]
    unfold readFunctionsFrom
    simp only [skipped]
    split
    case h_1 same => cases same
    case h_2 same => exact absurd (Except.ok.inj same) (by simp)
    case h_3 same => exact absurd (Except.ok.inj same) (by simp)
    case h_4 same =>
      rw [← Except.ok.inj same]
      simp only [keyword, readFunction_text front read]
      unfold readFunctionsFrom
      simp only [done]
      rfl
  unfold parse
  rw [functions]

def NamesTags (registry : Registry) : Prop := ∀ name ∈ registry.names, isTagName name.toList = true

theorem namesTags_standard : NamesTags .standard := by
  unfold NamesTags
  decide

private theorem mem_ofNodes {registry : Registry} {nodes : List Node} {markup : Markup} :
    markup ∈ Markup.ofNodes registry nodes ↔
      ∃ node ∈ nodes, Markup.ofNode? registry node = some markup := by
  induction nodes with
  | nil => simp [Markup.ofNodes]
  | cons node rest step =>
    rw [Markup.ofNodes]
    cases found : Markup.ofNode? registry node with
    | none => simp [step, found]
    | some other => simp [step, found, eq_comm]

/-- What the compiler writes for a plan that was read can be read back. -/
theorem writable_ofNode? {registry : Registry} (tags : NamesTags registry) {depth : Nat}
    (shallow : depth ≤ Json.depthLimit) {node : Node} (regular : node.Regular depth)
    {markup : Markup} (found : Markup.ofNode? registry node = some markup) :
    markup.Writable depth := by
  induction regular generalizing markup with
  | text depth content =>
    obtain rfl := Option.some.inj found
    exact .text depth content
  | malformed depth unnamed =>
    rw [Markup.ofNode?, ofMalformed?_of_namesType registry unnamed] at found
    cases found
  | @element depth type props children plain inside step =>
    rw [Markup.ofNode?] at found
    split at found
    · cases found
    · split at found
      · rename_i registered
        obtain rfl := Option.some.inj found
        refine .element (tags type ((registry.contains_iff_mem_names type).mp registered)) ?_ ?_
        · intro entry member
          obtain ⟨given, kept⟩ := List.mem_filter.mp member
          obtain ⟨distinct, lower⟩ := plain entry given
          simp only [Bool.and_eq_true] at kept
          exact ⟨kept.2, distinct, by omega⟩
        · intro child member
          obtain ⟨node, present, same⟩ := mem_ofNodes.mp member
          exact step node present (by omega) same
      · obtain rfl := Option.some.inj found
        exact .blocked _ type

mutual
/-- Nothing changes in a markup without doubles. -/
theorem settled_ofNode? (registry : Registry) (node : Node) (integral : node.Integral) :
    (Markup.ofNode? registry node).map Markup.settled = Markup.ofNode? registry node := by
  match node with
  | .text _ => rfl
  | .malformed value =>
    rw [Markup.ofNode?, Markup.ofMalformed?]
    split
    · split <;> rfl
    · rfl
  | .element type props children =>
    have attributes : Json.settledMembers (Markup.attributesOf props) = Markup.attributesOf props := by
      apply Json.settledMembers_of_everyIn
      rw [Json.everyIn_iff]
      exact fun entry inside => integral.props (List.mem_filter.mp inside).1
    rw [Markup.ofNode?]
    split
    · rfl
    · split
      · rw [Option.map_some, Markup.settled, attributes,
          settledOf_ofNodes registry children fun child => integral.child]
      · rfl

theorem settledOf_ofNodes (registry : Registry) (nodes : List Node)
    (integral : ∀ node ∈ nodes, node.Integral) :
    Markup.settledOf (Markup.ofNodes registry nodes) = Markup.ofNodes registry nodes := by
  match nodes with
  | [] => rfl
  | node :: rest =>
    have here := settled_ofNode? registry node (integral node (by simp))
    have behind := settledOf_ofNodes registry rest fun other inside => integral other (by simp [inside])
    rw [Markup.ofNodes]
    cases found : Markup.ofNode? registry node with
    | none => exact behind
    | some markup =>
      rw [found] at here
      rw [Markup.settledOf, Option.some.inj here, behind]
end

namespace Markup

theorem Writable.tags {depth : Nat} {markup : Markup} (writable : markup.Writable depth) :
    ∀ tag ∈ markup.tags, isTagName tag.toList = true := by
  induction writable with
  | text | blocked => simp [Markup.tags]
  | element named _ _ step =>
    intro tag inside
    rw [Markup.tags, List.mem_cons, mem_tagsOf] at inside
    rcases inside with rfl | ⟨child, member, inner⟩
    · exact named
    · exact step child member tag inner

theorem Writable.mono {depth deeper : Nat} {markup : Markup} (writable : markup.Writable depth)
    (le : depth ≤ deeper) : markup.Writable deeper := by
  induction le with
  | refl => exact writable
  | step _ step => exact step.succ

private theorem readElement_emitRoot {depth : Nat} {markup : Markup} (writable : markup.Writable depth) :
    ∃ tail, markup.emitRoot = pad 4 ++ '<' :: tail ∧
      ∀ rest, readElement (depth + 1) ('<' :: (tail ++ rest)) = .ok (markup.settled.rootTerm, rest) := by
  obtain ⟨tag, attributes, content, children, shape, term⟩ : ∃ tag attributes content children,
      markup.rooted = .element tag attributes content children ∧
        markup.settled.rootTerm = .element tag (Json.settledMembers attributes)
          (gather content.toList (piecesOf (settledOf children))) := by
    cases markup with
    | element tag attributes content children => exact ⟨tag, attributes, content, children, rfl, rfl⟩
    | text words => exact ⟨fragment, [], none, [.text words], rfl, rfl⟩
    | blocked name => exact ⟨fragment, [], none, [.blocked name], rfl, rfl⟩
  have read := readElement_text writable.rooted 4
  rw [shape] at read
  rw [emitRoot_eq, shape, term, emit_element]
  exact ⟨_, rfl, fun rest => read.2 rest⟩

end Markup

theorem outline_eq {registry : Registry} {plan : Plan} {root : Node} (layout : plan.layout = some root)
    {depth : Nat} (regular : root.Regular depth) :
    outline registry plan = match Markup.ofNode? registry root with
      | none => placeholder
      | some markup => markup.rootTerm := by
  rw [outline, layout, Option.bind_some, piece?_eq registry regular]
  cases Markup.ofNode? registry root with
  | none => rfl
  | some markup => cases markup <;> rfl

theorem keepsLines_bodyText {depth : Nat} {markup : Markup} (writable : markup.Writable depth) :
    keepsLines true (bodyText markup.emitRoot) = true := by
  have opening : '\n' ∉ " return (".toList := by decide
  have written : bodyText markup.emitRoot =
      ' ' :: (" return (".toList ++ '\n' :: (markup.emitRoot ++ "\n  );\n\x7d".toList)) := rfl
  rw [written, keepsLines_cons (by decide) (by decide), keepsLines_append opening, keepsLines_feed,
    Markup.emitRoot_eq, Markup.keepsLines_emit writable.rooted (by decide)]
  rfl

theorem feed_not_mem_uses {depth : Nat} {markup : Markup} (writable : markup.Writable depth) :
    ∀ name ∈ markup.recordUses [], '\n' ∉ name.toList := fun name inside =>
  feed_not_mem_tag (writable.tags name (Markup.mem_recordUses.mp inside))

theorem toList_code (markup : Markup) : (Artifact.ofMarkup markup).code.toList =
    (importLine (markup.recordUses [])).toList ++ (entryOpening.toList ++ bodyText markup.emitRoot) := by
  unfold Artifact.ofMarkup bodyText
  simp only [String.toList_append, String.toList_ofList, List.append_assoc]

/-- The program of a markup that can be written declares the entry point, which returns its term. -/
theorem parse_ofMarkup {depth : Nat} {markup : Markup} (writable : markup.Writable depth)
    (shallow : depth ≤ Json.depthLimit) :
    parse (declarations (Artifact.ofMarkup markup).code.toList) =
      .ok [⟨entryPoint, [], some markup.settled.rootTerm⟩] := by
  have fits : depth ≤ 198 := by
    simp only [Json.depthLimit] at shallow
    omega
  obtain ⟨tail, shape, read⟩ := Markup.readElement_emitRoot (writable.mono fits)
  have front : ∀ rest, skipTrivia (markup.emitRoot ++ rest) = .ok ('<' :: (tail ++ rest)) := by
    intro rest
    rw [shape, List.append_assoc, skipTrivia_pad]
    exact skipTrivia_solid rfl _
  rw [toList_code, declarations_code (feed_not_mem_uses writable) (keepsLines_bodyText writable)]
  refine parse_text front read ?_
  split
  · exact .inl rfl
  · exact .inr rfl

theorem parse_fallback :
    parse (declarations Artifact.fallback.code.toList) = .ok [⟨entryPoint, [], some placeholder⟩] := by
  have source : declarations Artifact.fallback.code.toList = ("// No layout plan provided\n" ++
      "function GeneratedUI() \x7b\n  return <Fragment>No UI generated yet.</Fragment>;\n\x7d").toList := by
    decide +kernel
  rw [source]
  simp only [String.toList_append, String.reduceToList]
  rfl

/-- A plan that was read, and holds no doubles, compiles into a program that returns its outline. -/
theorem parse_compile {registry : Registry} (tags : NamesTags registry) {plan : Plan}
    (regular : plan.Regular) (integral : plan.Integral) :
    parse (declarations (compile registry plan).code.toList) =
      .ok [⟨entryPoint, [], some (outline registry plan)⟩] := by
  cases layout : plan.layout with
  | none =>
    rw [compile, layout, outline, layout]
    exact parse_fallback
  | some root =>
    have rooted := regular root layout
    -- A root that shows nothing is compiled like a missing one, and the outline says so too.
    rw [compile, layout, outline_eq layout rooted]
    simp only [compileNode]
    cases found : Markup.ofNode? registry root with
    | none => exact parse_fallback
    | some markup =>
      have same := settled_ofNode? registry root (integral.root layout)
      rw [found] at same
      have parsed := parse_ofMarkup (writable_ofNode? tags (Nat.le_refl _) rooted found) (Nat.le_refl _)
      rw [Option.some.inj same] at parsed
      exact parsed

end UiPlan.Program
