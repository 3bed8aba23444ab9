import UiPlan.Check.Structure
import UiPlan.Plan.Decode
import UiPlan.Proofs.Plan.Reading
import UiPlan.Registry.Standard

/-! Plans written as JSON and read again. A plan that was read from any value comes back from
what is written of it. Stored plans are read by another rule, which takes a list for an element
and merges repeated names; the two rules agree on every plan that passes the structural check.
-/
namespace UiPlan

namespace Json

mutual
/-- There is nothing to merge where no object has two members of one name. -/
theorem merged_of_isDistinct (value : Json) (distinct : value.isDistinct = true) :
    value.merged = value := by
  match value with
  | .null | .bool _ | .num _ | .str _ => rfl
  | .arr items => rw [merged, mergedItems_of_isDistinct items (isDistinct_arr.mp distinct)]
  | .obj members =>
    obtain ⟨once, within⟩ := isDistinct_obj.mp distinct
    rw [merged, mergedMembers_of_isDistinct members within, object, Table.ofEntries_of_nodup once]

theorem mergedItems_of_isDistinct (items : List Json)
    (distinct : ∀ item ∈ items, item.isDistinct = true) : mergedItems items = items := by
  match items with
  | [] => rfl
  | item :: rest =>
    obtain ⟨here, behind⟩ := List.forall_mem_cons.mp distinct
    rw [mergedItems, merged_of_isDistinct item here, mergedItems_of_isDistinct rest behind]

theorem mergedMembers_of_isDistinct (members : List (String × Json))
    (distinct : ∀ entry ∈ members, entry.2.isDistinct = true) : mergedMembers members = members := by
  match members with
  | [] => rfl
  | (name, value) :: rest =>
    obtain ⟨here, behind⟩ := List.forall_mem_cons.mp distinct
    rw [mergedMembers, merged_of_isDistinct value here, mergedMembers_of_isDistinct rest behind]
end

end Json

namespace Plan

namespace Node

/-- The node comes back from its own JSON. -/
def Settled (node : Node) : Prop := ofJson node.toJson = node

theorem listToJson_eq_map (nodes : List Node) : listToJson nodes = nodes.map toJson := by
  induction nodes with
  | nil => rfl
  | cons node rest step => rw [listToJson, step, List.map_cons]

private theorem ofItems_listToJson {nodes : List Node} (each : ∀ node ∈ nodes, node.Settled) :
    ofItems (listToJson nodes) = nodes := by
  rw [ofItems_eq_map, listToJson_eq_map, List.map_map]
  exact (List.map_congr_left each).trans (List.map_id nodes)

def writtenMembers (type : String) (props : List (String × Json)) (children : List Node) :
    List (String × Json) :=
  [("type", .str type), ("props", .obj props)] ++
    (if children.isEmpty then [] else [("children", .arr (listToJson children))])

theorem toJson_element (type : String) (props : List (String × Json)) (children : List Node) :
    (element type props children).toJson = .obj (writtenMembers type props children) := by
  rw [toJson, writtenMembers]

theorem get?_type_writtenMembers (type : String) (props : List (String × Json))
    (children : List Node) :
    Table.get? (writtenMembers type props children) "type" = some (.str type) := rfl

theorem get?_props_writtenMembers (type : String) (props : List (String × Json))
    (children : List Node) :
    Table.get? (writtenMembers type props children) "props" = some (.obj props) := rfl

private theorem get?_children_writtenMembers (type : String) (props : List (String × Json))
    (children : List Node) :
    Table.get? (writtenMembers type props children) "children" =
      if children.isEmpty then none else some (.arr (listToJson children)) := by
  cases children <;> rfl

private theorem childrenOf_writtenMembers {type : String} {props : List (String × Json)}
    {children : List Node} (each : ∀ child ∈ children, child.Settled) :
    childrenOf (writtenMembers type props children) = children := by
  cases children with
  | nil => rfl
  | cons child rest => exact ofItems_listToJson each

theorem Settled.element {type : String} {props : List (String × Json)} {children : List Node}
    (each : ∀ child ∈ children, child.Settled) : (element type props children).Settled := by
  rw [Settled, toJson_element, ofJson, get?_type_writtenMembers]
  simp only [childrenOf_writtenMembers each, propsOf, get?_props_writtenMembers, Option.getD_some,
    propsIn]

/-- A node that was read from JSON comes back from its own JSON. -/
theorem settled_ofJson (value : Json) : (ofJson value).Settled := by
  induction value using reading_induction with
  | plain value other =>
    cases value with
    | obj members => exact absurd rfl (other members)
    | null | bool | num | str | arr => rfl
  | object members step =>
    rcases ofJson_obj members with ⟨type, same⟩ | ⟨_, same⟩
    · rw [same]
      refine .element fun child inside => ?_
      rcases mem_childrenOf inside with ⟨content, rfl⟩ | ⟨name, items, item, present, given, rfl⟩
      · rfl
      · exact step name items present item given
    · rw [same]
      exact same

private theorem settled_children {value : Json} {type : String} {props : List (String × Json)}
    {children : List Node} (read : ofJson value = .element type props children) :
    ∀ child ∈ children, child.Settled := by
  cases value with
  | obj members =>
    rcases ofJson_obj members with ⟨own, same⟩ | ⟨_, same⟩
    · obtain ⟨_, _, rfl⟩ := Node.element.inj (same.symm.trans read)
      intro child inside
      rcases mem_childrenOf inside with ⟨content, rfl⟩ | ⟨_, _, item, _, _, rfl⟩
      · rfl
      · exact settled_ofJson item
    · rw [same] at read
      cases read
  | null | bool | num | str | arr => cases read

theorem toJson_ofJson_ne_null {value : Json} (notNull : value ≠ .null) :
    (ofJson value).toJson ≠ .null := by
  cases value with
  | null => exact absurd rfl notNull
  | obj members =>
    rcases ofJson_obj members with ⟨type, same⟩ | ⟨_, same⟩
    · rw [same, toJson_element]
      nofun
    · rw [same, toJson]
      nofun
  | bool | num | str | arr => nofun

private theorem isDistinct_propsOf {members : List (String × Json)}
    (distinct : (Json.obj members).isDistinct = true) :
    (Json.obj (propsOf members)).isDistinct = true := by
  unfold propsOf propsIn
  split
  · rename_i props found
    cases present : Table.get? members "props" with
    | none =>
      rw [present] at found
      cases found
    | some value =>
      rw [present, Option.getD_some] at found
      subst found
      exact (Json.isDistinct_obj.mp distinct).2 _ (Table.mem_of_get? present)
  · rfl

private theorem isDistinct_writtenMembers {type : String} {props : List (String × Json)}
    {children : List Node} (own : (Json.obj props).isDistinct = true)
    (inside : ∀ child ∈ children, child.toJson.isDistinct = true) :
    (Json.obj (writtenMembers type props children)).isDistinct = true := by
  have listed : (Json.arr (listToJson children)).isDistinct = true := by
    rw [Json.isDistinct_arr, listToJson_eq_map]
    exact List.forall_mem_map.mpr inside
  have name : (Json.str type).isDistinct = true := rfl
  rw [Json.isDistinct_obj]
  cases children with
  | nil => exact ⟨by simp [writtenMembers, Table.keys], by simp [writtenMembers, own, name]⟩
  | cons child rest =>
    exact ⟨by simp [writtenMembers, Table.keys], by simp [writtenMembers, own, listed, name]⟩

/-- A node that was read from distinct names is written with distinct names. -/
theorem isDistinct_toJson_ofJson {value : Json} (distinct : value.isDistinct = true) :
    (ofJson value).toJson.isDistinct = true := by
  induction value using reading_induction with
  | plain value other =>
    cases value with
    | obj members => exact absurd rfl (other members)
    | null | bool | num | str | arr => exact distinct
  | object members step =>
    rcases ofJson_obj members with ⟨type, same⟩ | ⟨_, same⟩
    · rw [same, toJson_element]
      refine isDistinct_writtenMembers (isDistinct_propsOf distinct) fun child inside => ?_
      rcases mem_childrenOf inside with ⟨content, rfl⟩ | ⟨name, items, item, present, given, rfl⟩
      · rfl
      · have within := (Json.isDistinct_obj.mp distinct).2 _ present
        exact step name items present item given (Json.isDistinct_arr.mp within _ given)
    · rw [same]
      exact distinct

private theorem occurrences_writtenMembers (type : String) (props : List (String × Json))
    (children : List Node) :
    (["type", "props", "children"].all fun name =>
      decide (occurrences name (writtenMembers type props children) ≤ 1)) = true := by
  cases children <;> rfl

private theorem decodeRoot_element {type : String} {props : List (String × Json)} {children : List Node}
    (each : ∀ child ∈ children, child.Settled)
    (distinct : (element type props children).toJson.isDistinct = true) :
    decodeRoot (element type props children).toJson = element type props children := by
  rw [toJson_element] at distinct ⊢
  have merged := Json.mergedMembers_of_isDistinct _ (Json.isDistinct_obj.mp distinct).2
  have read : childrenIn ((Table.get? (writtenMembers type props children) "children").getD .null) =
      children := by
    rw [get?_children_writtenMembers]
    cases children with
    | nil => rfl
    | cons child rest => exact ofItems_listToJson each
  simp only [decodeRoot, merged, get?_type_writtenMembers, occurrences_writtenMembers, if_true,
    elementOf, get?_props_writtenMembers, read, Option.getD_some, propsIn]

end Node

theorem ofJson_cases (value : Json) : ofJson value = ⟨none⟩ ∨
    ∃ root, value.member? "layout" = some root ∧ root ≠ .null ∧ ofJson value = ⟨some (.ofJson root)⟩ := by
  unfold ofJson
  split
  · exact .inl rfl
  · exact .inl rfl
  · rename_i root other found
    exact .inr ⟨root, found, fun same => other (same ▸ rfl), rfl⟩

theorem toJson_layout (root : Node) : toJson ⟨some root⟩ = .obj [("layout", root.toJson)] := rfl

private theorem ofJson_layout {root : Json} (notNull : root ≠ .null) :
    ofJson (.obj [("layout", root)]) = ⟨.some (.ofJson root)⟩ := by
  cases root <;> first | rfl | exact absurd rfl notNull

theorem ofJson_toJson_ofJson (value : Json) : ofJson (ofJson value).toJson = ofJson value := by
  rcases ofJson_cases value with same | ⟨root, _, notNull, same⟩
  · rw [same]
    rfl
  · rw [same, toJson_layout, ofJson_layout (Node.toJson_ofJson_ne_null notNull), Node.settled_ofJson root]

private theorem decode?_layout {root : Json} (notNull : root ≠ .null) :
    decode? (.obj [("layout", root)]) = .some ⟨.some (Node.decodeRoot root)⟩ := by
  cases root <;> first | rfl | exact absurd rfl notNull

/-- A plan whose root is no malformed node is read alike by both rules. -/
theorem decode?_toJson_ofJson {value : Json} (distinct : value.isDistinct = true) {root : Node}
    (layout : (ofJson value).layout = some root) (sound : ∀ raw, root ≠ .malformed raw) :
    decode? (ofJson value).toJson = some (ofJson value) := by
  rcases ofJson_cases value with same | ⟨raw, found, notNull, same⟩
  · rw [same] at layout
    cases layout
  · have inner : raw.isDistinct = true := by
      unfold Json.member? at found
      split at found
      · exact (Json.isDistinct_obj.mp distinct).2 _ (Table.mem_of_get? found)
      · cases found
    have written := Node.isDistinct_toJson_ofJson inner
    rw [same] at layout ⊢
    obtain rfl := Option.some.inj layout
    rw [toJson_layout, decode?_layout (Node.toJson_ofJson_ne_null notNull)]
    cases read : Node.ofJson raw with
    | text content => rfl
    | malformed raw => exact absurd read (sound raw)
    | element type props children =>
      rw [read] at written
      rw [Node.decodeRoot_element (Node.settled_children read) written]

/-- A plan read from any value is read again from what is written of it. If it passes the
structural check of some registry, the rule for stored plans reads it too. -/
theorem encoding_settles (value : Json) : ofJson (ofJson value).toJson = ofJson value ∧
    (value.isDistinct = true → ∀ registry,
      Check.structureViolations registry (ofJson value) = [] →
        decode? (ofJson value).toJson = some (ofJson value)) := by
  refine ⟨ofJson_toJson_ofJson value, fun distinct registry clean => ?_⟩
  unfold Check.structureViolations at clean
  split at clean
  · cases clean
  · rename_i root layout
    refine decode?_toJson_ofJson distinct layout ?_
    rintro raw rfl
    exact Check.nodeViolations_malformed_ne_nil registry _ raw clean

def looseCard : Json :=
  .obj [("layout", .obj [("children", .str "Hi"), ("type", .str "Card"), ("props", .bool true)])]

theorem encoding_settles_looseCard : looseCard.isDistinct = true ∧
    Check.structureViolations .standard (ofJson looseCard) = [] ∧
    ofJson looseCard = ⟨some (.element "Card" [] [.text "Hi"])⟩ ∧
    decode? (.obj [("layout", .obj [("type", .str "Card"), ("props", .obj []),
      ("children", .arr [.str "Hi"])])]) = some (ofJson looseCard) := by
  have registered : Registry.standard.contains "Card" = true := by decide
  have read : ofJson looseCard = ⟨some (.element "Card" [] [.text "Hi"])⟩ := rfl
  have passes : Check.structureViolations .standard (ofJson looseCard) = [] := by
    simp [read, Check.structureViolations, Check.nodeViolations, Check.childViolations,
      Check.typeViolations, registered]
  exact ⟨rfl, passes, read, (encoding_settles looseCard).2 rfl .standard passes⟩

/-- The check matters: a list is a malformed node for the one rule and an element for the other. -/
example : decode? (ofJson (.obj [("layout", .arr [.str "Card"])])).toJson =
    some ⟨some (.element "Card" [] [])⟩ := rfl

end Plan

end UiPlan
