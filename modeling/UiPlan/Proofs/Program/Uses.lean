import UiPlan.Program.Compile
import UiPlan.Proofs.Program.Outline

/-! The components in use. The compiler notes a component when it first writes one, and what it
has noted in the end are the tags of the markup in the order in which they stand there, each
at its first place. Reading the program back finds the same tags.
-/
namespace UiPlan.Program

open Plan (Node)

namespace Markup

mutual
def tags : Markup → List String
  | .element tag _ _ children => tag :: tagsOf children
  | _ => []

def tagsOf : List Markup → List String
  | [] => []
  | markup :: rest => markup.tags ++ tagsOf rest
end

theorem mem_tagsOf {tag : String} {markups : List Markup} :
    tag ∈ tagsOf markups ↔ ∃ markup ∈ markups, tag ∈ markup.tags := by
  induction markups with
  | nil => simp [tagsOf]
  | cons markup rest step => simp [tagsOf, step]

mutual
theorem recordUses_eq (used : List String) (markup : Markup) :
    markup.recordUses used = markup.tags.foldl addUse used := by
  match markup with
  | .text _ | .blocked _ => rfl
  | .element tag _ _ children =>
    rw [recordUses, tags, List.foldl_cons]
    exact recordUsesOf_eq (addUse used tag) children

theorem recordUsesOf_eq (used : List String) (markups : List Markup) :
    recordUsesOf used markups = (tagsOf markups).foldl addUse used := by
  match markups with
  | [] => rfl
  | markup :: rest =>
    rw [recordUsesOf, tagsOf, List.foldl_append, ← recordUses_eq used markup]
    exact recordUsesOf_eq (markup.recordUses used) rest
end

private theorem nodup_addUse {used : List String} (once : used.Nodup) (tag : String) :
    (addUse used tag).Nodup := by
  unfold addUse
  split
  · exact once
  · rename_i fresh
    rw [List.nodup_append]
    refine ⟨once, by simp, ?_⟩
    rintro name inside other alone rfl
    obtain rfl := List.mem_singleton.mp alone
    exact fresh (by simpa using inside)

private theorem nodup_foldl_addUse {used : List String} (once : used.Nodup) (names : List String) :
    (names.foldl addUse used).Nodup := by
  induction names generalizing used with
  | nil => exact once
  | cons name names step =>
    rw [List.foldl_cons]
    apply step
    exact nodup_addUse once name

/-- What is new among the names comes behind those in use, each at its first place. -/
theorem foldl_addUse (names used : List String) :
    names.foldl addUse used = used ++ (names.filter (!used.contains ·)).eraseDups := by
  induction names generalizing used with
  | nil => simp
  | cons name names step =>
    rw [List.foldl_cons, step, addUse]
    cases known : used.contains name with
    | true => rw [if_pos rfl, List.filter_cons_of_neg (by simpa using known)]
    | false =>
      have others : names.filter (!(used ++ [name]).contains ·) =
          (names.filter (!used.contains ·)).filter (!· == name) := by
        rw [List.filter_filter]
        congr 1
        funext other
        by_cases same : other = name <;> simp [same]
      rw [if_neg (by simp), List.filter_cons_of_pos (by simpa using known), List.eraseDups_cons, others,
        List.append_assoc, List.singleton_append]

theorem recordUses_nil (markup : Markup) : markup.recordUses [] = markup.tags.eraseDups := by
  have all : markup.tags.filter (!([] : List String).contains ·) = markup.tags :=
    List.filter_eq_self.mpr fun _ _ => rfl
  rw [recordUses_eq, foldl_addUse, all, List.nil_append]

theorem nodup_recordUses (markup : Markup) : (markup.recordUses []).Nodup := by
  rw [recordUses_eq]
  exact nodup_foldl_addUse List.nodup_nil _

/-- The compiler notes every tag that it writes, and no other. -/
theorem mem_recordUses {tag : String} {markup : Markup} :
    tag ∈ markup.recordUses [] ↔ tag ∈ markup.tags := by
  rw [recordUses_nil, List.mem_eraseDups]

mutual
theorem contains_of_mem_tags {registry : Registry} {markup : Markup} (node : Node)
    (found : ofNode? registry node = some markup) :
    ∀ tag ∈ markup.tags, registry.contains tag = true := by
  match node with
  | .text _ =>
    obtain rfl := Option.some.inj found
    simp [tags]
  | .malformed value =>
    rw [ofNode?, ofMalformed?] at found
    split at found
    · split at found
      · obtain rfl := Option.some.inj found
        simp [tags]
      · cases found
    · cases found
  | .element type props children =>
    rw [ofNode?] at found
    split at found
    · cases found
    · split at found
      · rename_i registered
        obtain rfl := Option.some.inj found
        rw [tags]
        exact List.forall_mem_cons.mpr ⟨registered, contains_of_mem_tagsOf children⟩
      · obtain rfl := Option.some.inj found
        simp [tags]

theorem contains_of_mem_tagsOf {registry : Registry} (nodes : List Node) :
    ∀ tag ∈ tagsOf (ofNodes registry nodes), registry.contains tag = true := by
  match nodes with
  | [] => simp [ofNodes, tagsOf]
  | node :: rest =>
    have behind : ∀ tag ∈ tagsOf (ofNodes registry rest), registry.contains tag = true :=
      contains_of_mem_tagsOf rest
    rw [ofNodes]
    cases found : ofNode? registry node with
    | none => exact behind
    | some markup =>
      rw [tagsOf]
      exact List.forall_mem_append.mpr ⟨contains_of_mem_tags node found, behind⟩
end

end Markup

def Piece.tags : Piece → List String
  | .term own => own.tags
  | .words _ | .gap => []

theorem tagsOf_append (terms more : List Term) :
    Term.tagsOf (terms ++ more) = Term.tagsOf terms ++ Term.tagsOf more := by
  induction terms with
  | nil => rfl
  | cons term rest step => rw [List.cons_append, Term.tagsOf, Term.tagsOf, step, List.append_assoc]

theorem tagsOf_runTerms (run : List String) : Term.tagsOf (runTerms run) = [] := by
  unfold runTerms
  split <;> rfl

theorem tagsOf_gather (run : List String) (all : List Piece) :
    Term.tagsOf (gather run all) = all.flatMap Piece.tags := by
  induction all generalizing run with
  | nil => exact tagsOf_runTerms run
  | cons piece rest step =>
    rw [List.flatMap_cons]
    cases piece with
    | words content => exact step (run ++ [content])
    | gap => rw [gather, tagsOf_append, tagsOf_runTerms, step, Piece.tags]
    | term own =>
      rw [gather, tagsOf_append, tagsOf_runTerms, Term.tagsOf, step, Piece.tags, List.nil_append]

namespace Markup

mutual
theorem tags_piece (markup : Markup) : markup.piece.tags = markup.tags := by
  match markup with
  | .text _ | .blocked _ => rfl
  | .element tag attributes content children =>
    rw [piece, Piece.tags, Term.tags, tagsOf_gather, tags, tags_piecesOf children]

theorem tags_piecesOf (markups : List Markup) : (piecesOf markups).flatMap Piece.tags = tagsOf markups := by
  match markups with
  | [] => rfl
  | markup :: rest => rw [piecesOf, List.flatMap_cons, tagsOf, tags_piece markup, tags_piecesOf rest]
end

/-- The tags of the program are those of the markup, but for the fragment around a root that is no
component. -/
theorem tags_rootTerm (markup : Markup) :
    markup.rootTerm.tags = markup.tags ∨ markup.rootTerm.tags = [fragment] ∧ markup.tags = [] := by
  cases markup with
  | element tag attributes content children =>
    left
    exact tags_piece (.element tag attributes content children)
  | text | blocked =>
    right
    simp [rootTerm, Term.tags, tagsOf_gather, piece, Piece.tags, tags]

end Markup

end UiPlan.Program
