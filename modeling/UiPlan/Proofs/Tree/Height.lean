import UiPlan.Tree.Html

/-! How deep a tree is, and what that says of recursive walks. The height of a tree is the number of
nodes on its longest branch, and a walk that may not have more calls open at once than the tree is
high still sees all of it.
-/
namespace UiPlan.Tree

mutual
def height : Tree → Nat
  | .element _ _ children => heightOf children + 1
  | .group children => heightOf children + 1
  | .text _ => 1

def heightOf : List Tree → Nat
  | [] => 0
  | tree :: rest => max tree.height (heightOf rest)
end

theorem height_eq (tree : Tree) : tree.height = heightOf tree.children + 1 := by
  cases tree <;> rfl

theorem heightOf_le_iff {trees : List Tree} {n : Nat} :
    heightOf trees ≤ n ↔ ∀ tree ∈ trees, tree.height ≤ n := by
  induction trees with
  | nil => simp [heightOf]
  | cons tree rest step => rw [heightOf, Nat.max_le, step, List.forall_mem_cons]

theorem heightOf_append (front back : List Tree) :
    heightOf (front ++ back) = max (heightOf front) (heightOf back) := by
  induction front with
  | nil => simp [heightOf]
  | cons tree rest step => simp [heightOf, step, Nat.max_assoc]

/-- The nodes on a way from the root of the tree down to a node without children. -/
inductive Branch : Tree → List Tree → Prop
  | leaf {tree : Tree} (hollow : tree.children = []) : Branch tree [tree]
  | node {tree child : Tree} {path : List Tree} (inside : child ∈ tree.children)
      (below : Branch child path) : Branch tree (tree :: path)

theorem Branch.length_le {tree : Tree} {path : List Tree} (branch : Branch tree path) :
    path.length ≤ tree.height := by
  induction branch with
  | leaf hollow => simp [height_eq]
  | @node tree child path inside below step =>
    have lower := heightOf_le_iff.mp (Nat.le_refl (heightOf tree.children)) child inside
    rw [List.length_cons, height_eq]
    omega

section Walks

variable {β : Type}

/-- What a walk makes of a tree, where `visit` puts together what it makes of the children of a
node, as long as no more than `limit` calls are open at once. -/
def walk (visit : Tree → List β → β) : (limit : Nat) → Tree → Option β
  | 0, _ => none
  | limit + 1, tree => (tree.children.mapM (walk visit limit)).map (visit tree)

private theorem mapM_eq_some_map {α : Type} {attempt : α → Option β} {result : α → β} {items : List α}
    (each : ∀ item ∈ items, attempt item = some (result item)) :
    items.mapM attempt = some (items.map result) := by
  induction items with
  | nil => rfl
  | cons item rest step =>
    obtain ⟨here, later⟩ := List.forall_mem_cons.mp each
    simp [List.mapM_cons, here, step later]

theorem walk_eq_some {visit : Tree → List β → β} {result : Tree → β}
    (combines : ∀ tree, result tree = visit tree (tree.children.map result)) {limit : Nat}
    {tree : Tree} (enough : tree.height ≤ limit) : walk visit limit tree = some (result tree) := by
  induction limit generalizing tree with
  | zero =>
    rw [height_eq] at enough
    omega
  | succ limit step =>
    rw [height_eq] at enough
    have lower := heightOf_le_iff.mp (Nat.le_of_succ_le_succ enough)
    rw [walk, mapM_eq_some_map fun child inside => step (lower child inside), combines tree]
    rfl

end Walks

theorem htmlOf_eq (trees : List Tree) : htmlOf trees = (trees.map html).flatten := by
  induction trees with
  | nil => rfl
  | cons tree rest step => simp [htmlOf, step]

theorem textContentOf_eq (trees : List Tree) : textContentOf trees = String.join (trees.map textContent) := by
  induction trees with
  | nil => rfl
  | cons tree rest step => simp [textContentOf, step]

theorem taggedIn_eq (tag : String) (trees : List Tree) :
    taggedIn tag trees = (trees.map (tagged tag)).flatten := by
  induction trees with
  | nil => rfl
  | cons tree rest step => simp [taggedIn, step]

def visitHtml (tree : Tree) (inner : List (List Char)) : List Char :=
  match tree with
  | .text content => escapeHtml content.toList
  | .group _ => inner.flatten
  | .element tag attributes _ =>
    '<' :: (tag.toList ++ attributesHtml attributes ++ '>' ::
      if isVoid tag then [] else inner.flatten ++ '<' :: '/' :: (tag.toList ++ ['>']))

def visitText (tree : Tree) (inner : List String) : String :=
  match tree with
  | .text content => content
  | _ => String.join inner

def visitTagged (tag : String) (tree : Tree) (inner : List (List Tree)) : List Tree :=
  (if tree.tag? = some tag then [tree] else []) ++ inner.flatten

private theorem html_eq_visitHtml (tree : Tree) : tree.html = visitHtml tree (tree.children.map html) := by
  cases tree with
  | text content => rfl
  | group trees => exact htmlOf_eq trees
  | element tag attributes trees =>
    rw [html, htmlOf_eq]
    rfl

private theorem textContent_eq_visitText (tree : Tree) :
    tree.textContent = visitText tree (tree.children.map textContent) := by
  cases tree with
  | text content => rfl
  | group trees => exact textContentOf_eq trees
  | element tag attributes trees => exact textContentOf_eq trees

private theorem tagged_eq_visitTagged (tag : String) (tree : Tree) :
    tree.tagged tag = visitTagged tag tree (tree.children.map (tagged tag)) := by
  cases tree with
  | text content => rfl
  | group trees => exact taggedIn_eq tag trees
  | element own attributes trees =>
    rw [tagged, taggedIn_eq]
    simp [visitTagged, tag?, children]

/-- Neither writing a tree as HTML, nor collecting its text or its elements with a tag, has more
calls open at once than `limit`. -/
structure WalkedWithin (limit : Nat) (tree : Tree) : Prop where
  html : walk visitHtml limit tree = some tree.html
  text : walk visitText limit tree = some tree.textContent
  tagged : ∀ tag, walk (visitTagged tag) limit tree = some (tree.tagged tag)

/-- No walk has more calls open than the tree is high. -/
theorem walkedWithin_of_height_le {limit : Nat} {tree : Tree} (enough : tree.height ≤ limit) :
    WalkedWithin limit tree where
  html := walk_eq_some html_eq_visitHtml enough
  text := walk_eq_some textContent_eq_visitText enough
  tagged tag := walk_eq_some (tagged_eq_visitTagged tag) enough

@[simp] theorem height_text (content : String) : (Tree.text content).height = 1 := rfl

@[simp] theorem height_ofTag (tag : String) : (ofTag tag).height = 1 := rfl

@[simp] theorem height_withAttribute (tree : Tree) (name value : String) :
    (tree.withAttribute name value).height = tree.height := by
  cases tree <;> rfl

@[simp] theorem height_withClass (tree : Tree) (value : String) :
    (tree.withClass value).height = tree.height := height_withAttribute tree "class" value

@[simp] theorem height_withStyle (tree : Tree) (value : String) :
    (tree.withStyle value).height = tree.height := height_withAttribute tree "style" value

@[simp] theorem height_withFlag (tree : Tree) (name : String) (on : Bool) :
    (tree.withFlag name on).height = tree.height := by
  cases on
  · rfl
  · exact height_withAttribute tree name ""

theorem height_withChildren_le (tree : Tree) (trees : List Tree) :
    (tree.withChildren trees).height ≤ max tree.height (heightOf trees + 1) := by
  cases tree with
  | text content => exact Nat.le_max_left _ _
  | group old =>
    simp only [withChildren, height, heightOf_append]
    omega
  | element tag attributes old =>
    simp only [withChildren, height, heightOf_append]
    omega

end UiPlan.Tree
