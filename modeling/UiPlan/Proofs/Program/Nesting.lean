import UiPlan.Program.Reader
import UiPlan.Proofs.Json.Values

/-! No term that is read stands deeper than the reader's bound. A reader of elements hands a smaller
bound on to the readers of what is inside, and everything else that is read has no depth.
-/
namespace UiPlan.Program

namespace Term

private theorem depthOf_le_iff {terms : List Term} {n : Nat} :
    depthOf terms ≤ n ↔ ∀ term ∈ terms, term.depth ≤ n := by
  induction terms with
  | nil => simp [depthOf]
  | cons term rest step => rw [depthOf, Nat.max_le, step, List.forall_mem_cons]

end Term

/-- The reader reads nothing that is nested deeper. -/
def Within (depth : Nat) (read : Reader Term) : Prop :=
  ∀ cs term rest, read cs = .ok (term, rest) → term.depth ≤ depth

section Contents

variable {element : Reader Term} {tag : Option String} {depth : Nat}

private theorem depth_le_of_mem_textTerm? {raw : List Char} {term : Term}
    (member : term ∈ (textTerm? raw).toList) : term.depth ≤ depth := by
  rw [Option.mem_toList, textTerm?, Option.map_eq_some_iff] at member
  obtain ⟨cleaned, _, rfl⟩ := member
  exact Nat.zero_le _

private theorem depth_le_of_readContentsFrom (within : Within depth element) {budget : Nat}
    {read terms : List Term} {cs rest : List Char} (before : ∀ term ∈ read, term.depth ≤ depth)
    (ok : readContentsFrom element tag budget read cs = .ok (terms, rest)) :
    ∀ term ∈ terms, term.depth ≤ depth := by
  induction budget generalizing read cs with
  | zero => cases ok
  | succ budget step =>
    unfold readContentsFrom at ok
    split at ok
    · cases ok
    · obtain ⟨_, _, same⟩ := except_map_ok ok
      obtain ⟨rfl, _⟩ := Prod.mk.inj same
      intro term member
      exact before term (List.mem_reverse.mp member)
    · split at ok
      · cases ok
      · rename_i term more found
        exact step (List.forall_mem_cons.mpr ⟨within _ _ _ found, before⟩) ok
    · split at ok
      · cases ok
      · exact step before ok
      · split at ok
        · cases ok
        · exact step (List.forall_mem_cons.mpr ⟨Nat.zero_le _, before⟩) ok
    · cases ok
    · refine step ?_ ok
      exact List.forall_mem_append.mpr ⟨fun _ member => depth_le_of_mem_textTerm? member, before⟩

theorem depthOf_le_of_readContents (within : Within depth element) {terms : List Term}
    {cs rest : List Char} (ok : readContents element tag cs = .ok (terms, rest)) :
    Term.depthOf terms ≤ depth :=
  Term.depthOf_le_iff.mpr (depth_le_of_readContentsFrom within (by simp) ok)

end Contents

private theorem within_readElement (depth : Nat) : Within depth (readElement depth) := by
  induction depth with
  | zero =>
    intro cs term rest ok
    cases ok
  | succ depth step =>
    intro cs term rest ok
    unfold readElement at ok
    split at ok
    · cases ok
    split at ok
    · obtain ⟨⟨terms, more⟩, found, same⟩ := except_map_ok ok
      obtain ⟨rfl, _⟩ := Prod.mk.inj same
      have inside := depthOf_le_of_readContents step found
      rw [Term.depth]
      omega
    · split at ok
      · cases ok
      split at ok
      · cases ok
      · obtain ⟨rfl, _⟩ := Prod.mk.inj (Except.ok.inj ok)
        simp [Term.depth, Term.depthOf]
      · obtain ⟨⟨terms, more⟩, found, same⟩ := except_map_ok ok
        obtain ⟨rfl, _⟩ := Prod.mk.inj same
        have inside := depthOf_le_of_readContents step found
        rw [Term.depth]
        omega

/-- Parentheses use up depth and give none to the term. -/
theorem within_readExpression (depth : Nat) : Within depth (readExpression depth) := by
  induction depth with
  | zero =>
    intro cs term rest ok
    unfold readExpression at ok
    split at ok
    · cases ok
    · cases ok
    · cases ok
    · obtain ⟨value, _, same⟩ := except_map_ok ok
      obtain ⟨rfl, _⟩ := Prod.mk.inj same
      exact Nat.zero_le _
  | succ depth step =>
    intro cs term rest ok
    unfold readExpression at ok
    split at ok
    · cases ok
    · dsimp only at ok
      split at ok
      · cases ok
      · rename_i inner more found
        split at ok
        · cases ok
        · obtain ⟨_, _, same⟩ := except_map_ok ok
          obtain ⟨rfl, _⟩ := Prod.mk.inj same
          exact Nat.le_succ_of_le (step _ _ _ found)
    · exact within_readElement _ _ _ _ ok
    · obtain ⟨value, _, same⟩ := except_map_ok ok
      obtain ⟨rfl, _⟩ := Prod.mk.inj same
      exact Nat.zero_le _

private theorem depth_le_of_readReturned {cs rest : List Char} {term : Term}
    (ok : readReturned cs = .ok (some term, rest)) : term.depth ≤ maxDepth := by
  unfold readReturned at ok
  dsimp only at ok
  split at ok
  · cases ok
  -- In front of a semicolon or a brace nothing is returned.
  · split at ok
    · cases ok
    all_goals
      obtain ⟨_, _, same⟩ := except_map_ok ok
      cases (Prod.mk.inj same).1
  · split at ok
    · cases ok
    all_goals
      obtain ⟨_, _, same⟩ := except_map_ok ok
      cases (Prod.mk.inj same).1
  · split at ok
    · cases ok
    · rename_i returned more found
      have bound := within_readExpression _ _ _ _ found
      split at ok
      · cases ok
      all_goals
        obtain ⟨_, _, same⟩ := except_map_ok ok
        obtain rfl := Option.some.inj (Prod.mk.inj same).1
        exact bound

private theorem depth_le_of_readBody {cs rest : List Char} {term : Term}
    (ok : readBody cs = .ok (some term, rest)) : term.depth ≤ maxDepth := by
  unfold readBody at ok
  dsimp only at ok
  split at ok
  · cases ok
  split at ok
  · split at ok
    · cases (Prod.mk.inj (Except.ok.inj ok)).1
    · cases ok
  · split at ok
    · cases ok
    · rename_i returned more found
      split at ok
      · obtain ⟨rfl, _⟩ := Prod.mk.inj (Except.ok.inj ok)
        exact depth_le_of_readReturned found
      · cases ok

def Function.Bounded (function : Function) : Prop :=
  ∀ term, function.body = some term → term.depth ≤ maxDepth

theorem bounded_of_readFunction {cs rest : List Char} {function : Function}
    (ok : readFunction cs = .ok (function, rest)) : function.Bounded := by
  unfold readFunction at ok
  obtain ⟨_, _, ok⟩ := except_bind_ok ok
  split at ok
  · cases ok
  obtain ⟨_, _, ok⟩ := except_bind_ok ok
  obtain ⟨_, _, ok⟩ := except_bind_ok ok
  obtain ⟨⟨parameters, _⟩, _, ok⟩ := except_bind_ok ok
  obtain ⟨_, _, ok⟩ := except_bind_ok ok
  obtain ⟨_, _, ok⟩ := except_bind_ok ok
  obtain ⟨⟨body, _⟩, found, ok⟩ := except_bind_ok ok
  obtain ⟨rfl, _⟩ := Prod.mk.inj (Except.ok.inj ok)
  rintro term rfl
  exact depth_le_of_readBody found

private theorem bounded_of_readFunctionsFrom {budget : Nat} {read functions : List Function} {cs : List Char}
    (before : ∀ function ∈ read, function.Bounded)
    (ok : readFunctionsFrom budget read cs = .ok functions) :
    ∀ function ∈ functions, function.Bounded := by
  induction budget generalizing read cs with
  | zero => cases ok
  | succ budget step =>
    unfold readFunctionsFrom at ok
    split at ok
    · cases ok
    · obtain rfl := Except.ok.inj ok
      intro function member
      exact before function (List.mem_reverse.mp member)
    · exact step before ok
    · split at ok
      · cases ok
      split at ok
      · cases ok
      · rename_i function more found
        exact step (List.forall_mem_cons.mpr ⟨bounded_of_readFunction found, before⟩) ok

/-- The reader has a depth limit, so no function returns a term beyond it. -/
theorem bounded_of_parse {source : List Char} {functions : List Function}
    (ok : parse source = .ok functions) : ∀ function ∈ functions, function.Bounded := by
  unfold parse at ok
  split at ok
  · cases ok
  · rename_i read found
    obtain rfl := Except.ok.inj ok
    exact bounded_of_readFunctionsFrom (by simp) found

end UiPlan.Program
