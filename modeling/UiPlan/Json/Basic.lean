import UiPlan.Table

/-! JSON values. An integer that fits in 64 bits, signed or unsigned, keeps its
exact value; every other number is a double. The members of an object keep the
order of the text they were read from.
-/
namespace UiPlan

inductive Number where
  | int (value : Int) (fits : -9223372036854775808 ≤ value ∧ value < 18446744073709551616)
  | real (value : Float)
  deriving DecidableEq

namespace Number

def ofInt? (value : Int) : Option Number :=
  if fits : -9223372036854775808 ≤ value ∧ value < 18446744073709551616 then some (.int value fits) else none

def toFloat : Number → Float
  | .int value _ => .ofInt value
  | .real value => value

end Number

inductive Json where
  | null
  | bool (value : Bool)
  | num (value : Number)
  | str (value : String)
  | arr (items : List Json)
  | obj (members : List (String × Json))

namespace Json

def isNull : Json → Bool
  | .null => true
  | _ => false

def text? : Json → Option String
  | .str value => some value
  | _ => none

def items? : Json → Option (List Json)
  | .arr items => some items
  | _ => none

def member? (name : String) : Json → Option Json
  | .obj members => Table.get? members name
  | _ => none

def item? (index : Nat) : Json → Option Json
  | .arr items => items[index]?
  | _ => none

def ofNat (n : Nat) : Json :=
  match Number.ofInt? n with
  | some number => .num number
  | none => .num (.real (.ofNat n))

/-- The object of the members as written, where a repeated name keeps its first
place and takes its last value. -/
def object (members : List (String × Json)) : Json := .obj (Table.ofEntries members)

mutual
def merged : Json → Json
  | .arr items => .arr (mergedItems items)
  | .obj members => object (mergedMembers members)
  | other => other

def mergedItems : List Json → List Json
  | [] => []
  | item :: rest => item.merged :: mergedItems rest

def mergedMembers : List (String × Json) → List (String × Json)
  | [] => []
  | (name, value) :: rest => (name, value.merged) :: mergedMembers rest
end

mutual
def decEq : (a b : Json) → Decidable (a = b)
  | .null, .null => isTrue rfl
  | .bool a, .bool b => if same : a = b then isTrue (by rw [same]) else isFalse (by simpa using same)
  | .num a, .num b => if same : a = b then isTrue (by rw [same]) else isFalse (by simpa using same)
  | .str a, .str b => if same : a = b then isTrue (by rw [same]) else isFalse (by simpa using same)
  | .arr a, .arr b => match decEqItems a b with
    | isTrue same => isTrue (by rw [same])
    | isFalse apart => isFalse (by simpa using apart)
  | .obj a, .obj b => match decEqMembers a b with
    | isTrue same => isTrue (by rw [same])
    | isFalse apart => isFalse (by simpa using apart)
  | .null, .bool _ | .null, .num _ | .null, .str _ | .null, .arr _ | .null, .obj _
  | .bool _, .null | .bool _, .num _ | .bool _, .str _ | .bool _, .arr _ | .bool _, .obj _
  | .num _, .null | .num _, .bool _ | .num _, .str _ | .num _, .arr _ | .num _, .obj _
  | .str _, .null | .str _, .bool _ | .str _, .num _ | .str _, .arr _ | .str _, .obj _
  | .arr _, .null | .arr _, .bool _ | .arr _, .num _ | .arr _, .str _ | .arr _, .obj _
  | .obj _, .null | .obj _, .bool _ | .obj _, .num _ | .obj _, .str _ | .obj _, .arr _ =>
    isFalse (by intro same; cases same)

def decEqItems : (a b : List Json) → Decidable (a = b)
  | [], [] => isTrue rfl
  | [], _ :: _ | _ :: _, [] => isFalse (by intro same; cases same)
  | a :: as, b :: bs => match decEq a b, decEqItems as bs with
    | isTrue head, isTrue tail => isTrue (by rw [head, tail])
    | isFalse apart, _ => isFalse (by intro same; exact apart (List.cons.inj same).1)
    | _, isFalse apart => isFalse (by intro same; exact apart (List.cons.inj same).2)

def decEqMembers : (a b : List (String × Json)) → Decidable (a = b)
  | [], [] => isTrue rfl
  | [], _ :: _ | _ :: _, [] => isFalse (by intro same; cases same)
  | (m, a) :: as, (n, b) :: bs =>
    if names : m = n then
      match decEq a b, decEqMembers as bs with
      | isTrue head, isTrue tail => isTrue (by rw [names, head, tail])
      | isFalse apart, _ => isFalse (by intro same; cases same; exact apart rfl)
      | _, isFalse apart => isFalse (by intro same; exact apart (List.cons.inj same).2)
    else isFalse (by intro same; cases same; exact names rfl)
end

instance : DecidableEq Json := decEq

instance : Inhabited Json := ⟨.null⟩

end Json

end UiPlan
