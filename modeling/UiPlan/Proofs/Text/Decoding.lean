import Mathlib.Data.Nat.Digits.Defs
import Mathlib.Tactic.Ring
import UiPlan.Json.Fault
import UiPlan.Proofs.Text.Escaping

/-! What decoding takes for a reference. References are described on their own: an ampersand, a
word or a number, and the first semicolon behind the ampersand, at most ten bytes from it. Decoding
goes through a text from left to right and puts the character in the place of every reference; all
else it copies, and behind an ampersand that starts no reference it goes on with the next character.
Numbers may carry a plus, which the references of markup do not know.
-/
namespace UiPlan.Text

def hexDigits : List Char := "0123456789abcdefABCDEF".toList

def digitOf (c : Char) : Nat := "0123456789abcdef".toList.idxOf c.toLower

def IsDigit (base : Nat) (c : Char) : Prop := c ∈ hexDigits ∧ digitOf c < base

def numeral (base : Nat) (digits : List Char) : Nat := Nat.ofDigits base (digits.map digitOf).reverse

def namedCharacters : List (List Char × Char) :=
  [("amp", '&'), ("lt", '<'), ("gt", '>'), ("quot", '"'), ("apos", '\''), ("nbsp", '\u00a0')].map
    fun entry => (entry.1.toList, entry.2)

inductive Spells (signs : List (List Char)) (base : Nat) : List Char → Char → Prop
  | signed {sign digits : List Char} {c : Char} (known : sign ∈ signs) (nonempty : digits ≠ [])
      (all : ∀ d ∈ digits, IsDigit base d) (number : numeral base digits = c.toNat) :
      Spells signs base (sign ++ digits) c

inductive Names (signs : List (List Char)) : List Char → Char → Prop
  | word {name : List Char} {c : Char} (known : (name, c) ∈ namedCharacters) : Names signs name c
  | decimal {digits : List Char} {c : Char} (spelled : Spells signs 10 digits c) :
      Names signs ('#' :: digits) c
  | hexadecimal {mark : Char} {digits : List Char} {c : Char} (marked : mark = 'x' ∨ mark = 'X')
      (spelled : Spells signs 16 digits c) : Names signs ('#' :: mark :: digits) c

structure Refers (signs : List (List Char)) (name : List Char) (c : Char) : Prop where
  names : Names signs name c
  first : ';' ∉ name
  near : Json.byteCount (name ++ [';']) ≤ 10

/-- The text with every reference replaced by its character, from left to right. -/
inductive Replaced (signs : List (List Char)) : List Char → List Char → Prop
  | nil : Replaced signs [] []
  | reference {name rest out : List Char} {c : Char} (refers : Refers signs name c)
      (behind : Replaced signs rest out) : Replaced signs ('&' :: (name ++ ';' :: rest)) (c :: out)
  | other {c : Char} {rest out : List Char}
      (noReference : ∀ name tail d, Refers signs name d → c :: rest ≠ '&' :: (name ++ ';' :: tail))
      (behind : Replaced signs rest out) : Replaced signs (c :: rest) (c :: out)

def numberSigns : List (List Char) := [[], ['+']]

private theorem digitValue?_eq {base : Nat} (either : base = 10 ∨ base = 16) (c : Char) :
    digitValue? base c = if c ∈ hexDigits ∧ digitOf c < base then some (digitOf c) else none := by
  have ascii : ∀ n < 128, ∀ base ∈ [10, 16], digitValue? base (Char.ofNat n) =
      if Char.ofNat n ∈ hexDigits ∧ digitOf (Char.ofNat n) < base then some (digitOf (Char.ofNat n))
      else none := by decide +kernel
  by_cases small : c.toNat < 128
  · have here := ascii c.toNat small base (by simpa using either)
    rwa [Char.ofNat_toNat] at here
  · have low : hexDigits.all (fun d => d.toNat < 128) = true := by decide
    have outside : c ∉ hexDigits := fun inside =>
      small (of_decide_eq_true (List.all_eq_true.mp low c inside))
    have behind (d : Char) (early : d.toNat < 128) : ¬c ≤ d := by
      rw [Char.le_def, UInt32.le_iff_toNat_le]
      exact fun le => small (Nat.lt_of_le_of_lt le early)
    have noDigit : c.isDigit = false := by
      rw [Bool.eq_false_iff, ne_eq, Char.isDigit_iff_toNat]
      exact fun range => small (Nat.lt_of_le_of_lt range.2 (by decide))
    simp [digitValue?, outside, noDigit, behind 'z', behind 'Z']

theorem digitValue?_eq_some {base : Nat} (either : base = 10 ∨ base = 16) {c : Char} {value : Nat} :
    digitValue? base c = some value ↔ IsDigit base c ∧ digitOf c = value := by
  simp [digitValue?_eq either, IsDigit, and_assoc]

private theorem numeral_cons (base : Nat) (c : Char) (digits : List Char) :
    numeral base (c :: digits) = digitOf c * base ^ digits.length + numeral base digits := by
  simp only [numeral, List.map_cons, List.reverse_cons, Nat.ofDigits_append, Nat.ofDigits_singleton,
    List.length_reverse, List.length_map]
  ring

private theorem digitsValue?_eq_some {base : Nat} (either : base = 10 ∨ base = 16) {digits : List Char}
    {start value : Nat} : digitsValue? base start digits = some value ↔
      (∀ d ∈ digits, IsDigit base d) ∧ start * base ^ digits.length + numeral base digits = value := by
  induction digits generalizing start with
  | nil => simp [digitsValue?, numeral]
  | cons c digits step =>
    have shifted (digit : Nat) : (base * start + digit) * base ^ digits.length =
        start * base ^ (digits.length + 1) + digit * base ^ digits.length := by ring
    rw [digitsValue?, numeral_cons, List.length_cons, List.forall_mem_cons]
    cases found : digitValue? base c with
    | none =>
      have noDigit : ¬IsDigit base c := fun digit =>
        by simpa [found] using (digitValue?_eq_some either).mpr ⟨digit, rfl⟩
      simp [noDigit]
    | some digit =>
      obtain ⟨isDigit, rfl⟩ := (digitValue?_eq_some either).mp found
      simp only [step, isDigit, true_and, shifted, Nat.add_assoc]

theorem ne_plus_of_isDigit {base : Nat} {c : Char} (digit : IsDigit base c) : c ≠ '+' := by
  rintro rfl
  exact absurd digit.1 (by decide)

private theorem natural?_eq_some {base : Nat} (either : base = 10 ∨ base = 16) {text : List Char} {n : Nat} :
    natural? base text = some n ↔ ∃ sign ∈ numberSigns, ∃ digits, digits ≠ [] ∧ text = sign ++ digits ∧
      (∀ d ∈ digits, IsDigit base d) ∧ numeral base digits = n := by
  have value {digits : List Char} : digitsValue? base 0 digits = some n ↔
      (∀ d ∈ digits, IsDigit base d) ∧ numeral base digits = n := by
    simp [digitsValue?_eq_some either]
  constructor
  · intro read
    unfold natural? at read
    split at read
    · rename_i c rest
      exact ⟨['+'], by decide, c :: rest, by simp, rfl, value.mp read⟩
    · cases read
    · cases read
    · rename_i _ _ nonempty
      exact ⟨[], by decide, text, nonempty, rfl, value.mp read⟩
  · rintro ⟨sign, known, digits, nonempty, rfl, spelled⟩
    obtain ⟨c, rest, rfl⟩ := List.exists_cons_of_ne_nil nonempty
    simp only [numberSigns, List.mem_cons, List.not_mem_nil, or_false] at known
    rcases known with rfl | rfl
    · have unsigned := ne_plus_of_isDigit (spelled.1 c (by simp))
      rw [List.nil_append, natural?]
      · exact value.mpr spelled
      · simp [unsigned]
      · simp [unsigned]
      · simp
    · exact value.mpr spelled

private theorem scalar?_eq_some {n : Nat} {c : Char} : scalar? n = some c ↔ n = c.toNat := by
  unfold scalar?
  constructor
  · intro named
    split at named
    · rename_i valid
      rw [← Option.some.inj named, Char.ofNat, dif_pos valid]
      rfl
    · cases named
  · rintro rfl
    have valid : c.toNat.isValidChar := c.valid
    rw [if_pos valid, Char.ofNat_toNat]

theorem natural?_bind_scalar? {base : Nat} (either : base = 10 ∨ base = 16) {text : List Char} {c : Char} :
    (natural? base text).bind scalar? = some c ↔ Spells numberSigns base text c := by
  simp only [Option.bind_eq_some_iff, natural?_eq_some either, scalar?_eq_some]
  constructor
  · rintro ⟨n, ⟨sign, known, digits, nonempty, rfl, all, rfl⟩, number⟩
    exact .signed known nonempty all number
  · rintro ⟨known, nonempty, all, number⟩
    exact ⟨_, ⟨_, known, _, nonempty, rfl, all, number⟩, rfl⟩

theorem mem_of_spells {base : Nat} {text : List Char} {c : Char} (spelled : Spells numberSigns base text c) :
    ∀ d ∈ text, d ∈ '+' :: hexDigits := by
  obtain ⟨known, _, all, _⟩ := spelled
  intro d inside
  rcases List.mem_append.mp inside with front | behind
  · simp only [numberSigns, List.mem_cons, List.not_mem_nil, or_false] at known
    rcases known with rfl | rfl
    · cases front
    · exact List.mem_cons.mpr (.inl (List.mem_singleton.mp front))
  · exact List.mem_cons_of_mem _ (all d behind).1

theorem Spells.ne_cons {base : Nat} {text : List Char} {c mark : Char}
    (spelled : Spells numberSigns base text c) (outside : mark ∉ '+' :: hexDigits) (rest : List Char) :
    text ≠ mark :: rest := by
  rintro rfl
  exact outside (mem_of_spells spelled mark List.mem_cons_self)

theorem namedChar?_eq_some {name : List Char} {c : Char} :
    namedChar? name = some c ↔ Names numberSigns name c := by
  constructor
  · intro named
    unfold namedChar? at named
    split at named
    case h_1 => exact .hexadecimal (.inl rfl) ((natural?_bind_scalar? (.inr rfl)).mp named)
    case h_2 => exact .hexadecimal (.inr rfl) ((natural?_bind_scalar? (.inr rfl)).mp named)
    case h_3 => exact .decimal ((natural?_bind_scalar? (.inl rfl)).mp named)
    case h_10 => cases named
    all_goals
      obtain rfl := Option.some.inj named
      exact .word (by decide)
  · rintro (known | spelled | ⟨rfl | rfl, spelled⟩)
    · simp only [namedCharacters, List.map_cons, List.map_nil, List.mem_cons, Prod.mk.injEq,
        List.not_mem_nil, or_false] at known
      rcases known with ⟨rfl, rfl⟩ | ⟨rfl, rfl⟩ | ⟨rfl, rfl⟩ | ⟨rfl, rfl⟩ | ⟨rfl, rfl⟩ | ⟨rfl, rfl⟩ <;> rfl
    · rw [namedChar?]
      · exact (natural?_bind_scalar? (.inl rfl)).mpr spelled
      · exact spelled.ne_cons (by decide)
      · exact spelled.ne_cons (by decide)
    · exact (natural?_bind_scalar? (.inr rfl)).mpr spelled
    · exact (natural?_bind_scalar? (.inr rfl)).mpr spelled

theorem byteCount_of_names {name : List Char} {c : Char} (names : Names numberSigns name c) :
    Json.byteCount (name ++ [';']) = name.length + 1 := by
  have single : ∀ d ∈ name, d.utf8Size = 1 := by
    have words : ∀ entry ∈ namedCharacters, entry.1.all (fun d => d.utf8Size = 1) = true := by decide
    have digits : ('+' :: hexDigits).all (fun d => d.utf8Size = 1) = true := by decide
    simp only [List.all_eq_true, decide_eq_true_eq] at words digits
    obtain known | spelled | ⟨marked, spelled⟩ := names
    · exact words _ known
    · exact List.forall_mem_cons.mpr ⟨rfl, fun d inside => digits d (mem_of_spells spelled d inside)⟩
    · refine List.forall_mem_cons.mpr ⟨rfl, List.forall_mem_cons.mpr ⟨?_, fun d inside => ?_⟩⟩
      · rcases marked with rfl | rfl <;> rfl
      · exact digits d (mem_of_spells spelled d inside)
  clear names
  induction name with
  | nil => rfl
  | cons d name step =>
    obtain ⟨here, behind⟩ := List.forall_mem_cons.mp single
    have count := step behind
    simp only [Json.byteCount, List.cons_append, List.foldr_cons, List.length_cons] at count ⊢
    omega

private theorem eq_takeWhile_append_of_lt {p : Char → Bool} {cs : List Char}
    (stops : (cs.takeWhile p).length < cs.length) :
    ∃ c tail, p c = false ∧ cs = cs.takeWhile p ++ c :: tail := by
  have whole := List.takeWhile_append_dropWhile (p := p) (l := cs)
  have kept := List.head?_dropWhile_not p cs
  cases left : cs.dropWhile p with
  | nil =>
    rw [left, List.append_nil] at whole
    rw [whole] at stops
    omega
  | cons c tail =>
    rw [left] at whole kept
    exact ⟨c, tail, kept, whole.symm⟩

/-- A reference is found where one of the known names or numbers stands before the next semicolon. -/
theorem reference?_eq_some {rest : List Char} {c : Char} {length : Nat} :
    reference? rest = some (c, length) ↔ ∃ name tail, rest = name ++ ';' :: tail ∧
      length = name.length + 1 ∧ Refers numberSigns name c := by
  constructor
  · intro read
    simp only [reference?] at read
    split at read
    · rename_i stops
      obtain ⟨_, named, shape⟩ := Option.map_eq_some_iff.mp read
      obtain ⟨rfl, rfl⟩ := Prod.mk.inj shape
      obtain ⟨mark, tail, stop, window⟩ := eq_takeWhile_append_of_lt stops
      have semicolon : mark = ';' := by simpa using stop
      subst semicolon
      have names := namedChar?_eq_some.mp named
      refine ⟨_, tail ++ rest.drop 10, ?_, rfl, names, fun inside => ?_, ?_⟩
      · rw [← List.cons_append, ← List.append_assoc, ← window, List.take_append_drop]
      · simpa using List.all_eq_true.mp List.all_takeWhile _ inside
      · rw [byteCount_of_names names]
        have bound := List.length_take_le 10 rest
        omega
    · cases read
  · rintro ⟨name, tail, rfl, rfl, refers⟩
    have short := refers.near
    rw [byteCount_of_names refers.names] at short
    rw [reference?_append (by omega) refers.first, namedChar?_eq_some.mpr refers.names]
    rfl

theorem decodeFrom_amp_reference {name : List Char} {c : Char} (refers : Refers numberSigns name c)
    (rest : List Char) : decodeFrom 0 ('&' :: (name ++ ';' :: rest)) = c :: decodeFrom 0 rest := by
  have short := refers.near
  rw [byteCount_of_names refers.names] at short
  exact decodeFrom_reference name (by simpa using ⟨by omega, refers.first⟩)
    (namedChar?_eq_some.mpr refers.names) rest

theorem decodeFrom_other {c : Char} {rest : List Char}
    (noReference : ∀ name tail d, Refers numberSigns name d → c :: rest ≠ '&' :: (name ++ ';' :: tail)) :
    decodeFrom 0 (c :: rest) = c :: decodeFrom 0 rest := by
  by_cases amp : c = '&'
  · subst amp
    cases read : reference? rest with
    | none => simp [decodeFrom, read]
    | some found =>
      obtain ⟨name, tail, rfl, _, refers⟩ := reference?_eq_some.mp read
      exact absurd rfl (noReference name tail _ refers)
  · exact decodeFrom_cons amp rest

/-- Decoding goes from left to right and leaves a character alone where no reference begins. -/
theorem replaced_decode (cs : List Char) : Replaced numberSigns cs (decode cs) := by
  induction size : cs.length using Nat.strongRecOn generalizing cs with
  | ind size step =>
    subst size
    cases cs with
    | nil => exact .nil
    | cons c rest =>
      by_cases starts : ∃ name tail d, Refers numberSigns name d ∧ c :: rest = '&' :: (name ++ ';' :: tail)
      · obtain ⟨name, tail, d, refers, same⟩ := starts
        rw [same, decode, decodeFrom_amp_reference refers]
        exact .reference refers (step _ (by rw [same]; simp; omega) tail rfl)
      · have noReference : ∀ name tail d, Refers numberSigns name d → c :: rest ≠ '&' :: (name ++ ';' :: tail) :=
          fun name tail d refers same => starts ⟨name, tail, d, refers, same⟩
        rw [decode, decodeFrom_other noReference]
        exact .other noReference (step _ (by simp) rest rfl)

theorem Replaced.decode_eq {cs out : List Char} (replaced : Replaced numberSigns cs out) :
    decode cs = out := by
  induction replaced with
  | nil => rfl
  | reference refers _ step => rw [decode, decodeFrom_amp_reference refers, ← decode, step]
  | other none _ step => rw [decode, decodeFrom_other none, ← decode, step]

/-- Decoding replaces the references of a text by their characters and copies all else; there is
no other text that does. -/
theorem decode_eq_iff_replaced (cs out : List Char) : decode cs = out ↔ Replaced numberSigns cs out := by
  constructor
  · rintro rfl
    exact replaced_decode cs
  · exact Replaced.decode_eq

private theorem isDigit_of_unsigned {base : Nat} {text : List Char} {c : Char} (spelled : Spells [[]] base text c) :
    ∀ d ∈ text, IsDigit base d := by
  obtain ⟨known, _, all, _⟩ := spelled
  rwa [List.mem_singleton.mp known, List.nil_append]

/-- Without signs a number with a plus is no reference, but it is decoded. -/
theorem signed_number_decoded : ¬∀ cs out, decode cs = out ↔ Replaced [[]] cs out := by
  intro all
  have replaced : Replaced [[]] ['&', '#', '+', '6', '5', ';'] ['A'] := (all _ _).mp (by decide)
  generalize same : ['&', '#', '+', '6', '5', ';'] = text at replaced
  cases replaced with
  | @reference name _ _ _ refers behind =>
    cases behind
    have named : ['#', '+', '6', '5'] = name := (List.append_left_inj [';']).mp (List.cons.inj same).2
    obtain known | spelled | ⟨marked, _⟩ := named ▸ refers.names
    · exact absurd known (by decide)
    · exact ne_plus_of_isDigit (isDigit_of_unsigned spelled '+' (by simp)) rfl
    · exact absurd marked (by decide)
  | other => cases same

end UiPlan.Text
