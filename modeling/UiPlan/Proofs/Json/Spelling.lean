import UiPlan.Json.Reader

/-! The texts that strings are read from. Between its quotes a string is spelled by plain
characters, which stand for themselves, and by escapes, each of which is read alike whatever
follows it. A string is read exactly if a spelling and a quote stand there. No escape has a
backtick in it.
-/
namespace UiPlan.Json

/-- The reader takes this text and nothing else, whatever follows it. -/
def Reads {α : Type} (reader : Reader α) (text : List Char) (value : α) : Prop :=
  ∀ rest, reader (text ++ rest) = .ok (value, rest)

theorem ne_backtick_of_hexValue? {c : Char} {n : Nat} (hex : hexValue? c = some n) : c ≠ '`' := by
  rintro rfl
  cases hex

theorem reads_of_readUnit {cs rest : List Char} {unit : Nat} (ok : readUnit cs = .ok (unit, rest)) :
    ∃ text, cs = text ++ rest ∧ '`' ∉ text ∧ Reads readUnit text unit := by
  unfold readUnit at ok
  split at ok
  · rename_i a b c d tail
    split at ok
    · rename_i high second third low first_hex second_hex third_hex fourth_hex
      obtain ⟨rfl, rfl⟩ := Prod.mk.inj (Except.ok.inj ok)
      refine ⟨[a, b, c, d], rfl, ?_, fun rest => ?_⟩
      · have := ne_backtick_of_hexValue? first_hex
        have := ne_backtick_of_hexValue? second_hex
        have := ne_backtick_of_hexValue? third_hex
        have := ne_backtick_of_hexValue? fourth_hex
        simp_all [eq_comm]
      · simp only [List.cons_append, List.nil_append, readUnit, first_hex, second_hex, third_hex,
          fourth_hex]
    · cases ok
  · split at ok <;> cases ok

private theorem reads_of_readEscapedUnits {cs rest : List Char} {c : Char}
    (ok : readEscapedUnits cs = .ok (c, rest)) :
    ∃ text, cs = text ++ rest ∧ '`' ∉ text ∧ Reads readEscapedUnits text c := by
  unfold readEscapedUnits at ok
  split at ok
  · cases ok
  · rename_i high after found
    obtain ⟨text, rfl, plain, reads⟩ := reads_of_readUnit found
    split at ok
    · cases ok
    · rename_i notLow
      split at ok
      · rename_i isHigh
        split at ok
        · split at ok
          · cases ok
          · rename_i low tail found
            obtain ⟨pair, rfl, alsoPlain, pairReads⟩ := reads_of_readUnit found
            split at ok
            · rename_i isLow
              obtain ⟨rfl, rfl⟩ := Prod.mk.inj (Except.ok.inj ok)
              refine ⟨text ++ '\\' :: 'u' :: pair, by simp, by simp [plain, alsoPlain], fun rest => ?_⟩
              simp only [List.append_assoc, List.cons_append, readEscapedUnits, reads _, notLow, isHigh,
                pairReads _, isLow, if_true, Bool.false_eq_true, if_false]
            · cases ok
        · cases ok
        · cases ok
        · cases ok
        · cases ok
      · rename_i notHigh
        obtain ⟨rfl, rfl⟩ := Prod.mk.inj (Except.ok.inj ok)
        refine ⟨text, rfl, plain, fun rest => ?_⟩
        simp only [readEscapedUnits, reads _, notLow, notHigh, Bool.false_eq_true, if_false]

private theorem reads_of_readEscape {cs rest : List Char} {c : Char} (ok : readEscape cs = .ok (c, rest)) :
    ∃ text, cs = text ++ rest ∧ '`' ∉ text ∧ Reads readEscape text c := by
  unfold readEscape at ok
  split at ok
  case h_10 tail =>
    obtain ⟨text, rfl, plain, reads⟩ := reads_of_readEscapedUnits ok
    exact ⟨'u' :: text, rfl, by simp [plain], fun rest => reads rest⟩
  case h_1 | h_11 => cases ok
  all_goals
    obtain ⟨rfl, rfl⟩ := Prod.mk.inj (Except.ok.inj ok)
    exact ⟨[_], rfl, by simp, fun rest => rfl⟩

inductive Spells : List Char → List Char → Prop
  | nil : Spells [] []
  | plain {c : Char} {text content : List Char} (noQuote : c ≠ '"') (noEscape : c ≠ '\\')
      (noControl : ¬c.toNat < 32) (behind : Spells text content) : Spells (c :: text) (c :: content)
  | escape {c : Char} {escaped text content : List Char} (noBacktick : '`' ∉ escaped)
      (reads : Reads readEscape escaped c) (behind : Spells text content) :
      Spells ('\\' :: (escaped ++ text)) (c :: content)

private theorem spells_of_readStringFrom {budget : Nat} {read cs rest : List Char} {value : String}
    (ok : readStringFrom budget read cs = .ok (value, rest)) :
    ∃ text content, Spells text content ∧ cs = text ++ '"' :: rest ∧
      value = .ofList (read.reverse ++ content) := by
  induction budget generalizing read cs with
  | zero => cases ok
  | succ budget step =>
    unfold readStringFrom at ok
    split at ok
    · cases ok
    · obtain ⟨rfl, rfl⟩ := Prod.mk.inj (Except.ok.inj ok)
      exact ⟨[], [], .nil, rfl, by simp⟩
    · split at ok
      · cases ok
      · rename_i c after found
        obtain ⟨escaped, rfl, noBacktick, reads⟩ := reads_of_readEscape found
        obtain ⟨text, content, spells, rfl, rfl⟩ := step ok
        exact ⟨_, _, .escape noBacktick reads spells, by simp, by simp⟩
    · rename_i c after noQuote noEscape
      split at ok
      · cases ok
      · rename_i noControl
        obtain ⟨text, content, spells, rfl, rfl⟩ := step ok
        exact ⟨_, _, .plain noQuote noEscape noControl spells, rfl, by simp⟩

theorem Spells.readStringFrom {text content : List Char} (spells : Spells text content)
    {budget : Nat} (bound : text.length < budget) (read rest : List Char) :
    readStringFrom budget read (text ++ '"' :: rest) = .ok (.ofList (read.reverse ++ content), rest) := by
  induction spells generalizing budget read with
  | nil =>
    obtain ⟨left, rfl⟩ := Nat.exists_eq_add_of_le' (Nat.one_le_of_lt bound)
    simp [Json.readStringFrom]
  | @plain c text content noQuote noEscape noControl behind step =>
    obtain ⟨left, rfl⟩ := Nat.exists_eq_add_of_le' (Nat.one_le_of_lt bound)
    have later := step (by simpa using bound) (c :: read)
    rw [List.cons_append, Json.readStringFrom]
    · simpa [noControl] using later
    · exact noQuote
    · exact noEscape
  | @escape c escaped text content noBacktick reads behind step =>
    obtain ⟨left, rfl⟩ := Nat.exists_eq_add_of_le' (Nat.one_le_of_lt bound)
    simp only [List.length_cons, List.length_append] at bound
    have enough : text.length < left := by omega
    have later := step enough (c :: read)
    have taken := reads (text ++ '"' :: rest)
    simp only [List.cons_append, List.append_assoc, Json.readStringFrom, taken]
    simpa using later

/-- What stands before the closing quote of a string spells its characters. -/
theorem readString_iff {cs rest : List Char} {value : String} :
    readString cs = .ok (value, rest) ↔
      ∃ text content, Spells text content ∧ cs = text ++ '"' :: rest ∧ value = .ofList content := by
  constructor
  · intro ok
    simpa using spells_of_readStringFrom ok
  · rintro ⟨text, content, spells, rfl, rfl⟩
    exact spells.readStringFrom (by rw [List.length_append]; omega) [] rest

theorem Spells.of_cons {c : Char} {text content : List Char} (spells : Spells (c :: text) content)
    (noEscape : c ≠ '\\') : ¬c.toNat < 32 ∧ ∃ inner, Spells text inner := by
  cases spells with
  | plain _ _ noControl behind => exact ⟨noControl, _, behind⟩
  | escape => exact absurd rfl noEscape

theorem Spells.of_append {front text content : List Char} (noEscape : '\\' ∉ front)
    (spells : Spells (front ++ text) content) : ∃ inner, Spells text inner := by
  induction front generalizing content with
  | nil => exact ⟨content, spells⟩
  | cons c front step =>
    simp only [List.mem_cons, not_or] at noEscape
    obtain ⟨here, behind⟩ := noEscape
    obtain ⟨_, _, inner⟩ := spells.of_cons (Ne.symm here)
    exact step behind inner

end UiPlan.Json
