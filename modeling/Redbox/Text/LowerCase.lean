import Redbox.Text.JsString

/-! `toLowerCase` of ECMAScript: every character is replaced on its own, and only a few
look at what stands around them. The tables of Unicode are a parameter. -/
namespace Text

/-- The characters that delimit addresses, one by one. -/
theorem forall_marks {P : Char → Prop} : (∀ d ∈ ['@', '<', '>', '"'], P d) ↔ P '@' ∧ P '<' ∧
    P '>' ∧ P '"' := by
  simp only [List.forall_mem_cons, List.not_mem_nil, false_implies, implies_true, and_true]

/-- What stands for a character between the ones before it, the nearest first, and the
ones behind it. -/
structure LowerTable where
  lower : List Char → Char → List Char → List Char
  ascii : ∀ before c after, c.toNat < 128 → lower before c after = [c.toLower]
  space : ∀ before c after, isSpace c = true → lower before c after = [c]
  other : ∀ before c after, 128 ≤ c.toNat → isSpace c = false →
    lower before c after ≠ [] ∧ ∀ d ∈ lower before c after, isSpace d = false ∧
      d ∉ ['@', '<', '>', '"']
  cut_after : ∀ before c after rest, lower before c (after ++ '@' :: rest) = lower before c after
  cut_before : ∀ before c after rest, lower (before ++ '@' :: rest) c after = lower before c after

namespace LowerTable
variable (table : LowerTable)

def run (before : List Char) : List Char → List Char
  | [] => []
  | c :: after => table.lower before c after ++ run (c :: before) after

/-- `toLowerCase` -/
def toLowerCase (s : String) : String := String.ofList (table.run [] s.toList)

variable {table} {before after cs ds : List Char} {c d : Char}

theorem toList_toLowerCase (s : String) : (table.toLowerCase s).toList = table.run [] s.toList :=
  String.toList_ofList

theorem lower_cases (table : LowerTable) (before : List Char) (c : Char) (after : List Char) :
    table.lower before c after = [c.toLower] ∧ c.toNat < 128 ∨ table.lower before c after = [c] ∧
    isSpace c = true ∨
      128 ≤ c.toNat ∧ table.lower before c after ≠ [] ∧
        ∀ d ∈ table.lower before c after, isSpace d = false ∧ d ∉ ['@', '<', '>', '"'] := by
  by_cases hascii : c.toNat < 128
  · exact .inl ⟨table.ascii before c after hascii, hascii⟩
  · by_cases hspace : isSpace c = true
    · exact .inr (.inl ⟨table.space before c after hspace, hspace⟩)
    · exact .inr (.inr ⟨Nat.not_lt.mp hascii,
        table.other before c after (Nat.not_lt.mp hascii) (Bool.eq_false_iff.mpr hspace)⟩)

theorem lower_ne_nil : table.lower before c after ≠ [] := by
  rcases table.lower_cases before c after with ⟨h, -⟩ | ⟨h, -⟩ | ⟨-, h, -⟩
  · rw [h]
    exact List.cons_ne_nil _ _
  · rw [h]
    exact List.cons_ne_nil _ _
  · exact h

theorem toNat_toLower (h : c.toNat < 128) :
    c.toLower.toNat < 128 ∧ (isSpace c.toLower = isSpace c) ∧
    (∀ d ∈ ['@', '<', '>', '"'], c.toLower = d ↔ c = d) := by
  have hall : ∀ n, n < 128 → (Char.ofNat n).toLower.toNat < 128 ∧
    (isSpace (Char.ofNat n).toLower = isSpace (Char.ofNat n)) ∧
      ((Char.ofNat n).toLower = '@' ↔ Char.ofNat n = '@') ∧
        ((Char.ofNat n).toLower = '<' ↔ Char.ofNat n = '<') ∧
      ((Char.ofNat n).toLower = '>' ↔ Char.ofNat n = '>') ∧
        ((Char.ofNat n).toLower = '"' ↔ Char.ofNat n = '"') := by
    decide +kernel
  have hc := hall c.toNat h
  rw [Char.ofNat_toNat] at hc
  exact ⟨hc.1, hc.2.1, forall_marks.mpr hc.2.2⟩

/-- White space comes from white space. -/
theorem isSpace_lower (h : isSpace c = false) :
    ∀ d ∈ table.lower before c after, isSpace d = false := by
  rcases table.lower_cases before c after with ⟨hl, hascii⟩ | ⟨-, hspace⟩ | ⟨-, -, hl⟩
  · intro d hd
    rw [hl, List.mem_singleton] at hd
    rw [hd, (toNat_toLower hascii).2.1, h]
  · rw [hspace] at h
    cases h
  · exact fun d hd => (hl d hd).1

/-- A mark of addresses comes from itself. -/
theorem mark_lower (hd : d ∈ ['@', '<', '>', '"']) (h : d ∈ table.lower before c after) :
    c = d := by
  rcases table.lower_cases before c after with ⟨hl, hascii⟩ | ⟨hl, -⟩ | ⟨-, -, hl⟩
  · rw [hl, List.mem_singleton] at h
    exact ((toNat_toLower hascii).2.2 d hd).mp h.symm
  · rw [hl, List.mem_singleton] at h
    exact h.symm
  · exact absurd hd (hl d h).2

theorem mark_ascii : ∀ d ∈ ['@', '<', '>', '"'], d.toNat < 128 ∧ d.toLower = d :=
  forall_marks.mpr (by decide)

theorem mark_run (hd : d ∈ ['@', '<', '>', '"']) : d ∈ table.run before cs ↔ d ∈ cs := by
  induction cs generalizing before with
  | nil => exact Iff.rfl
  | cons c cs ih =>
    rw [run, List.mem_append, List.mem_cons, ih]
    constructor
    · exact fun h => h.imp_left fun h => (mark_lower hd h).symm
    · rintro (rfl | h)
      · left
        have hascii : d.toNat < 128 := mark_ascii d hd |>.1
        have hself : d.toLower = d := mark_ascii d hd |>.2
        rw [table.ascii before d cs hascii, hself]
        exact List.mem_singleton_self d
      · exact .inr h

theorem run_ascii (h : ∀ c ∈ cs, c.toNat < 128) : table.run before cs = cs.map Char.toLower := by
  induction cs generalizing before with
  | nil => rfl
  | cons c cs ih =>
    rw [run, table.ascii before c cs (h c List.mem_cons_self),
      ih fun d hd => h d (List.mem_cons_of_mem _ hd)]
    rfl

theorem run_eq_nil : table.run before cs = [] ↔ cs = [] := by
  cases cs with
  | nil => exact Iff.rfl
  | cons c cs => simp [run, lower_ne_nil]

/-- The end of a text is lowered behind the rest. -/
theorem run_append : ∃ front : List Char,
      table.run before (cs ++ ds) = front ++ table.run (cs.reverse ++ before) ds ∧
    (front = [] ↔ cs = []) := by
  induction cs generalizing before with
  | nil => exact ⟨[], rfl, Iff.rfl⟩
  | cons c cs ih =>
    obtain ⟨front, hfront, -⟩ := @ih (c :: before)
    refine ⟨table.lower before c (cs ++ ds) ++ front, ?_, ?_⟩
    · rw [List.cons_append, run, hfront, List.append_assoc, List.reverse_cons, List.append_assoc]
      rfl
    · simp [lower_ne_nil]

theorem run_cut_before (before ds cs : List Char) :
    table.run (before ++ '@' :: ds) cs = table.run before cs := by
  induction cs generalizing before with
  | nil => rfl
  | cons c cs ih =>
    rw [run, run, table.cut_before]
    exact congrArg _ (ih (c :: before))

/-- The two sides of an at sign do not see each other. -/
theorem run_at : table.run before (cs ++ '@' :: ds) = table.run before cs ++ '@' ::
      table.run [] ds := by
  induction cs generalizing before with
  | nil =>
    have hat : table.run before ('@' :: ds) = '@' :: table.run ('@' :: before) ds := by
      rw [run, table.ascii before '@' ds (by decide)]
      rfl
    exact hat.trans (congrArg ('@' :: ·) (run_cut_before [] before ds))
  | cons c cs ih => rw [List.cons_append, run, run, table.cut_after, ih, List.append_assoc]

end LowerTable

/-- What `trim` leaves: no white space at either end. -/
def Trimmed (cs : List Char) : Prop := (∀ c, cs.head? = some c → isSpace c = false) ∧
    ∀ c, cs.getLast? = some c → isSpace c = false

section
variable {cs ds : List Char} {table : LowerTable}

theorem dropWhile_of_head (h : ∀ c, cs.head? = some c → isSpace c = false) :
    cs.dropWhile isSpace = cs := by
  cases cs with
  | nil => rfl
  | cons c cs => rw [List.dropWhile_cons, if_neg (by rw [h c rfl]; decide)]

theorem head_dropWhile (cs : List Char) : ∀ c, (cs.dropWhile isSpace).head? = some c →
    isSpace c = false := by
  intro c h
  have hnot := List.head?_dropWhile_not isSpace cs
  rw [h] at hnot
  exact Bool.not_eq_true _ ▸ (by simpa using hnot)

theorem Trimmed.trimList (h : Trimmed cs) : trimList cs = cs := by
  rw [Text.trimList, dropWhile_of_head h.1, dropWhile_of_head, List.reverse_reverse]
  rw [List.head?_reverse]
  exact h.2

theorem trimmed_trimList (cs : List Char) : Trimmed (trimList cs) := by
  constructor
  · intro c h
    obtain ⟨rest, hrest⟩ := List.dropWhile_suffix isSpace (l := (cs.dropWhile isSpace).reverse)
    have hfront : cs.dropWhile isSpace = trimList cs ++ rest.reverse := by
      rw [trimList, ← List.reverse_append, hrest, List.reverse_reverse]
    apply head_dropWhile cs c
    rw [hfront, List.head?_append, h]
    rfl
  · intro c h
    rw [trimList, List.getLast?_reverse] at h
    exact head_dropWhile _ c h

/-- Lowering keeps the ends of a text. -/
theorem Trimmed.run (h : Trimmed cs) : Trimmed (table.run [] cs) := by
  constructor
  · cases cs with
    | nil => exact h.1
    | cons c cs =>
      intro d hd
      have hfirst : ∃ front, table.lower [] c cs = d :: front := by
        cases hl : table.lower [] c cs with
        | nil => exact absurd hl LowerTable.lower_ne_nil
        | cons x front =>
          rw [LowerTable.run, hl] at hd
          exact ⟨front, by rw [Option.some.inj hd]⟩
      obtain ⟨front, hfront⟩ := hfirst
      exact LowerTable.isSpace_lower (h.1 c rfl) d (hfront ▸ List.mem_cons_self)
  · intro d hd
    cases hcs : cs.getLast? with
    | none =>
      rw [List.getLast?_eq_none_iff] at hcs
      rw [hcs] at hd
      cases hd
    | some c =>
      obtain ⟨init, rfl⟩ := List.getLast?_eq_some_iff.mp hcs
      obtain ⟨front, hfront, -⟩ := @LowerTable.run_append table [] init [c]
      have hlast : d ∈ table.lower (init.reverse ++ []) c [] := by
        have hrun : table.run (init.reverse ++ []) [c] = table.lower (init.reverse ++ []) c [] :=
          List.append_nil _
        rw [hfront, hrun, List.getLast?_append_of_ne_nil _ LowerTable.lower_ne_nil] at hd
        exact List.mem_of_getLast? hd
      exact LowerTable.isSpace_lower (h.2 c hcs) d hlast

/-- White space at an end stays there. -/
theorem Trimmed.of_run (h : Trimmed (table.run [] cs)) : Trimmed cs := by
  constructor
  · intro c hc
    by_contra hspace
    have hspace : isSpace c = true := Bool.not_eq_false _ ▸ hspace
    cases cs with
    | nil => cases hc
    | cons d cs =>
      rw [List.head?_cons, Option.some.injEq] at hc
      subst hc
      have hrun : (table.run [] (d :: cs)).head? = some d := by
        rw [LowerTable.run, table.space [] d cs hspace]
        rfl
      rw [h.1 d hrun] at hspace
      cases hspace
  · intro c hc
    by_contra hspace
    have hspace : isSpace c = true := Bool.not_eq_false _ ▸ hspace
    obtain ⟨init, rfl⟩ := List.getLast?_eq_some_iff.mp hc
    obtain ⟨front, hfront, -⟩ := @LowerTable.run_append table [] init [c]
    have hrun : table.run (init.reverse ++ []) [c] = [c] := by
      rw [LowerTable.run, table.space _ c [] hspace]
      rfl
    have hlast := h.2 c (by rw [hfront, hrun, List.getLast?_concat])
    rw [hlast] at hspace
    cases hspace

end
/-- The rules for ASCII alone. -/
def asciiTable : LowerTable where
  lower := fun _ c _ => if c.toNat < 128 then [c.toLower] else [c]
  ascii := fun _ _ _ h => if_pos h
  space := by
    intro _ c _ h
    split
    · rename_i hascii
      have hall : ∀ n, n < 128 → isSpace (Char.ofNat n) = true →
          (Char.ofNat n).toLower = Char.ofNat n := by decide +kernel
      have hc := hall c.toNat hascii
      rw [Char.ofNat_toNat] at hc
      rw [hc h]
    · rfl
  other := by
    intro _ c _ hascii hspace
    rw [if_neg (Nat.not_lt.mpr hascii)]
    refine ⟨List.cons_ne_nil _ _, fun d hd => ?_⟩
    rw [List.mem_singleton] at hd
    subst hd
    exact ⟨hspace, fun hmem => absurd hascii (Nat.not_le.mpr (LowerTable.mark_ascii d hmem).1)⟩
  cut_after := fun _ _ _ _ => rfl
  cut_before := fun _ _ _ _ => rfl

end Text
