/-
A value that is written is read back.

`pretty` writes a value over several lines, and `parse?` reads it back, blanks and all
(`parse?_pretty`).  This holds of plain values, which are those without numbers.  The reader is given
as much fuel as the text is long; `steps` is what a value needs, and it is never more than that.
-/
import Plumbline.Text.Json
import Mathlib.Tactic.SplitIfs

namespace Plumbline

namespace Json

/-! ### Blanks -/

theorem skipSpace_append {blanks : List Char} (h : ∀ c ∈ blanks, isSpace c = true)
    (cs : List Char) : skipSpace (blanks ++ cs) = skipSpace cs := by
  induction blanks with
  | nil => rfl
  | cons c blanks ih =>
      have hc : isSpace c = true := h c (by simp)
      have hrest := ih fun x hx => h x (by simp [hx])
      simpa [skipSpace, hc] using hrest

theorem skipSpace_of_not_space {c : Char} (h : isSpace c = false) (cs : List Char) :
    skipSpace (c :: cs) = c :: cs := by
  simp [skipSpace, h]

theorem skipSpace_skipSpace (cs : List Char) : skipSpace (skipSpace cs) = skipSpace cs := by
  induction cs with
  | nil => rfl
  | cons c cs ih => by_cases h : isSpace c = true <;> simp_all [skipSpace]

theorem isSpace_of_mem_newLine {level : Nat} {c : Char} (h : c ∈ (newLine level).toList) :
    isSpace c = true := by
  simp only [newLine, String.toList_append, String.toList_ofList, List.mem_append,
    List.mem_replicate] at h
  rcases h with h | ⟨-, rfl⟩
  · have : c = '\n' := by simpa using h
    subst this
    decide
  · decide

theorem skipSpace_newLine (level : Nat) (cs : List Char) :
    skipSpace ((newLine level).toList ++ cs) = skipSpace cs :=
  skipSpace_append (fun _ => isSpace_of_mem_newLine) cs

/-- Blanks in front of a value do not matter. -/
theorem readValue_skipSpace (fuel : Nat) {cs cs' : List Char} (h : skipSpace cs = skipSpace cs') :
    readValue fuel cs = readValue fuel cs' := by
  cases fuel with
  | zero => simp only [readValue]
  | succ fuel => rw [readValue, readValue, h]

/-! ### Texts -/

/-- The two digits of a control character stand for it. -/
theorem hex4?_control {n : Nat} (h : n < 32) (rest : List Char) :
    hex4? ('0' :: '0' :: Nat.digitChar (n / 16) :: Nat.digitChar (n % 16) :: rest) =
      some (n, rest) := by
  have hdigit : ∀ d, d < 16 → hexValue? (Nat.digitChar d) = some d := by decide
  have hzero : hexValue? '0' = some 0 := by decide
  have hsum : n / 16 * 16 + n % 16 = n := by omega
  simp [hex4?, hzero, hdigit (n / 16) (by omega), hdigit (n % 16) (by omega), hsum]

/-- An escaped character is read as itself. -/
theorem readText_escapeChar (fuel : Nat) (c : Char) (cs acc : List Char) :
    readText (fuel + 1) (escapeChar c ++ cs) (some acc) = readText fuel cs (some (c :: acc)) := by
  by_cases hshort : c = '"' ∨ c = '\\' ∨ c = '\n' ∨ c = '\r' ∨ c = '\t'
  · rcases hshort with rfl | rfl | rfl | rfl | rfl <;> simp [escapeChar, readText, shortEscape?]
  · obtain ⟨h₁, h₂, h₃, h₄, h₅⟩ : c ≠ '"' ∧ c ≠ '\\' ∧ c ≠ '\n' ∧ c ≠ '\r' ∧ c ≠ '\t' := by
      simpa only [not_or] using hshort
    have hself : Char.ofNat c.toNat = c := Char.ofNat_toNat c
    by_cases hback : c.toNat = 8
    · rw [hback] at hself
      subst hself
      simp [escapeChar, readText, shortEscape?]
    by_cases hfeed : c.toNat = 12
    · rw [hfeed] at hself
      subst hself
      simp [escapeChar, readText, shortEscape?]
    by_cases hcontrol : c.toNat < 32
    · have hread : unicodeEscape? ('0' :: '0' :: Nat.digitChar (c.toNat / 16) ::
          Nat.digitChar (c.toNat % 16) :: cs) = some (some c, cs) := by
        rw [unicodeEscape?, hex4?_control hcontrol]
        simp [hself, show ¬ 55296 ≤ c.toNat by omega, show ¬ 56320 ≤ c.toNat by omega]
      simp [escapeChar, h₁, h₂, h₃, h₄, h₅, hback, hfeed, hcontrol, readText, hread]
    · simp [escapeChar, h₁, h₂, h₃, h₄, h₅, hback, hfeed, hcontrol, readText]

theorem readText_flatMap_escapeChar (s rest acc : List Char) (fuel : Nat)
    (h : s.length < fuel) :
    readText fuel (s.flatMap escapeChar ++ '"' :: rest) (some acc) =
      some (some (String.ofList (acc.reverse ++ s)), rest) := by
  induction s generalizing fuel acc with
  | nil =>
      obtain ⟨fuel, rfl⟩ := Nat.exists_eq_succ_of_ne_zero (Nat.ne_of_gt h)
      simp [readText]
  | cons c s ih =>
      obtain ⟨fuel, rfl⟩ := Nat.exists_eq_succ_of_ne_zero (Nat.ne_of_gt (Nat.zero_lt_of_lt h))
      rw [List.flatMap_cons, List.append_assoc, readText_escapeChar,
        ih (c :: acc) fuel (by simpa using h)]
      simp

theorem length_le_length_flatMap_escapeChar (s : List Char) :
    s.length ≤ (s.flatMap escapeChar).length := by
  have hone : ∀ c, 1 ≤ (escapeChar c).length := by
    intro c
    unfold escapeChar
    split_ifs <;> simp
  induction s with
  | nil => simp
  | cons c s ih =>
      have := hone c
      simp only [List.flatMap_cons, List.length_append, List.length_cons]
      omega

/-- **A written text is read as it was.** -/
theorem readText?_renderText (s : String) (rest : List Char) :
    ∃ cs, (renderText s).toList ++ rest = '"' :: cs ∧ readText? cs = some (some s, rest) := by
  refine ⟨s.toList.flatMap escapeChar ++ '"' :: rest, by simp [renderText], ?_⟩
  unfold readText?
  rw [readText_flatMap_escapeChar]
  · simp
  · have := length_le_length_flatMap_escapeChar s.toList
    simp only [List.length_append, List.length_cons]
    omega

/-! ### Values -/

mutual

/-- Values without numbers, all of which can be held. -/
def isPlain : Json → Bool
  | null | bool _ | str _ => true
  | arr items => arePlain items
  | obj fields => arePlainFields fields
  | int _ | float _ | unrepresentable => false

def arePlain : List Json → Bool
  | [] => true
  | j :: rest => isPlain j && arePlain rest

def arePlainFields : List (String × Json) → Bool
  | [] => true
  | (_, j) :: rest => isPlain j && arePlainFields rest

end

mutual

/-- The fuel that reading a value takes. -/
def steps : Json → Nat
  | arr items => stepsIn items + 1
  | obj fields => stepsInFields fields + 1
  | _ => 1

def stepsIn : List Json → Nat
  | [] => 0
  | j :: rest => steps j + stepsIn rest + 1

def stepsInFields : List (String × Json) → Nat
  | [] => 0
  | (_, j) :: rest => steps j + stepsInFields rest + 1

end

theorem steps_pos (j : Json) : 0 < steps j := by
  cases j <;> simp [steps]

/-- The characters with which plain values start. -/
def isHead (c : Char) : Bool := ['n', 't', 'f', '"', '[', '\x7b'].contains c

theorem exists_head_pretty {j : Json} (h : isPlain j = true) (level : Nat) :
    ∃ c cs, (pretty level j).toList = c :: cs ∧ isHead c = true := by
  have hhead : (pretty level j).toList.head?.any isHead = true := by
    match j with
    | null => simp [pretty, isHead]
    | bool true => simp [pretty, isHead]
    | bool false => simp [pretty, isHead]
    | str s => simp [pretty, renderText, isHead]
    | arr [] => simp [pretty, isHead]
    | arr (_ :: _) => simp [pretty, isHead]
    | obj [] => simp [pretty, isHead]
    | obj (_ :: _) => simp [pretty, isHead]
    | int _ => exact absurd h (by simp [isPlain])
    | float _ => exact absurd h (by simp [isPlain])
    | unrepresentable => exact absurd h (by simp [isPlain])
  cases htext : (pretty level j).toList with
  | nil => simp [htext] at hhead
  | cons c cs => exact ⟨c, cs, rfl, by simpa [htext] using hhead⟩

theorem isSpace_of_isHead {c : Char} (h : isHead c = true) : isSpace c = false := by
  have hmem : c ∈ ['n', 't', 'f', '"', '[', '\x7b'] := by simpa [isHead] using h
  have : ∀ c ∈ ['n', 't', 'f', '"', '[', '\x7b'], isSpace c = false := by simp [isSpace]
  exact this c hmem

theorem ne_bracket_of_isHead {c : Char} (h : isHead c = true) : c ≠ ']' := by
  rintro rfl
  exact absurd h (by decide)

/-- The text of items, up to and with the closing bracket. -/
def itemsText (level : Nat) (items : List Json) : List Char :=
  (",".intercalate (prettyItems (level + 1) items)).toList ++ ((newLine level).toList ++ [']'])

def fieldsText (level : Nat) (fields : List (String × Json)) : List Char :=
  (",".intercalate (prettyFields (level + 1) fields)).toList ++
    ((newLine level).toList ++ ['\x7d'])

theorem itemsText_singleton (level : Nat) (j : Json) : itemsText level [j] =
    (newLine (level + 1)).toList ++ ((pretty (level + 1) j).toList ++
      ((newLine level).toList ++ [']'])) := by
  simp [itemsText, prettyItems]

theorem itemsText_cons_cons (level : Nat) (j k : Json) (items : List Json) :
    itemsText level (j :: k :: items) =
      (newLine (level + 1)).toList ++ ((pretty (level + 1) j).toList ++
        ',' :: itemsText level (k :: items)) := by
  simp [itemsText, prettyItems, String.intercalate_cons_cons]

theorem fieldsText_singleton (level : Nat) (key : String) (j : Json) :
    fieldsText level [(key, j)] =
      (newLine (level + 1)).toList ++ ((renderText key).toList ++ ':' :: ' ' ::
        ((pretty (level + 1) j).toList ++ ((newLine level).toList ++ ['\x7d']))) := by
  simp [fieldsText, prettyFields]

theorem fieldsText_cons_cons (level : Nat) (key : String) (j : Json) (f : String × Json)
    (fields : List (String × Json)) : fieldsText level ((key, j) :: f :: fields) =
      (newLine (level + 1)).toList ++ ((renderText key).toList ++ ':' :: ' ' ::
        ((pretty (level + 1) j).toList ++ ',' :: fieldsText level (f :: fields))) := by
  simp [fieldsText, prettyFields, String.intercalate_cons_cons]

theorem pretty_arr_cons (level : Nat) (j : Json) (items : List Json) :
    (pretty level (arr (j :: items))).toList = '[' :: itemsText level (j :: items) := by
  simp [pretty, itemsText]

theorem pretty_obj_cons (level : Nat) (f : String × Json) (fields : List (String × Json)) :
    (pretty level (obj (f :: fields))).toList = '\x7b' :: fieldsText level (f :: fields) := by
  simp [pretty, fieldsText]

theorem readItems_skipSpace (fuel : Nat) (cs : List Char) (acc : List Json) :
    readItems fuel (skipSpace cs) acc = readItems fuel cs acc := by
  cases fuel with
  | zero => simp only [readItems]
  | succ fuel => rw [readItems, readItems, readValue_skipSpace fuel (skipSpace_skipSpace cs)]

theorem readFields_skipSpace (fuel : Nat) (cs : List Char) (acc : Option (List (String × Json))) :
    readFields fuel (skipSpace cs) acc = readFields fuel cs acc := by
  cases fuel with
  | zero => simp only [readFields]
  | succ fuel => rw [readFields, readFields, skipSpace_skipSpace]

theorem exists_head_itemsText {j : Json} (h : isPlain j = true) (level : Nat) (items : List Json)
    (rest : List Char) :
    ∃ c cs, skipSpace (itemsText level (j :: items) ++ rest) = c :: cs ∧ isHead c = true := by
  obtain ⟨c, cs, htext, hhead⟩ := exists_head_pretty h (level + 1)
  have hskip := fun tail => skipSpace_of_not_space (isSpace_of_isHead hhead) (cs ++ tail)
  cases items with
  | nil =>
      rw [itemsText_singleton, List.append_assoc, skipSpace_newLine, htext, List.cons_append,
        List.cons_append, List.append_assoc, hskip]
      exact ⟨c, _, rfl, hhead⟩
  | cons k items =>
      rw [itemsText_cons_cons, List.append_assoc, skipSpace_newLine, htext, List.cons_append,
        List.cons_append, List.append_assoc, hskip]
      exact ⟨c, _, rfl, hhead⟩

theorem exists_head_fieldsText (level : Nat) (key : String) (j : Json)
    (fields : List (String × Json)) (rest : List Char) :
    ∃ cs, skipSpace (fieldsText level ((key, j) :: fields) ++ rest) = '"' :: cs := by
  cases fields with
  | nil =>
      rw [fieldsText_singleton, List.append_assoc, skipSpace_newLine]
      simp [renderText, skipSpace_of_not_space (show isSpace '"' = false by decide)]
  | cons f fields =>
      rw [fieldsText_cons_cons, List.append_assoc, skipSpace_newLine]
      simp [renderText, skipSpace_of_not_space (show isSpace '"' = false by decide)]

/-- Wherever the value stands in a text, it is read as it was. -/
def Reads (j : Json) : Prop :=
  ∀ level fuel rest, steps j ≤ fuel + 1 →
    readValue (fuel + 1) ((pretty level j).toList ++ rest) = some (j, rest)

theorem readItems_itemsText {j : Json} {items : List Json} (hj : Reads j)
    (hitems : ∀ k ∈ items, Reads k) (level fuel : Nat) (hfuel : stepsIn (j :: items) ≤ fuel)
    (acc : List Json) (rest : List Char) :
    readItems fuel (itemsText level (j :: items) ++ rest) acc =
      some (arr (acc.reverse ++ j :: items), rest) := by
  induction items generalizing j fuel acc with
  | nil =>
      simp only [stepsIn] at hfuel
      obtain ⟨fuel, rfl⟩ : ∃ n, fuel = n + 2 :=
        Nat.exists_eq_add_of_le' (by have := steps_pos j; omega)
      have hvalue := hj (level + 1) fuel ((newLine level).toList ++ ']' :: rest) (by omega)
      have hspace : skipSpace ((newLine level).toList ++ ']' :: rest) = ']' :: rest := by
        rw [skipSpace_newLine, skipSpace_of_not_space (by decide)]
      rw [itemsText_singleton, readItems]
      simp only [List.append_assoc, List.cons_append, List.nil_append]
      rw [readValue_skipSpace (fuel + 1) (skipSpace_newLine _ _), hvalue]
      simp [hspace]
  | cons k items ih =>
      rw [stepsIn] at hfuel
      obtain ⟨fuel, rfl⟩ : ∃ n, fuel = n + 2 :=
        Nat.exists_eq_add_of_le' (by have := steps_pos j; omega)
      have hvalue := hj (level + 1) fuel (',' :: (itemsText level (k :: items) ++ rest))
        (by omega)
      have hrest := ih (hitems k (by simp)) (fun k' hk' => hitems k' (by simp [hk'])) (fuel + 1)
        (by omega) (j :: acc)
      rw [itemsText_cons_cons, readItems]
      simp only [List.append_assoc, List.cons_append]
      rw [readValue_skipSpace (fuel + 1) (skipSpace_newLine _ _), hvalue]
      simp only [Option.bind_eq_bind, Option.bind_some]
      rw [skipSpace_of_not_space (by decide)]
      simpa using hrest

/-- A field is read with the mark after its value. -/
theorem readFields_field {j : Json} (hj : Reads j) (key : String) (level fuel : Nat)
    (hfuel : steps j ≤ fuel + 1) (acc : List (String × Json)) (tail : List Char) :
    readFields (fuel + 2) ((newLine (level + 1)).toList ++ ((renderText key).toList ++
      ':' :: ' ' :: ((pretty (level + 1) j).toList ++ tail))) (some acc) =
    match skipSpace tail with
    | ',' :: rest => readFields (fuel + 1) rest (some ((key, j) :: acc))
    | '\x7d' :: rest => some (obj ((key, j) :: acc).reverse, rest)
    | _ => none := by
  obtain ⟨cs, htext, hread⟩ := readText?_renderText key
    (':' :: ' ' :: ((pretty (level + 1) j).toList ++ tail))
  have hspace : skipSpace (' ' :: ((pretty (level + 1) j).toList ++ tail)) =
      skipSpace ((pretty (level + 1) j).toList ++ tail) :=
    skipSpace_append (by simp [isSpace] : ∀ c ∈ [' '], isSpace c = true) _
  rw [htext, readFields, skipSpace_newLine, skipSpace_of_not_space (by decide)]
  simp only [hread, Option.bind_eq_bind, Option.bind_some]
  rw [skipSpace_of_not_space (by decide)]
  simp only [readValue_skipSpace (fuel + 1) hspace, hj (level + 1) fuel tail hfuel,
    Option.bind_some, Option.map_some]
  rfl

theorem readFields_fieldsText {f : String × Json} {fields : List (String × Json)}
    (hf : Reads f.2) (hfields : ∀ g ∈ fields, Reads g.2) (level fuel : Nat)
    (hfuel : stepsInFields (f :: fields) ≤ fuel) (acc : List (String × Json))
    (rest : List Char) :
    readFields fuel (fieldsText level (f :: fields) ++ rest) (some acc) =
      some (obj (acc.reverse ++ f :: fields), rest) := by
  induction fields generalizing f fuel acc with
  | nil =>
      obtain ⟨key, j⟩ := f
      simp only [stepsInFields] at hfuel
      obtain ⟨fuel, rfl⟩ : ∃ n, fuel = n + 2 :=
        Nat.exists_eq_add_of_le' (by have := steps_pos j; omega)
      have hspace : skipSpace ((newLine level).toList ++ '\x7d' :: rest) = '\x7d' :: rest := by
        rw [skipSpace_newLine, skipSpace_of_not_space (by decide)]
      rw [fieldsText_singleton]
      simp only [List.append_assoc, List.cons_append, List.nil_append]
      rw [readFields_field (j := j) hf key level fuel (by omega), hspace]
      simp
  | cons g fields ih =>
      obtain ⟨key, j⟩ := f
      rw [stepsInFields] at hfuel
      obtain ⟨fuel, rfl⟩ : ∃ n, fuel = n + 2 :=
        Nat.exists_eq_add_of_le' (by have := steps_pos j; omega)
      have hrest := ih (hfields g (by simp)) (fun g' hg' => hfields g' (by simp [hg']))
        (fuel + 1) (by omega) ((key, j) :: acc)
      rw [fieldsText_cons_cons]
      simp only [List.append_assoc, List.cons_append]
      rw [readFields_field (j := j) hf key level fuel (by omega), skipSpace_of_not_space (by decide)]
      simpa using hrest

theorem isPlain_of_mem {items : List Json} (h : arePlain items = true) :
    ∀ j ∈ items, isPlain j = true := by
  induction items with
  | nil => simp
  | cons k items ih =>
      obtain ⟨hk, hitems⟩ : isPlain k = true ∧ arePlain items = true := by
        simpa [arePlain] using h
      simpa using ⟨hk, ih hitems⟩

theorem isPlain_of_mem_fields {fields : List (String × Json)}
    (h : arePlainFields fields = true) : ∀ f ∈ fields, isPlain f.2 = true := by
  induction fields with
  | nil => simp
  | cons f fields ih =>
      obtain ⟨hf, hfields⟩ : isPlain f.2 = true ∧ arePlainFields fields = true := by
        simpa [arePlainFields] using h
      intro g hg
      rcases List.mem_cons.mp hg with rfl | hmem
      · exact hf
      · exact ih hfields g hmem

theorem reads_of_isPlain : (j : Json) → isPlain j = true → Reads j
  | null, _ => by
      intro level fuel rest _
      simp [pretty, readValue, skipSpace, isSpace]
  | bool b, _ => by
      intro level fuel rest _
      cases b <;> simp [pretty, readValue, skipSpace, isSpace]
  | str s, _ => by
      intro level fuel rest _
      obtain ⟨cs, htext, hread⟩ := readText?_renderText s rest
      rw [pretty, htext, readValue, skipSpace_of_not_space (by decide)]
      simp [hread]
  | arr [], _ => by
      intro level fuel rest _
      simp [pretty, readValue, skipSpace, isSpace]
  | arr (j :: items), h => by
      intro level fuel rest hfuel
      have hall : arePlain (j :: items) = true := by simpa [isPlain] using h
      have hplain := isPlain_of_mem hall
      have hj := hplain j (by simp)
      have hitems := readItems_itemsText (reads_of_isPlain j hj)
        (fun k (hk : k ∈ items) => reads_of_isPlain k (hplain k (by simp [hk]))) level fuel
        (by simp only [steps] at hfuel; omega) [] rest
      -- The first item is no closing bracket, so the array is not empty.
      obtain ⟨c, cs, hskip, hhead⟩ := exists_head_itemsText hj level items rest
      rw [pretty_arr_cons, readValue, List.cons_append, skipSpace_of_not_space (by decide)]
      simp only [hskip]
      rw [← readItems_skipSpace, hskip] at hitems
      split
      · rename_i heq
        exact absurd (List.cons.inj heq).1 (ne_bracket_of_isHead hhead)
      · simpa using hitems
  | obj [], _ => by
      intro level fuel rest _
      simp [pretty, readValue, skipSpace, isSpace]
  | obj (f :: fields), h => by
      intro level fuel rest hfuel
      have hall : arePlainFields (f :: fields) = true := by simpa [isPlain] using h
      have hplain := isPlain_of_mem_fields hall
      have hfields := readFields_fieldsText (reads_of_isPlain f.2 (hplain f (by simp)))
        (fun g (hg : g ∈ fields) => reads_of_isPlain g.2 (hplain g (by simp [hg]))) level fuel
        (by simp only [steps] at hfuel; omega) [] rest
      obtain ⟨cs, hskip⟩ := exists_head_fieldsText level f.1 f.2 fields rest
      rw [pretty_obj_cons, readValue, List.cons_append, skipSpace_of_not_space (by decide)]
      simp only [hskip]
      rw [← readFields_skipSpace, hskip] at hfields
      simpa using hfields
  | int _, h => absurd h (by simp [isPlain])
  | float _, h => absurd h (by simp [isPlain])
  | unrepresentable, h => absurd h (by simp [isPlain])
termination_by j => sizeOf j
decreasing_by
  · simp
    omega
  · have := List.sizeOf_lt_of_mem hk
    simp
    omega
  · have : sizeOf f.2 < sizeOf f := by cases f; simp only [Prod.mk.sizeOf_spec]; omega
    simp
    omega
  · have hlt : sizeOf g.2 < sizeOf g := by cases g; simp only [Prod.mk.sizeOf_spec]; omega
    have := List.sizeOf_lt_of_mem hg
    simp
    omega

mutual

theorem steps_le_length {j : Json} (h : isPlain j = true) (level : Nat) :
    steps j ≤ (pretty level j).toList.length := by
  match j with
  | null => simp [pretty, steps]
  | bool true => simp [pretty, steps]
  | bool false => simp [pretty, steps]
  | str s => simp [pretty, steps, renderText]
  | arr [] => simp [pretty, steps, stepsIn]
  | arr (j :: items) =>
      have hall : arePlain (j :: items) = true := by simpa [isPlain] using h
      have := stepsIn_le_length hall level
      rw [pretty_arr_cons, steps, List.length_cons]
      omega
  | obj [] => simp [pretty, steps, stepsInFields]
  | obj ((key, j) :: fields) =>
      have hall : arePlainFields ((key, j) :: fields) = true := by simpa [isPlain] using h
      have := stepsInFields_le_length hall level
      rw [pretty_obj_cons, steps, List.length_cons]
      omega
  | int _ => exact absurd h (by simp [isPlain])
  | float _ => exact absurd h (by simp [isPlain])
  | unrepresentable => exact absurd h (by simp [isPlain])
termination_by sizeOf j

theorem stepsIn_le_length {j : Json} {items : List Json} (h : arePlain (j :: items) = true)
    (level : Nat) : stepsIn (j :: items) ≤ (itemsText level (j :: items)).length := by
  obtain ⟨hj, hrest⟩ : isPlain j = true ∧ arePlain items = true := by simpa [arePlain] using h
  have hfirst := steps_le_length hj (level + 1)
  match items with
  | [] =>
      rw [itemsText_singleton]
      simp only [stepsIn, List.length_append, List.length_cons]
      omega
  | k :: items =>
      have := stepsIn_le_length hrest level
      rw [itemsText_cons_cons, stepsIn]
      simp only [List.length_append, List.length_cons]
      omega
termination_by sizeOf (j :: items)

theorem stepsInFields_le_length {key : String} {j : Json} {fields : List (String × Json)}
    (h : arePlainFields ((key, j) :: fields) = true) (level : Nat) :
    stepsInFields ((key, j) :: fields) ≤ (fieldsText level ((key, j) :: fields)).length := by
  obtain ⟨hj, hrest⟩ : isPlain j = true ∧ arePlainFields fields = true := by
    simpa [arePlainFields] using h
  have hfirst := steps_le_length hj (level + 1)
  match fields with
  | [] =>
      rw [fieldsText_singleton]
      simp only [stepsInFields, List.length_append, List.length_cons]
      omega
  | (key', k) :: fields =>
      have := stepsInFields_le_length hrest level
      rw [fieldsText_cons_cons, stepsInFields]
      simp only [List.length_append, List.length_cons]
      omega
termination_by sizeOf ((key, j) :: fields)

end

/-- **A value without numbers that was written over several lines is read as it was.** -/
theorem parse?_pretty {j : Json} (h : isPlain j = true) : parse? (pretty 0 j) = some j := by
  have hread := reads_of_isPlain j h 0 (2 * (pretty 0 j).toList.length + 1) []
    (by have := steps_le_length h 0; omega)
  rw [List.append_nil] at hread
  rw [parse?, hread]
  rfl

end Json

end Plumbline
