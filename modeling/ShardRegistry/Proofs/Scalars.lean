import ShardRegistry.Property
import ShardRegistry.Proofs.Credentials
import ShardRegistry.Proofs.Maps
import ShardRegistry.Proofs.Printing

/-! Scalars and their texts. As a property, a value is read like a string that holds its text with blanks
around it. Numbers have a way of their own, which agrees with their text for every integer of 64 bits. -/
namespace ShardRegistry

/-! ### Texts -/

namespace Text

/-- Blanks around a text are stripped with those that it has itself. -/
theorem strip_around {p : Char → Bool} {us vs : List Char} (cs : List Char) (hu : ∀ c ∈ us, p c = true)
    (hv : ∀ c ∈ vs, p c = true) : strip p (us ++ cs ++ vs) = strip p cs := by
  have hend (ds : List Char) : dropEnd p (ds ++ vs) = dropEnd p ds := by
    rw [dropEnd, List.reverse_append,
      List.dropWhile_append_of_pos fun c hc => hv c (List.mem_reverse.1 hc), dropEnd]
  rw [strip, List.append_assoc, List.dropWhile_append_of_pos hu, List.dropWhile_append, strip]
  split
  · rename_i hnil
    rw [List.isEmpty_iff.1 hnil, List.dropWhile_eq_nil_iff.2 hv]
  · exact hend _

theorem strip_eq_self {p : Char → Bool} {cs : List Char} (hhead : ∀ c ∈ cs.head?, p c = false)
    (hlast : ∀ c ∈ cs.getLast?, p c = false) : strip p cs = cs := by
  have hend : dropEnd p (cs ++ []) = cs ++ dropEnd p [] := dropEnd_append hlast
  rw [strip, dropWhile_eq_self hhead]
  simpa [dropEnd] using hend

theorem strip_of_ends {p : Char → Bool} {cs : List Char} {c d : Char} (hhead : cs.head? = some c)
    (hlast : cs.getLast? = some d) (hc : p c = false) (hd : p d = false) : strip p cs = cs :=
  strip_eq_self (fun _ h => Option.some.inj (hhead.symm.trans h) ▸ hc)
    fun _ h => Option.some.inj (hlast.symm.trans h) ▸ hd

theorem head?_strip (p : Char → Bool) (cs : List Char) : ∀ c ∈ (strip p cs).head?, p c = false := by
  intro c hc
  obtain ⟨ws, hcs, _⟩ := exists_dropEnd p (cs.dropWhile p)
  refine head?_dropWhile p cs c ?_
  rw [hcs, List.head?_append]
  rw [strip, Option.mem_def] at hc
  rw [hc, Option.some_or, Option.mem_some_iff]

theorem strip_strip (p : Char → Bool) (cs : List Char) : strip p (strip p cs) = strip p cs :=
  strip_eq_self (head?_strip p cs) (getLast?_dropEnd p _)

/-- The text spells a number: digits, with or without a plus sign in front of them. -/
def Spells (cs : List Char) (n : Nat) : Prop :=
  ∃ ds, (cs = ds ∨ cs = '+' :: ds) ∧ ds ≠ [] ∧ (∀ c ∈ ds, isDigit c = true) ∧ digitsValue 0 ds = n

theorem digits?_eq_some_iff {cs : List Char} {n : Nat} :
    digits? cs = some n ↔ cs ≠ [] ∧ (∀ c ∈ cs, isDigit c = true) ∧ digitsValue 0 cs = n := by
  rw [digits?]
  split
  · rename_i h
    refine iff_of_false nofun fun ⟨hne, hdigits, _⟩ => ?_
    simp [hne] at h
    exact absurd hdigits (by simpa using h)
  · rename_i h
    simp only [Bool.or_eq_true, Bool.not_eq_true', not_or, List.isEmpty_iff] at h
    rw [Option.some.injEq]
    exact ⟨fun hn => ⟨h.1, by simpa using h.2, hn⟩, fun hn => hn.2.2⟩

theorem natural?_eq_some_iff {limit n : Nat} {cs : List Char} :
    natural? limit cs = some n ↔ Spells cs n ∧ n < limit := by
  unfold natural?
  rw [Option.filter_eq_some_iff, decide_eq_true_eq, digits?_eq_some_iff]
  refine and_congr_left fun _ => ?_
  split
  · rename_i rest
    constructor
    · exact fun h => ⟨rest, .inr rfl, h⟩
    · rintro ⟨ds, rfl | h, hne, hdigits, hn⟩
      · exact absurd (hdigits '+' List.mem_cons_self) (by decide)
      · obtain rfl : rest = ds := (List.cons_eq_cons.1 h).2
        exact ⟨hne, hdigits, hn⟩
  · rename_i hplus
    constructor
    · exact fun h => ⟨cs, .inl rfl, h⟩
    · rintro ⟨ds, rfl | rfl, h⟩
      · exact h
      · exact absurd rfl (hplus ds)

theorem Spells.mem {cs : List Char} {n : Nat} (h : Spells cs n) {c : Char} (hc : c ∈ cs) :
    isDigit c = true ∨ c = '+' := by
  obtain ⟨ds, rfl | rfl, _, hdigits, _⟩ := h
  · exact .inl (hdigits c hc)
  · exact (List.mem_cons.1 hc).elim .inr fun hc => .inl (hdigits c hc)

end Text

/-! ### Texts of numbers -/

/-- The characters that numbers are written with. -/
def Number.characters : List Char :=
  ['0', '1', '2', '3', '4', '5', '6', '7', '8', '9', '-', '+', '.', 'e']

theorem Number.mem_characters {c : Char} (h : Text.isDigit c = true) : c ∈ characters := by
  have hcode : 48 ≤ c.toNat ∧ c.toNat ≤ 57 := by
    simpa [Text.isDigit, Char.le_def, UInt32.le_iff_toNat_le] using h
  have hall : ∀ n < 10, Char.ofNat (48 + n) ∈ characters := by decide
  have hc := hall (c.toNat - 48) (by omega)
  rwa [Nat.add_sub_cancel' hcode.1, Char.ofNat_toNat] at hc

namespace Binary64
open Number (characters mem_characters)

theorem isDigit_of_mem_significant {n : Nat} {c : Char} (h : c ∈ significant n) :
    Text.isDigit c = true := by
  rw [significant] at h
  split at h
  · rw [List.mem_singleton.1 h]
    decide
  · have hmem := (List.dropWhile_suffix _).subset (List.mem_reverse.1 h)
    exact Text.isDigit_of_mem_toDigits (List.mem_reverse.1 hmem)

/-- A number with a fraction is written with a point or an exponent. -/
theorem exists_mem_layout (ds : List Char) (e : Int) : '.' ∈ layout ds e ∨ 'e' ∈ layout ds e := by
  rw [layout]
  split
  · left
    dsimp only
    split <;> simp
  · split
    · exact .inl (by simp)
    · exact .inr (by simp)

theorem layout_subset {ds : List Char} (hds : ∀ c ∈ ds, Text.isDigit c = true) (e : Int) :
    layout ds e ⊆ characters := by
  have hdigits : ds ⊆ characters := fun c hc => mem_characters (hds c hc)
  have hzeros (n : Nat) : List.replicate n '0' ⊆ characters :=
    List.replicate_subset.2 (.inr (by decide))
  have htake (n : Nat) : ds.take n ⊆ characters := List.Subset.trans (List.take_subset n ds) hdigits
  have hdrop (n : Nat) : ds.drop n ⊆ characters := List.Subset.trans (List.drop_subset n ds) hdigits
  rw [layout]
  split
  · dsimp only
    split
    · exact List.append_subset.2 ⟨List.append_subset.2 ⟨hdigits, hzeros _⟩, by decide⟩
    · exact List.append_subset.2 ⟨htake _, List.cons_subset.2 ⟨by decide, hdrop _⟩⟩
  · split
    · exact List.append_subset.2 ⟨List.append_subset.2 ⟨by decide, hzeros _⟩, hdigits⟩
    · refine List.append_subset.2 ⟨List.append_subset.2 ⟨List.append_subset.2 ⟨htake _, ?_⟩, ?_⟩, ?_⟩
      · split
        · exact List.nil_subset _
        · exact List.cons_subset.2 ⟨by decide, hdrop _⟩
      · split <;> decide
      · exact fun c hc => mem_characters (Text.isDigit_of_mem_toDigits hc)

theorem text_subset (x : Binary64) : x.text ⊆ characters := by
  have hbody {cs : List Char} (hcs : cs ⊆ characters) :
      (if x.negative then '-' :: cs else cs) ⊆ characters := by
    split
    · exact List.cons_subset.2 ⟨by decide, hcs⟩
    · exact hcs
  refine hbody ?_
  split
  · decide
  · exact layout_subset (fun _ hc => isDigit_of_mem_significant hc) _

/-- So its text, with or without a sign, is not one of digits alone. -/
theorem exists_mem_text (x : Binary64) : '.' ∈ x.text ∨ 'e' ∈ x.text := by
  have hbody {cs : List Char} (hcs : '.' ∈ cs ∨ 'e' ∈ cs) :
      '.' ∈ (if x.negative then '-' :: cs else cs) ∨ 'e' ∈ (if x.negative then '-' :: cs else cs) := by
    split
    · exact hcs.imp (List.mem_cons_of_mem _) (List.mem_cons_of_mem _)
    · exact hcs
  refine hbody ?_
  split
  · decide
  · exact exists_mem_layout _ _

end Binary64

namespace Number

theorem text_subset (n : Number) : n.text ⊆ characters := by
  cases n with
  | float x => exact x.text_subset
  | integer z =>
    refine List.append_subset.2 ⟨?_, fun c hc => mem_characters (Text.isDigit_of_mem_toDigits hc)⟩
    split <;> decide

theorem toNat?_eq_some_iff {m : Number} {n : Nat} : m.toNat? = some n ↔ m = .integer n := by
  cases m with
  | float x => exact iff_of_false nofun nofun
  | integer z =>
    simp only [toNat?, Number.integer.injEq]
    split
    · rw [Option.some.injEq]
      omega
    · simp only [reduceCtorEq, false_iff]
      omega

/-- A number is read from its text as it is read itself. -/
theorem natural?_text {m : Number} (h : ∀ z, m = .integer z → m.isWord = true) :
    Text.natural? Text.wordLimit m.text = m.toNat? := by
  refine Option.ext fun n => ?_
  rw [Text.natural?_eq_some_iff, toNat?_eq_some_iff]
  constructor
  · rintro ⟨hspells, _⟩
    cases m with
    | float x =>
      have hmem := Binary64.exists_mem_text x
      rcases hmem with hc | hc <;> exact absurd (hspells.mem hc) (by decide)
    | integer z =>
      by_cases hneg : z < 0
      · have hc : '-' ∈ Number.text (.integer z) := by simp [text, hneg]
        exact absurd (hspells.mem hc) (by decide)
      · have htext : Number.text (.integer z) = Nat.toDigits 10 z.natAbs := by simp [text, hneg]
        rw [htext] at hspells
        obtain ⟨ds, rfl | hplus, _, _, hvalue⟩ := hspells
        · rw [Text.digitsValue_toDigits] at hvalue
          congr 1
          omega
        · have hc : '+' ∈ Nat.toDigits 10 z.natAbs := hplus ▸ List.mem_cons_self
          exact absurd (Text.isDigit_of_mem_toDigits hc) (by decide)
  · rintro rfl
    have hword := h _ rfl
    simp only [isWord, Bool.and_eq_true, decide_eq_true_eq] at hword
    refine ⟨⟨Nat.toDigits 10 n, .inl ?_, Nat.toDigits_ne_nil, fun c hc => ?_, ?_⟩, by omega⟩
    · simp [text]
    · exact Text.isDigit_of_mem_toDigits hc
    · exact Text.digitsValue_toDigits n

end Number

/-! ### Texts of values -/

namespace Json

theorem getLast?_itemsText (xs : List Json) : (itemsText xs).getLast? = some ']' := by
  induction xs with
  | nil => rw [itemsText, List.getLast?_singleton]
  | cons x xs ih => rw [itemsText, List.getLast?_append, ih, Option.some_or]

theorem getLast?_membersText (ms : List (String × Json)) : (membersText ms).getLast? = some '\x7d' := by
  induction ms with
  | nil => rw [membersText, List.getLast?_singleton]
  | cons m ms ih => rw [membersText, List.getLast?_append, ih, Option.some_or]

/-- The text of a value has no blanks at its ends. -/
theorem strip_text (j : Json) : Text.strip Text.isBlank j.text = j.text := by
  cases j with
  | null => decide
  | bool b => cases b <;> decide
  | number n =>
    have hvisible : (Number.characters.all fun c => !Text.isBlank c) = true := by decide
    have hall : ∀ c ∈ n.text, Text.isBlank c = false := fun c hc => by
      simpa using List.all_eq_true.1 hvisible c (n.text_subset hc)
    exact Text.strip_eq_self (fun c hc => hall c (List.mem_of_mem_head? hc))
      fun c hc => hall c (List.mem_of_mem_getLast? hc)
  | string s =>
    have hlast : (text (.string s)).getLast? = some '"' := by
      rw [text, stringText, List.getLast?_append, List.getLast?_singleton, Option.some_or]
    exact Text.strip_of_ends rfl hlast (by decide) (by decide)
  | array items =>
    cases items with
    | nil => decide
    | cons x xs =>
      have hlast : (text (.array (x :: xs))).getLast? = some ']' := by
        rw [text, List.getLast?_append, getLast?_itemsText, Option.some_or]
      exact Text.strip_of_ends rfl hlast (by decide) (by decide)
  | object members =>
    cases members with
    | nil => decide
    | cons m ms =>
      have hlast : (text (.object (m :: ms))).getLast? = some '\x7d' := by
        rw [text, List.getLast?_append, getLast?_membersText, Option.some_or]
      exact Text.strip_of_ends rfl hlast (by decide) (by decide)

/-- A value other than a string is spelled by itself or by a string that holds its text with blanks around it,
and a string by itself. -/
inductive SpelledAs : Json → Json → Prop
  | same (j : Json) : SpelledAs j j
  | text {j : Json} {us vs : List Char} (hj : ∀ s, j ≠ .string s) (hu : ∀ c ∈ us, Text.isBlank c = true)
      (hv : ∀ c ∈ vs, Text.isBlank c = true) : SpelledAs j (.string (String.ofList (us ++ j.text ++ vs)))

/-- A boolean, or a string that is its name but for blanks around it. -/
def IsFlag (j : Json) (b : Bool) : Prop :=
  j = .bool b ∨ ∃ s, j = .string s ∧ Text.trim s = if b then "true" else "false"

/-- An unsigned integer of 64 bits, or a string that spells one but for blanks around it. -/
def IsNatural (j : Json) (n : Nat) : Prop :=
  n < Text.wordLimit ∧ (j = .natural n ∨ ∃ s, j = .string s ∧ Text.Spells (Text.trim s).toList n)

/-- A string that is the name of a kind of transactions in any letter case, but for blanks around it. -/
def IsKind (j : Json) (k : TransactionKind) : Prop :=
  ∃ s, j = .string s ∧ (Text.trim s).toList.map Text.upperAscii = k.name.toList

/-- The value is no integer beyond 64 bits. -/
def Fits (j : Json) : Prop := ∀ z, j = .number (.integer z) → Number.isWord (.integer z) = true

end Json

theorem TransactionKind.ofName?_eq_some_iff {name : String} {k : TransactionKind} :
    ofName? name = some k ↔ name = k.name := by
  have hall : k ∈ all := by cases k <;> decide
  rw [ofName?, find?_eq_some_iff_of_nodup (by decide), and_iff_right hall, eq_comm]

/-! ### Readers of values -/

namespace Properties
variable {key : String} {j j' : Json}

theorem scalarText_eq (hj : ∀ s, j ≠ .string s) : scalarText j = j.text := by
  cases j with
  | string s => exact absurd rfl (hj s)
  | _ => rfl

theorem scalarText_spelled (h : j.SpelledAs j') : scalarText j' = scalarText j := by
  cases h with
  | same => rfl
  | text hj hu hv =>
    rw [scalarText_eq hj, scalarText, String.toList_ofList, Text.strip_around _ hu hv, Json.strip_text]

theorem boolean_spelled (h : j.SpelledAs j') :
    (boolean key j').toOption = (boolean key j).toOption := by
  have htext := scalarText_spelled h
  cases h with
  | same => rfl
  | text hj hu hv =>
    cases j with
    | bool b =>
      simp only [boolean, htext]
      cases b <;> rfl
    | string s => exact absurd rfl (hj s)
    | _ =>
      simp only [boolean, htext]
      split_ifs <;> rfl

/-- Numbers are read on a way of their own, which agrees with that of their text. -/
theorem natural_spelled (h : j.SpelledAs j') (hfits : j.Fits) :
    (natural key j').toOption = (natural key j).toOption := by
  have htext := scalarText_spelled h
  cases h with
  | same => rfl
  | @text us vs hj hu hv =>
    cases j with
    | number m =>
      have hnumber : Text.natural? Text.wordLimit
          (scalarText (.string (String.ofList (us ++ (Json.number m).text ++ vs)))) = m.toNat? := by
        rw [htext, scalarText_eq hj, Json.text]
        exact Number.natural?_text fun z hz => hz ▸ hfits z (congrArg Json.number hz)
      simp only [natural, hnumber]
      cases m.toNat? <;> rfl
    | string s => exact absurd rfl (hj s)
    | _ =>
      simp only [natural, htext]
      split <;> rfl

theorem positive_eq : positive key j = match natural key j with
    | .ok 0 => .error (.zero key)
    | read => read := by
  rw [positive]
  cases natural key j with
  | error e => rfl
  | ok n => cases n <;> rfl

theorem positive_spelled (h : j.SpelledAs j') (hfits : j.Fits) :
    (positive key j').toOption = (positive key j).toOption := by
  have hnatural : (natural key j').toOption = (natural key j).toOption := natural_spelled h hfits
  rw [positive_eq, positive_eq]
  cases hj : natural key j with
  | error e =>
    cases hj' : natural key j' with
    | error e' => rfl
    | ok n => simp [hj, hj', Except.toOption] at hnatural
  | ok n =>
    cases hj' : natural key j' with
    | error e' => simp [hj, hj', Except.toOption] at hnatural
    | ok n' =>
      obtain rfl : n' = n := by simpa [hj, hj', Except.toOption] using hnatural
      rfl

theorem transactionKind_spelled (h : j.SpelledAs j') :
    transactionKind key j' = transactionKind key j := by
  rw [transactionKind, transactionKind, scalarText_spelled h]

theorem toList_trim (s : String) : (Text.trim s).toList = scalarText (.string s) := String.toList_ofList

theorem boolean_ok_of_text {b : Bool} (hj : ∀ b, j ≠ .bool b) :
    boolean key j = .ok b ↔ scalarText j = (if b then "true" else "false").toList := by
  have hread : boolean key j = if scalarText j = "true".toList then .ok true
      else if scalarText j = "false".toList then .ok false else .error (.notBoolean key j) := by
    cases j with
    | bool b => exact absurd rfl (hj b)
    | _ => rfl
  rw [hread]
  by_cases htrue : scalarText j = "true".toList
  · rw [if_pos htrue, htrue]
    cases b <;> simp
  · rw [if_neg htrue]
    by_cases hfalse : scalarText j = "false".toList
    · rw [if_pos hfalse, hfalse]
      cases b <;> simp
    · rw [if_neg hfalse]
      cases b <;> simpa

/-- No other value than a boolean has a boolean's text. -/
theorem text_ne_flag (hj : ∀ b, j ≠ .bool b) (b : Bool) :
    j.text ≠ (if b then "true" else "false").toList := by
  cases j with
  | null => cases b <;> decide
  | bool b' => exact absurd rfl (hj b')
  | number m =>
    intro heq
    have hsubset := m.text_subset
    rw [← Json.text, heq] at hsubset
    revert hsubset
    cases b <;> decide
  | string s => cases b <;> simp [Json.text, Json.stringText]
  | array items => cases items <;> cases b <;> simp [Json.text]
  | object members => cases members <;> cases b <;> simp [Json.text]

theorem boolean_eq_ok_iff {b : Bool} : boolean key j = .ok b ↔ j.IsFlag b := by
  cases j with
  | bool b' => simp [boolean, Json.IsFlag]
  | string s =>
    rw [boolean_ok_of_text (by simp), ← toList_trim, String.toList_inj]
    simp [Json.IsFlag]
  | _ =>
    rw [boolean_ok_of_text (by simp), scalarText_eq (by simp)]
    refine iff_of_false (text_ne_flag (by simp) b) ?_
    simp [Json.IsFlag]

theorem natural_ok_of_text {n : Nat} (hj : ∀ m, j ≠ .number m) :
    natural key j = .ok n ↔ Text.Spells (scalarText j) n ∧ n < Text.wordLimit := by
  rw [← Text.natural?_eq_some_iff]
  cases j with
  | number m => exact absurd rfl (hj m)
  | _ =>
    simp only [natural]
    cases Text.natural? Text.wordLimit (scalarText _) <;> simp

/-- No other value than a number has a text that spells one. -/
theorem not_spells_text (hj : ∀ m, j ≠ .number m) (n : Nat) : ¬ Text.Spells j.text n := by
  intro hspells
  have hmem : ∃ c ∈ ['n', 't', 'f', '"', '[', '\x7b'], c ∈ j.text := by
    cases j with
    | null => exact ⟨'n', by decide, by decide⟩
    | bool b =>
      cases b with
      | true => exact ⟨'t', by decide, by decide⟩
      | false => exact ⟨'f', by decide, by decide⟩
    | number m => exact absurd rfl (hj m)
    | string s => exact ⟨'"', by decide, by simp [Json.text, Json.stringText]⟩
    | array items => exact ⟨'[', by decide, by cases items <;> simp [Json.text]⟩
    | object members => exact ⟨'\x7b', by decide, by cases members <;> simp [Json.text]⟩
  obtain ⟨c, hc, htext⟩ := hmem
  have hnot : (['n', 't', 'f', '"', '[', '\x7b'].all fun c => !(Text.isDigit c || c = '+')) = true := by
    decide
  have hspelled : (Text.isDigit c || c = '+') = true := by simpa using hspells.mem htext
  exact absurd (List.all_eq_true.1 hnot c hc) (by simp [hspelled])

theorem natural_eq_ok_iff {n : Nat} (hfits : j.Fits) : natural key j = .ok n ↔ j.IsNatural n := by
  cases j with
  | number m =>
    have hok : natural key (.number m) = .ok n ↔ m.toNat? = some n := by
      rw [natural]
      cases m.toNat? <;> simp
    rw [hok, Number.toNat?_eq_some_iff]
    constructor
    · rintro rfl
      have hword := hfits _ rfl
      simp only [Number.isWord, Bool.and_eq_true, decide_eq_true_eq] at hword
      exact ⟨by omega, .inl rfl⟩
    · rintro ⟨_, hm | ⟨s, hs, _⟩⟩
      · exact Json.number.inj hm
      · cases hs
  | string s =>
    rw [natural_ok_of_text (by simp), ← toList_trim, and_comm]
    simp [Json.IsNatural, Json.natural]
  | _ =>
    rw [natural_ok_of_text (by simp), scalarText_eq (by simp)]
    refine iff_of_false (fun h => not_spells_text (by simp) n h.1) ?_
    simp [Json.IsNatural, Json.natural]

theorem positive_eq_ok_iff {n : Nat} (hfits : j.Fits) :
    positive key j = .ok n ↔ j.IsNatural n ∧ 1 ≤ n := by
  have hnatural : natural key j = .ok n ↔ j.IsNatural n := natural_eq_ok_iff hfits
  rw [← hnatural, positive_eq]
  split
  · rename_i hzero
    rw [hzero]
    refine iff_of_false nofun ?_
    rintro ⟨⟨⟩, hle⟩
    omega
  · rename_i hne
    refine ⟨fun h => ⟨h, Nat.one_le_iff_ne_zero.2 ?_⟩, fun h => h.1⟩
    rintro rfl
    exact hne h

/-- The text of no value but a string is the name of a kind of transactions. -/
theorem text_ne_kind (hj : ∀ s, j ≠ .string s) (k : TransactionKind) :
    j.text.map Text.upperAscii ≠ k.name.toList := by
  have hbracket : Text.upperAscii '[' = '[' ∧ Text.upperAscii '\x7b' = '\x7b' := by decide
  cases j with
  | null => cases k <;> decide
  | bool b => cases b <;> cases k <;> decide
  | number m =>
    intro heq
    have hsubset := List.map_subset Text.upperAscii m.text_subset
    rw [← Json.text, heq] at hsubset
    revert hsubset
    cases k <;> decide
  | string s => exact absurd rfl (hj s)
  | array items => cases items <;> cases k <;> simp [Json.text, hbracket, TransactionKind.name]
  | object members => cases members <;> cases k <;> simp [Json.text, hbracket, TransactionKind.name]

theorem transactionKind_eq_ok_iff {k : TransactionKind} : transactionKind key j = .ok k ↔ j.IsKind k := by
  have hread : transactionKind key j = .ok k ↔
      (Text.strip Text.isBlank (scalarText j)).map Text.upperAscii = k.name.toList := by
    rw [← String.ofList_inj, String.ofList_toList, transactionKind, TransactionKind.read,
      String.toList_ofList]
    generalize String.ofList _ = name
    rw [← TransactionKind.ofName?_eq_some_iff]
    cases TransactionKind.ofName? name <;> simp
  rw [hread]
  cases j with
  | string s =>
    have htrim : Text.strip Text.isBlank (scalarText (.string s)) = (Text.trim s).toList := by
      rw [toList_trim, scalarText, Text.strip_strip]
    rw [htrim]
    simp [Json.IsKind]
  | _ =>
    rw [scalarText_eq (by simp), Json.strip_text]
    refine iff_of_false (text_ne_kind (by simp) k) ?_
    simp [Json.IsKind]

end Properties

/-! ### Integers of documents -/

namespace Json

theorem Numeral.accumulate_lt {seen : Nat} (h : seen < Text.wordLimit) (cs : List Char) :
    (accumulate seen cs).1 < Text.wordLimit := by
  induction cs generalizing seen with
  | nil => exact h
  | cons c cs ih =>
    rw [accumulate]
    split
    · rename_i hnext
      exact ih hnext
    · exact h

/-- An integer that is read from a text has 64 bits. -/
theorem Numeral.isWord_of_number? {n : Numeral} {z : Int} (h : n.number? = some (.integer z)) :
    Number.isWord (.integer z) = true := by
  have hfloat : n.float? ≠ some (.integer z) := by
    rw [float?]
    dsimp only
    simp
  have hlt : (accumulate 0 n.whole).1 < Text.wordLimit := accumulate_lt (by decide) n.whole
  unfold number? at h
  split at h
  · split at h
    · rename_i m heq
      rw [heq] at hlt
      simp only [Number.isWord, Bool.and_eq_true, decide_eq_true_eq]
      dsimp only at hlt
      split_ifs at h
      all_goals cases h
      · omega
      · omega
    · exact absurd h hfloat
  · exact absurd h hfloat

/-- Every integer in a document has 64 bits. -/
inductive Document.Words : Document → Prop
  | null : Words .null
  | bool (b : Bool) : Words (.bool b)
  | number {n : Option Number} (h : ∀ z, n = some (.integer z) → Number.isWord (.integer z) = true) :
    Words (.number n)
  | string (s : Option String) : Words (.string s)
  | array {ds : List Document} {closed : Bool} (h : ∀ d ∈ ds, Words d) : Words (.array ds closed)
  | object {ms : List (Option String × Document)} {closed : Bool} (h : ∀ m ∈ ms, Words m.2) :
    Words (.object ms closed)
  | broken : Words .broken

namespace Document

/-! Each reader makes documents of such integers if those it calls do. -/

section
variable {fuel : Nat} (hvalue : ∀ cs, Words (readValue fuel cs).1)
  (hitems : ∀ seen cs, (∀ d ∈ seen, Words d) → Words (readItems fuel seen cs).1)
  (hmembers : ∀ seen cs, (∀ m ∈ seen, Words (Prod.snd m)) → Words (readMembers fuel seen cs).1)

include hitems hmembers in
theorem words_readValue (cs : List Char) : Words (readValue (fuel + 1) cs).1 := by
  rw [readValue]
  split
  · exact .null
  · exact .bool _
  · exact .bool _
  · split
    · exact .string _
    · exact .broken
  · split
    · exact .array (List.forall_mem_nil _)
    · exact hitems _ _ (List.forall_mem_nil _)
  · split
    · exact .object (List.forall_mem_nil _)
    · exact hmembers _ _ (List.forall_mem_nil _)
  · split
    · exact .number fun z hz => Numeral.isWord_of_number? hz
    · exact .broken

include hvalue hitems in
theorem words_readItems {seen : List Document} (h : ∀ d ∈ seen, Words d) (cs : List Char) :
    Words (readItems (fuel + 1) seen cs).1 := by
  have hitem := hvalue cs
  rw [readItems]
  generalize readValue fuel cs = x at hitem ⊢
  obtain ⟨item, rest⟩ := x
  have hnext : ∀ d ∈ item :: seen, Words d := List.forall_mem_cons.2 ⟨hitem, h⟩
  have hall : ∀ d ∈ (item :: seen).reverse, Words d := fun d hd => hnext d (List.mem_reverse.1 hd)
  dsimp only
  split
  · exact hitems _ _ hnext
  · exact .array hall
  · exact .array hall

include hvalue hmembers in
theorem words_readMembers {seen : List (Option String × Document)} (h : ∀ m ∈ seen, Words m.2)
    (cs : List Char) : Words (readMembers (fuel + 1) seen cs).1 := by
  have hobject {ms : List (Option String × Document)} {closed : Bool} (hms : ∀ m ∈ ms, Words m.2) :
      Words (.object ms.reverse closed) := .object fun m hm => hms m (List.mem_reverse.1 hm)
  rw [readMembers]
  split
  · split
    · exact hobject h
    · rename_i key rest _
      split
      · rename_i rest' _
        have hmember := hvalue rest'
        generalize readValue fuel rest' = x at hmember ⊢
        obtain ⟨value, rest''⟩ := x
        have hnext : ∀ m ∈ (key, value) :: seen, Words (Prod.snd m) :=
          List.forall_mem_cons.2 ⟨hmember, h⟩
        dsimp only
        split
        · exact hmembers _ _ hnext
        · exact hobject hnext
        · exact hobject hnext
      · exact hobject (List.forall_mem_cons.2 ⟨.broken, h⟩)
  · exact hobject h

end

theorem words_read (fuel : Nat) :
    (∀ cs, Words (readValue fuel cs).1) ∧
    (∀ seen cs, (∀ d ∈ seen, Words d) → Words (readItems fuel seen cs).1) ∧
    ∀ seen cs, (∀ m ∈ seen, Words (Prod.snd m)) → Words (readMembers fuel seen cs).1 := by
  induction fuel with
  | zero =>
    refine ⟨fun cs => .broken, fun seen cs h => .array ?_, fun seen cs h => .object ?_⟩
    · exact fun d hd => h d (List.mem_reverse.1 hd)
    · exact fun m hm => h m (List.mem_reverse.1 hm)
  | succ fuel ih =>
    obtain ⟨hvalue, hitems, hmembers⟩ := ih
    exact ⟨words_readValue hitems hmembers, fun _ cs h => words_readItems hvalue hitems h cs,
      fun _ cs h => words_readMembers hvalue hmembers h cs⟩

theorem words_root (text : String) : (Source.read text).root.Words := by
  have hvalue := (words_read (2 * text.toList.length + 2)).1 text.toList
  rw [Source.read]
  split
  · rename_i root rest heq
    rwa [heq] at hvalue
  · rename_i root heq
    rwa [heq] at hvalue

theorem Words.fits {d : Document} (h : d.Words) : d.value.Fits := by
  intro z hz
  cases h with
  | @number n hn =>
    cases n with
    | none => cases hz
    | some n => exact hn z (congrArg some (Json.number.inj hz))
  | string s => cases s <;> cases hz
  | _ => cases hz

end Document
end Json

end ShardRegistry
