import Mathlib.Data.List.Basic
import Mathlib.Data.List.Induction
import ShardRegistry.Json.Document
import ShardRegistry.Text.Blank

/-! Printed documents read back. The text of a value is read as the tree of the same shape, whatever
follows it, unless it is a number that the following text goes on with. -/
namespace ShardRegistry

/-! ### Digits -/

namespace Text

theorem isDigit_eq (c : Char) : isDigit c = c.isDigit := by
  simp only [isDigit, Char.isDigit, Char.le_def]

theorem digitsValue_nil (seen : Nat) : digitsValue seen [] = seen := rfl

-- both sides are unfolded before they are compared, as their arguments do not agree one by one
theorem digitsValue_cons (seen : Nat) (c : Char) (cs : List Char) :
    digitsValue seen (c :: cs) = digitsValue (10 * seen + (c.toNat - 48)) cs := by
  delta digitsValue
  rfl

/-- Reading more digits makes a number no smaller. -/
theorem le_digitsValue (seen : Nat) (cs : List Char) : seen ≤ digitsValue seen cs := by
  induction cs generalizing seen with
  | nil => exact Nat.le_of_eq (digitsValue_nil seen).symm
  | cons c cs ih =>
    have hnext := ih (10 * seen + (c.toNat - 48))
    rw [digitsValue_cons]
    omega

theorem digitsValue_snoc (seen : Nat) (cs : List Char) (c : Char) :
    digitsValue seen (cs ++ [c]) = 10 * digitsValue seen cs + (c.toNat - 48) := by
  induction cs generalizing seen with
  | nil => rw [List.nil_append, digitsValue_cons, digitsValue_nil, digitsValue_nil]
  | cons d cs ih => rw [List.cons_append, digitsValue_cons, digitsValue_cons, ih]

theorem digitsValue_toDigits (n : Nat) : digitsValue 0 (Nat.toDigits 10 n) = n := by
  induction n using Nat.strongRecOn with
  | _ n ih =>
    by_cases hn : n < 10
    · rw [Nat.toDigits_of_lt_base hn, digitsValue_cons, digitsValue_nil,
        Nat.toNat_digitChar_sub_48_of_lt_ten hn]
      omega
    · have hlast : n % 10 < 10 := Nat.mod_lt n (by omega)
      rw [Nat.toDigits_of_base_le (by omega) (by omega), digitsValue_snoc, ih (n / 10) (by omega),
        Nat.toNat_digitChar_sub_48_of_lt_ten hlast]
      omega

/-- Only zero is written with a zero in front. -/
theorem eq_zero_of_head?_toDigits {n : Nat} (h : (Nat.toDigits 10 n).head? = some '0') : n = 0 := by
  induction n using Nat.strongRecOn with
  | _ n ih =>
    by_cases hn : n < 10
    · rw [Nat.toDigits_of_lt_base hn] at h
      simpa using h
    · rw [Nat.toDigits_of_base_le (by omega) (by omega),
        List.head?_append_of_ne_nil _ Nat.toDigits_ne_nil] at h
      have hrest := ih (n / 10) (by omega) h
      omega

theorem length_toDigits_of_head? {n : Nat} (h : (Nat.toDigits 10 n).head? = some '0') :
    (Nat.toDigits 10 n).length ≤ 1 := by
  rw [eq_zero_of_head?_toDigits h]
  decide

theorem isDigit_of_mem_toDigits {n : Nat} {c : Char} (h : c ∈ Nat.toDigits 10 n) :
    isDigit c = true := by
  rw [isDigit_eq]
  exact Nat.isDigit_of_mem_toDigits (by omega) (by omega) h

end Text

/-! ### Numbers -/

/-- Whether a number is an integer of 64 bits, with or without sign. -/
def Number.isWord : Number → Bool
  | .integer z => -(Nat.pow 2 63 : Int) ≤ z && z < Text.wordLimit
  | .float _ => false

namespace Json

namespace Numeral
open Text (digitsValue wordLimit)

theorem accumulate_of_lt {seen : Nat} {cs : List Char} (h : digitsValue seen cs < wordLimit) :
    accumulate seen cs = (digitsValue seen cs, []) := by
  induction cs generalizing seen with
  | nil => rfl
  | cons c cs ih =>
    rw [Text.digitsValue_cons] at h ⊢
    have hnext := Nat.lt_of_le_of_lt (Text.le_digitsValue _ cs) h
    rw [accumulate, if_pos hnext, ih h]

/-- Whether a number in front of the text is not continued by it. -/
def stops (rest : List Char) : Bool :=
  rest.head?.all fun c => !Text.isDigit c && c ≠ '.' && c ≠ 'e' && c ≠ 'E'

theorem stops_cons (c : Char) (rest : List Char) : stops (c :: rest) = true ↔
    Text.isDigit c = false ∧ c ≠ '.' ∧ c ≠ 'e' ∧ c ≠ 'E' := by
  simp [stops, and_assoc]

theorem takeDigits_append {ds rest : List Char} (hd : ∀ c ∈ ds, Text.isDigit c = true)
    (hne : ds ≠ []) (hr : stops rest = true) : takeDigits (ds ++ rest) = some (ds, rest) := by
  have hhead : ∀ c ∈ rest.head?, Text.isDigit c = false := by
    cases rest with
    | nil => simp
    | cons c rest => simpa using ((stops_cons c rest).1 hr).1
  have htake : rest.takeWhile Text.isDigit = [] := by
    cases rest with
    | nil => rfl
    | cons c rest => simp [hhead c rfl]
  rw [takeDigits, List.takeWhile_append_of_pos hd, List.dropWhile_append_of_pos hd, htake,
    Text.dropWhile_eq_self hhead, List.append_nil]
  simp [hne]

theorem readFraction_of_stops {rest : List Char} (hr : stops rest = true) :
    readFraction rest = some (none, rest) := by
  refine readFraction.eq_2 rest ?_
  rintro cs rfl
  exact ((stops_cons '.' cs).1 hr).2.1 rfl

theorem readExponent_of_stops {rest : List Char} (hr : stops rest = true) :
    readExponent rest = some (none, rest) := by
  cases rest with
  | nil => rfl
  | cons c rest =>
    obtain ⟨_, _, he, hE⟩ := (stops_cons c rest).1 hr
    simp [readExponent, he, hE]

theorem read_toDigits (n : Nat) {rest : List Char} (hr : stops rest = true) :
    read (Nat.toDigits 10 n ++ rest) =
      some (⟨false, Nat.toDigits 10 n, none, none⟩, rest) := by
  have hdigits : ∀ c ∈ Nat.toDigits 10 n, Text.isDigit c = true := fun c hc =>
    Text.isDigit_of_mem_toDigits hc
  have htake := takeDigits_append hdigits Nat.toDigits_ne_nil hr
  have hzero := Text.length_toDigits_of_head? (n := n)
  obtain ⟨c, cs, hcs⟩ := List.exists_cons_of_ne_nil (Nat.toDigits_ne_nil (n := n) (b := 10))
  have hc : c ≠ '-' := by
    rintro rfl
    exact absurd (hdigits '-' (by simp [hcs])) (by decide)
  rw [hcs] at htake hzero ⊢
  rw [List.cons_append] at htake
  simp [read, hc, htake, readFraction_of_stops hr, readExponent_of_stops hr]
  simpa using hzero

theorem read_neg_toDigits (n : Nat) {rest : List Char} (hr : stops rest = true) :
    read ('-' :: Nat.toDigits 10 n ++ rest) =
      some (⟨true, Nat.toDigits 10 n, none, none⟩, rest) := by
  have htake := takeDigits_append (fun c hc => Text.isDigit_of_mem_toDigits hc)
    (Nat.toDigits_ne_nil (n := n) (b := 10)) hr
  have hzero := Text.length_toDigits_of_head? (n := n)
  simp [read, htake, readFraction_of_stops hr, readExponent_of_stops hr]
  exact hzero

theorem number?_toDigits {n : Nat} (hn : n < wordLimit) :
    number? ⟨false, Nat.toDigits 10 n, none, none⟩ = some (.integer n) := by
  have hvalue := Text.digitsValue_toDigits n
  have hm := accumulate_of_lt (hvalue.symm ▸ hn)
  rw [hvalue] at hm
  simp [number?, hm]

theorem number?_neg_toDigits {n : Nat} (hpos : 0 < n) (hn : n ≤ Nat.pow 2 63) :
    number? ⟨true, Nat.toDigits 10 n, none, none⟩ = some (.integer (-(n : Int))) := by
  have hvalue := Text.digitsValue_toDigits n
  have hlt : n < wordLimit := Nat.lt_of_le_of_lt hn (by decide)
  have hm := accumulate_of_lt (hvalue.symm ▸ hlt)
  rw [hvalue] at hm
  simp [number?, hm, hn, Nat.ne_of_gt hpos]

/-- An integer is read as it was written. -/
theorem read_text {z : Int} (hz : Number.isWord (.integer z) = true) {rest : List Char}
    (hr : stops rest = true) : ∃ n : Numeral,
      read (Number.text (.integer z) ++ rest) = some (n, rest) ∧ n.number? = some (.integer z) := by
  simp only [Number.isWord, Bool.and_eq_true, decide_eq_true_eq] at hz
  obtain ⟨hlow, hhigh⟩ := hz
  by_cases hneg : z < 0
  · have hpos : 0 < z.natAbs := by omega
    have hle : z.natAbs ≤ Nat.pow 2 63 := by omega
    have hz' : -(z.natAbs : Int) = z := by omega
    refine ⟨_, ?_, hz' ▸ number?_neg_toDigits hpos hle⟩
    rw [Number.text, if_pos hneg]
    exact read_neg_toDigits z.natAbs hr
  · have hlt : z.natAbs < wordLimit := by omega
    have hz' : (z.natAbs : Int) = z := by omega
    refine ⟨_, ?_, hz' ▸ number?_toDigits hlt⟩
    rw [Number.text, if_neg hneg]
    exact read_toDigits z.natAbs hr

end Numeral

/-! ### Strings -/

namespace Document

/-- The characters below 32 that are written with a letter of their own. -/
def letters : List Char := ['\x08', '\t', '\n', '\x0c', '\r']

/-- What reading makes of the text of a character: its code if it was written as one. -/
def pieceOf (c : Char) : Piece :=
  if c.toNat < 32 && !letters.contains c then .code c.toNat else .char c

theorem hexValue?_hexDigit {n : Nat} (hn : n < 16) : Text.hexValue? (hexDigit n) = some n := by
  have hall : ∀ n < 16, Text.hexValue? (hexDigit n) = some n := by decide
  exact hall n hn

theorem pieces_escape (seen : List Piece) (c : Char) (rest : List Char) :
    pieces seen (escape c ++ rest) = pieces (pieceOf c :: seen) rest := by
  have hzero : Text.hexValue? '0' = some 0 := by decide
  by_cases hquote : c = '"'
  · subst hquote
    simp [escape, pieces, unescape?, pieceOf, letters]
  by_cases hslash : c = '\\'
  · subst hslash
    simp [escape, pieces, unescape?, pieceOf, letters]
  by_cases hletter : c ∈ letters
  · simp only [letters, List.mem_cons, List.not_mem_nil, or_false] at hletter
    rcases hletter with rfl | rfl | rfl | rfl | rfl <;> simp [escape, pieces, unescape?, pieceOf, letters]
  · have hother := hletter
    simp only [letters, List.mem_cons, List.not_mem_nil, or_false, not_or] at hother
    obtain ⟨hb, ht, hn, hf, hr⟩ := hother
    by_cases hcontrol : c.toNat < 32
    · have hcode : (((0 * 16 + 0) * 16 + c.toNat / 16) * 16 + c.toNat % 16) = c.toNat := by omega
      have hhigh := hexValue?_hexDigit (n := c.toNat / 16) (by omega)
      have hlow := hexValue?_hexDigit (n := c.toNat % 16) (by omega)
      have hescape : escape c = ['\\', 'u', '0', '0', hexDigit (c.toNat / 16),
          hexDigit (c.toNat % 16)] := by
        simp [escape, hquote, hslash, hb, ht, hn, hf, hr, hcontrol]
      have hpiece : pieceOf c = .code c.toNat := by
        simp [pieceOf, hcontrol, hletter]
      simp only [hescape, hpiece, List.cons_append, List.nil_append, pieces, hzero, hhigh, hlow, hcode]
    · have hescape : escape c = [c] := by
        simp [escape, hquote, hslash, hb, ht, hn, hf, hr, hcontrol]
      have hpiece : pieceOf c = .char c := by simp [pieceOf, hcontrol]
      rw [hescape, hpiece, List.singleton_append, pieces.eq_4 seen c rest hquote
        (fun _ _ _ _ _ h => absurd h hslash) (fun _ _ h => absurd h hslash)]
      simp [hcontrol, hslash]

theorem pieces_flatMap_escape (cs : List Char) (seen : List Piece) (rest : List Char) :
    pieces seen (cs.flatMap escape ++ '"' :: rest) = some ((cs.map pieceOf).reverse ++ seen, rest) := by
  induction cs generalizing seen with
  | nil => simp [pieces]
  | cons c cs ih => simp [pieces_escape, ih]

theorem assemble_pieceOf (c : Char) (ps : List Piece) (done : List Char) :
    assemble (pieceOf c :: ps) done = assemble ps (c :: done) := by
  by_cases hcode : (c.toNat < 32 && !letters.contains c) = true
  · -- a code below 32 is no half of a surrogate pair
    have hlt : c.toNat < 32 := of_decide_eq_true (Bool.and_eq_true_iff.1 hcode).1
    have hlow : isLow c.toNat = false := by simp [isLow]; omega
    have hhigh : isHigh c.toNat = false := by simp [isHigh]; omega
    rw [pieceOf, if_pos hcode]
    rcases ps with _ | ⟨_ | n, ps⟩ <;> simp [assemble, hlow, hhigh]
  · rw [pieceOf, if_neg hcode, assemble]

theorem assemble_map_pieceOf (cs done : List Char) :
    assemble (cs.map pieceOf).reverse done = some (cs ++ done) := by
  induction cs using List.reverseRecOn generalizing done with
  | nil => rfl
  | append_singleton cs c ih => simp [assemble_pieceOf, ih]

/-- A string is read as it was written. -/
theorem readString_flatMap_escape (s : String) (rest : List Char) :
    readString (s.toList.flatMap escape ++ '"' :: rest) = some (some s, rest) := by
  rw [readString, pieces_flatMap_escape, List.append_nil]
  simp [assemble_map_pieceOf]

end Document

/-! ### Values -/

mutual

/-- Whether every number of a value is an integer of 64 bits. -/
def integral : Json → Bool
  | .number n => n.isWord
  | .array items => integralItems items
  | .object members => integralMembers members
  | _ => true

def integralItems : List Json → Bool
  | [] => true
  | x :: xs => x.integral && integralItems xs

def integralMembers : List (String × Json) → Bool
  | [] => true
  | (_, x) :: ms => x.integral && integralMembers ms

end

mutual

/-- The tree of a value as it is read from a text. -/
def document : Json → Document
  | .null => .null
  | .bool b => .bool b
  | .number n => .number (some n)
  | .string s => .string (some s)
  | .array items => .array (documentItems items) true
  | .object members => .object (documentMembers members) true

def documentItems : List Json → List Document
  | [] => []
  | x :: xs => x.document :: documentItems xs

def documentMembers : List (String × Json) → List (Option String × Document)
  | [] => []
  | (k, x) :: ms => (some k, x.document) :: documentMembers ms

end

namespace Document

theorem skip_cons {c : Char} (cs : List Char) (hc : isSpace c = false) : skip (c :: cs) = c :: cs := by
  simp [skip, hc]

/-- The text of an integer starts with a digit or a sign. -/
theorem exists_number_cons (z : Int) :
    ∃ c cs, Number.text (.integer z) = c :: cs ∧ (Text.isDigit c = true ∨ c = '-') := by
  by_cases hneg : z < 0
  · exact ⟨'-', Nat.toDigits 10 z.natAbs, by simp [Number.text, hneg], .inr rfl⟩
  · obtain ⟨c, cs, hcs⟩ := List.exists_cons_of_ne_nil (Nat.toDigits_ne_nil (n := z.natAbs) (b := 10))
    exact ⟨c, cs, by simp [Number.text, hneg, hcs],
      .inl (Text.isDigit_of_mem_toDigits (n := z.natAbs) (by simp [hcs]))⟩

theorem not_space_of_digit {c : Char} (hc : Text.isDigit c = true ∨ c = '-') : isSpace c = false := by
  rw [isSpace, ← Bool.not_eq_true]
  intro hspace
  simp only [Bool.or_eq_true, decide_eq_true_eq] at hspace
  rcases hspace with ((rfl | rfl) | rfl) | rfl <;> exact absurd hc (by decide)

/-- The text of a value starts with no blank and no bracket that closes. -/
theorem exists_text_cons {j : Json} (hj : j.integral = true) :
    ∃ c cs, j.text = c :: cs ∧ isSpace c = false ∧ c ≠ ']' := by
  cases j with
  | null => exact ⟨_, _, rfl, by decide, by decide⟩
  | bool b => cases b <;> exact ⟨_, _, rfl, by decide, by decide⟩
  | number n =>
    cases n with
    | float x => cases hj
    | integer z =>
      obtain ⟨c, cs, hcs, hc⟩ := exists_number_cons z
      exact ⟨c, cs, hcs, not_space_of_digit hc, by rintro rfl; exact absurd hc (by decide)⟩
  | string s => exact ⟨_, _, rfl, by decide, by decide⟩
  | array items => cases items <;> exact ⟨_, _, rfl, by decide, by decide⟩
  | object members => rcases members with _ | ⟨⟨k, v⟩, ms⟩ <;> exact ⟨_, _, rfl, by decide, by decide⟩

theorem readValue_number (fuel : Nat) {c : Char} (cs : List Char)
    (hc : Text.isDigit c = true ∨ c = '-') : readValue (fuel + 1) (c :: cs) =
      match Numeral.read (c :: cs) with
      | some (n, rest) => (.number n.number?, some rest)
      | none => (.broken, none) := by
  rw [readValue, skip_cons cs (not_space_of_digit hc)]
  split
  case h_7 => rfl
  all_goals
    rename_i heq
    obtain ⟨rfl, -⟩ := List.cons_eq_cons.1 heq
    exact absurd hc (by decide)

theorem readValue_array (fuel : Nat) {c : Char} (cs : List Char) (hspace : isSpace c = false)
    (hclose : c ≠ ']') : readValue (fuel + 1) ('[' :: c :: cs) = readItems fuel [] (c :: cs) := by
  rw [readValue, skip_cons _ (by decide)]
  simp only [skip_cons cs hspace]
  split
  · rename_i heq
    exact absurd (List.cons_eq_cons.1 heq).1 hclose
  · rfl

theorem stringText_append (k : String) (cs : List Char) :
    stringText k ++ cs = '"' :: (k.toList.flatMap escape ++ '"' :: cs) := by
  simp [stringText]

section
variable {fuel : Nat} {d : Document} {cs rest : List Char}

theorem readItems_next {seen : List Document} (h : readValue fuel cs = (d, some (',' :: rest))) :
    readItems (fuel + 1) seen cs = readItems fuel (d :: seen) rest := by
  rw [readItems, h]
  rfl

theorem readItems_last {seen : List Document} (h : readValue fuel cs = (d, some (']' :: rest))) :
    readItems (fuel + 1) seen cs = (.array (d :: seen).reverse true, some rest) := by
  rw [readItems, h]
  rfl

variable {seen : List (Option String × Document)}

theorem readMembers_next (k : String) (h : readValue fuel cs = (d, some (',' :: rest))) :
    readMembers (fuel + 1) seen (stringText k ++ ':' :: cs) =
      readMembers fuel ((some k, d) :: seen) rest := by
  rw [stringText_append, readMembers, skip_cons _ (by decide)]
  simp only [readString_flatMap_escape, skip_cons cs (show isSpace ':' = false by decide), h]
  rfl

theorem readMembers_last (k : String) (h : readValue fuel cs = (d, some ('\x7d' :: rest))) :
    readMembers (fuel + 1) seen (stringText k ++ ':' :: cs) =
      (.object ((some k, d) :: seen).reverse true, some rest) := by
  rw [stringText_append, readMembers, skip_cons _ (by decide)]
  simp only [readString_flatMap_escape, skip_cons cs (show isSpace ':' = false by decide), h]
  rfl

end

theorem stops_itemsText (xs : List Json) (rest : List Char) :
    Numeral.stops (itemsText xs ++ rest) = true := by
  cases xs <;> rfl

theorem stops_membersText (ms : List (String × Json)) (rest : List Char) :
    Numeral.stops (membersText ms ++ rest) = true := by
  rcases ms with _ | ⟨⟨k, v⟩, ms⟩ <;> rfl

mutual

/-- A value is read as its tree, and what follows it is left. -/
theorem readValue_text (fuel : Nat) (j : Json) (rest : List Char) (hj : j.integral = true)
    (hfuel : 2 * j.text.length ≤ fuel) (hr : Numeral.stops rest = true) :
    readValue fuel (j.text ++ rest) = (j.document, some rest) := by
  cases fuel with
  | zero =>
    obtain ⟨c, cs, htext, _⟩ := exists_text_cons hj
    simp [htext] at hfuel
  | succ fuel =>
    cases j with
    | null => rfl
    | bool b => cases b <;> rfl
    | number n =>
      cases n with
      | float x => cases hj
      | integer z =>
        obtain ⟨n, hread, hn⟩ := Numeral.read_text hj hr
        obtain ⟨c, cs, hcs, hc⟩ := exists_number_cons z
        rw [hcs, List.cons_append] at hread
        rw [text, hcs, List.cons_append, readValue_number fuel (cs ++ rest) hc, hread, document, ← hn]
    | string s =>
      rw [text, stringText_append, readValue, skip_cons _ (by decide)]
      simp only [readString_flatMap_escape s rest]
      rfl
    | array items =>
      cases items with
      | nil => rfl
      | cons x xs =>
        simp only [integral, integralItems, Bool.and_eq_true] at hj
        simp only [text, List.cons_append, List.length_cons] at hfuel
        obtain ⟨c, cs, hcs, hspace, hclose⟩ := exists_text_cons hj.1
        have hitems := readItems_text fuel x xs [] rest hj.1 hj.2 (by omega)
        have hcons : x.text ++ itemsText xs ++ rest = c :: (cs ++ itemsText xs ++ rest) := by simp [hcs]
        rw [text, List.cons_append, List.cons_append, hcons, readValue_array fuel _ hspace hclose,
          ← hcons, hitems]
        rfl
    | object members =>
      rcases members with _ | ⟨⟨k, x⟩, ms⟩
      · rfl
      · simp only [integral, integralMembers, Bool.and_eq_true] at hj
        simp only [text, List.cons_append, List.length_cons, List.length_append] at hfuel
        have hmembers := readMembers_text fuel k x ms [] rest hj.1 hj.2
          (by rw [List.length_append]; omega)
        have hopen : readValue (fuel + 1) ((Json.object ((k, x) :: ms)).text ++ rest) =
            readMembers fuel [] (stringText k ++ ':' :: x.text ++ membersText ms ++ rest) := rfl
        rw [hopen, hmembers]
        rfl

theorem readItems_text (fuel : Nat) (x : Json) (xs : List Json) (seen : List Document)
    (rest : List Char) (hx : x.integral = true) (hxs : integralItems xs = true)
    (hfuel : 2 * (x.text ++ itemsText xs).length + 1 ≤ fuel) :
    readItems fuel seen (x.text ++ itemsText xs ++ rest) =
      (.array (seen.reverse ++ x.document :: documentItems xs) true, some rest) := by
  cases fuel with
  | zero => simp at hfuel
  | succ fuel =>
    rw [List.length_append] at hfuel
    have hvalue := readValue_text fuel x (itemsText xs ++ rest) hx (by omega) (stops_itemsText xs rest)
    rw [List.append_assoc]
    cases xs with
    | nil =>
      have hlast : readValue fuel (x.text ++ ([']'] ++ rest)) = (x.document, some (']' :: rest)) :=
        hvalue
      rw [itemsText, readItems_last hlast, List.reverse_cons, documentItems]
    | cons y ys =>
      simp only [integralItems, Bool.and_eq_true] at hxs
      simp only [itemsText, List.cons_append, List.length_cons] at hfuel hvalue ⊢
      rw [readItems_next hvalue, readItems_text fuel y ys (x.document :: seen) rest hxs.1 hxs.2 (by omega)]
      simp [documentItems]

theorem readMembers_text (fuel : Nat) (k : String) (x : Json) (ms : List (String × Json))
    (seen : List (Option String × Document)) (rest : List Char) (hx : x.integral = true)
    (hms : integralMembers ms = true)
    (hfuel : 2 * (x.text ++ membersText ms).length + 1 ≤ fuel) :
    readMembers fuel seen (stringText k ++ ':' :: x.text ++ membersText ms ++ rest) =
      (.object (seen.reverse ++ (some k, x.document) :: documentMembers ms) true, some rest) := by
  cases fuel with
  | zero => simp at hfuel
  | succ fuel =>
    rw [List.length_append] at hfuel
    have hvalue := readValue_text fuel x (membersText ms ++ rest) hx (by omega)
      (stops_membersText ms rest)
    have hcons : stringText k ++ ':' :: x.text ++ membersText ms ++ rest =
        stringText k ++ ':' :: (x.text ++ (membersText ms ++ rest)) := by simp
    rw [hcons]
    rcases ms with _ | ⟨⟨k', y⟩, ms⟩
    · have hlast : readValue fuel (x.text ++ (['\x7d'] ++ rest)) =
          (x.document, some ('\x7d' :: rest)) := hvalue
      rw [membersText, readMembers_last k hlast, List.reverse_cons, documentMembers]
    · simp only [integralMembers, Bool.and_eq_true] at hms
      simp only [membersText, List.cons_append, List.length_cons, List.length_append] at hfuel hvalue ⊢
      rw [readMembers_next k hvalue, readMembers_text fuel k' y ms ((some k, x.document) :: seen) rest
        hms.1 hms.2 (by rw [List.length_append]; omega)]
      simp [documentMembers]

end

end Document

/-- A printed document is read as a whole. -/
theorem Source.read_print {j : Json} (hj : j.integral = true) :
    Source.read j.print = ⟨j.document, true⟩ := by
  have hvalue := Document.readValue_text (2 * j.text.length + 2) j [] hj (by omega) rfl
  rw [List.append_nil] at hvalue
  simp only [Source.read, Json.print, String.toList_ofList, hvalue]
  rfl

end Json

end ShardRegistry
