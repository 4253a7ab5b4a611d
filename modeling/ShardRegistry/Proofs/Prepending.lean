import Mathlib.Data.List.DropRight
import ShardRegistry.Proofs.Printing

/-! A member in front. More fuel than a value was read with reads it again, and members are read in the
same way whatever stands before them. So a member that is written in front of the first one of an object
is read in front of the others. -/
namespace ShardRegistry.Json

namespace Document

/-! ### Fuel -/

mutual

theorem readValue_succ (fuel : Nat) {cs rest : List Char} {d : Document}
    (h : readValue fuel cs = (d, some rest)) : readValue (fuel + 1) cs = (d, some rest) := by
  cases fuel with
  | zero => cases h
  | succ fuel =>
    rw [readValue] at h ⊢
    split at h
    case h_5 =>
      split at h
      · exact h
      · exact readItems_succ fuel h
    case h_6 =>
      split at h
      · exact h
      · exact readMembers_succ fuel h
    all_goals exact h

theorem readItems_succ (fuel : Nat) {seen : List Document} {cs rest : List Char} {d : Document}
    (h : readItems fuel seen cs = (d, some rest)) : readItems (fuel + 1) seen cs = (d, some rest) := by
  cases fuel with
  | zero => cases h
  | succ fuel =>
    rw [readItems] at h ⊢
    cases hvalue : readValue fuel cs with
    | mk item after =>
      cases after with
      | none =>
        rw [hvalue] at h
        cases h
      | some after =>
        rw [hvalue] at h
        rw [readValue_succ fuel hvalue]
        dsimp only [Option.map_some] at h ⊢
        split at h
        · exact readItems_succ fuel h
        · exact h
        · cases h

theorem readMembers_succ (fuel : Nat) {seen : List (Option String × Document)} {cs rest : List Char}
    {d : Document} (h : readMembers fuel seen cs = (d, some rest)) :
    readMembers (fuel + 1) seen cs = (d, some rest) := by
  cases fuel with
  | zero => cases h
  | succ fuel =>
    rw [readMembers] at h ⊢
    split at h
    · split at h
      · cases h
      · split at h
        · rename_i text _
          cases hvalue : readValue fuel text with
          | mk value after =>
            cases after with
            | none =>
              rw [hvalue] at h
              cases h
            | some after =>
              rw [hvalue] at h
              rw [readValue_succ fuel hvalue]
              dsimp only [Option.map_some] at h ⊢
              split at h
              · exact readMembers_succ fuel h
              · exact h
              · cases h
        · cases h
    · cases h

end

theorem readMembers_mono {fuel fuel' : Nat} (hle : fuel ≤ fuel')
    {seen : List (Option String × Document)} {cs rest : List Char} {d : Document}
    (h : readMembers fuel seen cs = (d, some rest)) : readMembers fuel' seen cs = (d, some rest) := by
  induction hle with
  | refl => exact h
  | step _ ih => exact readMembers_succ _ ih

/-! ### What stands before the members -/

/-- The members of an object behind others. -/
def behind (front : List (Option String × Document)) : Document → Document
  | .object ms closed => .object (front ++ ms) closed
  | d => d

theorem readMembers_append (fuel : Nat) (seen front : List (Option String × Document)) (cs : List Char) :
    readMembers fuel (seen ++ front) cs =
      ((readMembers fuel seen cs).1.behind front.reverse, (readMembers fuel seen cs).2) := by
  induction fuel generalizing seen cs with
  | zero => simp [readMembers, behind]
  | succ fuel ih =>
    simp only [readMembers]
    split
    · split
      · simp [behind]
      · split
        · split
          · exact ih (_ :: seen) _
          · simp [behind]
          · simp [behind]
        · simp [behind]
    · simp [behind]

/-! ### Blanks -/

theorem skip_skip (cs : List Char) : skip (skip cs) = skip cs := List.dropWhile_idempotent isSpace cs

theorem readMembers_skip (fuel : Nat) (seen : List (Option String × Document)) (cs : List Char) :
    readMembers fuel seen (skip cs) = readMembers fuel seen cs := by
  cases fuel with
  | zero => rfl
  | succ fuel => simp only [readMembers, skip_skip]

/-! ### Objects -/

theorem exists_array_of_readItems (fuel : Nat) (seen : List Document) (cs : List Char) :
    ∃ ds closed, (readItems fuel seen cs).1 = .array ds closed := by
  induction fuel generalizing seen cs with
  | zero => exact ⟨_, _, rfl⟩
  | succ fuel ih =>
    simp only [readItems]
    split
    · exact ih _ _
    · exact ⟨_, _, rfl⟩
    · exact ⟨_, _, rfl⟩

/-- Only what starts with a brace is read as an object. -/
theorem exists_body_of_readValue {fuel : Nat} {cs : List Char} {ms : List (Option String × Document)}
    {closed : Bool} {rest : Option (List Char)} (hms : ms ≠ [])
    (h : readValue (fuel + 1) cs = (.object ms closed, rest)) :
    ∃ body, skip cs = '\x7b' :: body ∧ readMembers fuel [] body = (.object ms closed, rest) := by
  rw [readValue] at h
  split at h
  case h_4 =>
    split at h
    · cases h
    · cases h
  case h_5 =>
    split at h
    · cases h
    · rename_i body _ _ _
      obtain ⟨ds, closed, hitems⟩ := exists_array_of_readItems fuel [] (skip body)
      rw [h] at hitems
      cases hitems
  case h_6 body hcs =>
    split at h
    · cases h
      exact absurd rfl hms
    · exact ⟨body, hcs, (readMembers_skip fuel [] body).symm.trans h⟩
  case h_7 =>
    split at h
    · cases h
    · cases h
  all_goals cases h

theorem readValue_stringText (fuel : Nat) (s : String) (rest : List Char)
    (hfuel : 2 * (stringText s).length ≤ fuel) (hr : Numeral.stops rest = true) :
    readValue fuel (stringText s ++ rest) = (.string (some s), some rest) :=
  readValue_text fuel (.string s) rest rfl hfuel hr

/-- A member more in front of the members, and fuel for it. -/
theorem readMembers_prepend (key value : String) {fuel fuel' : Nat} {body rest : List Char}
    {ms : List (Option String × Document)} {closed : Bool}
    (h : readMembers fuel [] body = (.object ms closed, some rest)) (hle : fuel ≤ fuel')
    (hvalue : 2 * (stringText value).length ≤ fuel') :
    readMembers (fuel' + 1) [] (stringText key ++ ':' :: (stringText value ++ ',' :: body)) =
      (.object ((some key, .string (some value)) :: ms) closed, some rest) := by
  have hfront := readMembers_append fuel' [] [(some key, .string (some value))] body
  rw [readMembers_mono hle h] at hfront
  rw [readMembers_next key (readValue_stringText fuel' value (',' :: body) hvalue rfl)]
  exact hfront

end Document

/-- The text of an object with a member of a textual value written in front of the first one. -/
def prepend (key value text : String) : String :=
  String.ofList (text.toList.takeWhile Document.isSpace ++
    '\x7b' :: (stringText key ++ ':' :: (stringText value ++
      ',' :: (Document.skip text.toList).tail)))

namespace Source
variable {text : String}

theorem eq_of_clean {root : Document} (h : Source.read text = ⟨root, true⟩) :
    ∃ rest, Document.readValue (2 * text.toList.length + 2) text.toList = (root, some rest) ∧
      (Document.skip rest).isEmpty = true := by
  simp only [Source.read] at h
  split at h
  · obtain ⟨rfl, hclean⟩ := Source.mk.inj h
    exact ⟨_, ‹_›, hclean⟩
  · cases h

/-- A member that was written in front is read in front. -/
theorem read_prepend (key value : String) {ms : List (Option String × Document)} (hms : ms ≠ [])
    (h : Source.read text = ⟨.object ms true, true⟩) :
    Source.read (prepend key value text) =
      ⟨.object ((some key, .string (some value)) :: ms) true, true⟩ := by
  obtain ⟨rest, hread, hrest⟩ := eq_of_clean h
  obtain ⟨body, hbody, hmembers⟩ := Document.exists_body_of_readValue hms hread
  let blanks := text.toList.takeWhile Document.isSpace
  have htext : text.toList = blanks ++ '\x7b' :: body := by
    rw [← hbody]
    exact List.takeWhile_append_dropWhile.symm
  let inner := stringText key ++ ':' :: (stringText value ++ ',' :: body)
  have hprepend : (prepend key value text).toList = blanks ++ '\x7b' :: inner := by
    rw [prepend, String.toList_ofList, hbody, List.tail_cons]
  have hskip : Document.skip (blanks ++ '\x7b' :: inner) = '\x7b' :: inner := by
    rw [Document.skip, List.dropWhile_append_of_pos fun c hc => List.mem_takeWhile_imp hc]
    exact Document.skip_cons inner rfl
  have hlength : text.toList.length + (stringText value).length <
      (blanks ++ '\x7b' :: inner).length := by
    simp only [htext, inner, List.length_append, List.length_cons]
    omega
  have hopen (fuel : Nat) : Document.readValue (fuel + 1) (blanks ++ '\x7b' :: inner) =
      Document.readMembers fuel [] inner := by
    rw [Document.readValue, hskip]
    rfl
  have hinner : Document.readMembers (2 * (blanks ++ '\x7b' :: inner).length + 1) [] inner =
      (.object ((some key, .string (some value)) :: ms) true, some rest) :=
    Document.readMembers_prepend key value hmembers (by omega) (by omega)
  rw [Source.read, hprepend]
  simp only [hopen, hinner, hrest]

end Source

end ShardRegistry.Json
