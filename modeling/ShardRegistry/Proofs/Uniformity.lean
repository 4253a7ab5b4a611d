import ShardRegistry.Proofs.Coherence
import ShardRegistry.Proofs.Maps

/-! Values read ahead. A variant of a tagged value is read from members that were read ahead as a
whole, where no place of the text is malformed any more. A strict value comes to the same there as in
the text: this holds of the scalar decoders and passes through every combinator, so a decoder has it by
its construction. Only the failures differ. -/
namespace ShardRegistry

namespace Json

/-! ### Readings that agree -/

/-- Two readings come to the same value, or neither comes to one. -/
def Agree {α : Type} (x y : Except Failure α) : Prop := x.toOption = y.toOption

namespace Agree
variable {α β : Type} {x y : Except Failure α}

theorem refl (x : Except Failure α) : Agree x x := rfl

theorem eq_ok_iff (h : Agree x y) (a : α) : x = .ok a ↔ y = .ok a := by
  cases x <;> cases y <;> simp_all [Agree, Except.toOption]

theorem bind {f g : α → Except Failure β} (h : Agree x y) (hf : ∀ a, x = .ok a → Agree (f a) (g a)) :
    Agree (x >>= f) (y >>= g) := by
  cases x with
  | error e =>
    cases y with
    | error e' => rfl
    | ok b => cases h
  | ok a =>
    obtain rfl := (h.eq_ok_iff a).1 rfl
    exact hf a rfl

theorem map (f : α → β) (h : Agree x y) : Agree (x.map f) (y.map f) := by
  cases x <;> cases y <;> simp_all [Agree, Except.map, Except.toOption]

end Agree

/-! ### Strict documents -/

namespace Document

theorem strict_of_mem_items {levels : Nat} {ds : List Document} (h : strictItems levels ds = true) :
    ∀ d ∈ ds, d.strict levels = true := by
  induction ds with
  | nil => exact List.forall_mem_nil _
  | cons d ds ih =>
    obtain ⟨hd, hds⟩ := Bool.and_eq_true_iff.1 h
    exact List.forall_mem_cons.2 ⟨hd, ih hds⟩

theorem strictMembers_iff {levels : Nat} {ms : List (Option String × Document)} :
    strictMembers levels ms = true ↔ ∀ m ∈ ms, m.1 ≠ none ∧ m.2.strict levels = true := by
  induction ms with
  | nil => exact iff_of_true rfl (List.forall_mem_nil _)
  | cons m ms ih =>
    rw [strictMembers, Bool.and_eq_true_iff, Bool.and_eq_true_iff, ih, List.forall_mem_cons,
      Option.isSome_iff_ne_none]

theorem strict_array {levels : Nat} {ds : List Document} {closed : Bool}
    (h : (array ds closed).strict levels = true) :
    ∃ n, levels = n + 1 ∧ closed = true ∧ ∀ d ∈ ds, d.strict n = true := by
  cases levels with
  | zero => cases h
  | succ n =>
    obtain ⟨hds, hclosed⟩ := Bool.and_eq_true_iff.1 h
    exact ⟨n, rfl, hclosed, strict_of_mem_items hds⟩

theorem strict_object {levels : Nat} {ms : List (Option String × Document)} {closed : Bool}
    (h : (object ms closed).strict levels = true) :
    ∃ n, levels = n + 1 ∧ closed = true ∧ ∀ m ∈ ms, m.1 ≠ none ∧ m.2.strict n = true := by
  cases levels with
  | zero => cases h
  | succ n =>
    obtain ⟨hms, hclosed⟩ := Bool.and_eq_true_iff.1 h
    exact ⟨n, rfl, hclosed, strictMembers_iff.1 hms⟩

end Document

/-! ### Decoders -/

/-- Whether a decoder makes the same of a strict value where it stands in a text as of one that was read
ahead. -/
def Decoder.Uniform {α : Type} (decode : Decoder α) : Prop :=
  ∀ levels d, d.strict levels = true → Agree (decode (.text levels) d) (decode .ahead d)

namespace Decoder.Uniform
variable {α β : Type} {decode : Decoder α}

theorem string : Decoder.string.Uniform := by
  intro levels d _
  cases d with
  | string s => cases s <;> exact .refl _
  | null | bool | number | array | object | broken => exact .refl _

theorem bool : Decoder.bool.Uniform := by
  intro levels d _
  cases d <;> exact .refl _

theorem natural : Decoder.natural.Uniform := by
  intro levels d _
  cases d with
  | number n => cases n <;> exact .refl _
  | null | bool | string | array | object | broken => exact .refl _

theorem any : Decoder.any.Uniform := by
  intro levels d h
  rw [Decoder.any, if_pos h]
  exact .refl _

theorem map (f : α → β) (h : decode.Uniform) : Decoder.Uniform fun p d => (decode p d).map f :=
  fun levels d hd => (h levels d hd).map f

theorem items (h : decode.Uniform) {levels : Nat} {ds : List Document} (closed : Bool)
    (hd : ∀ d ∈ ds, d.strict levels = true) :
    Agree (Decoder.items decode (.text levels) closed ds) (Decoder.items decode .ahead closed ds) := by
  induction ds with
  | nil => exact .refl _
  | cons d ds ih =>
    obtain ⟨hd, hds⟩ := List.forall_mem_cons.1 hd
    exact (h levels d hd).bind fun x _ => (ih hds).bind fun xs _ => .refl _

theorem list (h : decode.Uniform) : (Decoder.list decode).Uniform := by
  intro levels d hd
  cases d with
  | array ds closed =>
    obtain ⟨n, rfl, rfl, hds⟩ := Document.strict_array hd
    exact h.items true hds
  | null | bool | number | string | object | broken => exact .refl _

theorem members (h : decode.Uniform) {levels : Nat} {ms : List (Option String × Document)} (closed : Bool)
    (hm : ∀ m ∈ ms, m.1 ≠ none ∧ m.2.strict levels = true) :
    Agree (Decoder.members decode (.text levels) closed ms) (Decoder.members decode .ahead closed ms) := by
  induction ms with
  | nil => exact .refl _
  | cons m ms ih =>
    obtain ⟨⟨_, hd⟩, hms⟩ := List.forall_mem_cons.1 hm
    obtain ⟨key, d⟩ := m
    cases key with
    | none => exact .refl _
    | some key => exact (h levels d hd).bind fun x _ => (ih hms).bind fun xs _ => .refl _

theorem pairs (h : decode.Uniform) : (Decoder.pairs decode).Uniform := by
  intro levels d hd
  cases d with
  | object ms closed =>
    obtain ⟨n, rfl, rfl, hms⟩ := Document.strict_object hd
    exact h.members true hms
  | null | bool | number | string | array | broken => exact .refl _

theorem orderedMap (h : decode.Uniform) : (Decoder.orderedMap decode).Uniform := h.pairs.map _

theorem sortedMap (h : decode.Uniform) : (Decoder.sortedMap decode).Uniform := h.pairs.map _

theorem sortedSet : Decoder.sortedSet.Uniform := string.list.map _

end Decoder.Uniform

/-! ### Records -/

/-- Whether every field is checked, and the record built, alike in a text and ahead of it. -/
structure Record.Uniform {α : Type} (r : Record α) : Prop where
  fields : ∀ f ∈ r.fields, ∀ levels d, d.strict levels = true →
    Agree (f.2.1 (.text levels) d) (f.2.1 .ahead d)
  build : ∀ levels (get : String → Option Document),
    (∀ name d, get name = some d → d.strict levels = true) →
      Agree (r.build get (.text levels)) (r.build get .ahead)

theorem mem_of_lookup {α : Type} {es : List (String × α)} {key : String} {v : α}
    (h : es.lookup key = some v) : (key, v) ∈ es := by
  induction es with
  | nil => cases h
  | cons e es ih =>
    obtain ⟨k, w⟩ := e
    rw [List.lookup_cons] at h
    split at h
    · rename_i hk
      cases h
      rw [eq_of_beq hk]
      exact List.mem_cons_self
    · exact List.mem_cons_of_mem _ (ih h)

namespace Record.Uniform
variable {α β : Type}

theorem required (name : String) {decode : Decoder α} (h : decode.Uniform) :
    (Record.required name decode).Uniform where
  fields f hf levels d hd := by
    obtain rfl := List.mem_singleton.1 hf
    exact (h levels d hd).map _
  build levels get hget := by
    simp only [Record.required]
    split
    · exact h levels _ (hget name _ ‹_›)
    · exact .refl _

theorem optional (name : String) {decode : Decoder α} (h : decode.Uniform) (default : α) :
    (Record.optional name decode default).Uniform where
  fields f hf levels d hd := by
    obtain rfl := List.mem_singleton.1 hf
    exact (h levels d hd).map _
  build levels get hget := by
    simp only [Record.optional]
    split
    · exact h levels _ (hget name _ ‹_›)
    · exact .refl _

theorem seq {f : Record (α → β)} {r : Record α} (hf : f.Uniform) (hr : r.Uniform) :
    (f <*> r).Uniform where
  fields e he := (List.mem_append.1 he).elim (hf.fields e) (hr.fields e)
  build levels get hget :=
    (hf.build levels get hget).bind fun _ _ => (hr.build levels get hget).bind fun _ _ => .refl _

theorem map (g : α → β) {r : Record α} (hr : r.Uniform) : (g <$> r).Uniform :=
  seq (f := Record.pure g) ⟨fun _ he => absurd he List.not_mem_nil, fun _ _ _ => .refl _⟩ hr

variable {r : Record α}

theorem scan (h : r.Uniform) {levels : Nat} (closed : Bool) {ms : List (Option String × Document)}
    (hm : ∀ m ∈ ms, m.1 ≠ none ∧ m.2.strict levels = true) (seen : List (String × Document)) :
    Agree (r.scan (.text levels) closed seen ms) (r.scan .ahead closed seen ms) := by
  induction ms generalizing seen with
  | nil => exact .refl _
  | cons m ms ih =>
    obtain ⟨⟨_, hd⟩, hms⟩ := List.forall_mem_cons.1 hm
    obtain ⟨key, d⟩ := m
    cases key with
    | none => exact .refl _
    | some key =>
      simp only [Record.scan]
      split
      · split
        · exact ih hms seen
        · exact .refl _
      · rename_i hlookup
        split
        · exact .refl _
        · exact (h.fields _ (mem_of_lookup hlookup) levels d hd).bind fun _ _ => ih hms _

theorem scanItems {levels : Nat} (closed : Bool)
    {fs : List (String × (Place → Document → Except Failure Unit) × Bool)}
    (hf : ∀ f ∈ fs, ∀ levels d, d.strict levels = true → Agree (f.2.1 (.text levels) d) (f.2.1 .ahead d))
    {ds : List Document} (hd : ∀ d ∈ ds, d.strict levels = true) :
    Agree (Record.scanItems (.text levels) closed fs ds) (Record.scanItems .ahead closed fs ds) := by
  induction fs generalizing ds with
  | nil => cases ds <;> exact .refl _
  | cons f fs ih =>
    obtain ⟨hcheck, hfs⟩ := List.forall_mem_cons.1 hf
    cases ds with
    | nil =>
      simp only [Record.scanItems]
      split
      · exact .refl _
      · split
        · exact .refl _
        · exact ih hfs hd
    | cons d ds =>
      obtain ⟨hd, hds⟩ := List.forall_mem_cons.1 hd
      exact (hcheck levels d hd).bind fun _ _ => (ih hfs hds).bind fun _ _ => .refl _

end Record.Uniform

namespace Record
variable {α : Type} {r : Record α} {p : Place} {closed : Bool}

/-- What a scan keeps are members. -/
theorem mem_of_scan {ms : List (Option String × Document)} {seen seen' : List (String × Document)}
    (h : r.scan p closed seen ms = .ok seen') :
    ∀ e ∈ seen', e ∈ seen ∨ (some e.1, e.2) ∈ ms := by
  induction ms generalizing seen with
  | nil =>
    simp only [scan] at h
    split at h
    · cases h
      exact fun e he => .inl he
    · cases h
  | cons m ms ih =>
    obtain ⟨key, d⟩ := m
    cases key with
    | none => cases h
    | some key =>
      simp only [scan] at h
      intro e he
      split at h
      · split at h
        · exact (ih h e he).imp_right (List.mem_cons_of_mem _)
        · cases h
      · split at h
        · cases h
        · obtain ⟨_, _, h⟩ := bind_eq_ok h
          rcases ih h e he with he | he
          · rcases List.mem_cons.1 he with rfl | he
            · exact .inr List.mem_cons_self
            · exact .inl he
          · exact .inr (List.mem_cons_of_mem _ he)

theorem mem_of_scanItems {fs : List (String × (Place → Document → Except Failure Unit) × Bool)}
    {ds : List Document} {seen : List (String × Document)}
    (h : scanItems p closed fs ds = .ok seen) : ∀ e ∈ seen, e.2 ∈ ds := by
  induction fs generalizing ds seen with
  | nil =>
    cases ds with
    | nil =>
      simp only [scanItems] at h
      split at h
      · cases h
        exact List.forall_mem_nil _
      · cases h
    | cons d ds => cases h
  | cons f fs ih =>
    cases ds with
    | nil =>
      simp only [scanItems] at h
      split at h
      · cases h
      · split at h
        · cases h
        · exact ih h
    | cons d ds =>
      obtain ⟨_, _, h⟩ := bind_eq_ok h
      obtain ⟨rest, hrest, h⟩ := bind_eq_ok h
      cases h
      exact List.forall_mem_cons.2 ⟨List.mem_cons_self,
        fun e he => List.mem_cons_of_mem d (ih hrest e he)⟩

end Record

theorem Decoder.Uniform.record {α : Type} {r : Record α} (h : r.Uniform) : r.decode.Uniform := by
  intro levels d hd
  cases d with
  | object ms closed =>
    obtain ⟨n, rfl, rfl, hms⟩ := Document.strict_object hd
    refine (h.scan true hms []).bind fun seen hseen => h.build n _ fun name d hfind => ?_
    have hmem := Record.mem_of_scan hseen _ (Entries.mem_of_find? hfind)
    exact (hms _ (hmem.resolve_left List.not_mem_nil)).2
  | array ds closed =>
    obtain ⟨n, rfl, rfl, hds⟩ := Document.strict_array hd
    refine (Record.Uniform.scanItems true h.fields hds).bind fun seen hseen =>
      h.build n _ fun name d hfind => ?_
    exact hds d (Record.mem_of_scanItems hseen _ (Entries.mem_of_find? hfind))
  | null | bool | number | string | broken => exact .refl _

/-! ### Tagged values -/

namespace Tagged
variable {α : Type} (t : Tagged α)

theorem agree_variant {levels : Nat} {d : Document} (hd : d.strict levels = true) :
    Agree (t.variant (.text levels) d) (t.variant .ahead d) :=
  (Decoder.Uniform.string levels d hd).bind fun _ _ => .refl _

theorem agree_scan {levels : Nat} (closed : Bool) {ms : List (Option String × Document)}
    (hm : ∀ m ∈ ms, m.1 ≠ none ∧ m.2.strict levels = true) (tag : Option (Decoder α))
    (seen : List (Option String × Document)) :
    Agree (t.scan (.text levels) closed tag seen ms) (t.scan .ahead closed tag seen ms) := by
  induction ms generalizing tag seen with
  | nil => exact .refl _
  | cons m ms ih =>
    obtain ⟨⟨_, hd⟩, hms⟩ := List.forall_mem_cons.1 hm
    obtain ⟨key, d⟩ := m
    cases key with
    | none => exact .refl _
    | some key =>
      simp only [scan]
      split
      · split
        · exact .refl _
        · exact (t.agree_variant hd).bind fun _ _ => ih hms _ _
      · exact (Decoder.Uniform.any levels d hd).bind fun _ _ => ih hms _ _

end Tagged

/-- The variants of a tagged value are read ahead in any case. -/
theorem Decoder.Uniform.tagged {α : Type} (t : Tagged α) : t.decode.Uniform := by
  intro levels d hd
  cases d with
  | object ms closed =>
    obtain ⟨n, rfl, rfl, hms⟩ := Document.strict_object hd
    exact (t.agree_scan true hms none []).bind fun _ _ => .refl _
  | array ds closed =>
    obtain ⟨n, rfl, rfl, hds⟩ := Document.strict_array hd
    cases ds with
    | nil => exact .refl _
    | cons tag ds =>
      obtain ⟨htag, hds⟩ := List.forall_mem_cons.1 hds
      exact (t.agree_variant htag).bind fun _ _ =>
        (Decoder.Uniform.any.items true hds).bind fun _ _ => .refl _
  | null | bool | number | string | broken => exact .refl _

end Json

end ShardRegistry
