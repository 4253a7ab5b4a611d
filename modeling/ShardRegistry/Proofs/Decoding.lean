import ShardRegistry.Json.Decode
import ShardRegistry.Proofs.Maps
import ShardRegistry.Proofs.Printing

/-! Typed values read back. A decoder reads a value if it makes of its tree what the value was made
from, at every place with levels enough for the value. Decoders of lists, maps, records and tagged
values read whatever the decoders of the parts read. -/
namespace ShardRegistry

namespace Json

/-! ### Levels -/

mutual

/-- The number of arrays and objects inside each other. -/
def depth : Json → Nat
  | .array items => depthItems items + 1
  | .object members => depthMembers members + 1
  | _ => 0

def depthItems : List Json → Nat
  | [] => 0
  | x :: xs => max x.depth (depthItems xs)

def depthMembers : List (String × Json) → Nat
  | [] => 0
  | (_, x) :: ms => max x.depth (depthMembers ms)

end

theorem depth_le_depthMembers {m : String × Json} {ms : List (String × Json)} (h : m ∈ ms) :
    m.2.depth ≤ depthMembers ms := by
  induction ms with
  | nil => cases h
  | cons m' ms ih =>
    rcases List.mem_cons.1 h with rfl | h
    · exact Nat.le_max_left _ _
    · exact Nat.le_trans (ih h) (Nat.le_max_right _ _)

namespace Place

/-- Whether a value of that many levels may stand at a place. -/
def Holds : Place → Nat → Prop
  | .text levels, depth => depth ≤ levels
  | .ahead, _ => True

theorem Holds.mono {p : Place} {m n : Nat} (h : p.Holds n) (hle : m ≤ n) : p.Holds m := by
  cases p with
  | text levels => exact Nat.le_trans hle h
  | ahead => exact h

theorem Holds.enter {p : Place} {n : Nat} (h : p.Holds (n + 1)) : ∃ q, p.enter = .ok q ∧ q.Holds n := by
  cases p with
  | text levels =>
    cases levels with
    | zero => exact absurd h (Nat.not_succ_le_zero n)
    | succ levels => exact ⟨.text levels, rfl, Nat.le_of_succ_le_succ h⟩
  | ahead => exact ⟨.ahead, rfl, trivial⟩

end Place

/-! ### Any values -/

mutual

/-- Whether the members of every object stand in ascending order of their names, each once. -/
def ascending : Json → Bool
  | .array items => ascendingItems items
  | .object members => (members.map (·.1)).Pairwise (· < ·) && ascendingMembers members
  | _ => true

def ascendingItems : List Json → Bool
  | [] => true
  | x :: xs => x.ascending && ascendingItems xs

def ascendingMembers : List (String × Json) → Bool
  | [] => true
  | (_, x) :: ms => x.ascending && ascendingMembers ms

end

mutual

theorem strict_document (j : Json) {levels : Nat} (h : j.depth ≤ levels) :
    j.document.strict levels = true := by
  cases j with
  | null | bool | number | string => rfl
  | array items =>
    cases levels with
    | zero => exact absurd h (Nat.not_succ_le_zero _)
    | succ levels =>
      have hitems := strictItems_document items (Nat.le_of_succ_le_succ h)
      simp [document, Document.strict, hitems]
  | object members =>
    cases levels with
    | zero => exact absurd h (Nat.not_succ_le_zero _)
    | succ levels =>
      have hmembers := strictMembers_document members (Nat.le_of_succ_le_succ h)
      simp [document, Document.strict, hmembers]

theorem strictItems_document (xs : List Json) {levels : Nat} (h : depthItems xs ≤ levels) :
    Document.strictItems levels (documentItems xs) = true := by
  cases xs with
  | nil => rfl
  | cons x xs =>
    have hx := strict_document x (Nat.le_trans (Nat.le_max_left _ _) h)
    have hxs := strictItems_document xs (Nat.le_trans (Nat.le_max_right _ _) h)
    simp [documentItems, Document.strictItems, hx, hxs]

theorem strictMembers_document (ms : List (String × Json)) {levels : Nat}
    (h : depthMembers ms ≤ levels) :
    Document.strictMembers levels (documentMembers ms) = true := by
  rcases ms with _ | ⟨⟨k, x⟩, ms⟩
  · rfl
  · have hx := strict_document x (Nat.le_trans (Nat.le_max_left _ _) h)
    have hms := strictMembers_document ms (Nat.le_trans (Nat.le_max_right _ _) h)
    simp [documentMembers, Document.strictMembers, hx, hms]

end

mutual

/-- A value with its members in order is the value of its tree. -/
theorem value_document (j : Json) (h : j.ascending = true) : j.document.value = j := by
  cases j with
  | null | bool | number | string => rfl
  | array items => rw [document, Document.value, itemValues_document items h]
  | object members =>
    obtain ⟨hsorted, hmembers⟩ := Bool.and_eq_true_iff.1 h
    rw [document, Document.value, memberValues_document members [] hmembers (of_decide_eq_true hsorted),
      List.nil_append]

theorem itemValues_document (xs : List Json) (h : ascendingItems xs = true) :
    Document.itemValues (documentItems xs) = xs := by
  cases xs with
  | nil => rfl
  | cons x xs =>
    obtain ⟨hx, hxs⟩ := Bool.and_eq_true_iff.1 h
    rw [documentItems, Document.itemValues, value_document x hx, itemValues_document xs hxs]

theorem memberValues_document (ms seen : List (String × Json)) (h : ascendingMembers ms = true)
    (hs : ((seen ++ ms).map (·.1)).Pairwise (· < ·)) :
    Document.memberValues seen (documentMembers ms) = seen ++ ms := by
  rcases ms with _ | ⟨⟨k, x⟩, ms⟩
  · exact (List.append_nil seen).symm
  · obtain ⟨hx, hms⟩ := Bool.and_eq_true_iff.1 h
    have hlt : ∀ e ∈ seen, e.1 < k := by
      rw [List.map_append, List.pairwise_append] at hs
      exact fun e he => hs.2.2 e.1 (List.mem_map_of_mem he) k (by simp)
    have hsplit : seen ++ [(k, x)] ++ ms = seen ++ (k, x) :: ms := by simp
    rw [documentMembers, Document.memberValues, value_document x hx, Option.getD_some,
      Entries.insertSorted_of_lt x hlt, memberValues_document ms _ hms (by rwa [hsplit]), hsplit]

end

/-! ### Decoders -/

/-- Whether a decoder makes of the tree of a value what the value was made from. -/
def Decoder.Reads {α : Type} (decode : Decoder α) (j : Json) (x : α) : Prop :=
  ∀ p : Place, p.Holds j.depth → decode p j.document = .ok x

theorem Decoder.any_document {p : Place} {j : Json} (hp : p.Holds j.depth) :
    Decoder.any p j.document = .ok j.document.value := by
  cases p with
  | text levels => rw [Decoder.any, strict_document j hp, if_pos rfl]
  | ahead => rfl

namespace Decoder.Reads
variable {α β : Type} {decode : Decoder α} {toJson : α → Json}

theorem string (s : String) : Decoder.string.Reads (.string s) s := fun _ _ => rfl

theorem bool (b : Bool) : Decoder.bool.Reads (.bool b) b := fun _ _ => rfl

theorem natural (n : Nat) : Decoder.natural.Reads (.natural n) n := fun _ _ => rfl

theorem stringOrNull (s : Option String) :
    (Decoder.nullable .string).Reads (.stringOrNull s) s := by
  intro p _
  cases s <;> rfl

theorem any {j : Json} (h : j.ascending = true) : Decoder.any.Reads j j := by
  intro p hp
  rw [any_document hp, value_document j h]

theorem map (f : α → β) {j : Json} {x : α} (h : decode.Reads j x) :
    Decoder.Reads (fun p d => (decode p d).map f) j (f x) := by
  intro p hp
  simp only [h p hp]
  rfl

theorem items {p : Place} {xs : List α} (h : ∀ x ∈ xs, decode.Reads (toJson x) x)
    (hp : p.Holds (depthItems (xs.map toJson))) :
    Decoder.items decode p true (documentItems (xs.map toJson)) = .ok xs := by
  induction xs with
  | nil => rfl
  | cons x xs ih =>
    have hx := h x (List.mem_cons_self ..) p (hp.mono (Nat.le_max_left _ _))
    have hxs := ih (fun y hy => h y (List.mem_cons_of_mem x hy)) (hp.mono (Nat.le_max_right _ _))
    rw [List.map_cons, documentItems, Decoder.items, hx, hxs]
    rfl

theorem list {xs : List α} (h : ∀ x ∈ xs, decode.Reads (toJson x) x) :
    (Decoder.list decode).Reads (.array (xs.map toJson)) xs := by
  intro p hp
  obtain ⟨q, hq, hholds⟩ := hp.enter
  rw [document, Decoder.list, hq]
  exact items h hholds

theorem strings (xs : List String) : (Decoder.list .string).Reads (.strings xs) xs :=
  list fun x _ => string x

theorem members {p : Place} {es : List (String × α)} (h : ∀ e ∈ es, decode.Reads (toJson e.2) e.2)
    (hp : p.Holds (depthMembers (es.map fun e => (e.1, toJson e.2)))) :
    Decoder.members decode p true (documentMembers (es.map fun e => (e.1, toJson e.2))) = .ok es := by
  induction es with
  | nil => rfl
  | cons e es ih =>
    have he := h e (List.mem_cons_self ..) p (hp.mono (Nat.le_max_left _ _))
    have hes := ih (fun e' he' => h e' (List.mem_cons_of_mem e he')) (hp.mono (Nat.le_max_right _ _))
    rw [List.map_cons, documentMembers, Decoder.members, he, hes]
    rfl

theorem pairs {es : List (String × α)} (h : ∀ e ∈ es, decode.Reads (toJson e.2) e.2) :
    (Decoder.pairs decode).Reads (.object (es.map fun e => (e.1, toJson e.2))) es := by
  intro p hp
  obtain ⟨q, hq, hholds⟩ := hp.enter
  rw [document, Decoder.pairs, hq]
  exact members h hholds

theorem orderedMap {m : OrderedMap α} (h : ∀ e ∈ m.entries, decode.Reads (toJson e.2) e.2) :
    (Decoder.orderedMap decode).Reads (.object (m.entries.map fun e => (e.1, toJson e.2))) m := by
  intro p hp
  rw [Decoder.orderedMap, pairs h p hp, Except.map, m.ofList_entries]

theorem sortedMap {m : SortedMap α} (h : ∀ e ∈ m.entries, decode.Reads (toJson e.2) e.2) :
    (Decoder.sortedMap decode).Reads (.object (m.entries.map fun e => (e.1, toJson e.2))) m := by
  intro p hp
  rw [Decoder.sortedMap, pairs h p hp, Except.map, m.ofList_entries]

theorem sortedSet (s : SortedSet) : Decoder.sortedSet.Reads (.strings s.toList) s := by
  intro p hp
  have hentries : s.toList.map (fun x => (x, ())) = s.entries := by
    rw [SortedSet.toList, SortedMap.keys, List.map_map]
    exact List.map_id s.entries
  rw [Decoder.sortedSet, strings s.toList p hp, Except.map, SortedSet.ofList, hentries,
    SortedMap.ofList_entries]

end Decoder.Reads

/-! ### Records -/

/-- The entry of a key in a list that runs along another one is the one at the same place. -/
theorem lookup_of_forall₂ {α β : Type} {R : α → β → Prop} {fs : List (String × α)}
    {ms : List (String × β)} (h : List.Forall₂ (fun f m => f.1 = m.1 ∧ R f.2 m.2) fs ms)
    (hn : (ms.map (·.1)).Nodup) {m : String × β} (hm : m ∈ ms) :
    ∃ v, fs.lookup m.1 = some v ∧ R v m.2 := by
  induction h with
  | nil => cases hm
  | @cons f m' fs ms hfm _ ih =>
    obtain ⟨k, v⟩ := f
    obtain ⟨(rfl : k = m'.1), hv⟩ := hfm
    obtain ⟨hnot, hn'⟩ := List.nodup_cons.1 hn
    rcases List.mem_cons.1 hm with rfl | hm
    · exact ⟨v, by simp, hv⟩
    · have hne : (m.1 == m'.1) = false := by
        rw [beq_eq_false_iff_ne]
        exact fun he => hnot (List.mem_map.2 ⟨m, hm, he⟩)
      obtain ⟨w, hw, hR⟩ := ih hn' hm
      exact ⟨w, by rw [List.lookup_cons, hne, hw], hR⟩

/-- Whether the check of a field lets a value pass. -/
def Accepts (f : (Place → Document → Except Failure Unit) × Bool) (j : Json) : Prop :=
  ∀ p : Place, p.Holds j.depth → f.1 p j.document = .ok ()

/-- Whether a record is read from members that are its fields in order. -/
structure Record.Reads {α : Type} (r : Record α) (ms : List (String × Json)) (x : α) : Prop where
  fields : List.Forall₂ (fun f m => f.1 = m.1 ∧ Accepts f.2 m.2) r.fields ms
  build : ∀ (p : Place) (get : String → Option Document),
    (∀ m ∈ ms, p.Holds m.2.depth ∧ get m.1 = some m.2.document) → r.build get p = .ok x

namespace Record.Reads
variable {α β : Type}

theorem required {name : String} {decode : Decoder α} {j : Json} {x : α} (h : decode.Reads j x) :
    (Record.required name decode).Reads [(name, j)] x where
  fields := .cons ⟨rfl, fun p hp => by simp [h p hp, Except.map]⟩ .nil
  build p get hget := by
    obtain ⟨hp, hfound⟩ := hget (name, j) (List.mem_singleton_self _)
    simp only [Record.required, hfound]
    exact h p hp

theorem optional {name : String} {decode : Decoder α} {default : α} {j : Json} {x : α}
    (h : decode.Reads j x) : (Record.optional name decode default).Reads [(name, j)] x where
  fields := .cons ⟨rfl, fun p hp => by simp [h p hp, Except.map]⟩ .nil
  build p get hget := by
    obtain ⟨hp, hfound⟩ := hget (name, j) (List.mem_singleton_self _)
    simp only [Record.optional, hfound]
    exact h p hp

theorem seq {f : Record (α → β)} {r : Record α} {ms ms' : List (String × Json)} {g : α → β} {x : α}
    (hf : f.Reads ms g) (hr : r.Reads ms' x) : (f <*> r).Reads (ms ++ ms') (g x) where
  fields := List.rel_append hf.fields hr.fields
  build p get hget := by
    have hg := hf.build p get fun m hm => hget m (List.mem_append_left ms' hm)
    have hx := hr.build p get fun m hm => hget m (List.mem_append_right ms hm)
    have hbuild : (f <*> r).build get p = do return (← f.build get p) (← r.build get p) := rfl
    rw [hbuild, hg, hx]
    rfl

theorem map {r : Record α} {ms : List (String × Json)} {x : α} (g : α → β) (hr : r.Reads ms x) :
    (g <$> r).Reads ms (g x) :=
  seq (f := Record.pure g) ⟨.nil, fun _ _ _ => rfl⟩ hr

variable {r : Record α} {ms : List (String × Json)} {x : α}

/-- All members are checked and kept. -/
theorem scan {p : Place} {rest : List (String × Json)} {seen : List (String × Document)}
    (hchecked : ∀ m ∈ rest, ∃ v, r.fields.lookup m.1 = some v ∧ v.1 p m.2.document = .ok ())
    (hn : (seen.map (·.1) ++ rest.map (·.1)).Nodup) : r.scan p true seen (documentMembers rest) =
      .ok ((rest.map fun m => (m.1, m.2.document)).reverse ++ seen) := by
  induction rest generalizing seen with
  | nil => rfl
  | cons m rest ih =>
    obtain ⟨v, hlookup, hcheck⟩ := hchecked m (List.mem_cons_self ..)
    have hfresh : Entries.find? m.1 seen = none := Entries.find?_eq_none_iff.2 fun hm =>
      List.disjoint_of_nodup_append hn hm (by simp)
    have hnext : (((m.1, m.2.document) :: seen).map (·.1) ++ rest.map (·.1)).Nodup :=
      List.perm_middle.nodup_iff.1 hn
    have hrest := ih (fun m' hm => hchecked m' (List.mem_cons_of_mem m hm)) hnext
    have hstep : r.scan p true seen (documentMembers (m :: rest)) =
        r.scan p true ((m.1, m.2.document) :: seen) (documentMembers rest) := by
      simp only [documentMembers, Record.scan, hlookup, hfresh]
      rw [hcheck]
      rfl
    rw [hstep, hrest]
    simp

theorem decode (hr : r.Reads ms x) (hn : (ms.map (·.1)).Nodup) :
    r.decode.Reads (.object ms) x := by
  intro p hp
  obtain ⟨q, hq, hholds⟩ := hp.enter
  have hlevels : ∀ m ∈ ms, q.Holds m.2.depth := fun m hm => hholds.mono (depth_le_depthMembers hm)
  have hchecked : ∀ m ∈ ms, ∃ v, r.fields.lookup m.1 = some v ∧ v.1 q m.2.document = .ok () := by
    intro m hm
    obtain ⟨v, hv, hcheck⟩ := lookup_of_forall₂ hr.fields hn hm
    exact ⟨v, hv, hcheck q (hlevels m hm)⟩
  obtain ⟨seen, hseen⟩ : ∃ seen, seen = (ms.map fun m => (m.1, m.2.document)).reverse ++ [] := ⟨_, rfl⟩
  have hscan : r.scan q true [] (documentMembers ms) = .ok seen := hseen ▸ scan hchecked hn
  have hkeys : (seen.map (·.1)).Nodup := by
    rw [hseen]
    simpa [Function.comp_def] using hn
  have hfound : ∀ m ∈ ms, Entries.find? m.1 seen = some m.2.document := by
    intro m hm
    refine Entries.find?_of_mem hkeys ?_
    rw [hseen, List.append_nil, List.mem_reverse]
    exact List.mem_map_of_mem hm
  rw [document, Record.decode, hq]
  calc (r.scan q true [] (documentMembers ms) >>= fun seen =>
        r.build (fun name => Entries.find? name seen) q)
      = r.build (fun name => Entries.find? name seen) q := by rw [hscan]; rfl
    _ = .ok x := hr.build q _ fun m hm => ⟨hlevels m hm, hfound m hm⟩

end Record.Reads

/-! ### Tagged values -/

namespace Tagged
variable {α : Type} {t : Tagged α} {ms : List (String × Json)}

/-- All members after the tag are read ahead and kept. -/
theorem scan_documentMembers {p : Place} {decode : Decoder α} (htype : "type" ∉ ms.map (·.1))
    (hp : p.Holds (depthMembers ms)) (seen : List (Option String × Document)) :
    t.scan p true (some decode) seen (documentMembers ms) =
      .ok (decode, seen.reverse ++ documentMembers ms) := by
  induction ms generalizing seen with
  | nil => simp [documentMembers, Tagged.scan]
  | cons m ms ih =>
    have hne : m.1 ≠ "type" := fun he => htype (by simp [he])
    have hany := Decoder.any_document (hp.mono (Nat.le_max_left m.2.depth (depthMembers ms)))
    have hrest := ih (fun hm => htype (List.mem_cons_of_mem _ hm)) (hp.mono (Nat.le_max_right _ _))
      ((some m.1, m.2.document) :: seen)
    have hstep : t.scan p true (some decode) seen (documentMembers (m :: ms)) =
        t.scan p true (some decode) ((some m.1, m.2.document) :: seen) (documentMembers ms) := by
      rw [documentMembers, Tagged.scan, if_neg hne, hany]
      rfl
    rw [hstep, hrest]
    simp [documentMembers]

/-- A tagged value is read by the decoder that its tag names. -/
theorem reads {name : String} {decode : Decoder α} {x : α}
    (hname : t.variants.lookup name = some decode) (htype : "type" ∉ ms.map (·.1))
    (h : decode.Reads (.object ms) x) :
    t.decode.Reads (.object (("type", .string name) :: ms)) x := by
  intro p hp
  obtain ⟨q, hq, hholds⟩ := hp.enter
  have hrest : q.Holds (depthMembers ms) := hholds.mono (Nat.le_max_right _ _)
  have hvariant : t.variant q (.string (some name)) = .ok decode := by
    simp only [Tagged.variant, Decoder.string, bind, Except.bind, hname]
    rfl
  have hscan : t.scan q true none [] ((some "type", .string (some name)) :: documentMembers ms) =
      .ok (decode, documentMembers ms) := by
    rw [Tagged.scan, if_pos rfl]
    calc (t.variant q (.string (some name)) >>= fun decode =>
          t.scan q true (some decode) [] (documentMembers ms))
        = t.scan q true (some decode) [] (documentMembers ms) := by rw [hvariant]; rfl
      _ = .ok (decode, documentMembers ms) := scan_documentMembers htype hrest []
  rw [document, documentMembers, document, Tagged.decode, hq]
  calc (t.scan q true none [] ((some "type", .string (some name)) :: documentMembers ms) >>=
        fun x => x.1 .ahead (.object x.2 true))
      = decode .ahead (.object (documentMembers ms) true) := by rw [hscan]; rfl
    _ = .ok x := h .ahead trivial

/-- A tagged record is read by the record that its tag names. -/
theorem reads_record {name : String} {r : Record α} {x : α}
    (hname : t.variants.lookup name = some r.decode) (hr : r.Reads ms x)
    (hn : ("type" :: ms.map (·.1)).Nodup) :
    t.decode.Reads (.object (("type", .string name) :: ms)) x :=
  reads hname (List.nodup_cons.1 hn).1 (hr.decode (List.nodup_cons.1 hn).2)

end Tagged

/-- What a decoder reads, it reads from the printed text as well. -/
theorem Decoder.Reads.run {α : Type} {decode : Decoder α} {j : Json} {x : α} (h : decode.Reads j x)
    (hj : j.integral = true) (hlevels : j.depth ≤ 127) : decode.run j.print = .ok x := by
  have hread : decode .start j.document = .ok x := h .start hlevels
  simp only [Decoder.run, Source.read_print hj, hread]
  rfl

end Json

end ShardRegistry
