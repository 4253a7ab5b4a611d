import ShardRegistry.Event
import ShardRegistry.Proofs.Scalars
import ShardRegistry.Proofs.Validity
import ShardRegistry.Text.Percent

/-! Property sets key by key. A set is read exactly if the value of each known key in it is acceptable by
itself, and then each property is what its own value says, or its default. Else the least key with a value
that is not acceptable says why. -/
namespace ShardRegistry

/-! ### One key -/

namespace PropertyKey

/-- What the property of a key holds. -/
def Value : PropertyKey → Type
  | .sqlShow | .sqlSimple | .checkTableMetadataEnabled => Bool
  | .executorSize | .maxConnectionsSizePerQuery | .proxyFrontendFlushThreshold => Nat
  | .proxyTransactionType => TransactionKind

/-- The property of a key. -/
def get : (key : PropertyKey) → Properties → key.Value
  | .sqlShow => Properties.sqlShow
  | .sqlSimple => Properties.sqlSimple
  | .executorSize => Properties.executorSize
  | .maxConnectionsSizePerQuery => Properties.maxConnectionsSizePerQuery
  | .checkTableMetadataEnabled => Properties.checkTableMetadataEnabled
  | .proxyFrontendFlushThreshold => Properties.proxyFrontendFlushThreshold
  | .proxyTransactionType => Properties.proxyTransactionType

def put (p : Properties) : (key : PropertyKey) → key.Value → Properties
  | .sqlShow, b => { p with sqlShow := b }
  | .sqlSimple, b => { p with sqlSimple := b }
  | .executorSize, n => { p with executorSize := n }
  | .maxConnectionsSizePerQuery, n => { p with maxConnectionsSizePerQuery := n }
  | .checkTableMetadataEnabled, b => { p with checkTableMetadataEnabled := b }
  | .proxyFrontendFlushThreshold, n => { p with proxyFrontendFlushThreshold := n }
  | .proxyTransactionType, k => { p with proxyTransactionType := k }

/-- Reads the value of a key. -/
def parse : (key : PropertyKey) → Json → Except PropertyFault key.Value
  | .sqlShow => Properties.boolean sqlShow.name
  | .sqlSimple => Properties.boolean sqlSimple.name
  | .executorSize => Properties.natural executorSize.name
  | .maxConnectionsSizePerQuery => Properties.positive maxConnectionsSizePerQuery.name
  | .checkTableMetadataEnabled => Properties.boolean checkTableMetadataEnabled.name
  | .proxyFrontendFlushThreshold => Properties.natural proxyFrontendFlushThreshold.name
  | .proxyTransactionType => Properties.transactionKind proxyTransactionType.name

/-- What an acceptable value of a key says. -/
def Says : (key : PropertyKey) → Json → key.Value → Prop
  | .sqlShow | .sqlSimple | .checkTableMetadataEnabled => Json.IsFlag
  | .executorSize | .proxyFrontendFlushThreshold => Json.IsNatural
  | .maxConnectionsSizePerQuery => fun j (n : Nat) => j.IsNatural n ∧ 1 ≤ n
  | .proxyTransactionType => Json.IsKind

/-- Whether a value is acceptable for a key. -/
def Accepts (key : PropertyKey) (j : Json) : Prop := ∃ v, key.Says j v

variable {key key' : PropertyKey} {p : Properties} {j j' : Json}

theorem mem_all (key : PropertyKey) : key ∈ all := by cases key <;> decide

theorem name_inj : key.name = key'.name ↔ key = key' := by
  cases key <;> cases key' <;> decide

theorem ofName?_eq_some_iff {name : String} : ofName? name = some key ↔ key.name = name := by
  rw [ofName?, find?_eq_some_iff_of_nodup (by decide), and_iff_right key.mem_all]

/-- The order of the known keys is that of their bytes. -/
theorem utf8_le_iff : Text.utf8 key.name ≤ Text.utf8 key'.name ↔ ¬ key'.name < key.name := by
  have hall : ∀ k ∈ all, ∀ k' ∈ all, Text.utf8 k.name ≤ Text.utf8 k'.name ↔ ¬ k'.name < k.name := by
    decide +kernel
  exact hall key key.mem_all key' key'.mem_all

theorem get_raw (raw : RawProperties) : key.get { raw := raw } = key.get {} := by cases key <;> rfl

theorem get_put_self (v : key.Value) : key.get (key.put p v) = v := by cases key <;> rfl

theorem get_put_of_ne (v : key.Value) (h : key ≠ key') : key'.get (key.put p v) = key'.get p := by
  cases key <;> cases key' <;> first | rfl | exact absurd rfl h

theorem raw_put (v : key.Value) : (key.put p v).raw = p.raw := by cases key <;> rfl

theorem put_raw (v : key.Value) (raw : RawProperties) :
    key.put { p with raw := raw } v = { key.put p v with raw := raw } := by cases key <;> rfl

theorem bind_pure_eq_map {ε α β : Type} (x : Except ε α) (f : α → β) :
    (x >>= fun a => pure (f a)) = x.map f := by
  cases x <;> rfl

/-- A key is set by reading its value and putting it where the property is. -/
theorem set_eq (p : Properties) : p.set key j = (key.parse j).map (key.put p) := by
  cases key <;> rw [Properties.set, parse] <;> exact bind_pure_eq_map _ _

theorem parse_eq_ok_iff {v : key.Value} (hfits : j.Fits) : key.parse j = .ok v ↔ key.Says j v := by
  cases key
  case executorSize | proxyFrontendFlushThreshold => exact Properties.natural_eq_ok_iff hfits
  case maxConnectionsSizePerQuery => exact Properties.positive_eq_ok_iff hfits
  case proxyTransactionType =>
    rw [parse]
    exact Properties.transactionKind_eq_ok_iff
  all_goals exact Properties.boolean_eq_ok_iff

theorem exists_parse (hfits : j.Fits) : (∃ v, key.parse j = .ok v) ↔ key.Accepts j :=
  exists_congr fun _ => parse_eq_ok_iff hfits

theorem parse_spelled (h : j.SpelledAs j') (hfits : j.Fits) :
    (key.parse j').toOption = (key.parse j).toOption := by
  cases key
  case executorSize | proxyFrontendFlushThreshold => exact Properties.natural_spelled h hfits
  case maxConnectionsSizePerQuery => exact Properties.positive_spelled h hfits
  case proxyTransactionType => rw [parse, Properties.transactionKind_spelled h]
  all_goals exact Properties.boolean_spelled h

end PropertyKey

/-! ### Faults -/

/-- The key that a fault is about. -/
def PropertyFault.key : PropertyFault → String
  | .notBoolean key _ | .notNatural key _ | .zero key | .notTransactionKind key _ => key

namespace Properties
variable {key : String} {j : Json} {e : PropertyFault}

theorem key_of_boolean (h : boolean key j = .error e) : e.key = key := by
  unfold boolean at h
  split at h
  · cases h
  · dsimp only at h
    split_ifs at h
    cases h
    rfl

theorem key_of_natural (h : natural key j = .error e) : e.key = key := by
  unfold natural at h
  dsimp only at h
  split at h
  · cases h
  · cases h
    rfl

theorem key_of_positive (h : positive key j = .error e) : e.key = key := by
  rw [positive_eq] at h
  split at h
  · cases h
    rfl
  · exact key_of_natural h

theorem key_of_transactionKind (h : transactionKind key j = .error e) : e.key = key := by
  unfold transactionKind at h
  split at h
  · cases h
  · cases h
    rfl

end Properties

theorem PropertyKey.key_of_parse {key : PropertyKey} {j : Json} {e : PropertyFault}
    (h : key.parse j = .error e) : e.key = key.name := by
  cases key
  case executorSize | proxyFrontendFlushThreshold => exact Properties.key_of_natural h
  case maxConnectionsSizePerQuery => exact Properties.key_of_positive h
  case proxyTransactionType =>
    rw [PropertyKey.parse] at h
    exact Properties.key_of_transactionKind h
  all_goals exact Properties.key_of_boolean h

/-! ### Keys one after the other -/

namespace Properties
open Entries (find?)

variable {p q : Properties} {name : String} {j : Json} {es : List (String × Json)}

theorem ext_get (hraw : p.raw = q.raw) (h : ∀ key : PropertyKey, key.get p = key.get q) : p = q := by
  have h₁ := h .sqlShow
  have h₂ := h .sqlSimple
  have h₃ := h .executorSize
  have h₄ := h .maxConnectionsSizePerQuery
  have h₅ := h .checkTableMetadataEnabled
  have h₆ := h .proxyFrontendFlushThreshold
  have h₇ := h .proxyTransactionType
  cases p
  cases q
  simp only [PropertyKey.get] at h₁ h₂ h₃ h₄ h₅ h₆ h₇ hraw
  simp only [h₁, h₂, h₃, h₄, h₅, h₆, h₇, hraw]

/-- The entries set the properties `p` to `q`: each key with a value to what that says, and no other one. -/
def Sets (es : List (String × Json)) (p q : Properties) : Prop :=
  q.raw = p.raw ∧ ∀ key : PropertyKey, match find? key.name es with
    | some j => key.parse j = .ok (key.get q)
    | none => key.get q = key.get p

theorem setAll_cons : setAll p ((name, j) :: es) =
    match PropertyKey.ofName? name with
    | none => setAll p es
    | some key => key.parse j >>= fun v => setAll (key.put p v) es := by
  rw [setAll]
  cases PropertyKey.ofName? name with
  | none => rfl
  | some key =>
    dsimp only
    rw [PropertyKey.set_eq]
    cases key.parse j <;> rfl

theorem sets_cons (hname : name ∉ es.map (·.1)) : Sets ((name, j) :: es) p q ↔
    match PropertyKey.ofName? name with
    | none => Sets es p q
    | some key => ∃ v, key.parse j = .ok v ∧ Sets es (key.put p v) q := by
  have hskip (key : PropertyKey) (hne : key.name ≠ name) :
      find? key.name ((name, j) :: es) = find? key.name es := if_neg hne.symm
  cases hkey : PropertyKey.ofName? name with
  | none =>
    have hne (key : PropertyKey) : key.name ≠ name := fun heq => by
      rw [PropertyKey.ofName?_eq_some_iff.2 heq] at hkey
      cases hkey
    refine and_congr_right fun _ => forall_congr' fun key => ?_
    rw [hskip key (hne key)]
  | some key =>
    obtain rfl := PropertyKey.ofName?_eq_some_iff.1 hkey
    have hhead : find? key.name ((key.name, j) :: es) = some j := if_pos rfl
    have hrest : find? key.name es = none := Entries.find?_eq_none_iff.2 hname
    constructor
    · rintro ⟨hraw, hall⟩
      have hown := hall key
      rw [hhead] at hown
      refine ⟨key.get q, hown, hraw.trans (PropertyKey.raw_put _).symm, fun key' => ?_⟩
      by_cases hne : key = key'
      · subst hne
        rw [hrest]
        exact (PropertyKey.get_put_self _).symm
      · have hother := hall key'
        rw [hskip key' (mt PropertyKey.name_inj.1 (Ne.symm hne))] at hother
        rwa [PropertyKey.get_put_of_ne _ hne]
    · rintro ⟨v, hv, hraw, hall⟩
      refine ⟨hraw.trans (PropertyKey.raw_put v), fun key' => ?_⟩
      have hown := hall key'
      by_cases hne : key = key'
      · subst hne
        rw [hrest, PropertyKey.get_put_self] at hown
        rw [hhead]
        exact hv.trans (congrArg Except.ok hown.symm)
      · rw [hskip key' (mt PropertyKey.name_inj.1 (Ne.symm hne))]
        rwa [PropertyKey.get_put_of_ne _ hne] at hown

theorem setAll_eq_ok_iff (hn : (es.map (·.1)).Nodup) : setAll p es = .ok q ↔ Sets es p q := by
  induction es generalizing p with
  | nil =>
    rw [setAll, Except.ok.injEq]
    constructor
    · rintro rfl
      exact ⟨rfl, fun _ => rfl⟩
    · exact fun h => ext_get h.1.symm fun key => (h.2 key).symm
  | cons e es ih =>
    obtain ⟨name, j⟩ := e
    rw [List.map_cons, List.nodup_cons] at hn
    rw [setAll_cons, sets_cons hn.1]
    cases PropertyKey.ofName? name with
    | none => exact ih hn.2
    | some key =>
      simp only [← ih hn.2]
      cases key.parse j with
      | error e => exact iff_of_false nofun (by simp)
      | ok v => exact ⟨fun h => ⟨v, rfl, h⟩, by rintro ⟨v', ⟨⟩, h⟩; exact h⟩

theorem exists_setAll : (∃ q, setAll p es = .ok q) ↔
    ∀ e ∈ es, ∀ key, PropertyKey.ofName? e.1 = some key → ∃ v, key.parse e.2 = .ok v := by
  induction es generalizing p with
  | nil => exact iff_of_true ⟨p, rfl⟩ (List.forall_mem_nil _)
  | cons e es ih =>
    obtain ⟨name, j⟩ := e
    rw [setAll_cons, List.forall_mem_cons]
    cases PropertyKey.ofName? name with
    | none => simpa using ih
    | some key =>
      dsimp only
      rw [exists_ok_bind]
      simp only [ih, exists_and_right, Option.some.injEq, forall_eq']

/-- The first key whose value is not acceptable fails the others, in the order of the keys. -/
theorem setAll_error {e : PropertyFault} (hsorted : (es.map (·.1)).Pairwise (· < ·))
    (h : setAll p es = .error e) : ∃ key j, (PropertyKey.name key, j) ∈ es ∧ key.parse j = .error e ∧
      ∀ key' j', (PropertyKey.name key', j') ∈ es → (∀ v, key'.parse j' ≠ .ok v) →
        ¬ key'.name < key.name := by
  induction es generalizing p with
  | nil => cases h
  | cons x es ih =>
    obtain ⟨name, j⟩ := x
    rw [List.map_cons, List.pairwise_cons] at hsorted
    rw [setAll_cons] at h
    cases hkey : PropertyKey.ofName? name with
    | none =>
      rw [hkey] at h
      obtain ⟨key, i, hmem, hparse, hleast⟩ := ih hsorted.2 h
      refine ⟨key, i, List.mem_cons_of_mem _ hmem, hparse, fun key' j' hmem' hbad => ?_⟩
      rcases List.mem_cons.1 hmem' with heq | hmem'
      · rw [PropertyKey.ofName?_eq_some_iff.2 (congrArg Prod.fst heq)] at hkey
        cases hkey
      · exact hleast key' j' hmem' hbad
    | some key =>
      rw [hkey] at h
      obtain rfl := PropertyKey.ofName?_eq_some_iff.1 hkey
      cases hv : key.parse j with
      | error e' =>
        simp only [hv] at h
        cases h
        refine ⟨key, j, List.mem_cons_self, hv, fun key' j' hmem' _ hlt => ?_⟩
        rcases List.mem_cons.1 hmem' with heq | hmem'
        · have hname : key'.name = key.name := congrArg Prod.fst heq
          exact String.lt_irrefl _ (hname ▸ hlt)
        · have hgt := hsorted.1 _ (List.mem_map_of_mem hmem')
          exact String.lt_irrefl _ (String.lt_trans hlt hgt)
      | ok v =>
        simp only [hv] at h
        obtain ⟨key', i, hmem, hparse, hleast⟩ := ih hsorted.2 h
        refine ⟨key', i, List.mem_cons_of_mem _ hmem, hparse, fun key'' j' hmem' hbad => ?_⟩
        rcases List.mem_cons.1 hmem' with heq | hmem'
        · obtain rfl := PropertyKey.name_inj.1 (congrArg Prod.fst heq)
          obtain rfl : j' = j := congrArg Prod.snd heq
          exact absurd hv (hbad v)
        · exact hleast key'' j' hmem' hbad

/-- Keys that are not known do not matter. -/
theorem setAll_filter : setAll p (es.filter fun e => (PropertyKey.ofName? e.1).isSome) = setAll p es := by
  induction es generalizing p with
  | nil => rfl
  | cons e es ih =>
    obtain ⟨name, j⟩ := e
    cases hkey : PropertyKey.ofName? name with
    | none => rw [List.filter_cons_of_neg (by simp [hkey]), ih, setAll_cons, hkey]
    | some key =>
      rw [List.filter_cons_of_pos (by simp [hkey]), setAll_cons, setAll_cons, hkey]
      simp only [ih]

theorem setAll_raw (p : Properties) (es : List (String × Json)) (raw : RawProperties) :
    setAll { p with raw := raw } es = (setAll p es).map fun q => { q with raw := raw } := by
  induction es generalizing p with
  | nil => rfl
  | cons e es ih =>
    obtain ⟨name, j⟩ := e
    rw [setAll_cons, setAll_cons]
    cases PropertyKey.ofName? name with
    | none => exact ih p
    | some key =>
      cases hv : key.parse j with
      | error e =>
        simp only [hv]
        rfl
      | ok v =>
        simp only [hv]
        change setAll (key.put { p with raw := raw } v) es = (setAll (key.put p v) es).map _
        rw [PropertyKey.put_raw, ih]

theorem toOption_bind {ε α β : Type} {x : Except ε α} {f : α → Except ε β} :
    (x >>= f).toOption = x.toOption.bind fun a => (f a).toOption := by
  cases x <;> rfl

/-- Values that are spelled in another way set the same properties. -/
theorem setAll_spelled {es' : List (String × Json)} (hfits : ∀ e ∈ es, e.2.Fits)
    (h : List.Forall₂ (fun e e' => e.1 = e'.1 ∧ e.2.SpelledAs e'.2) es es') :
    (setAll p es').toOption = (setAll p es).toOption := by
  induction h generalizing p with
  | nil => rfl
  | @cons e e' es es' he hes ih =>
    obtain ⟨name, j⟩ := e
    obtain ⟨name', j'⟩ := e'
    obtain ⟨rfl, hspelled⟩ := he
    rw [List.forall_mem_cons] at hfits
    rw [setAll_cons, setAll_cons]
    cases PropertyKey.ofName? name with
    | none => exact ih hfits.2
    | some key =>
      dsimp only
      rw [toOption_bind, toOption_bind, PropertyKey.parse_spelled hspelled hfits.1]
      exact congrArg _ (funext fun v => ih hfits.2)

end Properties

/-! ### Whole sets -/

/-- A map whose integers have 64 bits. -/
def RawProperties.Fits (raw : RawProperties) : Prop := ∀ k j, raw.find? k = some j → j.Fits

theorem Json.Decoder.fits_of_members {p : Place} {closed : Bool} {ms : List (Option String × Document)}
    {es : List (String × Json)} (hms : ∀ m ∈ ms, m.2.Words) (h : members any p closed ms = .ok es) :
    ∀ e ∈ es, e.2.Fits := by
  induction ms generalizing es with
  | nil =>
    rw [members] at h
    split at h
    · cases h
      exact List.forall_mem_nil _
    · cases h
  | cons m ms ih =>
    obtain ⟨key, d⟩ := m
    rw [List.forall_mem_cons] at hms
    cases key with
    | none => cases h
    | some key =>
      obtain ⟨x, hx, h⟩ := bind_eq_ok h
      obtain ⟨rest, hrest, h⟩ := bind_eq_ok h
      cases h
      have hvalue : x = d.value := by
        cases p with
        | ahead =>
          cases hx
          rfl
        | text levels =>
          rw [any] at hx
          split at hx
          · cases hx
            rfl
          · cases hx
      exact List.forall_mem_cons.2 ⟨hvalue ▸ hms.1.fits, ih hms.2 hrest⟩

/-- A map that is read from a text holds no integers beyond 64 bits. -/
theorem RawProperties.fits_of_run {text : String} {raw : RawProperties}
    (h : RawProperties.decode.run text = .ok raw) : raw.Fits := by
  have hroot := Json.Document.words_root text
  obtain ⟨raw', hdecode, h⟩ := bind_eq_ok h
  obtain rfl : raw' = raw := by
    split at h <;> cases h
    rfl
  obtain ⟨es, hes, hdecode⟩ := bind_eq_ok (f := fun es => .ok (SortedMap.ofList es)) hdecode
  cases hdecode
  generalize (Json.Source.read text).root = d at hroot hes
  cases hroot with
  | @object ms closed hms =>
    obtain ⟨place, _, hes⟩ := bind_eq_ok hes
    intro k j hj
    have hmem := SortedMap.mem_of_mem_ofList ((SortedMap.mem_entries_iff _ k j).2 hj)
    exact Json.Decoder.fits_of_members hms hes _ hmem
  | _ => cases hes

/-- The same keys, with the same values or other spellings of them. -/
def RawProperties.SpelledAs (raw raw' : RawProperties) : Prop :=
  List.Forall₂ (fun e e' => e.1 = e'.1 ∧ e.2.SpelledAs e'.2) raw.entries raw'.entries

/-- The properties that a map stands for: each one is what the value of its key says, or its default. -/
structure Properties.IsOf (p : Properties) (source : RawProperties) : Prop where
  raw : p.raw = source
  said : ∀ (key : PropertyKey) j, source.find? key.name = some j → key.Says j (key.get p)
  default : ∀ key : PropertyKey, source.find? key.name = none → key.get p = key.get {}

namespace Properties
variable {raw raw' : RawProperties} {p : Properties}

theorem read_eq_ok_iff (hfits : raw.Fits) : read raw = .ok p ↔ p.IsOf raw := by
  rw [read, setAll_eq_ok_iff raw.nodup_keys]
  constructor
  · rintro ⟨hraw, hall⟩
    refine ⟨hraw, fun key j hj => ?_, fun key hnone => ?_⟩
    · have hown := hall key
      rw [SortedMap.find?] at hj
      rw [hj] at hown
      exact (PropertyKey.parse_eq_ok_iff (hfits _ _ hj)).1 hown
    · have hown := hall key
      rw [SortedMap.find?] at hnone
      rw [hnone] at hown
      exact hown.trans (PropertyKey.get_raw raw)
  · rintro ⟨hraw, hsaid, hdefault⟩
    refine ⟨hraw, fun key => ?_⟩
    cases hj : Entries.find? key.name raw.entries with
    | none => exact (hdefault key hj).trans (PropertyKey.get_raw raw).symm
    | some j => exact (PropertyKey.parse_eq_ok_iff (hfits _ _ hj)).2 (hsaid key j hj)

theorem exists_read (hfits : raw.Fits) :
    (∃ p, read raw = .ok p) ↔ ∀ (key : PropertyKey) j, raw.find? key.name = some j → key.Accepts j := by
  rw [read, exists_setAll]
  constructor
  · intro h key j hj
    have hmem := (raw.mem_entries_iff key.name j).2 hj
    have hparse := h _ hmem key (PropertyKey.ofName?_eq_some_iff.2 rfl)
    exact (PropertyKey.exists_parse (hfits _ _ hj)).1 hparse
  · rintro h ⟨name, j⟩ hmem key hkey
    obtain rfl := PropertyKey.ofName?_eq_some_iff.1 hkey
    have hj := (raw.mem_entries_iff key.name j).1 hmem
    exact (PropertyKey.exists_parse (hfits _ _ hj)).2 (h key j hj)

/-- Whether a set is read and what its properties are is decided by the known keys alone. -/
theorem read_congr (h : ∀ key : PropertyKey, raw'.find? key.name = raw.find? key.name) :
    read raw' = (read raw).map fun p => { p with raw := raw' } := by
  have hknown : (raw'.filter fun k _ => (PropertyKey.ofName? k).isSome) =
      raw.filter fun k _ => (PropertyKey.ofName? k).isSome := by
    refine SortedMap.ext_find? fun k => ?_
    rw [SortedMap.find?_filter, SortedMap.find?_filter]
    cases hk : PropertyKey.ofName? k with
    | none => simp
    | some key =>
      obtain rfl := PropertyKey.ofName?_eq_some_iff.1 hk
      rw [h key]
  have hentries : raw'.entries.filter (fun e => (PropertyKey.ofName? e.1).isSome) =
      raw.entries.filter fun e => (PropertyKey.ofName? e.1).isSome := congrArg SortedMap.entries hknown
  calc
    read raw' = setAll { raw := raw' } (raw'.entries.filter fun e => (PropertyKey.ofName? e.1).isSome) :=
      setAll_filter.symm
    _ = setAll { raw := raw' } raw.entries := by rw [hentries, setAll_filter]
    _ = (read raw).map fun p => { p with raw := raw' } := setAll_raw { raw := raw } _ raw'

theorem toOption_map {ε α β : Type} {x : Except ε α} {f : α → β} :
    (x.map f).toOption = x.toOption.map f := by
  cases x <;> rfl

theorem read_spelled (hfits : raw.Fits) (h : raw.SpelledAs raw') :
    (read raw').toOption = (read raw).toOption.map fun p => { p with raw := raw' } := by
  have hentries : ∀ e ∈ raw.entries, e.2.Fits := fun e he =>
    hfits e.1 e.2 ((raw.mem_entries_iff e.1 e.2).1 he)
  have hraw : setAll { raw := raw' } raw.entries = (read raw).map fun p => { p with raw := raw' } :=
    setAll_raw { raw := raw } raw.entries raw'
  rw [read, setAll_spelled hentries h, hraw, toOption_map]

/-- The fault of a set is that which the least key with a value that is not acceptable has by itself. -/
theorem read_error {e : PropertyFault} (hfits : raw.Fits) (h : read raw = .error e) :
    ∃ (key : PropertyKey) (j : Json), raw.find? key.name = some j ∧ ¬ key.Accepts j ∧ e.key = key.name ∧
      read (.ofList [(key.name, j)]) = .error e ∧
      ∀ (key' : PropertyKey) j', raw.find? key'.name = some j' → ¬ key'.Accepts j' →
        Text.utf8 key.name ≤ Text.utf8 key'.name := by
  obtain ⟨key, j, hmem, hparse, hleast⟩ := setAll_error raw.sorted h
  have hj := (raw.mem_entries_iff key.name j).1 hmem
  have hbad : ¬ key.Accepts j := by
    rw [← PropertyKey.exists_parse (hfits _ _ hj), hparse]
    simp
  refine ⟨key, j, hj, hbad, PropertyKey.key_of_parse hparse, ?_, fun key' j' hj' hbad' => ?_⟩
  · change setAll _ [(key.name, j)] = _
    rw [setAll_cons, PropertyKey.ofName?_eq_some_iff.2 rfl]
    simp only [hparse]
    rfl
  · rw [← PropertyKey.exists_parse (hfits _ _ hj'), not_exists] at hbad'
    exact PropertyKey.utf8_le_iff.2 (hleast key' j' ((raw.mem_entries_iff _ _).2 hj') hbad')

/-- A set is read exactly if each known key in it has an acceptable value, and then each property is what its
own value says or its default. Other keys change nothing. If it is not read, the fault is about the least key
in the order of bytes whose value is not acceptable. Values may be spelled as strings with blanks around their
text. -/
theorem read_exact {raw : RawProperties} (hfits : raw.Fits) :
    ((∃ p, read raw = .ok p) ↔
      ∀ (key : PropertyKey) j, raw.find? key.name = some j → key.Accepts j) ∧
    (∀ p, read raw = .ok p ↔ p.IsOf raw) ∧
    (∀ raw', (∀ key : PropertyKey, raw'.find? key.name = raw.find? key.name) →
      read raw' = (read raw).map fun p => { p with raw := raw' }) ∧
    (∀ e, read raw = .error e → ∃ (key : PropertyKey) (j : Json),
      raw.find? key.name = some j ∧ ¬ key.Accepts j ∧ e.key = key.name ∧
      read (.ofList [(key.name, j)]) = .error e ∧
      ∀ (key' : PropertyKey) j', raw.find? key'.name = some j' → ¬ key'.Accepts j' →
        Text.utf8 key.name ≤ Text.utf8 key'.name) ∧
    ∀ raw', raw.SpelledAs raw' →
      (read raw').toOption = (read raw).toOption.map fun p => { p with raw := raw' } :=
  ⟨exists_read hfits, fun _ => read_eq_ok_iff hfits, fun _ h => read_congr h,
    fun _ h => read_error hfits h, fun _ h => read_spelled hfits h⟩

/-- A number and its text between blanks set the same property. -/
theorem read_exact_spelled : ∃ p q,
    read (.ofList [("executor.size", .natural 16)]) = .ok p ∧
    read (.ofList [("executor.size", .string " 16 ")]) = .ok q ∧
    p.executorSize = 16 ∧ q.executorSize = 16 ∧ q.sqlShow = false := by
  have hfind {k : String} {j : Json} (h : SortedMap.find? (.ofList [("executor.size", .natural 16)]) k =
      some j) : k = "executor.size" ∧ j = .natural 16 := by
    have hmem := SortedMap.mem_of_mem_ofList ((SortedMap.mem_entries_iff _ k j).2 h)
    exact Prod.mk.inj (List.mem_singleton.1 hmem)
  have hfits : RawProperties.Fits (.ofList [("executor.size", .natural 16)]) := by
    intro k j h z hz
    rw [(hfind h).2] at hz
    cases hz
    decide
  obtain ⟨hok, hof, _, _, hspelled⟩ := read_exact hfits
  obtain ⟨p, hp⟩ := hok.2 fun key j h => by
    obtain ⟨hname, rfl⟩ := hfind h
    obtain rfl : key = .executorSize := PropertyKey.name_inj.1 hname
    exact ⟨(16 : Nat), by decide, .inl rfl⟩
  have hq := hspelled (.ofList [("executor.size", .string " 16 ")])
    (.cons ⟨rfl, @Json.SpelledAs.text _ [' '] [' '] (by simp [Json.natural])
      (List.forall_mem_singleton.2 rfl) (List.forall_mem_singleton.2 rfl)⟩ .nil)
  have hproperties := (hof p).1 hp
  have hsize : p.executorSize = 16 := by
    rcases hproperties.said .executorSize (.natural 16) rfl with ⟨_, hsame | ⟨s, hs, _⟩⟩
    · exact (Int.ofNat.inj (Number.integer.inj (Json.number.inj hsame))).symm
    · cases hs
  have hshow : p.sqlShow = false := hproperties.default .sqlShow rfl
  rw [hp] at hq
  cases hread : read (.ofList [("executor.size", .string " 16 ")]) with
  | error e =>
    rw [hread] at hq
    cases hq
  | ok q =>
    rw [hread] at hq
    obtain rfl := Option.some.inj hq
    exact ⟨p, _, hp, rfl, hsize, hsize, hshow⟩

end Properties

end ShardRegistry
