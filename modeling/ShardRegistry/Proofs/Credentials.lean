import Mathlib.Data.List.TakeWhile
import ShardRegistry.Connection.Endpoint
import ShardRegistry.Proofs.Coherence

/-! Credentials in URLs. A URL with a password is read alike whatever the password is: it becomes a part
of what is read, and nothing else depends on it. -/
namespace ShardRegistry

/-! ### Trimming -/

namespace Text

theorem toNat_lowerAscii (c : Char) : (lowerAscii c).toNat =
    if 65 ≤ c.toNat ∧ c.toNat ≤ 90 then c.toNat + 32 else c.toNat := by
  have hle : ('A' ≤ c ↔ 65 ≤ c.toNat) ∧ (c ≤ 'Z' ↔ c.toNat ≤ 90) := ⟨Iff.rfl, Iff.rfl⟩
  simp only [lowerAscii, Bool.and_eq_true, decide_eq_true_eq, hle]
  split
  · have hvalid : (c.toNat + 32).isValidChar := .inl (by omega)
    rw [Char.ofNat, dif_pos hvalid]
    rfl
  · rfl

variable {p : Char → Bool} {cs ds : List Char}

theorem dropEnd_append (h : ∀ c ∈ cs.getLast?, p c = false) :
    dropEnd p (cs ++ ds) = cs ++ dropEnd p ds := by
  have hcs : cs.reverse.dropWhile p = cs.reverse :=
    dropWhile_eq_self fun c hc => h c (List.head?_reverse ▸ hc)
  rw [dropEnd, List.reverse_append, List.dropWhile_append, hcs, dropEnd]
  split
  · rename_i hnil
    simp [List.isEmpty_iff.1 hnil]
  · simp

/-- What is dropped at the end of a text satisfies the predicate. -/
theorem exists_dropEnd (p : Char → Bool) (cs : List Char) :
    ∃ ws, cs = dropEnd p cs ++ ws ∧ ∀ c ∈ ws, p c = true := by
  refine ⟨(cs.reverse.takeWhile p).reverse, ?_, fun c hc => ?_⟩
  · rw [dropEnd, ← List.reverse_append, List.takeWhile_append_dropWhile, List.reverse_reverse]
  · exact List.mem_takeWhile_imp (List.mem_reverse.1 hc)

theorem getLast?_dropEnd (p : Char → Bool) (cs : List Char) :
    ∀ c ∈ (dropEnd p cs).getLast?, p c = false := by
  intro c hc
  rw [dropEnd, List.getLast?_reverse] at hc
  exact head?_dropWhile p cs.reverse c hc

theorem strip_append (hd : ∀ c ∈ ds, p c = true) (hc : ∀ c ∈ cs.head?, p c = false) :
    strip p (ds ++ cs) = dropEnd p cs := by
  rw [strip, List.dropWhile_append_of_pos hd, dropWhile_eq_self hc]

end Text

/-- Of a text that begins with other characters less is taken, if some are left out. -/
theorem not_mem_takeWhile_filter {q f : Char → Bool} (hf : ∀ c, q c = false → f c = true)
    {c : Char} {cs : List Char} (h : c ∉ cs.takeWhile q) : c ∉ (cs.filter f).takeWhile q := by
  induction cs with
  | nil => exact h
  | cons d cs ih =>
    cases hq : q d with
    | false => simp [List.filter_cons_of_pos (hf d hq), hq]
    | true =>
      rw [List.takeWhile_cons_of_pos hq, List.mem_cons, not_or] at h
      cases hd : f d with
      | false => simpa [hd] using ih h.2
      | true => simpa [hd, hq, h.1] using ih h.2

theorem not_mem_takeWhile_of_append {q : Char → Bool} {c : Char} {cs ds : List Char}
    (h : c ∉ (cs ++ ds).takeWhile q) : c ∉ cs.takeWhile q := by
  rw [List.takeWhile_append] at h
  split at h
  · exact fun hc => h (List.mem_append_left _ ((List.takeWhile_prefix q).subset hc))
  · exact h

namespace Url

/-! ### Reading -/

/-- The controls and spaces that are dropped around a URL. -/
def isEdge (c : Char) : Bool := c.toNat ≤ 32

/-- A text without the characters that are passed over anywhere in a URL. -/
def cleaned (cs : List Char) : List Char := cs.filter fun c => !isOneOf "\t\n\r" c

@[simp] theorem cleaned_append (cs ds : List Char) : cleaned (cs ++ ds) = cleaned cs ++ cleaned ds :=
  List.filter_append ..

theorem mem_of_mem_cleaned {c : Char} {cs : List Char} (h : c ∈ cleaned cs) : c ∈ cs :=
  List.mem_of_mem_filter h

def isSchemePart (c : Char) : Bool := Text.isLetter c || Text.isDigit c || isOneOf "+-." c

/-- A name that a URL can begin with. -/
structure IsScheme (s : List Char) : Prop where
  begins : ∃ c cs, s = c :: cs ∧ Text.isLetter c = true
  parts : ∀ c ∈ s, isSchemePart c = true

theorem readScheme_eq (cs : List Char) : readScheme cs =
    match cs.dropWhile isSchemePart with
    | ':' :: rest =>
      let scheme := cs.takeWhile isSchemePart
      if (scheme.head?.map Text.isLetter).getD false then some (scheme.map Text.lowerAscii, rest)
      else none
    | _ => none := rfl

theorem readScheme_of_not_part {c : Char} (h : isSchemePart c = false) (cs : List Char) :
    readScheme (c :: cs) = none := by
  rw [readScheme_eq, List.dropWhile_cons_of_neg (by simp [h]),
    List.takeWhile_cons_of_neg (by simp [h])]
  split <;> rfl

theorem readScheme_append {s t : List Char} (h : IsScheme s) :
    readScheme (s ++ ':' :: t) = some (s.map Text.lowerAscii, t) := by
  obtain ⟨c, cs, rfl, hc⟩ := h.begins
  have hcolon : isSchemePart ':' = false := by decide
  have hdrop : ((c :: cs) ++ ':' :: t).dropWhile isSchemePart = ':' :: t := by
    rw [List.dropWhile_append_of_pos h.parts, List.dropWhile_cons_of_neg (by simp [hcolon])]
  have htake : ((c :: cs) ++ ':' :: t).takeWhile isSchemePart = c :: cs := by
    rw [List.takeWhile_append_of_pos h.parts, List.takeWhile_cons_of_neg (by simp [hcolon]),
      List.append_nil]
  rw [readScheme_eq, hdrop, htake]
  simp [hc]

/-- A text is read after it is trimmed and cleaned. -/
theorem toList_cleaned (cs : List Char) :
    (Text.strip (fun c => decide (c.toNat ≤ 32)) (String.ofList cs).toList).filter
      (fun c => !isOneOf "\t\n\r" c) = cleaned (Text.strip isEdge cs) := by
  rw [String.toList_ofList]
  rfl

theorem read_noScheme {cs : List Char} (h : readScheme (cleaned (Text.strip isEdge cs)) = none) :
    read (String.ofList cs) = .error .noScheme := by
  simp only [read, toList_cleaned, h]
  rfl

/-- Schemes whose URLs have an authority behind two slashes and are read by the general rules. -/
def IsPlain (scheme : List Char) : Prop := specialPort? scheme = none ∧ scheme ≠ "file".toList

theorem read_authority {s t cs : List Char} (hs : IsScheme s)
    (hplain : IsPlain (s.map Text.lowerAscii))
    (h : cleaned (Text.strip isEdge cs) = s ++ ':' :: '/' :: '/' :: t) :
    read (String.ofList cs) = readAuthority (s.map Text.lowerAscii) false t := by
  simp only [read, toList_cleaned, h, readScheme_append hs, hplain.1, Option.isSome_none,
    Bool.false_eq_true, if_false]
  rw [if_neg hplain.2]

/-- Of a URL without two slashes behind the scheme only the scheme is read. -/
theorem read_scheme {s t cs : List Char} (hs : IsScheme s)
    (hspecial : specialPort? (s.map Text.lowerAscii) = none) (ht : ∀ t', t ≠ '/' :: '/' :: t')
    (h : cleaned (Text.strip isEdge cs) = s ++ ':' :: t) :
    read (String.ofList cs) = .ok { scheme := s.map Text.lowerAscii } := by
  simp only [read, toList_cleaned, h, readScheme_append hs, hspecial, Option.isSome_none,
    Bool.false_eq_true, if_false]
  rfl

/-! ### The server behind the credentials -/

/-- Reads a port behind a colon, if there is one. -/
def readPortText : List Char → Except Fault (Option Nat × List Char)
  | _ :: ds => readPort ds
  | [] => .ok (none, [])

/-- Reads what follows the at sign of an authority with a user. -/
def readServer (scheme username : List Char) (cs : List Char) : Except Fault Url := do
  let (hostText, portText) := splitHost false (cs.takeWhile fun c => !endsAuthority false c)
  let host ← opaqueHost hostText
  if host.isEmpty && !portText.isEmpty then throw .emptyHost
  let (port, rest) ← readPortText portText
  if host.isEmpty then throw .emptyHost
  let (path, query, fragment) :=
    splitTail false (rest ++ cs.dropWhile fun c => !endsAuthority false c)
  return { scheme, username, host := if host.isEmpty then none else some host,
           port := port.filter fun p => some p ≠ specialPort? scheme,
           path := pathOf false path, query, fragment }

theorem splitLastAt_append {cs ds : List Char} (h : '@' ∉ ds) :
    splitLastAt (cs ++ '@' :: ds) = some (cs, ds) := by
  have hall : ∀ c ∈ ds.reverse, decide (c ≠ '@') = true := fun c hc =>
    decide_eq_true fun heq => h (heq ▸ List.mem_reverse.1 hc)
  rw [splitLastAt, List.reverse_append, List.reverse_cons, List.append_assoc,
    List.dropWhile_append_of_pos hall, List.takeWhile_append_of_pos hall]
  simp

theorem readCredentials_append {user password : List Char} (hu : ':' ∉ user) (hp : password ≠ []) :
    Credentials.read (user ++ ':' :: password) =
      ⟨Text.percentEncode userEscaped user, some (Text.percentEncode userEscaped password)⟩ := by
  have hall : ∀ c ∈ user, decide (c ≠ ':') = true := fun c hc =>
    decide_eq_true fun heq => hu (heq ▸ hc)
  rw [Credentials.read, List.takeWhile_append_of_pos hall, List.dropWhile_append_of_pos hall]
  simp [hp]

/-- What is read behind a user and a password does not depend on the password. -/
theorem readAuthority_append {scheme user password cs : List Char}
    (hu : ∀ c ∈ user, c ≠ ':' ∧ endsAuthority false c = false)
    (hp : ∀ c ∈ password, endsAuthority false c = false) (hne : password ≠ [])
    (hcs : '@' ∉ cs.takeWhile fun c => !endsAuthority false c) :
    readAuthority scheme false (user ++ ':' :: password ++ '@' :: cs) =
      (readServer scheme (Text.percentEncode userEscaped user) cs).map fun url =>
        { url with password := some (Text.percentEncode userEscaped password) } := by
  have hinside : ∀ c ∈ user ++ ':' :: password ++ ['@'], (!endsAuthority false c) = true := by
    intro c hc
    simp only [List.mem_append, List.mem_cons, List.not_mem_nil, or_false] at hc
    rcases hc with (hc | rfl | hc) | rfl
    · simp [(hu c hc).2]
    · decide
    · simp [hp c hc]
    · decide
  have hsplit : user ++ ':' :: password ++ '@' :: cs = (user ++ ':' :: password ++ ['@']) ++ cs := by
    simp
  have htake : (user ++ ':' :: password ++ '@' :: cs).takeWhile (fun c => !endsAuthority false c) =
      user ++ ':' :: password ++ '@' :: cs.takeWhile fun c => !endsAuthority false c := by
    rw [hsplit, List.takeWhile_append_of_pos hinside]
    simp
  have hdrop : (user ++ ':' :: password ++ '@' :: cs).dropWhile (fun c => !endsAuthority false c) =
      cs.dropWhile fun c => !endsAuthority false c := by
    rw [hsplit, List.dropWhile_append_of_pos hinside]
  obtain ⟨c, cs', huser⟩ : ∃ c cs', user ++ ':' :: password = c :: cs' := by
    cases user with
    | nil => exact ⟨_, _, rfl⟩
    | cons c user => exact ⟨_, _, rfl⟩
  have hcredentials := readCredentials_append (fun hc => (hu _ hc).1 rfl) hne
  rw [readAuthority, htake, hdrop, splitLastAt_append hcs]
  rw [huser] at hcredentials ⊢
  simp only [hcredentials, readServer]
  generalize splitHost false (cs.takeWhile fun c => !endsAuthority false c) = parts
  obtain ⟨hostText, portText⟩ := parts
  simp only [Bool.false_eq_true, if_false, Credentials.isEmpty, Option.isNone_some, Bool.and_false,
    Bool.not_false, Bool.and_true, bind, Except.bind, pure, Except.pure]
  cases opaqueHost hostText with
  | error e => rfl
  | ok host =>
    simp only
    split
    · rfl
    · cases portText with
      | nil =>
        simp only [readPortText]
        split <;> rfl
      | cons d ds =>
        simp only [readPortText]
        cases readPort ds with
        | error e => rfl
        | ok x =>
          simp only
          split <;> rfl

/-! ### Characters at the end -/

/-- A character that may be dropped around a URL, by the one trimming or the other. -/
def IsFaint (c : Char) : Prop := Text.isBlank c = true ∨ isEdge c = true

theorem IsFaint.toNat_ne {c : Char} (h : IsFaint c) {n : Nat} (hlow : 32 < n) (hhigh : n < 128) :
    c.toNat ≠ n := by
  rintro rfl
  rcases h with h | h
  · simp only [Text.isBlank, Bool.or_eq_true, Bool.and_eq_true, decide_eq_true_eq, beq_iff_eq] at h
    omega
  · simp only [isEdge, decide_eq_true_eq] at h
    omega

theorem IsFaint.inside {c : Char} (h : IsFaint c) : endsAuthority false c = false := by
  have hslash : c ≠ '/' := fun he => h.toNat_ne (n := 47) (by omega) (by omega) (he ▸ rfl)
  have hquery : c ≠ '?' := fun he => h.toNat_ne (n := 63) (by omega) (by omega) (he ▸ rfl)
  have hhash : c ≠ '#' := fun he => h.toNat_ne (n := 35) (by omega) (by omega) (he ▸ rfl)
  simp [endsAuthority, hslash, hquery, hhash]

theorem splitHost_append {inside : Bool} {cs host port : List Char} (ws : List Char) {c : Char}
    (h : splitHost inside cs = (host, c :: port)) :
    splitHost inside (cs ++ ws) = (host, c :: port ++ ws) := by
  induction cs generalizing inside host with
  | nil => cases h
  | cons d cs ih =>
    simp only [splitHost, List.cons_append] at h ⊢
    split at h
    · rename_i hcolon
      cases h
      rw [if_pos hcolon]
    · rename_i hcolon
      rw [if_neg hcolon]
      generalize hsplit :
        splitHost (if d = '[' then true else if d = ']' then false else inside) cs = x at h
      obtain ⟨host', port'⟩ := x
      cases h
      rw [ih hsplit]
      rfl

/-- A port that something follows is read alike, whatever follows that. -/
theorem readPort_append {ds rest : List Char} {n : Option Nat} (ws : List Char) {c : Char}
    (h : readPort ds = .ok (n, c :: rest)) : readPort (ds ++ ws) = .ok (n, c :: rest ++ ws) := by
  have hrest : ds.dropWhile Text.isDigit = c :: rest := by
    simp only [readPort] at h
    split at h
    · cases h
    · split at h
      · exact congrArg Prod.snd (Except.ok.inj h)
      · exact congrArg Prod.snd (Except.ok.inj h)
      · cases h
  have htake : (ds ++ ws).takeWhile Text.isDigit = ds.takeWhile Text.isDigit := by
    conv_lhs => rw [← List.takeWhile_append_dropWhile (p := Text.isDigit) (l := ds), hrest,
      List.append_assoc]
    rw [List.takeWhile_append_of_pos fun c => List.mem_takeWhile_imp, List.cons_append,
      List.takeWhile_cons_of_neg, List.append_nil]
    have hhead := Text.head?_dropWhile Text.isDigit ds
    rw [hrest] at hhead
    simp [hhead c rfl]
  have hdrop : (ds ++ ws).dropWhile Text.isDigit = c :: rest ++ ws := by
    rw [List.dropWhile_append, hrest]
    simp
  rw [readPort] at h ⊢
  rw [htake, hdrop]
  rw [hrest] at h
  split at h
  · cases h
  · rename_i hn
    simp only [hn, if_false]
    split at h
    · cases ‹c :: rest = []›
    · rename_i heq
      cases heq
      cases h
      rfl
    · cases h

/-- The parts of a server that can be read. -/
structure IsServer (cs hostText portText host : List Char) (port : Option Nat) (rest : List Char) :
    Prop where
  splits : splitHost false (cs.takeWhile fun c => !endsAuthority false c) = (hostText, portText)
  named : opaqueHost hostText = .ok host
  nonempty : host ≠ []
  ported : readPortText portText = .ok (port, rest)

section
variable {scheme username cs : List Char}

theorem IsServer.read {hostText portText host rest : List Char} {port : Option Nat}
    (h : IsServer cs hostText portText host port rest) :
    ∃ url, readServer scheme username cs = .ok url := by
  simp only [readServer, h.splits, h.named, h.ported, bind, Except.bind]
  simp [h.nonempty, pure, Except.pure]

theorem readServer_ok {url : Url} (h : readServer scheme username cs = .ok url) :
    ∃ hostText portText host port rest, IsServer cs hostText portText host port rest ∧
      url.path = pathOf false
        (splitTail false (rest ++ cs.dropWhile fun c => !endsAuthority false c)).1 := by
  simp only [readServer] at h
  generalize hsplit : splitHost false (cs.takeWhile fun c => !endsAuthority false c) = parts at h
  obtain ⟨hostText, portText⟩ := parts
  obtain ⟨host, hhost, h⟩ := bind_eq_ok h
  split at h
  · cases h
  · obtain ⟨⟨port, rest⟩, hport, h⟩ := bind_eq_ok h
    simp only at h
    split at h
    · cases h
    · rename_i hempty
      cases h
      exact ⟨hostText, portText, host, port, rest,
        ⟨hsplit, hhost, fun heq => hempty (List.isEmpty_iff.2 heq), hport⟩, rfl⟩

/-- Behind a server with a path there may stand more, if it does not begin another part. -/
theorem readServer_append {ws : List Char} {url : Url}
    (h : readServer scheme username cs = .ok url) (hpath : url.path ≠ [])
    (hw : ∀ c ∈ ws, IsFaint c) : ∃ url', readServer scheme username (cs ++ ws) = .ok url' := by
  obtain ⟨hostText, portText, host, port, rest, hserver, hurl⟩ := readServer_ok h
  have hinside : ∀ c ∈ ws, (!endsAuthority false c) = true := fun c hc => by simp [(hw c hc).inside]
  by_cases hafter : cs.dropWhile (fun c => !endsAuthority false c) = []
  · -- the path begins behind the port
    have hall := List.dropWhile_eq_nil_iff.1 hafter
    cases portText with
    | nil =>
      obtain ⟨-, rfl⟩ := Prod.mk.inj (Except.ok.inj hserver.ported)
      rw [hafter] at hurl
      exact absurd hurl hpath
    | cons d ds =>
      cases rest with
      | nil =>
        rw [hafter] at hurl
        exact absurd hurl hpath
      | cons c rest =>
        have hport : readPortText (d :: ds ++ ws) = .ok (port, c :: rest ++ ws) :=
          readPort_append ws hserver.ported
        refine IsServer.read ⟨?_, hserver.named, hserver.nonempty, hport⟩
        · rw [List.takeWhile_append_of_pos hall, List.takeWhile_eq_self_iff.2 hinside]
          refine splitHost_append ws ?_
          rw [← hserver.splits, List.takeWhile_eq_self_iff.2 hall]
  · have htake : (cs ++ ws).takeWhile (fun c => !endsAuthority false c) =
        cs.takeWhile fun c => !endsAuthority false c := by
      rw [List.takeWhile_append, if_neg]
      intro hlength
      refine hafter (List.dropWhile_eq_nil_iff.2 ?_)
      exact List.takeWhile_eq_self_iff.1 ((List.takeWhile_prefix _).eq_of_length hlength)
    exact IsServer.read ⟨htake ▸ hserver.splits, hserver.named, hserver.nonempty, hserver.ported⟩

end

end Url

end ShardRegistry
