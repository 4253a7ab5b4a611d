import Mathlib.Data.Finset.Card
import ShardRegistry.Transaction.Manager

/-! References to connections, counted. A connection is live from its first handle to its last. Batches,
results and callers have handles, and so have the pins of a transaction; these are shared themselves,
and when the last handle on them goes, the handles among them go with it. -/
namespace ShardRegistry

/-- One item of a list, taken apart from the rest. -/
theorem flatMap_modify {α β : Type} (g : α → List β) {xs : List α} {i : Nat} {x : α}
    (h : xs[i]? = some x) :
    ∃ rest, ∀ f : α → α, ((xs.modify i f).flatMap g).Perm (g (f x) ++ rest) := by
  induction xs generalizing i with
  | nil => cases h
  | cons y ys ih =>
    cases i with
    | zero =>
      cases h
      exact ⟨ys.flatMap g, fun f => by simp⟩
    | succ i =>
      obtain ⟨rest, hrest⟩ := ih h
      refine ⟨g y ++ rest, fun f => ?_⟩
      rw [List.modify_succ_cons, List.flatMap_cons]
      exact ((hrest f).append_left (g y)).trans (List.perm_append_comm_assoc _ _ _)

/-- What becomes of a handle on a connection, or on the pins of a transaction. -/
inductive Reference where
  | taken (c : Connection)
  | dropped (c : Connection)
  /-- A new transaction has pins, with one handle on them. -/
  | begun
  | joined (t : TransactionId)
  | left (t : TransactionId)
  /-- The pins get a handle on a connection. -/
  | stored (t : TransactionId) (c : Connection)
  | cleared (t : TransactionId)

/-- The handles on the pins of a transaction, and the connections that the pins have handles on. -/
structure PinMap where
  handles : Nat
  contents : List Connection

structure Ledger where
  counts : Connection → Nat := fun _ => 0
  /-- How many connections of a pool are live. -/
  live : PoolId → Nat := fun _ => 0
  maps : List PinMap := []

namespace Ledger

/-- The first handle on a connection makes it live. -/
def take (l : Ledger) (c : Connection) : Ledger :=
  { l with
    counts := fun d => if d = c then l.counts d + 1 else l.counts d
    live := fun p => if l.counts c = 0 ∧ p = c.pool then l.live p + 1 else l.live p }

/-- A connection goes with the last handle on it. -/
def drop (l : Ledger) (c : Connection) : Ledger :=
  { l with
    counts := fun d => if d = c then l.counts d - 1 else l.counts d
    live := fun p => if l.counts c = 1 ∧ p = c.pool then l.live p - 1 else l.live p }

def modify (l : Ledger) (t : TransactionId) (f : PinMap → PinMap) : Ledger :=
  { l with maps := l.maps.modify t.serial f }

def clear (l : Ledger) (t : TransactionId) : Ledger :=
  match l.maps[t.serial]? with
  | none => l
  | some x => (x.contents.foldl drop l).modify t fun x => { x with contents := [] }

/-- What is left without a handle is cleared. -/
def leave (l : Ledger) (t : TransactionId) : Ledger :=
  let l := l.modify t fun x => { x with handles := x.handles - 1 }
  match l.maps[t.serial]? with
  | none => l
  | some x => if x.handles = 0 then l.clear t else l

def post (l : Ledger) : Reference → Ledger
  | .taken c => l.take c
  | .dropped c => l.drop c
  | .begun => { l with maps := l.maps ++ [⟨1, []⟩] }
  | .joined t => l.modify t fun x => { x with handles := x.handles + 1 }
  | .left t => l.leave t
  | .stored t c => (l.take c).modify t fun x => { x with contents := x.contents ++ [c] }
  | .cleared t => l.clear t

def posts (l : Ledger) (refs : List Reference) : Ledger := refs.foldl post l

variable {l : Ledger} {c : Connection} {t : TransactionId}

@[simp] theorem posts_nil : l.posts [] = l := rfl

@[simp] theorem posts_cons (ref : Reference) (refs : List Reference) :
    l.posts (ref :: refs) = (l.post ref).posts refs := rfl

@[simp] theorem posts_append (refs refs' : List Reference) :
    l.posts (refs ++ refs') = (l.posts refs).posts refs' := List.foldl_append

theorem drops_maps (cs : List Connection) (l : Ledger) : (cs.foldl drop l).maps = l.maps := by
  induction cs generalizing l with
  | nil => rfl
  | cons c cs ih => exact ih (l.drop c)

theorem drops_counts (cs : List Connection) (l : Ledger) (d : Connection) :
    (cs.foldl drop l).counts d = l.counts d - cs.count d := by
  induction cs generalizing l with
  | nil => rfl
  | cons c cs ih =>
    rw [List.foldl_cons, ih, List.count_cons]
    by_cases hd : d = c
    · subst hd
      simp only [drop, if_true, beq_self_eq_true]
      omega
    · have hbeq : (c == d) = false := by simpa using Ne.symm hd
      simp [drop, hd, hbeq]

theorem length_clear (l : Ledger) (t : TransactionId) : (l.clear t).maps.length = l.maps.length := by
  simp only [clear]
  split
  · rfl
  · simp [modify, drops_maps]

theorem length_posts {refs : List Reference} (h : .begun ∉ refs) (l : Ledger) :
    (l.posts refs).maps.length = l.maps.length := by
  induction refs generalizing l with
  | nil => rfl
  | cons ref refs ih =>
    obtain ⟨hne, hrest⟩ := List.ne_and_not_mem_of_not_mem_cons h
    rw [posts_cons, ih hrest]
    cases ref with
    | begun => exact absurd rfl hne
    | taken c | dropped c => rfl
    | joined t | stored t c => exact List.length_modify _ _ _
    | cleared t => exact length_clear l t
    | left t =>
      have hleft : (l.modify t fun x => { x with handles := x.handles - 1 }).maps.length =
          l.maps.length := List.length_modify _ _ _
      simp only [post, leave]
      split
      · exact hleft
      · split
        · exact (length_clear _ t).trans hleft
        · exact hleft

/-! ### Live connections -/

/-- The counter of each pool tells how many of its connections have handles. -/
def Tallies (l : Ledger) : Prop :=
  ∃ s : Finset Connection, (∀ c, c ∈ s ↔ 0 < l.counts c) ∧
    ∀ p, l.live p = (s.filter (·.pool = p)).card

namespace Tallies

theorem start : Tallies {} := ⟨∅, by simp, by simp⟩

theorem of_eq {l' : Ledger} (h : l.Tallies) (hc : l'.counts = l.counts) (hl : l'.live = l.live) :
    l'.Tallies := by
  obtain ⟨s, hs, hlive⟩ := h
  exact ⟨s, hc ▸ hs, hl ▸ hlive⟩

theorem take (h : l.Tallies) (c : Connection) : (l.take c).Tallies := by
  obtain ⟨s, hs, hlive⟩ := h
  refine ⟨insert c s, fun d => ?_, fun p => ?_⟩
  · by_cases hd : d = c <;> simp [Ledger.take, hd, hs]
  · by_cases hc : c ∈ s
    · have hne : l.counts c ≠ 0 := Nat.ne_of_gt ((hs c).1 hc)
      simp [Ledger.take, hne, Finset.insert_eq_of_mem hc, hlive]
    · have hzero : l.counts c = 0 := by simpa [hs] using hc
      rw [Finset.filter_insert]
      by_cases hp : p = c.pool
      · have hnot : c ∉ s.filter (·.pool = p) := fun hm => hc (Finset.mem_filter.1 hm).1
        simp [Ledger.take, hzero, hp, hlive, Finset.card_insert_of_notMem (hp ▸ hnot)]
      · simp [Ledger.take, hp, Ne.symm hp, hlive]

theorem drop (h : l.Tallies) (c : Connection) : (l.drop c).Tallies := by
  obtain ⟨s, hs, hlive⟩ := h
  by_cases hone : l.counts c = 1
  · have hmem : c ∈ s := (hs c).2 (by omega)
    refine ⟨s.erase c, fun d => ?_, fun p => ?_⟩
    · by_cases hd : d = c <;> simp [Ledger.drop, hd, hs, hone]
    · rw [Finset.filter_erase]
      by_cases hp : p = c.pool
      · subst hp
        have hmem : c ∈ s.filter (·.pool = c.pool) := Finset.mem_filter.2 ⟨hmem, rfl⟩
        simp [Ledger.drop, hone, hlive, Finset.card_erase_of_mem hmem]
      · have hnot : c ∉ s.filter (·.pool = p) := fun hm => hp (Finset.mem_filter.1 hm).2.symm
        simp [Ledger.drop, hp, hlive, Finset.erase_eq_of_notMem hnot]
  · refine ⟨s, fun d => ?_, fun p => by simp [Ledger.drop, hone, hlive]⟩
    by_cases hd : d = c
    · subst hd
      simp only [Ledger.drop, if_true, hs]
      omega
    · simp [Ledger.drop, hd, hs]

theorem drops (h : l.Tallies) (cs : List Connection) : (cs.foldl Ledger.drop l).Tallies := by
  induction cs generalizing l with
  | nil => exact h
  | cons c cs ih => exact ih (h.drop c)

theorem clear (h : l.Tallies) (t : TransactionId) : (l.clear t).Tallies := by
  simp only [Ledger.clear]
  split
  · exact h
  · exact (h.drops _).of_eq rfl rfl

theorem post (h : l.Tallies) (ref : Reference) : (l.post ref).Tallies := by
  cases ref with
  | taken c => exact h.take c
  | dropped c => exact h.drop c
  | begun | joined t => exact h.of_eq rfl rfl
  | left t =>
    simp only [Ledger.post, Ledger.leave]
    have hleft : (l.modify t fun x => { x with handles := x.handles - 1 }).Tallies := h.of_eq rfl rfl
    split
    · exact hleft
    · split
      · exact hleft.clear t
      · exact hleft
  | stored t c => exact (h.take c).of_eq rfl rfl
  | cleared t => exact h.clear t

theorem posts (h : l.Tallies) (refs : List Reference) : (l.posts refs).Tallies := by
  induction refs generalizing l with
  | nil => exact h
  | cons ref refs ih => exact ih (h.post ref)

end Tallies

/-! ### Holders -/

/-- The counts are those of the handles `B` on connections and `T` on pins, where `n` transactions were
begun, and `P` tells what is pinned as long as the pins have a handle. -/
structure Balances (l : Ledger) (n : Nat) (P : TransactionId → List Connection)
    (B : List Connection) (T : List TransactionId) : Prop where
  size : l.maps.length = n
  counts : ∀ c, l.counts c = (B ++ l.maps.flatMap (·.contents)).count c
  handles : ∀ t x, l.maps[t.serial]? = some x → x.handles = T.count t
  contents : ∀ t x, l.maps[t.serial]? = some x → x.contents = if t ∈ T then P t else []

namespace Balances
variable {n : Nat} {P P' : TransactionId → List Connection} {B B' : List Connection}
  {T T' : List TransactionId}

theorem start : Balances {} 0 P [] [] where
  size := rfl
  counts _ := rfl
  handles _ _ h := by cases h
  contents _ _ h := by cases h

theorem perm (h : l.Balances n P B T) (hB : B.Perm B') (hT : T.Perm T') : l.Balances n P B' T' where
  size := h.size
  counts c := (h.counts c).trans ((hB.append_right _).count_eq c)
  handles t x hx := (h.handles t x hx).trans (hT.count_eq t)
  contents t x hx := by simpa only [hT.mem_iff] using h.contents t x hx

theorem take (h : l.Balances n P B T) (c : Connection) : (l.take c).Balances n P (c :: B) T where
  size := h.size
  counts d := by
    rw [List.cons_append, List.count_cons]
    by_cases hd : d = c
    · simpa [Ledger.take, hd] using h.counts c
    · have hbeq : (c == d) = false := by simpa using Ne.symm hd
      simpa [Ledger.take, hd, hbeq] using h.counts d
  handles := h.handles
  contents := h.contents

theorem drop (h : l.Balances n P (c :: B) T) : (l.drop c).Balances n P B T where
  size := h.size
  counts d := by
    have hcount := h.counts d
    rw [List.cons_append, List.count_cons] at hcount
    by_cases hd : d = c
    · subst hd
      simp [Ledger.drop, hcount]
    · have hbeq : (c == d) = false := by simpa using Ne.symm hd
      simpa [Ledger.drop, hd, hbeq] using hcount
  handles := h.handles
  contents := h.contents

theorem takes (h : l.Balances n P B T) (cs : List Connection) :
    (l.posts (cs.map .taken)).Balances n P (cs ++ B) T := by
  induction cs generalizing l B with
  | nil => exact h
  | cons c cs ih => exact (ih (h.take c)).perm List.perm_middle (.refl T)

theorem drops {cs : List Connection} (h : l.Balances n P (cs ++ B) T) :
    (l.posts (cs.map .dropped)).Balances n P B T := by
  induction cs generalizing l with
  | nil => exact h
  | cons c cs ih => exact ih h.drop

/-- A transaction that nobody knew begins. -/
theorem begin (h : l.Balances n P B T) (P' : TransactionId → List Connection) (hnew : ⟨n⟩ ∉ T)
    (hP' : P' ⟨n⟩ = []) (hP : ∀ t, t ≠ ⟨n⟩ → P' t = P t) :
    (l.post .begun).Balances (n + 1) P' B (⟨n⟩ :: T) := by
  have hcase : ∀ (t : TransactionId) (x : PinMap), (l.maps ++ [⟨1, []⟩])[t.serial]? = some x →
      (t ≠ ⟨n⟩ ∧ l.maps[t.serial]? = some x) ∨ (t = ⟨n⟩ ∧ x = ⟨1, []⟩) := by
    intro t x hx
    rw [← h.size]
    rcases Nat.lt_trichotomy t.serial l.maps.length with hlt | heq | hgt
    · rw [List.getElem?_append_left hlt] at hx
      refine .inl ⟨?_, hx⟩
      rintro rfl
      exact Nat.lt_irrefl _ hlt
    · rw [heq, List.getElem?_concat_length] at hx
      exact .inr ⟨by rw [← heq], (Option.some.inj hx).symm⟩
    · rw [List.getElem?_eq_none (by simp; omega)] at hx
      cases hx
  refine ⟨by simp [post, h.size], fun c => by simp [post, h.counts c], fun t x hx => ?_,
    fun t x hx => ?_⟩
  · rcases hcase t x hx with ⟨hne, hx⟩ | ⟨rfl, rfl⟩
    · rw [List.count_cons_of_ne hne.symm]
      exact h.handles t x hx
    · simp [List.count_eq_zero.2 hnew]
  · rcases hcase t x hx with ⟨hne, hx⟩ | ⟨rfl, rfl⟩
    · simpa [hne, hP t hne] using h.contents t x hx
    · simp [hP']

/-- Something happens to the pins of one transaction. -/
theorem update {l' : Ledger} {x : PinMap} {f : PinMap → PinMap} (h : l.Balances n P B T)
    (hx : l.maps[t.serial]? = some x) (hmaps : l'.maps = l.maps.modify t.serial f)
    (hcounts : ∀ c, l'.counts c + x.contents.count c + B.count c =
      l.counts c + (f x).contents.count c + B'.count c)
    (hhandles : (f x).handles = T'.count t)
    (hcontents : (f x).contents = if t ∈ T' then P' t else [])
    (hT : ∀ t', t' ≠ t → T'.count t' = T.count t') (hP : ∀ t', t' ≠ t → P' t' = P t') :
    l'.Balances n P' B' T' := by
  have hcase : ∀ t' y, l'.maps[t'.serial]? = some y →
      (t' = t ∧ y = f x) ∨ (t' ≠ t ∧ l.maps[t'.serial]? = some y) := by
    intro t' y hy
    rw [hmaps] at hy
    by_cases ht : t' = t
    · subst ht
      rw [List.getElem?_modify_eq, hx] at hy
      exact .inl ⟨rfl, (Option.some.inj hy).symm⟩
    · have hne : t.serial ≠ t'.serial := fun he => ht (by cases t; cases t'; simp_all)
      rw [List.getElem?_modify_ne _ _ hne] at hy
      exact .inr ⟨ht, hy⟩
  refine ⟨by simpa [hmaps] using h.size, fun c => ?_, fun t' y hy => ?_, fun t' y hy => ?_⟩
  · obtain ⟨rest, hrest⟩ := flatMap_modify PinMap.contents hx
    have hold := (hrest id).count_eq c
    have hcount := h.counts c
    have hcounts := hcounts c
    rw [List.modify_id, List.count_append, id_eq] at hold
    rw [List.count_append, hold] at hcount
    rw [hmaps, List.count_append, (hrest f).count_eq c, List.count_append]
    omega
  · rcases hcase t' y hy with ⟨rfl, rfl⟩ | ⟨hne, hy⟩
    · exact hhandles
    · exact (h.handles t' y hy).trans (hT t' hne).symm
  · rcases hcase t' y hy with ⟨rfl, rfl⟩ | ⟨hne, hy⟩
    · exact hcontents
    · have hmem : t' ∈ T' ↔ t' ∈ T := by
        rw [← List.count_pos_iff, ← List.count_pos_iff, hT t' hne]
      simpa only [hmem, hP t' hne] using h.contents t' y hy

theorem map? (h : l.Balances n P B T) (ht : t.serial < n) : ∃ x, l.maps[t.serial]? = some x :=
  ⟨_, List.getElem?_eq_getElem (h.size ▸ ht)⟩

theorem join (h : l.Balances n P B T) (ht : t.serial < n) (hmem : t ∈ T) :
    (l.post (.joined t)).Balances n P B (t :: T) := by
  obtain ⟨x, hx⟩ := h.map? ht
  refine h.update hx rfl (fun c => rfl) ?_ ?_ (fun t' hne => ?_) fun _ _ => rfl
  · simp [h.handles t x hx]
  · simp [h.contents t x hx, hmem]
  · exact List.count_cons_of_ne hne.symm

/-- A handle on a connection is put among the pins of a transaction that somebody has a handle on. -/
theorem store (h : l.Balances n P B T) (ht : t.serial < n) (hmem : t ∈ T) (hP : P' t = P t ++ [c])
    (hrest : ∀ t', t' ≠ t → P' t' = P t') : (l.post (.stored t c)).Balances n P' B T := by
  obtain ⟨x, hx⟩ := h.map? ht
  refine h.update hx rfl (fun d => ?_) (h.handles t x hx) ?_
    (fun _ _ => rfl) hrest
  · have hone : (l.post (.stored t c)).counts d = l.counts d + [c].count d := by
      by_cases hd : d = c
      · simp [post, Ledger.modify, Ledger.take, hd]
      · simp [post, Ledger.modify, Ledger.take, hd, Ne.symm hd]
    rw [hone, List.count_append]
    omega
  · simp [h.contents t x hx, hmem, hP]

/-- What is pinned to a transaction is dropped, whoever else may be in its pins. -/
theorem emptied {l' : Ledger} {x : PinMap} {f : PinMap → PinMap} (h : l.Balances n P B T)
    (hx : l.maps[t.serial]? = some x) (hmaps : l'.maps = l.maps.modify t.serial f)
    (hcounts : ∀ d, l'.counts d = l.counts d - x.contents.count d) (hf : (f x).contents = [])
    (hhandles : (f x).handles = T'.count t) (hcontents : t ∈ T' → P' t = [])
    (hT : ∀ t', t' ≠ t → T'.count t' = T.count t') (hP : ∀ t', t' ≠ t → P' t' = P t') :
    l'.Balances n P' B T' := by
  refine h.update hx hmaps (fun d => ?_) hhandles ?_ hT hP
  · have hle : x.contents.count d ≤ l.counts d := by
      obtain ⟨rest, hperm⟩ := flatMap_modify PinMap.contents hx
      have hold := (hperm id).count_eq d
      rw [List.modify_id, List.count_append, id_eq] at hold
      rw [h.counts d, List.count_append, hold]
      omega
    rw [hcounts, hf, List.count_nil]
    omega
  · rw [hf]
    split
    · rename_i hmem
      exact (hcontents hmem).symm
    · rfl

theorem clear (h : l.Balances n P B T) (ht : t.serial < n) (hP : P' t = [])
    (hrest : ∀ t', t' ≠ t → P' t' = P t') : (l.post (.cleared t)).Balances n P' B T := by
  obtain ⟨x, hx⟩ := h.map? ht
  have hclear : l.post (.cleared t) =
      (x.contents.foldl Ledger.drop l).modify t fun x => { x with contents := [] } := by
    simp [post, Ledger.clear, hx]
  rw [hclear]
  refine h.emptied (f := fun x => { x with contents := [] }) hx ?_ (drops_counts x.contents l) rfl
    (h.handles t x hx) (fun _ => hP) (fun _ _ => rfl) hrest
  rw [Ledger.modify, drops_maps]

theorem leave (h : l.Balances n P B (t :: T)) (ht : t.serial < n) :
    (l.post (.left t)).Balances n P B T := by
  obtain ⟨x, hx⟩ := h.map? ht
  have hhandles : x.handles = T.count t + 1 := by simpa using h.handles t x hx
  have hothers : ∀ t', t' ≠ t → T.count t' = (t :: T).count t' := fun t' hne =>
    (List.count_cons_of_ne hne.symm).symm
  generalize hl' : (l.modify t fun x => { x with handles := x.handles - 1 }) = l'
  have hx' : l'.maps[t.serial]? = some { x with handles := T.count t } := by
    rw [← hl', Ledger.modify, List.getElem?_modify_eq, hx]
    simp [hhandles]
  have hpost : l.post (.left t) = if T.count t = 0 then l'.clear t else l' := by
    simp only [post, Ledger.leave, hl', hx']
  rw [hpost]
  by_cases hmem : t ∈ T
  · rw [if_neg (List.count_pos_iff.2 hmem).ne']
    refine h.update (f := fun x => { x with handles := x.handles - 1 }) hx (by rw [← hl']; rfl)
      (fun d => by rw [← hl']; rfl) (by simp [hhandles]) ?_ hothers fun _ _ => rfl
    simp [h.contents t x hx, hmem]
  · -- that was the last handle
    have hclear : l'.clear t =
        (x.contents.foldl Ledger.drop l').modify t fun x => { x with contents := [] } := by
      simp [Ledger.clear, hx']
    rw [if_pos (List.count_eq_zero.2 hmem), hclear]
    refine h.emptied (f := fun x => { handles := x.handles - 1, contents := [] }) hx ?_ (fun d => ?_)
      rfl (by simp [hhandles]) (fun hmem' => absurd hmem' hmem) hothers fun _ _ => rfl
    · rw [Ledger.modify, drops_maps, ← hl', Ledger.modify, List.modify_modify_eq]
      rfl
    · rw [← hl']
      exact drops_counts x.contents _ d

end Balances

end Ledger

end ShardRegistry
