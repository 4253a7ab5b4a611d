import ShardRegistry.Proofs.Departures
import ShardRegistry.Proofs.Errands

/-! Handles of acquisitions. A batch has a handle on each connection that it got. A task that looks into
the pins of a transaction has a handle on them, which it gives back before it goes on; a batch that
fails drops what it got. -/
namespace ShardRegistry

/-! ### What a part of an acquisition does with handles -/

namespace Acquisition
variable (a : Acquisition)

def drops : List Reference := a.acquired.map .dropped

def askReferences (r : Resources) : List Reference :=
  if a.acquired.length ≥ a.count then []
  else match a.source with
    | .pool _ => []
    | .transaction m t otherwise =>
      if r.isActive m t then [.joined t]
      else match otherwise with
        | some _ => []
        | none => a.drops

def startReferences (r : Resources) : List Reference :=
  if a.count > 1 && a.count ≥ batchLimit then a.drops else a.askReferences r

def obtainReferences (r : Resources) (c : Connection) : List Reference :=
  askReferences { a with acquired := a.acquired ++ [c] } r

def resumeReferences (r : Resources) (server : Option Server) : Stage → List Reference
  | .pins t =>
    match r.pinned? t a.backend with
    | some c => [.taken c, .left t] ++ a.obtainReferences r c
    | none =>
      let pool := match a.source with
        | .transaction m _ _ => (r.managers[m]?).bind fun x => x.pools.find? a.backend
        | .pool _ => none
      match pool with
      | none => .left t :: a.drops
      | some _ => []
  | .gate p attempt pins =>
    match (r.leavePool server p attempt).2 with
    | .error _ => pins.toList.map .left ++ a.drops
    | .ok c => .taken c :: pins.toList.flatMap (fun t => [.stored t c, .left t]) ++
        a.obtainReferences r c

end Acquisition

namespace Resources

/-- Every open transaction has pins. -/
def Known (r : Resources) : Prop := ∀ t, r.Open t → r.mutex? t ≠ none

theorem Known.of_table {r r' : Resources} (h : r.Known) (ht : r'.table = r.table) : r'.Known := by
  obtain ⟨hm, hp⟩ := Prod.mk.inj ht
  intro t ho
  rw [mutex?_ne_none_iff, hp]
  exact mutex?_ne_none_iff.1 (h t ((open_iff (isActive_of_managers hm) t).1 ho))

end Resources

theorem Acquisition.contents_askPool (a : Acquisition) (r : Resources) (k : TaskId) (p : PoolId)
    (ts : Option TransactionId) : (a.askPool r k p ts).1.contents = r.contents := by
  have h := r.contents_enterPool k p
  simp only [askPool]
  split <;> rename_i heq <;> rw [heq] at h <;> exact h

namespace Progress

/-- The connections that a batch has got. -/
def connections : Progress → List Connection
  | .waits _ a | .passes _ a => a.acquired
  | .done (.ok cs) => cs
  | .done (.error _) => []

/-- The transaction whose pins a batch has a handle on. -/
def transaction? : Progress → Option TransactionId
  | .waits stage _ | .passes stage _ => stage.transaction?
  | .done _ => none

end Progress

/-! ### What holds of the handles -/

/-- The ledger tells of `B`, the handles on connections, and of the handles on pins, which are those of
the tables and of `D`. -/
structure Ledger.Covers (l : Ledger) (r : Resources) (B : List Connection) (D : List TransactionId) :
    Prop where
  balances : l.Balances r.pins.length r.contents B (r.tables ++ D)
  nodup : r.tables.Nodup

namespace Ledger.Covers
variable {l : Ledger} {r r' : Resources} {B B' : List Connection} {D D' : List TransactionId}
  {t : TransactionId} {c : Connection} {k : TaskId}

theorem start (n : Nat) : Covers {} { stamps := n } [] [] := ⟨.start, List.nodup_nil⟩

theorem perm (h : l.Covers r B D) (hB : B.Perm B') (hD : D.Perm D') : l.Covers r B' D' :=
  ⟨h.balances.perm hB (hD.append_left _), h.nodup⟩

theorem of_eq (h : l.Covers r B D) (ht : r'.table = r.table) (hc : r'.contents = r.contents) :
    l.Covers r' B D := by
  obtain ⟨hm, hp⟩ := Prod.mk.inj ht
  refine ⟨?_, by rw [Resources.tables_of_managers hm]; exact h.nodup⟩
  rw [hp, hc, Resources.tables_of_managers hm]
  exact h.balances

theorem take (h : l.Covers r B D) (c : Connection) : (l.post (.taken c)).Covers r (c :: B) D :=
  ⟨h.balances.take c, h.nodup⟩

theorem drops {C : List Connection} (h : l.Covers r (C ++ B) D) :
    (l.posts (C.map .dropped)).Covers r B D :=
  ⟨h.balances.drops, h.nodup⟩

theorem takes (h : l.Covers r B D) (cs : List Connection) :
    (l.posts (cs.map .taken)).Covers r (cs ++ B) D :=
  ⟨h.balances.takes cs, h.nodup⟩

theorem join (h : l.Covers r B D) (hknown : r.mutex? t ≠ none) (hopen : r.Open t) :
    (l.post (.joined t)).Covers r B (t :: D) := by
  have hjoin := h.balances.join (Resources.mutex?_ne_none_iff.1 hknown)
    (List.mem_append_left D (Resources.mem_tables_iff.2 hopen))
  exact ⟨hjoin.perm (.refl B) List.perm_middle.symm, h.nodup⟩

theorem leave (h : l.Covers r B (t :: D)) (hknown : r.mutex? t ≠ none) :
    (l.post (.left t)).Covers r B D :=
  ⟨(h.balances.perm (.refl B) List.perm_middle).leave (Resources.mutex?_ne_none_iff.1 hknown), h.nodup⟩

theorem clear (h : l.Covers r B D) (hknown : r.mutex? t ≠ none) :
    (l.post (.cleared t)).Covers (r.clearPins t) B D := by
  obtain ⟨hm, hp⟩ := Prod.mk.inj (r.table_clearPins t)
  refine ⟨?_, by rw [Resources.tables_of_managers hm]; exact h.nodup⟩
  rw [hp, Resources.tables_of_managers hm]
  refine h.balances.clear (Resources.mutex?_ne_none_iff.1 hknown) ?_ fun t' ht => ?_ <;>
    simp_all [Resources.contents_clearPins]

/-- A connection is pinned by a task that has a handle on the pins. -/
theorem store {b : String} (h : l.Covers r B D) (hmem : t ∈ D) (hknown : r.mutex? t ≠ none)
    (hnone : r.pinned? t b = none) : (l.post (.stored t c)).Covers (r.pin t b c) B D := by
  obtain ⟨hm, hp⟩ := Prod.mk.inj (r.table_pin t b c)
  refine ⟨?_, by rw [Resources.tables_of_managers hm]; exact h.nodup⟩
  rw [hp, Resources.tables_of_managers hm]
  refine h.balances.store (Resources.mutex?_ne_none_iff.1 hknown) (List.mem_append_right _ hmem) ?_
    fun t' ht => ?_ <;> simp_all [Resources.contents_pin c hknown hnone]

/-- A transaction that begins is put into a table. -/
theorem beginTransaction {R : List (TaskId × Role)} {m : ManagerId} (h : l.Covers r B D)
    (hb : r.beginTransaction m = (r', .ok t)) (hq : r.Queued R) (hD : t ∉ D) :
    (l.post .begun).Covers r' B D := by
  have hbegins := Resources.begins_of_ok hb
  simp only [Resources.beginTransaction] at hb
  split at hb
  · cases hb
  · rename_i x hx
    split at hb <;> cases hb
    obtain ⟨rest, hrest⟩ := flatMap_modify Manager.active hx
    have hperm : ((r.managers.modify m fun x =>
        { x with active := x.active ++ [⟨r.pins.length⟩] }).flatMap Manager.active).Perm
          (⟨r.pins.length⟩ :: r.tables) := by
      have hold := hrest id
      rw [List.modify_id] at hold
      refine (hrest _).trans (.trans ?_ (hold.symm.cons _))
      simp
    have hnew : (⟨r.pins.length⟩ : TransactionId) ∉ r.tables := by
      rw [Resources.mem_tables_iff]
      rintro ⟨m', hm'⟩
      exact (hq.active m' _ hm').1 hbegins.new
    refine ⟨?_, hperm.symm.nodup (List.nodup_cons.2 ⟨hnew, h.nodup⟩)⟩
    have hbegun := h.balances.begin (Resources.contents { r with pins := r.pins ++ [⟨[], {}⟩] })
      (by simp [hnew, hD]) (by simp [Resources.contents]) fun t ht => ?_
    · have hlength : (r.pins ++ [Pins.mk [] {}]).length = r.pins.length + 1 := by simp
      rw [← hlength] at hbegun
      exact hbegun.perm (.refl B) (hperm.symm.append_right D)
    · have hne : t.serial ≠ r.pins.length := fun heq => ht (by cases t; simp_all)
      rcases Nat.lt_or_gt_of_ne hne with hlt | hgt
      · simp [Resources.contents, List.getElem?_append_left hlt]
      · have hlast : (r.pins ++ [Pins.mk [] {}])[t.serial]? = none :=
          List.getElem?_eq_none (by simp; omega)
        simp [Resources.contents, hlast, List.getElem?_eq_none (Nat.le_of_lt hgt)]

/-- The handle of the table is the handle of the task that ends the transaction. -/
theorem settle {R : List (TaskId × Role)} {m : ManagerId} (h : l.Covers r B D)
    (hd : r.dropTransaction m t = .ok r') (hq : r.Queued R) : l.Covers r' B (t :: D) := by
  obtain ⟨hactive, hactive'⟩ := Resources.dropTransaction_ok hd
  simp only [Resources.dropTransaction] at hd
  split at hd
  · cases hd
  · rename_i x hx
    split at hd <;> cases hd
    have hsub : (r.modifyManager m fun x => { x with active := x.active.filter (· ≠ t) }).tables.Sublist
        r.tables := Resources.sublist_flatMap_modify r.managers m fun _ => List.filter_sublist
    have hperm : r.tables.Perm
        (t :: (r.modifyManager m fun x => { x with active := x.active.filter (· ≠ t) }).tables) := by
      have hgone : t ∉ (r.modifyManager m fun x =>
          { x with active := x.active.filter (· ≠ t) }).tables := by
        rw [Resources.mem_tables_iff]
        rintro ⟨m', hm'⟩
        rw [hactive', Bool.and_eq_true] at hm'
        simp [(hq.active m t hactive).2 m' hm'.1] at hm'
      refine (List.perm_ext_iff_of_nodup h.nodup
        (List.nodup_cons.2 ⟨hgone, hsub.nodup h.nodup⟩)).2 fun t' => ?_
      simp only [List.mem_cons, Resources.mem_tables_iff, Resources.Open, hactive',
        Bool.and_eq_true]
      constructor
      · rintro ⟨m', hm'⟩
        by_cases ht : t' = t
        · exact .inl ht
        · exact .inr ⟨m', hm', by simp [ht]⟩
      · rintro (rfl | ⟨m', hm', _⟩)
        · exact ⟨m, hactive⟩
        · exact ⟨m', hm'⟩
    refine ⟨?_, hsub.nodup h.nodup⟩
    exact h.balances.perm (.refl B) ((hperm.append_right D).trans List.perm_middle.symm)

/-- Managers are closed. -/
theorem departs {R : List (TaskId × Role)} (h : l.Covers r B D) (hv : r.Vacates r')
    (hq : r.Queued R) : (l.posts (r.departures r')).Covers r' B D := by
  refine ⟨h.balances.departs hv h.nodup fun m t hm => ?_, hv.tables.nodup h.nodup⟩
  exact ⟨Resources.mutex?_ne_none_iff.1 (hq.active m t hm).1, (hq.active m t hm).2⟩

/-! ### Parts of acquisitions -/

variable {a : Acquisition}

theorem askPool {p : PoolId} {o : Option TransactionId}
    (h : l.Covers r (a.acquired ++ B) (o.toList ++ D)) :
    l.Covers (a.askPool r k p o).1 ((a.askPool r k p o).2.connections ++ B)
      ((a.askPool r k p o).2.transaction?.toList ++ D) := by
  have hsame := h.of_eq (a.table_askPool r k p o) (a.contents_askPool r k p o)
  generalize hy : a.askPool r k p o = y at hsame
  simp only [Acquisition.askPool] at hy
  split at hy <;> (subst hy; exact hsame)

theorem ask (h : l.Covers r (a.acquired ++ B) D) (hknown : r.Known) :
    (l.posts (a.askReferences r)).Covers (a.ask r k).1 ((a.ask r k).2.connections ++ B)
      ((a.ask r k).2.transaction?.toList ++ D) := by
  by_cases hmore : a.acquired.length ≥ a.count
  · simp only [Acquisition.ask, Acquisition.askReferences, hmore, if_true]
    exact h
  · cases hs : a.source with
    | pool p =>
      simp only [Acquisition.ask, Acquisition.askReferences, hmore, if_false, hs]
      exact askPool (o := none) h
    | transaction m t otherwise =>
      cases hactive : r.isActive m t with
      | true =>
        have hjoin := (h.join (hknown t ⟨m, hactive⟩) ⟨m, hactive⟩).of_eq (r.table_requestPins t k)
          (r.contents_requestPins t k)
        simp only [Acquisition.ask, Acquisition.askReferences, hmore, if_false, hs, hactive, if_true]
        split <;> exact hjoin
      | false =>
        simp only [Acquisition.ask, Acquisition.askReferences, hmore, if_false, hs, hactive,
          Bool.false_eq_true]
        cases otherwise with
        | some p => exact askPool (o := none) h
        | none =>
          have hdrops := h.drops
          cases r.managers[m]? <;> exact hdrops

theorem begin (h : l.Covers r (a.acquired ++ B) D) (hknown : r.Known) :
    (l.posts (a.startReferences r)).Covers (a.start r k).1 ((a.start r k).2.connections ++ B)
      ((a.start r k).2.transaction?.toList ++ D) := by
  simp only [Acquisition.start, Acquisition.startReferences]
  split
  · exact h.drops
  · exact h.ask hknown

/-- A connection more, and on. -/
theorem obtain {c : Connection} (h : l.Covers r (c :: (a.acquired ++ B)) D) (hknown : r'.Known)
    (htable : r.table = r'.table) :
    (l.posts (a.obtainReferences r' c)).Covers (a.obtain r k c).1
      ((a.obtain r k c).2.connections ++ B) ((a.obtain r k c).2.transaction?.toList ++ D) := by
  have hsame : a.obtainReferences r' c = a.obtainReferences r c := by
    simp only [Acquisition.obtainReferences, Acquisition.askReferences,
      Resources.isActive_of_managers (Prod.mk.inj htable).1]
  rw [hsame]
  refine ask (h.perm ?_ (.refl D)) (hknown.of_table htable)
  simp only [List.append_assoc, List.singleton_append]
  exact List.perm_middle.symm

/-- With the lock on the pins of a transaction. -/
theorem afterPins (h : l.Covers r (a.acquired ++ B) (t :: D)) (hknown : r.Known)
    (ht : r.mutex? t ≠ none) (server : Option Server) :
    (l.posts (a.resumeReferences r server (.pins t))).Covers (a.afterPins r k t).1
      ((a.afterPins r k t).2.connections ++ B) ((a.afterPins r k t).2.transaction?.toList ++ D) := by
  simp only [Acquisition.afterPins, Acquisition.resumeReferences]
  cases hc : r.pinned? t a.backend with
  | some c =>
    have htable := r.table_releasePins t
    have hgot := ((h.take c).leave ht).of_eq htable (r.contents_releasePins t)
    exact hgot.obtain hknown htable
  | none =>
    have hnone := ((h.leave ht).drops).of_eq (r.table_releasePins t) (r.contents_releasePins t)
    cases a.source with
    | pool p => exact hnone
    | transaction m _ _ =>
      simp only
      cases (r.managers[m]?).bind fun x => x.pools.find? a.backend with
      | none => exact hnone
      | some p => exact h.askPool

/-- A connection that was taken from a pool is pinned, and the lock on the pins is released. -/
theorem deliver (h : l.Covers r (a.acquired ++ B) (t :: D)) (hknown : r'.Known)
    (htable : r.table = r'.table) (ht : r.mutex? t ≠ none) (hnone : r.pinned? t a.backend = none)
    (c : Connection) :
    (l.posts ([.taken c, .stored t c, .left t] ++ a.obtainReferences r' c)).Covers
      (a.obtain ((r.pin t a.backend c).releasePins t) k c).1
      ((a.obtain ((r.pin t a.backend c).releasePins t) k c).2.connections ++ B)
      ((a.obtain ((r.pin t a.backend c).releasePins t) k c).2.transaction?.toList ++ D) := by
  have hpinned := (h.take c).store (c := c) List.mem_cons_self ht hnone
  have ht' : (r.pin t a.backend c).mutex? t ≠ none := by
    rw [(Resources.pin_eq r t a.backend c).2.1]
    exact ht
  have hleft := (hpinned.leave ht').of_eq ((r.pin t a.backend c).table_releasePins t)
    (Resources.contents_releasePins _ t)
  exact hleft.obtain hknown (by simpa using htable)

/-- At the end of the stay in a pool. -/
theorem afterGate {p : PoolId} {attempt : Nat} {ts : Option TransactionId}
    (h : l.Covers r (a.acquired ++ B) (ts.toList ++ D)) (hknown : r.Known)
    (hts : ∀ t, ts = some t → r.mutex? t ≠ none ∧ r.pinned? t a.backend = none)
    (server : Option Server) :
    (l.posts (a.resumeReferences r server (.gate p attempt ts))).Covers
      (a.afterGate r server k p attempt ts).1
      ((a.afterGate r server k p attempt ts).2.connections ++ B)
      ((a.afterGate r server k p attempt ts).2.transaction?.toList ++ D) := by
  have htable := r.table_leavePool server p attempt
  have hleft := h.of_eq htable (r.contents_leavePool server p attempt)
  have hretires := Resources.Retires.leavePool r server p attempt
  simp only [Acquisition.afterGate, Acquisition.resumeReferences]
  generalize r.leavePool server p attempt = y at htable hleft hretires
  obtain ⟨r', result⟩ := y
  have hmutex (t : TransactionId) (ht : ts = some t) : r'.mutex? t ≠ none := by
    rw [hretires.mutexes]
    exact (hts t ht).1
  cases result with
  | error e =>
    cases ts with
    | none => exact hleft.drops
    | some t =>
      exact ((hleft.leave (hmutex t rfl)).drops).of_eq (r'.table_releasePins t)
        (r'.contents_releasePins t)
  | ok c =>
    cases ts with
    | none => exact (hleft.take c).obtain hknown htable
    | some t =>
      have hnone : r'.pinned? t a.backend = none := by
        refine Option.eq_none_iff_forall_ne_some.2 fun c' hc => ?_
        have hpinned := hretires.pinned t _ c' hc
        rw [(hts t rfl).2] at hpinned
        cases hpinned
      exact hleft.deliver hknown htable (hmutex t rfl) hnone c

theorem resume {stage : Stage} (h : l.Covers r (a.acquired ++ B) (stage.transaction?.toList ++ D))
    (hknown : r.Known) (hstage : ∀ t, stage.transaction? = some t → r.mutex? t ≠ none)
    (hdraws : ∀ t b, stage.role? a = some (.draws t b) → r.pinned? t b = none)
    (server : Option Server) :
    (l.posts (a.resumeReferences r server stage)).Covers (a.resume r server k stage).1
      ((a.resume r server k stage).2.connections ++ B)
      ((a.resume r server k stage).2.transaction?.toList ++ D) := by
  cases stage with
  | pins t => exact h.afterPins hknown (hstage t rfl) server
  | gate p attempt ts =>
    refine h.afterGate hknown (fun t ht => ⟨hstage t ht, hdraws t a.backend ?_⟩) server
    obtain rfl : ts = some t := ht
    rfl

end Ledger.Covers

end ShardRegistry
