import Mathlib.Data.List.Induction
import ShardRegistry.Proofs.Errands

/-! Affinity of transactions. Beside the moves of tasks there are managers and pools of callers that
have no schema. Whatever happens, and in whatever order: for one transaction and backend there is one
connection, it is taken from the pool once, and nobody else gets it; a pool that gives none leaves the
transaction as it is; and once a transaction has ended, calls for it are refused. -/
namespace ShardRegistry

/-- A move of tasks, or a call to a manager or a pool that need not be of a schema. -/
inductive Action where
  | move (m : Move)
  | startManager (kind : TransactionKind) (pools : OrderedMap PoolId)
  | closeManager (m : ManagerId)
  | addPool (name : String) (p : ConnectionParameters)
  | closePool (p : PoolId)

def Action.move? : Action → Option Move
  | .move m => some m
  | _ => none

namespace World

def act (w : World) : Action → World
  | .move m => w.move m
  | .startManager kind pools => w.owning (w.resources.addManager kind pools).1
  | .closeManager m => w.owning (w.resources.closeManager m).1
  | .addPool name p => w.owning (w.resources.addPool w.factory name p).1
  | .closePool p => w.owning (w.resources.closePool p)

/-- The world after some actions; it stands still once it has crashed. -/
def after (actions : List Action) : World :=
  actions.foldl (fun w a => if w.crashed then w else w.act a) {}

/-- The connection that a task gets in an action. -/
def delivery? (w : World) : Move → Option Delivery
  | .goOn k => (w.tasks.lookup k).bind fun s =>
    if w.mayGoOn k s then s.delivery? w.resources w.server k else none
  | _ => none

/-- What an action leaves behind that is a move and is made. -/
def left? {α : Type} (f : World → Move → Option α) (w : World) (a : Action) : Option α :=
  if w.crashed then none else a.move?.bind (f w)

def log {α : Type} (f : World → Move → Option α) (actions : List Action) : List α :=
  trail (fun w a => if w.crashed then w else w.act a) (fun w a => (left? f w a).toList) {} actions

/-- The connections that tasks got, in their order. -/
def deliveries : List Action → List Delivery := log delivery?

/-- The calls that tasks were started for. -/
def asked : List Action → List (TaskId × Call) := log call?

/-- The results of tasks. -/
def answered : List Action → List (TaskId × Outcome) := log reply?

theorem after_append (as bs : List Action) : after (as ++ bs) =
    bs.foldl (fun w a => if w.crashed then w else w.act a) (after as) := List.foldl_append

theorem mem_log_append {α : Type} (f : World → Move → Option α) {as : List Action} {x : α}
    (h : x ∈ log f as) (bs : List Action) : x ∈ log f (as ++ bs) := by
  rw [log, trail_append]
  exact List.mem_append_left _ h

/-! ### Steps -/

/-- Tasks, calls and results are in order with what was delivered. -/
structure Tended (H : List Delivery) (C : List (TaskId × Call)) (O : List (TaskId × Outcome))
    (w : World) : Prop where
  nodup : (w.tasks.map (·.1)).Nodup
  started : ∀ e ∈ w.tasks, e.1 < w.started
  calls : (C.map (·.1)).Nodup
  called : ∀ c ∈ C, c.1 < w.started
  stands : ∀ e ∈ w.tasks, ∃ call, (e.1, call) ∈ C ∧ call.Stands H e.1 e.2
  gets : ∀ d ∈ H, ∃ call, (d.task, call) ∈ C ∧ call.Gets d
  answers : ∀ k cs, (k, .connections cs) ∈ O → ∃ call, (k, call) ∈ C ∧
    cs.length = call.count ∧ ∀ c ∈ cs, Delivered H k c

/-- So are their roles. -/
structure Ordered (H : List Delivery) (C : List (TaskId × Call)) (O : List (TaskId × Outcome))
    (w : World) : Prop where
  tended : w.Tended H C O
  affine : w.resources.Affine H w.roles

section
variable {H H' : List Delivery} {C : List (TaskId × Call)} {O : List (TaskId × Outcome)}
  {w w' : World} {k : TaskId}

theorem Ordered.start : Ordered [] [] [] {} where
  tended := ⟨List.nodup_nil, fun _ h => absurd h List.not_mem_nil, List.nodup_nil,
    fun _ h => absurd h List.not_mem_nil, fun _ h => absurd h List.not_mem_nil,
    fun _ h => absurd h List.not_mem_nil, fun _ _ h => absurd h List.not_mem_nil⟩
  affine := .start 3

theorem Tended.of_tasks (h : w.Tended H C O) (ht : w'.tasks.Sublist w.tasks)
    (hs : w'.started = w.started) : w'.Tended H C O where
  nodup := (ht.map _).nodup h.nodup
  started e he := hs ▸ h.started e (ht.subset he)
  calls := h.calls
  called c hc := hs ▸ h.called c hc
  stands e he := h.stands e (ht.subset he)
  gets := h.gets
  answers := h.answers

/-- A task has one call. -/
theorem Tended.unique (h : w.Tended H C O) {call call' : Call} (hc : (k, call) ∈ C)
    (hc' : (k, call') ∈ C) : call = call' := by
  have hsome := (lookup_some_iff h.calls k call).2 hc
  rw [(lookup_some_iff h.calls k call').2 hc'] at hsome
  exact (Option.some.inj hsome).symm

/-- A part of a task is over. -/
theorem Tended.put (h : w.Tended H C O) (hk : ∀ e ∈ w.tasks, e.1 ≠ k) (hlt : k < w.started)
    {call : Call} (hcall : (k, call) ∈ C) {x : World × Next} (ht : x.1.tasks = w.tasks)
    (hs : x.1.started = w.started) {d : Option Delivery}
    (hmeets : call.Meets (H ++ d.toList) k x.2)
    (hgets : ∀ e, d = some e → e.task = k ∧ call.Gets e) :
    (World.put k x).Tended (H ++ d.toList) C (O ++ (x.2.outcome?.map fun o => (k, o)).toList) := by
  obtain ⟨w', next⟩ := x
  have hsub : H ⊆ H ++ d.toList := List.subset_append_left _ _
  have hrest : w'.Tended (H ++ d.toList) C (O ++ (next.outcome?.map fun o => (k, o)).toList) := by
    refine ⟨ht ▸ h.nodup, fun e he => hs ▸ h.started e (ht ▸ he), h.calls,
      fun c hc => hs ▸ h.called c hc, fun e he => ?_, fun e he => ?_, fun k' cs hmem => ?_⟩
    · obtain ⟨call, hmem, hstands⟩ := h.stands e (ht ▸ he)
      exact ⟨call, hmem, stands_mono hsub hstands⟩
    · rcases List.mem_append.1 he with he | he
      · exact h.gets e he
      · obtain ⟨htask, hg⟩ := hgets e (Option.mem_toList.1 he)
        exact ⟨call, htask ▸ hcall, hg⟩
    · rcases List.mem_append.1 hmem with hmem | hmem
      · obtain ⟨call', hmem', hlength, hall⟩ := h.answers k' cs hmem
        exact ⟨call', hmem', hlength, fun c hc => (hall c hc).mono hsub⟩
      · obtain ⟨o, ho, heq⟩ := Option.map_eq_some_iff.1 (Option.mem_toList.1 hmem)
        cases heq
        obtain rfl := outcome?_eq_some ho
        exact ⟨call, hcall, hmeets⟩
  have hstay : ∀ s, call.Stands (H ++ d.toList) k s →
      Tended (H ++ d.toList) C (O ++ (next.outcome?.map fun o => (k, o)).toList)
        { w' with tasks := w'.tasks ++ [(k, s)] } := by
    intro s hs'
    refine { hrest with nodup := ?_, started := fun e he => ?_, stands := fun e he => ?_ }
    · rw [List.map_append]
      refine List.nodup_append'.2 ⟨hrest.nodup, List.nodup_singleton k, ?_⟩
      refine List.disjoint_singleton.2 fun hmem => ?_
      obtain ⟨e, he, heq⟩ := List.mem_map.1 hmem
      exact hk e (ht ▸ he) heq
    · rcases List.mem_append.1 he with he | he
      · exact hrest.started e he
      · rw [List.mem_singleton.1 he]
        exact hs ▸ hlt
    · rcases List.mem_append.1 he with he | he
      · exact hrest.stands e he
      · rw [List.mem_singleton.1 he]
        exact ⟨call, hcall, hs'⟩
  cases next with
  | waits s | passes s => exact hstay s hmeets
  | ends _ | crashes => exact hrest.of_tasks (List.Sublist.refl _) rfl

theorem mem_roles_put {x : World × Next} (ht : x.1.tasks = w.tasks) (e : TaskId × Role) :
    e ∈ joined k x.2.role? w.roles ↔ e ∈ (World.put k x).roles := by
  obtain ⟨w', next⟩ := x
  have hstay : ∀ s : TaskState, e ∈ joined k s.role? w.roles ↔
      e ∈ roles { w' with tasks := w'.tasks ++ [(k, s)] } := by
    intro s
    have hroles : roles { w' with tasks := w'.tasks ++ [(k, s)] } =
        w.roles ++ (s.role?.map fun ρ => (k, ρ)).toList := by
      have htasks : w'.tasks = w.tasks := ht
      rw [roles, roles, List.filterMap_append, htasks]
      cases hrole : s.role? <;> simp [hrole]
    rw [hroles, joined, List.mem_append, List.mem_append, or_comm]
  have hgone : joined k none w.roles = roles w' := by rw [joined_none, roles, roles, ht]
  cases next with
  | waits s | passes s => exact hstay s
  | ends _ | crashes => exact hgone ▸ .rfl

/-- The roles with a task in front of the others. -/
theorem mem_roles_without (hn : (w.tasks.map (·.1)).Nodup) {s : TaskState}
    (hs : w.tasks.lookup k = some s) (e : TaskId × Role) :
    e ∈ joined k s.role? (w.without k).roles ↔ e ∈ w.roles := by
  have hperm := perm_of_lookup hn hs
  have hroles := (hperm.filterMap fun e => e.2.role?.map fun ρ => (e.1, ρ)).mem_iff (a := e)
  refine Iff.trans ?_ hroles.symm
  rw [List.filterMap_cons, joined]
  cases hrole : s.role? <;> simp [roles, without]

/-- Transactions that were begun may end, and what is over stays so. -/
structure Lapses (w w' : World) : Prop where
  resources : w.resources.Lapses w'.resources
  stays : ∀ t, w.resources.mutex? t ≠ none → w.resources.Over w.roles t →
    w'.resources.Over w'.roles t

theorem Lapses.refl (w : World) : w.Lapses w := ⟨.refl _, fun _ _ h => h⟩

theorem Lapses.trans {w'' : World} (h : w.Lapses w') (h' : w'.Lapses w'') : w.Lapses w'' where
  resources := h.resources.trans h'.resources
  stays t ht hover := h'.stays t (h.resources.known t ht) (h.stays t ht hover)

/-- Those that deal with a transaction afterwards did so before. -/
theorem Lapses.of_roles (h : w.resources.Lapses w'.resources) (hR : ∀ e ∈ w'.roles, e ∈ w.roles) :
    w.Lapses w' where
  resources := h
  stays _ ht hover := ⟨h.closed ht hover.1, fun e he => hover.2 e (hR e he)⟩

/-- A part of a task leaves all in order, and nobody gets connections for a transaction that is
over. -/
theorem Tended.part (h : w.Tended H C O) (hk : ∀ e ∈ w.tasks, e.1 ≠ k) (hlt : k < w.started)
    {call : Call} (hcall : (k, call) ∈ C) {x : World × Next} {d : Option Delivery}
    {old : Option Role} (hl : Lands (H ++ d.toList) k w x.1 old x.2.role?)
    (hmeets : call.Meets (H ++ d.toList) k x.2) (hgets : ∀ e, d = some e → e.task = k ∧ call.Gets e)
    (hr : w'.resources = w.resources) (hroles : ∀ e, e ∈ joined k old w.roles ↔ e ∈ w'.roles) :
    (World.put k x).Ordered (H ++ d.toList) C
        (O ++ (x.2.outcome?.map fun o => (k, o)).toList) ∧ w'.Lapses (World.put k x) := by
  have hresources : (World.put k x).resources = x.1.resources :=
    congrArg Registry.resources (registry_put k x)
  have hlapses : w'.resources.Lapses (World.put k x).resources := by
    rw [hresources, hr]
    exact hl.lapses
  refine ⟨⟨h.put hk hlt hcall hl.tasks hl.started hmeets hgets, ?_⟩, hlapses, fun t ht hover => ?_⟩
  · rw [hresources]
    exact hl.resources.congr fun e => (mem_roles_put hl.tasks e).symm
  · refine ⟨hlapses.closed ht hover.1, fun e he heq => ?_⟩
    rcases List.mem_append.1 ((mem_roles_put hl.tasks e).2 he) with he | he
    · -- the task itself, which was not to get a connection before either
      obtain ⟨ρ, hρ, rfl⟩ := Option.map_eq_some_iff.1 (Option.mem_toList.1 he)
      have heq : ρ.transaction = t := heq
      subst heq
      rcases hl.entitled ρ hρ with hends | hopen | ⟨ρ₀, hρ₀, heq, hne⟩
      · exact hends
      · exact absurd (hr ▸ hopen) hover.1
      · have hmem : (k, ρ₀) ∈ joined k old w.roles := by simp [joined, hρ₀]
        exact absurd (hover.2 _ ((hroles _).1 hmem) heq) hne
    · exact hover.2 e ((hroles e).1 (List.mem_append_right _ he)) heq

/-- A task is started. -/
theorem Ordered.begin (h : w.Ordered H C O) (call : Call) :
    (w.move (.start call)).Ordered H (C ++ [(w.started, call)])
        (O ++ (w.reply? (.start call)).toList) ∧ w.Lapses (w.move (.start call)) := by
  have hcalled : ∀ c ∈ C ++ [(w.started, call)], c.1 < w.started + 1 := by
    intro c hc
    rcases List.mem_append.1 hc with hc | hc
    · exact Nat.lt_succ_of_lt (h.tended.called c hc)
    · rw [List.mem_singleton.1 hc]
      exact Nat.lt_succ_self _
  have hnodup : ((C ++ [(w.started, call)]).map (·.1)).Nodup := by
    rw [List.map_append]
    refine List.nodup_append'.2 ⟨h.tended.calls, List.nodup_singleton _, ?_⟩
    refine List.disjoint_singleton.2 fun hmem => ?_
    obtain ⟨c, hc, heq⟩ := List.mem_map.1 hmem
    exact absurd heq (Nat.ne_of_lt (h.tended.called c hc))
  have hold : ∀ {k : TaskId} {call' : Call}, (k, call') ∈ C → (k, call') ∈ C ++ [(w.started, call)] :=
    List.mem_append_left _
  have htended : Tended H (C ++ [(w.started, call)]) O { w with started := w.started + 1 } := by
    refine ⟨h.tended.nodup, fun e he => Nat.lt_succ_of_lt (h.tended.started e he), hnodup, hcalled,
      fun e he => ?_, fun d hd => ?_, fun k cs hmem => ?_⟩
    · obtain ⟨call', hmem, hstands⟩ := h.tended.stands e he
      exact ⟨call', hold hmem, hstands⟩
    · obtain ⟨call', hmem, hgets⟩ := h.tended.gets d hd
      exact ⟨call', hold hmem, hgets⟩
    · obtain ⟨call', hmem', hrest⟩ := h.tended.answers k cs hmem
      exact ⟨call', hold hmem', hrest⟩
  have hk : ∀ e ∈ w.tasks, e.1 ≠ w.started := fun e he => Nat.ne_of_lt (h.tended.started e he)
  have hlands : Lands (H ++ (none : Option Delivery).toList) w.started _ _ none _ :=
    (List.append_nil H).symm ▸ Lands.begin (w := { w with started := w.started + 1 }) h.affine hk call
  obtain ⟨hordered, hlapses⟩ := htended.part hk (Nat.lt_succ_self _)
    (List.mem_append_right _ (List.mem_singleton_self _)) hlands (meets_begin _ _ call)
    (fun _ he => by cases he) rfl fun _ => .rfl
  rw [Option.toList_none, List.append_nil] at hordered
  exact ⟨hordered, hlapses.resources, hlapses.stays⟩

/-- A task goes on that may do so. -/
theorem Ordered.goOn (h : w.Ordered H C O) {s : TaskState} (hs : w.tasks.lookup k = some s)
    (hgo : w.mayGoOn k s = true) :
    (World.put k ((w.without k).advance k s)).Ordered
        (H ++ (s.delivery? w.resources w.server k).toList) C
        (O ++ (((w.without k).advance k s).2.outcome?.map fun o => (k, o)).toList) ∧
      w.Lapses (World.put k ((w.without k).advance k s)) := by
  have hmem := (lookup_some_iff h.tended.nodup k s).1 hs
  have hroles := mem_roles_without h.tended.nodup hs
  obtain ⟨call, hcall, hstands⟩ := h.tended.stands _ hmem
  have htended : (w.without k).Tended H C O := h.tended.of_tasks List.filter_sublist rfl
  have hmeets := meets_advance (w := w.without k) hstands
  have hlands := Lands.advance (w := w.without k) (h.affine.congr hroles) Sound.ne_of_mem_without hgo
  exact htended.part Sound.ne_of_mem_without (h.tended.started _ hmem) hcall hlands hmeets.1 hmeets.2
    rfl hroles

/-- Nobody's role changes. -/
theorem Ordered.retires (h : w.Ordered H C O) (hr : w.Retires w') :
    w'.Ordered H C O ∧ w.Lapses w' := by
  have htasks : w'.tasks.Sublist w.tasks := by rw [hr.tasks]
  have hroles : w'.roles = w.roles := by rw [roles, hr.tasks, roles]
  refine ⟨⟨h.tended.of_tasks htasks hr.started, ?_⟩, .of_roles (.of_retires hr.resources) ?_⟩
  · rw [hroles]
    exact h.affine.retires hr.resources
  · exact fun e he => hroles ▸ he

theorem Ordered.cancel (h : w.Ordered H C O) {s : TaskState} (hs : w.tasks.lookup k = some s) :
    ((w.without k).withdraw k s).Ordered H C O ∧ w.Lapses ((w.without k).withdraw k s) := by
  have hroles := mem_roles_without h.tended.nodup hs
  have hlands : Lands H k (w.without k) ((w.without k).withdraw k s) none none :=
    .withdraw (h.affine.congr hroles) Sound.ne_of_mem_without
  have htasks : ((w.without k).withdraw k s).tasks.Sublist w.tasks := by
    rw [hlands.tasks]
    exact List.filter_sublist
  have heq : ((w.without k).withdraw k s).roles = (w.without k).roles := by
    rw [roles, hlands.tasks, roles]
  refine ⟨⟨h.tended.of_tasks htasks hlands.started, heq ▸ hlands.resources⟩,
    .of_roles hlands.lapses fun e he => ?_⟩
  rw [heq] at he
  exact (hroles e).1 (List.mem_append_right _ he)

theorem Ordered.beginTransaction (h : w.Ordered H C O) (m : ManagerId) :
    (w.owning (w.resources.beginTransaction m).1).Ordered H C O ∧
      w.Lapses (w.owning (w.resources.beginTransaction m).1) := by
  refine ⟨⟨h.tended.of_tasks (List.Sublist.refl _) rfl, ?_⟩,
    .of_roles (.beginTransaction _ m) fun _ he => he⟩
  obtain ⟨⟨r, result⟩, hb⟩ : ∃ y, w.resources.beginTransaction m = y := ⟨_, rfl⟩
  rw [hb]
  cases result with
  | error e => exact Resources.beginTransaction_error hb ▸ h.affine
  | ok t => exact h.affine.begin hb

theorem Ordered.move (h : w.Ordered H C O) (m : Move) :
    (w.move m).Ordered (H ++ (w.delivery? m).toList) (C ++ (w.call? m).toList)
        (O ++ (w.reply? m).toList) ∧ w.Lapses (w.move m) := by
  -- a move that is not part of a task leaves nothing behind
  have hquiet : ∀ {m}, w.delivery? m = none → w.call? m = none → w.reply? m = none →
      (w.move m).Ordered H C O ∧ w.Lapses (w.move m) →
      (w.move m).Ordered (H ++ (w.delivery? m).toList) (C ++ (w.call? m).toList)
        (O ++ (w.reply? m).toList) ∧ w.Lapses (w.move m) := by
    intro m hd hc hr hrest
    simpa [hd, hc, hr] using hrest
  have hstill : w.Ordered H C O ∧ w.Lapses w := ⟨h, .refl w⟩
  cases m with
  | start call => simpa [delivery?, call?] using h.begin call
  | goOn k =>
    cases hs : w.tasks.lookup k with
    | none =>
      exact hquiet (by simp [delivery?, hs]) rfl (by simp [reply?, part?, hs])
        (by simpa [World.move, hs] using hstill)
    | some s =>
      by_cases hgo : w.mayGoOn k s = true
      · simpa [World.move, delivery?, call?, reply?, part?, hs, hgo] using h.goOn hs hgo
      · exact hquiet (by simp [delivery?, hs, hgo]) rfl (by simp [reply?, part?, hs, hgo])
          (by simpa [World.move, hs, hgo] using hstill)
  | cancel k =>
    refine hquiet rfl rfl rfl ?_
    simp only [World.move]
    split
    · exact hstill
    · rename_i s hs
      exact h.cancel hs
  | beginTransaction m => exact hquiet rfl rfl rfl (h.beginTransaction m)
  | tune p gate refused =>
    exact hquiet rfl rfl rfl (h.retires (.owning (.modifyPool _ p fun _ => Nat.le_refl _)))
  | surround _ _ _ | collect _ _ => exact hquiet rfl rfl rfl (h.retires ⟨.refl _, rfl, rfl⟩)

theorem Ordered.act (h : w.Ordered H C O) (a : Action) :
    (w.act a).Ordered (H ++ (a.move?.bind w.delivery?).toList)
        (C ++ (a.move?.bind w.call?).toList) (O ++ (a.move?.bind w.reply?).toList) ∧
      w.Lapses (w.act a) := by
  have hquiet : ∀ {r}, w.resources.Retires r →
      (w.owning r).Ordered (H ++ []) (C ++ []) (O ++ []) ∧ w.Lapses (w.owning r) := by
    intro r hr
    simpa using h.retires (.owning hr)
  cases a with
  | move m => exact h.move m
  | startManager kind pools => exact hquiet (.addManagers _ (by simp) _)
  | closeManager m => exact hquiet (.closeManager _ m)
  | addPool name p => exact hquiet (.addPool _ _ name p)
  | closePool p => exact hquiet (.modifyPool _ p fun _ => Nat.le_refl _)

end

/-! ### Runs -/

theorem after_snoc (as : List Action) (a : Action) :
    after (as ++ [a]) = if (after as).crashed then after as else (after as).act a :=
  after_append as [a]

theorem log_snoc {α : Type} (f : World → Move → Option α) (as : List Action) (a : Action) :
    log f (as ++ [a]) = log f as ++ (left? f (after as) a).toList := by
  rw [log, trail_append, ← log, ← after]
  simp [trail]

theorem ordered_after (as : List Action) :
    (after as).Ordered (deliveries as) (asked as) (answered as) := by
  induction as using List.reverseRecOn with
  | nil => exact .start
  | append_singleton as a ih =>
    have ih : (after as).Ordered (log delivery? as) (log call? as) (log reply? as) := ih
    rw [after_snoc, deliveries, asked, answered, log_snoc, log_snoc, log_snoc]
    by_cases hc : (after as).crashed = true
    · simpa [left?, hc] using ih
    · simpa [left?, hc] using (ih.act a).1

theorem lapses_after (as bs : List Action) : (after as).Lapses (after (as ++ bs)) := by
  induction bs using List.reverseRecOn with
  | nil =>
    rw [List.append_nil]
    exact .refl _
  | append_singleton bs b ih =>
    rw [← List.append_assoc, after_snoc]
    split
    · exact ih
    · exact ih.trans ((ordered_after (as ++ bs)).act b).2

/-! ### Failures -/

theorem releaseHeld_pins (w : World) (held : Option LockId) :
    (w.releaseHeld held).resources.pins = w.resources.pins ∧
      (w.releaseHeld held).resources.managers = w.resources.managers := by
  cases held with
  | none => exact ⟨rfl, rfl⟩
  | some l =>
    simp only [releaseHeld, releaseLock]
    split <;> exact ⟨rfl, rfl⟩

theorem leavePool_pins (r : Resources) (server : Option Server) (p : PoolId) (n : Nat) :
    (r.leavePool server p n).1.pins = r.pins ∧
      (r.leavePool server p n).1.managers = r.managers := by
  simp only [Resources.leavePool]
  split
  · exact ⟨rfl, rfl⟩
  · split <;> exact ⟨rfl, rfl⟩

/-- A pool gives no connection: the task fails, and the transactions are as they were. -/
theorem gate_error {w : World} {k : TaskId} {held : Option LockId} {p : PoolId} {n : Nat}
    {t : TransactionId} {a : Acquisition} {e : Error}
    (hs : w.tasks.lookup k = some (.acquiring held (.gate p n (some t)) a))
    (he : (w.resources.leavePool w.server p n).2 = .error e) :
    (∃ e', w.reply? (.goOn k) = some (k, .failed e')) ∧
      (∀ m t', (w.move (.goOn k)).resources.isActive m t' = w.resources.isActive m t') ∧
      ∀ t' b, (w.move (.goOn k)).resources.pinned? t' b = w.resources.pinned? t' b := by
  obtain ⟨hpins, hmanagers⟩ := leavePool_pins w.resources w.server p n
  obtain ⟨⟨r, result⟩, hleave⟩ : ∃ y, w.resources.leavePool w.server p n = y := ⟨_, rfl⟩
  rw [hleave] at he hpins hmanagers
  cases (show result = .error e from he)
  obtain ⟨e', hadvance⟩ : ∃ e', (w.without k).advance k (.acquiring held (.gate p n (some t)) a) =
      (((w.without k).owning (r.releasePins t)).releaseHeld held, .ends (.failed e')) := by
    have hleave' : (w.without k).resources.leavePool (w.without k).server p n = (r, .error e) :=
      hleave
    simp [World.advance, Acquisition.resume, Acquisition.afterGate, hleave', Acquisition.failure,
      acquired]
  have hpart := part_of_goOn hs rfl
  rw [hadvance] at hpart
  obtain ⟨hrepins, _, hpinned⟩ := Resources.releasePins_eq r t
  obtain ⟨hpins', hmanagers'⟩ := releaseHeld_pins ((w.without k).owning (r.releasePins t)) held
  refine ⟨⟨e', by rw [reply?, hpart]; rfl⟩, ?_, ?_⟩
  · intro m t'
    rw [move_of_part hpart]
    exact Resources.isActive_of_managers (hmanagers'.trans (hrepins.managers.trans hmanagers)) m t'
  · intro t' b
    have hr : (r.releasePins t).pinned? t' b = r.pinned? t' b := by
      by_cases ht : t' = t
      · rw [ht, hpinned]
      · exact hrepins.pinned t' ht b
    rw [move_of_part hpart]
    refine Eq.trans ?_ (hr.trans ?_)
    · exact congrArg (fun ps : List Pins => (ps[t'.serial]?).bind fun p =>
        Entries.find? b p.connections) hpins'
    · exact congrArg (fun ps : List Pins => (ps[t'.serial]?).bind fun p =>
        Entries.find? b p.connections) hpins

/-- Calls for a transaction that is not active are refused. -/
theorem start_refused {w : World} {m : ManagerId} {t : TransactionId} {x : Manager}
    (hx : w.resources.managers[m]? = some x) (ht : w.resources.isActive m t = false)
    {call : Call} (hcall : call = .settle m t ∨ ∃ b, call = .pinned m t b) :
    w.reply? (.start call) = some (w.started, .failed (x.notActive t)) ∧
      (w.move (.start call)).resources = w.resources := by
  have hactive : x.isActive t = false := by simpa [Resources.isActive, hx] using ht
  have hx : (World.resources { w with started := w.started + 1 }).managers[m]? = some x := hx
  have ht : (World.resources { w with started := w.started + 1 }).isActive m t = false := ht
  obtain ⟨w', hbegin, hresources⟩ : ∃ w', ({ w with started := w.started + 1 }.begin w.started call) =
      (w', .ends (.failed (x.notActive t))) ∧ w'.resources = w.resources := by
    rcases hcall with rfl | ⟨b, rfl⟩
    · refine ⟨{ w with started := w.started + 1 }, ?_, rfl⟩
      simp [World.begin, beginSettle, Resources.dropTransaction, hx, hactive]
    · refine ⟨({ w with started := w.started + 1 } : World).owning w.resources, ?_, rfl⟩
      simp [World.begin, beginPinned, Acquisition.start, Acquisition.ask, ht, hx,
        Acquisition.failure, acquired, releaseHeld]
      rfl
  refine ⟨by simp [reply?, part?, hbegin, Next.outcome?], ?_⟩
  have hput : (w.move (.start call)).resources = w'.resources := by
    rw [World.move, hbegin]
    rfl
  exact hput.trans hresources

/-- A transaction is not active once it was to end. -/
theorem settle_inactive (w : World) (m : ManagerId) (t : TransactionId) :
    (w.move (.start (.settle m t))).resources.isActive m t = false := by
  have hresources : (w.move (.start (.settle m t))).resources =
      ({ w with started := w.started + 1 }.begin w.started (.settle m t)).1.resources :=
    congrArg Registry.resources (registry_put w.started _)
  rw [hresources]
  simp only [World.begin, beginSettle]
  split
  · rename_i he
    exact Resources.dropTransaction_error he
  · rename_i r hr
    have hafter : (r.requestPins t w.started).isActive m t = false := by
      rw [(Resources.requestPins_eq r t w.started).1.active, (Resources.dropTransaction_ok hr).2]
      simp
    exact hafter

/-- Nor is one of a manager that is closed. -/
theorem closeManager_inactive {r : Resources} {H : List Delivery} {R : List (TaskId × Role)}
    (h : r.Affine H R) (m : ManagerId) (t : TransactionId) :
    (r.closeManager m).1.isActive m t = false := by
  cases hx : r.managers[m]? with
  | none => simp [Resources.closeManager, Resources.isActive, hx]
  | some x =>
    cases hc : x.isClosed with
    | true =>
      have hsame : (r.closeManager m).1 = r := by simp [Resources.closeManager, hx, hc]
      rw [hsame]
      cases ht : r.isActive m t with
      | false => rfl
      | true =>
        have hopened := h.queued.opened m t ht
        simp [Resources.isManagerClosed, hx, hc] at hopened
    | false =>
      obtain ⟨pins, hclose, _⟩ := Resources.closeManager_fst hx hc
      rw [hclose]
      simp [Resources.isActive, hx, Manager.isActive]

/-! ### Clients -/

theorem reachable_of_not_over {w : World} {t : TransactionId}
    (ht : ¬ w.resources.Over w.roles t) : t ∈ w.reachable := by
  rw [reachable, List.mem_append, List.mem_flatMap, List.mem_filterMap]
  by_cases hopen : w.resources.Open t
  · obtain ⟨m, hm⟩ := hopen
    simp only [Resources.isActive] at hm
    split at hm
    · rename_i x hx
      exact .inl ⟨x, List.mem_of_getElem? hx, by simpa [Manager.isActive] using hm⟩
    · cases hm
  · -- somebody still looks for a connection
    obtain ⟨⟨k, ρ⟩, he, heq, _⟩ : ∃ e ∈ w.roles, e.2.transaction = t ∧ e.2 ≠ .settles t := by
      by_contra hnone
      refine ht ⟨hopen, fun e he heq => ?_⟩
      by_contra hne
      exact hnone ⟨e, he, heq, hne⟩
    obtain ⟨s, hmem, hρ⟩ := mem_roles_iff.1 he
    refine .inr ⟨(k, s), hmem, ?_⟩
    cases s with
    | acquiring held stage a =>
      cases stage with
      | pins t' =>
        cases hρ
        exact congrArg some heq
      | gate p n ts =>
        cases ts with
        | none => cases hρ
        | some t' =>
          cases hρ
          exact congrArg some heq
    | settling t' =>
      cases hρ
      exact congrArg some heq
    | lock _ _ _ | turn _ | loading _ _ _ => cases hρ

/-- What is delivered again was pinned to the transaction, for which the task looked. -/
theorem pinned_of_not_drawn {w : World} (hn : (w.tasks.map (·.1)).Nodup) {m : Move} {d : Delivery}
    (h : w.delivery? m = some d) (hd : d.drawn = false) : ∃ t, d.transaction = some t ∧
      w.resources.pinned? t d.backend = some d.connection ∧ ¬ w.resources.Over w.roles t := by
  cases m with
  | goOn k =>
    obtain ⟨s, hs, hsome⟩ := Option.bind_eq_some_iff.1 h
    split at hsome
    · cases s with
      | acquiring held stage a =>
        cases stage with
        | pins t =>
          obtain ⟨c, hc, rfl⟩ := Option.map_eq_some_iff.1 hsome
          have hrole : (k, Role.gets t) ∈ w.roles :=
            mem_roles_iff.2 ⟨_, (lookup_some_iff hn k _).1 hs, rfl⟩
          exact ⟨t, rfl, hc, fun hover => by cases hover.2 _ hrole rfl⟩
        | gate p n ts =>
          obtain ⟨c, _, rfl⟩ := Option.map_eq_some_iff.1 hsome
          cases hd
      | loading purpose pending query =>
        cases query with
        | none => cases hsome
        | some q =>
          obtain ⟨c, _, rfl⟩ := Option.map_eq_some_iff.1 hsome
          cases hd
      | lock _ _ _ | settling _ | turn _ => cases hsome
    · cases hsome
  | start _ | cancel _ | beginTransaction _ | surround _ _ _ | tune _ _ _ | collect _ _ => cases h

/-- Connections are handles of clients, and no pool gives a handle of a client that is still pinned to a
transaction. -/
def Exclusive {γ : Type} (client : Connection → γ) (as : List Action) : Prop :=
  ∀ bs a cs, as = bs ++ a :: cs → ∀ d, left? delivery? (after bs) a = some d → d.drawn = true →
    ∀ t ∈ (after bs).reachable, ∀ b c, (after bs).resources.pinned? t b = some c →
      client c ≠ client d.connection

section
variable {γ : Type} {client : Connection → γ} {as bs : List Action}

theorem Exclusive.initial (h : Exclusive client (as ++ bs)) : Exclusive client as := by
  rintro bs' a cs rfl
  exact h bs' a (cs ++ bs) (by simp)

/-- No connection is given twice: with connections as clients nothing is assumed of the pools. -/
theorem exclusive_id (as : List Action) : Exclusive id as := by
  rintro bs a cs rfl d hd hdrawn t _ b c hc heq
  obtain ⟨d₀, hd₀, hdrawn₀, ht₀, hb₀, rfl⟩ := (ordered_after bs).affine.recorded.pinned t b c hc
  have hsplit : deliveries (bs ++ [a]) = deliveries bs ++ [d] := by
    rw [deliveries, log_snoc, hd]
    rfl
  have hrecorded := (ordered_after (bs ++ [a])).affine.recorded
  rw [hsplit] at hrecorded
  obtain ⟨ht, hb⟩ := (hrecorded.tally d (by simp) d₀ (by simp [hd₀])).apart heq.symm
  -- It would be taken from a pool a second time for this transaction.
  have hold : 0 < ((deliveries bs).filter (Delivery.draws t b)).length :=
    List.length_pos_of_mem (List.mem_filter.2 ⟨hd₀, Delivery.draws_iff.2 ⟨hdrawn₀, ht₀, hb₀⟩⟩)
  have hnew : Delivery.draws t b d = true :=
    Delivery.draws_iff.2 ⟨hdrawn, ht.trans ht₀, hb.trans hb₀⟩
  have honce := hrecorded.once t b
  rw [List.filter_append, List.length_append, List.filter_cons_of_pos hnew, List.length_cons] at honce
  omega

theorem delivery?_of_left? {w : World} {a : Action} {d : Delivery}
    (h : left? delivery? w a = some d) :
    w.crashed = false ∧ ∃ m, a = .move m ∧ w.delivery? m = some d := by
  cases hc : w.crashed with
  | true => simp [left?, hc] at h
  | false =>
    cases a with
    | move m => exact ⟨rfl, m, rfl, by simpa [left?, hc, Action.move?] using h⟩
    | startManager _ _ | closeManager _ | addPool _ _ | closePool _ =>
      simp [left?, hc, Action.move?] at h

/-- What is pinned to a transaction that is not over was pinned before, or was just taken from a pool. -/
theorem pinned_cases {a : Action} {t : TransactionId} {b : String} {c : Connection}
    (hc : (after (as ++ [a])).resources.pinned? t b = some c)
    (ht : ¬ (after (as ++ [a])).resources.Over (after (as ++ [a])).roles t) :
    ((after as).resources.pinned? t b = some c ∧
        ¬ (after as).resources.Over (after as).roles t) ∨
      ∃ d, left? delivery? (after as) a = some d ∧ d.drawn = true ∧ d.transaction = some t ∧
        d.backend = b ∧ d.connection = c := by
  obtain ⟨d, hd, hdrawn, htransaction, hb, hconnection⟩ :=
    (ordered_after (as ++ [a])).affine.recorded.pinned t b c hc
  rw [deliveries, log_snoc, List.mem_append] at hd
  rcases hd with hd | hd
  · left
    obtain ⟨hknown, hcase⟩ := (ordered_after as).affine.recorded.kept d hd t htransaction
    have hnot : ¬ (after as).resources.Over (after as).roles t := fun hover =>
      ht ((lapses_after as [a]).stays t hknown hover)
    have hpinned := hcase.resolve_right hnot
    rw [hb, hconnection] at hpinned
    exact ⟨hpinned, hnot⟩
  · exact .inr ⟨d, Option.mem_toList.1 hd, hdrawn, htransaction, hb, hconnection⟩

/-- The clients that are pinned at a time are different ones. -/
theorem clients_apart (h : Exclusive client as) {t t' : TransactionId} {b b' : String}
    {c c' : Connection} (hc : (after as).resources.pinned? t b = some c)
    (hc' : (after as).resources.pinned? t' b' = some c')
    (ht : ¬ (after as).resources.Over (after as).roles t)
    (ht' : ¬ (after as).resources.Over (after as).roles t') (heq : client c = client c') :
    t = t' ∧ b = b' := by
  induction as using List.reverseRecOn generalizing t t' b b' c c' with
  | nil => cases hc
  | append_singleton as a ih =>
    rcases pinned_cases hc ht with ⟨hold, hover⟩ | ⟨d, hd, hdrawn, htransaction, hb, hconnection⟩ <;>
      rcases pinned_cases hc' ht' with
        ⟨hold', hover'⟩ | ⟨d', hd', hdrawn', htransaction', hb', hconnection'⟩
    · exact ih h.initial hold hold' hover hover' heq
    · refine absurd heq ?_
      rw [← hconnection']
      exact h as a [] rfl d' hd' hdrawn' t (reachable_of_not_over hover) b c hold
    · refine absurd heq.symm ?_
      rw [← hconnection]
      exact h as a [] rfl d hd hdrawn t' (reachable_of_not_over hover') b' c' hold'
    · cases hd.symm.trans hd'
      rw [htransaction] at htransaction'
      exact ⟨Option.some.inj htransaction', hb.symm.trans hb'⟩

/-- Who is given a client that is pinned asks for it, for that transaction. -/
theorem client_isolated (h : Exclusive client as) {a : Action} {cs : List Action}
    (heq : as = bs ++ a :: cs) {t : TransactionId} {b : String} {c : Connection}
    (ht : (after bs).resources.Open t) (hc : (after bs).resources.pinned? t b = some c)
    {d : Delivery} (hd : left? delivery? (after bs) a = some d)
    (hclient : client d.connection = client c) : d.transaction = some t ∧ d.backend = b := by
  have hnot : ¬ (after bs).resources.Over (after bs).roles t := fun hover => hover.1 ht
  cases hdrawn : d.drawn with
  | true =>
    exact absurd hclient.symm (h bs a cs heq d hd hdrawn t (reachable_of_not_over hnot) b c hc)
  | false =>
    obtain ⟨_, m, _, hm⟩ := delivery?_of_left? hd
    obtain ⟨t', ht', hc', hnot'⟩ :=
      pinned_of_not_drawn (ordered_after bs).tended.nodup hm hdrawn
    obtain ⟨rfl, hb⟩ := clients_apart (heq ▸ h).initial hc' hc hnot' hnot hclient
    exact ⟨ht', hb⟩

end

/-! ### Affinity and isolation -/

/-- What holds of the transactions in a run. -/
structure Affinity (as : List Action) : Prop where
  /-- A task replies with connections that were delivered to it, for what it was asked. -/
  supplied : ∀ k call cs, (k, call) ∈ asked as → (k, .connections cs) ∈ answered as →
    cs.length = call.count ∧ ∀ c ∈ cs, ∃ d ∈ deliveries as, d.task = k ∧ d.connection = c ∧
      call.Gets d
  /-- All connections of one transaction and backend are the same, -/
  same : ∀ d ∈ deliveries as, ∀ d' ∈ deliveries as, ∀ t, d.transaction = some t →
    d'.transaction = some t → d.backend = d'.backend → d.connection = d'.connection
  /-- above all those of calls to managers. -/
  repeated : ∀ k k' m m' t b cs cs', (k, .pinned m t b) ∈ asked as → (k', .pinned m' t b) ∈ asked as →
    (k, .connections cs) ∈ answered as → (k', .connections cs') ∈ answered as →
    ∃ c, cs = [c] ∧ cs' = [c]
  /-- It is taken from a pool once. -/
  once : ∀ t b, ((deliveries as).filter (Delivery.draws t b)).length ≤ 1
  /-- Nobody else ever gets it. -/
  isolated : ∀ bs cs, as = bs ++ cs → ∀ t b c, (after bs).resources.pinned? t b = some c →
    ∀ d ∈ deliveries as, d.connection = c → d.transaction = some t ∧ d.backend = b
  /-- If pools give clients again that were given back, nobody else gets its client while the
  transaction is open. -/
  clients : ∀ {γ : Type} (client : Connection → γ), Exclusive client as →
    ∀ bs a cs, as = bs ++ a :: cs → ∀ t b c, (after bs).resources.Open t →
      (after bs).resources.pinned? t b = some c → ∀ d, left? delivery? (after bs) a = some d →
      client d.connection = client c → d.transaction = some t ∧ d.backend = b
  /-- A pool that gives no connection leaves all transactions and pins as they are. -/
  unharmed : ∀ bs k cs, as = bs ++ .move (.goOn k) :: cs → (after bs).crashed = false →
    ∀ held p n t a e,
      (after bs).tasks.lookup k = some (.acquiring held (.gate p n (some t)) a) →
      ((after bs).resources.leavePool (after bs).server p n).2 = .error e →
      (∃ e', (k, .failed e') ∈ answered as) ∧
      (∀ m t', (after (bs ++ [.move (.goOn k)])).resources.isActive m t' =
        (after bs).resources.isActive m t') ∧
      ∀ t' b, (after (bs ++ [.move (.goOn k)])).resources.pinned? t' b =
        (after bs).resources.pinned? t' b
  /-- A transaction leaves the table of its manager when somebody ends it, -/
  settled : ∀ m t, ((after as).act (.move (.start (.settle m t)))).resources.isActive m t = false
  /-- or closes the manager. -/
  closed : ∀ m t, ((after as).act (.closeManager m)).resources.isActive m t = false
  /-- A transaction that was begun and is not in the table of a manager does not come into it any
  more, and all calls for it are refused. -/
  refused : ∀ bs cs, as = bs ++ cs → ∀ m t x, (after bs).resources.managers[m]? = some x →
    t.serial < (after bs).resources.pins.length → (after bs).resources.isActive m t = false →
    (after as).resources.isActive m t = false ∧
    ∀ call, (call = .settle m t ∨ ∃ b, call = .pinned m t b) →
      (after as).reply? (.start call) = some ((after as).started, .failed (x.notActive t)) ∧
      ((after as).act (.move (.start call))).resources = (after as).resources

theorem supplied {as : List Action} {k : TaskId} {call : Call} {cs : List Connection}
    (hcall : (k, call) ∈ asked as) (hanswer : (k, .connections cs) ∈ answered as) :
    cs.length = call.count ∧ ∀ c ∈ cs, ∃ d ∈ deliveries as, d.task = k ∧ d.connection = c ∧
      call.Gets d := by
  have htended := (ordered_after as).tended
  obtain ⟨call', hcall', hlength, hall⟩ := htended.answers k cs hanswer
  cases htended.unique hcall hcall'
  refine ⟨hlength, fun c hc => ?_⟩
  obtain ⟨d, hd, rfl, hconnection⟩ := hall c hc
  obtain ⟨call'', hcall'', hgets⟩ := htended.gets d hd
  cases htended.unique hcall hcall''
  exact ⟨d, hd, rfl, hconnection, hgets⟩

/-- The reply to a call for the connection of a transaction. -/
theorem supplied_pinned {as : List Action} {k : TaskId} {m : ManagerId} {t : TransactionId}
    {b : String} {cs : List Connection} (hcall : (k, .pinned m t b) ∈ asked as)
    (hanswer : (k, .connections cs) ∈ answered as) :
    ∃ d ∈ deliveries as, cs = [d.connection] ∧ d.transaction = some t ∧ d.backend = b := by
  obtain ⟨hlength, hall⟩ := supplied hcall hanswer
  obtain ⟨c, rfl⟩ := List.length_eq_one_iff.1 hlength
  obtain ⟨d, hd, _, rfl, hb, ht⟩ := hall c List.mem_cons_self
  exact ⟨d, hd, rfl, ht, hb⟩

/-- Whatever happens to the world, its transactions keep their connections to themselves. -/
theorem affinity (as : List Action) : Affinity as where
  supplied _ _ _ := supplied
  same d hd d' hd' := ((ordered_after as).affine.recorded.tally d hd d' hd').same
  repeated k k' m m' t b cs cs' hcall hcall' hanswer hanswer' := by
    obtain ⟨d, hd, rfl, ht, hb⟩ := supplied_pinned hcall hanswer
    obtain ⟨d', hd', rfl, ht', hb'⟩ := supplied_pinned hcall' hanswer'
    have hsame := ((ordered_after as).affine.recorded.tally d hd d' hd').same t ht ht'
      (hb.trans hb'.symm)
    exact ⟨d.connection, rfl, by rw [hsame]⟩
  once := (ordered_after as).affine.recorded.once
  isolated bs cs heq t b c hc d hd hconnection := by
    obtain ⟨d₀, hd₀, _, ht, hb, hc₀⟩ := (ordered_after bs).affine.recorded.pinned t b c hc
    have hmem : d₀ ∈ deliveries as := heq ▸ mem_log_append delivery? hd₀ cs
    obtain ⟨ht', hb'⟩ := ((ordered_after as).affine.recorded.tally d hd d₀ hmem).apart
      (hconnection.trans hc₀.symm)
    exact ⟨ht'.trans ht, hb'.trans hb⟩
  clients _ h _ _ _ heq _ _ _ ht hc _ hd hclient := client_isolated h heq ht hc hd hclient
  unharmed bs k cs heq hc held p n t a e hs he := by
    obtain ⟨⟨e', hreply⟩, hactive, hpinned⟩ := gate_error hs he
    have hafter : after (bs ++ [.move (.goOn k)]) = (after bs).move (.goOn k) := by
      rw [after_snoc]
      simp [hc, act]
    have hanswered : (k, .failed e') ∈ answered (bs ++ [.move (.goOn k)]) := by
      rw [answered, log_snoc]
      simp [left?, hc, Action.move?, hreply]
    have hmem := mem_log_append reply? hanswered cs
    rw [List.append_assoc] at hmem
    exact ⟨⟨e', heq ▸ hmem⟩, hafter ▸ hactive, hafter ▸ hpinned⟩
  settled m t := settle_inactive (after as) m t
  closed m t := closeManager_inactive (ordered_after as).affine m t
  refused bs cs heq m t x hx hbegun ht := by
    subst heq
    have hlapses := (lapses_after bs cs).resources
    have hnot : (after (bs ++ cs)).resources.isActive m t = false := by
      cases hactive : (after (bs ++ cs)).resources.isActive m t with
      | false => rfl
      | true =>
        rw [hlapses.active m t (Resources.mutex?_ne_none_iff.2 hbegun) hactive] at ht
        cases ht
    obtain ⟨y, hy, hages⟩ := hlapses.managers m x hx
    have hfault : y.notActive t = x.notActive t := by rw [Manager.notActive, hages.1.1]; rfl
    exact ⟨hnot, fun call hcall => hfault ▸ start_refused hy hnot hcall⟩

/-- Two tasks ask for the connection of a transaction, and a third one ends it, while the pool is
awaited. -/
def overlapped : List Action :=
  [.addPool "b0" { url := "postgresql://host/d0" }, .startManager .xa (OrderedMap.empty.insert "b0" 0),
    .move (.beginTransaction 0), .move (.start (.pinned 0 ⟨0⟩ "b0")),
    .move (.start (.pinned 0 ⟨0⟩ "b0")), .move (.goOn 0), .move (.start (.settle 0 ⟨0⟩)),
    .move (.start (.pinned 0 ⟨0⟩ "b0")), .move (.goOn 0), .move (.goOn 1), .move (.goOn 2)]

/-- Both get the same connection, and a fourth one is refused. -/
example : answered overlapped =
    [(3, .failed (.transaction
        "XA transaction 00000000-0000-0000-0000-000000000000 is not active")),
      (0, .connections [⟨0, 1⟩]), (1, .connections [⟨0, 1⟩]), (2, .settled)] := rfl

end World

end ShardRegistry
