import ShardRegistry.Proofs.Tasks

/-! Whole runs. The invariant of a world says of every task that it is in order, of the tasks together
that those with the same pool are under the same lock, and of the registry that it keeps custody. Each
move preserves it, so it holds after any list of moves that does not end in a crash. -/
namespace ShardRegistry

namespace Registry

theorem resolve_ok {s : Snapshot} {schema backend : String} {c : SchemaContext} {p : PoolId}
    (h : resolve s schema backend = .ok (c, p)) :
    s.holdings.find? schema = some c.holding ∧
      (c.dataSources.find? backend).map (·.pool) = some p := by
  simp only [resolve] at h
  split at h
  · cases h
  · rename_i c' hc
    split at h
    · cases h
    · rename_i d hd
      cases h
      exact ⟨Snapshot.find?_of_schema? hc, by simp [hd]⟩

theorem pool?_of_resolve {s : Snapshot} {schema backend : String} {c : SchemaContext} {p : PoolId}
    (h : resolve s schema backend = .ok (c, p)) : s.holdings.pool? schema backend = some p := by
  obtain ⟨hf, hp⟩ := resolve_ok h
  simpa [Holdings.pool?, hf, SchemaContext.holding] using hp

/-- The managers of a published schema are those of its engine. -/
theorem Keeps.managers {g : Registry} {ps es : List Nat} (h : g.Keeps ps es) {schema : String}
    {c : SchemaContext} (hf : g.current.holdings.find? schema = some c.holding) :
    ∃ x, g.resources.engines[c.engine]? = some x ∧
      (∀ kind, g.managerOf? c kind = x.manager? kind) ∧
      ∀ kind m, x.manager? kind = some m →
        ∃ y, g.resources.managers[m]? = some y ∧ y.pools = c.dataSources.pools := by
  obtain ⟨x, hx, hmanagers⟩ := h.wired schema _ hf
  have hx : g.resources.engines[c.engine]? = some x := hx
  refine ⟨x, hx, fun kind => by simp [managerOf?, hx], fun kind m hm => ?_⟩
  obtain ⟨y, hy, _, hpools⟩ := hmanagers kind m hm
  exact ⟨y, hy, hpools⟩

/-- What a request comes to: it takes the published pool, and the manager of the published schema. -/
theorem admit_cases {g : Registry} {ps es : List Nat} (hk : g.Keeps ps es) {q : AcquireRequest}
    {a : Acquisition} (h : g.admit q = .ok a) :
    ∃ p, a.source.pool? = some p ∧ g.current.holdings.pool? q.schema q.backend = some p ∧
      (∀ l, g.lockTable.lookup (q.schema, q.backend) = some l →
        g.Backs (q.schema, q.backend) l a) ∧ g.Serves q a := by
  simp only [ Registry.admit, bind, Except.bind] at h
  split at h
  · cases h
  · rename_i x hr
    obtain ⟨c, p⟩ := x
    obtain ⟨hf, hp⟩ := resolve_ok hr
    have hslot := pool?_of_resolve hr
    obtain ⟨y, hy, _⟩ := hk.closing_of_pool? hslot
    have hlt : p < g.resources.pools.length := (List.getElem?_eq_some_iff.1 hy).1
    obtain ⟨x, hx, hkinds, hmanagers⟩ := hk.managers hf
    simp only [pure, Except.pure, Except.ok.injEq] at h
    subst h
    refine ⟨p, ?_, hslot, fun l hl => ⟨rfl, ⟨p, ?_, hlt, .inr ⟨hslot, hl⟩⟩, ?_⟩, ?_, ?_⟩
    · simp only
      split <;> rfl
    · simp only
      split <;> rfl
    · intro m t otherwise hsource
      simp only at hsource
      split at hsource
      · rename_i hm
        cases hsource
        obtain ⟨y, hy, hpools⟩ := hmanagers q.kind m ((hkinds q.kind).symm.trans hm)
        refine ⟨y, hy, ?_⟩
        rw [hpools, DataSourceMap.pools, OrderedMap.find?_map]
        exact hp
      · cases hsource
    · rw [hkinds]
      cases q.kind <;> cases q.transaction <;> rfl
    · intro m t otherwise hsource
      simp only at hsource
      split at hsource
      · rename_i hm
        cases hsource
        exact ⟨_, x, hx, (hkinds q.kind).symm.trans hm, .inr ⟨_, hf, rfl⟩⟩
      · cases hsource

theorem admit_lockFor (g : Registry) (schema backend : String) (q : AcquireRequest) :
    Registry.admit (g.lockFor schema backend).1 q = g.admit q := by
  simp only [lockFor]
  split <;> rfl

end Registry

namespace World

/-- What the tasks built and did not publish yet. -/
def inHand (w : World) : List PoolId := w.tasks.flatMap (·.2.pools)

def enginesInHand (w : World) : List EngineId := w.tasks.flatMap (·.2.engines)

structure Sound (keys : List (String × String)) (w : World) : Prop where
  nodup : (w.tasks.map (·.1)).Nodup
  started : ∀ e ∈ w.tasks, e.1 < w.started
  keyed : keys.length = w.resources.locks.length
  table : ∀ e ∈ w.registry.lockTable, keys[e.2]? = some e.1
  /-- Besides what the tasks have in hand, cancelled changes may have left something open. -/
  keeps : ∃ ps es, w.registry.Keeps (w.inHand ++ ps) (w.enginesInHand ++ es)
  fine : ∀ e ∈ w.tasks, w.Fine keys e.1 e.2
  alike : ∀ e ∈ w.tasks, ∀ e' ∈ w.tasks, ∀ l source l' source', e.2.bond? = some (l, source) →
    e'.2.bond? = some (l', source') → source.pool? = source'.pool? → l = l'

namespace Sound
variable {keys : List (String × String)} {w w' : World} {t : TaskId} {s : TaskState}

theorem start : Sound [] {} where
  nodup := List.nodup_nil
  started _ he := absurd he List.not_mem_nil
  keyed := rfl
  table _ he := absurd he List.not_mem_nil
  keeps := by
    refine ⟨[], [], ⟨?_, nofun, nofun⟩⟩
    exact (Resources.Custody.start {}).of_eq rfl rfl rfl rfl (List.prefix_refl _)
  fine _ he := absurd he List.not_mem_nil
  alike _ he := absurd he List.not_mem_nil

/-- A calm step by a task that is not among those of the world. -/
theorem calm (h : Sound keys w) (hc : w.Calm w' t) (ht : ∀ e ∈ w.tasks, e.1 ≠ t) :
    Sound keys w' where
  nodup := hc.tasks ▸ h.nodup
  started e he := hc.started ▸ h.started e (hc.tasks ▸ he)
  keyed := h.keyed.trans hc.locks.symm
  table e he := h.table e (hc.table he)
  keeps := by
    obtain ⟨ps, es, hk⟩ := h.keeps
    refine ⟨ps, es, ?_⟩
    rw [inHand, enginesInHand, hc.tasks]
    exact hc.keeps _ _ hk
  fine e he := by
    rw [hc.tasks] at he
    exact (h.fine e he).spares hc.spares (ht e he) (List.prefix_refl _)
  alike := by
    rw [hc.tasks]
    exact h.alike

/-- A task is taken out of the world; what it had in hand stays accounted for. -/
theorem without (h : Sound keys w) (hs : w.tasks.lookup t = some s) :
    Sound keys (w.without t) ∧ (w.without t).Fine keys t s ∧ t < w.started ∧
      (∃ ps es, (w.without t).registry.Keeps (s.pools ++ ((w.without t).inHand ++ ps))
        (s.engines ++ ((w.without t).enginesInHand ++ es))) ∧
      ∀ l source, s.bond? = some (l, source) → ∀ e ∈ (w.without t).tasks, ∀ l' source',
        e.2.bond? = some (l', source') → source.pool? = source'.pool? → l = l' := by
  have hperm := perm_of_lookup h.nodup hs
  have hmem := (lookup_some_iff h.nodup t s).1 hs
  have hsub : (w.without t).tasks ⊆ w.tasks := List.filter_sublist.subset
  obtain ⟨ps, es, hk⟩ := h.keeps
  have hpools : w.inHand.Perm (s.pools ++ (w.without t).inHand) := hperm.flatMap_right _
  have hengines : w.enginesInHand.Perm (s.engines ++ (w.without t).enginesInHand) :=
    hperm.flatMap_right _
  have hk' := hk.perm (hpools.append_right ps) (hengines.append_right es)
  rw [List.append_assoc, List.append_assoc] at hk'
  refine ⟨⟨?_, ?_, h.keyed, h.table, ?_, ?_, ?_⟩, h.fine _ hmem, h.started _ hmem,
    ⟨ps, es, hk'⟩, ?_⟩
  · exact h.nodup.sublist (List.filter_sublist.map _)
  · exact fun e he => h.started e (hsub he)
  · refine ⟨s.pools ++ ps, s.engines ++ es, hk'.perm ?_ ?_⟩
    · exact List.perm_append_comm_assoc _ _ _
    · exact List.perm_append_comm_assoc _ _ _
  · exact fun e he => h.fine e (hsub he)
  · exact fun e he e' he' => h.alike e (hsub he) e' (hsub he')
  · exact fun l x hl e he l' x' hl' hsame => h.alike _ hmem e (hsub he) l x l' x' hl hl' hsame

/-- A task is put down where a part of it left it. -/
theorem put {x : World × Next} {ps es qs fs : List Nat} {bond : Option (LockId × Source)}
    (h : Sound keys w) (ht : ∀ e ∈ w.tasks, e.1 ≠ t) (hlt : t < w.started)
    (hk : w.registry.Keeps (ps ++ (w.inHand ++ qs)) (es ++ (w.enginesInHand ++ fs)))
    (ha : w.Advances keys t ps es bond x)
    (hbond : ∀ l source, bond = some (l, source) → ∀ e ∈ w.tasks, ∀ l' source',
      e.2.bond? = some (l', source') → source.pool? = source'.pool? → l = l')
    (hc : x.2 ≠ .crashes) : Sound keys (World.put t x) := by
  have hkeeps := ha.keeps _ _ hk
  have hfine : ∀ e ∈ w.tasks, x.1.Fine keys e.1 e.2 := fun e he =>
    (h.fine e he).spares ha.spares (ht e he) (List.prefix_refl _)
  have hkeyed := h.keyed.trans ha.locks.symm
  have htable : ∀ e ∈ x.1.registry.lockTable, keys[e.2]? = some e.1 := fun e he =>
    h.table e (ha.table he)
  have hstands : ∀ s, x.2.state? = some s →
      Sound keys { x.1 with tasks := x.1.tasks ++ [(t, s)] } := by
    intro s hs
    rw [ha.tasks]
    refine ⟨?_, ?_, hkeyed, htable, ⟨qs, fs, ?_⟩, ?_, ?_⟩
    · simp only [List.map_append, List.map_cons, List.map_nil]
      refine List.nodup_append'.2 ⟨h.nodup, List.nodup_singleton t, ?_⟩
      rw [List.disjoint_singleton]
      intro hmem
      obtain ⟨e, he, rfl⟩ := List.mem_map.1 hmem
      exact ht e he rfl
    · intro e he
      have hstarted : x.1.started = w.started := ha.started
      rcases List.mem_append.1 he with he | he
      · exact hstarted ▸ h.started e he
      · rw [List.mem_singleton.1 he]
        exact hstarted ▸ hlt
    · have hpools : (s.pools ++ (w.inHand ++ qs)).Perm
          ((w.tasks ++ [(t, s)]).flatMap (·.2.pools) ++ qs) := by
        rw [← List.append_assoc, List.flatMap_append]
        exact List.Perm.append_right qs (by simpa [inHand] using List.perm_append_comm)
      have hengines : (s.engines ++ (w.enginesInHand ++ fs)).Perm
          ((w.tasks ++ [(t, s)]).flatMap (·.2.engines) ++ fs) := by
        rw [← List.append_assoc, List.flatMap_append]
        exact List.Perm.append_right fs (by simpa [enginesInHand] using List.perm_append_comm)
      simp only [Next.pools, Next.engines, hs] at hkeeps
      exact hkeeps.perm hpools hengines
    · intro e he
      rcases List.mem_append.1 he with he | he
      · exact hfine e he
      · rw [List.mem_singleton.1 he]
        exact ha.fine s hs
    · intro e he e' he' l x₁ l' x₂ hl hl' hsame
      have hs' := ha.bonds s hs
      rcases List.mem_append.1 he with he | he <;> rcases List.mem_append.1 he' with he' | he'
      · exact h.alike e he e' he' l x₁ l' x₂ hl hl' hsame
      · rw [List.mem_singleton.1 he', hs'] at hl'
        exact (hbond l' x₂ hl' e he l x₁ hl hsame.symm).symm
      · rw [List.mem_singleton.1 he, hs'] at hl
        exact hbond l x₁ hl e' he' l' x₂ hl' hsame
      · rw [List.mem_singleton.1 he] at hl
        rw [List.mem_singleton.1 he', hl] at hl'
        cases hl'
        rfl
  obtain ⟨w', next⟩ := x
  cases next with
  | waits s => exact hstands s rfl
  | passes s => exact hstands s rfl
  | crashes => exact absurd rfl hc
  | ends o =>
    have htasks : w'.tasks = w.tasks := ha.tasks
    have hstarted : w'.started = w.started := ha.started
    refine ⟨?_, ?_, hkeyed, htable, ⟨qs, fs, ?_⟩, ?_, ?_⟩
    · exact htasks ▸ h.nodup
    · exact fun e he => hstarted ▸ h.started e (htasks ▸ he)
    · rw [inHand, enginesInHand]
      simp only [World.put, World.settle, htasks]
      exact hkeeps
    · exact fun e he => hfine e (htasks ▸ he)
    · simp only [World.put, World.settle, htasks]
      exact h.alike

/-! ### Locks that are made -/

theorem fine_backs {keys : List (String × String)} {w : World} {t : TaskId} {s : TaskState}
    {l : LockId} {a : Acquisition} (h : w.Fine keys t s) (hs : s.shared? = some (l, a)) :
    ∃ k, keys[l]? = some k ∧ w.registry.Backs k l a := by
  cases s with
  | lock q l' a' =>
    cases hs
    exact ⟨_, h.1, h.2.1⟩
  | acquiring held stage a' =>
    cases held with
    | none => cases hs
    | some l' =>
      cases hs
      exact h.1
  | settling _ => cases hs
  | turn _ => cases hs
  | loading _ _ _ => cases hs

theorem lockFor (h : Sound keys w) (schema backend : String) :
    ∃ keys', keys <+: keys' ∧
      Sound keys' { w with registry := (w.registry.lockFor schema backend).1 } ∧
      keys'[(w.registry.lockFor schema backend).2]? = some (schema, backend) ∧
      (w.registry.lockFor schema backend).1.lockTable.lookup (schema, backend) =
        some (w.registry.lockFor schema backend).2 := by
  cases hl : w.registry.lockTable.lookup (schema, backend) with
  | some l =>
    simp only [Registry.lockFor, hl]
    refine ⟨keys, List.prefix_refl _, h, ?_, trivial⟩
    obtain ⟨_, _, htable, _⟩ := List.lookup_eq_some_iff.1 hl
    exact h.table ((schema, backend), l) (by simp [htable])
  | none =>
    simp only [Registry.lockFor, hl]
    generalize hw' : ({ w with registry := { w.registry with
      resources := { w.registry.resources with
        locks := w.registry.resources.locks ++ [({} : Mutex)] },
      lockTable := w.registry.lockTable ++ [((schema, backend),
        w.registry.resources.locks.length)] } } : World) = w'
    have hlocks : w'.resources.locks = w.resources.locks ++ [({} : Mutex)] := by
      rw [← hw']
      rfl
    have hspares : w.Spares w' w.started := by
      refine ⟨?_, ?_, ?_⟩
      · rw [← hw']
        refine .locks rfl ⟨_, rfl⟩ fun k p l _ hk => ?_
        rw [List.lookup_append, hk]
        rfl
      · intro l t' _ hholds
        rw [holdsLock_iff] at hholds ⊢
        obtain ⟨m, hm, hholder⟩ := hholds
        refine ⟨m, ?_, hholder⟩
        rw [hlocks, List.getElem?_append_left (List.getElem?_eq_some_iff.1 hm).1, hm]
      · intro t' _ hwriter
        rw [← hw']
        exact ⟨hwriter, rfl⟩
    have hprefix : keys <+: keys ++ [(schema, backend)] := List.prefix_append _ _
    have hnew : (keys ++ [(schema, backend)])[w.registry.resources.locks.length]? =
        some (schema, backend) := by
      have hkeyed : keys.length = w.registry.resources.locks.length := h.keyed
      simp [← hkeyed]
    refine ⟨keys ++ [(schema, backend)], hprefix, ⟨?_, ?_, ?_, ?_, ?_, ?_, ?_⟩, hnew, ?_⟩
    · rw [← hw']
      exact h.nodup
    · rw [← hw']
      exact h.started
    · rw [hlocks, List.length_append, List.length_append, h.keyed]
      rfl
    · intro e he
      rw [← hw'] at he
      rcases List.mem_append.1 he with he | he
      · have hkey := h.table e he
        rw [List.getElem?_append_left (List.getElem?_eq_some_iff.1 hkey).1, hkey]
      · rw [List.mem_singleton.1 he]
        exact hnew
    · obtain ⟨ps, es, hk⟩ := h.keeps
      refine ⟨ps, es, ?_⟩
      rw [← hw']
      exact hk.of_holdings rfl rfl rfl rfl rfl
    · intro e he
      rw [← hw'] at he
      exact (h.fine e he).spares hspares (Nat.ne_of_lt (h.started e he)) hprefix
    · rw [← hw']
      exact h.alike
    · rw [List.lookup_append, hl]
      simp

/-- A request that takes the lock of a published schema and backend, or waits for it. -/
theorem beginShared (h : Sound keys w) (ht : ∀ e ∈ w.tasks, e.1 ≠ t) (hlt : t < w.started)
    {q : AcquireRequest} {a : Acquisition} (ha : w.registry.admit q = .ok a) (hcount : q.count ≠ 0)
    (hmode : q.mode = .sharedMemory) :
    ∃ keys', keys <+: keys' ∧ Sound keys' (World.put t (w.beginAcquire t q)) := by
  obtain ⟨keys', hprefix, hsound, hkey, hlookup⟩ := h.lockFor q.schema q.backend
  refine ⟨keys', hprefix, ?_⟩
  simp only [World.beginAcquire, ha, hcount, if_false, hmode]
  generalize hg : w.registry.lockFor q.schema q.backend = x at *
  have hadmit : Registry.admit x.1 q = .ok a := by
    rw [← hg, Registry.admit_lockFor]
    exact ha
  obtain ⟨ps, es, hk⟩ := hsound.keeps
  obtain ⟨p, hp, hslot, hbacks, hserves⟩ := Registry.admit_cases hk hadmit
  have hcalm : World.Calm { w with registry := x.1 }
      (World.modifyLock { w with registry := x.1 } x.2 (·.request t)) t := by
    refine .modifyLock _ _ fun m t' _ _ hholder => ?_
    simp [Mutex.request, Mutex.isFree, hholder]
  have hstands : ∀ next : Next, next.state? = some (.lock q x.2 a) →
      World.Advances keys' { w with registry := x.1 } t [] [] (some (x.2, a.source))
        (World.modifyLock { w with registry := x.1 } x.2 (·.request t), next) := by
    intro next hnext
    refine .of_calm hcalm (by simp [Next.pools, hnext, TaskState.pools])
      (by simp [Next.engines, hnext, TaskState.engines]) ?_ ?_
    · intro s hs
      rw [hnext] at hs
      cases hs
      exact ⟨hkey, (hbacks _ hlookup).follows hcalm.spares.follows,
        hserves.follows hcalm.spares.follows⟩
    · intro s hs
      rw [hnext] at hs
      cases hs
      rfl
  -- the pool is open, so whoever else takes from it is under the lock of the table
  have hbond : ∀ l source, some (x.2, a.source) = some (l, source) → ∀ e ∈ w.tasks,
      ∀ l' source', e.2.bond? = some (l', source') → source.pool? = source'.pool? → l = l' := by
    rintro _ _ ⟨⟩ e he l' source' hl' hsame
    obtain ⟨a', hshared, rfl⟩ := TaskState.bond?_eq_some hl'
    obtain ⟨k', _, hb⟩ := fine_backs (hsound.fine e he) hshared
    obtain ⟨y, hy, hclosing⟩ := hk.closing_of_pool? hslot
    have hopen : y.isClosed = false := congrArg (·.1) hclosing
    obtain ⟨hslot', hl⟩ := hb.slot_of_open (hsame.symm.trans hp) hy hopen
    have hkk : k' = (q.schema, q.backend) := Holdings.pool?_injective hk.nodup_pools hslot' hslot
    subst hkk
    rw [hlookup] at hl
    exact Option.some.inj hl
  split
  · exact hsound.put ht hlt hk (hstands _ rfl) hbond (by simp)
  · exact hsound.put ht hlt hk (hstands _ rfl) hbond (by simp)

/-! ### Moves -/

theorem not_crashes {x : World × Next} (h : (World.put t x).crashed = false) : x.2 ≠ .crashes := by
  obtain ⟨w', next⟩ := x
  rintro rfl
  cases h

/-- A task is started. -/
theorem begin (h : Sound keys w) (call : Call)
    (hc : (World.put w.started ({ w with started := w.started + 1 }.begin w.started call)).crashed =
      false) :
    ∃ keys', keys <+: keys' ∧
      Sound keys' (World.put w.started ({ w with started := w.started + 1 }.begin w.started call)) := by
  have hcrash := not_crashes hc
  generalize hw₁ : ({ w with started := w.started + 1 } : World) = w₁ at *
  have h₁ : Sound keys w₁ := by
    rw [← hw₁]
    exact ⟨h.nodup, fun e he => Nat.lt_succ_of_lt (h.started e he), h.keyed, h.table, h.keeps,
      h.fine, h.alike⟩
  have ht : ∀ e ∈ w₁.tasks, e.1 ≠ w.started := by
    rw [← hw₁]
    exact fun e he => Nat.ne_of_lt (h.started e he)
  have hlt : w.started < w₁.started := by
    rw [← hw₁]
    exact Nat.lt_succ_self _
  obtain ⟨ps, es, hk⟩ := h₁.keeps
  have hput : w₁.Advances keys w.started [] [] none (w₁.begin w.started call) →
      ∃ keys', keys <+: keys' ∧ Sound keys' (World.put w.started (w₁.begin w.started call)) :=
    fun ha => ⟨keys, List.prefix_refl _, h₁.put ht hlt hk ha (fun _ _ hp => by cases hp) hcrash⟩
  cases call with
  | acquire q =>
    by_cases hshared : ∃ a, w₁.registry.admit q = .ok a ∧ q.count ≠ 0 ∧ q.mode = .sharedMemory
    · obtain ⟨a, ha, hcount, hmode⟩ := hshared
      exact h₁.beginShared ht hlt ha hcount hmode
    · refine hput (.beginAcquire w₁ q fun a ha => ?_)
      by_cases hcount : q.count = 0
      · exact .inl hcount
      · cases hmode : q.mode with
        | strictPerConnection => exact .inr rfl
        | sharedMemory => exact absurd ⟨a, ha, hcount, hmode⟩ hshared
  | event event => exact hput (.beginEvent w₁ event)
  | close => exact hput (.beginChange w₁ .close)
  | pinned m transaction backend => exact hput (.beginPinned w₁ m transaction backend)
  | settle m transaction => exact hput (.beginSettle w₁ m transaction)

theorem ne_of_mem_without {w : World} {t : TaskId} : ∀ e ∈ (w.without t).tasks, e.1 ≠ t := by
  intro e he
  simpa using (List.mem_filter.1 he).2

/-- Where a task stands that may go on and does so. -/
theorem advances (h : Sound keys w) (hs : w.tasks.lookup t = some s) (hgo : w.mayGoOn t s = true)
    (hc : ((w.without t).advance t s).2 ≠ .crashes) :
    (w.without t).Advances keys t s.pools s.engines s.bond? ((w.without t).advance t s) := by
  obtain ⟨_, hf, _, ⟨ps, es, hk⟩, _⟩ := h.without hs
  have hgo' : (w.without t).mayGoOn t s = true := hgo
  exact .advance hf hgo' hk hc

theorem goOn (h : Sound keys w) (hs : w.tasks.lookup t = some s) (hgo : w.mayGoOn t s = true)
    (hc : (World.put t ((w.without t).advance t s)).crashed = false) :
    Sound keys (World.put t ((w.without t).advance t s)) := by
  obtain ⟨hrest, _, hlt, ⟨ps, es, hk⟩, halike⟩ := h.without hs
  have hcrash := not_crashes hc
  exact hrest.put ne_of_mem_without hlt hk (h.advances hs hgo hcrash) halike hcrash

theorem move (h : Sound keys w) (m : Move) (hc : (w.move m).crashed = false) :
    ∃ keys', keys <+: keys' ∧ Sound keys' (w.move m) := by
  cases m with
  | start call => exact h.begin call hc
  | goOn t =>
    refine ⟨keys, List.prefix_refl _, ?_⟩
    simp only [World.move] at hc ⊢
    split
    · exact h
    · rename_i s hs
      simp only [hs] at hc
      split
      · rename_i hgo
        simp only [hgo, if_true] at hc
        exact h.goOn hs hgo hc
      · exact h
  | cancel t =>
    refine ⟨keys, List.prefix_refl _, ?_⟩
    simp only [World.move]
    split
    · exact h
    · rename_i s hs
      obtain ⟨hrest, hf, _⟩ := h.without hs
      exact hrest.calm (.withdraw hf) ne_of_mem_without
  | beginTransaction m =>
    exact ⟨keys, List.prefix_refl _, h.calm (.steady (.beginTransaction _ m))
      fun e he => Nat.ne_of_lt (h.started e he)⟩
  | surround factory tables server =>
    exact ⟨keys, List.prefix_refl _, ⟨h.nodup, h.started, h.keyed, h.table, h.keeps, h.fine, h.alike⟩⟩
  | tune p gate refused =>
    exact ⟨keys, List.prefix_refl _, h.calm (.steady (.modifyPool _ p fun _ => rfl))
      fun e he => Nat.ne_of_lt (h.started e he)⟩
  | collect outcomes holds =>
    exact ⟨keys, List.prefix_refl _, ⟨h.nodup, h.started, h.keyed, h.table, h.keeps, h.fine, h.alike⟩⟩

/-- A world that has not crashed in the end never did. -/
theorem not_crashed_of_play {moves : List Move} (h : (w.play moves).crashed = false) :
    w.crashed = false := by
  induction moves generalizing w with
  | nil => exact h
  | cons m moves ih =>
    by_cases hw : w.crashed = true
    · have hstill := ih (w := if w.crashed then w else w.move m) h
      simp [hw] at hstill
    · simpa using hw

theorem play (h : Sound keys w) (moves : List Move) (hc : (w.play moves).crashed = false) :
    ∃ keys', keys <+: keys' ∧ Sound keys' (w.play moves) := by
  induction moves generalizing w keys with
  | nil => exact ⟨keys, List.prefix_refl _, h⟩
  | cons m moves ih =>
    have hw := not_crashed_of_play hc
    have hplay : w.play (m :: moves) = (w.move m).play moves := by
      simp [World.play, hw]
    rw [hplay] at hc ⊢
    obtain ⟨keys₁, hprefix₁, h₁⟩ := h.move m (not_crashed_of_play hc)
    obtain ⟨keys₂, hprefix₂, h₂⟩ := ih h₁ hc
    exact ⟨keys₂, hprefix₁.trans hprefix₂, h₂⟩

end Sound

end World

end ShardRegistry
