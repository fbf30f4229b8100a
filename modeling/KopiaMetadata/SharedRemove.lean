import KopiaMetadata.RemoveMany

/-!
# `RemoveMany` while the storage changes

`RemoveMany` holds nothing across its removers: each `Remove` deletes from the cache as it is when
the remover runs, and between two removals other goroutines of the program (a `Put`, a `Remove` or a
`RefreshCache` on the same manager) or other clients of the repository may change the storage.
Here the steps of `RemoveMany`'s goroutines interleave with writes by anyone else, each of which
leaves the store as it likes, and the state carries, as a ghost, the store the call started on and
every store written since, oldest first.

The pool's bookkeeping (`Shape`) never looks at the cache, so it holds here as on a cache nothing
else changes: no panic, no deadlock, finitely many steps of the call's own goroutines, and each
occurrence removed exactly once. What a `Remove` returns depends only on the item ID and on which
blocks fail, and the call's own deletions leave those as they were: each call returned what `Remove`
returns on one of the stores the call saw (`SharedInv`), so the call fails exactly as it does on
those stores. But the call is not atomic: a store written after one of its removals is what the
call leaves, even when it returns nil (`SharedReturns.rewritten`).
-/

namespace KopiaMetadata.RemoveMany

variable {k : Nat}

/-- `RemoveMany`'s goroutines with the cache they share, and the stores the call saw: the one it
started on and every one someone else wrote. -/
structure Shared (k : Nat) where
  pool : Pool k
  seen : List Cache

/-- One step while `RemoveMany` runs: one of its goroutines moves, or someone else writes the
store. -/
inductive SharedEvent (k : Nat) where
  | pool (e : Event k)
  | write (store : Cache)

/-- The goroutines as `RemoveMany` starts them on the cache `c`. -/
def Shared.init (k : Nat) (itemIDs : List String) (c : Cache) : Shared k :=
  ⟨RemoveMany.init k itemIDs c, [c]⟩

/-- One step, if it is enabled. A `Remove` deletes from the store as it is now. -/
def sharedStep (n : Nat) (x : Shared k) : SharedEvent k → Option (Shared k)
  | .pool e => (step n x.pool e).map fun s => ⟨s, x.seen⟩
  | .write c =>
    if x.pool.crash = none then some ⟨{ x.pool with store := c }, x.seen ++ [c]⟩ else none

section Steps

variable {n : Nat} {x x' : Shared k}

theorem sharedStep_pool {e : Event k} (h : sharedStep n x (.pool e) = some x') :
    ∃ s', step n x.pool e = some s' ∧ x' = ⟨s', x.seen⟩ := by
  simp only [sharedStep, Option.map_eq_some'] at h
  obtain ⟨s', hs', rfl⟩ := h
  exact ⟨s', hs', rfl⟩

theorem sharedStep_write {c : Cache} (h : sharedStep n x (.write c) = some x') :
    x.pool.crash = none ∧ x' = ⟨{ x.pool with store := c }, x.seen ++ [c]⟩ := by
  simp only [sharedStep] at h
  split at h
  · exact ⟨‹_›, (Option.some.inj h).symm⟩
  · cases h

theorem sharedStep_of_step {e : Event k} {s' : Pool k} (h : step n x.pool e = some s') :
    sharedStep n x (.pool e) = some ⟨s', x.seen⟩ := by
  simp [sharedStep, h]

/-- A run of the goroutines alone, from a state a run with writes reaches, is part of such a run. -/
theorem reachable_lift {c : Cache} {itemIDs : List String} {t : Pool k}
    (hx : Reachable (sharedStep n) (Shared.init k itemIDs c) x)
    (h : Reachable (step n) x.pool t) :
    Reachable (sharedStep n) (Shared.init k itemIDs c) ⟨t, x.seen⟩ := by
  induction h with
  | start => exact hx
  | step e _ he ih => exact ih.step (.pool e) (by simp [sharedStep, he])

end Steps

/-! ### The invariant -/

/-- What holds in every state a run with writes reaches: the pool's bookkeeping, the blocks that
fail are those of a store the call saw, and each `Remove` call returned what `Remove` returns on
one of them. -/
structure SharedInv (itemIDs : List String) (x : Shared k) : Prop where
  shape : Shape itemIDs x.pool
  failing : ∃ c ∈ x.seen, x.pool.store.failing = c.failing
  results : ∀ y ∈ x.pool.calls, ∃ c ∈ x.seen, y.2 = errorOf (Manager.remove c y.1.2)

theorem sharedInv_init (itemIDs : List String) (c : Cache) :
    SharedInv itemIDs (Shared.init k itemIDs c) where
  shape := (inv_init itemIDs c).toShape
  failing := ⟨c, List.mem_singleton_self c, rfl⟩
  results _ h := by cases h

section Preservation

variable {itemIDs : List String} {x x' : Shared k}

/-- A step of the goroutines keeps the failing blocks, and a new call returns on the store as it
is what it returns on the store those blocks came from. -/
theorem SharedInv.pool_step (hinv : SharedInv itemIDs x) {e : Event k} {s' : Pool k}
    (h : step itemIDs.length x.pool e = some s') : SharedInv itemIDs ⟨s', x.seen⟩ := by
  have hshape := hinv.shape.preserve h
  obtain ⟨c, hc, hfailing⟩ := hinv.failing
  rcases step_calls h with ⟨hcalls, hstore⟩ | ⟨y, hcalls, hy, hstore⟩
  · exact ⟨hshape, ⟨c, hc, hstore ▸ hfailing⟩, hcalls ▸ hinv.results⟩
  · refine ⟨hshape, ⟨c, hc, by rw [hstore, foldl_erase_failing, hfailing]⟩, fun z hz => ?_⟩
    rcases List.mem_append.mp (hcalls ▸ hz) with hz | hz
    · exact hinv.results z hz
    · rw [List.mem_singleton.mp hz]
      exact ⟨c, hc, hy.trans (errorOf_remove_congr hfailing _)⟩

/-- A write leaves the goroutines as they were, and the stores seen only grow. -/
theorem SharedInv.write_step (hinv : SharedInv itemIDs x) (c : Cache) :
    SharedInv itemIDs ⟨{ x.pool with store := c }, x.seen ++ [c]⟩ where
  shape := { hinv.shape with }
  failing := ⟨c, List.mem_append_right _ (List.mem_singleton_self c), rfl⟩
  results y hy :=
    let ⟨c', hc', hr⟩ := hinv.results y hy
    ⟨c', List.mem_append_left _ hc', hr⟩

theorem SharedInv.preserve (hinv : SharedInv itemIDs x) {e : SharedEvent k}
    (h : sharedStep itemIDs.length x e = some x') : SharedInv itemIDs x' := by
  cases e with
  | pool e =>
    obtain ⟨s', hs', rfl⟩ := sharedStep_pool h
    exact hinv.pool_step hs'
  | write c =>
    obtain ⟨-, rfl⟩ := sharedStep_write h
    exact hinv.write_step c

/-- **The invariant.** It holds in every state that some run with writes reaches. -/
theorem reachable_sharedInv {c : Cache}
    (hreach : Reachable (sharedStep itemIDs.length) (Shared.init k itemIDs c) x) :
    SharedInv itemIDs x :=
  hreach.invariant _ (sharedInv_init itemIDs c) fun _ _ _ hinv he => hinv.preserve he

end Preservation

/-! ### Writes cannot stall the call -/

section Progress

variable {n : Nat} {x x' : Shared k}

/-- A step never raises the pool's measure, and a step of the goroutines lowers it. -/
theorem measure_sharedStep {e : SharedEvent k} (h : sharedStep n x e = some x') :
    x'.pool.measure ≤ x.pool.measure ∧ ∀ e', e = .pool e' → x'.pool.measure < x.pool.measure := by
  cases e with
  | pool e =>
    obtain ⟨s', hs', rfl⟩ := sharedStep_pool h
    have := measure_step hs'
    exact ⟨this.le, fun _ _ => this⟩
  | write c =>
    obtain ⟨-, rfl⟩ := sharedStep_write h
    exact ⟨le_rfl, fun _ he => by cases he⟩

/-- **`RemoveMany`'s goroutines take finitely many steps** in every run, however many writes it
has: from some step on, every step is a write. -/
theorem pool_steps_end (run : ℕ → Shared k) (evs : ℕ → SharedEvent k)
    (hrun : ∀ i, sharedStep n (run i) (evs i) = some (run (i + 1))) :
    ∃ N, ∀ i ≥ N, ∃ c', evs i = .write c' := by
  obtain ⟨N, hN⟩ := own_steps_end (fun x : Shared k => x.pool.measure)
    (fun e => ∃ e', e = .pool e') (fun _ _ _ h => (measure_sharedStep h).1)
    (fun _ _ _ ⟨e', he⟩ h => (measure_sharedStep h).2 e' he) run evs hrun
  refine ⟨N, fun i hi => ?_⟩
  cases he : evs i with
  | pool e => exact absurd ⟨e, he⟩ (hN i hi)
  | write c' => exact ⟨c', rfl⟩

end Progress

/-! ### What a call can return -/

/-- What a `RemoveMany` call with `k` removers, started on the cache `c`, can end with in some run
while others write: the stores it saw, the cache as it leaves it, and the value it returns. -/
def SharedReturns (k : Nat) (itemIDs : List String) (c : Cache) (seen : List Cache) (c' : Cache)
    (r : GoResult Unit) : Prop :=
  ∃ x : Shared k, Reachable (sharedStep itemIDs.length) (Shared.init k itemIDs c) x ∧
    x.seen = seen ∧ ∃ e, x.pool.phase = .returned e ∧ c' = x.pool.store ∧ r = reply e

/-- Along a run of the goroutines alone, calls are only added, and the cache changes only with a
call. -/
theorem calls_of_reachable {n : Nat} {s t : Pool k} (h : Reachable (step n) s t) :
    ∃ calls, t.calls = s.calls ++ calls ∧ (calls = [] → t.store = s.store) := by
  induction h with
  | start => exact ⟨[], (List.append_nil _).symm, fun _ => rfl⟩
  | step e _ he ih =>
    obtain ⟨calls, hcalls, hstore⟩ := ih
    rcases step_calls he with ⟨hcalls', hstore'⟩ | ⟨y, hcalls', -, -⟩
    · exact ⟨calls, hcalls'.trans hcalls, fun hnil => hstore'.trans (hstore hnil)⟩
    · exact ⟨calls ++ [y], by rw [hcalls', hcalls, List.append_assoc], fun hnil => by simp at hnil⟩

section Returns

variable {itemIDs : List String} {c c' : Cache} {seen : List Cache} {r : GoResult Unit}

/-- A call that fails fails with the error `Remove` of one of its IDs returns on a store the call
saw. -/
theorem SharedReturns.error (h : SharedReturns k itemIDs c seen c' r) {f : Fault}
    (hf : r = .error f) :
    ∃ itemID ∈ itemIDs, ∃ c'' ∈ seen, ∃ e,
      errorOf (Manager.remove c'' itemID) = some e ∧ f = .error e := by
  obtain ⟨x, hreach, rfl, e, hphase, -, rfl⟩ := h
  have hinv := reachable_sharedInv hreach
  cases e with
  | none => cases hf
  | some e =>
    obtain ⟨y, hy, hye⟩ := (hinv.shape.returned_error hphase).2 e rfl
    obtain ⟨c'', hc'', hres⟩ := hinv.results y hy
    simp only [reply, Except.error.injEq] at hf
    exact ⟨y.1.2, hinv.shape.call_mem hphase hy, c'', hc'', e, hres ▸ hye, hf.symm⟩

/-- A call returns nil when `Remove` succeeds on every ID on every store the call saw. -/
theorem SharedReturns.eq_ok (h : SharedReturns k itemIDs c seen c' r)
    (hok : ∀ itemID ∈ itemIDs, ∀ c'' ∈ seen, errorOf (Manager.remove c'' itemID) = none) :
    r = .ok () := by
  obtain ⟨x, hreach, rfl, e, hphase, -, rfl⟩ := h
  have hinv := reachable_sharedInv hreach
  obtain rfl : e = none := (hinv.shape.returned_error hphase).1.mpr fun y hy => by
    obtain ⟨c'', hc'', hres⟩ := hinv.results y hy
    rw [hres]
    exact hok _ (hinv.shape.call_mem hphase hy) c'' hc''
  rfl

/-- A call fails when `Remove` fails on one of its IDs on every store the call saw. -/
theorem SharedReturns.not_ok (h : SharedReturns k itemIDs c seen c' r) {itemID : String}
    (hmem : itemID ∈ itemIDs) (hfail : ∀ c'' ∈ seen, errorOf (Manager.remove c'' itemID) ≠ none) :
    r ≠ .ok () := by
  obtain ⟨x, hreach, rfl, e, hphase, -, rfl⟩ := h
  have hinv := reachable_sharedInv hreach
  obtain ⟨y, hy, rfl⟩ := hinv.shape.exists_call hphase hmem
  obtain ⟨c'', hc'', hres⟩ := hinv.results y hy
  cases e with
  | none =>
    have hnone := (hinv.shape.returned_error hphase).1.mp rfl y hy
    exact absurd (hres ▸ hnone) (hfail c'' hc'')
  | some e => simp [reply]

/-- A run that saw no write is a run of the goroutines alone on the cache it started on. -/
theorem reachable_isolated {x : Shared k}
    (h : Reachable (sharedStep itemIDs.length) (Shared.init k itemIDs c) x) (hseen : x.seen = [c]) :
    Reachable (step itemIDs.length) (init k itemIDs c) x.pool := by
  induction h with
  | start => exact .start
  | @step y y' e hreach he ih =>
    cases e with
    | pool e =>
      obtain ⟨s', hs', rfl⟩ := sharedStep_pool he
      exact (ih hseen).step e hs'
    | write c' =>
      obtain ⟨-, rfl⟩ := sharedStep_write he
      have hnil : y.seen = [] := by simpa using congrArg List.length hseen
      obtain ⟨c'', hc'', -⟩ := (reachable_sharedInv hreach).failing
      simp [hnil] at hc''

/-- **Without writes, the plain model.** A call that saw no write returns and leaves exactly what a
`RemoveMany` call does on a cache nothing else changes. -/
theorem sharedReturns_without_writes :
    SharedReturns k itemIDs c [c] c' r ↔ Returns k itemIDs c c' r := by
  constructor
  · rintro ⟨x, hreach, hseen, hend⟩
    exact ⟨x.pool, reachable_isolated hreach hseen, hend⟩
  · rintro ⟨s, hreach, hend⟩
    exact ⟨⟨s, [c]⟩, reachable_lift (x := Shared.init k itemIDs c) .start hreach, rfl, hend⟩

/-- A call whose every `Remove` has returned nil goes on to return nil without another write,
leaving the cache as it is. -/
theorem SharedReturns.of_removed (hk : 0 < k) {x : Shared k}
    (hx : Reachable (sharedStep itemIDs.length) (Shared.init k itemIDs c) x)
    (hlen : x.pool.calls.length = itemIDs.length) (hok : ∀ y ∈ x.pool.calls, y.2 = none) :
    SharedReturns k itemIDs c x.seen x.pool.store (.ok ()) := by
  obtain ⟨t, ht, hstuck⟩ := Reachable.exists_stuck Pool.measure (fun _ _ _ => measure_step)
    (Reachable.start : Reachable (step itemIDs.length) x.pool x.pool)
  have hreach := reachable_lift hx ht
  have hinv := reachable_sharedInv hreach
  obtain ⟨e, hphase⟩ := hinv.shape.stuck hk hstuck
  obtain ⟨calls, hcalls, hstore⟩ := calls_of_reachable ht
  obtain rfl : calls = [] := by
    have := (hinv.shape.returned_done hphase).1.length_eq
    simp only [List.length_map, List.enum_length, hcalls, List.length_append, hlen] at this
    exact List.length_eq_zero.mp (by omega)
  rw [List.append_nil] at hcalls
  obtain rfl : e = none := (hinv.shape.returned_error hphase).1.mpr (hcalls ▸ hok)
  exact ⟨_, hreach, rfl, none, hphase, (hstore rfl).symm, rfl⟩

/-- **Not atomic.** When `Remove` of `a` succeeds on `c`, whatever store someone writes after the
call's removal of `a` is the cache `RemoveMany([a])` can leave, and the call then returns nil. -/
theorem SharedReturns.rewritten (hk : 0 < k) {a : String} {c₀ : Cache}
    (hremove : Manager.remove c a = .ok c₀) (c₁ : Cache) :
    SharedReturns k [a] c [c, c₁] c₁ (.ok ()) := by
  let w : Fin k := ⟨0, hk⟩
  have h₁ := (Reachable.start : Reachable (sharedStep [a].length) (Shared.init k [a] c) _).step
    (SharedEvent.pool (.hand w)) rfl
  have h₂ := h₁.step (SharedEvent.pool (.remove w))
    (sharedStep_of_step (step_remove_of_ok rfl rfl hremove))
  exact SharedReturns.of_removed hk (h₂.step (SharedEvent.write c₁) rfl) rfl
    fun y hy => by rw [List.mem_singleton.mp hy]

end Returns

end KopiaMetadata.RemoveMany
