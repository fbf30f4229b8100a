import KopiaMetadata.MultiGet

/-!
# `MultiGet` while the storage changes

`MultiGet` holds nothing across its fetches: each fetcher's `GetMetadata` reads the cache as it is
when the fetcher runs, and between two fetches other goroutines of the program (a `Put`, a `Remove`
or a `RefreshCache` on the same manager) or other clients of the repository may change the storage.
Here the steps of `MultiGet`'s goroutines interleave with changes of the store made by anyone else,
and the state carries, as a ghost, every store the call has seen, oldest first. A change may be
anything, so what holds here holds whatever the rest of the program does; only a panic, which ends
the program, stops it.

As `MultiGet` takes its fetch as a parameter, this module takes the store and the read: a fetch is
the read of its key on the store as it is at that step. Every value the call returns is what a read
of its key gave on some store of the call (`SharedInv`), but not all on the same one
(`SharedReturns.mixed`). The pool's bookkeeping (which fetcher holds which occurrence, what the
collector took) does not depend on what the reads return: with the results forgotten, a run here is
a run of the pool on a fixed store (`reachable_erase`), so the counting of `MultiGet` carries over,
and with it that writes cannot stall the call (`finished_of_stuck`, `pool_steps_end`). Without
writes, the two models return the same (`sharedReturns_without_writes`).
-/

namespace KopiaMetadata.MultiGet

variable {σ β : Type} {k : Nat}

/-- `MultiGet`'s goroutines, the store they read, and every store the call has seen. -/
structure Shared (σ : Type) (k : Nat) (β : Type) where
  pool : Pool k β
  store : σ
  seen : List σ

/-- One step while `MultiGet` runs: one of its goroutines moves, or someone else changes the
store. -/
inductive SharedEvent (σ : Type) (k : Nat) where
  | pool (e : Event k)
  | write (store : σ)

/-- The goroutines as `MultiGet` starts them on the store `c`. -/
def Shared.init (k : Nat) (itemIDs : List String) (c : σ) : Shared σ k β :=
  ⟨MultiGet.init k itemIDs, c, [c]⟩

/-- One step, if it is enabled. A fetch reads the store as it is now. -/
def sharedStep (read : σ → String → GoResult β) (n : Nat) (x : Shared σ k β) :
    SharedEvent σ k → Option (Shared σ k β)
  | .pool e => (step (read x.store) n x.pool e).map fun s => ⟨s, x.store, x.seen⟩
  | .write c => if x.pool.crash = none then some ⟨x.pool, c, x.seen ++ [c]⟩ else none

section Steps

variable {read : σ → String → GoResult β} {n : Nat} {x x' : Shared σ k β}

theorem sharedStep_pool {e : Event k} (h : sharedStep read n x (.pool e) = some x') :
    ∃ s', step (read x.store) n x.pool e = some s' ∧ x' = ⟨s', x.store, x.seen⟩ := by
  simp only [sharedStep, Option.map_eq_some'] at h
  obtain ⟨s', hs', rfl⟩ := h
  exact ⟨s', hs', rfl⟩

theorem sharedStep_write {c : σ} (h : sharedStep read n x (.write c) = some x') :
    x.pool.crash = none ∧ x' = ⟨x.pool, c, x.seen ++ [c]⟩ := by
  simp only [sharedStep] at h
  split at h
  · exact ⟨‹_›, (Option.some.inj h).symm⟩
  · cases h

theorem sharedStep_of_step {e : Event k} {s' : Pool k β}
    (h : step (read x.store) n x.pool e = some s') :
    sharedStep read n x (.pool e) = some ⟨s', x.store, x.seen⟩ := by
  simp [sharedStep, h]

end Steps

/-! ### Where the values come from -/

/-- `r` is what a read of `itemID` gave on one of the stores in `seen`. -/
def ReadIn (read : σ → String → GoResult β) (seen : List σ) (itemID : String)
    (r : GoResult β) : Prop :=
  ∃ c ∈ seen, read c itemID = r

theorem ReadIn.append {read : σ → String → GoResult β} {seen : List σ} {itemID : String}
    {r : GoResult β} (h : ReadIn read seen itemID r) (c : σ) : ReadIn read (seen ++ [c]) itemID r :=
  let ⟨c', hc', hr⟩ := h
  ⟨c', List.mem_append_left _ hc', hr⟩

theorem mem_held_update {f : Fin k → Fetcher β} {w v : Fin k} {a : Fetcher β}
    {y : Nat × String} (hy : y ∈ (Function.update f w a v).held) : y ∈ a.held ∨ y ∈ (f v).held := by
  by_cases hvw : v = w
  · subst hvw
    exact .inl (by simpa using hy)
  · exact .inr (by simpa [hvw] using hy)

/-- What the collector's loop body keeps: an entry or an error, once there, stays. -/
theorem absorb_ne_none {acc : Option GoError × (String → Option β)} {itemID key : String}
    {r : Except GoError β} (h : acc.2 key ≠ none ∨ acc.1 ≠ none) :
    (absorb acc itemID r).2 key ≠ none ∨ (absorb acc itemID r).1 ≠ none := by
  cases r with
  | error e => exact .inr (by simp [absorb])
  | ok v =>
    by_cases hkey : key = itemID
    · exact .inl (by simp [absorb, hkey])
    · simpa [absorb, hkey] using h

/-- What the collector's loop body can put in the map: what was there, or the result it took. -/
theorem absorb_snd_eq_some {acc : Option GoError × (String → Option β)} {itemID key : String}
    {r : Except GoError β} {v : β} (h : (absorb acc itemID r).2 key = some v) :
    acc.2 key = some v ∨ key = itemID ∧ r = .ok v := by
  cases r with
  | error e => exact .inl h
  | ok v' =>
    by_cases hkey : key = itemID
    · subst hkey
      simp only [absorb, Function.update_same, Option.some.injEq] at h
      exact .inr ⟨rfl, h ▸ rfl⟩
    · exact .inl (by simpa [absorb, hkey] using h)

/-- What the collector's loop body can leave in `resultErr`: what was there, or the error it
took. -/
theorem absorb_fst_eq_some {acc : Option GoError × (String → Option β)} {itemID : String}
    {r : Except GoError β} {e : GoError} (h : (absorb acc itemID r).1 = some e) :
    acc.1 = some e ∨ r = .error e := by
  cases r with
  | error e' => exact .inr (by simpa [absorb] using h)
  | ok v => exact .inl h

/-- The collector's loop body leaves an entry for the item or an error. -/
theorem absorb_self_ne_none (acc : Option GoError × (String → Option β)) (itemID : String)
    (r : Except GoError β) :
    (absorb acc itemID r).2 itemID ≠ none ∨ (absorb acc itemID r).1 ≠ none := by
  cases r <;> simp [absorb]

/-- What holds in every state a run reaches. The store is one the call has seen; every occurrence
the feeder or a fetcher holds is one of `itemIDs`; every result a fetcher holds is what a read of
its key gave on a store of the call, and so is every entry of `resultMap`, `resultErr` and a panic;
and every occurrence the collector took left an entry for its key, or an error. -/
structure SharedInv (read : σ → String → GoResult β) (itemIDs : List String)
    (x : Shared σ k β) : Prop where
  current : x.store ∈ x.seen
  fed : ∀ y ∈ x.pool.feed, y.2 ∈ itemIDs
  heldIn : ∀ w, ∀ y ∈ (x.pool.fetchers w).held, y.2 ∈ itemIDs
  sent : ∀ w pos itemID r, x.pool.fetchers w = .sending pos itemID r →
    ReadIn read x.seen itemID (liftError r)
  mapped : ∀ key v, x.pool.resultMap key = some v → key ∈ itemIDs ∧ ReadIn read x.seen key (.ok v)
  failed : ∀ e, x.pool.resultErr = some e →
    ∃ itemID ∈ itemIDs, ReadIn read x.seen itemID (.error (.error e))
  crashed : ∀ p, x.pool.crash = some p →
    ∃ itemID ∈ itemIDs, ReadIn read x.seen itemID (.error (.panic p))
  covered : ∀ y ∈ x.pool.received, x.pool.resultMap y.2 ≠ none ∨ x.pool.resultErr ≠ none

theorem sharedInv_init (read : σ → String → GoResult β) (itemIDs : List String) (c : σ) :
    SharedInv read itemIDs (Shared.init k itemIDs c : Shared σ k β) where
  current := List.mem_singleton_self c
  fed _ hy := List.snd_mem_of_mem_enum hy
  heldIn _ _ hy := by simp [Shared.init, init] at hy
  sent _ _ _ _ h := by cases h
  mapped _ _ h := by cases h
  failed _ h := by cases h
  crashed _ h := by cases h
  covered _ hy := by cases hy

section Preservation

variable {read : σ → String → GoResult β} {itemIDs : List String} {x : Shared σ k β}
  {n : Nat} {s' : Pool k β} {w : Fin k}

theorem SharedInv.hand_step (hinv : SharedInv read itemIDs x)
    (h : step (read x.store) n x.pool (.hand w) = some s') :
    SharedInv read itemIDs ⟨s', x.store, x.seen⟩ := by
  obtain ⟨-, -, pos, itemID, rest, hfeed, rfl⟩ := step_hand h
  refine { hinv with
    fed := fun y hy => hinv.fed y (hfeed ▸ List.mem_cons_of_mem _ hy)
    heldIn := fun v y hy => (mem_held_update hy).elim (fun hy => ?_) (hinv.heldIn v y)
    sent := fun v p i r hv => hinv.sent v p i r (eq_of_update_eq hv (by simp)) }
  rw [Fetcher.held_fetching, Multiset.mem_singleton] at hy
  exact hinv.fed y (hfeed ▸ hy ▸ List.mem_cons_self _ _)

theorem SharedInv.fetch_step (hinv : SharedInv read itemIDs x)
    (h : step (read x.store) n x.pool (.fetch w) = some s') :
    SharedInv read itemIDs ⟨s', x.store, x.seen⟩ := by
  obtain ⟨-, pos, itemID, hw, ⟨r, hread, rfl⟩ | ⟨p, hread, rfl⟩⟩ := step_fetch h
  · refine { hinv with
      heldIn := fun v y hy => (mem_held_update hy).elim
        (fun hy => hinv.heldIn w y (by simpa [hw] using hy)) (hinv.heldIn v y)
      sent := fun v p i r' hv => ?_ }
    by_cases hvw : v = w
    · subst hvw
      simp only [Function.update_same, Fetcher.sending.injEq] at hv
      obtain ⟨-, rfl, rfl⟩ := hv
      exact ⟨x.store, hinv.current, hread⟩
    · exact hinv.sent v p i r' (by simpa [hvw] using hv)
  · refine { hinv with crashed := fun p' hp => ?_ }
    cases hp
    exact ⟨itemID, hinv.heldIn w (pos, itemID) (by simp [hw]), x.store, hinv.current, hread⟩

theorem SharedInv.deliver_step (hinv : SharedInv read itemIDs x)
    (h : step (read x.store) n x.pool (.deliver w) = some s') :
    SharedInv read itemIDs ⟨s', x.store, x.seen⟩ := by
  obtain ⟨-, -, pos, itemID, r, hw, rfl⟩ := step_deliver h
  have hsent := hinv.sent w pos itemID r hw
  have hmem : itemID ∈ itemIDs := hinv.heldIn w (pos, itemID) (by simp [hw])
  have hcovered : ∀ y ∈ x.pool.received ++ [(pos, itemID)],
      (absorb (x.pool.resultErr, x.pool.resultMap) itemID r).2 y.2 ≠ none ∨
        (absorb (x.pool.resultErr, x.pool.resultMap) itemID r).1 ≠ none := by
    intro y hy
    rcases List.mem_append.mp hy with hy | hy
    · exact absorb_ne_none (hinv.covered y hy)
    · rw [List.mem_singleton.mp hy]
      exact absorb_self_ne_none _ _ _
  exact { hinv with
    heldIn := fun v y hy => (mem_held_update hy).elim (by simp) (hinv.heldIn v y)
    sent := fun v p i r' hv => hinv.sent v p i r' (eq_of_update_eq hv (by simp))
    mapped := fun key v hv => (absorb_snd_eq_some hv).elim (hinv.mapped key v)
      fun ⟨hkey, hr⟩ => by subst hkey hr; exact ⟨hmem, hsent⟩
    failed := fun e he => (absorb_fst_eq_some he).elim (hinv.failed e)
      fun hr => ⟨itemID, hmem, by subst hr; exact hsent⟩
    covered := hcovered }

theorem SharedInv.close_step (hinv : SharedInv read itemIDs x)
    (h : step (read x.store) n x.pool .close = some s') :
    SharedInv read itemIDs ⟨s', x.store, x.seen⟩ := by
  obtain ⟨-, -, -, rfl⟩ := step_close h
  exact { hinv with }

theorem SharedInv.exit_step (hinv : SharedInv read itemIDs x)
    (h : step (read x.store) n x.pool (.exit w) = some s') :
    SharedInv read itemIDs ⟨s', x.store, x.seen⟩ := by
  obtain ⟨-, -, -, rfl⟩ := step_exit h
  exact { hinv with
    heldIn := fun v y hy => (mem_held_update hy).elim (by simp) (hinv.heldIn v y)
    sent := fun v p i r hv => hinv.sent v p i r (eq_of_update_eq hv (by simp)) }

/-- A write keeps every fact about where a value came from: the stores seen only grow. -/
theorem SharedInv.write_step (hinv : SharedInv read itemIDs x) (c : σ) :
    SharedInv read itemIDs ⟨x.pool, c, x.seen ++ [c]⟩ where
  current := List.mem_append_right _ (List.mem_singleton_self c)
  fed := hinv.fed
  heldIn := hinv.heldIn
  sent w pos itemID r hw := (hinv.sent w pos itemID r hw).append c
  mapped key v hv := ⟨(hinv.mapped key v hv).1, (hinv.mapped key v hv).2.append c⟩
  failed e he :=
    let ⟨itemID, hmem, hread⟩ := hinv.failed e he
    ⟨itemID, hmem, hread.append c⟩
  crashed p hp :=
    let ⟨itemID, hmem, hread⟩ := hinv.crashed p hp
    ⟨itemID, hmem, hread.append c⟩
  covered := hinv.covered

theorem SharedInv.preserve (hinv : SharedInv read itemIDs x) {e : SharedEvent σ k}
    {x' : Shared σ k β} (h : sharedStep read n x e = some x') : SharedInv read itemIDs x' := by
  cases e with
  | pool e =>
    obtain ⟨s', hs', rfl⟩ := sharedStep_pool h
    cases e with
    | hand w => exact hinv.hand_step hs'
    | fetch w => exact hinv.fetch_step hs'
    | deliver w => exact hinv.deliver_step hs'
    | close => exact hinv.close_step hs'
    | exit w => exact hinv.exit_step hs'
  | write c =>
    obtain ⟨-, rfl⟩ := sharedStep_write h
    exact hinv.write_step c

/-- **The invariant.** It holds in every state that some run reaches. -/
theorem reachable_sharedInv {c : σ}
    (hreach : Reachable (sharedStep read n) (Shared.init k itemIDs c) x) :
    SharedInv read itemIDs x :=
  hreach.invariant _ (sharedInv_init read itemIDs c) fun _ _ _ hinv he => hinv.preserve he

end Preservation

/-! ### The bookkeeping does not depend on the reads -/

/-- A fetcher with the result it holds forgotten. -/
def Fetcher.erase : Fetcher β → Fetcher Unit
  | .ranging => .ranging
  | .fetching pos itemID => .fetching pos itemID
  | .sending pos itemID _ => .sending pos itemID (.ok ())
  | .exited => .exited

@[simp] theorem Fetcher.erase_ranging : (Fetcher.ranging : Fetcher β).erase = .ranging := rfl
@[simp] theorem Fetcher.erase_fetching (pos : Nat) (itemID : String) :
    (Fetcher.fetching pos itemID : Fetcher β).erase = .fetching pos itemID := rfl
@[simp] theorem Fetcher.erase_sending (pos : Nat) (itemID : String) (r : Except GoError β) :
    (Fetcher.sending pos itemID r).erase = .sending pos itemID (.ok ()) := rfl
@[simp] theorem Fetcher.erase_exited : (Fetcher.exited : Fetcher β).erase = .exited := rfl

theorem Fetcher.erase_eq_ranging {f : Fetcher β} : f.erase = .ranging ↔ f = .ranging := by
  cases f <;> simp

theorem Fetcher.erase_eq_exited {f : Fetcher β} : f.erase = .exited ↔ f = .exited := by
  cases f <;> simp

theorem Fetcher.erase_eq_fetching {f : Fetcher β} {pos : Nat} {itemID : String} :
    f.erase = .fetching pos itemID ↔ f = .fetching pos itemID := by
  cases f <;> simp

theorem Fetcher.erase_eq_sending {f : Fetcher β} {pos : Nat} {itemID : String}
    {r : Except GoError Unit} (h : f.erase = .sending pos itemID r) :
    ∃ r', f = .sending pos itemID r' := by
  cases f <;> simp_all

theorem erase_update (f : Fin k → Fetcher β) (w : Fin k) (a : Fetcher β) :
    (fun v => (Function.update f w a v).erase)
      = Function.update (fun v => (f v).erase) w a.erase := by
  funext v
  exact Function.apply_update (fun _ => Fetcher.erase) f w a v

/-- A read that succeeds and returns nothing. -/
def blank : String → GoResult Unit := fun _ => .ok ()

theorem collected_blank_append (items : List (Nat × String)) (x : Nat × String) :
    collected blank (items ++ [x])
      = (none, Function.update (collected blank items).2 x.2 (some ())) := by
  have hnone : (collected blank items).1 = none := by simp [collected_fst, fetchError, blank]
  rw [collected_append]
  simp [absorbFetch, blank, absorb, hnone]

/-- The pool with every result forgotten: the collector's loop is then its loop over `blank`. -/
def Pool.erase (s : Pool k β) : Pool k Unit where
  feed := s.feed
  closed := s.closed
  fetchers := fun w => (s.fetchers w).erase
  received := s.received
  resultErr := none
  resultMap := (collected blank s.received).2
  crash := none
  calls := s.calls
  handed := s.handed

/-- A step that does not panic is, with the results forgotten, a step of the pool on `blank`. -/
theorem step_erase {fetch : String → GoResult β} {n : Nat} {s s' : Pool k β} {e : Event k}
    (h : step fetch n s e = some s') (hcrash : s'.crash = none) :
    step blank n s.erase e = some s'.erase := by
  cases e with
  | hand w =>
    obtain ⟨-, hw, pos, itemID, rest, hfeed, rfl⟩ := step_hand h
    simp [step, Pool.erase, hfeed, hw, erase_update]
  | fetch w =>
    obtain ⟨-, pos, itemID, hw, ⟨r, -, rfl⟩ | ⟨p, -, rfl⟩⟩ := step_fetch h
    · simp [step, Pool.erase, hw, erase_update, blank]
    · cases hcrash
  | deliver w =>
    obtain ⟨-, hlt, pos, itemID, r, hw, rfl⟩ := step_deliver h
    simp [step, Pool.erase, hw, hlt, Pool.collect, erase_update,
      collected_blank_append, absorb]
  | close =>
    obtain ⟨-, hfeed, hclosed, rfl⟩ := step_close h
    simp [step, Pool.erase, hfeed, hclosed]
  | exit w =>
    obtain ⟨-, hclosed, hw, rfl⟩ := step_exit h
    simp [step, Pool.erase, hclosed, hw, erase_update]

/-- **The bookkeeping is the pool's.** With what the reads returned forgotten, a state that a run
reaches without a panic is one that `MultiGet` reaches on a fixed store. -/
theorem reachable_erase {read : σ → String → GoResult β} {n : Nat} {itemIDs : List String}
    {c : σ} {x : Shared σ k β} (h : Reachable (sharedStep read n) (Shared.init k itemIDs c) x)
    (hcrash : x.pool.crash = none) : Reachable (step blank n) (init k itemIDs) x.pool.erase := by
  induction h with
  | start => exact .start
  | step e _ he ih =>
    cases e with
    | pool e =>
      obtain ⟨s', hs', rfl⟩ := sharedStep_pool he
      exact (ih (step_crash hs')).step e (step_erase hs' hcrash)
    | write c' =>
      obtain ⟨hc, rfl⟩ := sharedStep_write he
      exact ih hc

/-- What can move in the pool with its results forgotten can move in the pool. -/
theorem step_enabled_of_erase {fetch : String → GoResult β} {n : Nat} {s : Pool k β}
    {e : Event k} {t : Pool k Unit} (hcrash : s.crash = none)
    (h : step blank n s.erase e = some t) :
    ∃ s', step fetch n s e = some s' := by
  cases e with
  | hand w =>
    obtain ⟨-, hw, pos, itemID, rest, hfeed, -⟩ := step_hand h
    exact Option.ne_none_iff_exists'.mp (by
      simp [step, hcrash, show s.feed = _ from hfeed, Fetcher.erase_eq_ranging.mp hw])
  | fetch w =>
    obtain ⟨-, pos, itemID, hw, -⟩ := step_fetch h
    exact step_fetch_enabled hcrash (Fetcher.erase_eq_fetching.mp hw)
  | deliver w =>
    obtain ⟨-, hlt, pos, itemID, r, hw, -⟩ := step_deliver h
    obtain ⟨r', hr'⟩ := Fetcher.erase_eq_sending hw
    exact Option.ne_none_iff_exists'.mp (by
      simp [step, hcrash, hr', show s.received.length < n from hlt])
  | close =>
    obtain ⟨-, hfeed, hclosed, -⟩ := step_close h
    exact Option.ne_none_iff_exists'.mp (by
      simp [step, hcrash, show s.feed = [] from hfeed, show s.closed = false from hclosed])
  | exit w =>
    obtain ⟨-, hclosed, hw, -⟩ := step_exit h
    exact Option.ne_none_iff_exists'.mp (by
      simp [step, hcrash, Fetcher.erase_eq_ranging.mp hw, show s.closed = true from hclosed])

theorem Pool.finished_erase {n : Nat} {s : Pool k β} (hcrash : s.crash = none) :
    s.erase.Finished n ↔ s.Finished n := by
  simp [Pool.Finished, Pool.erase, hcrash, Fetcher.erase_eq_exited]

/-! ### Writes cannot stall the call -/

section Progress

variable {read : σ → String → GoResult β} {c : σ} {itemIDs : List String} {x : Shared σ k β}

/-- **No deadlock under writes.** Where none of `MultiGet`'s goroutines can move and no read
panicked, every one of them has returned. -/
theorem finished_of_stuck (hreach : Reachable (sharedStep read itemIDs.length)
      (Shared.init k itemIDs c) x) (hk : 0 < k) (hcrash : x.pool.crash = none)
    (hstuck : ∀ e, step (read x.store) itemIDs.length x.pool e = none) :
    x.pool.Finished itemIDs.length := by
  refine (Pool.finished_erase hcrash).mp (by_contra fun hnot => ?_)
  obtain ⟨e, t, ht⟩ := (reachable_inv (reachable_erase hreach hcrash)).progress hk rfl hnot
  obtain ⟨s', hs'⟩ : ∃ s', step (read x.store) itemIDs.length x.pool e = some s' :=
    step_enabled_of_erase hcrash ht
  rw [hstuck e] at hs'
  cases hs'

/-- Under writes too, once the collector is done each occurrence was handed to exactly one
fetcher and read exactly once. -/
theorem handed_calls_perm (hreach : Reachable (sharedStep read itemIDs.length)
      (Shared.init k itemIDs c) x) (hcrash : x.pool.crash = none)
    (hlen : x.pool.received.length = itemIDs.length) :
    (x.pool.handed.map Prod.fst).Perm (List.range itemIDs.length) ∧
      x.pool.calls.Perm itemIDs.enum := by
  have hinv := reachable_inv (reachable_erase hreach hcrash)
  exact ⟨hinv.handed_perm (hinv.done hlen).1, hinv.calls_perm rfl hlen⟩

/-- A step never raises the pool's measure, and a step of the pool lowers it. -/
theorem measure_sharedStep {n : Nat} {x' : Shared σ k β} {e : SharedEvent σ k}
    (h : sharedStep read n x e = some x') :
    x'.pool.measure ≤ x.pool.measure ∧ ∀ e', e = .pool e' → x'.pool.measure < x.pool.measure := by
  cases e with
  | pool e =>
    obtain ⟨s', hs', rfl⟩ := sharedStep_pool h
    have := measure_step hs'
    exact ⟨this.le, fun _ _ => this⟩
  | write c' =>
    obtain ⟨-, rfl⟩ := sharedStep_write h
    exact ⟨le_rfl, fun _ he => by cases he⟩

/-- **`MultiGet`'s goroutines take finitely many steps** in every run, however many writes it
has: from some step on, every step is a write. -/
theorem pool_steps_end {n : Nat} (run : ℕ → Shared σ k β) (evs : ℕ → SharedEvent σ k)
    (hrun : ∀ i, sharedStep read n (run i) (evs i) = some (run (i + 1))) :
    ∃ N, ∀ i ≥ N, ∃ c', evs i = .write c' := by
  obtain ⟨N, hN⟩ := own_steps_end (fun x : Shared σ k β => x.pool.measure)
    (fun e => ∃ e', e = .pool e') (fun _ _ _ h => (measure_sharedStep h).1)
    (fun _ _ _ ⟨e', he⟩ h => (measure_sharedStep h).2 e' he) run evs hrun
  refine ⟨N, fun i hi => ?_⟩
  cases he : evs i with
  | pool e => exact absurd ⟨e, he⟩ (hN i hi)
  | write c' => exact ⟨c', rfl⟩

end Progress

/-! ### What a call can return -/

/-- What a `MultiGet` call with `k` fetchers, started on the store `c`, can end with in some run
while others write, and the stores the call saw until then. -/
def SharedReturns (read : σ → String → GoResult β) (c : σ) (itemIDs : List String) (k : Nat)
    (seen : List σ) (reply : GoResult (String → Option β)) : Prop :=
  ∃ x : Shared σ k β, Reachable (sharedStep read itemIDs.length) (Shared.init k itemIDs c) x ∧
    x.seen = seen ∧
    ((x.pool.crash = none ∧ x.pool.received.length = itemIDs.length ∧
        reply = liftError x.pool.result) ∨
      ∃ p, x.pool.crash = some p ∧ reply = .error (.panic p))

section Returns

variable {read : σ → String → GoResult β} {c : σ} {itemIDs : List String} {seen : List σ}
  {reply : GoResult (String → Option β)}

/-- Every entry of a returned map is for one of `itemIDs`, and is what a read of its key gave on a
store the call saw. -/
theorem SharedReturns.entry (h : SharedReturns read c itemIDs k seen reply)
    {m : String → Option β} (hm : reply = .ok m) {key : String} {v : β} (hv : m key = some v) :
    key ∈ itemIDs ∧ ReadIn read seen key (.ok v) := by
  obtain ⟨x, hreach, rfl, ⟨-, -, rfl⟩ | ⟨p, -, rfl⟩⟩ := h
  · cases hres : x.pool.resultErr with
    | some e => simp [Pool.result, hres] at hm
    | none =>
      simp only [Pool.result, hres, liftError_ok, Except.ok.injEq] at hm
      exact (reachable_sharedInv hreach).mapped key v (hm ▸ hv)
  · cases hm

/-- A returned map has an entry for every ID of `itemIDs`. -/
theorem SharedReturns.entry_of_mem (h : SharedReturns read c itemIDs k seen reply)
    {m : String → Option β} (hm : reply = .ok m) {key : String} (hkey : key ∈ itemIDs) :
    m key ≠ none := by
  obtain ⟨x, hreach, rfl, ⟨hcrash, hlen, rfl⟩ | ⟨p, -, rfl⟩⟩ := h
  · cases hres : x.pool.resultErr with
    | some e => simp [Pool.result, hres] at hm
    | none =>
      simp only [Pool.result, hres, liftError_ok, Except.ok.injEq] at hm
      obtain ⟨pos, hpos⟩ := (reachable_inv (reachable_erase hreach hcrash)).mem_received hlen hkey
      rw [← hm]
      exact ((reachable_sharedInv hreach).covered _ hpos).resolve_right (by simp [hres])
  · cases hm

/-- A call that fails fails with what a read of one of `itemIDs` gave on a store the call saw. -/
theorem SharedReturns.error (h : SharedReturns read c itemIDs k seen reply) {f : Fault}
    (hf : reply = .error f) : ∃ itemID ∈ itemIDs, ReadIn read seen itemID (.error f) := by
  obtain ⟨x, hreach, rfl, ⟨-, -, rfl⟩ | ⟨p, hp, rfl⟩⟩ := h
  · cases hres : x.pool.resultErr with
    | none => simp [Pool.result, hres] at hf
    | some e =>
      obtain rfl : Fault.error e = f := by simpa [Pool.result, hres] using hf
      exact (reachable_sharedInv hreach).failed e hres
  · cases hf
    exact (reachable_sharedInv hreach).crashed p hp

/-- An ID of `itemIDs` whose every read during the call fails makes the call fail. -/
theorem SharedReturns.not_ok (h : SharedReturns read c itemIDs k seen reply) {itemID : String}
    (hmem : itemID ∈ itemIDs) (hfail : ∀ c' ∈ seen, ∃ e, read c' itemID = .error (.error e))
    (m : String → Option β) : reply ≠ .ok m := by
  intro hm
  obtain ⟨v, hv⟩ := Option.ne_none_iff_exists'.mp (h.entry_of_mem hm hmem)
  obtain ⟨-, c', hc', hread⟩ := h.entry hm hv
  obtain ⟨e, he⟩ := hfail c' hc'
  rw [he] at hread
  cases hread

/-- A run that saw no write read only the store it started on. -/
theorem reachable_isolated {n : Nat} {x : Shared σ k β}
    (h : Reachable (sharedStep read n) (Shared.init k itemIDs c) x) (hseen : x.seen = [c]) :
    x.store = c ∧ Reachable (step (read c) n) (init k itemIDs) x.pool := by
  induction h with
  | start => exact ⟨rfl, .start⟩
  | @step y y' e hreach he ih =>
    cases e with
    | pool e =>
      obtain ⟨s', hs', rfl⟩ := sharedStep_pool he
      obtain ⟨hstore, hpool⟩ := ih hseen
      exact ⟨hstore, hpool.step e (hstore ▸ hs')⟩
    | write c' =>
      obtain ⟨-, rfl⟩ := sharedStep_write he
      have hnil : y.seen = [] := by simpa using congrArg List.length hseen
      have hinv : SharedInv read itemIDs y := reachable_sharedInv hreach
      exact absurd hinv.current (by simp [hnil])

theorem reachable_lift {n : Nat} {s : Pool k β}
    (h : Reachable (step (read c) n) (init k itemIDs) s) :
    Reachable (sharedStep read n) (Shared.init k itemIDs c) ⟨s, c, [c]⟩ := by
  induction h with
  | start => exact .start
  | step e _ he ih => exact ih.step (.pool e) (by simp [sharedStep, he])

/-- **Without writes, the plain model.** A call that saw no write returns exactly what `MultiGet`
returns on the store it started on. -/
theorem sharedReturns_without_writes :
    SharedReturns read c itemIDs k [c] reply ↔ Returns (read c) itemIDs k reply := by
  constructor
  · rintro ⟨x, hreach, hseen, hend⟩
    exact ⟨x.pool, (reachable_isolated hreach hseen).2, hend⟩
  · rintro ⟨s, hreach, hend⟩
    exact ⟨⟨s, c, [c]⟩, reachable_lift hreach, rfl, hend⟩

/-- **Not a snapshot.** The fetches read the store at different times: when it changes between
the fetch of `a` and that of `b`, the call can return the value `a` had before with the value `b`
has after. -/
theorem SharedReturns.mixed (hk : 0 < k) {c₁ c₂ : σ} {a b : String} {va vb : β}
    (ha : read c a = .ok va) (hb : read c₂ b = .ok vb) :
    SharedReturns read c [a, b] k [c, c₁, c₂]
      (.ok (Function.update (Function.update (fun _ => none) a (some va)) b (some vb))) := by
  let w : Fin k := ⟨0, hk⟩
  have h₁ := (Reachable.start : Reachable (sharedStep read [a, b].length)
    (Shared.init k [a, b] c) _).step (SharedEvent.pool (.hand w)) rfl
  have h₂ := h₁.step (SharedEvent.pool (.fetch w))
    (sharedStep_of_step (step_fetch_of_liftError rfl rfl (ha.trans (liftError_ok va).symm)))
  have h₃ := h₂.step (SharedEvent.pool (.deliver w)) rfl
  have h₄ := (h₃.step (SharedEvent.write c₁) rfl).step (SharedEvent.write c₂) rfl
  have h₅ := h₄.step (SharedEvent.pool (.hand w)) rfl
  have h₆ := h₅.step (SharedEvent.pool (.fetch w))
    (sharedStep_of_step (step_fetch_of_liftError rfl rfl (hb.trans (liftError_ok vb).symm)))
  exact ⟨_, h₆.step (SharedEvent.pool (.deliver w)) rfl, rfl, .inl ⟨rfl, rfl, rfl⟩⟩

end Returns

end KopiaMetadata.MultiGet
