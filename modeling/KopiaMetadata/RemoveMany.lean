import KopiaMetadata.Manager
import KopiaMetadata.Interleaving

/-!
# The goroutines of `RemoveMany`

`RemoveMany` registers `parallelism` removers with the wait group `wg` and starts them; each ranges
over the unbuffered channel `ch` and sends every error of `Remove` on `errch`, which has room for
`len(itemIDs)` errors. The calling goroutine sends every item ID on `ch`, closes it, waits for `wg`,
closes `errch` and returns what one receive on `errch` gives: the oldest buffered error, or nil.
A send on `errch` blocks while the buffer is full and panics once `errch` is closed, and `wg.Done()`
on a zero counter panics.

The removers share the cache, and each `Remove` is one step on it, in the order the scheduler picks.
Messages carry the position of the item in `itemIDs`, and the ghost field `calls` records every
`Remove` call with the error it returned.
-/

namespace KopiaMetadata.RemoveMany

/-- `parallelism`. -/
def parallelism : Nat := 30

/-- The `error` a call returned: nil, or the error. -/
def errorOf {α : Type} : Except GoError α → Option GoError
  | .ok _ => none
  | .error e => some e

/-- A remover goroutine: blocked in `range ch`, holding an ID it has not removed yet, blocked in
`errch <- err`, or returned after its deferred `wg.Done()`. -/
inductive Remover where
  | ranging
  | removing (pos : Nat) (itemID : String)
  | reporting (pos : Nat) (err : GoError)
  | finished

/-- Where the calling goroutine is. -/
inductive Phase where
  /-- In `for _, id := range itemIDs { ch <- id }`. -/
  | dispatching
  /-- In `wg.Wait()`. -/
  | waiting
  /-- At `close(errch)`. -/
  | closing
  /-- At `return <-errch`. -/
  | receiving
  /-- Returned `r`. -/
  | returned (r : Option GoError)

/-- The goroutines of one `RemoveMany` call and the cache they share. -/
structure Pool (k : Nat) where
  phase : Phase
  feed : List (Nat × String)
  closed : Bool
  removers : Fin k → Remover
  wg : Nat
  errch : List GoError
  errchClosed : Bool
  store : Cache
  crash : Option Panic
  calls : List ((Nat × String) × Option GoError)

variable {k : Nat}

/-- The goroutines once the calling goroutine has started the removers. -/
def init (k : Nat) (itemIDs : List String) (c : Cache) : Pool k where
  phase := .dispatching
  feed := itemIDs.enum
  closed := false
  removers := fun _ => .ranging
  wg := k
  errch := []
  errchClosed := false
  store := c
  crash := none
  calls := []

/-- What one step of the program can be. -/
inductive Event (k : Nat) where
  /-- The calling goroutine's `ch <- id` meets remover `w`'s `range ch`. -/
  | hand (w : Fin k)
  /-- Remover `w` calls `mm.Remove(id)`. -/
  | remove (w : Fin k)
  /-- Remover `w`'s `errch <- err`. -/
  | report (w : Fin k)
  /-- The calling goroutine's `close(ch)`. -/
  | close
  /-- Remover `w`'s `range ch` ends on the closed channel, and `wg.Done()` runs. -/
  | exit (w : Fin k)
  /-- The calling goroutine's `wg.Wait()` returns. -/
  | wait
  /-- The calling goroutine's `close(errch)`. -/
  | closeErrch
  /-- The calling goroutine's `<-errch`. The buffer is not read again after it. -/
  | receive

/-- One step of the program, if it is enabled. `n` is `len(itemIDs)`, the capacity of `errch`. -/
def step (n : Nat) (s : Pool k) : Event k → Option (Pool k)
  | .hand w =>
    match s.crash, s.phase, s.feed, s.removers w with
    | none, .dispatching, (pos, itemID) :: rest, .ranging =>
      some { s with feed := rest, removers := Function.update s.removers w (.removing pos itemID) }
    | _, _, _, _ => none
  | .remove w =>
    match s.crash, s.removers w with
    | none, .removing pos itemID =>
      match Manager.remove s.store itemID with
      | .ok store => some { s with
          store := store
          removers := Function.update s.removers w .ranging
          calls := s.calls ++ [((pos, itemID), none)] }
      | .error err => some { s with
          removers := Function.update s.removers w (.reporting pos err)
          calls := s.calls ++ [((pos, itemID), some err)] }
    | _, _ => none
  | .report w =>
    match s.crash, s.removers w with
    | none, .reporting _ err =>
      if s.errchClosed then some { s with crash := some .sendOnClosedChannel }
      else if s.errch.length < n then
        some { s with errch := s.errch ++ [err], removers := Function.update s.removers w .ranging }
      else none
    | _, _ => none
  | .close =>
    match s.crash, s.phase, s.feed with
    | none, .dispatching, [] => some { s with closed := true, phase := .waiting }
    | _, _, _ => none
  | .exit w =>
    match s.crash, s.removers w with
    | none, .ranging =>
      if s.closed then
        if s.wg = 0 then some { s with crash := some .negativeWaitGroupCounter }
        else some { s with removers := Function.update s.removers w .finished, wg := s.wg - 1 }
      else none
    | _, _ => none
  | .wait =>
    match s.crash, s.phase with
    | none, .waiting => if s.wg = 0 then some { s with phase := .closing } else none
    | _, _ => none
  | .closeErrch =>
    match s.crash, s.phase with
    | none, .closing => some { s with errchClosed := true, phase := .receiving }
    | _, _ => none
  | .receive =>
    match s.crash, s.phase with
    | none, .receiving => some { s with phase := .returned s.errch.head? }
    | _, _ => none

/-! ### What one step can do -/

section Steps

variable {n : Nat} {s s' : Pool k} {w : Fin k}

theorem step_hand (h : step n s (.hand w) = some s') :
    s.crash = none ∧ s.phase = .dispatching ∧ s.removers w = .ranging ∧
      ∃ pos itemID rest, s.feed = (pos, itemID) :: rest ∧
        s' = { s with
          feed := rest, removers := Function.update s.removers w (.removing pos itemID) } := by
  simp only [step] at h
  split at h
  · rename_i pos itemID rest hcrash hphase hfeed hw
    cases h
    exact ⟨hcrash, hphase, hw, pos, itemID, rest, hfeed, rfl⟩
  · cases h

theorem step_remove (h : step n s (.remove w) = some s') :
    s.crash = none ∧ ∃ pos itemID, s.removers w = .removing pos itemID ∧
      ((∃ store, Manager.remove s.store itemID = .ok store ∧ s' = { s with
          store := store
          removers := Function.update s.removers w .ranging
          calls := s.calls ++ [((pos, itemID), none)] }) ∨
       (∃ err, Manager.remove s.store itemID = .error err ∧ s' = { s with
          removers := Function.update s.removers w (.reporting pos err)
          calls := s.calls ++ [((pos, itemID), some err)] })) := by
  simp only [step] at h
  split at h
  · rename_i pos itemID hcrash hw
    refine ⟨hcrash, pos, itemID, hw, ?_⟩
    split at h <;> rename_i hremove <;> cases h
    · exact .inl ⟨_, hremove, rfl⟩
    · exact .inr ⟨_, hremove, rfl⟩
  · cases h

theorem step_report (h : step n s (.report w) = some s') :
    s.crash = none ∧ ∃ pos err, s.removers w = .reporting pos err ∧
      ((s.errchClosed = true ∧ s' = { s with crash := some .sendOnClosedChannel }) ∨
       (s.errchClosed = false ∧ s.errch.length < n ∧
        s' = { s with
          errch := s.errch ++ [err], removers := Function.update s.removers w .ranging })) := by
  simp only [step] at h
  split at h
  · rename_i pos err hcrash hw
    refine ⟨hcrash, pos, err, hw, ?_⟩
    split at h
    · cases h
      exact .inl ⟨‹_›, rfl⟩
    · split at h
      · cases h
        exact .inr ⟨by simpa using ‹¬ s.errchClosed = true›, ‹_›, rfl⟩
      · cases h
  · cases h

theorem step_close (h : step n s .close = some s') :
    s.crash = none ∧ s.phase = .dispatching ∧ s.feed = [] ∧
      s' = { s with closed := true, phase := .waiting } := by
  simp only [step] at h
  split at h
  · rename_i hcrash hphase hfeed
    cases h
    exact ⟨hcrash, hphase, hfeed, rfl⟩
  · cases h

theorem step_exit (h : step n s (.exit w) = some s') :
    s.crash = none ∧ s.closed = true ∧ s.removers w = .ranging ∧
      ((s.wg = 0 ∧ s' = { s with crash := some .negativeWaitGroupCounter }) ∨
       (s.wg ≠ 0 ∧
        s' = { s with removers := Function.update s.removers w .finished, wg := s.wg - 1 })) := by
  simp only [step] at h
  split at h
  · rename_i hcrash hw
    split at h
    · split at h <;> cases h
      · exact ⟨hcrash, ‹_›, hw, .inl ⟨‹_›, rfl⟩⟩
      · exact ⟨hcrash, ‹_›, hw, .inr ⟨‹_›, rfl⟩⟩
    · cases h
  · cases h

theorem step_wait (h : step n s .wait = some s') :
    s.crash = none ∧ s.phase = .waiting ∧ s.wg = 0 ∧ s' = { s with phase := .closing } := by
  simp only [step] at h
  split at h
  · rename_i hcrash hphase
    split at h
    · cases h
      exact ⟨hcrash, hphase, ‹_›, rfl⟩
    · cases h
  · cases h

theorem step_closeErrch (h : step n s .closeErrch = some s') :
    s.crash = none ∧ s.phase = .closing ∧
      s' = { s with errchClosed := true, phase := .receiving } := by
  simp only [step] at h
  split at h
  · rename_i hcrash hphase
    cases h
    exact ⟨hcrash, hphase, rfl⟩
  · cases h

theorem step_receive (h : step n s .receive = some s') :
    s.crash = none ∧ s.phase = .receiving ∧ s' = { s with phase := .returned s.errch.head? } := by
  simp only [step] at h
  split at h
  · rename_i hcrash hphase
    cases h
    exact ⟨hcrash, hphase, rfl⟩
  · cases h

end Steps

/-! ### Counting over the removers -/

/-- The occurrence a remover holds and has not passed to `Remove` yet. -/
def Remover.held : Remover → Multiset (Nat × String)
  | .ranging => 0
  | .removing pos itemID => {(pos, itemID)}
  | .reporting _ _ => 0
  | .finished => 0

/-- The error a remover is about to send on `errch`. -/
def Remover.pending : Remover → Multiset GoError
  | .ranging => 0
  | .removing _ _ => 0
  | .reporting _ err => {err}
  | .finished => 0

/-- One for a remover that has not called `wg.Done()`. -/
def Remover.live : Remover → Nat
  | .ranging => 1
  | .removing _ _ => 1
  | .reporting _ _ => 1
  | .finished => 0

/-- How many more steps a remover can take with what it holds. -/
def Remover.weight : Remover → Nat
  | .ranging => 1
  | .removing _ _ => 3
  | .reporting _ _ => 2
  | .finished => 0

/-- How many more steps the calling goroutine can take. -/
def Phase.weight : Phase → Nat
  | .dispatching => 4
  | .waiting => 3
  | .closing => 2
  | .receiving => 1
  | .returned _ => 0

/-- The calling goroutine is past `wg.Wait()`. -/
def Phase.Waited : Phase → Prop
  | .dispatching => False
  | .waiting => False
  | .closing => True
  | .receiving => True
  | .returned _ => True

@[simp] theorem Remover.held_ranging : Remover.ranging.held = 0 := rfl
@[simp] theorem Remover.held_removing (pos : Nat) (itemID : String) :
    (Remover.removing pos itemID).held = {(pos, itemID)} := rfl
@[simp] theorem Remover.held_reporting (pos : Nat) (err : GoError) :
    (Remover.reporting pos err).held = 0 := rfl
@[simp] theorem Remover.held_finished : Remover.finished.held = 0 := rfl
@[simp] theorem Remover.pending_ranging : Remover.ranging.pending = 0 := rfl
@[simp] theorem Remover.pending_removing (pos : Nat) (itemID : String) :
    (Remover.removing pos itemID).pending = 0 := rfl
@[simp] theorem Remover.pending_reporting (pos : Nat) (err : GoError) :
    (Remover.reporting pos err).pending = {err} := rfl
@[simp] theorem Remover.pending_finished : Remover.finished.pending = 0 := rfl
@[simp] theorem Remover.live_ranging : Remover.ranging.live = 1 := rfl
@[simp] theorem Remover.live_removing (pos : Nat) (itemID : String) :
    (Remover.removing pos itemID).live = 1 := rfl
@[simp] theorem Remover.live_reporting (pos : Nat) (err : GoError) :
    (Remover.reporting pos err).live = 1 := rfl
@[simp] theorem Remover.live_finished : Remover.finished.live = 0 := rfl
@[simp] theorem Remover.weight_ranging : Remover.ranging.weight = 1 := rfl
@[simp] theorem Remover.weight_removing (pos : Nat) (itemID : String) :
    (Remover.removing pos itemID).weight = 3 := rfl
@[simp] theorem Remover.weight_reporting (pos : Nat) (err : GoError) :
    (Remover.reporting pos err).weight = 2 := rfl
@[simp] theorem Remover.weight_finished : Remover.finished.weight = 0 := rfl
@[simp] theorem Phase.weight_dispatching : Phase.dispatching.weight = 4 := rfl
@[simp] theorem Phase.weight_waiting : Phase.waiting.weight = 3 := rfl
@[simp] theorem Phase.weight_closing : Phase.closing.weight = 2 := rfl
@[simp] theorem Phase.weight_receiving : Phase.receiving.weight = 1 := rfl
@[simp] theorem Phase.weight_returned (r : Option GoError) : (Phase.returned r).weight = 0 := rfl
@[simp] theorem Phase.waited_dispatching : ¬ Phase.dispatching.Waited := id
@[simp] theorem Phase.waited_waiting : ¬ Phase.waiting.Waited := id
@[simp] theorem Phase.waited_closing : Phase.closing.Waited := trivial
@[simp] theorem Phase.waited_receiving : Phase.receiving.Waited := trivial
@[simp] theorem Phase.waited_returned (r : Option GoError) : (Phase.returned r).Waited := trivial

theorem Remover.eq_finished_of_live {r : Remover} (h : r.live = 0) : r = .finished := by
  cases r <;> simp_all

namespace Pool

def held (s : Pool k) : Multiset (Nat × String) := ∑ w, (s.removers w).held

def pending (s : Pool k) : Multiset GoError := ∑ w, (s.removers w).pending

def live (s : Pool k) : Nat := ∑ w, (s.removers w).live

/-- A bound on the steps left: every step takes one off. -/
def measure (s : Pool k) : Nat :=
  4 * s.feed.length + ∑ w, (s.removers w).weight + s.phase.weight +
    (if s.crash = none then 1 else 0)

theorem live_pos (s : Pool k) {w : Fin k} (hw : s.removers w ≠ .finished) : 0 < s.live := by
  have hone : (s.removers w).live = 1 := by
    cases h : s.removers w <;> simp_all
  calc 0 < (s.removers w).live := by omega
    _ ≤ s.live :=
      Finset.single_le_sum (f := fun v => (s.removers v).live) (fun _ _ => Nat.zero_le _)
        (Finset.mem_univ w)

end Pool

/-- The IDs of the calls that returned nil, in the order they were made. -/
def removed (calls : List ((Nat × String) × Option GoError)) : List String :=
  calls.filterMap fun x => if x.2 = none then some x.1.2 else none

/-! ### What `Remove` does to the shared cache -/

theorem remove_eq_ok {c c' : Cache} {itemID : String} (h : Manager.remove c itemID = .ok c') :
    c' = c.erase itemID := by
  cases hres : isReservedName itemID
  · rw [Manager.remove_of_not_reserved hres] at h
    exact (Cache.deleteBlock_eq_ok h).2
  · simp [Manager.remove_of_reserved hres] at h

/-- Whether `Remove` fails, and how, depends only on the item ID and on which blocks fail. -/
theorem errorOf_remove_congr {c c' : Cache} (h : c.failing = c'.failing) (itemID : String) :
    errorOf (Manager.remove c itemID) = errorOf (Manager.remove c' itemID) := by
  cases hres : isReservedName itemID
  · rw [Manager.remove_of_not_reserved hres, Manager.remove_of_not_reserved hres]
    cases hf : c.failing itemID with
    | none =>
      rw [Cache.deleteBlock_of_not_failing hf, Cache.deleteBlock_of_not_failing (h ▸ hf)]
      rfl
    | some text =>
      rw [Cache.deleteBlock_of_failing hf, Cache.deleteBlock_of_failing (h ▸ hf)]
  · rw [Manager.remove_of_reserved hres, Manager.remove_of_reserved hres]

@[simp] theorem foldl_erase_failing (ids : List String) (c : Cache) :
    (ids.foldl Cache.erase c).failing = c.failing := by
  induction ids generalizing c with
  | nil => rfl
  | cons id rest ih => rw [List.foldl_cons, ih, Cache.erase_failing]

/-! ### The invariant -/

/-- The pool's bookkeeping, which holds whatever the cache is and whatever `Remove` returns. Every
occurrence is in exactly one place (with the calling goroutine, held by a remover, or passed to
`Remove`), every error returned is buffered in `errch` or about to be sent, `wg` counts the
removers that have not returned, and the phases of the calling goroutine are in order. -/
structure Shape (itemIDs : List String) (s : Pool k) : Prop where
  noCrash : s.crash = none
  conserve : (s.feed : Multiset (Nat × String)) + s.held + (s.calls.map Prod.fst : List _)
    = itemIDs.enum
  errors : (s.errch : Multiset GoError) + s.pending = (s.calls.filterMap Prod.snd : List GoError)
  wgLive : s.wg = s.live
  finishedClosed : ∀ w, s.removers w = .finished → s.closed = true
  closedFeed : s.closed = true → s.feed = []
  dispatched : s.phase ≠ .dispatching → s.closed = true
  waited : s.phase.Waited → ∀ w, s.removers w = .finished
  errchWaited : s.errchClosed = true → s.phase.Waited
  returned : ∀ r, s.phase = .returned r → r = s.errch.head?

/-- What holds in every state an interleaving reaches from the cache `c`: the bookkeeping, and
each call returned what `Remove` returns on `c`, and the cache is `c` with the IDs of the calls
that returned nil deleted. -/
structure Inv (itemIDs : List String) (c : Cache) (s : Pool k) extends Shape itemIDs s : Prop where
  results : ∀ x ∈ s.calls, x.2 = errorOf (Manager.remove c x.1.2)
  store : s.store = (removed s.calls).foldl Cache.erase c

theorem inv_init (itemIDs : List String) (c : Cache) : Inv itemIDs c (init k itemIDs c) where
  noCrash := rfl
  conserve := by simp [init, Pool.held]
  errors := by simp [init, Pool.pending]
  results _ h := by cases h
  store := rfl
  wgLive := by simp [init, Pool.live]
  finishedClosed _ h := by cases h
  closedFeed h := by cases h
  dispatched h := absurd rfl h
  waited h := h.elim
  errchWaited h := by cases h
  returned _ h := by cases h

@[simp] theorem removed_append (calls calls' : List ((Nat × String) × Option GoError)) :
    removed (calls ++ calls') = removed calls ++ removed calls' :=
  List.filterMap_append _ _ _

/-- **What a step does to the calls and the cache**: nothing, or one more `Remove` call, which
returned what `Remove` returns on the cache as it is and deleted its ID if it returned nil. -/
theorem step_calls {n : Nat} {s s' : Pool k} {e : Event k} (h : step n s e = some s') :
    (s'.calls = s.calls ∧ s'.store = s.store) ∨
      ∃ x, s'.calls = s.calls ++ [x] ∧ x.2 = errorOf (Manager.remove s.store x.1.2) ∧
        s'.store = (removed [x]).foldl Cache.erase s.store := by
  cases e with
  | hand w =>
    obtain ⟨-, -, -, -, -, -, -, rfl⟩ := step_hand h
    exact .inl ⟨rfl, rfl⟩
  | remove w =>
    obtain ⟨-, pos, itemID, -, ⟨store, hremove, rfl⟩ | ⟨err, hremove, rfl⟩⟩ := step_remove h
    · exact .inr ⟨_, rfl, by simp [hremove, errorOf], by simp [removed, remove_eq_ok hremove]⟩
    · exact .inr ⟨_, rfl, by simp [hremove, errorOf], by simp [removed]⟩
  | report w =>
    obtain ⟨-, -, -, -, ⟨-, rfl⟩ | ⟨-, -, rfl⟩⟩ := step_report h <;> exact .inl ⟨rfl, rfl⟩
  | close =>
    obtain ⟨-, -, -, rfl⟩ := step_close h
    exact .inl ⟨rfl, rfl⟩
  | exit w =>
    obtain ⟨-, -, -, ⟨-, rfl⟩ | ⟨-, rfl⟩⟩ := step_exit h <;> exact .inl ⟨rfl, rfl⟩
  | wait =>
    obtain ⟨-, -, -, rfl⟩ := step_wait h
    exact .inl ⟨rfl, rfl⟩
  | closeErrch =>
    obtain ⟨-, -, rfl⟩ := step_closeErrch h
    exact .inl ⟨rfl, rfl⟩
  | receive =>
    obtain ⟨-, -, rfl⟩ := step_receive h
    exact .inl ⟨rfl, rfl⟩

/-! ### Each step keeps the invariant -/

section Preservation

variable {itemIDs : List String} {c : Cache} {s s' : Pool k} {w : Fin k}

/-- A remover that is not past its loop keeps the calling goroutine before `wg.Wait()` returns. -/
theorem Shape.not_waited (hshape : Shape itemIDs s) (hw : s.removers w ≠ .finished) :
    ¬ s.phase.Waited :=
  fun hwaited => hw (hshape.waited hwaited w)

theorem Shape.hand_step (hshape : Shape itemIDs s) (h : step itemIDs.length s (.hand w) = some s') :
    Shape itemIDs s' := by
  obtain ⟨-, hphase, hw, pos, itemID, rest, hfeed, rfl⟩ := step_hand h
  have hheld := sum_update_add s.removers Remover.held w (.removing pos itemID)
  have hpending := sum_update_add s.removers Remover.pending w (.removing pos itemID)
  have hlive := sum_update_add s.removers Remover.live w (.removing pos itemID)
  simp only [hw, Remover.held_ranging, Remover.held_removing, Remover.pending_ranging,
    Remover.pending_removing, Remover.live_ranging, Remover.live_removing, add_zero,
    add_left_inj] at hheld hpending hlive
  have hconserve := hshape.conserve
  rw [hfeed, ← Multiset.cons_coe, ← Multiset.singleton_add] at hconserve
  refine { hshape with
    conserve := ?_
    errors := by simpa only [Pool.pending, hpending] using hshape.errors
    wgLive := by simpa only [Pool.live, hlive] using hshape.wgLive
    finishedClosed := fun v hv => hshape.finishedClosed v (eq_of_update_eq hv (by simp))
    closedFeed := fun hc => by simp [hshape.closedFeed hc] at hfeed
    waited := fun hwaited => absurd hwaited (by simp [hphase]) }
  simp only [Pool.held] at hheld hconserve ⊢
  rw [hheld, ← hconserve]
  abel

theorem Shape.remove_step (hshape : Shape itemIDs s)
    (h : step itemIDs.length s (.remove w) = some s') : Shape itemIDs s' := by
  obtain ⟨-, pos, itemID, hw, hstep⟩ := step_remove h
  have hnotWaited := hshape.not_waited (w := w) (by simp [hw])
  have hconserve : ∀ r : Remover, r.held = 0 → ∀ err,
      (s.feed : Multiset (Nat × String)) + ∑ v, (Function.update s.removers w r v).held
        + (((s.calls ++ [((pos, itemID), err)]).map Prod.fst : List (Nat × String)) :
          Multiset (Nat × String)) = itemIDs.enum := by
    intro r hr err
    have hheld := sum_update_add s.removers Remover.held w r
    simp only [hw, Remover.held_removing, hr, add_zero] at hheld
    rw [← hshape.conserve, Pool.held, ← hheld, List.map_append, ← Multiset.coe_add]
    simp only [List.map_cons, List.map_nil, Multiset.coe_singleton]
    abel
  rcases hstep with ⟨store, -, rfl⟩ | ⟨err, -, rfl⟩
  · have hpending := sum_update_add s.removers Remover.pending w .ranging
    have hlive := sum_update_add s.removers Remover.live w .ranging
    simp only [hw, Remover.pending_removing, Remover.pending_ranging, Remover.live_removing,
      Remover.live_ranging, add_zero, add_left_inj] at hpending hlive
    exact { hshape with
      conserve := hconserve .ranging rfl none
      errors := by simpa [Pool.pending, hpending] using hshape.errors
      wgLive := by simpa only [Pool.live, hlive] using hshape.wgLive
      finishedClosed := fun v hv => hshape.finishedClosed v (eq_of_update_eq hv (by simp))
      waited := fun hwaited => absurd hwaited hnotWaited }
  · have hpending := sum_update_add s.removers Remover.pending w (.reporting pos err)
    have hlive := sum_update_add s.removers Remover.live w (.reporting pos err)
    simp only [hw, Remover.pending_removing, Remover.pending_reporting, Remover.live_removing,
      Remover.live_reporting, add_zero, add_left_inj] at hpending hlive
    refine { hshape with
      conserve := hconserve (.reporting pos err) rfl (some err)
      errors := ?_
      wgLive := by simpa only [Pool.live, hlive] using hshape.wgLive
      finishedClosed := fun v hv => hshape.finishedClosed v (eq_of_update_eq hv (by simp))
      waited := fun hwaited => absurd hwaited hnotWaited }
    simp only [Pool.pending] at hpending ⊢
    rw [hpending, List.filterMap_append, ← Multiset.coe_add, ← hshape.errors, Pool.pending]
    simp only [List.filterMap_cons, List.filterMap_nil, Multiset.coe_singleton]
    abel

theorem Shape.report_step (hshape : Shape itemIDs s)
    (h : step itemIDs.length s (.report w) = some s') : Shape itemIDs s' := by
  obtain ⟨-, pos, err, hw, ⟨hclosed, -⟩ | ⟨-, -, rfl⟩⟩ := step_report h
  · exact absurd (hshape.errchWaited hclosed) (hshape.not_waited (w := w) (by simp [hw]))
  have hnotWaited := hshape.not_waited (w := w) (by simp [hw])
  have hheld := sum_update_add s.removers Remover.held w .ranging
  have hpending := sum_update_add s.removers Remover.pending w .ranging
  have hlive := sum_update_add s.removers Remover.live w .ranging
  simp only [hw, Remover.held_reporting, Remover.held_ranging, Remover.pending_reporting,
    Remover.pending_ranging, Remover.live_reporting, Remover.live_ranging, add_zero,
    add_left_inj] at hheld hpending hlive
  refine { hshape with
    conserve := by simpa only [Pool.held, hheld] using hshape.conserve
    errors := ?_
    wgLive := by simpa only [Pool.live, hlive] using hshape.wgLive
    finishedClosed := fun v hv => hshape.finishedClosed v (eq_of_update_eq hv (by simp))
    waited := fun hwaited => absurd hwaited hnotWaited
    returned := fun r hr => (hnotWaited (by rw [show s.phase = _ from hr]; trivial)).elim }
  simp only [Pool.pending] at hpending ⊢
  rw [← hshape.errors, Pool.pending, ← hpending, ← Multiset.coe_add, Multiset.coe_singleton]
  abel

theorem Shape.close_step (hshape : Shape itemIDs s) (h : step itemIDs.length s .close = some s') :
    Shape itemIDs s' := by
  obtain ⟨-, hphase, hfeed, rfl⟩ := step_close h
  exact { hshape with
    finishedClosed := fun _ _ => rfl
    closedFeed := fun _ => hfeed
    dispatched := fun _ => rfl
    waited := fun hwaited => hwaited.elim
    errchWaited := fun hc => absurd (hshape.errchWaited hc) (by simp [hphase])
    returned := fun _ hr => by cases hr }

theorem Shape.exit_step (hshape : Shape itemIDs s) (h : step itemIDs.length s (.exit w) = some s') :
    Shape itemIDs s' := by
  obtain ⟨-, hclosed, hw, ⟨hwg, -⟩ | ⟨-, rfl⟩⟩ := step_exit h
  · have := s.live_pos (w := w) (by simp [hw])
    have := hshape.wgLive
    omega
  have hnotWaited := hshape.not_waited (w := w) (by simp [hw])
  have hheld := sum_update_add s.removers Remover.held w .finished
  have hpending := sum_update_add s.removers Remover.pending w .finished
  have hlive := sum_update_add s.removers Remover.live w .finished
  simp only [hw, Remover.held_ranging, Remover.held_finished, Remover.pending_ranging,
    Remover.pending_finished, Remover.live_ranging, Remover.live_finished, add_zero,
    add_left_inj] at hheld hpending hlive
  refine { hshape with
    conserve := by simpa only [Pool.held, hheld] using hshape.conserve
    errors := by simpa only [Pool.pending, hpending] using hshape.errors
    wgLive := ?_
    finishedClosed := fun _ _ => hclosed
    waited := fun hwaited => absurd hwaited hnotWaited }
  have := hshape.wgLive
  simp only [Pool.live] at hlive this ⊢
  omega

theorem Shape.wait_step (hshape : Shape itemIDs s) (h : step itemIDs.length s .wait = some s') :
    Shape itemIDs s' := by
  obtain ⟨-, hphase, hwg, rfl⟩ := step_wait h
  have hdone : ∀ v, s.removers v = .finished := by
    have hlive : s.live = 0 := hshape.wgLive ▸ hwg
    simp only [Pool.live, Finset.sum_eq_zero_iff, Finset.mem_univ, true_implies] at hlive
    exact fun v => Remover.eq_finished_of_live (hlive v)
  exact { hshape with
    dispatched := fun _ => hshape.dispatched (by simp [hphase])
    waited := fun _ => hdone
    errchWaited := fun _ => trivial
    returned := fun _ hr => by cases hr }

theorem Shape.closeErrch_step (hshape : Shape itemIDs s)
    (h : step itemIDs.length s .closeErrch = some s') : Shape itemIDs s' := by
  obtain ⟨-, hphase, rfl⟩ := step_closeErrch h
  exact { hshape with
    dispatched := fun _ => hshape.dispatched (by simp [hphase])
    waited := fun _ => hshape.waited (by simp [hphase])
    errchWaited := fun _ => trivial
    returned := fun _ hr => by cases hr }

theorem Shape.receive_step (hshape : Shape itemIDs s)
    (h : step itemIDs.length s .receive = some s') : Shape itemIDs s' := by
  obtain ⟨-, hphase, rfl⟩ := step_receive h
  exact { hshape with
    dispatched := fun _ => hshape.dispatched (by simp [hphase])
    waited := fun _ => hshape.waited (by simp [hphase])
    errchWaited := fun _ => trivial
    returned := fun _ hr => (Phase.returned.inj hr).symm }

theorem Shape.preserve (hshape : Shape itemIDs s) {e : Event k}
    (h : step itemIDs.length s e = some s') : Shape itemIDs s' := by
  cases e with
  | hand w => exact hshape.hand_step h
  | remove w => exact hshape.remove_step h
  | report w => exact hshape.report_step h
  | close => exact hshape.close_step h
  | exit w => exact hshape.exit_step h
  | wait => exact hshape.wait_step h
  | closeErrch => exact hshape.closeErrch_step h
  | receive => exact hshape.receive_step h

/-- Each step keeps the invariant: the bookkeeping as `Shape.preserve` says, and a new call
returns on the cache as it is what it returns on `c`, since the cache keeps the blocks that fail. -/
theorem Inv.preserve (hinv : Inv itemIDs c s) {e : Event k}
    (h : step itemIDs.length s e = some s') : Inv itemIDs c s' := by
  have hshape := hinv.toShape.preserve h
  rcases step_calls h with ⟨hcalls, hstore⟩ | ⟨x, hcalls, hx, hstore⟩
  · exact { hshape with
      results := hcalls ▸ hinv.results
      store := by rw [hstore, hcalls, hinv.store] }
  · have hcongr : errorOf (Manager.remove s.store x.1.2) = errorOf (Manager.remove c x.1.2) :=
      errorOf_remove_congr (by rw [hinv.store, foldl_erase_failing]) _
    refine { hshape with
      results := fun y hy => ?_
      store := by rw [hstore, hcalls, removed_append, List.foldl_append, hinv.store] }
    rcases List.mem_append.mp (hcalls ▸ hy) with hy | hy
    · exact hinv.results y hy
    · rw [List.mem_singleton.mp hy, hx, hcongr]

/-- **The invariant.** It holds in every state that some interleaving reaches. -/
theorem reachable_inv (hreach : Reachable (step itemIDs.length) (init k itemIDs c) s) :
    Inv itemIDs c s :=
  hreach.invariant _ (inv_init itemIDs c) fun _ _ _ hinv he => hinv.preserve he

end Preservation

/-! ### Every run ends -/

section Termination

variable {n : Nat} {s s' : Pool k}

theorem measure_step {e : Event k} (h : step n s e = some s') : s'.measure < s.measure := by
  cases e with
  | hand w =>
    obtain ⟨-, -, hw, pos, itemID, rest, hfeed, rfl⟩ := step_hand h
    have hweight := sum_update_add s.removers Remover.weight w (.removing pos itemID)
    simp only [hw, Remover.weight_ranging, Remover.weight_removing] at hweight
    simp only [Pool.measure, hfeed, List.length_cons] at hweight ⊢
    omega
  | remove w =>
    obtain ⟨-, pos, itemID, hw, ⟨store, -, rfl⟩ | ⟨err, -, rfl⟩⟩ := step_remove h
    · have hweight := sum_update_add s.removers Remover.weight w .ranging
      simp only [hw, Remover.weight_ranging, Remover.weight_removing] at hweight
      simp only [Pool.measure] at hweight ⊢
      omega
    · have hweight := sum_update_add s.removers Remover.weight w (.reporting pos err)
      simp only [hw, Remover.weight_reporting, Remover.weight_removing] at hweight
      simp only [Pool.measure] at hweight ⊢
      omega
  | report w =>
    obtain ⟨hcrash, pos, err, hw, ⟨-, rfl⟩ | ⟨-, -, rfl⟩⟩ := step_report h
    · simp [Pool.measure, hcrash]
    · have hweight := sum_update_add s.removers Remover.weight w .ranging
      simp only [hw, Remover.weight_ranging, Remover.weight_reporting] at hweight
      simp only [Pool.measure] at hweight ⊢
      omega
  | close =>
    obtain ⟨-, hphase, -, rfl⟩ := step_close h
    simp [Pool.measure, hphase]
  | exit w =>
    obtain ⟨hcrash, -, hw, ⟨-, rfl⟩ | ⟨-, rfl⟩⟩ := step_exit h
    · simp [Pool.measure, hcrash]
    · have hweight := sum_update_add s.removers Remover.weight w .finished
      simp only [hw, Remover.weight_ranging, Remover.weight_finished] at hweight
      simp only [Pool.measure] at hweight ⊢
      omega
  | wait =>
    obtain ⟨-, hphase, -, rfl⟩ := step_wait h
    simp [Pool.measure, hphase]
  | closeErrch =>
    obtain ⟨-, hphase, rfl⟩ := step_closeErrch h
    simp [Pool.measure, hphase]
  | receive =>
    obtain ⟨-, hphase, rfl⟩ := step_receive h
    simp [Pool.measure, hphase]

/-- **No run is infinite**, whatever the scheduler does. -/
theorem runs_end (run : ℕ → Pool k) : ¬ ∀ i, ∃ e, step n (run i) e = some (run (i + 1)) :=
  @no_infinite_run _ _ (step n) Pool.measure (fun _ _ _ => measure_step) run

end Termination

/-! ### What a run ends with -/

theorem removed_of_succeeded {calls : List ((Nat × String) × Option GoError)}
    (h : ∀ x ∈ calls, x.2 = none) : removed calls = (calls.map Prod.fst).map Prod.snd := by
  induction calls with
  | nil => rfl
  | cons x rest ih =>
    simp only [removed, List.filterMap_cons, h x (List.mem_cons_self _ _), if_true,
      List.map_cons, List.cons.injEq, true_and]
    exact ih fun y hy => h y (List.mem_cons_of_mem _ hy)

section Ending

variable {itemIDs : List String} {c : Cache} {s : Pool k}

theorem Pool.pending_ne_zero (s : Pool k) (w : Fin k) (hw : (s.removers w).pending ≠ 0) :
    s.pending ≠ 0 := by
  simp only [Pool.pending, ne_eq, Finset.sum_eq_zero_iff, Finset.mem_univ, true_implies, not_forall]
  exact ⟨w, hw⟩

/-- **The buffer never overflows.** The errors buffered in `errch`, with those about to be sent,
are at most the IDs dispatched so far, so at most `len(itemIDs)`, the capacity of `errch`. -/
theorem Shape.errch_bound (hshape : Shape itemIDs s) :
    s.errch.length + Multiset.card s.pending ≤ itemIDs.length - s.feed.length := by
  have hconserve := congrArg Multiset.card hshape.conserve
  have herrors := congrArg Multiset.card hshape.errors
  simp only [Multiset.card_add, Multiset.coe_card, List.length_map, List.enum_length]
    at hconserve herrors
  have := List.length_filterMap_le Prod.snd s.calls
  omega

/-- **No remover blocks on `errch`.** A remover's send on `errch` goes through at once: the channel
is open and the buffer has room. -/
theorem Shape.report_enabled (hshape : Shape itemIDs s) {w : Fin k} {pos : Nat} {err : GoError}
    (hw : s.removers w = .reporting pos err) :
    step itemIDs.length s (.report w)
      = some { s with
          errch := s.errch ++ [err], removers := Function.update s.removers w .ranging } := by
  have hopen : s.errchClosed = false := by
    cases hc : s.errchClosed
    · rfl
    · exact absurd (hshape.errchWaited hc) (hshape.not_waited (w := w) (by simp [hw]))
  have hpending := Multiset.card_pos.mpr (s.pending_ne_zero w (by simp [hw]))
  have hbound := hshape.errch_bound
  have hlt : s.errch.length < itemIDs.length := by omega
  simp [step, hshape.noCrash, hw, hopen, hlt]

theorem step_remove_enabled {n : Nat} (hcrash : s.crash = none) {w : Fin k} {pos : Nat}
    {itemID : String} (hw : s.removers w = .removing pos itemID) :
    ∃ s', step n s (.remove w) = some s' := by
  simp only [step, hcrash, hw]
  split <;> exact ⟨_, rfl⟩

theorem step_remove_of_ok {n : Nat} (hcrash : s.crash = none) {w : Fin k} {pos : Nat}
    {itemID : String} (hw : s.removers w = .removing pos itemID) {store : Cache}
    (hremove : Manager.remove s.store itemID = .ok store) :
    step n s (.remove w) = some { s with
      store := store
      removers := Function.update s.removers w .ranging
      calls := s.calls ++ [((pos, itemID), none)] } := by
  simp only [step, hcrash, hw, hremove]

/-- **No deadlock.** Until the calling goroutine has returned, some goroutine can move. -/
theorem Shape.progress (hshape : Shape itemIDs s) (hk : 0 < k) (hnot : ∀ r, s.phase ≠ .returned r) :
    ∃ e s', step itemIDs.length s e = some s' := by
  have hcrash := hshape.noCrash
  by_cases hbusy : ∃ w, s.removers w ≠ .ranging ∧ s.removers w ≠ .finished
  · obtain ⟨w, hran, hfin⟩ := hbusy
    cases hw : s.removers w with
    | ranging => exact absurd hw hran
    | finished => exact absurd hw hfin
    | removing pos itemID => exact ⟨_, step_remove_enabled hcrash hw⟩
    | reporting pos err => exact ⟨_, _, hshape.report_enabled hw⟩
  · push_neg at hbusy
    have hidle : ∀ w, s.removers w = .ranging ∨ s.removers w = .finished := fun w => by
      by_cases h : s.removers w = .ranging
      · exact .inl h
      · exact .inr (hbusy w h)
    cases hphase : s.phase with
    | dispatching =>
      cases hfeed : s.feed with
      | cons x rest =>
        obtain ⟨pos, itemID⟩ := x
        have hw₀ : s.removers ⟨0, hk⟩ = .ranging := (hidle _).resolve_right fun hfin => by
          simp [hshape.closedFeed (hshape.finishedClosed _ hfin)] at hfeed
        exact ⟨.hand ⟨0, hk⟩, by simp [step, hcrash, hphase, hfeed, hw₀]⟩
      | nil => exact ⟨.close, by simp [step, hcrash, hphase, hfeed]⟩
    | waiting =>
      by_cases hran : ∃ w, s.removers w = .ranging
      · obtain ⟨w, hw⟩ := hran
        have hclosed := hshape.dispatched (by simp [hphase])
        have hwg : s.wg ≠ 0 := by
          have := s.live_pos (w := w) (by simp [hw])
          have := hshape.wgLive
          omega
        exact ⟨.exit w, by simp [step, hcrash, hw, hclosed, hwg]⟩
      · push_neg at hran
        have hwg : s.wg = 0 := by
          rw [hshape.wgLive, Pool.live]
          exact Finset.sum_eq_zero fun w _ => by simp [(hidle w).resolve_left (hran w)]
        exact ⟨.wait, by simp [step, hcrash, hphase, hwg]⟩
    | closing => exact ⟨.closeErrch, by simp [step, hcrash, hphase]⟩
    | receiving => exact ⟨.receive, by simp [step, hcrash, hphase]⟩
    | returned r => exact absurd hphase (hnot r)

/-- **`wg.Wait()` returns and the call returns.** Where nothing can move, the calling goroutine
has returned. -/
theorem Shape.stuck (hshape : Shape itemIDs s) (hk : 0 < k)
    (hstuck : Stuck (step itemIDs.length) s) : ∃ r, s.phase = .returned r := by
  by_contra hnot
  push_neg at hnot
  obtain ⟨e, s', he⟩ := hshape.progress hk hnot
  simp [hstuck e] at he

/-- Once the calling goroutine has returned, every remover has returned, each occurrence was
passed to `Remove` exactly once, and `errch` holds exactly the errors the calls returned. -/
theorem Shape.returned_done (hshape : Shape itemIDs s) {r : Option GoError}
    (hr : s.phase = .returned r) :
    (s.calls.map Prod.fst).Perm itemIDs.enum ∧ s.errch.Perm (s.calls.filterMap Prod.snd) ∧
      r = s.errch.head? := by
  have hdone := hshape.waited (by simp [hr])
  have hfeed := hshape.closedFeed (hshape.dispatched (by simp [hr]))
  have hheld : s.held = 0 := Finset.sum_eq_zero fun w _ => by simp [hdone w]
  have hpending : s.pending = 0 := Finset.sum_eq_zero fun w _ => by simp [hdone w]
  have hconserve := hshape.conserve
  have herrors := hshape.errors
  rw [hfeed, hheld] at hconserve
  rw [hpending] at herrors
  exact ⟨by simpa using hconserve, by simpa using herrors, hshape.returned r hr⟩

/-- **What `RemoveMany` returns.** Nil exactly when every `Remove` call returned nil, and otherwise
one of the errors the calls returned. -/
theorem Shape.returned_error (hshape : Shape itemIDs s) {r : Option GoError}
    (hr : s.phase = .returned r) :
    (r = none ↔ ∀ x ∈ s.calls, x.2 = none) ∧ ∀ e, r = some e → ∃ x ∈ s.calls, x.2 = some e := by
  obtain ⟨-, hperm, rfl⟩ := hshape.returned_done hr
  refine ⟨?_, fun e he => ?_⟩
  · rw [List.head?_eq_none_iff, ← List.filterMap_eq_nil_iff]
    exact ⟨fun h => (h ▸ hperm).symm.eq_nil, fun h => (h ▸ hperm).eq_nil⟩
  · exact List.mem_filterMap.mp (hperm.mem_iff.mp (List.mem_of_mem_head? he))

/-- **The cache after a nil return** is the initial cache with every ID of `itemIDs` deleted,
whatever the interleaving. -/
theorem Inv.returned_store (hinv : Inv itemIDs c s) (hr : s.phase = .returned none) :
    s.store = itemIDs.foldl Cache.erase c := by
  obtain ⟨hcalls, -, -⟩ := hinv.returned_done hr
  have hok := (hinv.returned_error hr).1.mp rfl
  have hperm : (removed s.calls).Perm itemIDs := by
    rw [removed_of_succeeded hok, ← List.enum_map_snd itemIDs]
    exact hcalls.map Prod.snd
  rw [hinv.store]
  exact hperm.foldl_eq' (fun x _ y _ z => @Cache.erase_comm z x y) c

end Ending

/-! ### What a call can return -/

/-- What `RemoveMany` returns once `errch` has been read. -/
def reply : Option GoError → GoResult Unit
  | none => .ok ()
  | some e => .error (.error e)

/-- What a `RemoveMany` call with `k` removers can end with, in some interleaving: the value it
returns and the cache as it leaves it. -/
def Returns (k : Nat) (itemIDs : List String) (c c' : Cache) (r : GoResult Unit) : Prop :=
  ∃ s : Pool k, Reachable (step itemIDs.length) (init k itemIDs c) s ∧
    ∃ e, s.phase = .returned e ∧ c' = s.store ∧ r = reply e

theorem foldl_erase_lookup {key : String} (ids : List String) (hkey : key ∉ ids) (c : Cache) :
    (ids.foldl Cache.erase c).blocks.lookup key = c.blocks.lookup key := by
  induction ids generalizing c with
  | nil => rfl
  | cons id rest ih =>
    have hne : key ≠ id := fun h => hkey (h ▸ List.mem_cons_self _ _)
    rw [List.foldl_cons, ih (fun h => hkey (List.mem_cons_of_mem _ h)), Cache.lookup_erase,
      if_neg hne]

/-- The IDs of calls that returned what `Remove` returns on `c` are the IDs on which `Remove`
succeeds on `c`. -/
theorem removed_eq_filter {c : Cache} {calls : List ((Nat × String) × Option GoError)}
    (h : ∀ x ∈ calls, x.2 = errorOf (Manager.remove c x.1.2)) :
    removed calls = (calls.map fun x => x.1.2).filter fun itemID =>
      (errorOf (Manager.remove c itemID)).isNone := by
  induction calls with
  | nil => rfl
  | cons x rest ih =>
    obtain ⟨⟨pos, itemID⟩, err⟩ := x
    have hx : err = errorOf (Manager.remove c itemID) := h _ (List.mem_cons_self _ _)
    have hrest := ih fun y hy => h y (List.mem_cons_of_mem _ hy)
    subst hx
    simp only [removed] at hrest ⊢
    rw [List.filterMap_cons, hrest, List.map_cons, List.filter_cons]
    cases errorOf (Manager.remove c itemID) <;> simp

section Returns

variable {itemIDs : List String} {c c' : Cache} {r : GoResult Unit}

/-- An ID the cache lost was passed to a `Remove` call that returned nil. -/
theorem Inv.mem_removed {s : Pool k} (hinv : Inv itemIDs c s) {itemID : String}
    (hmem : itemID ∈ removed s.calls) : errorOf (Manager.remove c itemID) = none := by
  obtain ⟨x, hx, hsome⟩ := List.mem_filterMap.mp hmem
  split at hsome
  · cases hsome
    rw [← hinv.results x hx, ‹x.2 = none›]
  · cases hsome

/-- A call leaves every block that `Remove` refuses to delete as it was. -/
theorem Returns.lookup (h : Returns k itemIDs c c' r) {key : String}
    (hkey : errorOf (Manager.remove c key) ≠ none) :
    c'.blocks.lookup key = c.blocks.lookup key := by
  obtain ⟨s, hreach, e, -, rfl, -⟩ := h
  have hinv := reachable_inv hreach
  rw [hinv.store]
  exact foldl_erase_lookup _ (fun hmem => hkey (hinv.mem_removed hmem)) c

/-- Once the call has returned, each of its IDs was passed to `Remove`. -/
theorem Shape.exists_call {s : Pool k} (hshape : Shape itemIDs s) {e : Option GoError}
    (hphase : s.phase = .returned e) {itemID : String} (hmem : itemID ∈ itemIDs) :
    ∃ x ∈ s.calls, x.1.2 = itemID := by
  obtain ⟨pos, hpos⟩ : ∃ pos, (pos, itemID) ∈ itemIDs.enum := by
    obtain ⟨x, hx, rfl⟩ := List.mem_map.mp (List.enum_map_snd itemIDs ▸ hmem)
    exact ⟨x.1, hx⟩
  obtain ⟨x, hx, hfst⟩ := List.mem_map.mp ((hshape.returned_done hphase).1.mem_iff.mpr hpos)
  exact ⟨x, hx, by rw [hfst]⟩

/-- A call fails when `Remove` fails on one of its IDs. -/
theorem Returns.not_ok (h : Returns k itemIDs c c' r) {itemID : String} (hmem : itemID ∈ itemIDs)
    (hfail : errorOf (Manager.remove c itemID) ≠ none) : r ≠ .ok () := by
  obtain ⟨s, hreach, e, hphase, -, rfl⟩ := h
  have hinv := reachable_inv hreach
  obtain ⟨x, hx, rfl⟩ := hinv.exists_call hphase hmem
  cases e with
  | none =>
    have hnone := (hinv.returned_error hphase).1.mp rfl x hx
    exact absurd (hinv.results x hx ▸ hnone) hfail
  | some e => simp [reply]

/-- **The cache a call leaves**, nil or not: the initial cache with exactly the IDs on which
`Remove` succeeds deleted, whatever the interleaving. -/
theorem Returns.store_eq (h : Returns k itemIDs c c' r) :
    c' = (itemIDs.filter fun itemID => (errorOf (Manager.remove c itemID)).isNone).foldl
      Cache.erase c := by
  obtain ⟨s, hreach, e, hphase, rfl, -⟩ := h
  have hinv := reachable_inv hreach
  obtain ⟨hcalls, -, -⟩ := hinv.returned_done hphase
  have hids : (s.calls.map fun x => x.1.2).Perm itemIDs := by
    have := hcalls.map Prod.snd
    rwa [List.enum_map_snd, List.map_map] at this
  rw [hinv.store, removed_eq_filter hinv.results]
  exact (hids.filter _).foldl_eq' (fun x _ y _ z => @Cache.erase_comm z x y) c

/-- Each `Remove` call of a returned call was on one of its IDs. -/
theorem Shape.call_mem {s : Pool k} (hshape : Shape itemIDs s) {e : Option GoError}
    (hphase : s.phase = .returned e) {x : (Nat × String) × Option GoError} (hx : x ∈ s.calls) :
    x.1.2 ∈ itemIDs :=
  List.snd_mem_of_mem_enum
    ((hshape.returned_done hphase).1.mem_iff.mp (List.mem_map_of_mem Prod.fst hx))

/-- Some interleaving returns. -/
theorem Returns.exists (hk : 0 < k) (itemIDs : List String) (c : Cache) :
    ∃ c' r, Returns k itemIDs c c' r := by
  obtain ⟨s, hreach, hstuck⟩ : ∃ s : Pool k, Reachable (step itemIDs.length)
      (init k itemIDs c) s ∧ Stuck (step itemIDs.length) s :=
    Reachable.exists_stuck Pool.measure (fun _ _ _ => measure_step) .start
  obtain ⟨e, hphase⟩ := (reachable_inv hreach).stuck hk hstuck
  exact ⟨_, _, s, hreach, e, hphase, rfl, rfl⟩

/-- A call returns nil when `Remove` succeeds on every ID. -/
theorem Returns.eq_ok (h : Returns k itemIDs c c' r)
    (hok : ∀ itemID ∈ itemIDs, errorOf (Manager.remove c itemID) = none) : r = .ok () := by
  obtain ⟨s, hreach, e, hphase, -, rfl⟩ := h
  have hinv := reachable_inv hreach
  obtain rfl : e = none := (hinv.returned_error hphase).1.mpr fun x hx => by
    rw [hinv.results x hx]
    exact hok _ (hinv.call_mem hphase hx)
  rfl

/-- A call that fails fails with the error of a `Remove` call on one of its IDs. -/
theorem Returns.error (h : Returns k itemIDs c c' r) {f : Fault} (hf : r = .error f) :
    ∃ itemID ∈ itemIDs, ∃ e, errorOf (Manager.remove c itemID) = some e ∧ f = .error e := by
  obtain ⟨s, hreach, e, hphase, -, rfl⟩ := h
  have hinv := reachable_inv hreach
  cases e with
  | none => cases hf
  | some e =>
    obtain ⟨x, hx, hxe⟩ := (hinv.returned_error hphase).2 e rfl
    simp only [reply, Except.error.injEq] at hf
    exact ⟨x.1.2, hinv.call_mem hphase hx, e, by rw [← hinv.results x hx, hxe], hf.symm⟩

end Returns

end KopiaMetadata.RemoveMany
