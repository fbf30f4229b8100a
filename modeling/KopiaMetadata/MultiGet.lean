import KopiaMetadata.Manager
import KopiaMetadata.Interleaving

/-!
# The goroutines of `MultiGet`

`MultiGet` starts `parallelFetches` fetchers that range over the unbuffered channel `inputs`, a
feeder that sends every item ID on `inputs` and then closes it, and collects exactly
`len(itemIDs)` results from the unbuffered channel `ch` on the calling goroutine. Each send on an
unbuffered channel meets its receive in one step, so a run is a sequence of events, each one
goroutine's step or one meeting of two of them, in any order the scheduler picks.

The store is not modified during the call, so a fetch is a fixed function `fetch` of the item ID
(`GetMetadata` on the cache as it is). A panic in a fetch ends the program, and nothing moves
after it. Messages carry the position of the item in `itemIDs`: the code does not send it, but it
tells two occurrences of one ID apart, and the ghost fields `calls` and `handed` record the
`GetMetadata` calls and which fetcher took which occurrence.
-/

namespace KopiaMetadata.MultiGet

/-- A fetcher goroutine: blocked in `range inputs`, holding an ID it has not fetched yet, blocked
in `ch <- singleReadResult{...}`, or returned. -/
inductive Fetcher (β : Type) where
  | ranging
  | fetching (pos : Nat) (itemID : String)
  | sending (pos : Nat) (itemID : String) (r : Except GoError β)
  | exited

/-- The goroutines of one `MultiGet` call. The collector's loop counter `i` is `received.length`. -/
structure Pool (k : Nat) (β : Type) where
  feed : List (Nat × String)
  closed : Bool
  fetchers : Fin k → Fetcher β
  received : List (Nat × String)
  resultErr : Option GoError
  resultMap : String → Option β
  crash : Option Panic
  calls : List (Nat × String)
  handed : List (Nat × Fin k)

variable {k : Nat} {β : Type}

/-- The goroutines as `MultiGet` starts them. -/
def init (k : Nat) (itemIDs : List String) : Pool k β where
  feed := itemIDs.enum
  closed := false
  fetchers := fun _ => .ranging
  received := []
  resultErr := none
  resultMap := fun _ => none
  crash := none
  calls := []
  handed := []

/-- What one step of the program can be. -/
inductive Event (k : Nat) where
  /-- The feeder's `inputs <- i` meets fetcher `w`'s `range inputs`. -/
  | hand (w : Fin k)
  /-- Fetcher `w` calls `GetMetadata`. -/
  | fetch (w : Fin k)
  /-- Fetcher `w`'s `ch <- r` meets the collector's `<-ch`. -/
  | deliver (w : Fin k)
  /-- The feeder's `close(inputs)`. -/
  | close
  /-- Fetcher `w`'s `range inputs` ends on the closed channel. -/
  | exit (w : Fin k)

/-- The collector's loop body on `resultErr` and `resultMap`: `resultErr = r.err` on an error,
`resultMap[r.id] = r.contents` otherwise. -/
def absorb (acc : Option GoError × (String → Option β)) (itemID : String) :
    Except GoError β → Option GoError × (String → Option β)
  | .error e => (some e, acc.2)
  | .ok v => (acc.1, Function.update acc.2 itemID (some v))

namespace Pool

/-- The collector takes fetcher `w`'s result. -/
def collect (s : Pool k β) (w : Fin k) (pos : Nat) (itemID : String) (r : Except GoError β) :
    Pool k β :=
  { s with
    fetchers := Function.update s.fetchers w .ranging
    received := s.received ++ [(pos, itemID)]
    resultErr := (absorb (s.resultErr, s.resultMap) itemID r).1
    resultMap := (absorb (s.resultErr, s.resultMap) itemID r).2 }

/-- What `MultiGet` returns once its loop has collected every result. -/
def result (s : Pool k β) : Except GoError (String → Option β) :=
  match s.resultErr with
  | some e => .error e
  | none => .ok s.resultMap

theorem result_eq_error {s : Pool k β} {e : GoError} :
    s.result = .error e ↔ s.resultErr = some e := by
  unfold result
  split <;> simp_all

end Pool

/-- One step of the program, if it is enabled. `n` is `len(itemIDs)`. -/
def step (fetch : String → GoResult β) (n : Nat) (s : Pool k β) : Event k → Option (Pool k β)
  | .hand w =>
    match s.crash, s.feed, s.fetchers w with
    | none, (pos, itemID) :: rest, .ranging =>
      some { s with
        feed := rest
        fetchers := Function.update s.fetchers w (.fetching pos itemID)
        handed := s.handed ++ [(pos, w)] }
    | _, _, _ => none
  | .fetch w =>
    match s.crash, s.fetchers w with
    | none, .fetching pos itemID =>
      match fetch itemID with
      | .ok v => some { s with
          fetchers := Function.update s.fetchers w (.sending pos itemID (.ok v))
          calls := s.calls ++ [(pos, itemID)] }
      | .error (.error e) => some { s with
          fetchers := Function.update s.fetchers w (.sending pos itemID (.error e))
          calls := s.calls ++ [(pos, itemID)] }
      | .error (.panic p) => some { s with crash := some p, calls := s.calls ++ [(pos, itemID)] }
    | _, _ => none
  | .deliver w =>
    match s.crash, s.fetchers w with
    | none, .sending pos itemID r =>
      if s.received.length < n then some (s.collect w pos itemID r) else none
    | _, _ => none
  | .close =>
    if s.crash = none ∧ s.feed = [] ∧ s.closed = false then some { s with closed := true } else none
  | .exit w =>
    match s.crash, s.fetchers w with
    | none, .ranging =>
      if s.closed then some { s with fetchers := Function.update s.fetchers w .exited }
        else none
    | _, _ => none

/-! ### What one step can do -/

section Steps

variable {fetch : String → GoResult β} {n : Nat} {s s' : Pool k β} {w : Fin k}

theorem step_hand (h : step fetch n s (.hand w) = some s') :
    s.crash = none ∧ s.fetchers w = .ranging ∧ ∃ pos itemID rest, s.feed = (pos, itemID) :: rest ∧
      s' = { s with
        feed := rest
        fetchers := Function.update s.fetchers w (.fetching pos itemID)
        handed := s.handed ++ [(pos, w)] } := by
  simp only [step] at h
  split at h
  · rename_i pos itemID rest hcrash hfeed hw
    cases h
    exact ⟨hcrash, hw, pos, itemID, rest, hfeed, rfl⟩
  · cases h

theorem step_fetch (h : step fetch n s (.fetch w) = some s') :
    s.crash = none ∧ ∃ pos itemID, s.fetchers w = .fetching pos itemID ∧
      ((∃ r, fetch itemID = liftError r ∧ s' = { s with
          fetchers := Function.update s.fetchers w (.sending pos itemID r)
          calls := s.calls ++ [(pos, itemID)] }) ∨
       (∃ p, fetch itemID = .error (.panic p) ∧
          s' = { s with crash := some p, calls := s.calls ++ [(pos, itemID)] })) := by
  simp only [step] at h
  split at h
  · rename_i pos itemID hcrash hw
    refine ⟨hcrash, pos, itemID, hw, ?_⟩
    split at h <;> rename_i hfetch <;> cases h
    · exact .inl ⟨.ok _, hfetch, rfl⟩
    · exact .inl ⟨.error _, hfetch, rfl⟩
    · exact .inr ⟨_, hfetch, rfl⟩
  · cases h

theorem step_deliver (h : step fetch n s (.deliver w) = some s') :
    s.crash = none ∧ s.received.length < n ∧ ∃ pos itemID r,
      s.fetchers w = .sending pos itemID r ∧ s' = s.collect w pos itemID r := by
  simp only [step] at h
  split at h
  · rename_i pos itemID r hcrash hw
    split at h
    · cases h
      exact ⟨hcrash, ‹_›, pos, itemID, r, hw, rfl⟩
    · cases h
  · cases h

theorem step_close (h : step fetch n s .close = some s') :
    s.crash = none ∧ s.feed = [] ∧ s.closed = false ∧ s' = { s with closed := true } := by
  simp only [step] at h
  split at h
  · rename_i hcond
    cases h
    exact ⟨hcond.1, hcond.2.1, hcond.2.2, rfl⟩
  · cases h

theorem step_exit (h : step fetch n s (.exit w) = some s') :
    s.crash = none ∧ s.closed = true ∧ s.fetchers w = .ranging ∧
      s' = { s with fetchers := Function.update s.fetchers w .exited } := by
  simp only [step] at h
  split at h
  · rename_i hcrash hw
    split at h
    · cases h
      exact ⟨hcrash, ‹_›, hw, rfl⟩
    · cases h
  · cases h

/-- Nothing moves after a panic. -/
theorem step_crash {e : Event k} (h : step fetch n s e = some s') : s.crash = none := by
  cases e with
  | hand w => exact (step_hand h).1
  | fetch w => exact (step_fetch h).1
  | deliver w => exact (step_deliver h).1
  | close => exact (step_close h).1
  | exit w => exact (step_exit h).1

end Steps

/-! ### Counting over the fetchers -/

/-- The occurrence a fetcher holds: taken from `inputs` and not yet taken by the collector. -/
def Fetcher.held : Fetcher β → Multiset (Nat × String)
  | .ranging => 0
  | .fetching pos itemID => {(pos, itemID)}
  | .sending pos itemID _ => {(pos, itemID)}
  | .exited => 0

/-- The occurrence a fetcher has fetched and not yet handed to the collector. -/
def Fetcher.answered : Fetcher β → Multiset (Nat × String)
  | .ranging => 0
  | .fetching _ _ => 0
  | .sending pos itemID _ => {(pos, itemID)}
  | .exited => 0

/-- How many more steps a fetcher can take with what it holds. -/
def Fetcher.weight : Fetcher β → Nat
  | .ranging => 1
  | .fetching _ _ => 3
  | .sending _ _ _ => 2
  | .exited => 0

@[simp] theorem Fetcher.held_ranging : (Fetcher.ranging : Fetcher β).held = 0 := rfl
@[simp] theorem Fetcher.held_fetching (pos : Nat) (itemID : String) :
    (Fetcher.fetching pos itemID : Fetcher β).held = {(pos, itemID)} := rfl
@[simp] theorem Fetcher.held_sending (pos : Nat) (itemID : String) (r : Except GoError β) :
    (Fetcher.sending pos itemID r).held = {(pos, itemID)} := rfl
@[simp] theorem Fetcher.held_exited : (Fetcher.exited : Fetcher β).held = 0 := rfl
@[simp] theorem Fetcher.answered_ranging : (Fetcher.ranging : Fetcher β).answered = 0 := rfl
@[simp] theorem Fetcher.answered_fetching (pos : Nat) (itemID : String) :
    (Fetcher.fetching pos itemID : Fetcher β).answered = 0 := rfl
@[simp] theorem Fetcher.answered_sending (pos : Nat) (itemID : String) (r : Except GoError β) :
    (Fetcher.sending pos itemID r).answered = {(pos, itemID)} := rfl
@[simp] theorem Fetcher.answered_exited : (Fetcher.exited : Fetcher β).answered = 0 := rfl
@[simp] theorem Fetcher.weight_ranging : (Fetcher.ranging : Fetcher β).weight = 1 := rfl
@[simp] theorem Fetcher.weight_fetching (pos : Nat) (itemID : String) :
    (Fetcher.fetching pos itemID : Fetcher β).weight = 3 := rfl
@[simp] theorem Fetcher.weight_sending (pos : Nat) (itemID : String) (r : Except GoError β) :
    (Fetcher.sending pos itemID r).weight = 2 := rfl
@[simp] theorem Fetcher.weight_exited : (Fetcher.exited : Fetcher β).weight = 0 := rfl

namespace Pool

def held (s : Pool k β) : Multiset (Nat × String) := ∑ w, (s.fetchers w).held

def answered (s : Pool k β) : Multiset (Nat × String) := ∑ w, (s.fetchers w).answered

/-- A bound on the steps left: every step takes one off. -/
def measure (s : Pool k β) : Nat :=
  4 * s.feed.length + ∑ w, (s.fetchers w).weight + (if s.closed then 0 else 1) +
    (if s.crash = none then 1 else 0)

end Pool

theorem Pool.held_eq_zero_iff {s : Pool k β} : s.held = 0 ↔ ∀ w, (s.fetchers w).held = 0 := by
  simp [Pool.held, Finset.sum_eq_zero_iff]

theorem Pool.held_ne_zero {s : Pool k β} (w : Fin k) (hw : (s.fetchers w).held ≠ 0) : s.held ≠ 0 :=
  fun h => hw (Pool.held_eq_zero_iff.mp h w)

/-! ### The collector's loop, run in one order -/

/-- The collector's loop body on the fetch of `itemID`; a fetch that panics never reaches it. -/
def absorbFetch (fetch : String → GoResult β) (acc : Option GoError × (String → Option β))
    (itemID : String) : Option GoError × (String → Option β) :=
  match fetch itemID with
  | .ok v => absorb acc itemID (.ok v)
  | .error (.error e) => absorb acc itemID (.error e)
  | .error (.panic _) => acc

/-- `resultErr` and `resultMap` after the collector has taken these fetches, in this order. -/
def collected (fetch : String → GoResult β) (items : List (Nat × String)) :
    Option GoError × (String → Option β) :=
  items.foldl (fun acc x => absorbFetch fetch acc x.2) (none, fun _ => none)

/-- `MultiGet` with no goroutines: fetch each item in turn and run the collector's loop body on
it; a panic ends the program. -/
def sequential (fetch : String → GoResult β) (itemIDs : List String) :
    GoResult (String → Option β) :=
  go itemIDs (none, fun _ => none)
where
  go : List String → Option GoError × (String → Option β) → GoResult (String → Option β)
    | [], (some e, _) => .error (.error e)
    | [], (none, m) => .ok m
    | itemID :: rest, acc =>
      match fetch itemID with
      | .error (.panic p) => .error (.panic p)
      | .ok v => go rest (absorb acc itemID (.ok v))
      | .error (.error e) => go rest (absorb acc itemID (.error e))

theorem absorbFetch_of_liftError {fetch : String → GoResult β} {itemID : String}
    {r : Except GoError β} (hfetch : fetch itemID = liftError r)
    (acc : Option GoError × (String → Option β)) :
    absorbFetch fetch acc itemID = absorb acc itemID r := by
  cases r <;> simp [absorbFetch, hfetch]

/-- What a fetch puts in the map, if it succeeds. -/
def fetched (fetch : String → GoResult β) (itemID : String) : Option β :=
  match fetch itemID with
  | .ok v => some v
  | .error _ => none

/-- The error a fetch hands the collector, if it fails without a panic. -/
def fetchError (fetch : String → GoResult β) (itemID : String) : Option GoError :=
  match fetch itemID with
  | .error (.error e) => some e
  | _ => none

section Loop

variable {fetch : String → GoResult β}

/-- When every fetch succeeds, the loop maps each item it took to its fetch, in any order. -/
theorem foldl_absorbFetch_of_ok (items : List (Nat × String))
    (hok : ∀ x ∈ items, ∃ v, fetch x.2 = .ok v) (acc : Option GoError × (String → Option β)) :
    items.foldl (fun acc x => absorbFetch fetch acc x.2) acc
      = (acc.1, fun key => if key ∈ items.map Prod.snd then fetched fetch key else acc.2 key) := by
  induction items generalizing acc with
  | nil => simp
  | cons x rest ih =>
    obtain ⟨v, hv⟩ := hok x (List.mem_cons_self _ _)
    rw [List.foldl_cons, ih (fun y hy => hok y (List.mem_cons_of_mem _ hy))]
    refine Prod.ext (by simp [absorbFetch, absorb, hv]) (funext fun key => ?_)
    by_cases hkey : key = x.2
    · subst hkey
      simp [absorbFetch, absorb, hv, fetched]
    · simp only [absorbFetch, absorb, hv, List.map_cons, List.mem_cons, hkey, false_or,
        Function.update_noteq hkey]

/-- `resultErr` is only ever set to the error of a fetch. -/
theorem foldl_absorbFetch_error (items : List (Nat × String))
    (acc : Option GoError × (String → Option β)) {e : GoError}
    (h : (items.foldl (fun acc x => absorbFetch fetch acc x.2) acc).1 = some e) :
    acc.1 = some e ∨ ∃ x ∈ items, fetch x.2 = .error (.error e) := by
  induction items generalizing acc with
  | nil => exact .inl h
  | cons x rest ih =>
    rcases ih _ h with hacc | ⟨y, hy, hfetch⟩
    · simp only [absorbFetch] at hacc
      split at hacc
      · exact .inl hacc
      · cases hacc
        exact .inr ⟨x, List.mem_cons_self _ _, ‹_›⟩
      · exact .inl hacc
    · exact .inr ⟨y, List.mem_cons_of_mem _ hy, hfetch⟩

/-- Once set, `resultErr` stays set. -/
theorem foldl_absorbFetch_ne_none (items : List (Nat × String))
    (acc : Option GoError × (String → Option β)) (hacc : acc.1 ≠ none) :
    (items.foldl (fun acc x => absorbFetch fetch acc x.2) acc).1 ≠ none := by
  induction items generalizing acc with
  | nil => exact hacc
  | cons x rest ih =>
    apply ih
    simp only [absorbFetch]
    split <;> simp_all [absorb]

/-- With `resultErr` unset at the end, no fetch the loop took failed. -/
theorem foldl_absorbFetch_none (items : List (Nat × String))
    (acc : Option GoError × (String → Option β))
    (h : (items.foldl (fun acc x => absorbFetch fetch acc x.2) acc).1 = none) :
    ∀ x ∈ items, ∀ e, fetch x.2 ≠ .error (.error e) := by
  induction items generalizing acc with
  | nil => simp
  | cons x rest ih =>
    intro y hy e hfetch
    rcases List.mem_cons.mp hy with rfl | hy
    · exact foldl_absorbFetch_ne_none rest _ (by simp [absorbFetch, hfetch, absorb]) h
    · exact ih _ h y hy e hfetch

theorem collected_append (items : List (Nat × String)) (x : Nat × String) :
    collected fetch (items ++ [x]) = absorbFetch fetch (collected fetch items) x.2 := by
  simp [collected, List.foldl_append]

/-- Each error overwrites the one before: `resultErr` is the error of the last failed fetch the
loop took. -/
theorem collected_fst (items : List (Nat × String)) :
    (collected fetch items).1 = (items.filterMap fun x => fetchError fetch x.2).getLast? := by
  induction items using List.reverseRecOn with
  | nil => rfl
  | append_singleton items x ih =>
    rw [collected_append, List.filterMap_append, List.getLast?_append, ← ih]
    cases hx : fetch x.2 with
    | ok v => simp [absorbFetch, fetchError, hx, absorb]
    | error f => cases f <;> simp [absorbFetch, fetchError, hx, absorb]

theorem sequential_go_of_ok (itemIDs : List String) (hok : ∀ x ∈ itemIDs, ∃ v, fetch x = .ok v)
    (acc : Option GoError × (String → Option β)) (hacc : acc.1 = none) :
    sequential.go fetch itemIDs acc
      = .ok fun key => if key ∈ itemIDs then fetched fetch key else acc.2 key := by
  induction itemIDs generalizing acc with
  | nil =>
    obtain ⟨err, m⟩ := acc
    subst hacc
    simp [sequential.go]
  | cons x rest ih =>
    obtain ⟨v, hv⟩ := hok x (List.mem_cons_self _ _)
    simp only [sequential.go, hv]
    rw [ih (fun y hy => hok y (List.mem_cons_of_mem _ hy)) _ (by simp [absorb, hacc])]
    congr 1
    funext key
    by_cases hkey : key = x
    · subst hkey
      simp [absorb, fetched, hv]
    · simp [absorb, hkey]

/-- When every fetch succeeds, the sequential loop maps each ID to its fetch. -/
theorem sequential_of_ok (itemIDs : List String) (hok : ∀ x ∈ itemIDs, ∃ v, fetch x = .ok v) :
    sequential fetch itemIDs
      = .ok fun key => if key ∈ itemIDs then fetched fetch key else none :=
  sequential_go_of_ok itemIDs hok _ rfl

end Loop

/-! ### The invariant -/

/-- What holds in every state an interleaving reaches. Every occurrence is in exactly one place
(still with the feeder, held by a fetcher, or taken by the collector), every position was handed out
once, every call not yet answered is held, and the collector's state is its loop run over what it
took. -/
structure Inv (fetch : String → GoResult β) (itemIDs : List String) (s : Pool k β) : Prop where
  conserve : (s.feed : Multiset (Nat × String)) + s.held + s.received = itemIDs.enum
  handedOut : ((s.handed.map Prod.fst : List Nat) : Multiset Nat) + (s.feed.map Prod.fst : List Nat)
    = List.range itemIDs.length
  called : s.crash = none → (s.calls : Multiset (Nat × String)) = s.answered + s.received
  crashed : ∀ p, s.crash = some p → ∃ itemID ∈ itemIDs, fetch itemID = .error (.panic p)
  sent : ∀ w pos itemID r, s.fetchers w = .sending pos itemID r → fetch itemID = liftError r
  noPanic : ∀ x ∈ s.received, ∃ r, fetch x.2 = liftError r
  results : (s.resultErr, s.resultMap) = collected fetch s.received
  closedFeed : s.closed = true → s.feed = []
  exitedClosed : ∀ w, s.fetchers w = .exited → s.closed = true
  crashHeld : s.crash ≠ none → s.held ≠ 0

theorem inv_init (fetch : String → GoResult β) (itemIDs : List String) :
    Inv fetch itemIDs (init k itemIDs) where
  conserve := by simp [init, Pool.held, Fetcher.held]
  handedOut := by simp [init, List.enum_map_fst]
  called _ := by simp [init, Pool.answered, Fetcher.answered]
  crashed _ h := by cases h
  sent _ _ _ _ h := by cases h
  noPanic _ h := by cases h
  results := rfl
  closedFeed h := by cases h
  exitedClosed _ h := by cases h
  crashHeld h := absurd rfl h

/-- Every occurrence a fetcher holds is an occurrence of `itemIDs`. -/
theorem Inv.held_mem {fetch : String → GoResult β} {itemIDs : List String} {s : Pool k β}
    (hinv : Inv fetch itemIDs s) (w : Fin k) {x : Nat × String} (hx : x ∈ (s.fetchers w).held) :
    x.2 ∈ itemIDs := by
  have hheld : x ∈ s.held := Multiset.mem_sum.mpr ⟨w, Finset.mem_univ w, hx⟩
  have hpool : x ∈ (s.feed : Multiset (Nat × String)) + s.held + s.received :=
    Multiset.mem_add.mpr (.inl (Multiset.mem_add.mpr (.inr hheld)))
  rw [hinv.conserve, Multiset.mem_coe] at hpool
  exact List.snd_mem_of_mem_enum hpool

/-! ### Each step keeps the invariant -/

section Preservation

variable {fetch : String → GoResult β} {itemIDs : List String} {s s' : Pool k β} {w : Fin k}

theorem Inv.hand_step (hinv : Inv fetch itemIDs s)
    (h : step fetch itemIDs.length s (.hand w) = some s') :
    Inv fetch itemIDs s' := by
  obtain ⟨hcrash, hw, pos, itemID, rest, hfeed, rfl⟩ := step_hand h
  have hheld := sum_update_add s.fetchers Fetcher.held w (.fetching pos itemID)
  have hans := sum_update_add s.fetchers Fetcher.answered w (.fetching pos itemID)
  simp only [hw, Fetcher.held_ranging, Fetcher.held_fetching, Fetcher.answered_ranging,
    Fetcher.answered_fetching, add_zero] at hheld hans
  have hconserve := hinv.conserve
  have hhanded := hinv.handedOut
  rw [hfeed, ← Multiset.cons_coe, ← Multiset.singleton_add] at hconserve
  rw [hfeed, List.map_cons, ← Multiset.cons_coe, ← Multiset.singleton_add] at hhanded
  refine ⟨?_, ?_, fun hc => ?_, hinv.crashed, fun v p i r hv => ?_, hinv.noPanic, hinv.results,
    fun hc => ?_, fun v hv => ?_, fun hc => absurd hcrash hc⟩
  · simp only [Pool.held] at hheld hconserve ⊢
    rw [hheld, ← hconserve]
    abel
  · simp only [List.map_append, List.map_cons, List.map_nil, ← Multiset.coe_add]
    rw [← hhanded]
    simp only [Multiset.coe_singleton]
    abel
  · simp only [Pool.answered] at hans ⊢
    rw [hans]
    exact hinv.called hc
  · exact hinv.sent v p i r (eq_of_update_eq hv (by simp))
  · simp [hinv.closedFeed hc] at hfeed
  · exact hinv.exitedClosed v (eq_of_update_eq hv (by simp))

theorem Inv.fetch_step (hinv : Inv fetch itemIDs s)
    (h : step fetch itemIDs.length s (.fetch w) = some s') : Inv fetch itemIDs s' := by
  obtain ⟨hcrash, pos, itemID, hw, ⟨r, hfetch, rfl⟩ | ⟨p, hfetch, rfl⟩⟩ := step_fetch h
  · have hheld := sum_update_add s.fetchers Fetcher.held w (.sending pos itemID r)
    have hans := sum_update_add s.fetchers Fetcher.answered w (.sending pos itemID r)
    simp only [hw, Fetcher.held_fetching, Fetcher.held_sending, Fetcher.answered_fetching,
      Fetcher.answered_sending, add_zero, add_left_inj] at hheld hans
    refine ⟨?_, hinv.handedOut, fun hc => ?_, fun p hp => by simp [hcrash] at hp,
      fun v p i r' hv => ?_, hinv.noPanic, hinv.results, hinv.closedFeed, fun v hv => ?_,
      fun hc => absurd hcrash hc⟩
    · simpa only [Pool.held, hheld] using hinv.conserve
    · rw [← Multiset.coe_add, hinv.called hc, Multiset.coe_singleton]
      simp only [Pool.answered] at hans ⊢
      rw [hans]
      abel
    · by_cases hvw : v = w
      · subst hvw
        simp only [Function.update_same, Fetcher.sending.injEq] at hv
        obtain ⟨-, rfl, rfl⟩ := hv
        exact hfetch
      · exact hinv.sent v p i r' (by simpa [hvw] using hv)
    · exact hinv.exitedClosed v (eq_of_update_eq hv (by simp))
  · exact { hinv with
      called := fun hc => by cases hc
      crashed := fun p' hp => by
        cases hp
        exact ⟨itemID, hinv.held_mem w (show (pos, itemID) ∈ (s.fetchers w).held by simp [hw]),
          hfetch⟩
      crashHeld := fun _ => Pool.held_ne_zero w (by simp [hw]) }

theorem Inv.deliver_step (hinv : Inv fetch itemIDs s)
    (h : step fetch itemIDs.length s (.deliver w) = some s') : Inv fetch itemIDs s' := by
  obtain ⟨hcrash, -, pos, itemID, r, hw, rfl⟩ := step_deliver h
  have hfetch := hinv.sent w pos itemID r hw
  have hheld := sum_update_add s.fetchers Fetcher.held w .ranging
  have hans := sum_update_add s.fetchers Fetcher.answered w .ranging
  simp only [hw, Fetcher.held_sending, Fetcher.held_ranging, Fetcher.answered_sending,
    Fetcher.answered_ranging, add_zero] at hheld hans
  refine ⟨?_, hinv.handedOut, fun hc => ?_, fun p hp => by simp [Pool.collect, hcrash] at hp,
    fun v p i r' hv => ?_, fun x hx => ?_, ?_, hinv.closedFeed, fun v hv => ?_,
    fun hc => absurd hcrash hc⟩
  · simp only [Pool.collect, Pool.held] at hheld ⊢
    rw [← hinv.conserve, Pool.held, ← hheld, ← Multiset.coe_add, Multiset.coe_singleton]
    abel
  · simp only [Pool.collect, Pool.answered] at hans ⊢
    rw [hinv.called hc, Pool.answered, ← hans, ← Multiset.coe_add, Multiset.coe_singleton]
    abel
  · exact hinv.sent v p i r' (eq_of_update_eq hv (by simp))
  · simp only [Pool.collect, List.mem_append, List.mem_singleton] at hx
    rcases hx with hx | rfl
    · exact hinv.noPanic x hx
    · exact ⟨r, hfetch⟩
  · simp only [Pool.collect]
    rw [collected_append, absorbFetch_of_liftError hfetch, ← hinv.results]
  · exact hinv.exitedClosed v (eq_of_update_eq hv (by simp))

theorem Inv.close_step (hinv : Inv fetch itemIDs s)
    (h : step fetch itemIDs.length s .close = some s') : Inv fetch itemIDs s' := by
  obtain ⟨-, hfeed, -, rfl⟩ := step_close h
  exact { hinv with
    closedFeed := fun _ => hfeed
    exitedClosed := fun _ _ => rfl }

theorem Inv.exit_step (hinv : Inv fetch itemIDs s)
    (h : step fetch itemIDs.length s (.exit w) = some s') : Inv fetch itemIDs s' := by
  obtain ⟨-, hclosed, hw, rfl⟩ := step_exit h
  have hheld := sum_update_add s.fetchers Fetcher.held w .exited
  have hans := sum_update_add s.fetchers Fetcher.answered w .exited
  simp only [hw, Fetcher.held_exited, Fetcher.held_ranging, Fetcher.answered_exited,
    Fetcher.answered_ranging, add_zero] at hheld hans
  refine { hinv with
    conserve := by simpa only [Pool.held, hheld] using hinv.conserve
    called := fun hc => by simpa only [Pool.answered, hans] using hinv.called hc
    sent := fun v p i r hv => hinv.sent v p i r (eq_of_update_eq hv (by simp))
    exitedClosed := fun _ _ => hclosed
    crashHeld := fun hc => by simpa only [Pool.held, hheld] using hinv.crashHeld hc }

theorem Inv.preserve (hinv : Inv fetch itemIDs s) {e : Event k}
    (h : step fetch itemIDs.length s e = some s') : Inv fetch itemIDs s' := by
  cases e with
  | hand w => exact hinv.hand_step h
  | fetch w => exact hinv.fetch_step h
  | deliver w => exact hinv.deliver_step h
  | close => exact hinv.close_step h
  | exit w => exact hinv.exit_step h

/-- **The invariant.** It holds in every state that some interleaving reaches. -/
theorem reachable_inv (hreach : Reachable (step fetch itemIDs.length) (init k itemIDs) s) :
    Inv fetch itemIDs s :=
  hreach.invariant _ (inv_init fetch itemIDs) fun _ _ _ hinv he => hinv.preserve he

end Preservation

/-! ### Every run ends -/

section Termination

variable {fetch : String → GoResult β} {n : Nat} {s s' : Pool k β}

theorem measure_step {e : Event k} (h : step fetch n s e = some s') : s'.measure < s.measure := by
  cases e with
  | hand w =>
    obtain ⟨hcrash, hw, pos, itemID, rest, hfeed, rfl⟩ := step_hand h
    have hweight := sum_update_add s.fetchers Fetcher.weight w (.fetching pos itemID)
    simp only [hw, Fetcher.weight_ranging, Fetcher.weight_fetching] at hweight
    simp only [Pool.measure, hfeed, List.length_cons] at hweight ⊢
    omega
  | fetch w =>
    obtain ⟨hcrash, pos, itemID, hw, ⟨r, -, rfl⟩ | ⟨p, -, rfl⟩⟩ := step_fetch h
    · have hweight := sum_update_add s.fetchers Fetcher.weight w (.sending pos itemID r)
      simp only [hw, Fetcher.weight_fetching, Fetcher.weight_sending] at hweight
      simp only [Pool.measure] at hweight ⊢
      omega
    · simp [Pool.measure, hcrash]
  | deliver w =>
    obtain ⟨-, -, pos, itemID, r, hw, rfl⟩ := step_deliver h
    have hweight := sum_update_add s.fetchers Fetcher.weight w .ranging
    simp only [hw, Fetcher.weight_ranging, Fetcher.weight_sending] at hweight
    simp only [Pool.measure, Pool.collect] at hweight ⊢
    omega
  | close =>
    obtain ⟨-, -, hclosed, rfl⟩ := step_close h
    simp [Pool.measure, hclosed]
  | exit w =>
    obtain ⟨-, -, hw, rfl⟩ := step_exit h
    have hweight := sum_update_add s.fetchers Fetcher.weight w .exited
    simp only [hw, Fetcher.weight_ranging, Fetcher.weight_exited] at hweight
    simp only [Pool.measure] at hweight ⊢
    omega

/-- **No run is infinite**, whatever the scheduler does. -/
theorem runs_end (run : ℕ → Pool k β) : ¬ ∀ i, ∃ e, step fetch n (run i) e = some (run (i + 1)) :=
  @no_infinite_run _ _ (step fetch n) Pool.measure (fun _ _ _ => measure_step) run

end Termination

/-! ### What a run ends with -/

/-- Every goroutine has returned: the feeder closed `inputs`, every fetcher left its loop, and
the collector took its `len(itemIDs)` results. -/
def Pool.Finished (n : Nat) (s : Pool k β) : Prop :=
  s.crash = none ∧ s.feed = [] ∧ s.closed = true ∧ (∀ w, s.fetchers w = .exited) ∧
    s.received.length = n

theorem Fetcher.answered_eq_zero {f : Fetcher β} (h : f.held = 0) : f.answered = 0 := by
  cases f <;> simp_all

/-- An entry the loop put in the map is what the fetch of its key returned. -/
theorem foldl_absorbFetch_map {fetch : String → GoResult β} (items : List (Nat × String))
    (acc : Option GoError × (String → Option β)) {key : String} {v : β}
    (h : (items.foldl (fun acc x => absorbFetch fetch acc x.2) acc).2 key = some v) :
    acc.2 key = some v ∨ fetch key = .ok v := by
  induction items generalizing acc with
  | nil => exact .inl h
  | cons x rest ih =>
    refine (ih _ h).elim (fun hacc => ?_) .inr
    simp only [absorbFetch] at hacc
    split at hacc
    · rename_i v' hfetch
      by_cases hkey : key = x.2
      · subst hkey
        simp only [absorb, Function.update_same, Option.some.injEq] at hacc
        exact .inr (hacc ▸ hfetch)
      · exact .inl (by simpa [absorb, hkey] using hacc)
    · exact .inl hacc
    · exact .inl hacc

section Ending

variable {fetch : String → GoResult β} {itemIDs : List String} {s : Pool k β}

/-- Every occurrence the collector took is an occurrence of `itemIDs`. -/
theorem Inv.received_mem (hinv : Inv fetch itemIDs s) {x : Nat × String} (hx : x ∈ s.received) :
    x.2 ∈ itemIDs := by
  have hpool : x ∈ (s.feed : Multiset (Nat × String)) + s.held + s.received :=
    Multiset.mem_add.mpr (.inr (Multiset.mem_coe.mpr hx))
  rw [hinv.conserve, Multiset.mem_coe] at hpool
  exact List.snd_mem_of_mem_enum hpool

/-- The count behind `conserve`: the feeder, the fetchers and the collector share the
`len(itemIDs)` occurrences. -/
theorem Inv.card_eq (hinv : Inv fetch itemIDs s) :
    s.feed.length + Multiset.card s.held + s.received.length = itemIDs.length := by
  simpa only [Multiset.card_add, Multiset.coe_card, List.enum_length]
    using congrArg Multiset.card hinv.conserve

/-- A result a fetcher still holds has room in the collector's loop. -/
theorem Inv.received_lt (hinv : Inv fetch itemIDs s) (hheld : s.held ≠ 0) :
    s.received.length < itemIDs.length := by
  have := hinv.card_eq
  have := Multiset.card_pos.mpr hheld
  omega

/-- **The collector is done.** Once it has its `len(itemIDs)` results, the feeder has handed out
every occurrence, no fetcher holds one, and the collector took each occurrence exactly once. -/
theorem Inv.done (hinv : Inv fetch itemIDs s) (hlen : s.received.length = itemIDs.length) :
    s.feed = [] ∧ s.held = 0 ∧ s.received.Perm itemIDs.enum := by
  have hcard := hinv.card_eq
  have hfeed : s.feed = [] := List.eq_nil_of_length_eq_zero (by omega)
  have hheld : s.held = 0 := Multiset.card_eq_zero.mp (by omega)
  have hconserve := hinv.conserve
  rw [hfeed, hheld] at hconserve
  exact ⟨hfeed, hheld, by simpa using hconserve⟩

/-- Once the feeder is done, each position was handed to exactly one fetcher. -/
theorem Inv.handed_perm (hinv : Inv fetch itemIDs s) (hfeed : s.feed = []) :
    (s.handed.map Prod.fst).Perm (List.range itemIDs.length) := by
  have hhanded := hinv.handedOut
  rw [hfeed] at hhanded
  simpa using hhanded

/-- Once the collector is done, each occurrence was passed to `GetMetadata` exactly once. -/
theorem Inv.calls_perm (hinv : Inv fetch itemIDs s) (hcrash : s.crash = none)
    (hlen : s.received.length = itemIDs.length) : s.calls.Perm itemIDs.enum := by
  obtain ⟨-, hheld, hperm⟩ := hinv.done hlen
  have hans : s.answered = 0 := Finset.sum_eq_zero fun w _ =>
    Fetcher.answered_eq_zero (Pool.held_eq_zero_iff.mp hheld w)
  have hcalls := hinv.called hcrash
  rw [hans, zero_add] at hcalls
  exact (Multiset.coe_eq_coe.mp hcalls).trans hperm

/-- `resultErr` is the error of the last failed result the collector took. -/
theorem Inv.resultErr_eq (hinv : Inv fetch itemIDs s) :
    s.resultErr = (s.received.filterMap fun x => fetchError fetch x.2).getLast? :=
  (congrArg Prod.fst hinv.results).trans (collected_fst s.received)

/-- `resultErr` only ever holds what a `GetMetadata` call on one of `itemIDs` returned. -/
theorem Inv.resultErr_some (hinv : Inv fetch itemIDs s) {e : GoError}
    (he : s.resultErr = some e) : ∃ itemID ∈ itemIDs, fetch itemID = .error (.error e) := by
  have hres := congrArg Prod.fst hinv.results
  simp only [collected] at hres
  rw [he] at hres
  rcases foldl_absorbFetch_error s.received _ hres.symm with h | ⟨x, hx, hfetch⟩
  · cases h
  · exact ⟨x.2, hinv.received_mem hx, hfetch⟩

/-- An entry of `resultMap` is what `GetMetadata` returned for its key. -/
theorem Inv.resultMap_some (hinv : Inv fetch itemIDs s) {key : String} {v : β}
    (hv : s.resultMap key = some v) : fetch key = .ok v := by
  have hres := congrArg Prod.snd hinv.results
  simp only [collected] at hres
  rw [hres] at hv
  exact (foldl_absorbFetch_map s.received _ hv).resolve_left (by simp)

/-- When every call succeeds, the collector returns the map of the sequential loop. -/
theorem Inv.result_of_ok (hinv : Inv fetch itemIDs s) (hlen : s.received.length = itemIDs.length)
    (hok : ∀ itemID ∈ itemIDs, ∃ v, fetch itemID = .ok v) :
    liftError s.result = sequential fetch itemIDs := by
  obtain ⟨-, -, hperm⟩ := hinv.done hlen
  have hres := hinv.results
  rw [collected, foldl_absorbFetch_of_ok s.received (fun x hx => hok x.2 (hinv.received_mem hx)),
    Prod.mk.injEq] at hres
  have hmem : ∀ key, key ∈ s.received.map Prod.snd ↔ key ∈ itemIDs := fun key => by
    rw [(hperm.map Prod.snd).mem_iff, List.enum_map_snd]
  simp only [Pool.result, hres.1, hres.2, liftError_ok, sequential_of_ok itemIDs hok, hmem]

/-- When some call fails, so does the collector. -/
theorem Inv.result_error_of_error (hinv : Inv fetch itemIDs s)
    (hlen : s.received.length = itemIDs.length) {itemID : String} (hmem : itemID ∈ itemIDs)
    {e : GoError} (hfetch : fetch itemID = .error (.error e)) : ∃ e', s.result = .error e' := by
  obtain ⟨-, -, hperm⟩ := hinv.done hlen
  obtain ⟨pos, hpos⟩ : ∃ pos, (pos, itemID) ∈ s.received := by
    obtain ⟨x, hx, rfl⟩ := List.mem_map.mp (List.enum_map_snd itemIDs ▸ hmem)
    exact ⟨x.1, hperm.mem_iff.mpr hx⟩
  cases herr : s.resultErr with
  | some e' => exact ⟨e', by simp [Pool.result, herr]⟩
  | none =>
    have hres := congrArg Prod.fst hinv.results
    simp only [collected, herr] at hres
    exact absurd hfetch (foldl_absorbFetch_none s.received _ hres.symm _ hpos e)

/-- Once the collector is done, it took an occurrence of every ID of `itemIDs`. -/
theorem Inv.mem_received (hinv : Inv fetch itemIDs s) (hlen : s.received.length = itemIDs.length)
    {itemID : String} (hmem : itemID ∈ itemIDs) : ∃ pos, (pos, itemID) ∈ s.received := by
  obtain ⟨-, -, hperm⟩ := hinv.done hlen
  obtain ⟨x, hx, rfl⟩ := List.mem_map.mp (List.enum_map_snd itemIDs ▸ hmem)
  exact ⟨x.1, hperm.mem_iff.mpr hx⟩

/-- A fetch that does not panic hands its result to the fetcher. -/
theorem step_fetch_of_liftError {n : Nat} (hcrash : s.crash = none) {w : Fin k} {pos : Nat}
    {itemID : String} (hw : s.fetchers w = .fetching pos itemID) {r : Except GoError β}
    (hfetch : fetch itemID = liftError r) :
    step fetch n s (.fetch w) = some { s with
      fetchers := Function.update s.fetchers w (.sending pos itemID r)
      calls := s.calls ++ [(pos, itemID)] } := by
  cases r <;> simp [step, hcrash, hw, hfetch]

theorem step_fetch_enabled {n : Nat} (hcrash : s.crash = none) {w : Fin k} {pos : Nat}
    {itemID : String} (hw : s.fetchers w = .fetching pos itemID) :
    ∃ s', step fetch n s (.fetch w) = some s' := by
  simp only [step, hcrash, hw]
  split <;> exact ⟨_, rfl⟩

/-- **No deadlock.** Unless a fetch panicked, some goroutine can move until every one has
returned. -/
theorem Inv.progress (hinv : Inv fetch itemIDs s) (hk : 0 < k) (hcrash : s.crash = none)
    (hnot : ¬ s.Finished itemIDs.length) : ∃ e s', step fetch itemIDs.length s e = some s' := by
  by_cases hbusy : ∃ w, (s.fetchers w).held ≠ 0
  · obtain ⟨w, hw⟩ := hbusy
    have hlt := hinv.received_lt (Pool.held_ne_zero w hw)
    cases hfw : s.fetchers w with
    | ranging => simp [hfw] at hw
    | exited => simp [hfw] at hw
    | fetching pos itemID => exact ⟨_, step_fetch_enabled hcrash hfw⟩
    | sending pos itemID r =>
      exact ⟨.deliver w, by simp [step, hcrash, hfw, hlt]⟩
  · push_neg at hbusy
    have hheld : s.held = 0 := Pool.held_eq_zero_iff.mpr hbusy
    have hidle : ∀ w, s.fetchers w = .ranging ∨ s.fetchers w = .exited := fun w => by
      have := hbusy w
      revert this
      cases s.fetchers w <;> simp
    cases hfeed : s.feed with
    | cons x rest =>
      obtain ⟨pos, itemID⟩ := x
      have hw₀ : s.fetchers ⟨0, hk⟩ = .ranging := (hidle _).resolve_right fun hexit => by
        simp [hinv.closedFeed (hinv.exitedClosed _ hexit)] at hfeed
      exact ⟨.hand ⟨0, hk⟩, by simp [step, hcrash, hfeed, hw₀]⟩
    | nil =>
      cases hclosed : s.closed with
      | false => exact ⟨.close, by simp [step, hcrash, hfeed, hclosed]⟩
      | true =>
        by_cases hran : ∃ w, s.fetchers w = .ranging
        · obtain ⟨w, hw⟩ := hran
          exact ⟨.exit w, by simp [step, hcrash, hw, hclosed]⟩
        · push_neg at hran
          have hcard := hinv.card_eq
          rw [hfeed, hheld] at hcard
          exact absurd ⟨hcrash, hfeed, hclosed, fun w => (hidle w).resolve_left (hran w),
            by simpa using hcard⟩ hnot

/-- **How a run ends.** Where nothing can move, every goroutine has returned, or a fetch of one of
`itemIDs` panicked. -/
theorem Inv.stuck (hinv : Inv fetch itemIDs s) (hk : 0 < k)
    (hstuck : Stuck (step fetch itemIDs.length) s) :
    s.Finished itemIDs.length ∨
      ∃ p, s.crash = some p ∧ ∃ itemID ∈ itemIDs, fetch itemID = .error (.panic p) := by
  cases hcrash : s.crash with
  | some p => exact .inr ⟨p, rfl, hinv.crashed p hcrash⟩
  | none =>
    refine .inl (by_contra fun hnot => ?_)
    obtain ⟨e, s', he⟩ := hinv.progress hk hcrash hnot
    simp [hstuck e] at he

end Ending

/-! ### What a call can return -/

/-- What a `MultiGet` call with `k` fetchers can end with, in some interleaving: the collector's
return once it has its `len(itemIDs)` results, or the panic of a fetch, which ends the program. -/
def Returns (fetch : String → GoResult β) (itemIDs : List String) (k : Nat)
    (reply : GoResult (String → Option β)) : Prop :=
  ∃ s : Pool k β, Reachable (step fetch itemIDs.length) (init k itemIDs) s ∧
    ((s.crash = none ∧ s.received.length = itemIDs.length ∧ reply = liftError s.result) ∨
      ∃ p, s.crash = some p ∧ reply = .error (.panic p))

section Returns

variable {fetch : String → GoResult β} {itemIDs : List String}
  {reply : GoResult (String → Option β)}

/-- Every entry of a returned map is what the fetch of its key returned. -/
theorem Returns.entry (h : Returns fetch itemIDs k reply) {m : String → Option β}
    (hm : reply = .ok m) {key : String} {v : β} (hv : m key = some v) : fetch key = .ok v := by
  obtain ⟨s, hreach, ⟨-, -, rfl⟩ | ⟨p, -, rfl⟩⟩ := h
  · cases hres : s.resultErr with
    | some e => simp [Pool.result, hres] at hm
    | none =>
      simp only [Pool.result, hres, liftError_ok, Except.ok.injEq] at hm
      exact (reachable_inv hreach).resultMap_some (hm ▸ hv)
  · cases hm

/-- A call fails when the fetch of one of its IDs fails. -/
theorem Returns.not_ok (h : Returns fetch itemIDs k reply) {itemID : String}
    (hmem : itemID ∈ itemIDs) {e : GoError} (hfetch : fetch itemID = .error (.error e))
    (m : String → Option β) : reply ≠ .ok m := by
  obtain ⟨s, hreach, ⟨-, hlen, rfl⟩ | ⟨p, -, rfl⟩⟩ := h
  · obtain ⟨e', he'⟩ := (reachable_inv hreach).result_error_of_error hlen hmem hfetch
    simp [he']
  · simp

/-- When every fetch succeeds, a call returns what the sequential loop returns. -/
theorem Returns.eq_sequential (h : Returns fetch itemIDs k reply)
    (hok : ∀ itemID ∈ itemIDs, ∃ v, fetch itemID = .ok v) : reply = sequential fetch itemIDs := by
  obtain ⟨s, hreach, ⟨-, hlen, rfl⟩ | ⟨p, hp, -⟩⟩ := h
  · exact (reachable_inv hreach).result_of_ok hlen hok
  · obtain ⟨itemID, hid, hpanic⟩ := (reachable_inv hreach).crashed p hp
    obtain ⟨v, hv⟩ := hok itemID hid
    simp [hv] at hpanic

/-- A call that fails fails with what the fetch of one of its IDs returned. -/
theorem Returns.error (h : Returns fetch itemIDs k reply) {f : Fault} (hf : reply = .error f) :
    ∃ itemID ∈ itemIDs, fetch itemID = .error f := by
  obtain ⟨s, hreach, ⟨-, -, rfl⟩ | ⟨p, hp, rfl⟩⟩ := h
  · cases hres : s.resultErr with
    | none => simp [Pool.result, hres] at hf
    | some e =>
      obtain rfl : Fault.error e = f := by simpa [Pool.result, hres] using hf
      exact (reachable_inv hreach).resultErr_some hres
  · cases hf
    exact (reachable_inv hreach).crashed p hp

/-- When no fetch panics, some interleaving returns. -/
theorem Returns.exists (hk : 0 < k)
    (hnp : ∀ itemID ∈ itemIDs, ∀ p, fetch itemID ≠ .error (.panic p)) :
    ∃ reply, Returns fetch itemIDs k reply := by
  obtain ⟨s, hreach, hstuck⟩ : ∃ s : Pool k β, Reachable (step fetch itemIDs.length)
      (init k itemIDs) s ∧ Stuck (step fetch itemIDs.length) s :=
    Reachable.exists_stuck Pool.measure (fun _ _ _ => measure_step) .start
  rcases (reachable_inv hreach).stuck hk hstuck with hfin | ⟨p, -, itemID, hid, hpanic⟩
  · exact ⟨_, s, hreach, .inl ⟨hfin.1, hfin.2.2.2.2, rfl⟩⟩
  · exact absurd hpanic (hnp itemID hid p)

end Returns

end KopiaMetadata.MultiGet
