import KopiaMetadata.Api
import KopiaMetadata.Proof.Frame

/-!
# The two worker pools, over every interleaving

The invariants of `MultiGet` and `RemoveMany` hold in every state some interleaving reaches; here
they are read at the states that matter: where the collector has its `len(itemIDs)` results, where
the calling goroutine of `RemoveMany` has returned, and where nothing can move.

`MultiGet` does what the sequential loop does as long as no `GetMetadata` call panics. One can:
with `AES256_GCM` a stored blob shorter than a nonce panics in `decryptBlock`, and the panic in a
fetcher ends the program before the collector has its results. And the collector treats
`ErrNotFound` as any other error, so an absent item fails the whole call, where the doc comment of
`MultiGet` says it is left out of the map.
-/

namespace KopiaMetadata

open MultiGet in
/-- **`MultiGet` without panics.** When no `GetMetadata` call on `itemIDs` panics, every
interleaving ends with every goroutine returned. Once the collector has its `len(itemIDs)`
results, each occurrence was handed to one fetcher and fetched once, and the collector returns what
the sequential loop returns when every call succeeds, and otherwise one of the errors returned; an
error whenever one call fails. -/
theorem multiGet_of_no_panic {β : Type} {k : Nat} (fetch : String → GoResult β)
    (itemIDs : List String) (hk : 0 < k)
    (hnp : ∀ itemID ∈ itemIDs, ∀ p, fetch itemID ≠ .error (.panic p)) (s : Pool k β)
    (hreach : Reachable (step fetch itemIDs.length) (init k itemIDs) s) :
    s.crash = none ∧
    (∀ run : ℕ → Pool k β, ¬ ∀ i, ∃ e, step fetch itemIDs.length (run i) e = some (run (i + 1))) ∧
    (Stuck (step fetch itemIDs.length) s → s.Finished itemIDs.length) ∧
    (s.received.length = itemIDs.length →
      (s.handed.map Prod.fst).Perm (List.range itemIDs.length) ∧
      s.calls.Perm itemIDs.enum ∧ s.received.Perm itemIDs.enum ∧
      ((∀ itemID ∈ itemIDs, ∃ v, fetch itemID = .ok v) →
        liftError s.result = sequential fetch itemIDs) ∧
      (∀ e, s.result = .error e → ∃ itemID ∈ itemIDs, fetch itemID = .error (.error e)) ∧
      ∀ itemID ∈ itemIDs, ∀ e, fetch itemID = .error (.error e) → ∃ e', s.result = .error e') := by
  have hinv := reachable_inv hreach
  have hcrash : s.crash = none := by
    cases hc : s.crash with
    | none => rfl
    | some p =>
      obtain ⟨itemID, hid, hpanic⟩ := hinv.crashed p hc
      exact absurd hpanic (hnp itemID hid p)
  refine ⟨hcrash, runs_end, fun hstuck => ?_, fun hlen => ?_⟩
  · rcases hinv.stuck hk hstuck with hfin | ⟨p, hp, -⟩
    · exact hfin
    · simp [hcrash] at hp
  · obtain ⟨hfeed, -, hreceived⟩ := hinv.done hlen
    exact ⟨hinv.handed_perm hfeed, hinv.calls_perm hcrash hlen, hreceived,
      hinv.result_of_ok hlen, fun e he => hinv.resultErr_some (Pool.result_eq_error.mp he),
      fun _ hmem _ hfetch => hinv.result_error_of_error hlen hmem hfetch⟩

/-- A fetch that always succeeds. -/
def fetchUnit : String → GoResult Unit := fun _ => .ok ()

theorem multiGet_of_no_panic_fetchUnit :
    ∃ s : MultiGet.Pool parallelFetches Unit,
      Reachable (MultiGet.step fetchUnit ["a", "b", "a"].length)
        (MultiGet.init parallelFetches ["a", "b", "a"]) s ∧
      s.Finished 3 ∧ liftError s.result = MultiGet.sequential fetchUnit ["a", "b", "a"] := by
  obtain ⟨s, hreach, hstuck⟩ :=
    Reachable.exists_stuck MultiGet.Pool.measure (fun _ _ _ => MultiGet.measure_step) .start
  obtain ⟨-, -, hfin, hdone⟩ :=
    multiGet_of_no_panic fetchUnit ["a", "b", "a"] (show 0 < parallelFetches by decide)
      (by simp [fetchUnit]) s hreach
  have hfinished := hfin hstuck
  exact ⟨s, hreach, hfinished,
    (hdone hfinished.2.2.2.2).2.2.2.1 fun _ _ => ⟨(), rfl⟩⟩

open MultiGet in
/-- **A `MultiGet` that never returns.** With `AES256_GCM` and the item `a` stored as an empty
blob, `MultiGet ["a"]` has the collector take no result in any interleaving, and every
interleaving ends in the panic of `decryptBlock`; and one does end so. -/
theorem multiGet_emptyBlob_crashes :
    (∀ s : Pool parallelFetches Bytes,
      Reachable (step (sampleAES.getMetadata emptyBlobCache) ["a"].length)
        (init parallelFetches ["a"]) s →
      s.received = [] ∧
        (Stuck (step (sampleAES.getMetadata emptyBlobCache) ["a"].length) s →
          s.crash = some (.sliceBoundsOutOfRange 0 12 0))) ∧
    ∃ s : Pool parallelFetches Bytes,
      Reachable (step (sampleAES.getMetadata emptyBlobCache) ["a"].length)
        (init parallelFetches ["a"]) s ∧
      Stuck (step (sampleAES.getMetadata emptyBlobCache) ["a"].length) s := by
  refine ⟨fun s hreach => ?_,
    Reachable.exists_stuck Pool.measure (fun _ _ _ => measure_step) .start⟩
  have hinv := reachable_inv hreach
  have hreceived : s.received = [] := List.eq_nil_iff_forall_not_mem.mpr fun x hx => by
    obtain ⟨r, hr⟩ := hinv.noPanic x hx
    rw [List.mem_singleton.mp (hinv.received_mem hx), getMetadata_emptyBlob] at hr
    cases r <;> cases hr
  refine ⟨hreceived, fun hstuck => ?_⟩
  rcases hinv.stuck (by decide) hstuck with ⟨-, -, -, -, hlen⟩ | ⟨p, hp, itemID, hid, hpanic⟩
  · simp [hreceived] at hlen
  · rw [List.mem_singleton.mp hid, getMetadata_emptyBlob] at hpanic
    cases hpanic
    exact hp

/-- A cache whose list of names still holds `a`, which another client has deleted. -/
def staleCache : Cache := ⟨∅, fun _ => none, ["a"]⟩

theorem getMetadata_notFound :
    sampleNone.getMetadata staleCache "a" = .error (.error .errNotFound) := rfl

theorem returns_staleCache {r : GoResult (String → Option Bytes)}
    (h : MultiGet.Returns (sampleNone.getMetadata staleCache) ["a"] parallelFetches r) :
    r = .error (.error .errNotFound) := by
  cases r with
  | ok m => exact absurd rfl (h.not_ok (List.mem_singleton_self "a") getMetadata_notFound m)
  | error f =>
    obtain ⟨itemID, hid, hget⟩ := h.error rfl
    rw [List.mem_singleton.mp hid, getMetadata_notFound] at hget
    cases hget
    rfl

open MultiGet in
/-- **An absent item fails `MultiGet`.** With `NONE` and the item `a` gone from storage, every
interleaving of `MultiGet ["a"]` ends with every goroutine returned, and one does end; whenever the
collector has its result, `MultiGet` returns `ErrNotFound` instead of an empty map. And
`ListContents` with the cached list still naming `a` can only return `ErrNotFound`. -/
theorem multiGet_notFound_fails :
    (∀ s : Pool parallelFetches Bytes,
      Reachable (step (sampleNone.getMetadata staleCache) ["a"].length)
        (init parallelFetches ["a"]) s →
      (Stuck (step (sampleNone.getMetadata staleCache) ["a"].length) s → s.Finished 1) ∧
      (s.received.length = 1 → s.result = .error .errNotFound)) ∧
    (∃ s : Pool parallelFetches Bytes,
      Reachable (step (sampleNone.getMetadata staleCache) ["a"].length)
        (init parallelFetches ["a"]) s ∧
      Stuck (step (sampleNone.getMetadata staleCache) ["a"].length) s) ∧
    ∀ out, Serves sampleNone staleCache (.listContents "") out ↔
      out = (staleCache, .items (.error (.error .errNotFound))) := by
  have hnp : ∀ itemID ∈ ["a"], ∀ p, sampleNone.getMetadata staleCache itemID ≠ .error (.panic p) :=
    fun itemID hid p => by simp [List.mem_singleton.mp hid, getMetadata_notFound]
  have hlist : Manager.list staleCache "" = .ok ["a"] := Cache.listBlocks_empty
  refine ⟨fun s hreach => ⟨fun hstuck => ?_, fun hlen => ?_⟩,
    Reachable.exists_stuck Pool.measure (fun _ _ _ => measure_step) .start, fun out => ⟨?_, ?_⟩⟩
  · rcases (reachable_inv hreach).stuck (by decide) hstuck with hfin | ⟨p, -, itemID, hid, hpanic⟩
    · exact hfin
    · exact absurd hpanic (hnp itemID hid p)
  · have hinv := reachable_inv hreach
    obtain ⟨e, he⟩ := hinv.result_error_of_error hlen (List.mem_singleton_self "a")
      getMetadata_notFound
    obtain ⟨itemID, hid, herr⟩ := hinv.resultErr_some (Pool.result_eq_error.mp he)
    rw [List.mem_singleton.mp hid, getMetadata_notFound] at herr
    cases herr
    exact he
  · intro hserve
    cases hserve with
    | listContents _ itemIDs r hlist' hr =>
      obtain rfl : itemIDs = ["a"] := by simpa [hlist] using hlist'.symm
      rw [returns_staleCache hr]
    | listContentsError _ e hlist' => simp [hlist] at hlist'
  · rintro rfl
    obtain ⟨r, hr⟩ : ∃ r, Returns (sampleNone.getMetadata staleCache) ["a"] parallelFetches r :=
      Returns.exists (by decide) hnp
    exact returns_staleCache hr ▸ Serves.listContents "" ["a"] r hlist hr

open MultiGet in
/-- **`MultiGet` returns the last error it took.** In every interleaving the collector's
`resultErr` is the error of the last failed result it took, in the order it took them: each error
overwrites the one before. With `format` and `repo`, one interleaving takes the error for `format`
first and returns the one for `repo`. -/
theorem multiGet_returns_last_error :
    (∀ {β : Type} {k : Nat} (fetch : String → GoResult β) (itemIDs : List String) (s : Pool k β),
      Reachable (step fetch itemIDs.length) (init k itemIDs) s →
      s.resultErr = (s.received.filterMap fun x => fetchError fetch x.2).getLast?) ∧
    ∃ s : Pool parallelFetches Bytes,
      Reachable (step (sampleNone.getMetadata emptyCache) ["format", "repo"].length)
        (init parallelFetches ["format", "repo"]) s ∧
      s.received.map Prod.snd = ["format", "repo"] ∧
      (s.received.filterMap fun x => fetchError (sampleNone.getMetadata emptyCache) x.2).head?
        = some (.message ("invalid metadata item name: '" ++ "format" ++ "'")) ∧
      s.result = .error (.message ("invalid metadata item name: '" ++ "repo" ++ "'")) := by
  have h0 : 0 < parallelFetches := by decide
  -- one fetcher takes `format` and reports its error, then takes `repo` and reports that one
  exact ⟨fun _ _ _ hreach => (reachable_inv hreach).resultErr_eq, _,
    .step (.deliver ⟨0, h0⟩) (.step (.fetch ⟨0, h0⟩) (.step (.hand ⟨0, h0⟩)
      (.step (.deliver ⟨0, h0⟩) (.step (.fetch ⟨0, h0⟩) (.step (.hand ⟨0, h0⟩) .start rfl) rfl)
        rfl) rfl) rfl) rfl,
    rfl, rfl, rfl⟩

open RemoveMany in
/-- **`RemoveMany` over every interleaving.** Nothing panics; the errors in `errch` and those
about to be sent never exceed the IDs dispatched, so a remover's send on `errch` always goes
through; no run is infinite, and where nothing can move the call has returned. Then `Remove` was
called once per occurrence, each call returned what `Remove` returns on the initial cache, the call
returns nil exactly when every `Remove` call did and otherwise one of their errors, and after a nil
return the cache is the initial one with every ID of `itemIDs` deleted. -/
theorem removeMany_correct (c : Cache) (itemIDs : List String) (s : Pool parallelism)
    (hreach : Reachable (step itemIDs.length) (init parallelism itemIDs c) s) :
    s.crash = none ∧
    s.errch.length + Multiset.card s.pending ≤ itemIDs.length - s.feed.length ∧
    (∀ w pos err, s.removers w = .reporting pos err →
      step itemIDs.length s (.report w) = some { s with
        errch := s.errch ++ [err], removers := Function.update s.removers w .ranging }) ∧
    (∀ run : ℕ → Pool parallelism,
      ¬ ∀ i, ∃ e, step itemIDs.length (run i) e = some (run (i + 1))) ∧
    (Stuck (step itemIDs.length) s → ∃ r, s.phase = .returned r) ∧
    ∀ r, s.phase = .returned r →
      (s.calls.map Prod.fst).Perm itemIDs.enum ∧
      (∀ x ∈ s.calls, x.2 = errorOf (Manager.remove c x.1.2)) ∧
      (r = none ↔ ∀ x ∈ s.calls, x.2 = none) ∧
      (∀ e, r = some e → ∃ x ∈ s.calls, x.2 = some e) ∧
      (r = none → s.store = itemIDs.foldl Cache.erase c) := by
  have hinv := reachable_inv hreach
  refine ⟨hinv.noCrash, hinv.errch_bound, fun w pos err hw => hinv.report_enabled hw, runs_end,
    hinv.stuck (by decide), fun r hr => ?_⟩
  obtain ⟨hcalls, -, -⟩ := hinv.returned_done hr
  obtain ⟨hnil, herr⟩ := hinv.returned_error hr
  exact ⟨hcalls, hinv.results, hnil, herr, fun hnone => hinv.returned_store (hnone ▸ hr)⟩

theorem removeMany_correct_emptyBlobCache :
    ∃ s : RemoveMany.Pool RemoveMany.parallelism,
      Reachable (RemoveMany.step ["a", "a"].length)
        (RemoveMany.init RemoveMany.parallelism ["a", "a"] emptyBlobCache) s ∧
      s.phase = .returned none ∧ s.store = (emptyBlobCache.erase "a").erase "a" := by
  obtain ⟨s, hreach, hstuck⟩ :=
    Reachable.exists_stuck RemoveMany.Pool.measure (fun _ _ _ => RemoveMany.measure_step) .start
  obtain ⟨-, -, -, -, hend, hreturned⟩ := removeMany_correct emptyBlobCache ["a", "a"] s hreach
  obtain ⟨r, hr⟩ := hend hstuck
  obtain ⟨hcalls, hresults, hnil, -, hstore⟩ := hreturned r hr
  have hok : ∀ x ∈ s.calls, x.2 = none := fun x hx => by
    have hid : x.1.2 = "a" := by
      have := List.snd_mem_of_mem_enum (hcalls.mem_iff.mp (List.mem_map_of_mem Prod.fst hx))
      simpa using this
    rw [hresults x hx, hid]
    rfl
  have hnone : r = none := hnil.mpr hok
  subst hnone
  exact ⟨s, hreach, hr, hstore rfl⟩

/-- **The cache `RemoveMany` leaves**, nil or not: the initial cache with exactly the IDs of
`itemIDs` on which `Remove` succeeds deleted, whatever the interleaving. -/
theorem removeMany_store {c c' : Cache} {itemIDs : List String} {r : GoResult Unit}
    (h : RemoveMany.Returns RemoveMany.parallelism itemIDs c c' r) :
    c' = (itemIDs.filter fun itemID => (RemoveMany.errorOf (Manager.remove c itemID)).isNone).foldl
      Cache.erase c :=
  h.store_eq

theorem removeMany_store_emptyBlobCache :
    ∃ c' r, RemoveMany.Returns RemoveMany.parallelism ["a", "format"] emptyBlobCache c' r ∧
      c' = emptyBlobCache.erase "a" := by
  obtain ⟨c', r, hret⟩ := RemoveMany.Returns.exists (show 0 < RemoveMany.parallelism by decide)
    ["a", "format"] emptyBlobCache
  exact ⟨c', r, hret, removeMany_store hret⟩

end KopiaMetadata
