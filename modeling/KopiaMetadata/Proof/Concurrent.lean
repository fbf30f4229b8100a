import KopiaMetadata.SharedGet
import KopiaMetadata.SharedRemove
import KopiaMetadata.Proof.Frame

/-!
# `MultiGet` and `RemoveMany` under concurrent writes

The results about `MultiGet` and `RemoveMany` elsewhere take a store that nothing else modifies
during the call. Nothing in the code asks for that: the manager holds no lock across the fetches or
the removals, so the storage may change while the call runs (and `ListContents`, which hands what
`List` returned to `MultiGet`, inherits all of this). Here other goroutines and other clients write
at any point of the call. For `MultiGet`, each value the call returns is one its item held at some
moment of the call, and an item whose every read fails fails the call; but the values need not come
from one moment: two `Put`s made while the call runs can leave it returning a map that the storage
never held. For `RemoveMany`, writes can neither make it panic nor stall it, and it fails exactly
as its `Remove` calls do on the states the storage held; but a nil return does not mean its items
are gone: a `Put` made after one of its removals survives the call.
-/

namespace KopiaMetadata

namespace Manager

variable {mm : Manager} {c c' : Cache} {itemID : String} {content : Bytes} {rnd : RandomReader}

theorem getMetadata_congr {c'' : Cache} (h : c.getBlock itemID = c''.getBlock itemID) :
    mm.getMetadata c itemID = mm.getMetadata c'' itemID := by
  simp only [getMetadata, readEncryptedBlock, h]

theorem getMetadata_after_put (h : mm.put c itemID content rnd = .ok c') :
    mm.getMetadata c' itemID = .ok content := by
  obtain ⟨hname, hwrite⟩ := put_eq_ok h
  obtain ⟨blob, hframe, hblock⟩ := writeEncryptedBlock_eq_ok hwrite
  rw [getMetadata_of_not_reserved hname,
    readEncryptedBlock_of_getBlock (Cache.getBlock_after_putBlock hblock),
    decryptBlock_of_frames hframe]

theorem getMetadata_after_put_ne (h : mm.put c itemID content rnd = .ok c') {key : String}
    (hne : key ≠ itemID) : mm.getMetadata c' key = mm.getMetadata c key := by
  obtain ⟨-, hwrite⟩ := put_eq_ok h
  obtain ⟨blob, -, hblock⟩ := writeEncryptedBlock_eq_ok hwrite
  exact getMetadata_congr (Cache.getBlock_putBlock_ne hblock hne)

end Manager

/-- A cache holding items `a` and `b`, both as `[0]`. -/
def pairCache : Cache :=
  ⟨((∅ : AList fun _ : String => Bytes).insert "a" [0]).insert "b" [0], fun _ => none, ["a", "b"]⟩

/-- **`MultiGet` while the storage changes.** In every run of `MultiGet(itemIDs)` in which other
goroutines or other clients change the storage at any point, what the call returns came from its
own reads: a returned map has an entry exactly for each ID of `itemIDs`, and each entry is what
`GetMetadata` of its key gave on some state the storage held during the call; an error or a panic
is what `GetMetadata` of one of `itemIDs` gave on such a state; an item whose every read during
the call fails makes the call fail; and a call that saw no write returns what `MultiGet` returns on
the storage it started on. -/
theorem multiGet_while_writing {mm : Manager} {c : Cache} {itemIDs : List String}
    {seen : List Cache} {reply : GoResult (String → Option Bytes)}
    (h : MultiGet.SharedReturns mm.getMetadata c itemIDs parallelFetches seen reply) :
    (∀ m, reply = .ok m → ∀ key, (m key ≠ none ↔ key ∈ itemIDs) ∧
      ∀ v, m key = some v → ∃ c' ∈ seen, mm.getMetadata c' key = .ok v) ∧
    (∀ f, reply = .error f → ∃ itemID ∈ itemIDs, ∃ c' ∈ seen, mm.getMetadata c' itemID = .error f) ∧
    (∀ itemID ∈ itemIDs, (∀ c' ∈ seen, ∃ e, mm.getMetadata c' itemID = .error (.error e)) →
      ∀ m, reply ≠ .ok m) ∧
    (seen = [c] → MultiGet.Returns (mm.getMetadata c) itemIDs parallelFetches reply) := by
  refine ⟨fun m hm key => ⟨⟨fun hkey => ?_, h.entry_of_mem hm⟩, fun v hv => (h.entry hm hv).2⟩,
    fun f hf => h.error hf, fun itemID hmem hfail => h.not_ok hmem hfail,
    fun hseen => MultiGet.sharedReturns_without_writes.mp (hseen ▸ h)⟩
  obtain ⟨v, hv⟩ := Option.ne_none_iff_exists'.mp hkey
  exact (h.entry hm hv).1

theorem multiGet_while_writing_pairCache :
    MultiGet.SharedReturns sampleNone.getMetadata pairCache ["a", "b"] parallelFetches
        [pairCache, emptyCache, pairCache]
        (.ok (Function.update (Function.update (fun _ => none) "a" (some [0])) "b" (some [0]))) ∧
      ∀ f, (.ok (Function.update (Function.update (fun _ => none) "a" (some [0])) "b" (some [0]))
          : GoResult (String → Option Bytes)) = .error f →
        ∃ itemID ∈ ["a", "b"], ∃ c' ∈ [pairCache, emptyCache, pairCache],
          sampleNone.getMetadata c' itemID = .error f := by
  have hreturns : MultiGet.SharedReturns sampleNone.getMetadata pairCache ["a", "b"]
      parallelFetches [pairCache, emptyCache, pairCache]
      (.ok (Function.update (Function.update (fun _ => none) "a" (some [0])) "b" (some [0]))) :=
    MultiGet.SharedReturns.mixed (by decide) rfl rfl
  exact ⟨hreturns, (multiGet_while_writing hreturns).2.1⟩

/-- **`MultiGet` is not a snapshot.** For every manager, every cache in which `a` reads as `va`,
and any `Put` of `va'` under `a` followed by a `Put` of `vb` under `b`, each with its own random
source, made by another goroutine while `MultiGet([a, b])` runs, some interleaving returns the value `a` had before the `Put`s with
the value `b` has after them. When the `Put`s changed both items, no state the storage held during
the call maps `a` and `b` so. -/
theorem multiGet_not_snapshot {mm : Manager} {c₀ c₁ c₂ : Cache} {a b : String}
    {va va' vb : Bytes} {rnd₁ rnd₂ : RandomReader} (hab : a ≠ b)
    (ha : mm.getMetadata c₀ a = .ok va) (hputa : mm.put c₀ a va' rnd₁ = .ok c₁)
    (hputb : mm.put c₁ b vb rnd₂ = .ok c₂) :
    MultiGet.SharedReturns mm.getMetadata c₀ [a, b] parallelFetches [c₀, c₁, c₂]
        (.ok (Function.update (Function.update (fun _ => none) a (some va)) b (some vb))) ∧
      (va ≠ va' → mm.getMetadata c₀ b ≠ .ok vb →
        ∀ c ∈ [c₀, c₁, c₂], ¬ (mm.getMetadata c a = .ok va ∧ mm.getMetadata c b = .ok vb)) := by
  have ha₁ := Manager.getMetadata_after_put hputa
  have ha₂ : mm.getMetadata c₂ a = .ok va' := (Manager.getMetadata_after_put_ne hputb hab).trans ha₁
  refine ⟨MultiGet.SharedReturns.mixed (by decide) ha (Manager.getMetadata_after_put hputb),
    fun hva hb₀ c hc ⟨hca, hcb⟩ => ?_⟩
  simp only [List.mem_cons, List.mem_singleton, List.not_mem_nil, or_false] at hc
  rcases hc with rfl | rfl | rfl
  · exact hb₀ hcb
  · exact hva (Except.ok.inj (hca.symm.trans ha₁))
  · exact hva (Except.ok.inj (hca.symm.trans ha₂))

theorem multiGet_not_snapshot_pairCache :
    ("a" ≠ "b" ∧ sampleNone.getMetadata pairCache "a" = .ok [0]) ∧
      ∃ c₁ c₂, sampleNone.put pairCache "a" [1] zeroRandom = .ok c₁ ∧
        sampleNone.put c₁ "b" [1] zeroRandom = .ok c₂ ∧
        MultiGet.SharedReturns sampleNone.getMetadata pairCache ["a", "b"] parallelFetches
          [pairCache, c₁, c₂]
          (.ok (Function.update (Function.update (fun _ => none) "a" (some [0])) "b" (some [1]))) ∧
        (([0] : Bytes) ≠ [1] → sampleNone.getMetadata pairCache "b" ≠ .ok [1] →
          ∀ c ∈ [pairCache, c₁, c₂], ¬ (sampleNone.getMetadata c "a" = .ok [0] ∧
            sampleNone.getMetadata c "b" = .ok [1])) :=
  ⟨⟨by decide, rfl⟩, _, _, rfl, rfl,
    @multiGet_not_snapshot sampleNone pairCache _ _ "a" "b" [0] [1] [1] zeroRandom zeroRandom
      (by decide) rfl rfl rfl⟩

/-- **`RemoveMany` while the storage changes.** In every run of `RemoveMany(itemIDs)` in which other
goroutines or other clients write the storage at any point, the call fails only with the error that
`Remove` of one of `itemIDs` returns on some state the storage held during the call (the one it
started on or one written since); it returns nil when `Remove` succeeds on every ID on each of those
states, and fails when `Remove` of one ID fails on each; and a call that saw no write returns and
leaves what `RemoveMany` does on a cache nothing else changes. -/
theorem removeMany_while_writing {c c' : Cache} {itemIDs : List String} {seen : List Cache}
    {r : GoResult Unit}
    (h : RemoveMany.SharedReturns RemoveMany.parallelism itemIDs c seen c' r) :
    (∀ f, r = .error f → ∃ itemID ∈ itemIDs, ∃ c'' ∈ seen, ∃ e,
      RemoveMany.errorOf (Manager.remove c'' itemID) = some e ∧ f = .error e) ∧
    ((∀ itemID ∈ itemIDs, ∀ c'' ∈ seen, RemoveMany.errorOf (Manager.remove c'' itemID) = none) →
      r = .ok ()) ∧
    (∀ itemID ∈ itemIDs, (∀ c'' ∈ seen, RemoveMany.errorOf (Manager.remove c'' itemID) ≠ none) →
      r ≠ .ok ()) ∧
    (seen = [c] → RemoveMany.Returns RemoveMany.parallelism itemIDs c c' r) :=
  ⟨fun _ hf => h.error hf, h.eq_ok, fun _ hmem hfail => h.not_ok hmem hfail,
    fun hseen => RemoveMany.sharedReturns_without_writes.mp (hseen ▸ h)⟩

theorem removeMany_while_writing_pairCache :
    RemoveMany.SharedReturns RemoveMany.parallelism ["a"] pairCache [pairCache, emptyCache]
        emptyCache (.ok ()) ∧
      ((∀ itemID ∈ ["a"], ∀ c'' ∈ [pairCache, emptyCache],
          RemoveMany.errorOf (Manager.remove c'' itemID) = none) →
        (.ok () : GoResult Unit) = .ok ()) := by
  have hreturns : RemoveMany.SharedReturns RemoveMany.parallelism ["a"] pairCache
      [pairCache, emptyCache] emptyCache (.ok ()) :=
    RemoveMany.SharedReturns.rewritten (by decide) (rfl : Manager.remove pairCache "a" = .ok _)
      emptyCache
  exact ⟨hreturns, (removeMany_while_writing hreturns).2.1⟩

/-- **`RemoveMany` is not atomic.** For every manager and every item `a` that `Remove` deletes
from the cache, and any `Put` of `a` made by another goroutine after the call's removal of `a`,
some interleaving of `RemoveMany([a])` returns nil and leaves `a` readable, with the content the
`Put` stored. -/
theorem removeMany_not_atomic {mm : Manager} {c c₀ c₁ : Cache} {a : String} {v : Bytes}
    {rnd : RandomReader} (hremove : Manager.remove c a = .ok c₀)
    (hput : mm.put c₀ a v rnd = .ok c₁) :
    RemoveMany.SharedReturns RemoveMany.parallelism [a] c [c, c₁] c₁ (.ok ()) ∧
      mm.getMetadata c₁ a = .ok v :=
  ⟨RemoveMany.SharedReturns.rewritten (by decide) hremove c₁,
    Manager.getMetadata_after_put hput⟩

theorem removeMany_not_atomic_pairCache :
    ∃ c₀ c₁, Manager.remove pairCache "a" = .ok c₀ ∧ sampleNone.put c₀ "a" [1] zeroRandom = .ok c₁ ∧
      RemoveMany.SharedReturns RemoveMany.parallelism ["a"] pairCache [pairCache, c₁] c₁ (.ok ()) ∧
      sampleNone.getMetadata c₁ "a" = .ok [1] :=
  ⟨_, _, rfl, rfl, @removeMany_not_atomic sampleNone pairCache _ _ "a" [1] zeroRandom rfl rfl⟩

end KopiaMetadata
