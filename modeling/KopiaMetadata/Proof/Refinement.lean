import KopiaMetadata.Store
import KopiaMetadata.Proof.Reserved

/-!
# The manager implements the store

A cache holds a store (`Coherent`) when access to a block under a name that is not reserved does
not fail, such a block is there exactly when the item is, as a frame of its contents that
`writeEncryptedBlock` could have written, a block under a reserved name is there exactly when the
store says the repository holds it, and the cached names are the stored blocks, each once.

Each call of the API on a coherent cache leaves a coherent cache and either does what the store
does or departs from it in one of the ways `Store.Departs` lists, so every run of the code is a run
of the store. Two departures are met on every repository: it holds its `format` block, so
`ListContents("")` fails, and under a cipher a `Put` of more than GCM seals panics. The defects
found elsewhere need a cache that is not coherent: a blob shorter than a nonce is not a frame, and
a stale list of names is not the stored blocks.
-/

namespace KopiaMetadata

/-- The cache `c` holds the store `st` for the manager `mm`. -/
structure Coherent (mm : Manager) (c : Cache) (st : Store) : Prop where
  healthy : ∀ itemID, isReservedName itemID = false → c.failing itemID = none
  framed : ∀ itemID, isReservedName itemID = false →
    Option.Rel mm.Frames (st.items itemID) (c.blocks.lookup itemID)
  held : ∀ key, isReservedName key = true → (key ∈ c.blocks ↔ st.held key = true)
  names : ∀ key, key ∈ c.names ↔ key ∈ c.blocks
  nodup : c.names.Nodup

/-- A cache with no blocks holds the store with no items. -/
theorem coherent_emptyCache (mm : Manager) : Coherent mm emptyCache Store.empty where
  healthy _ _ := rfl
  framed _ _ := .none
  held _ _ := by simp [emptyCache, Store.empty]
  names _ := by simp [emptyCache]
  nodup := List.nodup_nil

namespace Coherent

variable {mm : Manager} {c c' : Cache} {st : Store}

/-! ### Reading a coherent cache -/

/-- Under a name that is not reserved, the block is absent with the item, or a frame of it. -/
theorem lookup (hcoh : Coherent mm c st) {itemID : String} (hres : isReservedName itemID = false) :
    (st.items itemID = none ∧ c.blocks.lookup itemID = none) ∨
      ∃ content blob, st.items itemID = some content ∧ c.blocks.lookup itemID = some blob ∧
        mm.Frames content blob := by
  have hrel := hcoh.framed itemID hres
  generalize hv : st.items itemID = v at hrel
  generalize hb : c.blocks.lookup itemID = b at hrel
  cases hrel with
  | none => exact .inl ⟨rfl, rfl⟩
  | some hframe => exact .inr ⟨_, _, rfl, rfl, hframe⟩

theorem readEncryptedBlock (hcoh : Coherent mm c st) {itemID : String}
    (hres : isReservedName itemID = false) : mm.readEncryptedBlock c itemID = st.read itemID := by
  have hget := Cache.getBlock_of_lookup (hcoh.healthy itemID hres)
  rcases hcoh.lookup hres with ⟨hst, hc⟩ | ⟨content, blob, hst, hc, hframe⟩
  · simp [Manager.readEncryptedBlock, hget, hc, Store.read, hst]
  · rw [Manager.readEncryptedBlock_of_getBlock (by rw [hget, hc]),
      Manager.decryptBlock_of_frames hframe]
    simp [Store.read, hst]

/-- `GetMetadata` on a coherent cache is the store's checked read. -/
theorem getMetadata (hcoh : Coherent mm c st) : mm.getMetadata c = st.get := by
  funext itemID
  cases hres : isReservedName itemID
  · rw [Manager.getMetadata_of_not_reserved hres, hcoh.readEncryptedBlock hres,
      Store.get_of_not_reserved hres]
  · rw [Manager.getMetadata_of_reserved hres, Store.get_of_reserved hres]
    rfl

/-- A name that is not reserved is a stored block exactly when it names an item. -/
theorem mem_blocks (hcoh : Coherent mm c st) {itemID : String}
    (hres : isReservedName itemID = false) : itemID ∈ c.blocks ↔ st.items itemID ≠ none := by
  rw [← AList.lookup_isSome]
  rcases hcoh.lookup hres with ⟨hst, hc⟩ | ⟨content, blob, hst, hc, -⟩ <;> simp [hst, hc]

/-- `Remove` fails exactly on the reserved names. -/
theorem errorOf_remove (hcoh : Coherent mm c st) (itemID : String) :
    RemoveMany.errorOf (Manager.remove c itemID)
      = if isReservedName itemID then some (invalidName itemID) else none := by
  cases hres : isReservedName itemID
  · simp [Manager.remove_of_not_reserved hres,
      Cache.deleteBlock_of_not_failing (hcoh.healthy itemID hres), RemoveMany.errorOf]
  · simp [Manager.remove_of_reserved hres, RemoveMany.errorOf, invalidName]

/-! ### What keeps a cache coherent -/

/-- Storing a frame of an item's contents under its name keeps the blocks holding the store that
has the item; under a reserved name any blob may be stored. -/
theorem framed_insert {blocks : AList fun _ : String => Bytes}
    (hframed : ∀ key, isReservedName key = false →
      Option.Rel mm.Frames (st.items key) (blocks.lookup key))
    {itemID : String} {content blob : Bytes}
    (hframe : isReservedName itemID = false → mm.Frames content blob) :
    ∀ key, isReservedName key = false →
      Option.Rel mm.Frames ((st.put itemID content).items key)
        ((blocks.insert itemID blob).lookup key) := by
  intro key hres
  by_cases hkey : key = itemID
  · subst hkey
    rw [Store.items_put_self content hres, AList.lookup_insert]
    exact .some (hframe hres)
  · rw [Store.items_put_ne content hkey, AList.lookup_insert_ne hkey]
    exact hframed key hres

/-- Deleting a block keeps the blocks holding the store without the item. -/
theorem framed_erase {blocks : AList fun _ : String => Bytes}
    (hframed : ∀ key, isReservedName key = false →
      Option.Rel mm.Frames (st.items key) (blocks.lookup key))
    (itemID : String) :
    ∀ key, isReservedName key = false →
      Option.Rel mm.Frames ((st.remove itemID).items key) ((blocks.erase itemID).lookup key) := by
  intro key hres
  rw [Store.items_remove]
  split
  · subst key
    rw [AList.lookup_erase]
    exact .none
  · rw [AList.lookup_erase_ne ‹_›]
    exact hframed key hres

/-- Storing a frame of the contents keeps the cache coherent, with the store that has the item. -/
theorem putBlock (hcoh : Coherent mm c st) {itemID : String} {content blob : Bytes}
    (hframe : mm.Frames content blob) (hput : c.putBlock itemID blob = .ok c') :
    Coherent mm c' (st.put itemID content) := by
  obtain ⟨-, rfl⟩ := Cache.putBlock_eq_ok hput
  refine ⟨hcoh.healthy, framed_insert hcoh.framed fun _ => hframe, fun key hkey => ?_,
    fun key => ?_, ?_⟩
  · rw [AList.mem_insert, hcoh.held key hkey, Store.held_put]
    rcases eq_or_ne key itemID with rfl | hid <;> simp [hkey, *]
  · rw [AList.mem_insert, ← hcoh.names]
    by_cases hmem : itemID ∈ c.names
    · simp only [hmem, if_true]
      exact ⟨Or.inr, fun h => h.elim (· ▸ hmem) id⟩
    · simp [hmem, or_comm]
  · split
    · exact hcoh.nodup
    · exact hcoh.nodup.append (List.nodup_singleton _) (List.disjoint_singleton.mpr ‹_›)

/-- Deleting a block under a name that is not reserved keeps the cache coherent, with the store
without the item. -/
theorem erase (hcoh : Coherent mm c st) {itemID : String} (hres : isReservedName itemID = false) :
    Coherent mm (c.erase itemID) (st.remove itemID) :=
  ⟨hcoh.healthy, framed_erase hcoh.framed itemID, fun key hkey => by
    simp [Cache.erase, Store.remove, ← hcoh.held key hkey, ne_of_reserved hkey hres],
    fun key => by simp [Cache.erase, hcoh.names, and_comm], hcoh.nodup.filter _⟩

theorem foldl_erase (hcoh : Coherent mm c st) {itemIDs : List String}
    (hres : ∀ itemID ∈ itemIDs, isReservedName itemID = false) :
    Coherent mm (itemIDs.foldl Cache.erase c) (itemIDs.foldl Store.remove st) := by
  induction itemIDs generalizing c st with
  | nil => exact hcoh
  | cons itemID rest ih =>
    exact ih (hcoh.erase (hres itemID (List.mem_cons_self _ _)))
      fun itemID' hmem => hres itemID' (List.mem_cons_of_mem _ hmem)

theorem refresh (hcoh : Coherent mm c st) : Coherent mm { c with names := c.blocks.keys } st :=
  ⟨hcoh.healthy, hcoh.framed, hcoh.held, fun _ => AList.mem_keys, c.blocks.keys_nodup⟩

/-- A write stores a frame of the content, keeping the cache coherent with the store that has the
item; or fails with an error and leaves the cache as it was; or, under a cipher, panics on a
content longer than GCM seals. -/
theorem write (hcoh : Coherent mm c st) (itemID : String) (content : Bytes) (rnd : RandomReader) :
    (∃ c', mm.writeEncryptedBlock c itemID content rnd = .ok c' ∧
      Coherent mm c' (st.put itemID content)) ∨
    (∃ e, mm.writeEncryptedBlock c itemID content rnd = .error (.error e)) ∨
    mm.aead.isSome ∧ gcmMaxPlaintext < content.length ∧
      mm.writeEncryptedBlock c itemID content rnd = .error (.panic .messageTooLarge) := by
  cases hw : mm.writeEncryptedBlock c itemID content rnd with
  | ok c' =>
    obtain ⟨blob, hframe, hput⟩ := Manager.writeEncryptedBlock_eq_ok hw
    exact .inl ⟨c', rfl, hcoh.putBlock hframe hput⟩
  | error f =>
    cases f with
    | error e => exact .inr (.inl ⟨e, rfl⟩)
    | panic p =>
      obtain ⟨hsome, hlong, rfl⟩ := Manager.writeEncryptedBlock_eq_panic hw
      exact .inr (.inr ⟨hsome, hlong, rfl⟩)

/-- `PutJSON` of what `json.Marshal` returned: a write of it, or `Marshal`'s error. -/
theorem putJSON (hcoh : Coherent mm c st) (id : String) (marshalled : Except GoError Bytes)
    (rnd : RandomReader) :
    (∃ j c', marshalled = .ok j ∧ mm.putJSON c id (fun j => j) marshalled rnd = .ok c' ∧
      Coherent mm c' (st.put id j)) ∨
    (∃ e, mm.putJSON c id (fun j => j) marshalled rnd = .error (.error e)) ∨
    ∃ j, marshalled = .ok j ∧ mm.aead.isSome ∧ gcmMaxPlaintext < j.length ∧
      mm.putJSON c id (fun j => j) marshalled rnd = .error (.panic .messageTooLarge) := by
  cases marshalled with
  | error e => exact .inr (.inl ⟨e, rfl⟩)
  | ok j =>
    rcases hcoh.write id j rnd with ⟨c', hw, hcoh'⟩ | ⟨e, hw⟩ | ⟨hsome, hlong, hw⟩
    · exact .inl ⟨j, c', rfl, hw, hcoh'⟩
    · exact .inr (.inl ⟨e, hw⟩)
    · exact .inr (.inr ⟨j, rfl, hsome, hlong, hw⟩)

end Coherent

/-! ### `MultiGet` over the store's reads -/

section MultiGet

variable {st : Store}

/-- What a fetch puts in the map is the item. -/
theorem fetched_get (key : String) : MultiGet.fetched st.get key = st.items key := by
  cases hres : isReservedName key
  · cases hv : st.items key <;>
      simp [MultiGet.fetched, Store.get_of_not_reserved hres, Store.read, hv]
  · simp [MultiGet.fetched, Store.get_of_reserved hres, st.reserved_none key hres]

/-- What `MultiGet` returns when its fetches are the store's checked reads: the store's map when
every ID names an item, and otherwise the invalid-name error of a reserved ID or `ErrNotFound` for
an absent one. -/
theorem multiGet_returns {itemIDs : List String} {k : Nat} {r : GoResult (String → Option Bytes)}
    (hr : MultiGet.Returns st.get itemIDs k r) :
    ((∀ itemID ∈ itemIDs, isReservedName itemID = false ∧ st.items itemID ≠ none) ∧
      r = .ok (st.multiGet itemIDs)) ∨
    (∃ itemID ∈ itemIDs, isReservedName itemID = true ∧ r = .error (.error (invalidName itemID))) ∨
    (∃ itemID ∈ itemIDs, isReservedName itemID = false ∧ st.items itemID = none ∧
      r = .error (.error .errNotFound)) := by
  by_cases hall : ∀ itemID ∈ itemIDs, isReservedName itemID = false ∧ st.items itemID ≠ none
  · have hok : ∀ itemID ∈ itemIDs, ∃ v, st.get itemID = .ok v := fun itemID hid => by
      obtain ⟨hres, hsome⟩ := hall itemID hid
      obtain ⟨v, hv⟩ := Option.ne_none_iff_exists'.mp hsome
      exact ⟨v, by simp [Store.get_of_not_reserved hres, Store.read, hv]⟩
    rw [hr.eq_sequential hok, MultiGet.sequential_of_ok itemIDs hok]
    exact .inl ⟨hall, by simp only [fetched_get]; rfl⟩
  · push_neg at hall
    obtain ⟨itemID, hid, hbad⟩ := hall
    have hfail : ∃ e, st.get itemID = .error (.error e) := by
      cases hres : isReservedName itemID
      · exact ⟨.errNotFound, by simp [Store.get_of_not_reserved hres, Store.read, hbad hres]⟩
      · exact ⟨invalidName itemID, Store.get_of_reserved hres⟩
    obtain ⟨e, he⟩ := hfail
    cases r with
    | ok m => exact absurd rfl (hr.not_ok hid he m)
    | error f =>
      obtain ⟨itemID', hid', hget⟩ := hr.error rfl
      cases hres : isReservedName itemID'
      · cases hv : st.items itemID' <;>
          simp [Store.get_of_not_reserved hres, Store.read, hv] at hget
        exact .inr (.inr ⟨itemID', hid', hres, hv, by rw [hget]⟩)
      · rw [Store.get_of_reserved hres, Except.error.injEq] at hget
        exact .inr (.inl ⟨itemID', hid', hres, by rw [hget]⟩)

end MultiGet

/-! ### Every call, and every run -/

section Serves

variable {mm : Manager} {c : Cache} {st : Store}

theorem getJSON_ok (itemID : String) :
    mm.getJSON c itemID .ok = mm.readEncryptedBlock c itemID := by
  simp only [Manager.getJSON]
  cases mm.readEncryptedBlock c itemID <;> rfl

/-- `ListContents` on a coherent cache: the store's map, unless `List` gave the name of a block of
the repository. -/
theorem Coherent.listContents (hcoh : Coherent mm c st) {namePrefix : String}
    {r : GoResult (String → Option Bytes)}
    (hr : MultiGet.Returns st.get (c.names.filter namePrefix.isPrefixOf) parallelFetches r) :
    r = .ok (st.listContents namePrefix) ∨
      ∃ itemID, st.held itemID = true ∧ namePrefix.isPrefixOf itemID = true ∧
        r = .error (.error (invalidName itemID)) := by
  have hlisted : ∀ key, key ∈ c.names.filter namePrefix.isPrefixOf ↔
      namePrefix.isPrefixOf key = true ∧ key ∈ c.blocks := fun key => by
    rw [List.mem_filter, hcoh.names, and_comm]
  rcases multiGet_returns hr with ⟨hall, rfl⟩ | ⟨itemID, hid, hres, rfl⟩ |
    ⟨itemID, hid, hres, habsent, -⟩
  · refine .inl (congrArg _ (funext fun key => ?_))
    simp only [Store.multiGet, Store.listContents, hlisted]
    cases hres : isReservedName key
    · simp only [hcoh.mem_blocks hres]
      by_cases hkey : st.items key = none <;> simp [hkey]
    · simp [st.reserved_none key hres]
  · exact .inr ⟨itemID, (hcoh.held itemID hres).mp ((hlisted itemID).mp hid).2,
      ((hlisted itemID).mp hid).1, rfl⟩
  · exact absurd habsent ((hcoh.mem_blocks hres).mp ((hlisted itemID).mp hid).2)

/-- `RemoveMany` on a coherent cache leaves it coherent with the store without the items, and
returns nil, or the invalid-name error of a reserved ID. -/
theorem Coherent.removeMany (hcoh : Coherent mm c st) {itemIDs : List String} {c' : Cache}
    {r : GoResult Unit} (hr : RemoveMany.Returns RemoveMany.parallelism itemIDs c c' r) :
    Coherent mm c' (st.removeMany itemIDs) ∧
      ((∀ itemID ∈ itemIDs, isReservedName itemID = false) ∧ r = .ok () ∨
        ∃ itemID ∈ itemIDs, isReservedName itemID = true ∧
          r = .error (.error (invalidName itemID))) := by
  have hfilter : (itemIDs.filter fun itemID =>
      (RemoveMany.errorOf (Manager.remove c itemID)).isNone)
      = itemIDs.filter fun itemID => !isReservedName itemID :=
    List.filter_congr fun itemID _ => by cases hres : isReservedName itemID <;>
      simp [hcoh.errorOf_remove itemID, hres]
  refine ⟨?_, ?_⟩
  · rw [hr.store_eq, hfilter, ← Store.removeMany_filter, ← Store.foldl_remove]
    exact hcoh.foldl_erase fun itemID hmem => by simpa using (List.mem_filter.mp hmem).2
  · by_cases hall : ∀ itemID ∈ itemIDs, isReservedName itemID = false
    · exact .inl ⟨hall, hr.eq_ok fun itemID hid => by simp [hcoh.errorOf_remove, hall itemID hid]⟩
    · push_neg at hall
      obtain ⟨itemID, hid, hres⟩ := hall
      cases r with
      | ok u =>
        exact absurd rfl (hr.not_ok hid (by simp [hcoh.errorOf_remove, hres]))
      | error f =>
        obtain ⟨itemID', hid', e, he, rfl⟩ := hr.error rfl
        cases hres' : isReservedName itemID' <;> simp [hcoh.errorOf_remove, hres'] at he
        exact .inr ⟨itemID', hid', hres', by rw [he]⟩

/-- **One call.** On a cache that holds the store `st`, every call leaves a cache that holds a
store `st'`, and either does what `st` does, going to `st'`, or departs from it as
`Store.Departs` lists, going to the store its reply says. -/
theorem Coherent.serves (hcoh : Coherent mm c st) {call : Call} {out : Cache × Reply}
    (h : Serves mm c call out) :
    ∃ st', Coherent mm out.1 st' ∧
      (st.Serves call (st', out.2) ∨
        st.Departs mm.aead.isSome call out.2 ∧ st' = st.after (call, out.2)) := by
  cases h with
  | put itemID content rnd =>
    cases hres : isReservedName itemID
    · rw [Manager.put_of_not_reserved hres]
      rcases hcoh.write itemID content rnd with ⟨c', hw, hcoh'⟩ | ⟨e, hw⟩ | ⟨hsome, hlong, hw⟩ <;>
        rw [hw]
      · exact ⟨_, hcoh', .inl (.put itemID content hres)⟩
      · exact ⟨st, hcoh, .inl (.putFails itemID content e hres)⟩
      · exact ⟨st, hcoh, .inr ⟨.putTooLarge itemID content hsome hres hlong, rfl⟩⟩
    · rw [Manager.put_of_reserved hres]
      exact ⟨st, hcoh, .inl (.putReserved itemID content hres)⟩
  | putJSON id marshalled rnd =>
    rcases hcoh.putJSON id marshalled rnd with ⟨j, c', rfl, hw, hcoh'⟩ | ⟨e, hw⟩ |
      ⟨j, rfl, hsome, hlong, hw⟩ <;> rw [hw]
    · cases hres : isReservedName id
      · exact ⟨_, hcoh', .inl (.putJSON id j hres)⟩
      · exact ⟨_, hcoh', .inr ⟨.putJSONReserved id _ (.ok ()) hres, rfl⟩⟩
    · cases hres : isReservedName id
      · exact ⟨st, hcoh, .inl (.putJSONFails id marshalled e hres)⟩
      · exact ⟨st, hcoh, .inr ⟨.putJSONReserved id _ (.error e) hres, rfl⟩⟩
    · exact ⟨st, hcoh, .inr ⟨.putJSONTooLarge id j hsome hlong, rfl⟩⟩
  | getMetadata itemID =>
    rw [hcoh.getMetadata]
    exact ⟨st, hcoh, .inl (.getMetadata itemID)⟩
  | getJSON itemID =>
    cases hres : isReservedName itemID
    · rw [getJSON_ok, hcoh.readEncryptedBlock hres]
      exact ⟨st, hcoh, .inl (.getJSON itemID hres)⟩
    · exact ⟨st, hcoh, .inr ⟨.getJSONReserved itemID _ hres, rfl⟩⟩
  | multiGet itemIDs r hr =>
    rw [hcoh.getMetadata] at hr
    refine ⟨st, hcoh, ?_⟩
    rcases multiGet_returns hr with ⟨hall, rfl⟩ | ⟨itemID, hid, hres, rfl⟩ |
      ⟨itemID, hid, hres, habsent, rfl⟩
    · exact .inl (.multiGet itemIDs fun itemID hid => (hall itemID hid).1)
    · exact .inl (.multiGetReserved itemIDs itemID hid hres)
    · exact .inr ⟨.multiGetAbsent itemIDs itemID hid hres habsent, rfl⟩
  | listContents namePrefix itemIDs r hlist hr =>
    obtain rfl : c.names.filter namePrefix.isPrefixOf = itemIDs := by
      simpa [Manager.list_eq] using hlist
    rw [hcoh.getMetadata] at hr
    refine ⟨st, hcoh, ?_⟩
    rcases hcoh.listContents hr with rfl | ⟨itemID, hheld, hstarts, rfl⟩
    · exact .inl (.listContents namePrefix)
    · exact .inr ⟨.listContentsReserved namePrefix itemID hheld hstarts, rfl⟩
  | listContentsError namePrefix e hlist => simp [Manager.list_eq] at hlist
  | list namePrefix =>
    rw [Manager.list_eq]
    refine ⟨st, hcoh, .inl (.list namePrefix _ (hcoh.nodup.filter _)
      (fun name hname => (List.mem_filter.mp hname).2) fun itemID hres => ?_)⟩
    rw [List.mem_filter, hcoh.names, hcoh.mem_blocks hres, and_comm]
  | remove itemID =>
    cases hres : isReservedName itemID
    · rw [Manager.remove_of_not_reserved hres,
        Cache.deleteBlock_of_not_failing (hcoh.healthy itemID hres)]
      exact ⟨_, hcoh.erase hres, .inl (.remove itemID hres)⟩
    · rw [Manager.remove_of_reserved hres]
      exact ⟨st, hcoh, .inl (.removeReserved itemID hres)⟩
  | removeMany itemIDs c' r hr =>
    obtain ⟨hcoh', ⟨hall, rfl⟩ | ⟨itemID, hid, hres, rfl⟩⟩ := hcoh.removeMany hr
    · exact ⟨_, hcoh', .inl (.removeMany itemIDs hall)⟩
    · exact ⟨_, hcoh', .inl (.removeManyReserved itemIDs itemID hid hres)⟩
  | refreshCache => exact ⟨st, hcoh.refresh, .inl .refreshCache⟩

end Serves

/-- **Calls on a coherent cache return.** On a cache that holds a store, every call has an
interleaving that returns, and no call panics but `GetJSON` of a reserved name, whose block the
manager did not write, and, under a cipher, `Put` or `PutJSON` of a content longer than GCM
seals. -/
theorem coherent_calls_return {mm : Manager} {c : Cache} {st : Store} (hcoh : Coherent mm c st)
    (call : Call) :
    (∃ out, Serves mm c call out) ∧
    ∀ out, Serves mm c call out → out.2.panicked = true →
      (∃ itemID, call = .getJSON itemID ∧ isReservedName itemID = true) ∨
        mm.aead.isSome ∧ ∃ content, gcmMaxPlaintext < content.length ∧
          ((∃ itemID, call = .put itemID content) ∨ ∃ id, call = .putJSON id (.ok content)) := by
  refine ⟨?_, fun out h hp => ?_⟩
  · have hnp : ∀ itemIDs : List String, ∀ itemID ∈ itemIDs, ∀ p,
        mm.getMetadata c itemID ≠ .error (.panic p) := fun _ itemID _ p => by
      rw [hcoh.getMetadata]
      exact Store.get_ne_panic itemID p
    cases call with
    | put itemID content => exact ⟨_, .put itemID content zeroRandom⟩
    | putJSON id marshalled => exact ⟨_, .putJSON id marshalled zeroRandom⟩
    | getMetadata itemID => exact ⟨_, .getMetadata itemID⟩
    | getJSON itemID => exact ⟨_, .getJSON itemID⟩
    | multiGet itemIDs =>
      obtain ⟨r, hr⟩ := MultiGet.Returns.exists (show 0 < parallelFetches by decide) (hnp itemIDs)
      exact ⟨_, .multiGet itemIDs r hr⟩
    | listContents namePrefix =>
      obtain ⟨r, hr⟩ := MultiGet.Returns.exists (show 0 < parallelFetches by decide)
        (hnp (c.names.filter namePrefix.isPrefixOf))
      exact ⟨_, .listContents namePrefix _ r (Manager.list_eq c namePrefix) hr⟩
    | list namePrefix => exact ⟨_, .list namePrefix⟩
    | remove itemID => exact ⟨_, .remove itemID⟩
    | removeMany itemIDs =>
      obtain ⟨c', r, hr⟩ :=
        RemoveMany.Returns.exists (show 0 < RemoveMany.parallelism by decide) itemIDs c
      exact ⟨_, .removeMany itemIDs c' r hr⟩
    | refreshCache => exact ⟨_, .refreshCache⟩
  · obtain ⟨st', -, hstep | ⟨hdepart, -⟩⟩ := hcoh.serves h
    · rw [hstep.not_panicked] at hp
      cases hp
    · exact hdepart.panicked hp

theorem coherent_calls_return_emptyCache :
    ∃ out, Serves sampleNone emptyCache (.multiGet ["a", "b"]) out :=
  (coherent_calls_return (coherent_emptyCache sampleNone) (.multiGet ["a", "b"])).1

/-! ### A departure -/

/-- **`ListContents` refuses the repository's blocks.** On every cache that holds a store, every
interleaving of `ListContents(prefix)` fails when the repository holds a block under a reserved name
with the prefix, with the invalid-name error of such a name, and otherwise returns the store's map.
A repository always holds its `format` block, so there `ListContents("")` always fails. -/
theorem listContents_refuses_reserved {mm : Manager} {c : Cache} {st : Store}
    (hcoh : Coherent mm c st) {namePrefix : String} {out : Cache × Reply}
    (h : Serves mm c (.listContents namePrefix) out) :
    out.1 = c ∧
    ((∃ key, st.held key = true ∧ namePrefix.isPrefixOf key = true) →
      ∃ itemID, st.held itemID = true ∧ namePrefix.isPrefixOf itemID = true ∧
        out.2 = .items (.error (.error (invalidName itemID)))) ∧
    ((∀ key, st.held key = true → namePrefix.isPrefixOf key = false) →
      out.2 = .items (.ok (st.listContents namePrefix))) := by
  cases h with
  | listContentsError _ e hlist => simp [Manager.list_eq] at hlist
  | listContents _ itemIDs r hlist hr =>
    obtain rfl : c.names.filter namePrefix.isPrefixOf = itemIDs := by
      simpa [Manager.list_eq] using hlist
    rw [hcoh.getMetadata] at hr
    refine ⟨rfl, fun ⟨key, hheld, hstarts⟩ => ?_, fun hnone => ?_⟩ <;>
      rcases hcoh.listContents hr with rfl | ⟨itemID, hheld', hstarts', rfl⟩
    · have hres := st.held_reserved key hheld
      have hmem : key ∈ c.names.filter namePrefix.isPrefixOf := by
        rw [List.mem_filter, hcoh.names, hcoh.held key hres]
        exact ⟨hheld, hstarts⟩
      exact absurd rfl (hr.not_ok hmem (Store.get_of_reserved hres) _)
    · exact ⟨itemID, hheld', hstarts', rfl⟩
    · rfl
    · rw [hnone itemID hheld'] at hstarts'
      cases hstarts'

/-- The store of a repository that holds its `repo` block and no item. -/
def repoStore : Store := Store.empty.put "repo" [1]

theorem listContents_refuses_reserved_repoCache :
    Coherent sampleNone repoCache repoStore ∧
      ∃ out, Serves sampleNone repoCache (.listContents "") out ∧
        out.2 = .items (.error (.error (invalidName "repo"))) := by
  have hcoh : Coherent sampleNone repoCache repoStore :=
    (coherent_emptyCache sampleNone).putBlock rfl rfl
  obtain ⟨r, hr⟩ : ∃ r, MultiGet.Returns (sampleNone.getMetadata repoCache) ["repo"]
      parallelFetches r :=
    MultiGet.Returns.exists (by decide) fun itemID hid p => by
      rw [List.mem_singleton.mp hid,
        Manager.getMetadata_of_reserved (show isReservedName "repo" = true from rfl)]
      simp
  have hserve := Serves.listContents "" ["repo"] r (Cache.listBlocks_empty (c := repoCache)) hr
  obtain ⟨-, hfail, -⟩ := listContents_refuses_reserved hcoh hserve
  obtain ⟨itemID, hheld, -, hout⟩ := hfail ⟨"repo", rfl, Cache.empty_isPrefixOf _⟩
  obtain rfl : itemID = "repo" := by
    by_contra hne
    simp [repoStore, Store.held_put, Store.empty, hne] at hheld
  exact ⟨hcoh, _, hserve, hout⟩

end KopiaMetadata
