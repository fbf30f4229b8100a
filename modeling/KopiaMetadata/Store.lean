import KopiaMetadata.Api

/-!
# The store the manager implements

What the metadata manager is for: a keyed store of named items in which the names `format` and
`repo` are reserved. `Put` stores an item, `GetMetadata` and `GetJSON` read one (`ErrNotFound` when
it is absent), `MultiGet` and `ListContents` read many and leave absent items out of the map, `List`
names the stored items with a prefix, `Remove` and `RemoveMany` delete, and every method refuses a
reserved name with `InvalidArgument`. A write may fail, leaving the store as it was: the random
source of a nonce can. Encryption, the cache and the goroutines do not show at this level. Under
the reserved names the repository keeps blocks of its own, which are no items; the store records
which of them exist (`held`), since `ListContents` trips over them.

`Departs` lists where the code does something else; `Proof/Refinement.lean` shows that a run of
the code from a cache that holds a store is a run of that store, apart from these departures.
-/

namespace KopiaMetadata

/-- The error for a reserved name, in `checkReservedName`'s words. -/
def invalidName (itemID : String) : GoError :=
  .message ("invalid metadata item name: '" ++ itemID ++ "'")

/-- The contents of the metadata items, by ID, and the reserved names under which the repository
keeps a block of its own. No item has a reserved name. -/
@[ext]
structure Store where
  items : String → Option Bytes
  reserved_none : ∀ itemID, isReservedName itemID = true → items itemID = none
  held : String → Bool
  held_reserved : ∀ key, held key = true → isReservedName key = true

namespace Store

/-- The store with no items and no block of the repository. -/
def empty : Store := ⟨fun _ => none, fun _ _ => rfl, fun _ => false, fun _ h => by cases h⟩

variable (st : Store)

/-- Reading an item: its contents, or `ErrNotFound`. -/
def read (itemID : String) : GoResult Bytes :=
  match st.items itemID with
  | some content => .ok content
  | none => .error (.error .errNotFound)

/-- Reading an item under a checked name. -/
def get (itemID : String) : GoResult Bytes :=
  if isReservedName itemID then .error (.error (invalidName itemID)) else st.read itemID

/-- Storing an item; under a reserved name no item is stored, and the repository's block is
written. -/
def put (itemID : String) (content : Bytes) : Store where
  items := if isReservedName itemID then st.items
    else Function.update st.items itemID (some content)
  reserved_none key hkey := by
    split
    · exact st.reserved_none key hkey
    · rw [Function.update_noteq (by rintro rfl; simp_all), st.reserved_none key hkey]
  held := if isReservedName itemID then Function.update st.held itemID true else st.held
  held_reserved key hkey := by
    split at hkey
    · rw [Function.update_apply] at hkey
      split at hkey
      · subst key
        assumption
      · exact st.held_reserved key hkey
    · exact st.held_reserved key hkey

/-- Deleting an item. -/
def remove (itemID : String) : Store where
  items := Function.update st.items itemID none
  reserved_none key hkey := by
    rw [Function.update_apply]
    split
    · rfl
    · exact st.reserved_none key hkey
  held := st.held
  held_reserved := st.held_reserved

/-- Deleting the items of a list. -/
def removeMany (itemIDs : List String) : Store where
  items key := if key ∈ itemIDs then none else st.items key
  reserved_none key hkey := by simp [st.reserved_none key hkey]
  held := st.held
  held_reserved := st.held_reserved

/-- The map `MultiGet` promises: each ID of the list to its item, absent items left out. -/
def multiGet (itemIDs : List String) (key : String) : Option Bytes :=
  if key ∈ itemIDs then st.items key else none

/-- The map `ListContents` promises: every item whose ID has the prefix. -/
def listContents (namePrefix key : String) : Option Bytes :=
  if namePrefix.isPrefixOf key then st.items key else none

/-! ### Spec lemmas -/

variable {st}

theorem get_of_reserved {itemID : String} (h : isReservedName itemID = true) :
    st.get itemID = .error (.error (invalidName itemID)) := by
  simp [get, h]

theorem get_of_not_reserved {itemID : String} (h : isReservedName itemID = false) :
    st.get itemID = st.read itemID := by
  simp [get, h]

theorem get_ne_panic (itemID : String) (p : Panic) : st.get itemID ≠ .error (.panic p) := by
  unfold get read
  split
  · simp
  · split <;> simp

theorem held_put (itemID : String) (content : Bytes) (key : String) :
    (st.put itemID content).held key = (isReservedName itemID && key = itemID || st.held key) := by
  cases hres : isReservedName itemID <;> rcases eq_or_ne key itemID with rfl | hkey <;>
    simp [put, *]

theorem items_put_self {itemID : String} (content : Bytes) (h : isReservedName itemID = false) :
    (st.put itemID content).items itemID = some content := by
  simp [put, h]

theorem items_put_ne {itemID key : String} (content : Bytes) (hkey : key ≠ itemID) :
    (st.put itemID content).items key = st.items key := by
  simp only [put]
  split
  · rfl
  · exact Function.update_noteq hkey _ _

theorem items_remove (itemID key : String) :
    (st.remove itemID).items key = if key = itemID then none else st.items key :=
  Function.update_apply _ _ _ _

theorem items_removeMany (itemIDs : List String) (key : String) :
    (st.removeMany itemIDs).items key = if key ∈ itemIDs then none else st.items key := rfl

/-- Reserved names name no item, so deleting them deletes nothing. -/
theorem removeMany_filter (itemIDs : List String) :
    st.removeMany (itemIDs.filter fun itemID => !isReservedName itemID)
      = st.removeMany itemIDs := by
  refine Store.ext (funext fun key => ?_) rfl
  cases hres : isReservedName key <;> simp [items_removeMany, hres, st.reserved_none key]

/-- Deleting the items of a list one by one deletes them all. -/
theorem foldl_remove (itemIDs : List String) :
    itemIDs.foldl remove st = st.removeMany itemIDs := by
  induction itemIDs generalizing st with
  | nil => ext1 <;> funext key <;> simp [items_removeMany, removeMany]
  | cons itemID rest ih =>
    rw [List.foldl_cons, ih]
    refine Store.ext (funext fun key => ?_) rfl
    by_cases hkey : key = itemID <;> simp [items_removeMany, items_remove, hkey]

end Store

/-- One call on the store: the store it leaves and its reply, as the spec allows them. -/
inductive Store.Serves (st : Store) : Call → Store × Reply → Prop
  | put (itemID : String) (content : Bytes) (hres : isReservedName itemID = false) :
      Store.Serves st (.put itemID content) (st.put itemID content, .unit (.ok ()))
  | putFails (itemID : String) (content : Bytes) (e : GoError)
      (hres : isReservedName itemID = false) :
      Store.Serves st (.put itemID content) (st, .unit (.error (.error e)))
  | putReserved (itemID : String) (content : Bytes) (hres : isReservedName itemID = true) :
      Store.Serves st (.put itemID content) (st, .unit (.error (.error (invalidName itemID))))
  | putJSON (id : String) (j : Bytes) (hres : isReservedName id = false) :
      Store.Serves st (.putJSON id (.ok j)) (st.put id j, .unit (.ok ()))
  | putJSONFails (id : String) (marshalled : Except GoError Bytes) (e : GoError)
      (hres : isReservedName id = false) :
      Store.Serves st (.putJSON id marshalled) (st, .unit (.error (.error e)))
  | getMetadata (itemID : String) :
      Store.Serves st (.getMetadata itemID) (st, .bytes (st.get itemID))
  | getJSON (itemID : String) (hres : isReservedName itemID = false) :
      Store.Serves st (.getJSON itemID) (st, .bytes (st.read itemID))
  | multiGet (itemIDs : List String) (hres : ∀ itemID ∈ itemIDs, isReservedName itemID = false) :
      Store.Serves st (.multiGet itemIDs) (st, .items (.ok (st.multiGet itemIDs)))
  | multiGetReserved (itemIDs : List String) (itemID : String) (hmem : itemID ∈ itemIDs)
      (hres : isReservedName itemID = true) :
      Store.Serves st (.multiGet itemIDs) (st, .items (.error (.error (invalidName itemID))))
  | listContents (namePrefix : String) :
      Store.Serves st (.listContents namePrefix) (st, .items (.ok (st.listContents namePrefix)))
  | list (namePrefix : String) (names : List String) (hnodup : names.Nodup)
      (hstarts : ∀ name ∈ names, namePrefix.isPrefixOf name = true)
      (hitems : ∀ itemID, isReservedName itemID = false →
        (itemID ∈ names ↔ namePrefix.isPrefixOf itemID = true ∧ st.items itemID ≠ none)) :
      Store.Serves st (.list namePrefix) (st, .names (.ok names))
  | remove (itemID : String) (hres : isReservedName itemID = false) :
      Store.Serves st (.remove itemID) (st.remove itemID, .unit (.ok ()))
  | removeReserved (itemID : String) (hres : isReservedName itemID = true) :
      Store.Serves st (.remove itemID) (st, .unit (.error (.error (invalidName itemID))))
  | removeMany (itemIDs : List String)
      (hres : ∀ itemID ∈ itemIDs, isReservedName itemID = false) :
      Store.Serves st (.removeMany itemIDs) (st.removeMany itemIDs, .unit (.ok ()))
  | removeManyReserved (itemIDs : List String) (itemID : String) (hmem : itemID ∈ itemIDs)
      (hres : isReservedName itemID = true) :
      Store.Serves st (.removeMany itemIDs)
        (st.removeMany itemIDs, .unit (.error (.error (invalidName itemID))))
  | refreshCache : Store.Serves st .refreshCache (st, .unit (.ok ()))

/-- Where the code does not do what the store does, and what it does there; `sealed` says whether
the manager seals items. -/
inductive Store.Departs (sealed : Bool) (st : Store) : Call → Reply → Prop
  /-- `MultiGet` fails with `ErrNotFound` on an absent item, where the store leaves it out. -/
  | multiGetAbsent (itemIDs : List String) (itemID : String) (hmem : itemID ∈ itemIDs)
      (hres : isReservedName itemID = false) (habsent : st.items itemID = none) :
      Store.Departs sealed st (.multiGet itemIDs) (.items (.error (.error .errNotFound)))
  /-- `ListContents` hands the names of the repository's blocks that `List` gives it to `MultiGet`,
  which refuses them. -/
  | listContentsReserved (namePrefix itemID : String) (hheld : st.held itemID = true)
      (hstarts : namePrefix.isPrefixOf itemID = true) :
      Store.Departs sealed st (.listContents namePrefix)
        (.items (.error (.error (invalidName itemID))))
  /-- `PutJSON` writes under a reserved name. -/
  | putJSONReserved (id : String) (marshalled : Except GoError Bytes) (r : Except GoError Unit)
      (hres : isReservedName id = true) :
      Store.Departs sealed st (.putJSON id marshalled) (.unit (liftError r))
  /-- `GetJSON` reads under a reserved name. -/
  | getJSONReserved (itemID : String) (r : GoResult Bytes) (hres : isReservedName itemID = true) :
      Store.Departs sealed st (.getJSON itemID) (.bytes r)
  /-- `Put` of a content longer than GCM seals panics in `Seal`. -/
  | putTooLarge (itemID : String) (content : Bytes) (hsealed : sealed = true)
      (hres : isReservedName itemID = false) (hlong : gcmMaxPlaintext < content.length) :
      Store.Departs sealed st (.put itemID content) (.unit (.error (.panic .messageTooLarge)))
  /-- `PutJSON` of a marshalled value longer than GCM seals panics in `Seal`. -/
  | putJSONTooLarge (id : String) (j : Bytes) (hsealed : sealed = true)
      (hlong : gcmMaxPlaintext < j.length) :
      Store.Departs sealed st (.putJSON id (.ok j)) (.unit (.error (.panic .messageTooLarge)))

namespace Store

/-- The store after a call, given its reply: the spec's effect of the call, which depends only on
the call and on whether it returned nil. -/
def after (st : Store) : Call × Reply → Store
  | (.put itemID content, .unit (.ok ())) => st.put itemID content
  | (.putJSON id marshalled, .unit (.ok ())) =>
    match marshalled with
    | .ok j => st.put id j
    | .error _ => st
  | (.remove itemID, .unit (.ok ())) => st.remove itemID
  | (.removeMany itemIDs, _) => st.removeMany itemIDs
  | _ => st

variable {st st' : Store} {call : Call} {reply : Reply} {sealed : Bool}

/-- A call the spec allows goes to the store its reply says. -/
theorem Serves.after (h : st.Serves call (st', reply)) : st' = st.after (call, reply) := by
  cases h <;> rfl

/-- No reply the spec allows is a panic. -/
theorem Serves.not_panicked (h : st.Serves call (st', reply)) : reply.panicked = false := by
  cases h with
  | getMetadata itemID =>
    unfold get read
    split
    · rfl
    · split <;> rfl
  | getJSON itemID _ =>
    unfold read
    split <;> rfl
  | _ => rfl

/-- The departures that can panic are `GetJSON` of a reserved name, and, when the manager seals
items, `Put` or `PutJSON` of a content longer than GCM seals. -/
theorem Departs.panicked (h : st.Departs sealed call reply) (hp : reply.panicked = true) :
    (∃ itemID, call = .getJSON itemID ∧ isReservedName itemID = true) ∨
      sealed = true ∧ ∃ content, gcmMaxPlaintext < content.length ∧
        ((∃ itemID, call = .put itemID content) ∨ ∃ id, call = .putJSON id (.ok content)) := by
  cases h with
  | getJSONReserved itemID r hres => exact .inl ⟨itemID, rfl, hres⟩
  | putJSONReserved id marshalled r hres => cases r <;> cases hp
  | putTooLarge itemID content hsealed _ hlong => exact .inr ⟨hsealed, content, hlong, .inl ⟨_, rfl⟩⟩
  | putJSONTooLarge id j hsealed hlong => exact .inr ⟨hsealed, j, hlong, .inr ⟨_, rfl⟩⟩
  | _ => cases hp

/-- A call that departs from the spec changes no item: only `PutJSON` under a reserved name
changes the store, by writing the repository's block. -/
theorem Departs.after_items (h : st.Departs sealed call reply) :
    (st.after (call, reply)).items = st.items := by
  cases h with
  | putJSONReserved id marshalled r hres =>
    rcases r with _ | ⟨⟩
    · rfl
    · cases marshalled
      · rfl
      · simp [after, put, hres]
  | _ => rfl

end Store

/-- A sequence of calls on the store, each on the store the one before it left; a call that
departs goes to the store its reply says. -/
inductive Store.Run (sealed : Bool) : Store → List (Call × Reply) → Store → Prop
  | nil (st : Store) : Store.Run sealed st [] st
  | serve {st st' st'' : Store} {call : Call} {reply : Reply} {rest : List (Call × Reply)} :
      st.Serves call (st', reply) → Store.Run sealed st' rest st'' →
      Store.Run sealed st ((call, reply) :: rest) st''
  | depart {st st'' : Store} {call : Call} {reply : Reply} {rest : List (Call × Reply)} :
      st.Departs sealed call reply → Store.Run sealed (st.after (call, reply)) rest st'' →
      Store.Run sealed st ((call, reply) :: rest) st''

end KopiaMetadata
