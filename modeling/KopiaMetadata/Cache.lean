import KopiaMetadata.Runtime
import Mathlib.Data.List.AList

/-!
# The storage and the metadata cache

The manager reaches storage only through its `metadataCache`, whose code is not in the source. The
spec gives the storage contract (a flat put, get, list and delete keyed by an opaque string, with
`ErrBlockNotFound` for an absent block, and any other backend error passed on unchanged) and says
that the cache keeps the list of known metadata block IDs so as not to list the storage again.
-/

namespace KopiaMetadata

/-- Modelled from the spec: the storage behind the `metadataCache` and the cache's list of known
block IDs. `failing` gives the backend error that every access to a block currently fails with, if
any; `names` can go stale when another client deletes a block, until `refresh` reloads it. -/
structure Cache where
  blocks : AList (fun _ : String => Bytes)
  failing : String → Option String
  names : List String

namespace Cache

variable (c : Cache)

/-- The backend error for a block, if access to it fails. -/
def fault (blockID : String) : Except GoError Unit :=
  match c.failing blockID with
  | some text => .error (.message text)
  | none => .ok ()

/-- Modelled from the spec: `metadataCache.GetBlock`. -/
def getBlock (blockID : String) : Except GoError Bytes := do
  c.fault blockID
  match c.blocks.lookup blockID with
  | some data => .ok data
  | none => .error .errBlockNotFound

/-- Modelled from the spec: `metadataCache.PutBlock`. -/
def putBlock (blockID : String) (data : Bytes) : Except GoError Cache := do
  c.fault blockID
  .ok { c with
    blocks := c.blocks.insert blockID data
    names := if blockID ∈ c.names then c.names else c.names ++ [blockID] }

/-- The cache with a block deleted. -/
def erase (blockID : String) : Cache :=
  { c with blocks := c.blocks.erase blockID, names := c.names.filter (· != blockID) }

/-- Modelled from the spec: `metadataCache.DeleteBlock`. Deleting an absent block succeeds. -/
def deleteBlock (blockID : String) : Except GoError Cache := do
  c.fault blockID
  .ok (c.erase blockID)

/-- Modelled from the spec: `metadataCache.ListBlocks`, from the cached names. -/
def listBlocks (namePrefix : String) : Except GoError (List String) :=
  .ok (c.names.filter namePrefix.isPrefixOf)

/-- Modelled from the spec: `metadataCache.refresh`. -/
def refresh : Except GoError Cache :=
  .ok { c with names := c.blocks.keys }

/-! ### Spec lemmas -/

variable {c}

theorem getBlock_of_lookup {blockID : String} (hfail : c.failing blockID = none) :
    c.getBlock blockID = match c.blocks.lookup blockID with
      | some data => .ok data
      | none => .error .errBlockNotFound := by
  simp [getBlock, fault, hfail, bind, Except.bind]

/-- A put that returns leaves the block readable, and changes nothing else. -/
theorem putBlock_eq_ok {blockID : String} {data : Bytes} {c' : Cache}
    (hput : c.putBlock blockID data = .ok c') :
    c.failing blockID = none ∧ c' = { c with
      blocks := c.blocks.insert blockID data
      names := if blockID ∈ c.names then c.names else c.names ++ [blockID] } := by
  unfold putBlock fault at hput
  split at hput <;> simp_all [bind, Except.bind]

theorem putBlock_of_not_failing {blockID : String} (hfail : c.failing blockID = none)
    (data : Bytes) : ∃ c', c.putBlock blockID data = .ok c' := by
  simp [putBlock, fault, hfail, bind, Except.bind]

theorem failing_of_getBlock {blockID : String} {data : Bytes}
    (hget : c.getBlock blockID = .ok data) : c.failing blockID = none := by
  unfold getBlock fault at hget
  split at hget <;> simp_all [bind, Except.bind]

theorem deleteBlock_eq_ok {blockID : String} {c' : Cache} (hdel : c.deleteBlock blockID = .ok c') :
    c.failing blockID = none ∧ c' = c.erase blockID := by
  unfold deleteBlock fault at hdel
  split at hdel <;> simp_all [bind, Except.bind]

theorem deleteBlock_of_failing {blockID text : String} (hfail : c.failing blockID = some text) :
    c.deleteBlock blockID = .error (.message text) := by
  simp [deleteBlock, fault, hfail, bind, Except.bind]

theorem deleteBlock_of_not_failing {blockID : String} (hfail : c.failing blockID = none) :
    c.deleteBlock blockID = .ok (c.erase blockID) := by
  simp [deleteBlock, fault, hfail, bind, Except.bind]

/-- Every name starts with the empty prefix. -/
theorem empty_isPrefixOf (s : String) : "".isPrefixOf s = true := by
  have hend : "".endPos.byteIdx = 0 := rfl
  unfold String.isPrefixOf String.substrEq
  rw [String.substrEq.loop]
  simp [hend]

/-- The empty prefix lists every cached name. -/
theorem listBlocks_empty : c.listBlocks "" = .ok c.names := by
  simp [listBlocks, empty_isPrefixOf]

@[simp] theorem erase_failing (blockID : String) : (c.erase blockID).failing = c.failing := rfl

theorem lookup_erase (blockID key : String) :
    (c.erase blockID).blocks.lookup key = if key = blockID then none else c.blocks.lookup key := by
  split
  · subst key
    exact AList.lookup_erase _ _
  · exact AList.lookup_erase_ne ‹_›

/-- Deletes commute, so deleting a list of blocks does not depend on the order. -/
theorem erase_comm (a b : String) : (c.erase a).erase b = (c.erase b).erase a := by
  simp only [erase, AList.erase_erase, List.filter_filter, Bool.and_comm]

instance : RightCommutative Cache.erase := ⟨fun c a b => @erase_comm c a b⟩

theorem lookup_putBlock_ne {blockID key : String} {data : Bytes} {c' : Cache}
    (hput : c.putBlock blockID data = .ok c') (hne : key ≠ blockID) :
    c'.blocks.lookup key = c.blocks.lookup key := by
  obtain ⟨-, rfl⟩ := putBlock_eq_ok hput
  exact AList.lookup_insert_ne hne

theorem getBlock_putBlock_ne {blockID key : String} {data : Bytes} {c' : Cache}
    (hput : c.putBlock blockID data = .ok c') (hne : key ≠ blockID) :
    c'.getBlock key = c.getBlock key := by
  obtain ⟨-, rfl⟩ := putBlock_eq_ok hput
  simp [getBlock, fault, AList.lookup_insert_ne hne]

theorem getBlock_after_putBlock {blockID : String} {data : Bytes} {c' : Cache}
    (hput : c.putBlock blockID data = .ok c') : c'.getBlock blockID = .ok data := by
  obtain ⟨hfail, rfl⟩ := putBlock_eq_ok hput
  simp [getBlock, fault, hfail, bind, Except.bind, AList.lookup_insert]

end Cache

end KopiaMetadata
