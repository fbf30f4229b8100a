import Mathlib.Data.List.Basic

/-!
# The Go runtime under the metadata manager

Errors, panics, and byte slices. `writeEncryptedBlock` builds the stored frame through two slices
of one backing array (the nonce, and the destination `Seal` appends into), and `decryptBlock` cuts a
blob by reslicing it. So a slice here is what Go makes it: a window onto a backing array, with a
length and a capacity, and a slice expression outside the capacity is a panic, not an error.
-/

namespace KopiaMetadata

/-- The contents of a `[]byte`. -/
abbrev Bytes := List UInt8

/-- A Go `error`. Sentinel errors are compared by identity, so each is a constructor of its own;
any other error is known by its text. -/
inductive GoError where
  /-- `storage.ErrBlockNotFound`. -/
  | errBlockNotFound
  /-- `metadata.ErrNotFound`. -/
  | errNotFound
  | message (text : String)
  deriving DecidableEq, Repr

/-- What `%v` prints for an error. The storage package is not in the source: the text given to
`ErrBlockNotFound` is never printed by the manager, which maps that error to `ErrNotFound`. -/
def GoError.text : GoError → String
  | .errBlockNotFound => "block not found"
  | .errNotFound => "metadata not found"
  | .message text => text

/-- A run-time panic. An unrecovered panic in any goroutine ends the whole program. -/
inductive Panic where
  /-- `s[low:high]` without `low ≤ high ≤ cap(s)`. -/
  | sliceBoundsOutOfRange (low high cap : Nat)
  /-- The GCM `Seal` or `Open` given a nonce that is not `NonceSize()` bytes long. -/
  | incorrectNonceLength
  /-- The GCM `Seal` given a plaintext longer than `gcmMaxPlaintext`. -/
  | messageTooLarge
  /-- A send on a closed channel. -/
  | sendOnClosedChannel
  /-- `wg.Done()` on a wait group whose counter is zero. -/
  | negativeWaitGroupCounter
  deriving DecidableEq, Repr

/-- How a call ends when it does not return normally. -/
inductive Fault where
  | error (e : GoError)
  | panic (p : Panic)
  deriving DecidableEq, Repr

/-- A Go function returning `(T, error)`, which may also panic. -/
abbrev GoResult (α : Type) := Except Fault α

def liftError {α : Type} : Except GoError α → GoResult α := Except.mapError .error

def liftPanic {α : Type} : Except Panic α → GoResult α := Except.mapError .panic

@[simp] theorem liftError_ok {α : Type} (a : α) : liftError (.ok a) = .ok a := rfl
@[simp] theorem liftError_error {α : Type} (e : GoError) :
    liftError (.error e : Except GoError α) = .error (.error e) := rfl
@[simp] theorem liftPanic_ok {α : Type} (a : α) : liftPanic (.ok a) = .ok a := rfl
@[simp] theorem liftPanic_error {α : Type} (p : Panic) :
    liftPanic (.error p : Except Panic α) = .error (.panic p) := rfl

@[simp] theorem liftError_eq_ok {α : Type} {x : Except GoError α} {a : α} :
    liftError x = .ok a ↔ x = .ok a := by
  cases x <;> simp

/-- A chain of calls that returns had each call return. -/
theorem bind_eq_ok {ε α γ : Type} {x : Except ε α} {f : α → Except ε γ} {b : γ} :
    x >>= f = .ok b ↔ ∃ a, x = .ok a ∧ f a = .ok b := by
  cases x <;> simp [bind, Except.bind]

/-! ### Slices -/

/-- A slice header: `len` elements starting at `offset` of backing array `array`, with room for
`cap`. -/
structure Slice where
  array : Nat
  offset : Nat
  len : Nat
  cap : Nat
  len_le_cap : len ≤ cap

/-- The backing arrays a computation has allocated, in allocation order. -/
abbrev Heap := List Bytes

/-- `data` written over `a` from `offset` on. -/
def splice (a : Bytes) (offset : Nat) (data : Bytes) : Bytes :=
  a.take offset ++ data ++ a.drop (offset + data.length)

/-- Reading across the end of an untouched prefix and into a spliced-in piece. -/
theorem splice_window (a data : Bytes) (offset len : Nat)
    (hroom : offset + len + data.length ≤ a.length) :
    ((splice a (offset + len) data).drop offset).take (len + data.length)
      = (a.drop offset).take len ++ data := by
  rw [splice, List.append_assoc,
    List.drop_append_of_le_length (by simp only [List.length_take]; omega), List.drop_take,
    List.take_append_eq_append_take]
  simp only [List.length_take, List.length_drop]
  rw [List.take_of_length_le (by simp only [List.length_drop, List.length_take]; omega),
    show len + data.length - min (offset + len - offset) (a.length - offset) = data.length by omega,
    List.take_append_of_le_length le_rfl, List.take_length, Nat.add_sub_cancel_left]

namespace Heap

/-- A new backing array holding `data`, and the slice over all of it. -/
def alloc (h : Heap) (data : Bytes) : Heap × Slice :=
  (h ++ [data], ⟨h.length, 0, data.length, data.length, le_rfl⟩)

/-- `make([]byte, n)`. -/
def make (h : Heap) (n : Nat) : Heap × Slice :=
  (h ++ [List.replicate n 0], ⟨h.length, 0, n, n, le_rfl⟩)

/-- The elements a slice shows. -/
def read (h : Heap) (s : Slice) : Bytes := ((h.getD s.array []).drop s.offset).take s.len

/-- `copy(s, data)` for `data` as long as `s`. -/
def write (h : Heap) (s : Slice) (data : Bytes) : Heap :=
  h.set s.array (splice (h.getD s.array []) s.offset data)

/-- `append(s, data...)` the way `crypto/cipher` grows a destination (`sliceForAppend`): in place
when `cap(s)` has room, otherwise into a new array of exactly the needed length. -/
def append (h : Heap) (s : Slice) (data : Bytes) : Heap × Slice :=
  if hroom : s.len + data.length ≤ s.cap then
    (h.write ⟨s.array, s.offset + s.len, data.length, data.length, le_rfl⟩ data,
      ⟨s.array, s.offset, s.len + data.length, s.cap, hroom⟩)
  else h.alloc (h.read s ++ data)

/-- The backing array of `s` exists and has room for all of `s`'s capacity. -/
def Fits (h : Heap) (s : Slice) : Prop :=
  s.array < h.length ∧ s.offset + s.cap ≤ (h.getD s.array []).length

end Heap

/-- `s[low:high]`. -/
def Slice.sub (s : Slice) (low high : Nat) : Except Panic Slice :=
  if h : low ≤ high ∧ high ≤ s.cap then
    .ok ⟨s.array, s.offset + low, high - low, s.cap - low, by omega⟩
  else .error (.sliceBoundsOutOfRange low high s.cap)

namespace Heap

variable {h : Heap} {s : Slice}

theorem getD_set_self {i : Nat} (hi : i < h.length) (a : Bytes) :
    (h.set i a).getD i [] = a := by
  simp [List.getD_eq_getElem?_getD, hi]

theorem getD_alloc_self (data : Bytes) : (h.alloc data).1.getD h.length [] = data := by
  simp [alloc, List.getD_eq_getElem?_getD]

@[simp] theorem read_alloc (data : Bytes) : (h.alloc data).1.read (h.alloc data).2 = data := by
  show ((h.alloc data).1.getD h.length [] |>.drop 0).take data.length = data
  rw [getD_alloc_self, List.drop_zero, List.take_length]

/-- Writing right after a window and reading the window grown over what was written. -/
theorem read_write_after (hfit : h.Fits s) {data : Bytes} (hroom : s.len + data.length ≤ s.cap) :
    (h.write ⟨s.array, s.offset + s.len, data.length, data.length, le_rfl⟩ data).read
      ⟨s.array, s.offset, s.len + data.length, s.cap, hroom⟩ = h.read s ++ data := by
  simp only [read, write, getD_set_self hfit.1]
  exact splice_window _ _ _ _ (by have := hfit.2; omega)

/-- **Append.** Whichever way `append` goes, the result shows the old window followed by `data`. -/
theorem read_append (hfit : h.Fits s) (data : Bytes) :
    (h.append s data).1.read (h.append s data).2 = h.read s ++ data := by
  unfold append
  split
  · exact read_write_after hfit ‹_›
  · simp

end Heap

end KopiaMetadata
