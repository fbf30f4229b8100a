import KopiaMetadata.Runtime

/-!
# The cryptographic collaborators

The AEAD the manager seals items with, the random source its nonces come from, and the key manager
its keys are derived from. None of them is in the source. The AEAD is abstract: it carries the two
laws the manager's frame relies on, and one more property of GCM (`Tidy`) is stated apart, as a
hypothesis of the results that need it. What GCM checks before it encrypts or decrypts is kept as
Go's `crypto/cipher` has it: `Seal` and `Open` panic on a nonce of the wrong length, `Seal` panics on
a plaintext longer than `((1<<32)-2)` blocks of 16 bytes, and `Open` refuses a ciphertext longer
than such a plaintext and its tag. Both append their output to a destination slice, so that the
slice arithmetic of `writeEncryptedBlock` and `decryptBlock` is the code's own.
-/

namespace KopiaMetadata

/-- The longest plaintext GCM seals: `((1<<32)-2)` blocks of 16 bytes. -/
def gcmMaxPlaintext : Nat := ((1 <<< 32) - 2) * 16

/-- `errOpen`, the error of GCM's `Open`. -/
def errOpen : GoError := .message "cipher: message authentication failed"

/-- An authenticated cipher: `sealed nonce plaintext ad` is what `Seal` appends (the ciphertext
followed by the tag), and `opened nonce ciphertext ad` what `Open` gives back: the plaintext, or an
authentication error. -/
structure AEAD where
  nonceSize : Nat
  overhead : Nat
  sealed : Bytes → Bytes → Bytes → Bytes
  opened : Bytes → Bytes → Bytes → Except GoError Bytes
  sealed_length : ∀ nonce plaintext ad,
    (sealed nonce plaintext ad).length = plaintext.length + overhead
  opened_sealed : ∀ nonce plaintext ad, nonce.length = nonceSize →
    opened nonce (sealed nonce plaintext ad) ad = .ok plaintext

namespace AEAD

variable (a : AEAD)

/-- `aead.Seal(dst, nonce, plaintext, ad)`: the sealed bytes appended to `dst`. -/
def sealTo (heap : Heap) (dst : Slice) (nonce plaintext ad : Bytes) : Except Panic (Heap × Slice) :=
  if nonce.length = a.nonceSize then
    if plaintext.length ≤ gcmMaxPlaintext then .ok (heap.append dst (a.sealed nonce plaintext ad))
    else .error .messageTooLarge
  else .error .incorrectNonceLength

/-- What GCM's `Open` returns on a nonce of the right length: a ciphertext too long to be a sealed
plaintext is refused before the tag is checked. -/
def openBounded (nonce ciphertext ad : Bytes) : Except GoError Bytes :=
  if ciphertext.length ≤ gcmMaxPlaintext + a.overhead then a.opened nonce ciphertext ad
  else .error errOpen

/-- `aead.Open(dst, nonce, ciphertext, ad)`: the plaintext appended to `dst`. -/
def openTo (heap : Heap) (dst : Slice) (nonce ciphertext ad : Bytes) : GoResult (Heap × Slice) :=
  if nonce.length = a.nonceSize then
    match a.openBounded nonce ciphertext ad with
    | .ok plaintext => .ok (heap.append dst plaintext)
    | .error e => .error (.error e)
  else .error (.panic .incorrectNonceLength)

theorem openTo_of_length {heap : Heap} {dst : Slice} {nonce : Bytes} (ciphertext ad : Bytes)
    (hnonce : nonce.length = a.nonceSize) :
    a.openTo heap dst nonce ciphertext ad
      = (liftError (a.openBounded nonce ciphertext ad)).map (heap.append dst) := by
  simp only [openTo, hnonce, if_true]
  cases a.openBounded nonce ciphertext ad <;> rfl

/-- `Open` gives back what `Seal` sealed, for every plaintext `Seal` takes. -/
theorem openBounded_sealed {nonce plaintext : Bytes} (ad : Bytes)
    (hnonce : nonce.length = a.nonceSize) (hlen : plaintext.length ≤ gcmMaxPlaintext) :
    a.openBounded nonce (a.sealed nonce plaintext ad) ad = .ok plaintext := by
  rw [openBounded, if_pos (by rw [a.sealed_length]; omega), a.opened_sealed _ _ _ hnonce]

/-- A cipher with GCM's sizes, a 12-byte nonce and a 16-byte tag, whose tag is all zeros. It keeps
the two laws and nothing more, which is all the manager assumes, so the model can be run on it. -/
def zeroTag : AEAD where
  nonceSize := 12
  overhead := 16
  sealed _ plaintext _ := plaintext ++ List.replicate 16 0
  opened _ ciphertext _ :=
    if ciphertext.drop (ciphertext.length - 16) = List.replicate 16 0 ∧ 16 ≤ ciphertext.length then
      .ok (ciphertext.take (ciphertext.length - 16))
    else .error errOpen
  sealed_length _ _ _ := by simp
  opened_sealed _ plaintext _ _ := by simp

/-- `Open` accepts a ciphertext only as what `Seal` gives for the plaintext it returns. GCM is such
a cipher: its `Open` checks the tag that its `Seal` computes over the same ciphertext, and decrypts
with the key stream that `Seal` encrypted with. The round trip does not need it; its converse,
that a read accepts nothing but a frame, does. -/
def Tidy : Prop :=
  ∀ nonce ciphertext ad plaintext, nonce.length = a.nonceSize →
    a.opened nonce ciphertext ad = .ok plaintext → a.sealed nonce plaintext ad = ciphertext

/-- Under a tidy cipher, what `Open` accepts is a sealed plaintext that `Seal` takes. -/
theorem Tidy.openBounded {a : AEAD} (htidy : a.Tidy) {nonce ciphertext ad plaintext : Bytes}
    (hnonce : nonce.length = a.nonceSize) (h : a.openBounded nonce ciphertext ad = .ok plaintext) :
    plaintext.length ≤ gcmMaxPlaintext ∧ a.sealed nonce plaintext ad = ciphertext := by
  unfold AEAD.openBounded at h
  split at h
  · have hsealed := htidy _ _ _ _ hnonce h
    have hlen := a.sealed_length nonce plaintext ad
    rw [hsealed] at hlen
    exact ⟨by omega, hsealed⟩
  · cases h

theorem zeroTag_tidy : zeroTag.Tidy := by
  intro nonce ciphertext ad plaintext _ h
  simp only [zeroTag] at h ⊢
  split at h
  · rename_i htag
    cases h
    rw [← htag.1, List.take_append_drop]
  · cases h

end AEAD

/-- `io.ReadFull(rand.Reader, buf)` for a buffer of `n` bytes: exactly `n` bytes, or the reader's
error (`ReadFull` returns no error only when it filled the buffer). -/
def RandomReader := (n : Nat) → Except GoError {b : Bytes // b.length = n}

/-- `io.ReadFull(rand.Reader, buf)`: fills `buf` in place. -/
def readFull (rnd : RandomReader) (heap : Heap) (buf : Slice) : Except GoError Heap :=
  (rnd buf.len).map fun b => heap.write buf b.1

/-- A random reader that draws `nonce` when asked for as many bytes, and fails otherwise. -/
def RandomReader.drawing (nonce : Bytes) : RandomReader := fun n =>
  if h : nonce.length = n then .ok ⟨nonce, h⟩ else .error (.message "unexpected EOF")

/-- The part of `auth.KeyManager` the manager uses: a key of the given length for a purpose. -/
structure KeyManager where
  deriveKey : Bytes → Nat → Bytes

/-- `aes.NewCipher` and `cipher.NewGCM`, each of which can fail. -/
structure CipherSuite (Block : Type) where
  newCipher : Bytes → Except GoError Block
  newGCM : Block → Except GoError AEAD

end KopiaMetadata
