import KopiaMetadata.Crypto
import KopiaMetadata.Cache

/-!
# The metadata manager

`metadata_manager.go`, function by function, except for the goroutines of `MultiGet` and
`RemoveMany`, which are transition systems of their own (`MultiGet`, `RemoveMany`). The cache is the
manager's mutable state and is passed in and out; a nonce is whatever the random reader gives.
-/

namespace KopiaMetadata

/-- `parallelFetches`. -/
def parallelFetches : Nat := 5

/-- `SupportedEncryptionAlgorithms`. -/
def supportedEncryptionAlgorithms : List String := ["AES256_GCM", "NONE"]

/-- `DefaultEncryptionAlgorithm`. -/
def defaultEncryptionAlgorithm : String := "AES256_GCM"

/-- `purposeAESKey`. -/
def purposeAESKey : Bytes := "AES".toUTF8.toList

/-- `purposeAuthData`. -/
def purposeAuthData : Bytes := "CHECKSUM".toUTF8.toList

/-- `Format`: the format of metadata items, stored in plain text. -/
structure Format where
  version : String
  encryptionAlgorithm : String

/-- `Manager`, without its `storage` and `cache` fields: the cache is the state the methods below
take and return, and `storage` is used only to build it. -/
structure Manager where
  format : Format
  aead : Option AEAD
  authData : Bytes

/-- `isReservedName`. -/
def isReservedName (itemID : String) : Bool :=
  match itemID with
  | "format" | "repo" => true
  | _ => false

/-- `checkReservedName`. -/
def checkReservedName (itemID : String) : Except GoError Unit :=
  if isReservedName itemID then .error (.message ("invalid metadata item name: '" ++ itemID ++ "'"))
  else .ok ()

theorem isReservedName_iff (itemID : String) :
    isReservedName itemID = true ↔ itemID = "format" ∨ itemID = "repo" := by
  unfold isReservedName
  split <;> simp_all

theorem checkReservedName_of_reserved {itemID : String} (h : isReservedName itemID = true) :
    checkReservedName itemID
      = .error (.message ("invalid metadata item name: '" ++ itemID ++ "'")) := by
  simp [checkReservedName, h]

theorem checkReservedName_of_not_reserved {itemID : String} (h : isReservedName itemID = false) :
    checkReservedName itemID = .ok () := by
  simp [checkReservedName, h]

/-- `initCrypto`: no cipher for `NONE`, AES-256-GCM keyed by the key manager for `AES256_GCM`. -/
def initCrypto {Block : Type} (suite : CipherSuite Block) (f : Format) (km : KeyManager) :
    Except GoError (Option AEAD × Bytes) :=
  match f.encryptionAlgorithm with
  | "NONE" => .ok (none, [])
  | "AES256_GCM" =>
    let aesKey := km.deriveKey purposeAESKey 32
    let authData := km.deriveKey purposeAuthData 32
    match suite.newCipher aesKey with
    | .error err => .error (.message ("cannot create cipher: " ++ err.text))
    | .ok blk =>
      match suite.newGCM blk with
      | .error err => .error (.message ("cannot create cipher: " ++ err.text))
      | .ok aead => .ok (some aead, authData)
  | algorithm => .error (.message ("unknown encryption algorithm: '" ++ algorithm ++ "'"))

theorem initCrypto_of_unsupported {Block : Type} (suite : CipherSuite Block) {f : Format}
    (km : KeyManager) (h : f.encryptionAlgorithm ∉ supportedEncryptionAlgorithms) :
    initCrypto suite f km
      = .error (.message ("unknown encryption algorithm: '" ++ f.encryptionAlgorithm ++ "'")) := by
  have hnone : f.encryptionAlgorithm ≠ "NONE" := fun h' =>
    h (by simp [h', supportedEncryptionAlgorithms])
  have haes : f.encryptionAlgorithm ≠ "AES256_GCM" := fun h' =>
    h (by simp [h', supportedEncryptionAlgorithms])
  unfold initCrypto
  split
  · contradiction
  · contradiction
  · rfl

/-- `NewManager`, from the point where the cache exists. -/
def newManager {Block : Type} (suite : CipherSuite Block) (f : Format) (km : KeyManager) :
    Except GoError Manager :=
  match initCrypto suite f km with
  | .error err => .error (.message ("unable to initialize crypto: " ++ err.text))
  | .ok (aead, authData) => .ok ⟨f, aead, authData⟩

namespace Manager

variable (mm : Manager)

/-- Lines 80-92 of `writeEncryptedBlock`: the stored frame of an encrypted item, built in one
`cipherText` array through the `nonce` slice and the `Seal` destination. -/
def sealFrame (aead : AEAD) (authData content : Bytes) (rnd : RandomReader) : GoResult Bytes := do
  let nonceLength := aead.nonceSize
  let noncePlusContentLength := nonceLength + content.length
  let (heap, cipherText) := Heap.make [] (noncePlusContentLength + aead.overhead)
  let nonce ← liftPanic (cipherText.sub 0 nonceLength)
  let heap ← liftError (readFull rnd heap nonce)
  let dst ← liftPanic (cipherText.sub nonceLength nonceLength)
  let (heap, b) ← liftPanic (aead.sealTo heap dst (heap.read nonce) content authData)
  let frame ← liftPanic (nonce.sub 0 (nonceLength + b.len))
  pure (heap.read frame)

/-- `writeEncryptedBlock`. -/
def writeEncryptedBlock (c : Cache) (itemID : String) (content : Bytes) (rnd : RandomReader) :
    GoResult Cache := do
  let content ← (match mm.aead with
    | some aead => sealFrame aead mm.authData content rnd
    | none => pure content)
  liftError (c.putBlock itemID content)

/-- `decryptBlock`. The blob as `GetBlock` returns it is a fresh array of its own length. -/
def decryptBlock (content : Bytes) : GoResult Bytes :=
  match mm.aead with
  | some aead => do
    let (heap, content) := Heap.alloc [] content
    let nonce ← liftPanic (content.sub 0 aead.nonceSize)
    let payload ← liftPanic (content.sub aead.nonceSize content.len)
    let dst ← liftPanic (payload.sub 0 0)
    let (heap, plaintext) ← aead.openTo heap dst (heap.read nonce) (heap.read payload) mm.authData
    pure (heap.read plaintext)
  | none => pure content

/-- `readEncryptedBlock`. -/
def readEncryptedBlock (c : Cache) (itemID : String) : GoResult Bytes :=
  match c.getBlock itemID with
  | .error err =>
    if err = .errBlockNotFound then .error (.error .errNotFound)
    else .error (.error (.message ("unexpected error reading " ++ itemID ++ ": " ++ err.text)))
  | .ok content => mm.decryptBlock content

/-- `Put`. -/
def put (c : Cache) (itemID : String) (content : Bytes) (rnd : RandomReader) : GoResult Cache := do
  liftError (checkReservedName itemID)
  mm.writeEncryptedBlock c itemID content rnd

/-- `GetMetadata`. -/
def getMetadata (c : Cache) (itemID : String) : GoResult Bytes := do
  liftError (checkReservedName itemID)
  mm.readEncryptedBlock c itemID

/-- `GetJSON`, with `json.Unmarshal` into the caller's value as `unmarshal`. -/
def getJSON {α : Type} (c : Cache) (itemID : String) (unmarshal : Bytes → Except GoError α) :
    GoResult α := do
  let j ← mm.readEncryptedBlock c itemID
  liftError (unmarshal j)

/-- `PutJSON`, with `json.Marshal` as `marshal`. -/
def putJSON {α : Type} (c : Cache) (id : String) (marshal : α → Except GoError Bytes) (content : α)
    (rnd : RandomReader) : GoResult Cache := do
  let j ← liftError (marshal content)
  mm.writeEncryptedBlock c id j rnd

/-- `List`. -/
def list (c : Cache) (namePrefix : String) : Except GoError (List String) :=
  c.listBlocks namePrefix

/-- `Remove`. -/
def remove (c : Cache) (itemID : String) : Except GoError Cache := do
  checkReservedName itemID
  c.deleteBlock itemID

/-- `RefreshCache`. -/
def refreshCache (c : Cache) : Except GoError Cache :=
  c.refresh

/-! ### Spec lemmas -/

variable {mm}

/-- The blobs `writeEncryptedBlock` can store for `content`: the content itself without a cipher,
and with one, for a content GCM seals, a nonce of the cipher's size followed by the sealed
content. -/
def Frames (content blob : Bytes) : Prop :=
  match mm.aead with
  | none => blob = content
  | some aead => content.length ≤ gcmMaxPlaintext ∧ ∃ nonce : Bytes,
      nonce.length = aead.nonceSize ∧ blob = nonce ++ aead.sealed nonce content mm.authData

/-- **The stored frame.** Whatever slices it goes through, `writeEncryptedBlock` stores the nonce
it drew followed by the sealed content, and panics in `Seal` on a content GCM does not seal. -/
theorem sealFrame_eq (aead : AEAD) (authData content : Bytes) (rnd : RandomReader) :
    sealFrame aead authData content rnd
      = (liftError (rnd aead.nonceSize)).bind fun nonce =>
          if content.length ≤ gcmMaxPlaintext then
            .ok (nonce.1 ++ aead.sealed nonce.1 content authData)
          else .error (.panic .messageTooLarge) := by
  have hN : aead.nonceSize ≤ aead.nonceSize + content.length + aead.overhead := by omega
  cases hr : rnd aead.nonceSize with
  | error e => simp [sealFrame, Heap.make, Slice.sub, hN, readFull, hr, bind, Except.bind,
      Except.map, liftError, liftPanic, Except.mapError]
  | ok nonce =>
    obtain ⟨nonce, hnonceLen⟩ := nonce
    have hlen := aead.sealed_length nonce content authData
    have hroom : (aead.sealed nonce content authData).length
        ≤ aead.nonceSize + content.length + aead.overhead - aead.nonceSize := by omega
    have hend : aead.nonceSize + (aead.sealed nonce content authData).length
        ≤ aead.nonceSize + content.length + aead.overhead := by omega
    by_cases hmax : content.length ≤ gcmMaxPlaintext
    · simp [sealFrame, Heap.make, Slice.sub, hN, readFull, hr, bind, Except.bind, Except.map,
        AEAD.sealTo, Heap.append, hroom, hend, Heap.write, Heap.read, splice, hnonceLen, hmax,
        liftError, liftPanic, Except.mapError, List.take_append_eq_append_take]
      rw [List.take_of_length_le (by omega)]
      rfl
    · simp [sealFrame, Heap.make, Slice.sub, hN, readFull, hr, bind, Except.bind, Except.map,
        AEAD.sealTo, Heap.write, Heap.read, splice, hnonceLen, hmax, liftError, liftPanic,
        Except.mapError]

/-- **Decryption.** With a cipher, `decryptBlock` panics on a blob shorter than a nonce, and
otherwise opens what follows the first `NonceSize` bytes under those bytes. -/
theorem decryptBlock_of_aead {aead : AEAD} (haead : mm.aead = some aead) (content : Bytes) :
    mm.decryptBlock content
      = if content.length < aead.nonceSize then
          .error (.panic (.sliceBoundsOutOfRange 0 aead.nonceSize content.length))
        else liftError (aead.openBounded (content.take aead.nonceSize)
          (content.drop aead.nonceSize) mm.authData) := by
  split
  · rename_i hshort
    have hlt : ¬ aead.nonceSize ≤ content.length := by omega
    simp [decryptBlock, haead, Heap.alloc, Slice.sub, hlt, bind, Except.bind, liftPanic,
      Except.mapError]
  · rename_i hlong
    have hle : aead.nonceSize ≤ content.length := by omega
    have hnonce : Heap.read [content] ⟨0, 0, aead.nonceSize, content.length, hle⟩
        = content.take aead.nonceSize := by simp [Heap.read]
    have hpayload : Heap.read [content] ⟨0, aead.nonceSize, content.length - aead.nonceSize,
        content.length - aead.nonceSize, le_rfl⟩ = content.drop aead.nonceSize := by
      simp [Heap.read]
    have hfit : Heap.Fits [content] ⟨0, aead.nonceSize, 0, content.length - aead.nonceSize,
        Nat.zero_le _⟩ := by simp [Heap.Fits]; omega
    simp [decryptBlock, haead, Heap.alloc, Slice.sub, hle, bind, Except.bind, liftPanic,
      Except.mapError, hnonce, hpayload,
      AEAD.openTo_of_length _ _ _ (show (content.take aead.nonceSize).length = aead.nonceSize by
        simp [hle])]
    cases aead.openBounded (content.take aead.nonceSize) (content.drop aead.nonceSize)
        mm.authData with
    | error e => rfl
    | ok plaintext =>
      simp only [liftError_ok, Except.map, Heap.read_append hfit]
      simp [Heap.read]
      rfl

theorem decryptBlock_of_none (haead : mm.aead = none) (content : Bytes) :
    mm.decryptBlock content = .ok content := by
  simp [decryptBlock, haead]
  rfl

theorem remove_of_reserved {c : Cache} {itemID : String} (h : isReservedName itemID = true) :
    remove c itemID = .error (.message ("invalid metadata item name: '" ++ itemID ++ "'")) := by
  simp [remove, checkReservedName_of_reserved h, bind, Except.bind]

theorem remove_of_not_reserved {c : Cache} {itemID : String} (h : isReservedName itemID = false) :
    remove c itemID = c.deleteBlock itemID := by
  simp [remove, checkReservedName_of_not_reserved h, bind, Except.bind]

/-- What `sealFrame` returns: the nonce it drew followed by the sealed content, for a content GCM
seals. -/
theorem sealFrame_eq_ok {aead : AEAD} {authData content blob : Bytes} {rnd : RandomReader}
    (h : sealFrame aead authData content rnd = .ok blob) :
    content.length ≤ gcmMaxPlaintext ∧ ∃ nonce : Bytes, nonce.length = aead.nonceSize ∧
      blob = nonce ++ aead.sealed nonce content authData := by
  rw [sealFrame_eq] at h
  obtain ⟨nonce, hr, hblob⟩ := bind_eq_ok.mp h
  split at hblob
  · exact ⟨‹_›, nonce.1, nonce.2, (Except.ok.inj hblob).symm⟩
  · cases hblob

/-- A write that returns stored a frame of the content. -/
theorem writeEncryptedBlock_eq_ok {c c' : Cache} {itemID : String} {content : Bytes}
    {rnd : RandomReader} (h : mm.writeEncryptedBlock c itemID content rnd = .ok c') :
    ∃ blob, mm.Frames content blob ∧ c.putBlock itemID blob = .ok c' := by
  unfold writeEncryptedBlock at h
  obtain ⟨blob, hblob, hput⟩ := bind_eq_ok.mp h
  refine ⟨blob, ?_, liftError_eq_ok.mp hput⟩
  unfold Frames
  cases haead : mm.aead with
  | none => simpa [haead, pure, Except.pure] using hblob.symm
  | some aead =>
    simp only [haead] at hblob
    exact sealFrame_eq_ok hblob

/-- **A write panics only in `Seal`**: under a cipher, on a content longer than GCM seals.
Otherwise it fails with the random reader's error or the cache's. -/
theorem writeEncryptedBlock_eq_panic {c : Cache} {itemID : String} {content : Bytes}
    {rnd : RandomReader} {p : Panic}
    (h : mm.writeEncryptedBlock c itemID content rnd = .error (.panic p)) :
    mm.aead.isSome ∧ gcmMaxPlaintext < content.length ∧ p = .messageTooLarge := by
  have hput : ∀ blob, liftError (c.putBlock itemID blob) ≠ .error (.panic p) := fun blob => by
    cases c.putBlock itemID blob <;> simp
  unfold writeEncryptedBlock at h
  cases haead : mm.aead with
  | none => simp only [haead] at h; exact absurd h (hput content)
  | some aead =>
    simp only [haead, sealFrame_eq] at h
    cases hr : rnd aead.nonceSize with
    | error e => simp [hr, bind, Except.bind] at h
    | ok nonce =>
      simp only [hr, liftError_ok] at h
      by_cases hmax : content.length ≤ gcmMaxPlaintext
      · simp only [hmax, if_true, bind, Except.bind] at h
        exact absurd h (hput _)
      · simp only [hmax, if_false, bind, Except.bind, Except.error.injEq, Fault.panic.injEq] at h
        exact ⟨rfl, by omega, h.symm⟩

/-- **Decryption inverts the frame.** -/
theorem decryptBlock_of_frames {content blob : Bytes} (h : mm.Frames content blob) :
    mm.decryptBlock blob = .ok content := by
  unfold Frames at h
  cases haead : mm.aead with
  | none =>
    rw [haead] at h
    subst h
    exact decryptBlock_of_none haead _
  | some aead =>
    rw [haead] at h
    obtain ⟨hmax, nonce, hlen, rfl⟩ := h
    have hlong : ¬ (nonce ++ aead.sealed nonce content mm.authData).length < aead.nonceSize := by
      simp only [List.length_append, hlen]
      omega
    rw [decryptBlock_of_aead haead, if_neg hlong, List.take_left' hlen, List.drop_left' hlen,
      aead.openBounded_sealed _ hlen hmax, liftError_ok]

/-- **Decryption accepts only frames.** With no cipher, or with a tidy one, `decryptBlock` returns
`content` exactly on the frames of `content`. -/
theorem decryptBlock_eq_ok_iff (htidy : ∀ aead, mm.aead = some aead → aead.Tidy)
    {content blob : Bytes} : mm.decryptBlock blob = .ok content ↔ mm.Frames content blob := by
  refine ⟨fun h => ?_, decryptBlock_of_frames⟩
  unfold Frames
  cases haead : mm.aead with
  | none => exact Except.ok.inj ((decryptBlock_of_none haead blob).symm.trans h)
  | some aead =>
    rw [decryptBlock_of_aead haead] at h
    split at h
    · cases h
    · have hlen : (blob.take aead.nonceSize).length = aead.nonceSize := by
        simp only [List.length_take]
        omega
      obtain ⟨hmax, hsealed⟩ := (htidy aead haead).openBounded hlen (liftError_eq_ok.mp h)
      refine ⟨hmax, blob.take aead.nonceSize, hlen, ?_⟩
      rw [hsealed, List.take_append_drop]

/-- The frames of `content` are the blobs `writeEncryptedBlock` stores for it, one for each nonce
the random reader can draw. -/
theorem frames_iff_written {c : Cache} {itemID : String} (hfail : c.failing itemID = none)
    {content blob : Bytes} :
    mm.Frames content blob ↔
      ∃ rnd, mm.writeEncryptedBlock c itemID content rnd = liftError (c.putBlock itemID blob) := by
  constructor
  · unfold Frames writeEncryptedBlock
    cases mm.aead with
    | none =>
      rintro rfl
      exact ⟨.drawing [], rfl⟩
    | some aead =>
      rintro ⟨hmax, nonce, hlen, rfl⟩
      refine ⟨.drawing nonce, ?_⟩
      simp only [sealFrame_eq, RandomReader.drawing, hlen, hmax, dite_true, if_true]
      rfl
  · rintro ⟨rnd, hwrite⟩
    obtain ⟨c', hput⟩ := Cache.putBlock_of_not_failing hfail blob
    rw [hput, liftError_ok] at hwrite
    obtain ⟨blob', hframe, hput'⟩ := writeEncryptedBlock_eq_ok hwrite
    have hsame :=
      (Cache.getBlock_after_putBlock hput').symm.trans (Cache.getBlock_after_putBlock hput)
    exact Except.ok.inj hsame ▸ hframe

theorem readEncryptedBlock_of_getBlock {c : Cache} {itemID : String} {blob : Bytes}
    (h : c.getBlock itemID = .ok blob) : mm.readEncryptedBlock c itemID = mm.decryptBlock blob := by
  simp [readEncryptedBlock, h]

theorem put_eq_ok {c c' : Cache} {itemID : String} {content : Bytes} {rnd : RandomReader}
    (h : mm.put c itemID content rnd = .ok c') :
    isReservedName itemID = false ∧ mm.writeEncryptedBlock c itemID content rnd = .ok c' := by
  unfold put at h
  obtain ⟨u, hcheck, hwrite⟩ := bind_eq_ok.mp h
  refine ⟨?_, hwrite⟩
  cases hres : isReservedName itemID
  · rfl
  · simp [checkReservedName_of_reserved hres] at hcheck

theorem put_of_reserved {c : Cache} {itemID : String} {content : Bytes} {rnd : RandomReader}
    (h : isReservedName itemID = true) :
    mm.put c itemID content rnd
      = .error (.error (.message ("invalid metadata item name: '" ++ itemID ++ "'"))) := by
  simp [put, checkReservedName_of_reserved h, bind, Except.bind]

theorem put_of_not_reserved {c : Cache} {itemID : String} {content : Bytes} {rnd : RandomReader}
    (h : isReservedName itemID = false) :
    mm.put c itemID content rnd = mm.writeEncryptedBlock c itemID content rnd := by
  simp [put, checkReservedName_of_not_reserved h, bind, Except.bind]

theorem getMetadata_of_reserved {c : Cache} {itemID : String} (h : isReservedName itemID = true) :
    mm.getMetadata c itemID
      = .error (.error (.message ("invalid metadata item name: '" ++ itemID ++ "'"))) := by
  simp [getMetadata, checkReservedName_of_reserved h, bind, Except.bind]

/-- A write touches no other block. -/
theorem lookup_writeEncryptedBlock_ne {c c' : Cache} {itemID key : String} {content : Bytes}
    {rnd : RandomReader} (h : mm.writeEncryptedBlock c itemID content rnd = .ok c')
    (hne : key ≠ itemID) : c'.blocks.lookup key = c.blocks.lookup key := by
  obtain ⟨blob, -, hput⟩ := writeEncryptedBlock_eq_ok h
  exact Cache.lookup_putBlock_ne hput hne

theorem getMetadata_of_not_reserved {c : Cache} {itemID : String}
    (h : isReservedName itemID = false) :
    mm.getMetadata c itemID = mm.readEncryptedBlock c itemID := by
  simp [getMetadata, checkReservedName_of_not_reserved h, bind, Except.bind]

/-- What `GetMetadata` returns: the decryption of the stored blob, under a name that is not
reserved. -/
theorem getMetadata_eq_ok_iff {c : Cache} {itemID : String} {content : Bytes} :
    mm.getMetadata c itemID = .ok content ↔ isReservedName itemID = false ∧
      ∃ blob, c.getBlock itemID = .ok blob ∧ mm.decryptBlock blob = .ok content := by
  cases hres : isReservedName itemID
  · rw [getMetadata_of_not_reserved hres]
    cases hget : c.getBlock itemID with
    | error e =>
      simp only [readEncryptedBlock, hget]
      split <;> simp
    | ok blob => simp [readEncryptedBlock_of_getBlock hget]
  · simp [getMetadata_of_reserved hres]

theorem list_eq (c : Cache) (namePrefix : String) :
    list c namePrefix = .ok (c.names.filter namePrefix.isPrefixOf) := rfl

theorem getJSON_of_getBlock {α : Type} {c : Cache} {itemID : String} {blob : Bytes}
    (h : c.getBlock itemID = .ok blob) (unmarshal : Bytes → Except GoError α) :
    mm.getJSON c itemID unmarshal = (mm.decryptBlock blob).bind (liftError ∘ unmarshal) := by
  simp only [getJSON, readEncryptedBlock_of_getBlock h]
  rfl

theorem putJSON_eq_ok {α : Type} {c c' : Cache} {id : String} {marshal : α → Except GoError Bytes}
    {content : α} {rnd : RandomReader} {j : Bytes} (hj : marshal content = .ok j)
    (h : mm.putJSON c id marshal content rnd = .ok c') :
    mm.writeEncryptedBlock c id j rnd = .ok c' := by
  simpa [putJSON, hj, bind, Except.bind] using h

end Manager

end KopiaMetadata
