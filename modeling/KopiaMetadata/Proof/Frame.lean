import KopiaMetadata.Manager

/-!
# The stored frame of a metadata item

`writeEncryptedBlock` builds the frame through slice aliasing: the nonce is read into the first
`NonceSize` bytes of one array, `Seal` appends right after it into the same array, and the frame is
recovered as a reslice of the nonce. `decryptBlock` splits the stored blob again at `NonceSize`.
`sealFrame_eq` and `decryptBlock_of_frames` say what each side computes; here they are joined
through the cache into the round trip, for both algorithms and for the JSON entry points.

`decryptBlock` checks no length before it slices, so a stored blob shorter than a nonce makes every
read of its item panic, where a blob of any other length gives the plaintext or `Open`'s error.
-/

namespace KopiaMetadata

namespace Manager

variable {mm : Manager}

/-- A frame under a cipher is as long as the nonce, the content and the tag, and splits at
`NonceSize` into the nonce and the sealed content. -/
theorem frames_of_aead {aead : AEAD} (haead : mm.aead = some aead) {content blob : Bytes}
    (h : mm.Frames content blob) :
    ∃ nonce : Bytes, nonce.length = aead.nonceSize ∧
      blob = nonce ++ aead.sealed nonce content mm.authData ∧
      blob.length = aead.nonceSize + content.length + aead.overhead ∧
      blob.take aead.nonceSize = nonce ∧
      blob.drop aead.nonceSize = aead.sealed nonce content mm.authData := by
  obtain ⟨-, nonce, hlen, rfl⟩ : content.length ≤ gcmMaxPlaintext ∧ ∃ nonce : Bytes,
      nonce.length = aead.nonceSize ∧ blob = nonce ++ aead.sealed nonce content mm.authData := by
    simpa [Frames, haead] using h
  refine ⟨nonce, hlen, rfl, ?_, List.take_left' hlen, List.drop_left' hlen⟩
  rw [List.length_append, hlen, aead.sealed_length, Nat.add_assoc]

/-- **Round trip.** A `Put` that returns stored a frame of the content: the content itself for
`NONE`, and for `AES256_GCM` the nonce it drew followed by the sealed content, `NonceSize +
len(content) + Overhead` bytes that `decryptBlock` splits at `NonceSize`. Every later read that sees
that blob gives the content back; and `GetJSON` unmarshals exactly what `PutJSON` marshalled. -/
theorem put_then_getMetadata (mm : Manager) (rnd : RandomReader) :
    (∀ (c c' : Cache) (itemID : String) (content : Bytes), mm.put c itemID content rnd = .ok c' →
      ∃ blob, c'.getBlock itemID = .ok blob ∧
        (mm.aead = none → blob = content) ∧
        (∀ aead, mm.aead = some aead → ∃ nonce : Bytes, nonce.length = aead.nonceSize ∧
          blob = nonce ++ aead.sealed nonce content mm.authData ∧
          blob.length = aead.nonceSize + content.length + aead.overhead ∧
          blob.take aead.nonceSize = nonce ∧
          blob.drop aead.nonceSize = aead.sealed nonce content mm.authData) ∧
        ∀ c'' : Cache, c''.getBlock itemID = .ok blob → mm.getMetadata c'' itemID = .ok content) ∧
    (∀ {α : Type} (marshal : α → Except GoError Bytes) (unmarshal : Bytes → Except GoError α)
      (c c' c'' : Cache) (id : String) (v : α) (j : Bytes), marshal v = .ok j →
      mm.putJSON c id marshal v rnd = .ok c' → c''.getBlock id = c'.getBlock id →
      mm.getJSON c'' id unmarshal = liftError (unmarshal j)) := by
  refine ⟨fun c c' itemID content hput => ?_,
    fun marshal unmarshal c c' c'' id v j hj hput hget => ?_⟩
  · obtain ⟨hname, hwrite⟩ := put_eq_ok hput
    obtain ⟨blob, hframe, hblock⟩ := writeEncryptedBlock_eq_ok hwrite
    refine ⟨blob, Cache.getBlock_after_putBlock hblock, fun haead => ?_,
      fun aead haead => frames_of_aead haead hframe, fun c'' hget => ?_⟩
    · simpa [Frames, haead] using hframe
    · rw [getMetadata_of_not_reserved hname, readEncryptedBlock_of_getBlock hget,
        decryptBlock_of_frames hframe]
  · obtain ⟨blob, hframe, hblock⟩ := writeEncryptedBlock_eq_ok (putJSON_eq_ok hj hput)
    rw [getJSON_of_getBlock (hget.trans (Cache.getBlock_after_putBlock hblock)),
      decryptBlock_of_frames hframe]
    rfl

/-- With a cipher, a stored blob shorter than a nonce makes `GetMetadata` panic. -/
theorem getMetadata_of_short {aead : AEAD} (haead : mm.aead = some aead) {c : Cache}
    {itemID : String} {blob : Bytes} (hname : isReservedName itemID = false)
    (hget : c.getBlock itemID = .ok blob) (hshort : blob.length < aead.nonceSize) :
    mm.getMetadata c itemID
      = .error (.panic (.sliceBoundsOutOfRange 0 aead.nonceSize blob.length)) := by
  rw [getMetadata_of_not_reserved hname, readEncryptedBlock_of_getBlock hget,
    decryptBlock_of_aead haead, if_pos hshort]

/-- With a cipher, a stored blob shorter than a nonce makes `GetJSON` panic. -/
theorem getJSON_of_short {aead : AEAD} (haead : mm.aead = some aead) {c : Cache}
    {itemID : String} {blob : Bytes} (hget : c.getBlock itemID = .ok blob)
    (hshort : blob.length < aead.nonceSize) {α : Type} (unmarshal : Bytes → Except GoError α) :
    mm.getJSON c itemID unmarshal
      = .error (.panic (.sliceBoundsOutOfRange 0 aead.nonceSize blob.length)) := by
  rw [getJSON_of_getBlock hget, decryptBlock_of_aead haead, if_pos hshort]
  rfl

/-- **Reads panic exactly on short blobs.** With a cipher, `GetMetadata` of an item panics exactly
when its stored blob is shorter than a nonce. On any other blob it returns what GCM's `Open` gives
for the bytes after the first `NonceSize`, under those bytes as the nonce: the plaintext, or
`Open`'s error. -/
theorem getMetadata_panics_iff_short {aead : AEAD} (haead : mm.aead = some aead) {c : Cache}
    {itemID : String} {blob : Bytes} (hname : isReservedName itemID = false)
    (hget : c.getBlock itemID = .ok blob) :
    ((∃ p, mm.getMetadata c itemID = .error (.panic p)) ↔ blob.length < aead.nonceSize) ∧
    (aead.nonceSize ≤ blob.length → mm.getMetadata c itemID
      = liftError (aead.openBounded (blob.take aead.nonceSize) (blob.drop aead.nonceSize)
          mm.authData)) := by
  rw [getMetadata_of_not_reserved hname, readEncryptedBlock_of_getBlock hget,
    decryptBlock_of_aead haead]
  split
  · exact ⟨⟨fun _ => ‹_›, fun _ => ⟨_, rfl⟩⟩, fun hlong => absurd hlong (by omega)⟩
  · refine ⟨⟨fun ⟨p, hp⟩ => ?_, fun h => absurd h ‹_›⟩, fun _ => rfl⟩
    revert hp
    cases aead.openBounded (blob.take aead.nonceSize) (blob.drop aead.nonceSize) mm.authData <;>
      simp

/-- **How reads fail.** `GetMetadata` of an item the cache cannot give reports `ErrNotFound` for an
absent block, and wraps any other backend error in a message that names the item. -/
theorem getMetadata_of_getBlock_error {c : Cache} {itemID : String}
    (hname : isReservedName itemID = false) {e : GoError} (hget : c.getBlock itemID = .error e) :
    mm.getMetadata c itemID = .error (.error (if e = .errBlockNotFound then .errNotFound
      else .message ("unexpected error reading " ++ itemID ++ ": " ++ e.text))) := by
  rw [getMetadata_of_not_reserved hname]
  simp only [readEncryptedBlock, hget]
  split <;> rfl

end Manager

/-- **The cipher of a new manager.** The default algorithm is a supported one; an unsupported one
fails with a message naming it; `NONE` gives no cipher, and `AES256_GCM` the GCM cipher keyed by
the key manager, with the authenticated data it derives. -/
theorem newManager_spec {Block : Type} (suite : CipherSuite Block) (f : Format) (km : KeyManager) :
    defaultEncryptionAlgorithm ∈ supportedEncryptionAlgorithms ∧
    (f.encryptionAlgorithm ∉ supportedEncryptionAlgorithms →
      newManager suite f km = .error (.message ("unable to initialize crypto: " ++
        ("unknown encryption algorithm: '" ++ f.encryptionAlgorithm ++ "'")))) ∧
    (f.encryptionAlgorithm = "NONE" → newManager suite f km = .ok ⟨f, none, []⟩) ∧
    (f.encryptionAlgorithm = "AES256_GCM" → ∀ blk aead,
      suite.newCipher (km.deriveKey purposeAESKey 32) = .ok blk → suite.newGCM blk = .ok aead →
      newManager suite f km = .ok ⟨f, some aead, km.deriveKey purposeAuthData 32⟩) := by
  refine ⟨by decide, fun h => ?_, fun h => ?_, fun h blk aead hblk hgcm => ?_⟩
  · simp [newManager, initCrypto_of_unsupported suite km h, GoError.text]
  · simp [newManager, initCrypto, h]
  · simp [newManager, initCrypto, h, hblk, hgcm]

/-- A manager for `AES256_GCM` over `AEAD.zeroTag`. -/
def sampleAES : Manager := ⟨⟨"1", "AES256_GCM"⟩, some AEAD.zeroTag, List.replicate 32 1⟩

/-- A manager for `NONE`. -/
def sampleNone : Manager := ⟨⟨"1", "NONE"⟩, none, []⟩

/-- A random reader that draws zeros. -/
def zeroRandom : RandomReader := fun n => .ok ⟨List.replicate n 0, List.length_replicate n 0⟩

/-- A cache with no blocks. -/
def emptyCache : Cache := ⟨∅, fun _ => none, []⟩

/-- A cache whose item `a` is stored as an empty blob. -/
def emptyBlobCache : Cache :=
  ⟨(∅ : AList fun _ : String => Bytes).insert "a" [], fun _ => none, ["a"]⟩

theorem put_then_getMetadata_sampleAES :
    ∃ c', sampleAES.put emptyCache "a" [1, 2, 3] zeroRandom = .ok c' ∧
      sampleAES.getMetadata c' "a" = .ok [1, 2, 3] := by
  obtain ⟨c', hput⟩ : ∃ c', sampleAES.put emptyCache "a" [1, 2, 3] zeroRandom = .ok c' := ⟨_, rfl⟩
  obtain ⟨blob, hget, -, -, hread⟩ :=
    (Manager.put_then_getMetadata sampleAES zeroRandom).1 _ _ _ _ hput
  exact ⟨c', hput, hread c' hget⟩

theorem sampleAES_aead : sampleAES.aead = some AEAD.zeroTag := rfl

theorem emptyBlobCache_getBlock : emptyBlobCache.getBlock "a" = .ok [] := rfl

theorem getMetadata_emptyBlob :
    sampleAES.getMetadata emptyBlobCache "a" = .error (.panic (.sliceBoundsOutOfRange 0 12 0)) :=
  Manager.getMetadata_of_short sampleAES_aead (by decide) emptyBlobCache_getBlock (by decide)

theorem getMetadata_panics_iff_short_emptyBlob :
    ∃ p, sampleAES.getMetadata emptyBlobCache "a" = .error (.panic p) :=
  (Manager.getMetadata_panics_iff_short sampleAES_aead (by decide) emptyBlobCache_getBlock).1.mpr
    (by decide)

/-- **A read that panics.** With `AES256_GCM`, an item stored as an empty blob makes `GetMetadata`
and `GetJSON` panic on `content[0:NonceSize]`, where the spec's reader expects an error. -/
theorem getMetadata_emptyBlob_panics :
    sampleAES.getMetadata emptyBlobCache "a" = .error (.panic (.sliceBoundsOutOfRange 0 12 0)) ∧
      ∀ {α : Type} (unmarshal : Bytes → Except GoError α),
        sampleAES.getJSON emptyBlobCache "a" unmarshal
          = .error (.panic (.sliceBoundsOutOfRange 0 12 0)) := by
  exact ⟨getMetadata_emptyBlob, fun unmarshal =>
    Manager.getJSON_of_short sampleAES_aead emptyBlobCache_getBlock (by decide) unmarshal⟩

/-- **Reads accept exactly what writes store.** With no cipher, or with a tidy one such as GCM,
`GetMetadata(itemID)` returns `content` exactly when the name is not reserved and the stored blob is
the one `writeEncryptedBlock(itemID, content)` would put in its place, for some nonce the random
reader can draw. So a stored blob changed into anything that is not a frame of some content fails
the read, and a frame is read back only as the content it was sealed from. -/
theorem Manager.getMetadata_eq_ok_iff_written {mm : Manager}
    (htidy : ∀ aead, mm.aead = some aead → aead.Tidy) (c : Cache) (itemID : String)
    (content : Bytes) :
    mm.getMetadata c itemID = .ok content ↔
      isReservedName itemID = false ∧ ∃ blob, c.getBlock itemID = .ok blob ∧
        ∃ rnd, mm.writeEncryptedBlock c itemID content rnd
          = liftError (c.putBlock itemID blob) := by
  rw [Manager.getMetadata_eq_ok_iff]
  refine and_congr_right fun _ => exists_congr fun blob => and_congr_right fun hget => ?_
  rw [Manager.decryptBlock_eq_ok_iff htidy,
    Manager.frames_iff_written (Cache.failing_of_getBlock hget)]

theorem getMetadata_eq_ok_iff_written_sampleAES :
    ∃ c', sampleAES.put emptyCache "a" [1, 2, 3] zeroRandom = .ok c' ∧
      (∀ aead, sampleAES.aead = some aead → aead.Tidy) ∧
      sampleAES.getMetadata c' "a" = .ok [1, 2, 3] ∧
      isReservedName "a" = false ∧ ∃ blob, c'.getBlock "a" = .ok blob ∧
        ∃ rnd, sampleAES.writeEncryptedBlock c' "a" [1, 2, 3] rnd
          = liftError (c'.putBlock "a" blob) := by
  have htidy : ∀ aead, sampleAES.aead = some aead → aead.Tidy := fun aead h => by
    cases h
    exact AEAD.zeroTag_tidy
  obtain ⟨c', hput, hread⟩ : ∃ c', sampleAES.put emptyCache "a" [1, 2, 3] zeroRandom = .ok c' ∧
      sampleAES.getMetadata c' "a" = .ok [1, 2, 3] := ⟨_, rfl, rfl⟩
  exact ⟨c', hput, htidy, hread,
    (Manager.getMetadata_eq_ok_iff_written htidy c' "a" [1, 2, 3]).mp hread⟩

end KopiaMetadata
