import Mathlib
import StopTrading.Library.FirstMatch
import StopTrading.Library.Replies

/-!
# The key management system

`LocalKms` keeps keys in blobs of fixed size: the name in an array of 64 bytes that ends at the
first zero byte, the key masked with the master key in an array of 512 bytes, and its length.
`Vault` is what it is for: a list of named keys of which the first with a name counts, until it
is deleted.

* `kms_refines_vault` — a run of calls gets the replies of the vault, and none aborts, if
  what is stored fits (`Proper`): at most 512 bytes under a name without zero bytes, and no
  other master key while there are keys.

A key that does not fit is stored all the same; the abort comes when it is retrieved.

### What is load-bearing

`Sealed` relates the two: the blobs are those of the vault's keys under the *present* master key.
So a key can be decrypted exactly because the master key has not changed since it was stored, and
`Proper` has to keep it.  A blob gives its name back if the name has no zero byte and is short
enough (`getName_toBlob`), and its key if that fits (`decrypt_toBlob`).

With names read alike, both sides search the same list for the first match, and every call is one
lemma about such lists from `Library.FirstMatch`.

### Design decisions

* The vault has no master key, no arrays and no lengths.  It says what the calls mean, not how a
  key is kept; so its `serve` cannot abort, and that the system does not abort is a part of the
  refinement.
* A master key of the wrong size is refused by `initialize` and changes nothing, and is therefore
  proper at any time.
-/

namespace StopTrading.Security

open FirstMatch Replies

/-! ## Blobs -/

/-- `KeyType`. -/
inductive KeyType where
  | apiKey
  | apiSecret
  | encryptionKey
  | signingKey
  | hmacKey
  deriving Repr, DecidableEq

/-- `key_type as u8`. -/
def KeyType.toU8 : KeyType → UInt8
  | .apiKey => 0
  | .apiSecret => 1
  | .encryptionKey => 2
  | .signingKey => 3
  | .hmacKey => 4

/-- `KmsError`, those that a call returns or catches. -/
inductive KmsError where
  | notInitialized
  | invalidKeySize
  | keyNameTooLong
  | keyNotFound
  | keyExpired
  | decryptionFailed
  deriving Repr, DecidableEq

/-- `KeyType::try_from`. -/
def KeyType.tryFrom (value : UInt8) : Except KmsError KeyType :=
  if value = 0 then .ok .apiKey
  else if value = 1 then .ok .apiSecret
  else if value = 2 then .ok .encryptionKey
  else if value = 3 then .ok .signingKey
  else if value = 4 then .ok .hmacKey
  else .error .decryptionFailed

/-- `KeyType::try_from(..).unwrap_or(KeyType::ApiKey)`. -/
def KeyType.ofU8 (value : UInt8) : KeyType :=
  match KeyType.tryFrom value with
  | .ok keyType => keyType
  | .error _ => .apiKey

/-- The kind of a key is read as it was written. -/
@[simp] theorem KeyType.ofU8_toU8 (keyType : KeyType) : KeyType.ofU8 keyType.toU8 = keyType := by
  cases keyType <;> rfl

/-- The bytes of a name. -/
abbrev KeyName := List UInt8

/-- `MAX_KEY_NAME_LEN`. -/
def maxKeyNameLen : Nat := 64

/-- The size of the ciphertext. -/
def ciphertextSize : Nat := 512

/-- `EncryptedKeyBlob`. -/
structure EncryptedKeyBlob where
  keyName : List UInt8
  ciphertext : List UInt8
  ciphertextLen : Nat
  createdAt : Nat
  expiresAt : Nat
  keyType : UInt8
  deriving DecidableEq

/-- The first bytes of an array are set, the others stay zero. -/
def padded (size : Nat) (bytes : List UInt8) : List UInt8 :=
  bytes ++ List.replicate (size - bytes.length) 0

/-- `get_name`: up to the first zero byte.  What is before a zero byte in the bytes of a `&str`
is again a `&str`, so that `from_utf8` succeeds. -/
def EncryptedKeyBlob.getName (b : EncryptedKeyBlob) : KeyName := b.keyName.takeWhile (· ≠ 0)

/-- Bytes masked with the master key. -/
def mask (master bytes : List UInt8) : List UInt8 :=
  bytes.mapIdx fun i byte => byte ^^^ master.getD (i % 32) 0

/-- Masking keeps the length. -/
@[simp] theorem length_mask (master bytes : List UInt8) :
    (mask master bytes).length = bytes.length := by simp [mask]

/-- Masking twice is doing nothing. -/
@[simp] theorem mask_mask (master bytes : List UInt8) :
    mask master (mask master bytes) = bytes := by
  refine List.ext_getElem (by simp) fun i _ _ => ?_
  simp [mask]

/-- The ciphertext of a plaintext; what does not fit is dropped. -/
def encrypt (master plaintext : List UInt8) : List UInt8 :=
  padded ciphertextSize (mask master (plaintext.take ciphertextSize))

/-- The plaintext of a ciphertext; reading beyond the ciphertext aborts. -/
def decrypt (master ciphertext : List UInt8) (len : Nat) : Option (List UInt8) :=
  if len ≤ ciphertext.length then some (mask master (ciphertext.take len)) else none

/-- A ciphertext has a fixed size. -/
theorem length_encrypt (master plaintext : List UInt8) :
    (encrypt master plaintext).length = ciphertextSize := by
  simp only [encrypt, padded, List.length_append, length_mask, List.length_take,
    List.length_replicate]
  omega

/-- **What fits is decrypted** as it was encrypted. -/
theorem decrypt_encrypt (master : List UInt8) {plaintext : List UInt8}
    (h : plaintext.length ≤ ciphertextSize) :
    decrypt master (encrypt master plaintext) plaintext.length = some plaintext := by
  rw [decrypt, length_encrypt, if_pos h, encrypt, padded, List.take_of_length_le h]
  have htake : (mask master plaintext ++
      List.replicate (ciphertextSize - (mask master plaintext).length) 0).take plaintext.length =
      mask master plaintext := by
    rw [List.take_append_of_le_length (by simp), List.take_of_length_le (by simp)]
  rw [htake, mask_mask]

/-! ## Calls -/

/-- `LocalKms`. -/
structure LocalKms where
  masterKey : List UInt8
  encryptedKeys : List EncryptedKeyBlob
  isInitialized : Bool

/-- `DecryptedKey`. -/
structure DecryptedKey where
  data : List UInt8
  keyType : KeyType
  createdAt : Nat
  deriving Repr, DecidableEq

/-- A call, with the time that it reads from the clock. -/
inductive KmsCall where
  | init (masterKey : List UInt8)
  | storeKey (name : KeyName) (plaintext : List UInt8) (keyType : KeyType) (now : Nat)
  | retrieveKey (name : KeyName) (now : Nat)
  | deleteKey (name : KeyName)
  | listKeys
  | setExpiration (name : KeyName) (expiresAt : Nat)
  | shutdown

/-- What a call returns. -/
inductive KmsReply where
  | done (result : Except KmsError Unit)
  | key (result : Except KmsError DecryptedKey)
  | names (names : List KeyName)

namespace LocalKms

/-- `new`. -/
def new : LocalKms := ⟨List.replicate 32 0, [], false⟩

/-- `initialize`. -/
def init (k : LocalKms) (masterKey : List UInt8) : LocalKms × Except KmsError Unit :=
  if masterKey.length ≠ 32 then (k, .error .invalidKeySize)
  else ({ k with masterKey := masterKey, isInitialized := true }, .ok ())

/-- `store_key`. -/
def storeKey (k : LocalKms) (name : KeyName) (plaintext : List UInt8) (keyType : KeyType)
    (now : Nat) : LocalKms × Except KmsError Unit :=
  if k.isInitialized = false then (k, .error .notInitialized)
  else if name.length ≥ maxKeyNameLen then (k, .error .keyNameTooLong)
  else
    let blob : EncryptedKeyBlob :=
      { keyName := padded maxKeyNameLen name
        ciphertext := encrypt k.masterKey plaintext
        ciphertextLen := plaintext.length % 2 ^ 32
        createdAt := now
        expiresAt := 0
        keyType := keyType.toU8 }
    ({ k with encryptedKeys := k.encryptedKeys ++ [blob] }, .ok ())

/-- `retrieve_key`, or an abort. -/
def retrieveKey (k : LocalKms) (name : KeyName) (now : Nat) :
    Option (Except KmsError DecryptedKey) :=
  if k.isInitialized = false then some (.error .notInitialized)
  else
    match find EncryptedKeyBlob.getName name k.encryptedKeys with
    | none => some (.error .keyNotFound)
    | some blob =>
        if blob.expiresAt ≠ 0 ∧ now > blob.expiresAt then some (.error .keyExpired)
        else
          (decrypt k.masterKey blob.ciphertext blob.ciphertextLen).map fun data =>
            .ok ⟨data, KeyType.ofU8 blob.keyType, blob.createdAt⟩

/-- `delete_key`. -/
def deleteKey (k : LocalKms) (name : KeyName) : LocalKms × Except KmsError Unit :=
  match find EncryptedKeyBlob.getName name k.encryptedKeys with
  | none => (k, .error .keyNotFound)
  | some _ =>
      ({ k with encryptedKeys := k.encryptedKeys.eraseP fun b => b.getName = name }, .ok ())

/-- `list_keys`. -/
def listKeys (k : LocalKms) : List KeyName := k.encryptedKeys.map EncryptedKeyBlob.getName

/-- `set_expiration`. -/
def setExpiration (k : LocalKms) (name : KeyName) (expiresAt : Nat) :
    LocalKms × Except KmsError Unit :=
  match find EncryptedKeyBlob.getName name k.encryptedKeys with
  | none => (k, .error .keyNotFound)
  | some _ =>
      ({ k with
          encryptedKeys := modify EncryptedKeyBlob.getName name
            (fun b => { b with expiresAt := expiresAt }) k.encryptedKeys }, .ok ())

/-- `shutdown`. -/
def shutdown (k : LocalKms) : LocalKms :=
  { masterKey := k.masterKey.map fun _ => 0, encryptedKeys := [], isInitialized := false }

/-- One call, or an abort. -/
def serve (k : LocalKms) : KmsCall → Option (LocalKms × KmsReply)
  | .init masterKey => some ((k.init masterKey).map id .done)
  | .storeKey name plaintext keyType now =>
      some ((k.storeKey name plaintext keyType now).map id .done)
  | .retrieveKey name now => (k.retrieveKey name now).map fun result => (k, .key result)
  | .deleteKey name => some ((k.deleteKey name).map id .done)
  | .listKeys => some (k, .names k.listKeys)
  | .setExpiration name expiresAt => some ((k.setExpiration name expiresAt).map id .done)
  | .shutdown => some (k.shutdown, .done (.ok ()))

end LocalKms

/-! ## The vault -/

/-- A key in the vault. -/
structure VaultEntry where
  name : KeyName
  plaintext : List UInt8
  keyType : KeyType
  createdAt : Nat
  expiresAt : Nat
  deriving DecidableEq

/-- **The vault**: named keys, in the order in which they were stored. -/
structure Vault where
  isOpen : Bool
  entries : List VaultEntry

namespace Vault

/-- A vault that was never opened. -/
def new : Vault := ⟨false, []⟩

/-- The key that counts under a name, unless it has expired. -/
def retrieve (v : Vault) (name : KeyName) (now : Nat) : Except KmsError DecryptedKey :=
  if v.isOpen = false then .error .notInitialized
  else
    match find VaultEntry.name name v.entries with
    | none => .error .keyNotFound
    | some e =>
        if e.expiresAt ≠ 0 ∧ now > e.expiresAt then .error .keyExpired
        else .ok ⟨e.plaintext, e.keyType, e.createdAt⟩

/-- What the vault answers to a call; it never aborts. -/
def serve (v : Vault) : KmsCall → Vault × KmsReply
  | .init masterKey =>
      if masterKey.length ≠ 32 then (v, .done (.error .invalidKeySize))
      else ({ v with isOpen := true }, .done (.ok ()))
  | .storeKey name plaintext keyType now =>
      if v.isOpen = false then (v, .done (.error .notInitialized))
      else if name.length ≥ maxKeyNameLen then (v, .done (.error .keyNameTooLong))
      else ({ v with entries := v.entries ++ [⟨name, plaintext, keyType, now, 0⟩] }, .done (.ok ()))
  | .retrieveKey name now => (v, .key (v.retrieve name now))
  | .deleteKey name =>
      match find VaultEntry.name name v.entries with
      | none => (v, .done (.error .keyNotFound))
      | some _ => ({ v with entries := v.entries.eraseP fun e => e.name = name }, .done (.ok ()))
  | .listKeys => (v, .names (v.entries.map VaultEntry.name))
  | .setExpiration name expiresAt =>
      match find VaultEntry.name name v.entries with
      | none => (v, .done (.error .keyNotFound))
      | some _ =>
          ({ v with
              entries := modify VaultEntry.name name
                (fun e => { e with expiresAt := expiresAt }) v.entries }, .done (.ok ()))
  | .shutdown => (new, .done (.ok ()))

end Vault

/-- A call stores only what fits, and keeps the master key while there are keys.  A master key of
the wrong size is refused and may come at any time. -/
def Proper (k : LocalKms) : KmsCall → Prop
  | .init masterKey => masterKey.length ≠ 32 ∨ k.encryptedKeys = [] ∨ masterKey = k.masterKey
  | .storeKey name plaintext _ _ => plaintext.length ≤ ciphertextSize ∧ 0 ∉ name
  | _ => True

instance decidableProper (k : LocalKms) (c : KmsCall) : Decidable (Proper k c) := by
  cases c <;> unfold Proper <;> infer_instance

/-! ## The refinement -/

namespace VaultEntry

/-- The blob of a key. -/
def toBlob (master : List UInt8) (e : VaultEntry) : EncryptedKeyBlob :=
  { keyName := padded maxKeyNameLen e.name
    ciphertext := encrypt master e.plaintext
    ciphertextLen := e.plaintext.length % 2 ^ 32
    createdAt := e.createdAt
    expiresAt := e.expiresAt
    keyType := e.keyType.toU8 }

/-- A key that fits into a blob. -/
def Fits (e : VaultEntry) : Prop :=
  e.plaintext.length ≤ ciphertextSize ∧ e.name.length < maxKeyNameLen ∧ 0 ∉ e.name

/-- The name of a blob is the name that was stored. -/
theorem getName_toBlob (master : List UInt8) {e : VaultEntry} (h : e.Fits) :
    (e.toBlob master).getName = e.name := by
  obtain ⟨-, -, hzero⟩ := h
  unfold toBlob EncryptedKeyBlob.getName padded
  rw [List.takeWhile_append_of_pos (by simpa using fun b hb (h0 : b = 0) => hzero (h0 ▸ hb))]
  simp

/-- A key that fits is decrypted from its blob. -/
theorem decrypt_toBlob (master : List UInt8) {e : VaultEntry} (h : e.Fits) :
    decrypt master (e.toBlob master).ciphertext (e.toBlob master).ciphertextLen =
      some e.plaintext := by
  have hlen : e.plaintext.length % 2 ^ 32 = e.plaintext.length := by
    have := h.1
    unfold ciphertextSize at this
    omega
  rw [toBlob, hlen, decrypt_encrypt master h.1]

end VaultEntry

/-- The blobs are those of the vault's keys, under the present master key. -/
structure Sealed (k : LocalKms) (v : Vault) : Prop where
  /-- Both are open, or neither, -/
  isOpen : k.isInitialized = v.isOpen
  /-- and they keep the same keys, -/
  blobs : k.encryptedKeys = v.entries.map (VaultEntry.toBlob k.masterKey)
  /-- all of which fit. -/
  fits : ∀ e ∈ v.entries, e.Fits

/-- Nothing is stored in the beginning. -/
theorem sealed_new : Sealed .new .new where
  isOpen := rfl
  blobs := rfl
  fits _ h := (List.not_mem_nil h).elim

namespace Sealed

variable {k : LocalKms} {v : Vault}

/-- Names are found alike. -/
theorem keys (h : Sealed k v) :
    ∀ e ∈ v.entries, (e.toBlob k.masterKey).getName = e.name :=
  fun e he => VaultEntry.getName_toBlob k.masterKey (h.fits e he)

/-- The first blob with a name is that of the first key with it. -/
theorem find_eq (h : Sealed k v) (name : KeyName) :
    find EncryptedKeyBlob.getName name k.encryptedKeys =
      (find VaultEntry.name name v.entries).map (VaultEntry.toBlob k.masterKey) := by
  rw [h.blobs, find_map h.keys]

/-- **Retrieval** gives the key of the vault. -/
theorem retrieveKey (h : Sealed k v) (name : KeyName) (now : Nat) :
    k.retrieveKey name now = some (v.retrieve name now) := by
  unfold LocalKms.retrieveKey Vault.retrieve
  rw [h.isOpen, h.find_eq]
  by_cases hopen : v.isOpen = false
  · rw [if_pos hopen, if_pos hopen]
  · rw [if_neg hopen, if_neg hopen]
    cases hfind : find VaultEntry.name name v.entries with
    | none => rfl
    | some e =>
        have hdecrypt := VaultEntry.decrypt_toBlob k.masterKey (h.fits e (mem_of_find hfind))
        rw [Option.map_some]
        dsimp only
        rw [hdecrypt]
        show (if e.expiresAt ≠ 0 ∧ now > e.expiresAt then _ else _) = some _
        split_ifs
        · rfl
        · simp [VaultEntry.toBlob]

/-- A master key that changes nothing that is stored. -/
theorem init (h : Sealed k v) {masterKey : List UInt8}
    (proper : Proper k (.init masterKey)) :
    ∃ k' v' r, k.serve (.init masterKey) = some (k', r) ∧
      some (v.serve (.init masterKey)) = some (v', r) ∧ Sealed k' v' := by
  by_cases hlen : masterKey.length ≠ 32
  · exact ⟨k, v, .done (.error .invalidKeySize), by simp [LocalKms.serve, LocalKms.init, hlen],
      by simp [Vault.serve, hlen], h⟩
  · refine ⟨{ k with masterKey := masterKey, isInitialized := true }, { v with isOpen := true },
      .done (.ok ()), by simp [LocalKms.serve, LocalKms.init, hlen], by simp [Vault.serve, hlen],
      rfl, ?_, h.fits⟩
    show k.encryptedKeys = v.entries.map (VaultEntry.toBlob masterKey)
    obtain hwrong | hnone | rfl := proper
    · exact absurd hwrong hlen
    · have hentries : v.entries = [] := List.map_eq_nil_iff.mp (h.blobs.symm.trans hnone)
      rw [hnone, hentries, List.map_nil]
    · exact h.blobs

/-- Storing a key that fits. -/
theorem storeKey (h : Sealed k v) {name : KeyName} {plaintext : List UInt8} {keyType : KeyType}
    {now : Nat} (proper : Proper k (.storeKey name plaintext keyType now)) :
    ∃ k' v' r, k.serve (.storeKey name plaintext keyType now) = some (k', r) ∧
      some (v.serve (.storeKey name plaintext keyType now)) = some (v', r) ∧ Sealed k' v' := by
  by_cases hopen : v.isOpen = false
  · exact ⟨k, v, .done (.error .notInitialized),
      by simp [LocalKms.serve, LocalKms.storeKey, h.isOpen, hopen], by simp [Vault.serve, hopen], h⟩
  by_cases hname : name.length ≥ maxKeyNameLen
  · exact ⟨k, v, .done (.error .keyNameTooLong),
      by simp [LocalKms.serve, LocalKms.storeKey, h.isOpen, hopen, hname],
      by simp [Vault.serve, hopen, hname], h⟩
  · refine ⟨{ k with encryptedKeys := k.encryptedKeys ++
        [VaultEntry.toBlob k.masterKey ⟨name, plaintext, keyType, now, 0⟩] },
      { v with entries := v.entries ++ [⟨name, plaintext, keyType, now, 0⟩] }, .done (.ok ()),
      by simp [LocalKms.serve, LocalKms.storeKey, h.isOpen, hopen, hname, VaultEntry.toBlob],
      by simp [Vault.serve, hopen, hname], h.isOpen, by simp [h.blobs], ?_⟩
    intro e he
    obtain he | rfl := by simpa using he
    · exact h.fits e he
    · exact ⟨proper.1, Nat.lt_of_not_ge hname, proper.2⟩

/-- Deleting the first key with a name. -/
theorem deleteKey (h : Sealed k v) (name : KeyName) :
    ∃ k' v' r, k.serve (.deleteKey name) = some (k', r) ∧
      some (v.serve (.deleteKey name)) = some (v', r) ∧ Sealed k' v' := by
  cases hfind : find VaultEntry.name name v.entries with
  | none =>
      exact ⟨k, v, .done (.error .keyNotFound),
        by simp [LocalKms.serve, LocalKms.deleteKey, h.find_eq, hfind],
        by simp [Vault.serve, hfind], h⟩
  | some e =>
      refine ⟨{ k with encryptedKeys := k.encryptedKeys.eraseP fun b => b.getName = name },
        { v with entries := v.entries.eraseP fun e => e.name = name }, .done (.ok ()),
        by simp [LocalKms.serve, LocalKms.deleteKey, h.find_eq, hfind],
        by simp [Vault.serve, hfind], h.isOpen, ?_,
        fun e he => h.fits e (List.mem_of_mem_eraseP he)⟩
      show k.encryptedKeys.eraseP _ = (v.entries.eraseP _).map _
      rw [h.blobs, eraseP_map h.keys]

/-- Setting when the first key with a name expires. -/
theorem setExpiration (h : Sealed k v) (name : KeyName) (expiresAt : Nat) :
    ∃ k' v' r, k.serve (.setExpiration name expiresAt) = some (k', r) ∧
      some (v.serve (.setExpiration name expiresAt)) = some (v', r) ∧ Sealed k' v' := by
  cases hfind : find VaultEntry.name name v.entries with
  | none =>
      exact ⟨k, v, .done (.error .keyNotFound),
        by simp [LocalKms.serve, LocalKms.setExpiration, h.find_eq, hfind],
        by simp [Vault.serve, hfind], h⟩
  | some e =>
      refine ⟨{ k with
          encryptedKeys := modify EncryptedKeyBlob.getName name
            (fun b => { b with expiresAt := expiresAt }) k.encryptedKeys },
        { v with
          entries := modify VaultEntry.name name
            (fun e => { e with expiresAt := expiresAt }) v.entries }, .done (.ok ()),
        by simp [LocalKms.serve, LocalKms.setExpiration, h.find_eq, hfind],
        by simp [Vault.serve, hfind], h.isOpen, ?_, fun e he => ?_⟩
      · show modify _ _ _ k.encryptedKeys = (modify _ _ _ v.entries).map _
        rw [h.blobs]
        exact modify_map h.keys (fun _ => rfl) name
      · obtain he | ⟨e, hfind, rfl⟩ := mem_modify he
        · exact h.fits e he
        · exact h.fits e (mem_of_find hfind)

/-- **Each call** gets the reply of the vault. -/
theorem serve (h : Sealed k v) {c : KmsCall} (proper : Proper k c) :
    ∃ k' v' r, k.serve c = some (k', r) ∧ some (v.serve c) = some (v', r) ∧ Sealed k' v' := by
  cases c with
  | init masterKey => exact h.init proper
  | storeKey name plaintext keyType now => exact h.storeKey proper
  | retrieveKey name now =>
      exact ⟨k, v, .key (v.retrieve name now), by rw [LocalKms.serve, h.retrieveKey]; rfl, rfl, h⟩
  | deleteKey name => exact h.deleteKey name
  | listKeys =>
      refine ⟨k, v, .names (v.entries.map VaultEntry.name), ?_, rfl, h⟩
      have hnames : v.entries.map (EncryptedKeyBlob.getName ∘ VaultEntry.toBlob k.masterKey) =
          v.entries.map VaultEntry.name := List.map_congr_left h.keys
      rw [LocalKms.serve, LocalKms.listKeys, h.blobs, List.map_map, hnames]
  | setExpiration name expiresAt => exact h.setExpiration name expiresAt
  | shutdown => exact ⟨_, _, _, rfl, rfl, ⟨rfl, rfl, fun _ h => (List.not_mem_nil h).elim⟩⟩

end Sealed

/-- **The key management system is a vault**, for what fits into its blobs. -/
theorem kms_refines_vault (cs : List KmsCall)
    (proper : Allowed LocalKms.serve Proper LocalKms.new cs) :
    ∃ rs, replies LocalKms.serve LocalKms.new cs = some rs ∧
      replies (fun v c => some (Vault.serve v c)) Vault.new cs = some rs :=
  replies_of_simulation (fun _ _ _ sim proper => sim.serve proper) cs sealed_new proper

/-- A key is stored under a name that is taken, and counts once the first one is deleted; a master
key of the wrong size comes in between. -/
theorem kms_refines_vault_taken :
    let cs : List KmsCall :=
      [.init (List.replicate 32 7), .storeKey [97, 98] [1, 2, 3] .apiSecret 5,
        .init [7], .storeKey [97, 98] [4] .hmacKey 6, .retrieveKey [97, 98] 9, .deleteKey [97, 98],
        .retrieveKey [97, 98] 9]
    ∃ rs, replies LocalKms.serve LocalKms.new cs = some rs ∧
      replies (fun v c => some (Vault.serve v c)) Vault.new cs = some rs := by
  intro cs
  exact kms_refines_vault cs (by decide +kernel)

end StopTrading.Security
