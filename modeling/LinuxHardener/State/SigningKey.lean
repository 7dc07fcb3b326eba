import LinuxHardener.Lib.Bytes
import Mathlib.Logic.Function.Basic

/-
  Opening the checkpoint signer: the key file, its public half, and the temporary file a
  plaintext key is migrated through.

  Openings run side by side and each of their file operations is one step; a write may
  take several. A crash ends an opening between any two steps and leaves the disk as it
  is. A file keeps its inode through a rename, so an opening may still be writing to a
  file that another has put in the key's place. Not modelled: errors of `try_exists` on
  a directory that can be searched, and power loss.

  Correspondence (Rust ↔ Lean):
    `CheckpointSigner`                     ↔ `CheckpointSigner`
    `encrypt_key`, `decrypt_key`, `load_verifier_only` ↔ `encryptKey`, `decryptKey`, `loadVerifierOnly`
    `load_key`, its test for the legacy format ↔ `loadKey`, `isLegacy`
    `new_with_path`, with `load_key`, `replace_key_atomically`, `save_key` and `save_public_key` inlined ↔ `advance`
    `ring::aead`, `ed25519_dalek`          ↔ `KeyCipher`, `Ed25519`
-/
namespace LinuxHardener.State.Signing

/-! ## Keys -/

structure SecretKey where
  bytes : Bytes
  length_bytes : bytes.length = 32
  deriving DecidableEq, Repr

structure Nonce where
  bytes : Bytes
  length_bytes : bytes.length = 12
  deriving DecidableEq, Repr

/-- Sealing under the key derived from the machine's identity, which does not change. -/
structure KeyCipher where
  sealed : Bytes → Bytes → Bytes
  opened : Bytes → Bytes → Option Bytes
  length_sealed : ∀ n b, (sealed n b).length = b.length + 16
  opened_sealed : ∀ n b, opened n (sealed n b) = some b

structure Ed25519 where
  publicKey : SecretKey → Bytes
  isPublicKey : Bytes → Bool
  sign : SecretKey → Bytes → Bytes
  verify : Bytes → Bytes → Bytes → Bool
  length_publicKey : ∀ k, (publicKey k).length = 32
  isPublicKey_publicKey : ∀ k, isPublicKey (publicKey k) = true
  verify_sign : ∀ k m, verify (publicKey k) m (sign k m) = true

structure CheckpointSigner where
  signingKey : Option SecretKey
  verifyingKey : Bytes
  deriving DecidableEq, Repr

/-- `LSH1` -/
def encryptedKeyMagic : Bytes := [0x4C, 0x53, 0x48, 0x31]

def encryptKey (cipher : KeyCipher) (k : SecretKey) (n : Nonce) : Bytes :=
  encryptedKeyMagic ++ n.bytes ++ cipher.sealed n.bytes k.bytes

def decryptKey (cipher : KeyCipher) (file : Bytes) : Option Bytes :=
  if file.length < 4 + 12 + 32 + 16 then none
  else cipher.opened ((file.drop 4).take 12) (file.drop 16)

def isLegacy (file : Bytes) : Bool := !encryptedKeyMagic.isPrefixOf file

def loadKey (cipher : KeyCipher) (file : Bytes) : Option SecretKey :=
  let raw :=
    if encryptedKeyMagic.isPrefixOf file then decryptKey cipher file
    else if file.length = 32 then some file
    else none
  raw.bind fun b => if h : b.length = 32 then some ⟨b, h⟩ else none

def signerOf (ed : Ed25519) (k : SecretKey) : CheckpointSigner := ⟨some k, ed.publicKey k⟩

def loadVerifierOnly (ed : Ed25519) (file : Bytes) : Option CheckpointSigner :=
  if file.length ≠ 32 then none
  else if ed.isPublicKey file then some ⟨none, file⟩
  else none

/-! ## The disk -/

/-- Inodes with their contents, and the three names. -/
structure Disk where
  content : Nat → Bytes
  next : Nat
  key : Option Nat
  temp : Option Nat
  pub : Option Nat

namespace Disk

def setContent (d : Disk) (ino : Nat) (b : Bytes) : Disk := { d with content := Function.update d.content ino b }

/-- A write at an offset; what lies between the end of the file and the offset reads as zeros. -/
def writeAt (d : Disk) (ino offset : Nat) (chunk : Bytes) : Disk :=
  let old := d.content ino
  d.setContent ino (old.take offset ++ List.replicate (offset - old.length) 0 ++ chunk ++ old.drop (offset + chunk.length))

/-- A new empty inode. -/
def alloc (d : Disk) : Disk := { d.setContent d.next [] with next := d.next + 1 }

end Disk

/-! ## Openings -/

/-- Where an opening stands: before the file operation named, with what it carries. -/
inductive Pc where
  | openKey
  | pubExists
  | readPub
  | openForLoad
  | readKey (ino : Nat)
  | encryptForMigration (k : SecretKey)
  | openTemp (k : SecretKey) (file : Bytes)
  | writeTemp (k : SecretKey) (ino offset : Nat) (rest : Bytes)
  | syncTemp (k : SecretKey)
  | rename (k : SecretKey)
  | removeTemp (k : SecretKey)
  | keyExists
  | generateKey
  | createKey (k : SecretKey) (file : Bytes)
  | writeKey (k : SecretKey) (ino offset : Nat) (rest : Bytes)
  | createPub (k : SecretKey)
  | writePub (k : SecretKey) (ino offset : Nat) (rest : Bytes)
  | returned (result : Option CheckpointSigner)
  | crashed (accepted : Option SecretKey)

structure Opening where
  privileged : Bool
  pc : Pc

inductive Move where
  | start (privileged : Bool)
  | crash
  | succeed
  | fail
  | encrypt (n : Nonce)
  | generate (k : SecretKey) (n : Nonce)
  | write (count : Nat)

/-- The key an opening has loaded, or has saved in full. -/
def Pc.accepted : Pc → Option SecretKey
  | .encryptForMigration k | .openTemp k _ | .writeTemp k _ _ _ | .syncTemp k | .rename k | .removeTemp k => some k
  | .createPub k | .writePub k _ _ _ => some k
  | .returned (some signer) => signer.signingKey
  | .crashed accepted => accepted
  | _ => none

def Pc.isLive : Pc → Bool
  | .returned _ | .crashed _ => false
  | _ => true

/-- The next operation of an opening, in one of the ways it can go. -/
def advance (cipher : KeyCipher) (ed : Ed25519) (privileged : Bool) (d : Disk) : Pc → Move → Option (Disk × Pc)
  -- only those whose key it is can open it; any open may fail
  | .openKey, .succeed => if privileged && d.key.isSome then some (d, .openForLoad) else none
  | .openKey, .fail => some (d, .pubExists)
  -- in a directory it may not search, neither question is answered
  | .pubExists, .succeed => some (d, if d.pub.isSome then .readPub else .keyExists)
  | .pubExists, .fail => some (d, .returned none)
  | .readPub, .succeed => d.pub.map fun ino => (d, .returned (loadVerifierOnly ed (d.content ino)))
  | .readPub, .fail => some (d, .returned none)
  | .openForLoad, .succeed => d.key.map fun ino => (d, .readKey ino)
  | .openForLoad, .fail => some (d, .returned none)
  | .readKey ino, .succeed =>
    match loadKey cipher (d.content ino) with
    | none => some (d, .returned none)
    | some k =>
      if isLegacy (d.content ino) then some (d, .encryptForMigration k)
      else some (d, .returned (some (signerOf ed k)))
  | .readKey _, .fail => some (d, .returned none)
  -- a migration that fails anywhere leaves the signer that was loaded
  | .encryptForMigration k, .encrypt n => some (d, .openTemp k (encryptKey cipher k n))
  | .encryptForMigration k, .fail => some (d, .returned (some (signerOf ed k)))
  | .openTemp k file, .succeed =>
    match d.temp with
    | some ino => some (d.setContent ino [], .writeTemp k ino 0 file)
    | none => some ({ d.alloc with temp := some d.next }, .writeTemp k d.next 0 file)
  | .openTemp k _, .fail => some (d, .returned (some (signerOf ed k)))
  | .writeTemp k ino offset rest, .write count =>
    if 0 < count ∧ count ≤ rest.length then
      some (d.writeAt ino offset (rest.take count),
        if count = rest.length then .syncTemp k else .writeTemp k ino (offset + count) (rest.drop count))
    else none
  | .writeTemp k _ _ _, .fail => some (d, .returned (some (signerOf ed k)))
  | .syncTemp k, .succeed => some (d, .rename k)
  | .syncTemp k, .fail => some (d, .returned (some (signerOf ed k)))
  | .rename k, .succeed => d.temp.map fun ino =>
      ({ d with key := some ino, temp := none }, .returned (some (signerOf ed k)))
  | .rename k, .fail => some (d, .removeTemp k)
  | .removeTemp k, .succeed => some ({ d with temp := none }, .returned (some (signerOf ed k)))
  | .removeTemp k, .fail => some (d, .returned (some (signerOf ed k)))
  | .keyExists, .succeed => some (d, if d.key.isNone then .generateKey else .returned none)
  | .keyExists, .fail => some (d, .returned none)
  | .generateKey, .generate k n => some (d, .createKey k (encryptKey cipher k n))
  | .generateKey, .fail => some (d, .returned none)
  -- `create_new`: an existing file is refused
  | .createKey k file, .succeed =>
    if privileged && d.key.isNone then some ({ d.alloc with key := some d.next }, .writeKey k d.next 0 file) else none
  | .createKey _ _, .fail => some (d, .returned none)
  | .writeKey k ino offset rest, .write count =>
    if 0 < count ∧ count ≤ rest.length then
      some (d.writeAt ino offset (rest.take count),
        if count = rest.length then .createPub k else .writeKey k ino (offset + count) (rest.drop count))
    else none
  | .writeKey _ _ _ _, .fail => some (d, .returned none)
  | .createPub k, .succeed =>
    if d.pub.isNone then some ({ d.alloc with pub := some d.next }, .writePub k d.next 0 (ed.publicKey k)) else none
  | .createPub _, .fail => some (d, .returned none)
  | .writePub k ino offset rest, .write count =>
    if 0 < count ∧ count ≤ rest.length then
      some (d.writeAt ino offset (rest.take count),
        if count = rest.length then .returned (some (signerOf ed k)) else .writePub k ino (offset + count) (rest.drop count))
    else none
  | .writePub _ _ _ _, .fail => some (d, .returned none)
  | _, _ => none

structure Host where
  disk : Disk
  openings : Nat → Option Opening

def Host.set (s : Host) (i : Nat) (d : Disk) (o : Opening) : Host := ⟨d, Function.update s.openings i (some o)⟩

def step (cipher : KeyCipher) (ed : Ed25519) (s : Host) (i : Nat) (m : Move) : Option Host :=
  match s.openings i, m with
  | none, .start privileged => some (s.set i s.disk ⟨privileged, .openKey⟩)
  | none, _ => none
  | some o, .crash => if o.pc.isLive then some (s.set i s.disk ⟨o.privileged, .crashed o.pc.accepted⟩) else none
  | some o, m => (advance cipher ed o.privileged s.disk o.pc m).map fun (d, pc) => s.set i d ⟨o.privileged, pc⟩

/-- A host before any opening: without a key, with one that can be loaded and the public
half of it or none, or with a public key alone. -/
structure Initial (cipher : KeyCipher) (ed : Ed25519) (s : Host) : Prop where
  idle : ∀ i, s.openings i = none
  key : ∀ ino, s.disk.key = some ino → ino < s.disk.next ∧ ∃ k, loadKey cipher (s.disk.content ino) = some k ∧
    ∀ p, s.disk.pub = some p → s.disk.content p = ed.publicKey k
  temp : ∀ ino, s.disk.temp = some ino → ino < s.disk.next ∧ s.disk.key ≠ some ino ∧ s.disk.pub ≠ some ino
  pub : ∀ ino, s.disk.pub = some ino → ino < s.disk.next ∧ s.disk.key ≠ some ino

/-- Runs whose steps all meet a condition on the state before them. -/
inductive Run (cipher : KeyCipher) (ed : Ed25519) (P : Host → Nat → Move → Prop) : Host → Host → Prop where
  | refl (s : Host) : Run cipher ed P s s
  | tail {s t u : Host} {i : Nat} {m : Move} (h : Run cipher ed P s t) (hp : P t i m)
      (hstep : step cipher ed t i m = some u) : Run cipher ed P s u

/-- A verifying key takes the signatures of a key. -/
def Verifies (ed : Ed25519) (v : Bytes) (k : SecretKey) : Prop := ∀ m, ed.verify v m (ed.sign k m) = true

/-- What the openings so far may rely on: each that returned verifies what any that can sign
signs, and the key file is one that a privileged opening loads, with the key any has accepted. -/
structure Kept (cipher : KeyCipher) (ed : Ed25519) (s : Host) : Prop where
  verifies : ∀ i j o o' signer signer' k, s.openings i = some o → s.openings j = some o' →
    o.pc = .returned (some signer) → o'.pc = .returned (some signer') → signer.signingKey = some k →
      Verifies ed signer'.verifyingKey k
  loads : ∀ i o k, s.openings i = some o → o.pc.accepted = some k →
    ∃ ino, s.disk.key = some ino ∧ loadKey cipher (s.disk.content ino) = some k

/-! ## Key files -/

variable {cipher : KeyCipher} {ed : Ed25519} {k : SecretKey} {n : Nonce}

theorem length_encryptKey : (encryptKey cipher k n).length = 64 := by
  simp [encryptKey, encryptedKeyMagic, cipher.length_sealed, k.length_bytes, n.length_bytes]

theorem magic_isPrefix_encryptKey : encryptedKeyMagic <+: encryptKey cipher k n := by
  rw [encryptKey, List.append_assoc]
  exact List.prefix_append _ _

/-- An encrypted file gives its key back. -/
theorem loadKey_encryptKey : loadKey cipher (encryptKey cipher k n) = some k := by
  have hnonce : ((encryptKey cipher k n).drop 4).take 12 = n.bytes := by
    simp [encryptKey, encryptedKeyMagic, n.length_bytes]
  have hsealed : (encryptKey cipher k n).drop 16 = cipher.sealed n.bytes k.bytes := by
    simp [encryptKey, encryptedKeyMagic, n.length_bytes]
  unfold loadKey decryptKey
  rw [if_pos (List.isPrefixOf_iff_prefix.mpr magic_isPrefix_encryptKey), length_encryptKey, if_neg (by omega), hnonce,
    hsealed, cipher.opened_sealed]
  simp [k.length_bytes]

/-- A file cut short gives none: it is too short to open, and too short for a plaintext key
where even the header is cut. -/
theorem loadKey_cut {file rest : Bytes} (hcut : file ++ rest = encryptKey cipher k n) (hrest : rest ≠ []) :
    loadKey cipher file = none := by
  have hlength : file.length < 64 := by
    have := congrArg List.length hcut
    rw [List.length_append, length_encryptKey] at this
    have := List.length_pos_of_ne_nil hrest
    omega
  unfold loadKey decryptKey
  by_cases hmagic : encryptedKeyMagic.isPrefixOf file = true
  · rw [if_pos hmagic, if_pos hlength]
    rfl
  · have hshort : file.length < 4 := by
      by_contra hlong
      apply hmagic
      rw [List.isPrefixOf_iff_prefix]
      apply List.prefix_of_prefix_length_le magic_isPrefix_encryptKey ⟨rest, hcut⟩
      simp [encryptedKeyMagic]
      omega
    rw [if_neg hmagic, if_neg (by omega)]
    rfl

/-! ## Writing on -/

namespace Disk

variable {d : Disk} {ino x : Nat} {chunk : Bytes}

@[simp] theorem setContent_self (b : Bytes) : (d.setContent ino b).content ino = b := Function.update_self ..

theorem setContent_ne (b : Bytes) (h : x ≠ ino) : (d.setContent ino b).content x = d.content x := Function.update_of_ne h ..

/-- At the end of the file a write appends. -/
theorem writeAt_end {offset : Nat} (h : offset = (d.content ino).length) :
    d.writeAt ino offset chunk = d.setContent ino (d.content ino ++ chunk) := by
  have hdrop : (d.content ino).drop ((d.content ino).length + chunk.length) = [] := List.drop_eq_nil_of_le (by omega)
  unfold writeAt
  simp [h, hdrop]

end Disk

end LinuxHardener.State.Signing
