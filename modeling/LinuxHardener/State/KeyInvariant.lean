import LinuxHardener.State.SigningKey

/-
  What the openings rely on while others run beside them.

  The host's key is settled when its file is created. What each opening relies on is
  stated for each point it can stand at (`PcInv`), against the disk and that key, and
  holds through every change another opening makes: no two write to one file. The one
  place where two can is the temporary file of a migration (`MigrationsApart`).
-/
namespace LinuxHardener.State.Signing

variable {cipher : KeyCipher} {ed : Ed25519}

/-- Between opening the temporary file and renaming it. -/
def Pc.migrating : Pc → Bool
  | .writeTemp _ _ _ _ | .syncTemp _ | .rename _ => true
  | _ => false

/-- A step opens the temporary file only where no other opening is between opening and renaming it. -/
def MigrationsApart (s : Host) (i : Nat) (_ : Move) : Prop :=
  ∀ o k file, s.openings i = some o → o.pc = .openTemp k file →
    ∀ j o', j ≠ i → s.openings j = some o' → o'.pc.migrating = false

/-! ## What is relied on -/

/-- The key file is complete and holds the host's key. -/
def Holds (cipher : KeyCipher) (d : Disk) (K : Option SecretKey) (k : SecretKey) : Prop :=
  K = some k ∧ ∃ ino, d.key = some ino ∧ loadKey cipher (d.content ino) = some k

/-- The disk, given the host's key: the key file is complete or cut short, the public half
is that of the key or the beginning of it, and the three names are three files. -/
structure DiskInv (cipher : KeyCipher) (ed : Ed25519) (d : Disk) (K : Option SecretKey) : Prop where
  key_iff : K = none ↔ d.key = none
  key_file : ∀ k ino, K = some k → d.key = some ino →
    loadKey cipher (d.content ino) = some k ∨ ∃ n rest, rest ≠ [] ∧ d.content ino ++ rest = encryptKey cipher k n
  pub_file : ∀ k ino, K = some k → d.pub = some ino → ∃ rest, d.content ino ++ rest = ed.publicKey k
  key_lt : ∀ ino, d.key = some ino → ino < d.next
  temp_lt : ∀ ino, d.temp = some ino → ino < d.next ∧ d.key ≠ some ino ∧ d.pub ≠ some ino
  pub_lt : ∀ ino, d.pub = some ino → ino < d.next ∧ d.key ≠ some ino

/-- What an opening relies on at each point. -/
def PcInv (cipher : KeyCipher) (ed : Ed25519) (d : Disk) (K : Option SecretKey) : Pc → Prop
  | .openKey | .pubExists | .openForLoad => True
  | .readPub => d.pub ≠ none
  | .readKey ino => ino < d.next ∧ d.temp ≠ some ino ∧ d.pub ≠ some ino ∧
      (d.key = some ino ∨ ∃ k, Holds cipher d K k ∧ loadKey cipher (d.content ino) = some k)
  | .encryptForMigration k | .removeTemp k | .createPub k => Holds cipher d K k
  | .openTemp k file => Holds cipher d K k ∧ ∃ n, file = encryptKey cipher k n
  | .writeTemp k ino offset rest => Holds cipher d K k ∧ (∃ n, d.content ino ++ rest = encryptKey cipher k n) ∧
      offset = (d.content ino).length ∧ ino < d.next ∧ d.key ≠ some ino ∧ d.pub ≠ some ino ∧
      ∀ t, d.temp = some t → t = ino
  | .syncTemp k | .rename k => Holds cipher d K k ∧ ∀ t, d.temp = some t → loadKey cipher (d.content t) = some k
  | .keyExists | .generateKey => K = none → d.pub = none
  | .createKey k file => (K = none → d.pub = none) ∧ ∃ n, file = encryptKey cipher k n
  | .writeKey k ino offset rest => K = some k ∧ d.key = some ino ∧ rest ≠ [] ∧
      (∃ n, d.content ino ++ rest = encryptKey cipher k n) ∧ offset = (d.content ino).length
  | .writePub k ino offset rest => Holds cipher d K k ∧ d.pub = some ino ∧ d.content ino ++ rest = ed.publicKey k ∧
      offset = (d.content ino).length
  | .returned (some signer) =>
    match signer.signingKey with
    | some k => Holds cipher d K k ∧ signer.verifyingKey = ed.publicKey k
    | none => d.pub ≠ none ∧ ∀ k, K = some k → signer.verifyingKey = ed.publicKey k
  | .crashed (some k) => Holds cipher d K k
  | .returned none | .crashed none => True

/-- The file an opening writes as the temporary one. -/
def Pc.tempFile : Pc → Option Nat
  | .writeTemp _ ino _ _ => some ino
  | _ => none

/-- The file an opening reads as the key. -/
def Pc.reading : Pc → Option Nat
  | .readKey ino => some ino
  | _ => none

def Pc.writesKey : Pc → Bool
  | .writeKey _ _ _ _ => true
  | _ => false

def Pc.writesPub : Pc → Bool
  | .writePub _ _ _ _ => true
  | _ => false

/-- Openings that may not stand where they stand at once: two migrating, two writing one
file, and one reading what another writes as a migration. -/
def Clash (p q : Pc) : Prop :=
  (p.migrating = true ∧ q.migrating = true) ∨ (p.writesKey = true ∧ q.writesKey = true) ∨
    (p.writesPub = true ∧ q.writesPub = true) ∨ (∃ ino, p.tempFile = some ino ∧ q.reading = some ino) ∨
      ∃ ino, p.reading = some ino ∧ q.tempFile = some ino

structure Inv (cipher : KeyCipher) (ed : Ed25519) (s : Host) (K : Option SecretKey) : Prop where
  disk : DiskInv cipher ed s.disk K
  pcs : ∀ i o, s.openings i = some o → PcInv cipher ed s.disk K o.pc
  apart : ∀ i j o o', i ≠ j → s.openings i = some o → s.openings j = some o' → ¬ Clash o.pc o'.pc

/-! ## What follows from it -/

theorem PcInv.holds {d : Disk} {K : Option SecretKey} {pc : Pc} {k : SecretKey} (h : PcInv cipher ed d K pc)
    (ha : pc.accepted = some k) : Holds cipher d K k := by
  cases pc with
  | returned r =>
    cases r with
    | none => cases ha
    | some signer =>
      have hk : signer.signingKey = some k := ha
      simp only [PcInv, hk] at h
      exact h.1
  | crashed a =>
    cases a with
    | none => cases ha
    | some a =>
      cases ha
      exact h
  | encryptForMigration k' | removeTemp k' | createPub k' =>
    cases ha
    exact h
  | openTemp k' file | syncTemp k' | rename k' =>
    cases ha
    exact h.1
  | writeTemp k' ino offset rest | writePub k' ino offset rest =>
    cases ha
    exact h.1
  | _ => cases ha

theorem Inv.kept {s : Host} {K : Option SecretKey} (h : Inv cipher ed s K) : Kept cipher ed s where
  verifies i j o o' signer signer' k hi hj ho ho' hk := by
    have hsigner := h.pcs i o hi
    rw [ho] at hsigner
    have hK := (PcInv.holds hsigner hk).1
    have hother := h.pcs j o' hj
    rw [ho'] at hother
    have hv : signer'.verifyingKey = ed.publicKey k := by
      cases hk' : signer'.signingKey with
      | some k' =>
        simp only [PcInv, hk'] at hother
        have := hother.1.1
        rw [hK] at this
        cases this
        exact hother.2
      | none =>
        simp only [PcInv, hk'] at hother
        exact hother.2 k hK
    intro m
    rw [hv]
    exact ed.verify_sign k m
  loads i o k hi hk := (PcInv.holds (h.pcs i o hi) hk).2

theorem Inv.initial {s : Host} (h : Initial cipher ed s) : ∃ K, Inv cipher ed s K := by
  have hnone : ∀ i o, s.openings i ≠ some o := by
    intro i o hi
    rw [h.idle i] at hi
    cases hi
  cases hkey : s.disk.key with
  | none =>
    refine ⟨none, ⟨⟨by simp [hkey], ?_, ?_, ?_, h.temp, h.pub⟩, ?_, ?_⟩⟩
    · intro k ino hK
      cases hK
    · intro k ino hK
      cases hK
    · intro ino hino
      rw [hkey] at hino
      cases hino
    · exact fun i o hi => absurd hi (hnone i o)
    · exact fun i j o o' _ hi => absurd hi (hnone i o)
  | some ino =>
    obtain ⟨hlt, k, hload, hpub⟩ := h.key ino hkey
    refine ⟨some k, ⟨⟨by simp [hkey], ?_, ?_, ?_, h.temp, h.pub⟩, ?_, ?_⟩⟩
    · intro k' ino' hK hino
      cases hK
      rw [hkey] at hino
      cases hino
      exact .inl hload
    · intro k' p hK hp
      cases hK
      exact ⟨[], by simp [hpub p hp]⟩
    · intro ino' hino
      rw [hkey] at hino
      cases hino
      exact hlt
    · exact fun i o hi => absurd hi (hnone i o)
    · exact fun i j o o' _ hi => absurd hi (hnone i o)

/-! ## The openings that do not move -/

/-- The points where an opening relies on what one file contains. -/
def Pc.usesFile : Pc → Bool
  | .readKey _ | .writeTemp _ _ _ _ | .syncTemp _ | .rename _ | .writeKey _ _ _ _ | .writePub _ _ _ _ => true
  | _ => false

theorem Clash.symm {p q : Pc} (h : Clash p q) : Clash q p := by
  obtain ⟨hp, hq⟩ | ⟨hp, hq⟩ | ⟨hp, hq⟩ | ⟨ino, hp, hq⟩ | ⟨ino, hp, hq⟩ := h
  · exact .inl ⟨hq, hp⟩
  · exact .inr (.inl ⟨hq, hp⟩)
  · exact .inr (.inr (.inl ⟨hq, hp⟩))
  · exact .inr (.inr (.inr (.inr ⟨ino, hq, hp⟩)))
  · exact .inr (.inr (.inr (.inl ⟨ino, hq, hp⟩)))

theorem not_clash {p q : Pc} (h : p.usesFile = false) : ¬ Clash p q := by
  cases p <;> simp_all [Clash, Pc.usesFile, Pc.migrating, Pc.writesKey, Pc.writesPub, Pc.tempFile, Pc.reading]

/-- What an opening beside a moving one may be: it does not clash, and it is not migrating
where the other opens the temporary file. -/
def Beside (p q : Pc) : Prop := ¬ Clash p q ∧ ∀ k file, p = .openTemp k file → q.migrating = false

variable {d d' : Disk} {K K' : Option SecretKey} {q : Pc}

/-- A file that is cut short holds no key. -/
theorem not_holds {k k' : SecretKey} {ino : Nat} {rest : Bytes} {n : Nonce} (hkey : d.key = some ino) (hrest : rest ≠ [])
    (hcut : d.content ino ++ rest = encryptKey cipher k n) : ¬ Holds cipher d K k' := by
  intro h
  obtain ⟨_, x, hx, hload⟩ := h
  rw [hkey] at hx
  cases hx
  rw [loadKey_cut hcut hrest] at hload
  cases hload

/-- What a step may do under the openings that rely on no single file. -/
structure Grows (cipher : KeyCipher) (d d' : Disk) (K K' : Option SecretKey) : Prop where
  pub : d.pub ≠ none → d'.pub ≠ none
  holds : ∀ k, Holds cipher d K k → Holds cipher d' K' k
  unkeyed : K' = none → K = none ∧ (d.pub = none → d'.pub = none)
  published : d.pub ≠ none → K' = K

theorem PcInv.grows (hg : Grows cipher d d' K K') (hu : q.usesFile = false) (hq : PcInv cipher ed d K q) :
    PcInv cipher ed d' K' q := by
  have hkeyless : (K = none → d.pub = none) → K' = none → d'.pub = none := by
    intro h hK'
    obtain ⟨hK, hpub⟩ := hg.unkeyed hK'
    exact hpub (h hK)
  cases q with
  | openKey | pubExists | openForLoad => trivial
  | readPub => exact hg.pub hq
  | encryptForMigration k | removeTemp k | createPub k => exact hg.holds k hq
  | openTemp k file => exact ⟨hg.holds k hq.1, hq.2⟩
  | keyExists | generateKey => exact hkeyless hq
  | createKey k file => exact ⟨hkeyless hq.1, hq.2⟩
  | returned r =>
    cases r with
    | none => trivial
    | some signer =>
      cases hk : signer.signingKey with
      | some k =>
        simp only [PcInv, hk] at hq ⊢
        exact ⟨hg.holds k hq.1, hq.2⟩
      | none =>
        simp only [PcInv, hk] at hq ⊢
        rw [hg.published hq.1]
        exact ⟨hg.pub hq.1, hq.2⟩
  | crashed a =>
    cases a with
    | none => trivial
    | some k => exact hg.holds k hq
  | readKey _ | writeTemp _ _ _ _ | syncTemp _ | rename _ | writeKey _ _ _ _ | writePub _ _ _ _ => cases hu

/-- The contents of the files there are stay as they were. -/
structure Frame (d d' : Disk) : Prop where
  content : ∀ x, x < d.next → d'.content x = d.content x
  next : d.next ≤ d'.next

theorem Disk.alloc_content {x : Nat} (h : x < d.next) : d.alloc.content x = d.content x :=
  Disk.setContent_ne _ (Nat.ne_of_lt h)

/-- The key file under another name table: the same file, or one that holds the same key. -/
theorem Frame.holds (hf : Frame d d') (hd : DiskInv cipher ed d K) (hkey : d'.key = d.key) (k : SecretKey)
    (h : Holds cipher d K k) : Holds cipher d' K k := by
  obtain ⟨hK, ino, hino, hload⟩ := h
  exact ⟨hK, ino, hkey ▸ hino, by rw [hf.content ino (hd.key_lt ino hino)]; exact hload⟩

/-! ### Writing into one file -/

/-- A write into a file that is not the key's. -/
theorem Grows.setContent {ino : Nat} {b : Bytes} (hkey : d.key ≠ some ino) : Grows cipher d (d.setContent ino b) K K where
  pub := id
  holds := by
    intro k h
    obtain ⟨hK, x, hx, hload⟩ := h
    have hne : x ≠ ino := by
      intro he
      exact hkey (he ▸ hx)
    exact ⟨hK, x, hx, by rw [Disk.setContent_ne b hne]; exact hload⟩
  unkeyed h := ⟨h, id⟩
  published _ := rfl

theorem DiskInv.setContent (hd : DiskInv cipher ed d K) {ino : Nat} {b : Bytes}
    (hkey : ∀ k, K = some k → d.key = some ino →
      loadKey cipher b = some k ∨ ∃ n rest, rest ≠ [] ∧ b ++ rest = encryptKey cipher k n)
    (hpub : ∀ k, K = some k → d.pub = some ino → ∃ rest, b ++ rest = ed.publicKey k) :
    DiskInv cipher ed (d.setContent ino b) K where
  key_iff := hd.key_iff
  key_file := by
    intro k x hK hx
    by_cases he : x = ino
    · subst he
      rw [Disk.setContent_self]
      exact hkey k hK hx
    · rw [Disk.setContent_ne b he]
      exact hd.key_file k x hK hx
  pub_file := by
    intro k x hK hx
    by_cases he : x = ino
    · subst he
      rw [Disk.setContent_self]
      exact hpub k hK hx
    · rw [Disk.setContent_ne b he]
      exact hd.pub_file k x hK hx
  key_lt := hd.key_lt
  temp_lt := hd.temp_lt
  pub_lt := hd.pub_lt

/-- An opening that uses another file goes on as before. -/
theorem PcInv.setContent {ino : Nat} {b : Bytes} (hq : PcInv cipher ed d K q) (hkey : d.key ≠ some ino)
    (hread : q.reading ≠ some ino) (htemp : q.migrating = true → d.temp ≠ some ino ∧ q.tempFile ≠ some ino)
    (hpub : q.writesPub = true → d.pub ≠ some ino) : PcInv cipher ed (d.setContent ino b) K q := by
  have hg : Grows cipher d (d.setContent ino b) K K := .setContent hkey
  cases q with
  | readKey x =>
    have hne : x ≠ ino := fun he => hread (congrArg some he)
    rw [PcInv] at hq ⊢
    obtain ⟨hlt, ht, hp, hkept⟩ := hq
    rw [Disk.setContent_ne b hne]
    refine ⟨hlt, ht, hp, ?_⟩
    obtain hx | ⟨k, hk, hload⟩ := hkept
    · exact .inl hx
    · exact .inr ⟨k, hg.holds k hk, hload⟩
  | writeTemp k x offset rest =>
    have hne : x ≠ ino := fun he => (htemp rfl).2 (congrArg some he)
    rw [PcInv] at hq ⊢
    rw [Disk.setContent_ne b hne]
    exact ⟨hg.holds k hq.1, hq.2⟩
  | syncTemp k | rename k =>
    refine ⟨hg.holds k hq.1, ?_⟩
    intro t ht
    have hne : t ≠ ino := fun he => (htemp rfl).1 (he ▸ ht)
    rw [Disk.setContent_ne b hne]
    exact hq.2 t ht
  | writeKey k x offset rest =>
    have hne : x ≠ ino := fun he => hkey (he ▸ hq.2.1)
    rw [PcInv] at hq ⊢
    rw [Disk.setContent_ne b hne]
    exact hq
  | writePub k x offset rest =>
    have hne : x ≠ ino := fun he => hpub rfl (he ▸ hq.2.1)
    rw [PcInv] at hq ⊢
    rw [Disk.setContent_ne b hne]
    exact ⟨hg.holds k hq.1, hq.2⟩
  | _ => exact hq.grows hg rfl

/-- While the key file is cut short, a write that goes on with it disturbs no other opening. -/
theorem PcInv.setKey {k : SecretKey} {ino : Nat} {rest b : Bytes} {n : Nonce} (hkey : d.key = some ino) (hrest : rest ≠ [])
    (hcut : d.content ino ++ rest = encryptKey cipher k n) (hq : PcInv cipher ed d K q) (hother : q.writesKey = false) :
    PcInv cipher ed (d.setContent ino b) K q := by
  have hnone : ∀ k', ¬ Holds cipher d K k' := fun _ => not_holds hkey hrest hcut
  have hg : Grows cipher d (d.setContent ino b) K K :=
    ⟨id, fun k' h => absurd h (hnone k'), fun h => ⟨h, id⟩, fun _ => rfl⟩
  cases q with
  | readKey x =>
    obtain ⟨hlt, ht, hp, hx | ⟨k', hk, _⟩⟩ := hq
    · exact ⟨hlt, ht, hp, .inl hx⟩
    · exact absurd hk (hnone k')
  | writeTemp k' _ _ _ | syncTemp k' | rename k' | writePub k' _ _ _ => exact absurd hq.1 (hnone k')
  | writeKey _ _ _ _ => cases hother
  | _ => exact hq.grows hg rfl

/-! ### Changing a name -/

/-- The other two names stay, and the temporary one is free, gone, or on a new file. -/
theorem PcInv.setTemp (hd : DiskInv cipher ed d K) (hq : PcInv cipher ed d K q) (hf : Frame d d') (hkey : d'.key = d.key)
    (hpub : d'.pub = d.pub) (htemp : d'.temp = none ∨ q.migrating = false ∧ d'.temp = some d.next) :
    PcInv cipher ed d' K q := by
  have hholds := hf.holds hd hkey
  have hg : Grows cipher d d' K K := ⟨by rw [hpub]; exact id, hholds, fun h => ⟨h, by rw [hpub]; exact id⟩, fun _ => rfl⟩
  cases q with
  | readKey x =>
    rw [PcInv] at hq ⊢
    obtain ⟨hlt, _, hp, hkept⟩ := hq
    rw [hkey, hpub, hf.content x hlt]
    refine ⟨Nat.lt_of_lt_of_le hlt hf.next, ?_, hp, ?_⟩
    · obtain htemp | ⟨_, htemp⟩ := htemp
      · simp [htemp]
      · rw [htemp]
        intro he
        have : d.next = x := Option.some.inj he
        omega
    · obtain hx | ⟨k, hk, hload⟩ := hkept
      · exact .inl hx
      · exact .inr ⟨k, hholds k hk, hload⟩
  | writeTemp k x offset rest =>
    rw [PcInv] at hq ⊢
    obtain ⟨hk, hfile, hoffset, hlt, hkx, hpx, _⟩ := hq
    obtain htemp | ⟨hu, _⟩ := htemp
    · rw [hkey, hpub, hf.content x hlt]
      exact ⟨hholds k hk, hfile, hoffset, Nat.lt_of_lt_of_le hlt hf.next, hkx, hpx, by simp [htemp]⟩
    · cases hu
  | syncTemp k | rename k =>
    obtain htemp | ⟨hu, _⟩ := htemp
    · exact ⟨hholds k hq.1, by simp [htemp]⟩
    · cases hu
  | writeKey k x offset rest =>
    rw [PcInv] at hq ⊢
    rw [hkey, hf.content x (hd.key_lt x hq.2.1)]
    exact hq
  | writePub k x offset rest =>
    rw [PcInv] at hq ⊢
    rw [hpub, hf.content x (hd.pub_lt x hq.2.1).1]
    exact ⟨hholds k hq.1, hq.2⟩
  | _ => exact hq.grows hg rfl

theorem DiskInv.setTemp (hd : DiskInv cipher ed d K) (hf : Frame d d') (hkey : d'.key = d.key) (hpub : d'.pub = d.pub)
    (htemp : d'.temp = none ∨ d'.temp = some d.next ∧ d.next < d'.next) : DiskInv cipher ed d' K where
  key_iff := by rw [hkey]; exact hd.key_iff
  key_file := by
    intro k x hK hx
    rw [hkey] at hx
    rw [hf.content x (hd.key_lt x hx)]
    exact hd.key_file k x hK hx
  pub_file := by
    intro k x hK hx
    rw [hpub] at hx
    rw [hf.content x (hd.pub_lt x hx).1]
    exact hd.pub_file k x hK hx
  key_lt := by
    intro x hx
    rw [hkey] at hx
    exact Nat.lt_of_lt_of_le (hd.key_lt x hx) hf.next
  temp_lt := by
    intro x hx
    obtain htemp | ⟨htemp, hlt⟩ := htemp
    · rw [htemp] at hx
      cases hx
    · rw [htemp] at hx
      cases hx
      rw [hkey, hpub]
      refine ⟨hlt, ?_, ?_⟩
      · intro h
        exact Nat.lt_irrefl _ (hd.key_lt _ h)
      · intro h
        exact Nat.lt_irrefl _ (hd.pub_lt _ h).1
  pub_lt := by
    intro x hx
    rw [hpub] at hx
    rw [hkey]
    exact ⟨Nat.lt_of_lt_of_le (hd.pub_lt x hx).1 hf.next, (hd.pub_lt x hx).2⟩

/-- The temporary file in the key's place. -/
def Disk.renamed (d : Disk) (t : Nat) : Disk := { d with key := some t, temp := none }

theorem Grows.renamed {k : SecretKey} {t : Nat} (hk : Holds cipher d K k) (hload : loadKey cipher (d.content t) = some k) :
    Grows cipher d (d.renamed t) K K where
  pub := id
  holds := by
    intro k' h
    have : k' = k := Option.some.inj (h.1.symm.trans hk.1)
    subst this
    exact ⟨hk.1, t, rfl, hload⟩
  unkeyed h := ⟨h, id⟩
  published _ := rfl

/-- What reads the file that was the key's still reads the key. -/
theorem PcInv.renamed {k : SecretKey} {t : Nat} (hk : Holds cipher d K k)
    (hload : loadKey cipher (d.content t) = some k) (hq : PcInv cipher ed d K q) (hu : q.migrating = false) :
    PcInv cipher ed (d.renamed t) K q := by
  have hg := Grows.renamed hk hload
  cases q with
  | readKey x =>
    rw [PcInv] at hq ⊢
    obtain ⟨hlt, _, hp, hkept⟩ := hq
    refine ⟨hlt, by simp [Disk.renamed], hp, .inr ?_⟩
    obtain hx | ⟨k', hk', hold⟩ := hkept
    · obtain ⟨_, ino, hino, hold⟩ := id hk
      have : x = ino := Option.some.inj (hx.symm.trans hino)
      exact ⟨k, hg.holds k hk, this ▸ hold⟩
    · exact ⟨k', hg.holds k' hk', hold⟩
  | writeKey k' x offset rest =>
    obtain ⟨_, hkey, hrest, ⟨n, hcut⟩, _⟩ := hq
    exact absurd hk (not_holds hkey hrest hcut)
  | writePub k' x offset rest => exact ⟨hg.holds k' hq.1, hq.2⟩
  | writeTemp _ _ _ _ | syncTemp _ | rename _ => cases hu
  | _ => exact hq.grows hg rfl

theorem DiskInv.renamed {k : SecretKey} {t : Nat} (hd : DiskInv cipher ed d K) (hk : Holds cipher d K k)
    (htemp : d.temp = some t) (hload : loadKey cipher (d.content t) = some k) : DiskInv cipher ed (d.renamed t) K where
  key_iff := by simp [Disk.renamed, hk.1]
  key_file := by
    intro k' x hK hx
    cases hx
    have : k' = k := Option.some.inj (hK.symm.trans hk.1)
    exact .inl (this ▸ hload)
  pub_file := hd.pub_file
  key_lt := by
    intro x hx
    cases hx
    exact (hd.temp_lt t htemp).1
  temp_lt := by
    intro x hx
    cases hx
  pub_lt := by
    intro x hx
    refine ⟨(hd.pub_lt x hx).1, ?_⟩
    intro he
    cases he
    exact (hd.temp_lt t htemp).2.2 hx

/-- The host's key is settled: a new, empty key file. -/
def Disk.keyCreated (d : Disk) : Disk := { d.alloc with key := some d.next }

theorem not_holds_none {k : SecretKey} : ¬ Holds cipher d none k := by
  intro h
  cases h.1

/-- Before there is a key, nobody relies on one; who waited for the answer has it now. -/
theorem PcInv.keyCreated {k : SecretKey} (hd : DiskInv cipher ed d none) (hpub : d.pub = none)
    (hq : PcInv cipher ed d none q) : PcInv cipher ed d.keyCreated (some k) q := by
  have hkey : d.key = none := hd.key_iff.mp rfl
  have hg : Grows cipher d d.keyCreated none (some k) :=
    ⟨fun h => absurd hpub h, fun _ h => absurd h not_holds_none, (nomatch ·), fun h => absurd hpub h⟩
  cases q with
  | readKey x =>
    obtain ⟨_, _, _, hx | ⟨_, hk, _⟩⟩ := hq
    · rw [hkey] at hx
      cases hx
    · exact absurd hk not_holds_none
  | writeTemp _ _ _ _ | syncTemp _ | rename _ | writePub _ _ _ _ => exact absurd hq.1 not_holds_none
  | writeKey _ _ _ _ => cases hq.1
  | _ => exact hq.grows hg rfl

theorem DiskInv.keyCreated {k : SecretKey} {n : Nonce} (hd : DiskInv cipher ed d none) (hpub : d.pub = none) :
    DiskInv cipher ed d.keyCreated (some k) where
  key_iff := by simp [Disk.keyCreated]
  key_file := by
    intro k' x hK hx
    cases hK
    cases hx
    refine .inr ⟨n, encryptKey cipher k n, ?_, ?_⟩
    · intro h
      have := congrArg List.length h
      simp [length_encryptKey] at this
    · simp [Disk.keyCreated, Disk.alloc]
  pub_file := by
    intro k' x _ hx
    have : d.pub = some x := hx
    rw [hpub] at this
    cases this
  key_lt := by
    intro x hx
    cases hx
    exact Nat.lt_succ_self _
  temp_lt := by
    intro x hx
    obtain ⟨hlt, _, hp⟩ := hd.temp_lt x hx
    refine ⟨Nat.lt_succ_of_lt hlt, ?_, hp⟩
    intro he
    have : d.next = x := Option.some.inj he
    omega
  pub_lt := by
    intro x hx
    have : d.pub = some x := hx
    rw [hpub] at this
    cases this

/-- A new, empty file for the public half. -/
def Disk.pubCreated (d : Disk) : Disk := { d.alloc with pub := some d.next }

theorem Frame.alloc : Frame d d.alloc := ⟨fun _ h => Disk.alloc_content h, Nat.le_succ _⟩

theorem Frame.pubCreated : Frame d d.pubCreated := ⟨fun _ h => Disk.alloc_content h, Nat.le_succ _⟩

theorem PcInv.pubCreated {k : SecretKey} (hd : DiskInv cipher ed d K) (hk : Holds cipher d K k) (hpub : d.pub = none)
    (hq : PcInv cipher ed d K q) : PcInv cipher ed d.pubCreated K q := by
  have hf : Frame d d.pubCreated := .pubCreated
  have hholds := hf.holds hd rfl
  have hg : Grows cipher d d.pubCreated K K := by
    refine ⟨by simp [Disk.pubCreated], hholds, ?_, fun _ => rfl⟩
    intro hK
    rw [hk.1] at hK
    cases hK
  cases q with
  | readKey x =>
    rw [PcInv] at hq ⊢
    obtain ⟨hlt, ht, _, hkept⟩ := hq
    rw [hf.content x hlt]
    refine ⟨Nat.lt_succ_of_lt hlt, ht, ?_, ?_⟩
    · intro he
      have : d.next = x := Option.some.inj he
      omega
    · obtain hx | ⟨k', hk', hold⟩ := hkept
      · exact .inl hx
      · exact .inr ⟨k', hholds k' hk', hold⟩
  | writeTemp k' x offset rest =>
    rw [PcInv] at hq ⊢
    obtain ⟨hk', hfile, hoffset, hlt, hkx, _, htemp⟩ := hq
    rw [hf.content x hlt]
    refine ⟨hholds k' hk', hfile, hoffset, Nat.lt_succ_of_lt hlt, hkx, ?_, htemp⟩
    intro he
    have : d.next = x := Option.some.inj he
    omega
  | syncTemp k' | rename k' =>
    refine ⟨hholds k' hq.1, ?_⟩
    intro t ht
    rw [hf.content t (hd.temp_lt t ht).1]
    exact hq.2 t ht
  | writeKey k' x offset rest =>
    obtain ⟨_, hkey, hrest, ⟨n, hcut⟩, _⟩ := hq
    exact absurd hk (not_holds hkey hrest hcut)
  | writePub k' x offset rest =>
    have := hq.2.1
    rw [hpub] at this
    cases this
  | _ => exact hq.grows hg rfl

theorem DiskInv.pubCreated (hd : DiskInv cipher ed d K) : DiskInv cipher ed d.pubCreated K where
  key_iff := hd.key_iff
  key_file := by
    intro k x hK hx
    rw [Frame.pubCreated.content x (hd.key_lt x hx)]
    exact hd.key_file k x hK hx
  pub_file := by
    intro k x _ hx
    cases hx
    exact ⟨ed.publicKey k, by simp [Disk.pubCreated, Disk.alloc]⟩
  key_lt x hx := Nat.lt_succ_of_lt (hd.key_lt x hx)
  temp_lt := by
    intro x hx
    obtain ⟨hlt, hkx, _⟩ := hd.temp_lt x hx
    refine ⟨Nat.lt_succ_of_lt hlt, hkx, ?_⟩
    intro he
    have : d.next = x := Option.some.inj he
    omega
  pub_lt := by
    intro x hx
    cases hx
    refine ⟨Nat.lt_succ_self _, ?_⟩
    intro he
    exact Nat.lt_irrefl _ (hd.key_lt _ he)

end LinuxHardener.State.Signing
