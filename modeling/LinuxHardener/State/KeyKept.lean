import LinuxHardener.State.KeyInvariant

/-
  Whether the signing key survives the openings that run side by side.

  A step of one opening keeps what it relies on itself (`Moves.own`), what the others do,
  and that no two of them clash; the invariant goes through runs by induction. What is
  proved: `key_kept` — where no migration opens the temporary file while another is
  between opening and renaming it, the key is kept; `key_lost_by_two_migrations` —
  otherwise it can be lost.
-/
namespace LinuxHardener.State.Signing

variable {cipher : KeyCipher} {ed : Ed25519} {d d' : Disk} {K K' : Option SecretKey} {q : Pc}

/-! ## The opening that moves -/

/-- One step of an opening: what it relies on afterwards, and what the others beside it do. -/
structure Moves (cipher : KeyCipher) (ed : Ed25519) (d : Disk) (K : Option SecretKey) (p : Pc) (d' : Disk)
    (K' : Option SecretKey) (p' : Pc) : Prop where
  disk : DiskInv cipher ed d' K'
  own : PcInv cipher ed d' K' p'
  others : ∀ q, PcInv cipher ed d K q → Beside p q → PcInv cipher ed d' K' q
  apart : ∀ q, PcInv cipher ed d K q → Beside p q → ¬ Clash p' q

variable {p p' : Pc}

/-- A step that leaves the disk as it is, to a point that relies on no single file. -/
theorem Moves.stay (hd : DiskInv cipher ed d K) (hown : PcInv cipher ed d K p') (hu : p'.usesFile = false) :
    Moves cipher ed d K p d K p' :=
  ⟨hd, hown, fun _ hq _ => hq, fun _ _ _ => not_clash hu⟩

/-- Every opening that loaded the key returns it, whatever became of its migration. -/
theorem Moves.keeps {k : SecretKey} (hd : DiskInv cipher ed d K) (hk : Holds cipher d K k) :
    Moves cipher ed d K p d K (.returned (some (signerOf ed k))) :=
  .stay hd ⟨hk, rfl⟩ rfl

theorem not_clash_migrating (hp : p.migrating = true) (hb : ¬ Clash p q) : q.migrating = false := by
  cases h : q.migrating with
  | false => rfl
  | true => exact absurd (.inl ⟨hp, h⟩) hb

theorem clash_migrating (hp : p.tempFile = none) (hr : p.reading = none) (hkey : p.writesKey = false) (hpub : p.writesPub = false)
    (h : Clash p q) : p.migrating = true ∧ q.migrating = true := by
  simpa [Clash, hp, hr, hkey, hpub] using h

/-- Reading the public half: what there is of it is the key's, so the whole of it is. -/
theorem pcInv_loadVerifierOnly {ino : Nat} (hd : DiskInv cipher ed d K) (hpub : d.pub = some ino) :
    PcInv cipher ed d K (.returned (loadVerifierOnly ed (d.content ino))) := by
  unfold loadVerifierOnly
  split
  · trivial
  · rename_i hlength
    split
    · refine ⟨by simp [hpub], ?_⟩
      intro k hK
      obtain ⟨rest, hrest⟩ := hd.pub_file k ino hK hpub
      have : rest.length = 0 := by
        have := congrArg List.length hrest
        rw [List.length_append, ed.length_publicKey] at this
        omega
      rw [← hrest, List.eq_nil_of_length_eq_zero this, List.append_nil]
    · trivial

/-- The key file read while it is the key's, or after: what loads is the host's key. -/
theorem holds_of_read {ino : Nat} {k : SecretKey} (hd : DiskInv cipher ed d K) (hp : PcInv cipher ed d K (.readKey ino))
    (hload : loadKey cipher (d.content ino) = some k) : Holds cipher d K k := by
  obtain ⟨_, _, _, hkey | ⟨k', hk', hload'⟩⟩ := hp
  · refine ⟨?_, ino, hkey, hload⟩
    cases hK : K with
    | none =>
      rw [hd.key_iff.mp hK] at hkey
      cases hkey
    | some k' =>
      obtain hfile | ⟨n, rest, hrest, hcut⟩ := hd.key_file k' ino hK hkey
      · rw [hfile] at hload
        exact hload
      · rw [loadKey_cut hcut hrest] at hload
        cases hload
  · rw [hload'] at hload
    cases hload
    exact hk'

/-! ### Three writes -/

/-- What is left to write after a write, and where. -/
structure Written (d : Disk) (ino offset : Nat) (rest : Bytes) (count : Nat) (file b : Bytes) : Prop where
  disk : d.writeAt ino offset (rest.take count) = d.setContent ino b
  file : b ++ rest.drop count = file
  offset : offset + count = b.length

theorem written {ino offset count : Nat} {rest file : Bytes} (hoffset : offset = (d.content ino).length)
    (hfile : d.content ino ++ rest = file) (hcount : count ≤ rest.length) :
    Written d ino offset rest count file (d.content ino ++ rest.take count) where
  disk := Disk.writeAt_end hoffset
  file := by rw [List.append_assoc, List.take_append_drop, hfile]
  offset := by
    rw [List.length_append, List.length_take, hoffset]
    omega

theorem Moves.writeTemp {k : SecretKey} {ino offset count : Nat} {rest : Bytes} (hd : DiskInv cipher ed d K)
    (hp : PcInv cipher ed d K (.writeTemp k ino offset rest)) (hcount : 0 < count ∧ count ≤ rest.length) :
    Moves cipher ed d K (.writeTemp k ino offset rest) (d.writeAt ino offset (rest.take count)) K
      (if count = rest.length then .syncTemp k else .writeTemp k ino (offset + count) (rest.drop count)) := by
  obtain ⟨hk, ⟨n, hfile⟩, hoffset, hlt, hkey, hpub, htemp⟩ := hp
  obtain ⟨hdisk, hrest, hoff⟩ := written hoffset hfile hcount.2
  rw [hdisk]
  have hholds : Holds cipher (d.setContent ino (d.content ino ++ rest.take count)) K k :=
    (Grows.setContent hkey).holds k hk
  refine ⟨hd.setContent ?_ ?_, ?_, ?_, ?_⟩
  · exact fun _ _ h => absurd h hkey
  · exact fun _ _ h => absurd h hpub
  · split
    · refine ⟨hholds, ?_⟩
      intro t ht
      rename_i hall
      rw [htemp t ht, Disk.setContent_self, ← List.append_nil (_ ++ _), ← List.drop_length (l := rest), ← hall, hrest]
      exact loadKey_encryptKey
    · rw [PcInv, Disk.setContent_self]
      exact ⟨hholds, ⟨n, hrest⟩, hoff, hlt, hkey, hpub, htemp⟩
  · intro q hq hb
    have hu := not_clash_migrating rfl hb.1
    apply hq.setContent hkey
    · exact fun h => hb.1 (.inr (.inr (.inr (.inl ⟨ino, rfl, h⟩))))
    · intro h
      rw [hu] at h
      cases h
    · exact fun _ => hpub
  · intro q hq hb
    have hu := not_clash_migrating rfl hb.1
    split
    · intro h
      have := (clash_migrating rfl rfl rfl rfl h).2
      rw [hu] at this
      cases this
    · exact hb.1

theorem Moves.writeKey {k : SecretKey} {ino offset count : Nat} {rest : Bytes} (hd : DiskInv cipher ed d K)
    (hp : PcInv cipher ed d K (.writeKey k ino offset rest)) (hcount : 0 < count ∧ count ≤ rest.length) :
    Moves cipher ed d K (.writeKey k ino offset rest) (d.writeAt ino offset (rest.take count)) K
      (if count = rest.length then .createPub k else .writeKey k ino (offset + count) (rest.drop count)) := by
  obtain ⟨hK, hkey, hne, ⟨n, hfile⟩, hoffset⟩ := hp
  obtain ⟨hdisk, hrest, hoff⟩ := written hoffset hfile hcount.2
  rw [hdisk]
  have hwhole : count = rest.length → loadKey cipher (d.content ino ++ rest.take count) = some k := by
    intro hall
    rw [← List.append_nil (_ ++ _), ← List.drop_length (l := rest), ← hall, hrest]
    exact loadKey_encryptKey
  have hcut : count ≠ rest.length → rest.drop count ≠ [] := by
    intro hpart h
    have := List.drop_eq_nil_iff.mp h
    omega
  refine ⟨hd.setContent ?_ ?_, ?_, ?_, ?_⟩
  · intro k' hK' _
    have : k' = k := Option.some.inj (hK'.symm.trans hK)
    subst this
    by_cases hall : count = rest.length
    · exact .inl (hwhole hall)
    · exact .inr ⟨n, rest.drop count, hcut hall, hrest⟩
  · intro k' _ hp
    exact absurd hkey (hd.pub_lt ino hp).2
  · split
    · rename_i hall
      exact ⟨hK, ino, hkey, by rw [Disk.setContent_self]; exact hwhole hall⟩
    · rename_i hpart
      rw [PcInv, Disk.setContent_self]
      exact ⟨hK, hkey, hcut hpart, ⟨n, hrest⟩, hoff⟩
  · intro q hq hb
    apply hq.setKey hkey hne hfile
    cases h : q.writesKey with
    | false => rfl
    | true => exact absurd (.inr (.inl ⟨rfl, h⟩)) hb.1
  · intro q hq hb
    split
    · exact not_clash rfl
    · exact hb.1

theorem Moves.writePub {k : SecretKey} {ino offset count : Nat} {rest : Bytes} (hd : DiskInv cipher ed d K)
    (hp : PcInv cipher ed d K (.writePub k ino offset rest)) (hcount : 0 < count ∧ count ≤ rest.length) :
    Moves cipher ed d K (.writePub k ino offset rest) (d.writeAt ino offset (rest.take count)) K
      (if count = rest.length then .returned (some (signerOf ed k))
        else .writePub k ino (offset + count) (rest.drop count)) := by
  obtain ⟨hk, hpub, hfile, hoffset⟩ := hp
  obtain ⟨hdisk, hrest, hoff⟩ := written hoffset hfile hcount.2
  rw [hdisk]
  have hkey := (hd.pub_lt ino hpub).2
  have hholds : Holds cipher (d.setContent ino (d.content ino ++ rest.take count)) K k :=
    (Grows.setContent hkey).holds k hk
  refine ⟨hd.setContent ?_ ?_, ?_, ?_, ?_⟩
  · exact fun _ _ h => absurd h hkey
  · intro k' hK' _
    have : k' = k := Option.some.inj (hK'.symm.trans hk.1)
    subst this
    exact ⟨rest.drop count, hrest⟩
  · split
    · exact ⟨hholds, rfl⟩
    · rw [PcInv, Disk.setContent_self]
      exact ⟨hholds, hpub, hrest, hoff⟩
  · intro q hq hb
    apply hq.setContent hkey
    · cases q with
      | readKey x =>
        intro h
        cases h
        exact hq.2.2.1 hpub
      | _ => intro h; cases h
    · intro _
      refine ⟨fun h => (hd.temp_lt ino h).2.2 hpub, ?_⟩
      cases q with
      | writeTemp k' x offset' rest' =>
        intro h
        cases h
        exact hq.2.2.2.2.2.1 hpub
      | _ => intro h; cases h
    · intro h
      exact absurd (.inr (.inr (.inl ⟨rfl, h⟩))) hb.1
  · intro q hq hb
    split
    · exact not_clash rfl
    · exact hb.1

/-! ### Other steps that change the disk -/

/-- The temporary file is opened: the one there is emptied, or a new one is made. Nobody
reads it as the key, and by the condition nobody else is migrating. -/
theorem Moves.openTemp {k : SecretKey} {file : Bytes} {ino : Nat} (hd : DiskInv cipher ed d K)
    (hp : PcInv cipher ed d K (.openTemp k file))
    (hopen : d.temp = some ino ∧ d' = d.setContent ino [] ∨
      d.temp = none ∧ ino = d.next ∧ d' = { d.alloc with temp := some d.next }) :
    Moves cipher ed d K (.openTemp k file) d' K (.writeTemp k ino 0 file) := by
  obtain ⟨hk, n, rfl⟩ := hp
  have hreading : ∀ q, PcInv cipher ed d K q → q.reading ≠ some ino := by
    intro q hq h
    cases q with
    | readKey x =>
      cases h
      obtain ⟨htemp, _⟩ | ⟨_, rfl, _⟩ := hopen
      · exact hq.2.1 htemp
      · exact Nat.lt_irrefl _ hq.1
    | _ => cases h
  have happart : ∀ q, PcInv cipher ed d K q → Beside (.openTemp k (encryptKey cipher k n)) q →
      ¬ Clash (.writeTemp k ino 0 (encryptKey cipher k n)) q := by
    intro q hq hb h
    obtain ⟨_, hu⟩ | ⟨h, _⟩ | ⟨h, _⟩ | ⟨x, hx, hread⟩ | ⟨x, h, _⟩ := h
    · rw [hb.2 k _ rfl] at hu
      cases hu
    · cases h
    · cases h
    · cases hx
      exact hreading q hq hread
    · cases h
  obtain ⟨htemp, rfl⟩ | ⟨htemp, rfl, rfl⟩ := hopen
  · obtain ⟨hlt, hkey, hpub⟩ := hd.temp_lt ino htemp
    refine ⟨hd.setContent ?_ ?_, ?_, ?_, happart⟩
    · exact fun _ _ h => absurd h hkey
    · exact fun _ _ h => absurd h hpub
    · rw [PcInv, Disk.setContent_self]
      refine ⟨(Grows.setContent hkey).holds k hk, ⟨n, rfl⟩, rfl, hlt, hkey, hpub, ?_⟩
      intro t ht
      exact Option.some.inj (ht.symm.trans htemp)
    · intro q hq hb
      apply hq.setContent hkey (hreading q hq)
      · intro h
        rw [hb.2 k _ rfl] at h
        cases h
      · exact fun _ => hpub
  · have hf : Frame d { d.alloc with temp := some d.next } := ⟨fun _ h => Disk.alloc_content h, Nat.le_succ _⟩
    refine ⟨hd.setTemp hf rfl rfl (.inr ⟨rfl, Nat.lt_succ_self _⟩), ?_, ?_, happart⟩
    · have hempty : Disk.content { d.alloc with temp := some d.next } d.next = [] := Disk.setContent_self _
      rw [PcInv, hempty]
      refine ⟨hf.holds hd rfl k hk, ⟨n, rfl⟩, rfl, Nat.lt_succ_self _, ?_, ?_, ?_⟩
      · exact fun h => Nat.lt_irrefl _ (hd.key_lt _ h)
      · exact fun h => Nat.lt_irrefl _ (hd.pub_lt _ h).1
      · intro t ht
        exact (Option.some.inj ht).symm
    · exact fun q hq hb => hq.setTemp hd hf rfl rfl (.inr ⟨hb.2 k _ rfl, rfl⟩)

theorem Moves.rename {k : SecretKey} {t : Nat} (hd : DiskInv cipher ed d K) (hp : PcInv cipher ed d K (.rename k))
    (htemp : d.temp = some t) :
    Moves cipher ed d K (.rename k) (d.renamed t) K (.returned (some (signerOf ed k))) := by
  obtain ⟨hk, hfile⟩ := hp
  have hload := hfile t htemp
  refine ⟨hd.renamed hk htemp hload, ⟨(Grows.renamed hk hload).holds k hk, rfl⟩, ?_, fun _ _ _ => not_clash rfl⟩
  exact fun q hq hb => hq.renamed hk hload (not_clash_migrating rfl hb.1)

theorem Moves.removeTemp {k : SecretKey} (hd : DiskInv cipher ed d K) (hp : PcInv cipher ed d K (.removeTemp k)) :
    Moves cipher ed d K (.removeTemp k) { d with temp := none } K (.returned (some (signerOf ed k))) := by
  have hf : Frame d { d with temp := none } := ⟨fun _ _ => rfl, Nat.le_refl _⟩
  refine ⟨hd.setTemp hf rfl rfl (.inl rfl), ⟨hf.holds hd rfl k hp, rfl⟩, ?_, fun _ _ _ => not_clash rfl⟩
  exact fun q hq _ => hq.setTemp hd hf rfl rfl (.inl rfl)

/-- The key is settled here, by the opening whose `create_new` succeeds. -/
theorem Moves.createKey {k : SecretKey} {file : Bytes} (hd : DiskInv cipher ed d K)
    (hp : PcInv cipher ed d K (.createKey k file)) (hkey : d.key = none) :
    Moves cipher ed d K (.createKey k file) d.keyCreated (some k) (.writeKey k d.next 0 file) := by
  obtain ⟨hpub, n, rfl⟩ := hp
  have hK : K = none := hd.key_iff.mpr hkey
  subst hK
  have hempty : d.keyCreated.content d.next = [] := Disk.setContent_self _
  have hfile : encryptKey cipher k n ≠ [] := by
    intro h
    have := congrArg List.length h
    simp [length_encryptKey] at this
  refine ⟨hd.keyCreated (n := n) (hpub rfl), ?_, fun q hq _ => hq.keyCreated hd (hpub rfl), ?_⟩
  · rw [PcInv, hempty]
    exact ⟨rfl, rfl, hfile, ⟨n, rfl⟩, rfl⟩
  · intro q hq _ h
    obtain ⟨h, _⟩ | ⟨_, h⟩ | ⟨h, _⟩ | ⟨x, h, _⟩ | ⟨x, h, _⟩ := h
    · cases h
    · cases q with
      | writeKey k' x offset rest => cases hq.1
      | _ => cases h
    · cases h
    · cases h
    · cases h

theorem Moves.createPub {k : SecretKey} (hd : DiskInv cipher ed d K) (hp : PcInv cipher ed d K (.createPub k))
    (hpub : d.pub = none) :
    Moves cipher ed d K (.createPub k) d.pubCreated K (.writePub k d.next 0 (ed.publicKey k)) := by
  have hempty : d.pubCreated.content d.next = [] := Disk.setContent_self _
  refine ⟨hd.pubCreated, ?_, fun q hq _ => hq.pubCreated hd hp hpub, ?_⟩
  · rw [PcInv, hempty]
    exact ⟨Frame.pubCreated.holds hd rfl k hp, rfl, rfl, rfl⟩
  · intro q hq _ h
    obtain ⟨h, _⟩ | ⟨h, _⟩ | ⟨_, h⟩ | ⟨x, h, _⟩ | ⟨x, h, _⟩ := h
    · cases h
    · cases h
    · cases q with
      | writePub k' x offset rest =>
        have := hq.2.1
        rw [hpub] at this
        cases this
      | _ => cases h
    · cases h
    · cases h

/-- The key file is open: a rename from now on leaves this opening the file it had. -/
theorem Moves.openForLoad {ino : Nat} (hd : DiskInv cipher ed d K) (hkey : d.key = some ino) :
    Moves cipher ed d K .openForLoad d K (.readKey ino) := by
  refine ⟨hd, ⟨hd.key_lt ino hkey, ?_, ?_, .inl hkey⟩, fun _ hq _ => hq, ?_⟩
  · exact fun h => (hd.temp_lt ino h).2.1 hkey
  · exact fun h => (hd.pub_lt ino h).2 hkey
  · intro q hq _ h
    obtain ⟨h, _⟩ | ⟨h, _⟩ | ⟨h, _⟩ | ⟨x, h, _⟩ | ⟨x, hx, htemp⟩ := h
    · cases h
    · cases h
    · cases h
    · cases h
    · cases hx
      cases q with
      | writeTemp k x' offset rest =>
        cases htemp
        exact hq.2.2.2.2.1 hkey
      | _ => cases htemp

/-! ## Runs -/

variable {privileged : Bool} {m : Move}

/-- Each operation of an opening, in each way it can go. -/
theorem advance_moves (hd : DiskInv cipher ed d K) (hp : PcInv cipher ed d K p)
    (h : advance cipher ed privileged d p m = some (d', p')) : ∃ K', Moves cipher ed d K p d' K' p' := by
  cases p with
  | openKey =>
    cases m <;> simp [advance] at h
    case succeed => exact ⟨K, h.2.1 ▸ h.2.2 ▸ .stay hd trivial rfl⟩
    case fail => exact ⟨K, h.1 ▸ h.2 ▸ .stay hd trivial rfl⟩
  | pubExists =>
    cases m <;> simp [advance] at h
    case succeed =>
      obtain ⟨rfl, rfl⟩ := h
      refine ⟨K, ?_⟩
      cases hpub : d.pub with
      | none => exact .stay hd (fun _ => hpub) rfl
      | some ino => exact .stay hd (by simp [PcInv, hpub]) rfl
    case fail => exact ⟨K, h.1 ▸ h.2 ▸ .stay hd trivial rfl⟩
  | readPub =>
    cases m <;> simp [advance] at h
    case succeed =>
      obtain ⟨ino, hpub, rfl, rfl⟩ := h
      exact ⟨K, .stay hd (pcInv_loadVerifierOnly hd hpub) rfl⟩
    case fail => exact ⟨K, h.1 ▸ h.2 ▸ .stay hd trivial rfl⟩
  | openForLoad =>
    cases m <;> simp [advance] at h
    case succeed =>
      obtain ⟨ino, hkey, rfl, rfl⟩ := h
      exact ⟨K, .openForLoad hd hkey⟩
    case fail => exact ⟨K, h.1 ▸ h.2 ▸ .stay hd trivial rfl⟩
  | readKey ino =>
    cases m <;> simp only [advance, Option.some.injEq, Prod.mk.injEq, reduceCtorEq] at h
    case succeed =>
      cases hload : loadKey cipher (d.content ino) with
      | none =>
        simp [hload] at h
        exact ⟨K, h.1 ▸ h.2 ▸ .stay hd trivial rfl⟩
      | some k =>
        have hk := holds_of_read hd hp hload
        simp only [hload] at h
        split at h
        · cases h
          exact ⟨K, .stay hd hk rfl⟩
        · cases h
          exact ⟨K, .keeps hd hk⟩
    case fail => exact ⟨K, h.1 ▸ h.2 ▸ .stay hd trivial rfl⟩
  | encryptForMigration k =>
    cases m <;> simp [advance] at h
    case encrypt n =>
      obtain ⟨rfl, rfl⟩ := h
      exact ⟨K, .stay hd ⟨hp, n, rfl⟩ rfl⟩
    case fail => exact ⟨K, h.1 ▸ h.2 ▸ .keeps hd hp⟩
  | openTemp k file =>
    cases m <;> simp only [advance, Option.some.injEq, Prod.mk.injEq, reduceCtorEq] at h
    case succeed =>
      cases htemp : d.temp with
      | some ino =>
        simp [htemp] at h
        obtain ⟨rfl, rfl⟩ := h
        exact ⟨K, .openTemp hd hp (.inl ⟨htemp, rfl⟩)⟩
      | none =>
        simp [htemp] at h
        obtain ⟨rfl, rfl⟩ := h
        exact ⟨K, .openTemp hd hp (.inr ⟨htemp, rfl, rfl⟩)⟩
    case fail => exact ⟨K, h.1 ▸ h.2 ▸ .keeps hd hp.1⟩
  | writeTemp k ino offset rest =>
    cases m <;> simp only [advance, Option.some.injEq, Prod.mk.injEq, reduceCtorEq] at h
    case write count =>
      split at h
      · rename_i hcount
        cases h
        exact ⟨K, .writeTemp hd hp hcount⟩
      · cases h
    case fail => exact ⟨K, h.1 ▸ h.2 ▸ .keeps hd hp.1⟩
  | syncTemp k =>
    cases m <;> simp [advance] at h
    case succeed =>
      obtain ⟨rfl, rfl⟩ := h
      exact ⟨K, hd, hp, fun _ hq _ => hq, fun _ _ hb => hb.1⟩
    case fail => exact ⟨K, h.1 ▸ h.2 ▸ .keeps hd hp.1⟩
  | rename k =>
    cases m <;> simp [advance] at h
    case succeed =>
      obtain ⟨t, htemp, rfl, rfl⟩ := h
      exact ⟨K, .rename hd hp htemp⟩
    case fail => exact ⟨K, h.1 ▸ h.2 ▸ .stay hd hp.1 rfl⟩
  | removeTemp k =>
    cases m <;> simp [advance] at h
    case succeed => exact ⟨K, h.1 ▸ h.2 ▸ .removeTemp hd hp⟩
    case fail => exact ⟨K, h.1 ▸ h.2 ▸ .keeps hd hp⟩
  | keyExists =>
    cases m <;> simp [advance] at h
    case succeed =>
      obtain ⟨rfl, rfl⟩ := h
      refine ⟨K, ?_⟩
      split
      · exact .stay hd hp rfl
      · exact .stay hd trivial rfl
    case fail => exact ⟨K, h.1 ▸ h.2 ▸ .stay hd trivial rfl⟩
  | generateKey =>
    cases m <;> simp [advance] at h
    case generate k n =>
      obtain ⟨rfl, rfl⟩ := h
      exact ⟨K, .stay hd ⟨hp, n, rfl⟩ rfl⟩
    case fail => exact ⟨K, h.1 ▸ h.2 ▸ .stay hd trivial rfl⟩
  | createKey k file =>
    cases m <;> simp [advance] at h
    case succeed =>
      obtain ⟨⟨_, hkey⟩, rfl, rfl⟩ := h
      exact ⟨some k, .createKey hd hp hkey⟩
    case fail => exact ⟨K, h.1 ▸ h.2 ▸ .stay hd trivial rfl⟩
  | writeKey k ino offset rest =>
    cases m <;> simp only [advance, Option.some.injEq, Prod.mk.injEq, reduceCtorEq] at h
    case write count =>
      split at h
      · rename_i hcount
        cases h
        exact ⟨K, .writeKey hd hp hcount⟩
      · cases h
    case fail => exact ⟨K, h.1 ▸ h.2 ▸ .stay hd trivial rfl⟩
  | createPub k =>
    cases m <;> simp [advance] at h
    case succeed =>
      obtain ⟨hpub, rfl, rfl⟩ := h
      exact ⟨K, .createPub hd hp hpub⟩
    case fail => exact ⟨K, h.1 ▸ h.2 ▸ .stay hd trivial rfl⟩
  | writePub k ino offset rest =>
    cases m <;> simp only [advance, Option.some.injEq, Prod.mk.injEq, reduceCtorEq] at h
    case write count =>
      split at h
      · rename_i hcount
        cases h
        exact ⟨K, .writePub hd hp hcount⟩
      · cases h
    case fail => exact ⟨K, h.1 ▸ h.2 ▸ .stay hd trivial rfl⟩
  | returned r => cases m <;> simp [advance] at h
  | crashed a => cases m <;> simp [advance] at h

variable {s t : Host} {i : Nat}

/-- The invariant goes through a step of one opening. -/
theorem Inv.moves {o : Option Opening} {o' : Opening} {p : Pc} (h : Inv cipher ed s K) (ho : s.openings i = o)
    (hbeside : ∀ j q, j ≠ i → s.openings j = some q → Beside p q.pc)
    (hm : Moves cipher ed s.disk K p d' K' o'.pc) : Inv cipher ed (s.set i d' o') K' where
  disk := hm.disk
  pcs := by
    intro j q hj
    by_cases he : j = i
    · subst he
      have : o' = q := by simpa [Host.set] using hj
      exact this ▸ hm.own
    · have hq : s.openings j = some q := by simpa [Host.set, he] using hj
      exact hm.others q.pc (h.pcs j q hq) (hbeside j q he hq)
  apart := by
    have hleft : ∀ j q, j ≠ i → s.openings j = some q → ¬ Clash o'.pc q.pc :=
      fun j q he hq => hm.apart q.pc (h.pcs j q hq) (hbeside j q he hq)
    intro a b q r hne ha hb
    by_cases hai : a = i
    · subst hai
      have hq : o' = q := by simpa [Host.set] using ha
      have hr : s.openings b = some r := by simpa [Host.set, hne.symm] using hb
      exact hq ▸ hleft b r hne.symm hr
    · have hq : s.openings a = some q := by simpa [Host.set, hai] using ha
      by_cases hbi : b = i
      · subst hbi
        have hr : o' = r := by simpa [Host.set] using hb
        exact fun hc => hleft a q hai hq (hr ▸ hc.symm)
      · have hr : s.openings b = some r := by simpa [Host.set, hbi] using hb
        exact h.apart a b q r hne hq hr

theorem Inv.step (h : Inv cipher ed s K) (hapart : MigrationsApart s i m) (hstep : step cipher ed s i m = some t) :
    ∃ K', Inv cipher ed t K' := by
  unfold Signing.step at hstep
  cases ho : s.openings i with
  | none =>
    rw [ho] at hstep
    cases m with
    | start privileged =>
      cases hstep
      refine ⟨K, h.moves ho (p := .openKey) ?_ (.stay h.disk trivial rfl)⟩
      exact fun j q _ _ => ⟨not_clash rfl, by simp⟩
    | _ => cases hstep
  | some o =>
    rw [ho] at hstep
    have hbeside : ∀ j q, j ≠ i → s.openings j = some q → Beside o.pc q.pc :=
      fun j q he hq => ⟨h.apart i j o q he.symm ho hq, fun k file hpc => hapart o k file ho hpc j q he hq⟩
    have hadvance : ∀ {m : Move}, (advance cipher ed o.privileged s.disk o.pc m).map
        (fun moved => s.set i moved.1 ⟨o.privileged, moved.2⟩) = some t → ∃ K', Inv cipher ed t K' := by
      intro m hm
      obtain ⟨⟨d', p'⟩, hmove, rfl⟩ := Option.map_eq_some_iff.mp hm
      obtain ⟨K', hmoves⟩ := advance_moves h.disk (h.pcs i o ho) hmove
      refine ⟨K', ?_⟩
      apply h.moves ho hbeside
      exact hmoves
    cases m with
    | crash =>
      simp only at hstep
      split at hstep
      · cases hstep
        refine ⟨K, h.moves ho hbeside (.stay h.disk ?_ rfl)⟩
        cases ha : o.pc.accepted with
        | none => trivial
        | some k => exact PcInv.holds (h.pcs i o ho) ha
      · cases hstep
    | start _ | succeed | fail | encrypt _ | generate _ _ | write _ => exact hadvance hstep

theorem Run.inv (hrun : Run cipher ed MigrationsApart s t) (h : ∃ K, Inv cipher ed s K) : ∃ K, Inv cipher ed t K := by
  induction hrun with
  | refl => exact h
  | tail _ hp hstep ih =>
    obtain ⟨K, hinv⟩ := ih
    exact hinv.step hp hstep

/-- Where no migration opens the temporary file between another's opening and renaming it,
the key is kept through every run. -/
theorem key_kept (h : Initial cipher ed s) (hrun : Run cipher ed MigrationsApart s t) : Kept cipher ed t := by
  obtain ⟨K, hinv⟩ := hrun.inv (Inv.initial h)
  exact hinv.kept

/-! ## A legacy key, migrated by one opening and by two -/

/-- The host after the steps of some openings, in the order given. -/
def follow (cipher : KeyCipher) (ed : Ed25519) : Host → List (Nat × Move) → Option Host
  | s, [] => some s
  | s, (i, m) :: rest => (step cipher ed s i m).bind fun t => follow cipher ed t rest

theorem run_follow {P : Host → Nat → Move → Prop} {moves : List (Nat × Move)} {r : Host} (hrun : Run cipher ed P r s)
    (hP : ∀ u i m, P u i m) (h : follow cipher ed s moves = some t) : Run cipher ed P r t := by
  induction moves generalizing s with
  | nil =>
    cases h
    exact hrun
  | cons im rest ih =>
    obtain ⟨u, hu, hrest⟩ := Option.bind_eq_some_iff.mp h
    exact ih (hrun.tail (hP s im.1 im.2) hu) hrest

theorem step_others (h : step cipher ed s i m = some t) {j : Nat} (hj : j ≠ i) : t.openings j = s.openings j := by
  have hset : ∀ d o, (s.set i d o).openings j = s.openings j := fun d o => Function.update_of_ne hj _ _
  unfold step at h
  split at h
  · cases h
    exact hset _ _
  · cases h
  · split at h
    · cases h
      exact hset _ _
    · cases h
  · obtain ⟨⟨d, pc⟩, _, rfl⟩ := Option.map_eq_some_iff.mp h
    exact hset _ _

/-- An opening with no other beside it meets the condition to its end. -/
theorem run_alone {moves : List Move} {r : Host} (hrun : Run cipher ed MigrationsApart r s)
    (halone : ∀ j, j ≠ i → s.openings j = none) (h : follow cipher ed s (moves.map (i, ·)) = some t) :
    Run cipher ed MigrationsApart r t := by
  induction moves generalizing s with
  | nil =>
    cases h
    exact hrun
  | cons m rest ih =>
    obtain ⟨u, hu, hrest⟩ := Option.bind_eq_some_iff.mp h
    have happart : MigrationsApart s i m := by
      intro o k file _ _ j o' hj ho'
      rw [halone j hj] at ho'
      cases ho'
    have halone' : ∀ j, j ≠ i → u.openings j = none := by
      intro j hj
      rw [step_others hu hj]
      exact halone j hj
    exact ih (hrun.tail happart hu) halone' hrest

/-- Sealing that only adds its tag. -/
def tagOnly : KeyCipher where
  sealed _ b := b ++ List.replicate 16 0
  opened _ b := some (b.take (b.length - 16))
  length_sealed _ b := by simp
  opened_sealed _ b := by simp

/-- A key that is its own public half, and signs by putting itself before the text. -/
def prefixed : Ed25519 where
  publicKey k := k.bytes
  isPublicKey _ := true
  sign k m := k.bytes ++ m
  verify v m sig := sig == v ++ m
  length_publicKey k := k.length_bytes
  isPublicKey_publicKey _ := rfl
  verify_sign k m := by simp

def seven : SecretKey := ⟨List.replicate 32 7, rfl⟩

def zeroNonce : Nonce := ⟨List.replicate 12 0, rfl⟩

/-- A host with the plaintext key of an early version. -/
def legacyHost : Host :=
  ⟨⟨Function.update (fun _ => []) 0 seven.bytes, 1, some 0, none, none⟩, fun _ => none⟩

theorem initial_legacyHost : Initial tagOnly prefixed legacyHost where
  idle _ := rfl
  key := by
    intro ino h
    cases h
    exact ⟨Nat.zero_lt_one, seven, rfl, fun _ h => nomatch h⟩
  temp := nofun
  pub := nofun

/-- A privileged opening of the legacy key, up to where it would open the temporary file. -/
def loadLegacy : List Move := [.start true, .succeed, .succeed, .succeed, .encrypt zeroNonce]

def migrateLegacy : List Move := loadLegacy ++ [.succeed, .write 40, .write 24, .succeed, .succeed]

theorem key_kept_migrated : ∃ t, follow tagOnly prefixed legacyHost (migrateLegacy.map (0, ·)) = some t ∧
    t.disk.key = some 1 ∧ t.disk.content 1 = encryptKey tagOnly seven zeroNonce ∧ Kept tagOnly prefixed t := by
  have hfollow : ∃ t, follow tagOnly prefixed legacyHost (migrateLegacy.map (0, ·)) = some t ∧
      t.disk.key = some 1 ∧ t.disk.content 1 = encryptKey tagOnly seven zeroNonce := ⟨_, rfl, rfl, rfl⟩
  obtain ⟨t, hfollow, hkey, hcontent⟩ := hfollow
  have hrun : Run tagOnly prefixed MigrationsApart legacyHost t := run_alone (.refl _) (fun _ _ => rfl) hfollow
  exact ⟨t, hfollow, hkey, hcontent, key_kept initial_legacyHost hrun⟩

/-- Two migrations: the second opening empties the file the first has written, the first puts
it in the key's place, and the second stops there. -/
def twoMigrations : List (Nat × Move) :=
  loadLegacy.map (0, ·) ++ loadLegacy.map (1, ·) ++
    [(0, .succeed), (0, .write 64), (0, .succeed), (1, .succeed), (0, .succeed), (1, .crash)]

theorem key_lost_by_two_migrations :
    ¬ ∀ cipher ed s t, Initial cipher ed s → Run cipher ed (fun _ _ _ => True) s t → Kept cipher ed t := by
  intro h
  have hrun : ∃ t, follow tagOnly prefixed legacyHost twoMigrations = some t ∧ t.disk.key = some 1 ∧ t.disk.content 1 = [] ∧
      t.openings 0 = some ⟨true, .returned (some (signerOf prefixed seven))⟩ := ⟨_, rfl, rfl, rfl, rfl⟩
  obtain ⟨t, hfollow, hkey, hempty, hreturned⟩ := hrun
  have hkept := h tagOnly prefixed legacyHost t initial_legacyHost (run_follow (.refl _) (fun _ _ _ => trivial) hfollow)
  obtain ⟨ino, hino, hload⟩ := hkept.loads 0 _ seven hreturned rfl
  rw [hkey] at hino
  cases hino
  rw [hempty] at hload
  cases hload

end LinuxHardener.State.Signing
