import LinuxHardener.State.AuditCodec

/-
  What the chain over an audit log commits to.

  A verified log's last hash commits to the bytes every entry was hashed over
  (`verified_commit`), and these bytes say everything an entry records but two
  things: the part of a timestamp below the second, and whether a failure carries
  an empty error or none, since the verifier reads a missing `error` as "".

  What is proved:
    1. `sameRecord_iff` — two entries hashed over the same bytes record the same,
       exactly when they are not such a pair of failures.
    2. `verified_logs_agree_iff` — so it is, position by position, for any two
       verified logs of one length with one last hash.
-/
namespace LinuxHardener.State

open Lines (fileOf)

section

variable {j : SerdeJson}

/-- The entries agree on everything they record, the timestamp to the second. -/
structure SameRecord (e e' : AuditEntry) : Prop where
  actionType : e.entryActionType = e'.entryActionType
  user : e.entryUser = e'.entryUser
  target : e.entryTarget = e'.entryTarget
  result : e.entryResult = e'.entryResult
  details : e.entryDetails = e'.entryDetails
  seconds : e.entryTimestamp.seconds = e'.entryTimestamp.seconds

/-- One of two failures carries the empty error and the other one no error. -/
def ErrorErased (e e' : AuditEntry) : Prop :=
  e.entryResult = .failure ∧ e'.entryResult = .failure ∧
  ((e.entryDetails = .empty ∧ e'.entryDetails = .single "error" "") ∨
   (e.entryDetails = .single "error" "" ∧ e'.entryDetails = .empty))

theorem empty_ne_single (key value : String) : Details.empty ≠ Details.single key value := by
  intro h
  cases congrArg Details.entries h

/-! ## The bytes of one entry -/

theorem tupleHead_inj {t t' : Timestamp} {a a' : ActionType} {u u' g g' : String} {r r' : ActionResult}
    (h : tupleHead t a u g r = tupleHead t' a' u' g' r') :
    t.seconds = t'.seconds ∧ a = a' ∧ u = u' ∧ g = g' ∧ r.name = r'.name := by
  simp only [tupleHead, List.cons.injEq, Json.num.injEq, Json.str.injEq, and_true] at h
  exact ⟨h.1, ActionType.name_injective h.2.1, h.2.2.1, h.2.2.2.1, h.2.2.2.2⟩

/-- The tuple an entry is hashed as: its head, and at most one element more. -/
theorem serialisedData_eq {e : AuditEntry} {data : Bytes} (h : serialisedData j e = some data) :
    ∃ rest, data = j.toVec (.arr (tupleHead e.entryTimestamp e.entryActionType e.entryUser e.entryTarget
        e.entryResult ++ rest)) ∧
      (e.entryResult = .failure → (∀ kv ∈ e.entryDetails.entries, kv.1 = "error") ∧
        rest = [.str ((e.entryDetails.get "error").getD "")]) ∧
      (e.entryResult = .success → rest = if e.entryDetails.isEmpty then [] else [detailsJson e.entryDetails]) := by
  unfold serialisedData at h
  split at h
  · next hr =>
    split at h
    · cases h
    · next hkeys =>
      refine ⟨_, ?_, fun _ => ⟨?_, rfl⟩, fun hs => ?_⟩
      · rw [hr]
        exact (Option.some.inj h).symm
      · intro kv hkv
        by_contra hne
        exact hkeys (List.any_eq_true.mpr ⟨kv, hkv, by simpa using hne⟩)
      · rw [hr] at hs
        cases hs
  · next hr =>
    refine ⟨_, ?_, fun hf => absurd hf hr, fun _ => rfl⟩
    rw [← Option.some.inj h]
    unfold hashable detailsJson
    split <;> simp

theorem detailsJson_injective {d d' : Details} (h : detailsJson d = detailsJson d') : d = d' := by
  have := congrArg detailsOf h
  rw [detailsOf_detailsJson, detailsOf_detailsJson] at this
  exact Option.some.inj this

theorem details_eq_of_isEmpty {d : Details} (h : d.isEmpty = true) : d = .empty := by
  obtain ⟨entries, hs⟩ := d
  obtain rfl : entries = [] := by simpa [Details.isEmpty] using h
  rfl

/-- The details of two successes hashed over the same last element. -/
theorem success_details {d d' : Details}
    (h : (if d.isEmpty then [] else [detailsJson d]) = if d'.isEmpty then [] else [detailsJson d']) : d = d' := by
  split at h
  · next hd =>
    split at h
    · next hd' => rw [details_eq_of_isEmpty hd, details_eq_of_isEmpty hd']
    · cases h
  · split at h
    · cases h
    · exact detailsJson_injective (List.cons.inj h).1

/-- The details of two failures with the same error: the same, or an empty error
against none. -/
theorem failure_details {d d' : Details} (hk : ∀ kv ∈ d.entries, kv.1 = "error")
    (hk' : ∀ kv ∈ d'.entries, kv.1 = "error") (h : (d.get "error").getD "" = (d'.get "error").getD "") :
    d = d' ∨ (d = .empty ∧ d' = .single "error" "") ∨ (d = .single "error" "" ∧ d' = .empty) := by
  have hget : ∀ v, ((Details.single "error" v).get "error").getD "" = v := fun v => by
    simp [Details.single, Details.get]
  rcases Details.eq_of_keys hk with rfl | ⟨v, rfl⟩
  · rcases Details.eq_of_keys hk' with rfl | ⟨v', rfl⟩
    · exact .inl rfl
    · rw [hget] at h
      have hv : v' = "" := h.symm
      exact .inr (.inl ⟨rfl, by rw [hv]⟩)
  · rcases Details.eq_of_keys hk' with rfl | ⟨v', rfl⟩
    · rw [hget] at h
      have hv : v = "" := h
      exact .inr (.inr ⟨by rw [hv], rfl⟩)
    · rw [hget, hget] at h
      exact .inl (by rw [h])

/-- Entries hashed over the same bytes record the same, an erased error apart. -/
theorem sameRecord_iff {e e' : AuditEntry} {data : Bytes} (h : serialisedData j e = some data)
    (h' : serialisedData j e' = some data) : SameRecord e e' ↔ ¬ ErrorErased e e' := by
  constructor
  · intro hs he
    rcases he.2.2 with ⟨h1, h2⟩ | ⟨h1, h2⟩
    · exact empty_ne_single _ _ (h1.symm.trans (hs.details.trans h2))
    · exact empty_ne_single _ _ (h2.symm.trans (hs.details.symm.trans h1))
  · intro hne
    obtain ⟨rest, hdata, hfail, hsucc⟩ := serialisedData_eq h
    obtain ⟨rest', hdata', hfail', hsucc'⟩ := serialisedData_eq h'
    have htuple := j.toVec_injective _ _ (hdata.symm.trans hdata')
    obtain ⟨hhead, hrest⟩ := List.append_inj (Json.arr.inj htuple) rfl
    obtain ⟨hsec, hact, huser, htarget, hname⟩ := tupleHead_inj hhead
    cases hr : e.entryResult with
    | success =>
      cases hr' : e'.entryResult with
      | success =>
        rw [hsucc hr, hsucc' hr'] at hrest
        exact ⟨hact, huser, htarget, hr.trans hr'.symm, success_details hrest, hsec⟩
      | failure =>
        rw [hr, hr'] at hname
        exact absurd hname (by decide)
    | failure =>
      cases hr' : e'.entryResult with
      | success =>
        rw [hr, hr'] at hname
        exact absurd hname (by decide)
      | failure =>
        obtain ⟨hk, hrest1⟩ := hfail hr
        obtain ⟨hk', hrest2⟩ := hfail' hr'
        rw [hrest1, hrest2] at hrest
        have herr := Json.str.inj (List.cons.inj hrest).1
        rcases failure_details hk hk' herr with hd | hd
        · exact ⟨hact, huser, htarget, hr.trans hr'.symm, hd, hsec⟩
        · exact absurd ⟨hr, hr', hd⟩ hne

/-! ## Whole logs -/

variable (j) in
/-- What the hashes of these entries were computed over, link and data. -/
def hashedBy (es : List AuditEntry) : Set Bytes :=
  {m | m ∈ LinkedWords.preimages Sha256.digest HashChain.new.previousHash (es.filterMap (serialisedData j))}

theorem filterMap_of_chained {prev : Bytes} {es : List AuditEntry} (h : Chained j prev es) :
    (es.filterMap (serialisedData j)).map some = es.map (serialisedData j) := by
  induction es generalizing prev with
  | nil => rfl
  | cons e es ih =>
    obtain ⟨data, hd, _, hes⟩ := h
    rw [List.filterMap_cons_some hd, List.map_cons, List.map_cons, hd, ih hes]

theorem lastHash_of_chained {prev : Bytes} {es : List AuditEntry} (h : Chained j prev es) :
    lastHash prev es = LinkedWords.head Sha256.digest prev (es.filterMap (serialisedData j)) := by
  induction es generalizing prev with
  | nil => rfl
  | cons e es ih =>
    obtain ⟨data, hd, hh, hes⟩ := h
    rw [lastHash, List.filterMap_cons_some hd, LinkedWords.head, hh]
    exact ih hes

/-- Verified chains of one length with one last hash were hashed over the same data. -/
theorem verified_commit {es es' : List AuditEntry} (hc : Chained j HashChain.new.previousHash es)
    (hc' : Chained j HashChain.new.previousHash es') (hlen : es.length = es'.length)
    (hlast : lastHash HashChain.new.previousHash es = lastHash HashChain.new.previousHash es')
    (hcf : Sha256.CollisionFreeOn (hashedBy j es ∪ hashedBy j es')) :
    es.map (serialisedData j) = es'.map (serialisedData j) := by
  have hgenesis : HashChain.new.previousHash.length = 32 := rfl
  have hdata := filterMap_of_chained hc
  have hdata' := filterMap_of_chained hc'
  have hlen' : (es.filterMap (serialisedData j)).length = (es'.filterMap (serialisedData j)).length := by
    have h1 := congrArg List.length hdata
    have h2 := congrArg List.length hdata'
    simp only [List.length_map] at h1 h2
    rw [h1, h2, hlen]
  rw [lastHash_of_chained hc, lastHash_of_chained hc'] at hlast
  obtain ⟨_, hwords⟩ := LinkedWords.commit Sha256.length_digest hgenesis hgenesis hlen'
    (fun m hm m' hm' => hcf m (.inl hm) m' (.inr hm')) hlast
  rw [← hdata, ← hdata', hwords]

/-- Lists related position by position, where the position decides. -/
theorem forall₂_congr {R S : AuditEntry → AuditEntry → Prop} : ∀ {es es' : List AuditEntry},
    List.Forall₂ (fun e e' => R e e' ↔ S e e') es es' → (List.Forall₂ R es es' ↔ List.Forall₂ S es es')
  | _, _, .nil => ⟨fun _ => .nil, fun _ => .nil⟩
  | _, _, .cons h hs => by
    rw [List.forall₂_cons, List.forall₂_cons, h, forall₂_congr hs]

/-- The entries at each position were hashed over the same bytes. -/
theorem forall₂_data {prev : Bytes} : ∀ {es es' : List AuditEntry},
    Chained j prev es → es.map (serialisedData j) = es'.map (serialisedData j) →
    List.Forall₂ (fun e e' => ∃ data, serialisedData j e = some data ∧ serialisedData j e' = some data) es es' := by
  intro es
  induction es generalizing prev with
  | nil =>
    intro es' _ h
    obtain rfl : es' = [] := by simpa using h.symm
    exact List.Forall₂.nil
  | cons e es ih =>
    intro es' hc h
    obtain ⟨data, hd, _, hes⟩ := hc
    cases es' with
    | nil => simp at h
    | cons e' es' =>
      rw [List.map_cons, List.map_cons, List.cons.injEq] at h
      exact List.Forall₂.cons ⟨data, hd, h.1.symm.trans hd⟩ (ih hes h.2)

/-- Two verified logs of one length with one last hash agree at each position on
action, user, target, result, details and the seconds of the timestamp, exactly
when at no position an empty error was erased or added; and on the whole
timestamp exactly when, besides, the parts below the second agree. -/
theorem verified_logs_agree_iff {file file' : Bytes} {es es' : List AuditEntry}
    (hv : verifyIntegrity j (some file) = .ok true) (hv' : verifyIntegrity j (some file') = .ok true)
    (hq : query j QueryFilter.new (some file) = .ok es) (hq' : query j QueryFilter.new (some file') = .ok es')
    (hlen : es.length = es'.length)
    (hlast : lastHash HashChain.new.previousHash es = lastHash HashChain.new.previousHash es')
    (hcf : Sha256.CollisionFreeOn (hashedBy j es ∪ hashedBy j es')) :
    (List.Forall₂ SameRecord es es' ↔ List.Forall₂ (fun e e' => ¬ ErrorErased e e') es es') ∧
    (List.Forall₂ (fun e e' => SameRecord e e' ∧ e.entryTimestamp = e'.entryTimestamp) es es' ↔
      List.Forall₂ (fun e e' => ¬ ErrorErased e e' ∧ e.entryTimestamp.nanos = e'.entryTimestamp.nanos)
        es es') := by
  have hc := chained_of_verify hv hq
  have hdata := forall₂_data hc (verified_commit hc (chained_of_verify hv' hq') hlen hlast hcf)
  constructor
  · refine forall₂_congr (hdata.imp ?_)
    intro e e' h
    obtain ⟨data, hd, hd'⟩ := h
    exact sameRecord_iff hd hd'
  · refine forall₂_congr (hdata.imp ?_)
    intro e e' h
    obtain ⟨data, hd, hd'⟩ := h
    rw [← sameRecord_iff hd hd']
    constructor
    · intro h
      exact ⟨h.1, by rw [h.2]⟩
    · intro h
      exact ⟨h.1, by
        cases ht : e.entryTimestamp; cases ht' : e'.entryTimestamp
        have hs := h.1.seconds
        have hn := h.2
        rw [ht, ht'] at hs hn
        simp only at hs hn
        rw [hs, hn]⟩

end

/-! ## An erased error -/

/-- A refused scan with no message, as `log_failure` records it, with these details. -/
def silentFailure (details : Details) : AuditEntry where
  entryTimestamp := new2026
  entryActionType := .scan
  entryUser := "root"
  entryTarget := "system"
  entryResult := .failure
  entryDetails := details
  entryHash := Sha256.digest (HashChain.new.previousHash ++
    failureData SerdeJson.compact new2026 .scan "root" "system" "")

/-- The log of that one entry. -/
def silentLog (details : Details) : Bytes := fileOf [SerdeJson.compact.entryToVec 0 (silentFailure details)]

theorem silentLog_file (details : Details) : LogFile SerdeJson.compact (silentLog details) [silentFailure details] :=
  .terminated (List.Forall₂.cons ⟨0, rfl⟩ List.Forall₂.nil)

theorem silentFailure_data {details : Details} (h : details = .empty ∨ details = .single "error" "") :
    serialisedData SerdeJson.compact (silentFailure details) =
      some (failureData SerdeJson.compact new2026 .scan "root" "system" "") := by
  rcases h with rfl | rfl <;> rfl

theorem silentLog_verify {details : Details} (h : details = .empty ∨ details = .single "error" "") :
    verifyIntegrity SerdeJson.compact (some (silentLog details)) = .ok true :=
  (silentLog_file details).verify ⟨_, silentFailure_data h, rfl, trivial⟩

/-- The two logs hash one message. -/
theorem silentLog_collisionFree :
    Sha256.CollisionFreeOn (hashedBy SerdeJson.compact [silentFailure .empty] ∪
      hashedBy SerdeJson.compact [silentFailure (.single "error" "")]) := by
  have hone : ∀ d, d = Details.empty ∨ d = .single "error" "" → ∀ m ∈ hashedBy SerdeJson.compact [silentFailure d],
      m = HashChain.new.previousHash ++ failureData SerdeJson.compact new2026 .scan "root" "system" "" := by
    intro d hd m hm
    rw [hashedBy, List.filterMap_cons_some (silentFailure_data hd)] at hm
    simpa [LinkedWords.preimages] using hm
  intro m hm m' hm' _
  have h1 := hm.elim (hone _ (.inl rfl) m) (hone _ (.inr rfl) m)
  have h2 := hm'.elim (hone _ (.inl rfl) m') (hone _ (.inr rfl) m')
  rw [h1, h2]

/-- The empty error of a failure can be erased from a verified log. -/
theorem erased_error_counterexample :
    ¬ (∀ (file file' : Bytes) (es es' : List AuditEntry),
      verifyIntegrity SerdeJson.compact (some file) = .ok true →
      verifyIntegrity SerdeJson.compact (some file') = .ok true →
      query SerdeJson.compact QueryFilter.new (some file) = .ok es →
      query SerdeJson.compact QueryFilter.new (some file') = .ok es' →
      es.length = es'.length →
      lastHash HashChain.new.previousHash es = lastHash HashChain.new.previousHash es' →
      Sha256.CollisionFreeOn (hashedBy SerdeJson.compact es ∪ hashedBy SerdeJson.compact es') →
      List.Forall₂ SameRecord es es') := by
  intro h
  have hsame := h (silentLog .empty) (silentLog (.single "error" "")) _ _ (silentLog_verify (.inl rfl))
    (silentLog_verify (.inr rfl)) (silentLog_file _).query (silentLog_file _).query rfl rfl
    silentLog_collisionFree
  cases hsame with
  | cons hs _ => exact empty_ne_single _ _ hs.details

/-- The theorem at those two logs. -/
theorem verified_logs_agree_iff_silent :
    (List.Forall₂ SameRecord [silentFailure .empty] [silentFailure (.single "error" "")] ↔
      List.Forall₂ (fun e e' => ¬ ErrorErased e e') [silentFailure .empty]
        [silentFailure (.single "error" "")]) :=
  (verified_logs_agree_iff (silentLog_verify (.inl rfl)) (silentLog_verify (.inr rfl))
    (silentLog_file .empty).query (silentLog_file (.single "error" "")).query rfl rfl
    silentLog_collisionFree).1

end LinuxHardener.State
