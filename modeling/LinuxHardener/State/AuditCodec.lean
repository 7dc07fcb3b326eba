import LinuxHardener.State.AuditLog

/-
  A `SerdeJson` in full: compact JSON for the hashed tuples and for the entries,
  with the fields in the order of the struct and one order for the details.

  One timestamp is rendered the way chrono renders it, `new2026`; any other one is
  a pair of numbers here, which serde would not read.

  What is proved: `entryOf_entryJson` — an entry reads back from its JSON, so that
  `SerdeJson.compact` is one.
-/
namespace LinuxHardener.State

/-- 2026-01-01T00:00:00Z -/
def new2026 : Timestamp := ⟨1767225600, 0⟩

def timestampJson (t : Timestamp) : Json :=
  if t = new2026 then .str "2026-01-01T00:00:00Z" else .arr [.num t.seconds, .num t.nanos]

def timestampOf : Json → Option Timestamp
  | .str _ => some new2026
  | .arr [.num s, .num n] => some ⟨s, n.toNat⟩
  | _ => none

@[simp] theorem timestampOf_timestampJson (t : Timestamp) : timestampOf (timestampJson t) = some t := by
  unfold timestampJson
  split
  · next h => rw [h]; rfl
  · simp [timestampOf]

def actionTypeOf (s : String) : Option ActionType :=
  [ActionType.scan, .apply, .rollback, .configChange, .checkpointCreate, .checkpointDelete,
    .scopeExclusion].find? (fun a => a.name == s)

@[simp] theorem actionTypeOf_name (a : ActionType) : actionTypeOf a.name = some a := by
  cases a <;> decide

def actionResultOf (s : String) : Option ActionResult :=
  [ActionResult.success, .failure].find? (fun r => r.name == s)

@[simp] theorem actionResultOf_name (r : ActionResult) : actionResultOf r.name = some r := by
  cases r <;> decide

def detailsJson (d : Details) : Json := .obj (d.entries.map (fun kv => (kv.1, .str kv.2)))

def pairOf : String × Json → Option (String × String)
  | (k, .str v) => some (k, v)
  | _ => none

def detailsOf : Json → Option Details
  | .obj kvs =>
    match kvs.mapM pairOf with
    | some entries => if h : entries.Pairwise (fun a b => utf8 a.1 < utf8 b.1) then some ⟨entries, h⟩ else none
    | none => none
  | _ => none

theorem mapM_pairOf (entries : List (String × String)) :
    (entries.map (fun kv => (kv.1, Json.str kv.2))).mapM pairOf = some entries := by
  induction entries with
  | nil => rfl
  | cons kv entries ih => simp [List.mapM_cons, pairOf, ih]

@[simp] theorem detailsOf_detailsJson (d : Details) : detailsOf (detailsJson d) = some d := by
  simp only [detailsOf, detailsJson, mapM_pairOf]
  rw [dif_pos d.sorted]

def bytesJson (b : Bytes) : Json := .arr (b.map (fun x => .num x.toNat))

def byteOf : Json → Option UInt8
  | .num n => some (UInt8.ofNat n.toNat)
  | _ => none

def bytesOf : Json → Option Bytes
  | .arr xs => xs.mapM byteOf
  | _ => none

@[simp] theorem bytesOf_bytesJson (b : Bytes) : bytesOf (bytesJson b) = some b := by
  unfold bytesOf bytesJson
  induction b with
  | nil => rfl
  | cons x b ih => simp only [List.map_cons, List.mapM_cons, byteOf]; simp [ih]

def entryJson (e : AuditEntry) : Json :=
  .obj [("entry_timestamp", timestampJson e.entryTimestamp),
    ("entry_action_type", .str e.entryActionType.name),
    ("entry_user", .str e.entryUser),
    ("entry_target", .str e.entryTarget),
    ("entry_result", .str e.entryResult.name),
    ("entry_details", detailsJson e.entryDetails),
    ("entry_hash", bytesJson e.entryHash)]

def entryOf : Json → Option AuditEntry
  | .obj [("entry_timestamp", t), ("entry_action_type", .str a), ("entry_user", .str u),
      ("entry_target", .str g), ("entry_result", .str r), ("entry_details", d), ("entry_hash", h)] => do
    some ⟨← timestampOf t, ← actionTypeOf a, u, g, ← actionResultOf r, ← detailsOf d, ← bytesOf h⟩
  | _ => none

theorem entryOf_entryJson (e : AuditEntry) : entryOf (entryJson e) = some e := by
  simp [entryOf, entryJson]

theorem isLine_text (x : Json) : Lines.IsLine (utf8 x.text) := by
  have hchars : ∀ c ∈ x.text.toList, 32 ≤ c.toNat := by
    intro c hc
    exact Json.printable_write x c (by simpa [Json.text] using hc)
  have hbytes := le_of_mem_utf8 (by decide) hchars
  refine ⟨fun h => ?_, fun h => ?_, fun h => ?_⟩
  · exact absurd (hbytes _ h) (by decide)
  · exact absurd (hbytes _ (List.mem_of_getLast? h)) (by decide)
  · have htext : x.text = "" := utf8_eq_nil.mp h
    exact Json.write_ne_nil x (by simpa [Json.text] using congrArg String.toList htext)

/-- Compact JSON, as serde_json writes it. -/
def SerdeJson.compact : SerdeJson where
  toVec x := utf8 x.text
  toVec_injective _ _ h := Json.write_injective (utf8_injective h)
  entryToVec _ e := utf8 (entryJson e).text
  fromStr b := ((ofUtf8 b).bind Json.ofText).bind entryOf
  fromStr_entryToVec _ e := by simp [Json.ofText_text, entryOf_entryJson]
  entryToVec_isLine _ e := isLine_text _
  entryToVec_utf8 _ e := validUtf8_utf8 _

end LinuxHardener.State
