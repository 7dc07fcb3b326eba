import LinuxHardener.Lib.Bytes
import Mathlib.Logic.Function.Basic

/-
  Writing a configuration file (`hardener-core`, `config_write.rs`): through a sibling file
  that is renamed over the target.

  The callers of one path share the sibling's name. Each file operation is one step of its
  call, writing may take several, any of them may fail, and a call may be cut off between
  two of them. A descriptor writes to the file it was opened on, wherever that file's name
  has gone meanwhile.

  Correspondence (Rust ↔ Lean), by the operations of `write_file_atomically`:
    `create_dir_all`             ↔ `Action.makeParent`
    `fs::write`                  ↔ `Action.openTemporary`, `write` and `close`
    `metadata`, `set_permissions` ↔ `Action.keepMode`
    `rename`                     ↔ `Action.rename`
    `remove_file`                ↔ `Action.unlink`

  What is proved:
    1. `inv_step` — what every step keeps, where no call opens the sibling while another
       stages its text in it.
    2. `writes_allOrNothing` — in runs of such steps a write is all or nothing.
    3. `overlap_tears` — a call that opens it while another has its text there undoes that.
-/
namespace LinuxHardener.Core.ConfigWrite

/-- The two names of a directory that a write is about, and the files there are. -/
structure Disk where
  content : Nat → Bytes
  target : Option Nat
  temporary : Option Nat
  fresh : Nat

namespace Disk

def targetText (d : Disk) : Option Bytes := d.target.map d.content

def setContent (d : Disk) (file : Nat) (text : Bytes) : Disk := { d with content := Function.update d.content file text }

/-- Two names of two files, and files yet to come. -/
structure Apart (d : Disk) : Prop where
  ne : ∀ i, d.target = some i → d.temporary ≠ some i
  target_lt : ∀ i, d.target = some i → i < d.fresh
  temporary_lt : ∀ i, d.temporary = some i → i < d.fresh

/-- `O_CREAT | O_TRUNC`: the file, new or emptied, and the disk with it. -/
def create (d : Disk) : Nat × Disk :=
  match d.temporary with
  | some i => (i, d.setContent i [])
  | none => (d.fresh, { d.setContent d.fresh [] with temporary := some d.fresh, fresh := d.fresh + 1 })

end Disk

/-- A piece written at an offset; a gap before it reads as zeros. -/
def overwrite (content : Bytes) (offset : Nat) (piece : Bytes) : Bytes :=
  content.take offset ++ List.replicate (offset - content.length) 0 ++ piece ++ content.drop (offset + piece.length)

inductive Phase where
  | ready
  | parentMade
  | writing (file offset : Nat)
  | staged
  | modeKept
  | unlinking
  | returned (ok : Bool)
  | crashed
  deriving DecidableEq, Repr

/-- The call has opened the sibling and not yet renamed it or given up. -/
def Phase.isStaging : Phase → Bool
  | writing _ _ | staged | modeKept => true
  | _ => false

inductive Action where
  | makeParent (ok : Bool)
  | openTemporary (ok : Bool)
  | write (n : Nat)
  | writeFails
  | close
  | keepMode
  | rename (ok : Bool)
  | unlink (ok : Bool)
  | crash
  deriving DecidableEq, Repr

variable {ι : Type} [DecidableEq ι]

/-- The disk, how far each call is, and the texts each found at the target and left there when it
renamed. -/
structure State (ι : Type) where
  disk : Disk
  phase : ι → Phase
  renames : ι → Option (Option Bytes × Option Bytes)

namespace State

def start (disk : Disk) : State ι := ⟨disk, fun _ => .ready, fun _ => none⟩

def setPhase (s : State ι) (w : ι) (p : Phase) : State ι := { s with phase := Function.update s.phase w p }

def withDisk (s : State ι) (disk : Disk) : State ι := { s with disk }

/-- A rename was tried, and the disk is this one now. -/
def renamed (s : State ι) (w : ι) (disk : Disk) : State ι :=
  { s with disk, renames := Function.update s.renames w (some (s.disk.targetText, disk.targetText)) }

end State

/-- One file operation of the call `w`, which is to write `text w`. -/
inductive Step (text : ι → Bytes) : State ι → ι → Action → State ι → Prop where
  | makeParent {s w} (h : s.phase w = .ready) : Step text s w (.makeParent true) (s.setPhase w .parentMade)
  | makeParentFails {s w} (h : s.phase w = .ready) : Step text s w (.makeParent false) (s.setPhase w (.returned false))
  | openTemporary {s w} (h : s.phase w = .parentMade) :
      Step text s w (.openTemporary true) ((s.withDisk s.disk.create.2).setPhase w (.writing s.disk.create.1 0))
  | openFails {s w} (h : s.phase w = .parentMade) : Step text s w (.openTemporary false) (s.setPhase w (.returned false))
  | write {s w file offset} (n : Nat) (h : s.phase w = .writing file offset) (hn : offset + n ≤ (text w).length) :
      Step text s w (.write n)
        ((s.withDisk (s.disk.setContent file (overwrite (s.disk.content file) offset (((text w).drop offset).take n)))).setPhase w
          (.writing file (offset + n)))
  | writeFails {s w file offset} (h : s.phase w = .writing file offset) : Step text s w .writeFails (s.setPhase w (.returned false))
  | close {s w file offset} (h : s.phase w = .writing file offset) (hall : offset = (text w).length) :
      Step text s w .close (s.setPhase w .staged)
  | keepMode {s w} (h : s.phase w = .staged) : Step text s w .keepMode (s.setPhase w .modeKept)
  | rename {s w file} (h : s.phase w = .modeKept) (hfile : s.disk.temporary = some file) :
      Step text s w (.rename true)
        ((s.renamed w { s.disk with target := some file, temporary := none }).setPhase w (.returned true))
  | renameFails {s w} (h : s.phase w = .modeKept) :
      Step text s w (.rename false) ((s.renamed w s.disk).setPhase w .unlinking)
  | unlink {s w} (h : s.phase w = .unlinking) :
      Step text s w (.unlink true) ((s.withDisk { s.disk with temporary := none }).setPhase w (.returned false))
  | unlinkFails {s w} (h : s.phase w = .unlinking) : Step text s w (.unlink false) (s.setPhase w (.returned false))
  | crash {s w} (h : ∀ ok, s.phase w ≠ .returned ok) : Step text s w .crash (s.setPhase w .crashed)

/-- The states that runs reach whose every step is admitted where it is taken. -/
inductive Reaches (text : ι → Bytes) (admitted : State ι → ι → Action → Prop) (disk : Disk) : State ι → Prop where
  | start : Reaches text admitted disk (.start disk)
  | step {s s' : State ι} {w a} (h : Reaches text admitted disk s) (ha : admitted s w a) (hs : Step text s w a s') :
      Reaches text admitted disk s'

/-- No call opens the sibling while another has it open or has its text in it. -/
def Exclusive (s : State ι) (w : ι) (a : Action) : Prop :=
  a = .openTemporary true → ∀ v, v ≠ w → (s.phase v).isStaging = false

/-- The target holds its old text or all of one call's; a call that succeeded had all of its own
installed by its rename; one that failed left the target as its rename found it. -/
structure AllOrNothing (text : ι → Bytes) (disk : Disk) (s : State ι) : Prop where
  whole : s.disk.targetText = disk.targetText ∨ ∃ w, s.disk.targetText = some (text w)
  installed : ∀ w, s.phase w = .returned true → ∃ found, s.renames w = some (found, some (text w))
  untouched : ∀ w, s.phase w = .returned false → ∀ r, s.renames w = some r → r.2 = r.1

/-! ## Pieces -/

/-- The next piece of a text, written where the last one ended. -/
theorem overwrite_take {text : Bytes} {offset n : Nat} (h : offset + n ≤ text.length) :
    overwrite (text.take offset) offset ((text.drop offset).take n) = text.take (offset + n) := by
  have hlength : (text.take offset).length = offset := List.length_take_of_le (by omega)
  have htail : (text.take offset).drop (offset + ((text.drop offset).take n).length) = [] :=
    List.drop_eq_nil_of_le (by omega)
  rw [overwrite, htail, hlength, Nat.sub_self, List.replicate_zero, List.append_nil, List.append_nil, List.take_take, Nat.min_self,
    List.take_add]

/-! ## What every step keeps -/

/-- One call at most stages its text; what it has written is all there is in its file, which is the
sibling or has lost its name; and the target's file is no one's to write to. -/
structure Inv (text : ι → Bytes) (disk : Disk) (s : State ι) : Prop where
  apart : s.disk.Apart
  alone : ∀ v w, (s.phase v).isStaging = true → (s.phase w).isStaging = true → v = w
  writing : ∀ w file offset, s.phase w = .writing file offset → offset ≤ (text w).length ∧ file < s.disk.fresh ∧
    s.disk.content file = (text w).take offset ∧ s.disk.target ≠ some file ∧ (s.disk.temporary = some file ∨ s.disk.temporary = none)
  staged : ∀ w, s.phase w = .staged ∨ s.phase w = .modeKept → ∀ file, s.disk.temporary = some file → s.disk.content file = text w
  whole : s.disk.targetText = disk.targetText ∨ ∃ w, s.disk.targetText = some (text w)
  installed : ∀ w, s.phase w = .returned true → ∃ found, s.renames w = some (found, some (text w))
  untouched : ∀ w, s.phase w ≠ .returned true → ∀ r, s.renames w = some r → r.2 = r.1

variable {text : ι → Bytes} {disk : Disk} {s s' : State ι} {w : ι} {a : Action}

omit [DecidableEq ι] in
theorem Inv.allOrNothing (h : Inv text disk s) : AllOrNothing text disk s :=
  ⟨h.whole, h.installed, fun w hw => h.untouched w fun hok => by rw [hw] at hok; cases hok⟩

omit [DecidableEq ι] in
theorem inv_start (h : disk.Apart) : Inv text disk (.start disk : State ι) where
  apart := h
  alone v w hv := by cases hv
  writing w file offset hw := by cases hw
  staged w hw := by rcases hw with hw | hw <;> cases hw
  whole := .inl rfl
  installed w hw := by cases hw
  untouched w _ r hr := by cases hr

theorem phase_setPhase (s : State ι) (w v : ι) (p : Phase) : (s.setPhase w p).phase v = if v = w then p else s.phase v :=
  Function.update_apply _ _ _ _

/-- A call that leaves, or has yet to open the sibling, changes nothing for the others. -/
theorem Inv.leave (h : Inv text disk s) {p : Phase} (hp : p.isStaging = false) (hok : p ≠ .returned true)
    (hw : s.phase w ≠ .returned true) : Inv text disk (s.setPhase w p) where
  apart := h.apart
  alone v u hv hu := by
    rw [phase_setPhase] at hv hu
    grind [h.alone]
  writing v file offset hv := by
    rw [phase_setPhase] at hv
    split at hv
    · rw [hv] at hp
      cases hp
    · exact h.writing v file offset hv
  staged v hv := by
    rw [phase_setPhase] at hv
    split at hv
    · rcases hv with hv | hv <;> rw [hv] at hp <;> cases hp
    · exact h.staged v hv
  whole := h.whole
  installed v hv := by
    rw [phase_setPhase] at hv
    split at hv
    · exact absurd hv hok
    · exact h.installed v hv
  untouched v hv := by
    rw [phase_setPhase] at hv
    split at hv
    · next he => exact he ▸ h.untouched w hw
    · exact h.untouched v hv

theorem Disk.targetText_setContent {d : Disk} {file : Nat} (h : d.target ≠ some file) (t : Bytes) :
    (d.setContent file t).targetText = d.targetText := by
  unfold targetText setContent
  cases ht : d.target with
  | none => rfl
  | some i =>
    have hne : i ≠ file := fun he => h (by rw [ht, he])
    exact congrArg some (Function.update_of_ne hne _ _)

/-- Opening the sibling: it is a file of its own, emptied or new, and the target is as it was. -/
theorem Disk.create_spec {d : Disk} (h : d.Apart) :
    d.create.2.Apart ∧ d.create.1 < d.create.2.fresh ∧ d.create.2.content d.create.1 = [] ∧
      d.create.2.target ≠ some d.create.1 ∧ d.create.2.temporary = some d.create.1 ∧ d.create.2.targetText = d.targetText := by
  unfold create
  split
  · next i hi =>
    have hne : d.target ≠ some i := fun ht => h.ne i ht hi
    exact ⟨⟨h.ne, h.target_lt, h.temporary_lt⟩, h.temporary_lt i hi, Function.update_self _ _ _, hne, hi, targetText_setContent hne _⟩
  · next hnone =>
    have hne : d.target ≠ some d.fresh := fun ht => absurd (h.target_lt _ ht) (Nat.lt_irrefl _)
    refine ⟨⟨fun i ht he => ?_, fun i ht => Nat.lt_succ_of_lt (h.target_lt i ht), fun i ht => ?_⟩, Nat.lt_succ_self _,
      Function.update_self _ _ _, hne, rfl, targetText_setContent hne _⟩
    · exact hne (by rw [Option.some.inj he]; exact ht)
    · rw [← Option.some.inj ht]
      exact Nat.lt_succ_self _

/-- The sibling is opened by a call that is then alone in staging. -/
theorem Inv.opens (h : Inv text disk s) (hw : s.phase w ≠ .returned true) (hothers : ∀ v, v ≠ w → (s.phase v).isStaging = false) :
    Inv text disk ((s.withDisk s.disk.create.2).setPhase w (.writing s.disk.create.1 0)) := by
  obtain ⟨hapart, hlt, hempty, htarget, htemporary, htext⟩ := Disk.create_spec h.apart
  have hself : ∀ v, (((s.withDisk s.disk.create.2).setPhase w (.writing s.disk.create.1 0)).phase v).isStaging = true → v = w := by
    intro v hv
    by_contra hne
    rw [phase_setPhase, if_neg hne] at hv
    change (s.phase v).isStaging = true at hv
    rw [hothers v hne] at hv
    cases hv
  constructor
  · exact hapart
  · intro v u hv hu
    rw [hself v hv, hself u hu]
  · intro v file offset hv
    obtain rfl := hself v (by rw [hv]; rfl)
    rw [phase_setPhase, if_pos rfl] at hv
    cases hv
    exact ⟨Nat.zero_le _, hlt, hempty.trans (List.take_zero).symm, htarget, .inl htemporary⟩
  · intro v hv
    obtain rfl := hself v (by rcases hv with hv | hv <;> rw [hv] <;> rfl)
    rw [phase_setPhase, if_pos rfl] at hv
    rcases hv with hv | hv <;> cases hv
  · exact h.whole.imp htext.trans fun ⟨v, hv⟩ => ⟨v, htext.trans hv⟩
  · intro v hv
    rw [phase_setPhase] at hv
    split at hv
    · cases hv
    · exact h.installed v hv
  · intro v hv
    by_cases hvw : v = w
    · exact hvw ▸ h.untouched w hw
    · rw [phase_setPhase, if_neg hvw] at hv
      exact h.untouched v hv

/-- A piece goes to the file of the call that stages its text. -/
theorem Inv.writes (h : Inv text disk s) {file offset n : Nat} (hw : s.phase w = .writing file offset)
    (hn : offset + n ≤ (text w).length) :
    Inv text disk ((s.withDisk (s.disk.setContent file (overwrite (s.disk.content file) offset (((text w).drop offset).take n)))).setPhase w
      (.writing file (offset + n))) := by
  obtain ⟨hle, hlt, hcontent, htarget, htemporary⟩ := h.writing w file offset hw
  have htext := Disk.targetText_setContent htarget (overwrite (s.disk.content file) offset (((text w).drop offset).take n))
  have hwstaging : (s.phase w).isStaging = true := by rw [hw]; rfl
  have hothers : ∀ v, v ≠ w → (s.phase v).isStaging = false := fun v hne =>
    Bool.eq_false_iff.mpr fun hv => hne (h.alone v w hv hwstaging)
  constructor
  · exact ⟨h.apart.ne, h.apart.target_lt, h.apart.temporary_lt⟩
  · intro v u hv hu
    rw [phase_setPhase] at hv hu
    by_cases hvw : v = w <;> by_cases huw : u = w
    · rw [hvw, huw]
    · rw [if_neg huw] at hu
      exact absurd (h.alone u w hu hwstaging) huw
    · rw [if_neg hvw] at hv
      exact absurd (h.alone v w hv hwstaging) hvw
    · rw [if_neg hvw] at hv
      exact absurd (h.alone v w hv hwstaging) hvw
  · intro v file' offset' hv
    rw [phase_setPhase] at hv
    split at hv
    · next he =>
      cases hv
      subst he
      refine ⟨hn, hlt, ?_, htarget, htemporary⟩
      change Function.update s.disk.content file _ file = _
      rw [Function.update_self, hcontent, overwrite_take hn]
    · next hne =>
      have hnot := hothers v hne
      change s.phase v = _ at hv
      rw [hv] at hnot
      cases hnot
  · intro v hv
    rw [phase_setPhase] at hv
    split at hv
    · rcases hv with hv | hv <;> cases hv
    · next hne =>
      have hnot := hothers v hne
      change s.phase v = _ ∨ s.phase v = _ at hv
      rcases hv with hv | hv <;> rw [hv] at hnot <;> cases hnot
  · exact h.whole.imp htext.trans fun ⟨v, hv⟩ => ⟨v, htext.trans hv⟩
  · intro v hv
    rw [phase_setPhase] at hv
    split at hv
    · cases hv
    · exact h.installed v hv
  · intro v hv
    by_cases hvw : v = w
    · exact hvw ▸ h.untouched w fun hok => by rw [hw] at hok; cases hok
    · rw [phase_setPhase, if_neg hvw] at hv
      exact h.untouched v hv

/-- A call that has written all of its text, and keeps it staged. -/
theorem Inv.keeps (h : Inv text disk s) (hw : (s.phase w).isStaging = true) {p : Phase} (hp : p = .staged ∨ p = .modeKept)
    (hcontent : ∀ file, s.disk.temporary = some file → s.disk.content file = text w) : Inv text disk (s.setPhase w p) where
  apart := h.apart
  alone v u hv hu := by
    rw [phase_setPhase] at hv hu
    grind [h.alone]
  writing v file offset hv := by
    rw [phase_setPhase] at hv
    split at hv
    · rcases hp with rfl | rfl <;> cases hv
    · exact h.writing v file offset hv
  staged v hv := by
    rw [phase_setPhase] at hv
    split at hv
    · next he => exact he ▸ hcontent
    · exact h.staged v hv
  whole := h.whole
  installed v hv := by
    rw [phase_setPhase] at hv
    split at hv
    · rcases hp with rfl | rfl <;> cases hv
    · exact h.installed v hv
  untouched v hv := by
    by_cases hvw : v = w
    · refine hvw ▸ h.untouched w fun hok => ?_
      rw [hok] at hw
      cases hw
    · rw [phase_setPhase, if_neg hvw] at hv
      exact h.untouched v hv

/-- The staged text takes the target's place. -/
theorem Inv.renames (h : Inv text disk s) {file : Nat} (hw : s.phase w = .modeKept) (hfile : s.disk.temporary = some file) :
    Inv text disk ((s.renamed w { s.disk with target := some file, temporary := none }).setPhase w (.returned true)) := by
  have hcontent := h.staged w (.inr hw) file hfile
  have hwstaging : (s.phase w).isStaging = true := by rw [hw]; rfl
  have hothers : ∀ v, v ≠ w → (s.phase v).isStaging = false := fun v hne =>
    Bool.eq_false_iff.mpr fun hv => hne (h.alone v w hv hwstaging)
  have hnone : ∀ v, (((s.renamed w { s.disk with target := some file, temporary := none }).setPhase w (.returned true)).phase v).isStaging
      = false := by
    intro v
    rw [phase_setPhase]
    split
    · rfl
    · next hne => exact hothers v hne
  have htext : ({ s.disk with target := some file, temporary := none } : Disk).targetText = some (text w) := congrArg some hcontent
  constructor
  · refine ⟨fun i _ hi => (by cases hi), fun i hi => ?_, fun i hi => (by cases hi)⟩
    rw [← Option.some.inj hi]
    exact h.apart.temporary_lt file hfile
  · intro v u hv
    rw [hnone] at hv
    cases hv
  · intro v file' offset hv
    have hstaging := hnone v
    rw [hv] at hstaging
    cases hstaging
  · intro v hv
    have hstaging := hnone v
    rcases hv with hv | hv <;> rw [hv] at hstaging <;> cases hstaging
  · exact .inr ⟨w, htext⟩
  · intro v hv
    by_cases hvw : v = w
    · subst hvw
      refine ⟨s.disk.targetText, ?_⟩
      change Function.update s.renames v _ v = _
      rw [Function.update_self, htext]
    · rw [phase_setPhase, if_neg hvw] at hv
      obtain ⟨found, hfound⟩ := h.installed v hv
      exact ⟨found, (Function.update_of_ne hvw _ _).trans hfound⟩
  · intro v hv r hr
    by_cases hvw : v = w
    · rw [phase_setPhase, if_pos hvw] at hv
      exact absurd rfl hv
    · rw [phase_setPhase, if_neg hvw] at hv
      exact h.untouched v hv r ((Function.update_of_ne hvw _ _).symm.trans hr)

/-- A rename that fails leaves the target, and its call unlinks the sibling next. -/
theorem Inv.fails (h : Inv text disk s) (hw : s.phase w = .modeKept) : Inv text disk (s.renamed w s.disk) := by
  refine ⟨h.apart, h.alone, h.writing, h.staged, h.whole, fun v hv => ?_, fun v hv r hr => ?_⟩
  · have hvw : v ≠ w := by
      rintro rfl
      exact Phase.noConfusion (hw.symm.trans hv)
    obtain ⟨found, hfound⟩ := h.installed v hv
    exact ⟨found, (Function.update_of_ne hvw _ _).trans hfound⟩
  · by_cases hvw : v = w
    · subst hvw
      change Function.update s.renames v _ v = some r at hr
      rw [Function.update_self] at hr
      cases hr
      rfl
    · exact h.untouched v hv r ((Function.update_of_ne hvw _ _).symm.trans hr)

omit [DecidableEq ι] in
/-- A sibling that is unlinked takes no text from anyone's target. -/
theorem Inv.unlinks (h : Inv text disk s) : Inv text disk (s.withDisk { s.disk with temporary := none }) := by
  refine ⟨⟨fun i _ hi => (by cases hi), h.apart.target_lt, fun i hi => (by cases hi)⟩, h.alone, fun v file offset hv => ?_,
    fun v _ file hfile => (by cases hfile), h.whole, h.installed, h.untouched⟩
  obtain ⟨hle, hlt, hcontent, htarget, -⟩ := h.writing v file offset hv
  exact ⟨hle, hlt, hcontent, htarget, .inr rfl⟩

/-- What every step keeps. -/
theorem inv_step (h : Inv text disk s) (hexclusive : Exclusive s w a) (hs : Step text s w a s') : Inv text disk s' := by
  cases hs with
  | makeParent hw => exact h.leave rfl (by decide) (by rw [hw]; decide)
  | makeParentFails hw => exact h.leave rfl (by decide) (by rw [hw]; decide)
  | openTemporary hw => exact h.opens (by rw [hw]; decide) (hexclusive rfl)
  | openFails hw => exact h.leave rfl (by decide) (by rw [hw]; decide)
  | write n hw hn => exact h.writes hw hn
  | writeFails hw => exact h.leave rfl (by decide) (by rw [hw]; exact Phase.noConfusion)
  | close hw hall =>
    refine h.keeps (by rw [hw]; rfl) (.inl rfl) fun file hfile => ?_
    obtain ⟨-, -, hcontent, -, htemporary⟩ := h.writing _ _ _ hw
    rw [hfile] at htemporary
    obtain rfl := Option.some.inj (htemporary.resolve_right (Option.some_ne_none _))
    rw [hcontent, hall, List.take_length]
  | keepMode hw => exact h.keeps (by rw [hw]; rfl) (.inr rfl) (h.staged _ (.inl hw))
  | rename hw hfile => exact h.renames hw hfile
  | renameFails hw => exact (h.fails hw).leave rfl (by decide) (by change s.phase w ≠ _; rw [hw]; decide)
  | unlink hw => exact h.unlinks.leave rfl (by decide) (by change s.phase w ≠ _; rw [hw]; decide)
  | unlinkFails hw => exact h.leave rfl (by decide) (by rw [hw]; decide)
  | crash hw => exact h.leave rfl (by decide) (hw true)

/-! ## Runs -/

/-- In a run in which no call opens the sibling while another stages its text there, every state
has the target whole, and every call did what it says. -/
theorem writes_allOrNothing {text : ι → Bytes} {disk : Disk} (hdisk : disk.Apart) {s : State ι}
    (h : Reaches text Exclusive disk s) : AllOrNothing text disk s := by
  have hinv : Inv text disk s := by
    induction h with
    | start => exact inv_start hdisk
    | step _ ha hs ih => exact inv_step ih ha hs
  exact hinv.allOrNothing

/-- A target that reads "a", and no sibling beside it. -/
def oldDisk : Disk := ⟨fun _ => [97], some 0, none, 1⟩

theorem oldDisk_apart : oldDisk.Apart :=
  ⟨fun _ _ hi => (by cases hi), fun i hi => by cases hi; exact Nat.one_pos, fun _ hi => (by cases hi)⟩

/-- Two calls: one writes "b", the other "c". -/
def twoTexts (desktop : Bool) : Bytes := if desktop then [99] else [98]

theorem writes_allOrNothing_alone : ∃ s, Reaches twoTexts Exclusive oldDisk s ∧ s.phase false = .returned true ∧
    AllOrNothing twoTexts oldDisk s := by
  have hrest : ∀ {a : Action}, a ≠ .openTemporary true → ∀ s : State Bool, Exclusive s false a := fun ha _ he => absurd he ha
  have h₀ : Reaches twoTexts Exclusive oldDisk (.start oldDisk) := .start
  have h₁ := h₀.step (hrest (by decide) _) (.makeParent (w := false) rfl)
  have h₂ := h₁.step (fun _ v hv => by cases v <;> trivial) (.openTemporary (w := false) rfl)
  have h₃ := h₂.step (hrest (by decide) _) (.write (w := false) 1 rfl (by decide))
  have h₄ := h₃.step (hrest (by decide) _) (.close (w := false) rfl rfl)
  have h₅ := h₄.step (hrest (by decide) _) (.keepMode (w := false) rfl)
  have h₆ := h₅.step (hrest (by decide) _) (.rename (w := false) rfl (Eq.refl (some 1)))
  exact ⟨_, h₆, rfl, writes_allOrNothing oldDisk_apart h₆⟩

/-- Any step, whenever its call can take it. -/
def Unrestricted (_ : State ι) (_ : ι) (_ : Action) : Prop := True

/-- A call that opens the sibling while another has its text there empties it, and the other goes
on to install that. -/
theorem overlap_tears {text : ι → Bytes} {disk : Disk} {s : State ι} (h : Reaches text Unrestricted disk s) {v w : ι} (hvw : v ≠ w)
    (hv : s.phase v = .modeKept) (hw : s.phase w = .parentMade) {file : Nat} (hfile : s.disk.temporary = some file)
    (htext : text v ≠ []) : ∃ s', Reaches text Unrestricted disk s' ∧ ¬ AllOrNothing text disk s' := by
  have hcreate : s.disk.create = (file, s.disk.setContent file []) := by
    rw [Disk.create, hfile]
  have hopened := h.step trivial (.openTemporary hw)
  rw [hcreate] at hopened
  have hrenamed := hopened.step (w := v) (a := .rename true) trivial
    (.rename (by rw [phase_setPhase, if_neg hvw]; exact hv) hfile)
  refine ⟨_, hrenamed, fun hall => ?_⟩
  obtain ⟨found, hfound⟩ := hall.installed v (by rw [phase_setPhase, if_pos rfl])
  change Function.update s.renames v _ v = _ at hfound
  rw [Function.update_self, Option.some.injEq, Prod.mk.injEq] at hfound
  have hempty : (s.disk.setContent file []).content file = [] := Function.update_self _ _ _
  exact htext ((Option.some.inj hfound.2).symm.trans hempty)

/-- The desktop opens `config.toml.new` when the CLI has written its text there and is about to
rename it. -/
theorem overlap_tears_twoTexts : ¬ ∀ s, Reaches twoTexts Unrestricted oldDisk s → AllOrNothing twoTexts oldDisk s := by
  have h₀ : Reaches twoTexts Unrestricted oldDisk (.start oldDisk) := .start
  have h₁ := h₀.step trivial (.makeParent (w := false) rfl)
  have h₂ := h₁.step trivial (.makeParent (w := true) rfl)
  have h₃ := h₂.step trivial (.openTemporary (w := false) rfl)
  have h₄ := h₃.step trivial (.write (w := false) 1 rfl (by decide))
  have h₅ := h₄.step trivial (.close (w := false) rfl rfl)
  have h₆ := h₅.step trivial (.keepMode (w := false) rfl)
  obtain ⟨s, hreach, hnot⟩ := overlap_tears h₆ (v := false) (w := true) (by decide) rfl rfl (Eq.refl (some 1)) (by decide)
  exact fun hall => hnot (hall s hreach)

end LinuxHardener.Core.ConfigWrite
