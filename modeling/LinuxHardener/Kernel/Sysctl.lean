import LinuxHardener.Kernel.Params
import LinuxHardener.Lib.LastWins

/-
  What one sysctl file sets.

  Correspondence (Rust ↔ Lean):
    `SysctlAssignments`  ↔ `SysctlAssignments`
    `parse_sysctl`       ↔ `parseSysctl`, one line of it `sysctlLine`
-/
namespace LinuxHardener.Kernel

open LineText

structure SysctlAssignments where
  values : Chars → Option Chars
  globPatterns : List Chars

/-- What a line does: nothing, name a pattern, or assign a value. -/
inductive SysctlLine where
  | nothing
  | pattern (key : Chars)
  | assigns (key value : Chars)
  deriving DecidableEq, Repr

/-- A line that is neither blank nor a comment. -/
def isLive (line : Chars) : Bool :=
  match trim line with
  | [] => false
  | c :: _ => c != '#' && c != ';'

def isGlob (key : Chars) : Bool := key.any fun c => c == '*' || c == '?' || c == '['

def sysctlLine (line : Chars) : SysctlLine :=
  if isLive line then
    match splitOnce '=' (trim line) with
    | none => .nothing
    | some (key, value) =>
      let key := trim ((stripStart "-" (trim key)).getD (trim key))
      if isGlob key then .pattern (procfsKey key) else .assigns (procfsKey key) (trim value)
  else .nothing

def SysctlAssignments.take (parsed : SysctlAssignments) (line : Chars) : SysctlAssignments :=
  match sysctlLine line with
  | .nothing => parsed
  | .pattern key => { parsed with globPatterns := parsed.globPatterns ++ [key] }
  | .assigns key value => { parsed with values := assign parsed.values key value }

def parseSysctl (content : Chars) : SysctlAssignments := (lines content).foldl SysctlAssignments.take ⟨fun _ => none, []⟩

def SysctlLine.assignment : SysctlLine → Option (Chars × Chars)
  | .assigns key value => some (key, value)
  | _ => none

def SysctlLine.glob : SysctlLine → Option Chars
  | .pattern key => some key
  | _ => none

/-- The assignments of a file, in its own order. -/
def assignments (content : Chars) : List (Chars × Chars) := (lines content).filterMap fun line => (sysctlLine line).assignment

def globs (content : Chars) : List Chars := (lines content).filterMap fun line => (sysctlLine line).glob

theorem foldl_take (ls : List Chars) (parsed : SysctlAssignments) :
    ls.foldl SysctlAssignments.take parsed =
      ⟨(ls.filterMap fun line => (sysctlLine line).assignment).foldl (fun m a => assign m a.1 a.2) parsed.values,
        parsed.globPatterns ++ ls.filterMap fun line => (sysctlLine line).glob⟩ := by
  induction ls generalizing parsed with
  | nil =>
    show parsed = ⟨parsed.values, parsed.globPatterns ++ []⟩
    rw [List.append_nil]
  | cons line ls ih =>
    rw [List.foldl_cons, ih, List.filterMap_cons, List.filterMap_cons]
    unfold SysctlAssignments.take
    cases sysctlLine line with
    | nothing => rfl
    | pattern key => simp only [SysctlLine.assignment, SysctlLine.glob, List.append_assoc, List.singleton_append]
    | assigns key value => rfl

/-- A file sets what the last line to a key sets it to. -/
theorem parseSysctl_eq (content : Chars) : parseSysctl content = ⟨settle (assignments content), globs content⟩ :=
  foldl_take (lines content) ⟨fun _ => none, []⟩

/-- The lines of a file that are neither blank nor a comment, in order. -/
def liveLines (content : Chars) : List Chars := (lines content).filter isLive

theorem sysctlLine_of_not_live {line : Chars} (h : isLive line = false) : sysctlLine line = .nothing := by
  unfold sysctlLine
  rw [h]
  rfl

/-- Only live lines count. -/
theorem filterMap_live {α : Type} (f : SysctlLine → Option α) (hf : f .nothing = none) (ls : List Chars) :
    (ls.filter isLive).filterMap (fun line => f (sysctlLine line)) = ls.filterMap fun line => f (sysctlLine line) := by
  rw [List.filterMap_filter]
  refine List.filterMap_congr fun line _ => ?_
  cases h : isLive line with
  | true => rfl
  | false => rw [sysctlLine_of_not_live h, hf]; rfl

theorem assignments_live (content : Chars) :
    (liveLines content).filterMap (fun line => (sysctlLine line).assignment) = assignments content :=
  filterMap_live SysctlLine.assignment rfl (lines content)

theorem globs_live (content : Chars) :
    (liveLines content).filterMap (fun line => (sysctlLine line).glob) = globs content :=
  filterMap_live SysctlLine.glob rfl (lines content)

/-! ## A line this tool writes -/

/-- A text in which there is nothing to trim. -/
structure Plain (s : Chars) : Prop where
  ne_nil : s ≠ []
  no_blank : ∀ c ∈ s, Text.isWhitespace c = false

theorem Plain.trim_eq {s : Chars} (h : Plain s) : trim s = s :=
  trim_eq_self (fun _ hc => h.no_blank _ (List.mem_of_mem_head? hc)) (fun _ hc => h.no_blank _ (List.mem_of_getLast? hc))

theorem Plain.no_newline {s : Chars} (h : Plain s) : '\n' ∉ s := fun hmem => by
  have := h.no_blank _ hmem
  rw [isWhitespace_newline] at this
  cases this

theorem plain_numeral {s : Chars} (h : Numeral s) : Plain s := by
  refine ⟨h.1, fun c hc => ?_⟩
  have hchar := List.all_eq_true.mp h.2 c hc
  rw [Bool.or_eq_true, beq_iff_eq] at hchar
  rcases hchar with rfl | hd
  · decide
  · unfold Char.isDigit at hd
    simp only [Bool.and_eq_true, decide_eq_true_eq, ge_iff_le, UInt32.le_iff_toNat_le] at hd
    unfold Text.isWhitespace Char.toNat
    simp at hd ⊢
    omega

/-- A character that is read as itself wherever it stands in a key. -/
def isKeyChar (c : Char) : Bool := !Text.isWhitespace c && !(['=', '#', ';', '-', '*', '?', '['].contains c)

/-- A key that is read as it is written. -/
structure PlainKey (key : Chars) : Prop where
  ne_nil : key ≠ []
  chars : ∀ c ∈ key, isKeyChar c = true

theorem PlainKey.plain {key : Chars} (h : PlainKey key) : Plain key := by
  refine ⟨h.ne_nil, fun c hc => ?_⟩
  have := h.chars c hc
  unfold isKeyChar at this
  simp at this
  exact this.1

theorem PlainKey.not_mem {key : Chars} (h : PlainKey key) {c : Char} (hc : isKeyChar c = false) : c ∉ key := fun hmem => by
  rw [h.chars c hmem] at hc
  cases hc

theorem name_plain {p : KernelParameter} (hp : p ∈ kernelParams) : PlainKey p.name := by
  have hall : ∀ p ∈ kernelParams, p.name ≠ [] ∧ p.name.all isKeyChar = true := by decide +kernel
  exact ⟨(hall p hp).1, List.all_eq_true.mp (hall p hp).2⟩

/-- What the file sets a parameter to. -/
def settingLine (name target : Chars) : Chars := name ++ " = ".toList ++ target

section

variable {name target : Chars} (hn : PlainKey name) (ht : Plain target)

include hn ht

theorem trim_settingLine : trim (settingLine name target) = settingLine name target := by
  unfold settingLine
  refine trim_eq_self (fun c hc => ?_) fun c hc => ?_
  · rw [List.append_assoc, List.head?_append_of_ne_nil _ hn.ne_nil] at hc
    exact hn.plain.no_blank c (List.mem_of_mem_head? hc)
  · rw [List.getLast?_append_of_ne_nil _ ht.ne_nil] at hc
    exact ht.no_blank c (List.mem_of_getLast? hc)

theorem isLive_settingLine : isLive (settingLine name target) = true := by
  unfold isLive
  rw [trim_settingLine hn ht]
  cases hname : name with
  | nil => exact absurd hname hn.ne_nil
  | cons c cs =>
    have hc := hn.chars c (hname ▸ List.mem_cons_self)
    unfold isKeyChar at hc
    simp at hc
    show (c != '#' && c != ';') = true
    simp [hc]

/-- It sets the parameter, and to that. -/
theorem sysctlLine_settingLine : sysctlLine (settingLine name target) = .assigns (procfsKey name) target := by
  have hkey : trim (name ++ [' ']) = name := by rw [trim_concat (by decide), hn.plain.trim_eq]
  have hvalue : trim (' ' :: target) = target := by
    have hblank : trim (' ' :: target) = trim target := by
      unfold trim Text.trimStart
      rw [List.dropWhile_cons, if_pos (by decide)]
    rw [hblank, ht.trim_eq]
  have hcut : splitOnce '=' (settingLine name target) = some (name ++ [' '], ' ' :: target) := by
    have : settingLine name target = (name ++ [' ']) ++ '=' :: (' ' :: target) := by
      simp [settingLine]
    rw [this]
    refine splitOnce_append (fun hmem => ?_) _
    rcases List.mem_append.mp hmem with hmem | hmem
    · exact hn.not_mem (by decide) hmem
    · exact absurd (List.mem_singleton.mp hmem) (by decide)
  have hstrip : stripStart "-" name = none := by
    unfold stripStart
    cases hname : name with
    | nil => exact absurd hname hn.ne_nil
    | cons c cs =>
      have : c ≠ '-' := fun h => hn.not_mem (by decide : isKeyChar '-' = false) (hname ▸ h ▸ List.mem_cons_self)
      rw [if_neg]
      show ¬ (('-' == c) && true) = true
      simp [Ne.symm this]
  have hglob : isGlob name = false := by
    rw [isGlob, List.any_eq_false]
    intro c hc
    have := hn.chars c hc
    unfold isKeyChar at this
    simp at this
    simp [this]
  unfold sysctlLine
  rw [isLive_settingLine hn ht, trim_settingLine hn ht, hcut]
  simp only [if_true, hkey, hvalue, hstrip, Option.getD_none, hn.plain.trim_eq, hglob, Bool.false_eq_true, if_false]

end

end LinuxHardener.Kernel
