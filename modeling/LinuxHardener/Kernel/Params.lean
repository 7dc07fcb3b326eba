import LinuxHardener.Core.Plugin
import LinuxHardener.Plugins.Strictness

/-
  The kernel parameters this tool manages.

  Correspondence (Rust ↔ Lean):
    `SUID_DUMPABLE_ORDER`, `RP_FILTER_ORDER`, `KERNEL_PARAMS` ↔ the same in camel case
    `KernelParameter`   ↔ `KernelParameter`, its fields without their `kernel_`
    `resolved_target`   ↔ `resolvedTarget`
    `procfs_key`        ↔ `procfsKey`
-/
namespace LinuxHardener.Kernel

open LineText Plugins
open Core (Severity)

/-- Weakest first: 1 dumps from every setuid process, 2 a core only root can read, 0 none. -/
def suidDumpableOrder : List (List Chars) := [["1"], ["2"], ["0"]]

/-- Weakest first: off, loose mode, strict mode. -/
def rpFilterOrder : List (List Chars) := [["0"], ["2"], ["1"]]

structure KernelParameter where
  name : Chars
  secureValue : Chars
  description : Chars
  severity : Severity
  compare : Strictness
  deriving DecidableEq, Repr

def kernelParams : List KernelParameter :=
  [⟨"kernel.randomize_va_space", "2", "Enable full address space layout randomisation (ASLR)", .high, .atLeast⟩,
    ⟨"kernel.kptr_restrict", "2", "Hides kernel pointers from all users except root", .medium, .atLeast⟩,
    ⟨"kernel.dmesg_restrict", "1", "Restricts dmesg access to privileged users only", .medium, .atLeast⟩,
    ⟨"kernel.yama.ptrace_scope", "2", "Restricts ptrace usage to admin-only", .high, .atLeast⟩,
    ⟨"fs.suid_dumpable", "0", "Prevents setuid processes from creating core dumps", .medium, .ranked suidDumpableOrder⟩,
    ⟨"fs.protected_hardlinks", "1", "Prevents hardlink creation to files user doesn't own", .medium, .atLeast⟩,
    ⟨"fs.protected_symlinks", "1", "Prevents symlink following in sticky world-writable directories", .medium, .atLeast⟩,
    ⟨"net.ipv4.conf.all.rp_filter", "1", "Enables reverse path filtering (anti-spoofing)", .high, .ranked rpFilterOrder⟩,
    ⟨"net.ipv4.conf.default.rp_filter", "1", "Enables reverse path filtering for new interfaces", .high,
      .ranked rpFilterOrder⟩,
    ⟨"net.ipv4.tcp_syncookies", "1", "Enables SYN flood protection", .high, .atLeast⟩,
    ⟨"net.ipv4.conf.all.accept_source_route", "0", "Disables source routing (security risk)", .medium, .atMost⟩,
    ⟨"net.ipv4.conf.default.accept_source_route", "0", "Disables source routing for new interfaces", .medium, .atMost⟩,
    ⟨"net.ipv4.conf.all.accept_redirects", "0", "Disables acceptance of ICMP redirects (prevents route table poisoning)",
      .medium, .atMost⟩,
    ⟨"net.ipv4.conf.default.accept_redirects", "0", "Disables ICMP redirect acceptance for new interfaces", .medium,
      .atMost⟩,
    ⟨"net.ipv4.conf.all.secure_redirects", "0", "Disables acceptance of secure ICMP redirects", .medium, .atMost⟩,
    ⟨"net.ipv4.conf.default.secure_redirects", "0", "Disables secure ICMP redirect acceptance for new interfaces", .medium,
      .atMost⟩,
    ⟨"net.ipv4.conf.all.log_martians", "1", "Logs packets with impossible (martian) source addresses", .low, .atLeast⟩,
    ⟨"net.ipv4.conf.default.log_martians", "1", "Logs martian packets for new interfaces", .low, .atLeast⟩]

/-- The secure value, tightened by a directive that tightens it. -/
def resolvedTarget (parameter : KernelParameter) (config : PluginConfig) : Chars :=
  parameter.compare.resolvedTarget config parameter.name parameter.secureValue

/-- A key as `/proc/sys` spells it: where a dot comes first, dots and slashes change places. -/
def procfsKey (key : Chars) : Chars :=
  match key.find? fun c => c == '.' || c == '/' with
  | some '.' => key.map fun c => if c = '.' then '/' else if c = '/' then '.' else c
  | _ => key

/-! ## The table -/

/-- No two parameters are one file under `/proc/sys`. -/
theorem nodup_procfsKey : (kernelParams.map fun p => procfsKey p.name).Nodup := by decide +kernel

/-- A description in a literal text is looked through by its characters. -/
theorem description_ofList {name value : Chars} {severity : Severity} {compare : Strictness} (description : Chars)
    (h : '\n' ∉ description) :
    '\n' ∉ (KernelParameter.mk name value (String.ofList description).toList severity compare).description := by
  change '\n' ∉ (String.ofList description).toList
  rw [String.toList_ofList]
  exact h

theorem description_line {p : KernelParameter} (hp : p ∈ kernelParams) : '\n' ∉ p.description := by
  have hall : ∀ p ∈ kernelParams, '\n' ∉ p.description := by
    unfold kernelParams
    repeat refine List.forall_mem_cons.mpr ⟨description_ofList _ (by decide +kernel), ?_⟩
    exact List.forall_mem_nil _
  exact hall p hp

/-- A text of digits, with a sign at most. -/
def Numeral (s : Chars) : Prop := s ≠ [] ∧ (s.all fun c => c == '-' || c.isDigit) = true

instance (s : Chars) : Decidable (Numeral s) := inferInstanceAs (Decidable (_ ∧ _))

/-- A comparison all of whose spellings are numbers. -/
def SpellsNumbers (s : Strictness) : Prop :=
  match s with
  | .ranked order => ∀ group ∈ order, Numeral (group.head?.getD [])
  | _ => True

theorem numeral_place {s : Strictness} (hs : SpellsNumbers s) {value : Chars} {p : Int × Chars} (h : s.place value = some p) :
    Numeral p.2 := by
  have hsigned : ∀ n : Int, Numeral (signed n) := by
    intro n
    refine ⟨signed_ne_nil n, List.all_eq_true.mpr fun c hc => ?_⟩
    rw [Bool.or_eq_true, beq_iff_eq]
    exact mem_signed hc
  cases s with
  | ranked order =>
    obtain ⟨index, hindex, rfl⟩ := Option.map_eq_some_iff.mp h
    obtain ⟨hlt, _⟩ := List.findIdx?_eq_some_iff_getElem.mp hindex
    have hnum := hs order[index] (List.getElem_mem hlt)
    simpa only [List.getElem?_eq_getElem hlt, Option.bind_some] using hnum
  | atLeast =>
    obtain ⟨n, _, rfl⟩ := Option.map_eq_some_iff.mp h
    exact hsigned n
  | atMost =>
    obtain ⟨n, _, rfl⟩ := Option.map_eq_some_iff.mp h
    exact hsigned n
  | nonZeroAtMost =>
    obtain ⟨n, _, rfl⟩ := Option.map_eq_some_iff.mp h
    exact hsigned n

/-- Every group's first spelling is read back as that group. -/
def RanksAgree (s : Strictness) : Prop :=
  match s with
  | .ranked order =>
    ∀ group ∈ order.zipIdx, s.place (group.1.head?.getD []) = some (Int.ofNat group.2, group.1.head?.getD [])
  | _ => True

theorem faithful_of_ranksAgree {s : Strictness} (h : RanksAgree s) : s.Faithful := by
  rintro order rfl value p hp
  obtain ⟨index, hindex, rfl⟩ := Option.map_eq_some_iff.mp hp
  obtain ⟨hlt, _⟩ := List.findIdx?_eq_some_iff_getElem.mp hindex
  have hmem : (order[index], index) ∈ order.zipIdx := by
    rw [List.mem_zipIdx_iff_getElem?]
    exact List.getElem?_eq_getElem hlt
  have := h _ hmem
  simpa only [List.getElem?_eq_getElem hlt, Option.bind_some] using this

/-- What the table promises: a comparison reads its own spellings, these are numbers, and
it can place the secure value. -/
structure Sound (p : KernelParameter) : Prop where
  faithful : p.compare.Faithful
  spells : SpellsNumbers p.compare
  baseline : ∃ b, p.compare.place p.secureValue = some b

theorem sound {p : KernelParameter} (hp : p ∈ kernelParams) : Sound p := by
  have hranks : ∀ s ∈ kernelParams.map KernelParameter.compare, RanksAgree s ∧ SpellsNumbers s := by
    have hset : ∀ s ∈ kernelParams.map KernelParameter.compare,
        s = .atLeast ∨ s = .atMost ∨ s = .ranked suidDumpableOrder ∨ s = .ranked rpFilterOrder := by decide +kernel
    intro s hs
    rcases hset s hs with rfl | rfl | rfl | rfl
    · exact ⟨trivial, trivial⟩
    · exact ⟨trivial, trivial⟩
    · exact ⟨by unfold RanksAgree; decide +kernel, by unfold SpellsNumbers Numeral; decide +kernel⟩
    · exact ⟨by unfold RanksAgree; decide +kernel, by unfold SpellsNumbers Numeral; decide +kernel⟩
  have hbase : ∀ p ∈ kernelParams, (p.compare.place p.secureValue).isSome = true := by decide +kernel
  obtain ⟨hagree, hspells⟩ := hranks p.compare (List.mem_map_of_mem hp)
  exact ⟨faithful_of_ranksAgree hagree, hspells, Option.isSome_iff_exists.mp (hbase p hp)⟩

/-! ## Targets -/

section

variable {p : KernelParameter} (hp : Sound p) (config : PluginConfig)

include hp

/-- A target is read back, is no weaker than the secure value, and is spelled as a number. -/
theorem place_clamped (candidate : Option Chars) {baseline : Chars} {b : Int × Chars} (hb : p.compare.place baseline = some b) :
    ∃ t, p.compare.place (p.compare.clampTarget baseline candidate) = some t ∧
      t.2 = p.compare.clampTarget baseline candidate ∧ b.1 ≤ t.1 ∧
      (∀ c, candidate.bind p.compare.place = some c → c.1 ≤ t.1) ∧ Numeral (p.compare.clampTarget baseline candidate) := by
  obtain ⟨t, ht, hspelled, hle, hcandidate⟩ := @Strictness.place_clampTarget _ _ candidate hp.faithful _ hb
  exact ⟨t, ht, hspelled, hle, hcandidate, hspelled ▸ numeral_place hp.spells ht⟩

theorem place_resolvedTarget : ∃ t, p.compare.place (resolvedTarget p config) = some t ∧ t.2 = resolvedTarget p config ∧
    (∀ b, p.compare.place p.secureValue = some b → b.1 ≤ t.1) := by
  obtain ⟨b, hb⟩ := hp.baseline
  obtain ⟨t, ht, hspelled, hle, _, _⟩ := place_clamped hp (some (config.resolveStr p.name p.secureValue)) hb
  refine ⟨t, ht, hspelled, fun b' hb' => ?_⟩
  rw [hb] at hb'
  cases hb'
  exact hle

end

end LinuxHardener.Kernel
