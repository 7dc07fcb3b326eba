import Mathlib.Data.List.Forall2
import LinuxHardener.Compliance.Frameworks

/-
  Declaring a control not applicable: which exclusions are in force, for which host.

  Dates are the calendar library's: a `Calendar` is its date type, its parser for ISO 8601
  dates and its addition of months, and nothing is assumed of them.

  Correspondence (Rust ↔ Lean):
    `scope::{default_review_months, strip_port, ScopeExclusion, ComplianceConfig}` ↔ the definitions
      of these names
    `ScopeExclusion::{review_deadline, is_valid_on, covers_host}` ↔ `.reviewDeadline`, `.isValidOn`,
      `.coversHost`
    `HashMap<String, HashMap<String, ScopeExclusion>>` ↔ its entries, in the order it is iterated in
-/
namespace LinuxHardener.Compliance

/-- The calendar library. -/
structure Calendar where
  Date : Type
  le : Date → Date → Bool
  parseIsoDate : String → Option Date
  checkedAddMonths : Date → Nat → Option Date

def defaultReviewMonths : ComplianceFramework → Nat
  | .cis => 12
  | .stig => 12
  | .nist => 12
  | .pcidss => 12
  | .hipaa => 12
  | .gdpr => 12
  | .iso27001 => 12
  | .soc2 => 12
  | .nist800171 => 12
  | .fedRAMP => 12

/-- The text before the last separator, and the text after it. -/
def rsplitOnce (c : Char) (s : List Char) : Option (List Char × List Char) :=
  let after := (s.reverse.takeWhile (· != c)).reverse
  match s.reverse.dropWhile (· != c) with
  | [] => none
  | _ :: head => some (head.reverse, after)

/-- A target without its port. -/
def stripPort (target : String) : String :=
  match rsplitOnce ':' target.toList with
  | none => target
  | some (head, port) =>
    let host := match rsplitOnce '@' head with
      | none => head
      | some (_, h) => h
    if port ≠ [] ∧ port.all Char.isDigit ∧ ¬ host.contains ':' then String.ofList head else target

structure ScopeExclusion where
  reason : String
  approvedDate : Option String
  reviewBy : Option String
  hosts : List String
  deriving DecidableEq, Repr

/-- The day after which the exclusion stops applying. -/
def ScopeExclusion.reviewDeadline (cal : Calendar) (e : ScopeExclusion) (frameworkId : String) : Option cal.Date := do
  let framework ← ComplianceFramework.fromId frameworkId
  match e.reviewBy with
  | some explicit => cal.parseIsoDate explicit
  | none =>
    let approved ← cal.parseIsoDate (← e.approvedDate)
    cal.checkedAddMonths approved (defaultReviewMonths framework)

def ScopeExclusion.isValidOn (cal : Calendar) (e : ScopeExclusion) (frameworkId : String) (today : cal.Date) : Bool :=
  match e.reviewDeadline cal frameworkId with
  | some deadline => cal.le today deadline
  | none => false

/-- `eq_ignore_ascii_case` -/
def eqIgnoreAsciiCase (a b : String) : Bool := a.toLower == b.toLower

def ScopeExclusion.coversHost (e : ScopeExclusion) (hostTarget hostname name : String) : Bool :=
  e.hosts.isEmpty ||
    e.hosts.any (fun h => [hostTarget, stripPort hostTarget, hostname, name].any (eqIgnoreAsciiCase h))

/-- The `[compliance]` section: framework key, then control id, then exclusion. -/
structure ComplianceConfig where
  notApplicable : List (String × List (String × ScopeExclusion))

/-- A map has each key once. -/
def ComplianceConfig.Keyed (c : ComplianceConfig) : Prop :=
  (c.notApplicable.map (·.1)).Nodup ∧ ∀ entry ∈ c.notApplicable, (entry.2.map (·.1)).Nodup

/-- The same map, iterated in another order. -/
def ComplianceConfig.Reordered (c c' : ComplianceConfig) : Prop :=
  ∃ mid, List.Forall₂ (fun x y => x.1 = y.1 ∧ x.2.Perm y.2) c.notApplicable mid ∧ mid.Perm c'.notApplicable

/-- The exclusions that concern a framework, under whatever spelling of its id, in the
order they are collected. -/
def ComplianceConfig.forFramework (c : ComplianceConfig) (framework : ComplianceFramework) :
    List (String × ScopeExclusion) :=
  (c.notApplicable.filter (fun entry => ComplianceFramework.fromId entry.1 == some framework)).flatMap (·.2)

/-- Collecting them by control id, a later one replaces an earlier one. -/
def ComplianceConfig.excluded (c : ComplianceConfig) (framework : ComplianceFramework) (controlId : String) :
    Option ScopeExclusion :=
  ((c.forFramework framework).reverse.find? (fun entry => entry.1 == controlId)).map (·.2)

/-! ## The civil calendar -/

structure CivilDate where
  year : Nat
  month : Nat
  day : Nat
  deriving DecidableEq, Repr

def daysInMonth (year month : Nat) : Nat :=
  if month = 2 then if year % 4 = 0 ∧ (year % 100 ≠ 0 ∨ year % 400 = 0) then 29 else 28
  else if month ∈ [4, 6, 9, 11] then 30 else 31

def CivilDate.le (a b : CivilDate) : Bool :=
  a.year < b.year || (a.year == b.year && (a.month < b.month || (a.month == b.month && a.day ≤ b.day)))

def digits? (s : List Char) : Option Nat :=
  if s ≠ [] ∧ s.all Char.isDigit then some (s.foldl (fun n c => 10 * n + (c.toNat - '0'.toNat)) 0) else none

/-- `%Y-%m-%d` -/
def CivilDate.parse (s : String) : Option CivilDate :=
  match (s.toList.splitOn '-').map digits? with
  | [some y, some m, some d] => if 1 ≤ m ∧ m ≤ 12 ∧ 1 ≤ d ∧ d ≤ daysInMonth y m then some ⟨y, m, d⟩ else none
  | _ => none

/-- The same day of a later month, or that month's last. -/
def CivilDate.addMonths (d : CivilDate) (n : Nat) : CivilDate :=
  let months := 12 * d.year + (d.month - 1) + n
  let year := months / 12
  let month := months % 12 + 1
  ⟨year, month, min d.day (daysInMonth year month)⟩

def civilCalendar : Calendar where
  Date := CivilDate
  le := CivilDate.le
  parseIsoDate := CivilDate.parse
  checkedAddMonths d n := some (d.addMonths n)

/-! ## What an order changes -/

theorem mem_forFramework {c : ComplianceConfig} {framework : ComplianceFramework} {entry : String × ScopeExclusion} :
    entry ∈ c.forFramework framework ↔
      ∃ key controls, (key, controls) ∈ c.notApplicable ∧ ComplianceFramework.fromId key = some framework ∧
        entry ∈ controls := by
  unfold ComplianceConfig.forFramework
  rw [List.mem_flatMap]
  constructor
  · rintro ⟨⟨key, controls⟩, hmem, he⟩
    obtain ⟨hmem, hid⟩ := List.mem_filter.mp hmem
    exact ⟨key, controls, hmem, by simpa using hid, he⟩
  · rintro ⟨key, controls, hmem, hid, he⟩
    exact ⟨(key, controls), List.mem_filter.mpr ⟨hmem, by simpa using hid⟩, he⟩

/-- The exclusion found is one that names the control. -/
theorem mem_of_excluded {c : ComplianceConfig} {framework : ComplianceFramework} {id : String} {e : ScopeExclusion}
    (h : c.excluded framework id = some e) : (id, e) ∈ c.forFramework framework := by
  unfold ComplianceConfig.excluded at h
  obtain ⟨entry, hfind, rfl⟩ := Option.map_eq_some_iff.mp h
  have hmem := List.mem_of_find?_eq_some hfind
  have hid : entry.1 = id := by simpa using List.find?_some hfind
  rw [← hid]
  exact List.mem_reverse.mp hmem

/-- None is found where none names the control. -/
theorem excluded_eq_none {c : ComplianceConfig} {framework : ComplianceFramework} {id : String} :
    c.excluded framework id = none ↔ ∀ e, (id, e) ∉ c.forFramework framework := by
  unfold ComplianceConfig.excluded
  rw [Option.map_eq_none_iff, List.find?_eq_none]
  constructor
  · intro h e he
    simpa using h (id, e) (List.mem_reverse.mpr he)
  · rintro h ⟨id', e⟩ he hid
    obtain rfl : id' = id := by simpa using hid
    exact h e (List.mem_reverse.mp he)

/-- Another order names the same controls with the same exclusions. -/
theorem mem_forFramework_reordered {c c' : ComplianceConfig} (h : c.Reordered c') {framework : ComplianceFramework}
    {entry : String × ScopeExclusion} : entry ∈ c.forFramework framework ↔ entry ∈ c'.forFramework framework := by
  obtain ⟨mid, hforall, hperm⟩ := h
  have hmid : ∀ {a b : List (String × List (String × ScopeExclusion))},
      List.Forall₂ (fun x y => x.1 = y.1 ∧ x.2.Perm y.2) a b →
      ((∃ key controls, (key, controls) ∈ a ∧ ComplianceFramework.fromId key = some framework ∧ entry ∈ controls) ↔
        ∃ key controls, (key, controls) ∈ b ∧ ComplianceFramework.fromId key = some framework ∧ entry ∈ controls) := by
    intro a b hab
    induction hab with
    | nil => rfl
    | @cons x y a b hxy _ ih =>
      obtain ⟨hkey, hcontrols⟩ := hxy
      simp only [List.mem_cons, or_and_right, exists_or, ih]
      refine or_congr ?_ Iff.rfl
      constructor
      · rintro ⟨key, controls, rfl, hid, he⟩
        exact ⟨y.1, y.2, rfl, hkey ▸ hid, hcontrols.mem_iff.mp he⟩
      · rintro ⟨key, controls, rfl, hid, he⟩
        exact ⟨x.1, x.2, rfl, hkey ▸ hid, hcontrols.mem_iff.mpr he⟩
  rw [mem_forFramework, mem_forFramework, hmid hforall]
  simp only [hperm.mem_iff]

end LinuxHardener.Compliance
