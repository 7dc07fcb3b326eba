import LinuxHardener.Audit.Preview

/-
  What a scan says of the loaded audit rules.

  Correspondence (Rust ↔ Lean):
    the rules arm of `AuditHardeningPlugin::scan` ↔ `ruleFindings`; the body of its loop is `ruleFinding`
    the same arm of `validate`                    ↔ `missingRules`

  A rule's severity and the controls its finding is mapped to are left out, and of the
  exception only whether one is applied is kept.

  `auditctl -l` lists a rule in a form of its own: syscalls joined by commas, the key as a
  field, `unset` as `-1`. `AuditRule` is what a line says apart from that.

  What is proved:
    1. `ruleFindings_none_iff` — a category gets no finding exactly where some loaded rule's
       text contains the category's word.
    2. `missingRules_eq` — the preview counts the scan's findings, without the excepted ones.
    3. `scanHonest_iff` — a silent scan means the category's rules are loaded, exactly where
       they are or the word stands in no loaded rule.
-/
namespace LinuxHardener.Audit

open LineText Plugins

/-! ## The scan -/

structure RuleFinding where
  currentValue : Chars
  description : Chars
  explanation : Chars
  id : Chars
  impact : Chars
  recommendedValue : Chars
  remediationSteps : List Chars
  title : Chars
  exception : Option PolicyException
  exceptionKey : Chars

def ruleFinding (config : PluginConfig) (rule : AuditRuleDirective) : RuleFinding where
  currentValue := "not configured"
  description := rule.description
  explanation := "Audit rule for ".toList ++ rule.category ++ " is not configured. This rule monitors: ".toList ++ rule.description
  id := "audit_rule_".toList ++ rule.category.map fun c => if c = '-' then '_' else c
  impact := "Security events in this category are not being audited"
  recommendedValue := rule.content
  remediationSteps := ["Add rule: ".toList ++ rule.content, "Restart auditd: systemctl restart auditd"]
  title := "Missing audit rule: ".toList ++ rule.category
  exception := config.hasValidException rule.category
  exceptionKey := rule.category

/-- A finding for each required rule whose category no loaded rule mentions. -/
def ruleFindings (config : PluginConfig) (loaded : List Chars) : List RuleFinding :=
  (auditRules.filter fun rule => !loaded.any fun current => contains current rule.category).map (ruleFinding config)

/-! ## Loaded rules -/

/-- What a rule line says, however it is written. -/
structure AuditRule where
  watch : Option Chars
  permissions : Chars
  filter : List Chars
  fields : List Chars
  syscalls : List Chars
  keys : List Chars
  deriving DecidableEq, Repr

/-- A field's value that stands for no login is written three ways. -/
def normalField (field : Chars) : Chars :=
  match rsplitOnce '=' field with
  | some (name, value) => if value = "unset".toList ∨ value = "4294967295".toList then name ++ "=-1".toList else field
  | none => field

def readOption (r : AuditRule) (option value : Chars) : Option AuditRule :=
  if option = "-w".toList then some { r with watch := some (value.reverse.dropWhile (· == '/')).reverse }
  else if option = "-p".toList then some { r with permissions := value }
  else if option = "-k".toList then some { r with keys := value :: r.keys }
  else if option = "-a".toList then some { r with filter := value.splitOn ',' }
  else if option = "-S".toList then some { r with syscalls := r.syscalls ++ value.splitOn ',' }
  else if option = "-F".toList then
    match stripStart "key=" value with
    | some key => some { r with keys := key :: r.keys }
    | none => some { r with fields := normalField value :: r.fields }
  else none

def readOptions : List Chars → AuditRule → Option AuditRule
  | [], r => some r
  | [_], _ => none
  | option :: value :: rest, r => (readOption r option value).bind (readOptions rest)

def readRule (line : Chars) : Option AuditRule := readOptions (words line) ⟨none, [], [], [], [], []⟩

/-- The same members, in any order. -/
def sameMembers {α : Type} [DecidableEq α] (a b : List α) : Bool := a.all b.contains && b.all a.contains

def AuditRule.same (a b : AuditRule) : Bool :=
  a.watch == b.watch && sameMembers a.permissions b.permissions && sameMembers a.filter b.filter &&
    sameMembers a.fields b.fields && sameMembers a.syscalls b.syscalls && sameMembers a.keys b.keys

/-- The loaded line is the required rule, its key included. -/
def loads (line : Chars) (rule : AuditRuleDirective) : Bool :=
  match readRule line, readRule rule.content with
  | some a, some b => a.same b
  | _, _ => false

/-- Every rule the plugin requires for the category is loaded. -/
def RequiredLoaded (loaded : List Chars) (category : Chars) : Prop := ∀ rule ∈ rulesOf category, ∃ line ∈ loaded, loads line rule = true

instance (loaded : List Chars) (category : Chars) : Decidable (RequiredLoaded loaded category) :=
  inferInstanceAs (Decidable (∀ _ ∈ _, _))

/-! ## What the scan judges -/

/-- The scan reports nothing for the category. -/
def Silent (config : PluginConfig) (loaded : List Chars) (category : Chars) : Prop :=
  ∀ f ∈ ruleFindings config loaded, f.exceptionKey ≠ category

variable {config : PluginConfig} {loaded : List Chars} {category : Chars}

theorem mem_ruleFindings {f : RuleFinding} : f ∈ ruleFindings config loaded ↔
    ∃ rule ∈ auditRules, (∀ line ∈ loaded, contains line rule.category = false) ∧ ruleFinding config rule = f := by
  simp [ruleFindings, and_assoc]

theorem exists_rule (h : category ∈ ruleCategories) : ∃ rule ∈ auditRules, rule.category = category := by
  have hall : ruleCategories.all (fun category => auditRules.any fun rule => rule.category == category) = true := by decide +kernel
  obtain ⟨rule, hrule, he⟩ := List.any_eq_true.mp (List.all_eq_true.mp hall category h)
  exact ⟨rule, hrule, beq_iff_eq.mp he⟩

/-- A word is looked for, not a rule. -/
theorem ruleFindings_none_iff (h : category ∈ ruleCategories) :
    Silent config loaded category ↔ ∃ line ∈ loaded, contains line category = true := by
  constructor
  · intro hsilent
    by_contra hnone
    obtain ⟨rule, hrule, rfl⟩ := exists_rule h
    have hmissing : ∀ line ∈ loaded, contains line rule.category = false := fun line hline =>
      eq_false_of_ne_true fun hc => hnone ⟨line, hline, hc⟩
    exact hsilent (ruleFinding config rule) (mem_ruleFindings.mpr ⟨rule, hrule, hmissing, rfl⟩) rfl
  · rintro ⟨line, hline, hc⟩ f hf hkey
    obtain ⟨rule, _, hmissing, rfl⟩ := mem_ruleFindings.mp hf
    have hkey : rule.category = category := hkey
    rw [← hkey, hmissing line hline] at hc
    cases hc

/-- The preview counts what the scan reports, without the excepted categories. -/
theorem missingRules_eq (config : PluginConfig) (loaded : List Chars) :
    missingRules config loaded = (ruleFindings config loaded).countP fun f => f.exception.isNone := by
  rw [ruleFindings, List.countP_map, List.countP_filter]
  rfl

/-- A silent scan means that the rules of the category are loaded; scan and preview agree. -/
structure ScanHonest (config : PluginConfig) (loaded : List Chars) (category : Chars) : Prop where
  honest : Silent config loaded category → RequiredLoaded loaded category
  alike : missingRules config loaded = (ruleFindings config loaded).countP fun f => f.exception.isNone

theorem scanHonest_iff (h : category ∈ ruleCategories) : ScanHonest config loaded category ↔
    RequiredLoaded loaded category ∨ ∀ line ∈ loaded, contains line category = false := by
  constructor
  · intro hhonest
    by_cases hword : ∃ line ∈ loaded, contains line category = true
    · exact .inl (hhonest.honest ((ruleFindings_none_iff h).mpr hword))
    · exact .inr fun line hline => eq_false_of_ne_true fun hc => hword ⟨line, hline, hc⟩
  · intro hcases
    refine ⟨fun hsilent => ?_, missingRules_eq config loaded⟩
    obtain ⟨line, hline, hc⟩ := (ruleFindings_none_iff h).mp hsilent
    obtain hloaded | hno := hcases
    · exact hloaded
    · rw [hno line hline] at hc
      cases hc

/-- The rule of the category `delete` as `auditctl -l` lists it. -/
def listedDelete : Chars :=
  "-a always,exit -F arch=b64 -S rename,unlink,unlinkat,renameat -F auid>=1000 -F auid!=-1 -F key=delete"

theorem scanHonest_iff_delete : ScanHonest ⟨fun _ => none, fun _ => none⟩ [listedDelete] "delete".toList :=
  (scanHonest_iff (by decide +kernel)).mpr (.inl (by decide +kernel))

/-- A rule that watches the loading of kernel modules, with a key of its own. -/
def moduleSyscalls : Chars := "-a always,exit -F arch=b64 -S init_module,delete_module -F key=kernel-modules"

/-- It names a system call with `delete` in it, and hides that no deletion is watched. -/
theorem scanHonest_hidden : ¬ ScanHonest ⟨fun _ => none, fun _ => none⟩ [moduleSyscalls] "delete".toList := by
  intro h
  have hsilent : Silent ⟨fun _ => none, fun _ => none⟩ [moduleSyscalls] "delete".toList :=
    (ruleFindings_none_iff (by decide +kernel)).mpr ⟨moduleSyscalls, List.mem_singleton_self _, by decide +kernel⟩
  have hloaded := h.honest hsilent
  revert hloaded
  decide +kernel

end LinuxHardener.Audit
