import LinuxHardener.Plugins.Backups

/-
  The audit rules file: the table of rules and the text rendered from it.

  Correspondence (Rust ↔ Lean):
    `AUDIT_RULES`, `AUDIT_RULES_PATH`, `AUDIT_RULES_DIR` ↔ the same in camel case
    `AUDIT_BACKLOG_PRELUDE`  ↔ `auditBacklogPrelude`
    `rendered_rules_file`    ↔ `renderedRulesFile`, the part of one category `renderCategory`

  A rule's severity, which only a scan reads, is left out.
-/
namespace LinuxHardener.Audit

open LineText Plugins

structure AuditRuleDirective where
  category : Chars
  content : Chars
  description : Chars
  deriving DecidableEq, Repr

def auditRules : List AuditRuleDirective :=
  [⟨"time-change", "-a always,exit -F arch=b64 -S adjtimex -S settimeofday -k time-change",
      "Monitor system time modifications (64-bit)"⟩,
    ⟨"time-change", "-a always,exit -F arch=b32 -S adjtimex -S settimeofday -k time-change",
      "Monitor system time modifications (32-bit)"⟩,
    ⟨"time-change", "-a always,exit -F arch=b64 -S clock_settime -k time-change",
      "Monitor clock_settime syscall (64-bit)"⟩,
    ⟨"time-change", "-w /etc/localtime -p wa -k time-change",
      "Monitor timezone configuration changes"⟩,
    ⟨"identity", "-w /etc/passwd -p wa -k identity",
      "Monitor user account file modifications"⟩,
    ⟨"identity", "-w /etc/shadow -p wa -k identity",
      "Monitor password hash file modifications"⟩,
    ⟨"identity", "-w /etc/group -p wa -k identity",
      "Monitor group account file modifications"⟩,
    ⟨"identity", "-w /etc/gshadow -p wa -k identity",
      "Monitor group password file modifications"⟩,
    ⟨"identity", "-w /etc/security/opasswd -p wa -k identity",
      "Monitor password history file modifications"⟩,
    ⟨"network-change", "-a always,exit -F arch=b64 -S sethostname -S setdomainname -k network-change",
      "Monitor hostname and domain name changes (64-bit)"⟩,
    ⟨"network-change", "-w /etc/hosts -p wa -k network-change",
      "Monitor hosts file modifications"⟩,
    ⟨"network-change", "-w /etc/network/ -p wa -k network-change",
      "Monitor network configuration directory"⟩,
    ⟨"perm-mod", "-a always,exit -F arch=b64 -S chmod -S fchmod -S fchmodat -F auid>=1000 -F auid!=unset -k perm-mod",
      "Monitor file permission changes by users"⟩,
    ⟨"perm-mod", "-a always,exit -F arch=b64 -S chown -S fchown -S fchownat -S lchown -F auid>=1000 -F auid!=unset -k perm-mod",
      "Monitor file ownership changes by users"⟩,
    ⟨"perm-mod", "-a always,exit -F arch=b64 -S setxattr -S lsetxattr -S fsetxattr -F auid>=1000 -F auid!=unset -k perm-mod",
      "Monitor extended attribute changes by users"⟩,
    ⟨"privileged", "-w /usr/bin/sudo -p x -k privileged",
      "Monitor sudo command execution"⟩,
    ⟨"privileged", "-w /usr/bin/su -p x -k privileged",
      "Monitor su command execution"⟩,
    ⟨"privileged", "-w /usr/bin/passwd -p wa -k privileged",
      "Monitor passwd command execution"⟩,
    ⟨"delete", "-a always,exit -F arch=b64 -S unlink -S unlinkat -S rename -S renameat -F auid>=1000 -F auid!=unset -k delete",
      "Monitor file deletion and renaming by users"⟩,
    ⟨"modules", "-w /sbin/insmod -p x -k modules",
      "Monitor kernel module insertion"⟩,
    ⟨"modules", "-w /sbin/rmmod -p x -k modules",
      "Monitor kernel module removal"⟩,
    ⟨"modules", "-w /sbin/modprobe -p x -k modules",
      "Monitor modprobe execution"⟩]

def auditRulesPath : Chars := "/etc/audit/rules.d/hardening.rules"

def auditRulesDir : Chars := "/etc/audit/rules.d"

/-- The settings of the kernel's queue that the file opens with. -/
def auditBacklogPrelude : Chars :=
  "# BACKLOG\n# Kernel audit queue: absorb bursts, drop rather than stall on overflow\n-b 65536\n--backlog_wait_time 0\n\n"

def fileHeader : Chars := "# Audit rules generated by Linux Hardening Tool\n# DO NOT EDIT - Changes will be overwritten\n\n"

/-- The categories in file order. -/
def ruleCategories : List Chars :=
  ["time-change", "identity", "network-change", "perm-mod", "privileged", "delete", "modules"]

def toUppercase (s : Chars) : Chars := s.map Char.toUpper

def rulesOf (category : Chars) : List AuditRuleDirective := auditRules.filter fun r => r.category == category

def renderRule (rule : AuditRuleDirective) : Chars :=
  "# ".toList ++ rule.description ++ "\n".toList ++ (rule.content ++ "\n\n".toList)

/-- What the file says of a category: that it is skipped, or its rules. -/
def renderCategory (config : PluginConfig) (category : Chars) : Chars :=
  match config.hasValidException category with
  | some e => "# ".toList ++ toUppercase category ++ ": SKIPPED (exception: ".toList ++ e.reason ++ ")\n\n".toList
  | none => "# ".toList ++ toUppercase category ++ "\n".toList ++ (rulesOf category).flatMap renderRule

/-- The file wanted on disk, and the categories left out of it. -/
def renderedRulesFile (config : PluginConfig) : Chars × List Chars :=
  (fileHeader ++ auditBacklogPrelude ++ ruleCategories.flatMap (renderCategory config),
    ruleCategories.filter fun category => (config.hasValidException category).isSome)

/-! ## What auditctl reads of a file -/

/-- A line that is neither blank nor a comment. -/
def isLive (line : Chars) : Bool :=
  match trim line with
  | [] => false
  | c :: _ => c != '#'

/-- The directives of a rules file, in order. -/
def liveLines (content : Chars) : List Chars := (lines content).filter isLive

theorem liveLines_append {s : Chars} (hs : Whole s) (t : Chars) : liveLines (s ++ t) = liveLines s ++ liveLines t := by
  rw [liveLines, lines_append hs, List.filter_append]
  rfl

/-! ## The prelude -/

/-- The directives that every rendered file opens with. -/
def preludeLines : List Chars := ["-b 65536", "--backlog_wait_time 0"]

/-- The two texts in front, by their characters. -/
theorem prelude_chars : ∃ s, fileHeader ++ auditBacklogPrelude = s ∧ Whole s ∧ liveLines s = preludeLines := by
  have hheader : fileHeader = (_ : Chars) := String.toList_ofList
  have hbacklog : auditBacklogPrelude = (_ : Chars) := String.toList_ofList
  rw [hheader, hbacklog]
  exact ⟨_, rfl, by decide +kernel, by decide +kernel⟩

theorem whole_prelude : Whole (fileHeader ++ auditBacklogPrelude) := by
  obtain ⟨s, hs, hwhole, -⟩ := prelude_chars
  rw [hs]
  exact hwhole

theorem liveLines_prelude : liveLines (fileHeader ++ auditBacklogPrelude) = preludeLines := by
  obtain ⟨s, hs, -, hlive⟩ := prelude_chars
  rw [hs]
  exact hlive

/-! ## The categories -/

theorem isLive_comment {l : Chars} (h : (trim l).head? = some '#') : isLive l = false := by
  unfold isLive
  cases ht : trim l with
  | nil => rfl
  | cons c s =>
    rw [ht] at h
    cases h
    rfl

theorem whole_renderRule (rule : AuditRuleDirective) : Whole (renderRule rule) := by
  unfold renderRule
  exact .inr (by rw [List.getLast?_append, List.getLast?_append]; rfl)

/-- A rule of one line under a description of one line. -/
theorem liveLines_renderRule_of {rule : AuditRuleDirective} (hdescription : '\n' ∉ rule.description) (hcontent : '\n' ∉ rule.content)
    (hend : stripTerminator (rule.content ++ ['\n']) = rule.content) (hlive : isLive rule.content = true) :
    liveLines (renderRule rule) = [rule.content] := by
  have hcomment : isLive (stripTerminator (('#' :: ' ' :: rule.description) ++ ['\n'])) = false :=
    isLive_comment (by rw [trim_stripTerminator, trim_concat isWhitespace_newline]; exact head_trim_cons (by decide) _)
  have hline : '\n' ∉ '#' :: ' ' :: rule.description := by simp [hdescription]
  have hcut : renderRule rule = ('#' :: ' ' :: rule.description) ++ '\n' :: (rule.content ++ '\n' :: ['\n']) := by simp [renderRule]
  have hblank : (lines ['\n']).filter isLive = [] := by decide
  rw [hcut, liveLines, lines_cons hline, lines_cons hcontent, hend, List.filter_cons_of_neg (by rw [hcomment]; nofun),
    List.filter_cons_of_pos hlive, hblank]

/-- What a rule needs to be read back from under its description. -/
def OneLine (rule : AuditRuleDirective) : Prop :=
  '\n' ∉ rule.description ∧ '\n' ∉ rule.content ∧ stripTerminator (rule.content ++ ['\n']) = rule.content ∧ isLive rule.content = true

instance (rule : AuditRuleDirective) : Decidable (OneLine rule) := instDecidableAnd

/-- Of a rule in two literal texts, by their characters. -/
theorem oneLine_ofList {category : Chars} (content description : Chars) (h : OneLine ⟨category, content, description⟩) :
    OneLine ⟨category, (String.ofList content).toList, (String.ofList description).toList⟩ := by
  rw [String.toList_ofList, String.toList_ofList]
  exact h

theorem oneLine_auditRules : ∀ rule ∈ auditRules, OneLine rule := by
  unfold auditRules
  repeat refine List.forall_mem_cons.mpr ⟨oneLine_ofList _ _ (by decide +kernel), ?_⟩
  exact List.forall_mem_nil _

theorem liveLines_renderRule {rule : AuditRuleDirective} (h : rule ∈ auditRules) :
    liveLines (renderRule rule) = [rule.content] := by
  obtain ⟨hdescription, hcontent, hend, hlive⟩ := oneLine_auditRules rule h
  exact liveLines_renderRule_of hdescription hcontent hend hlive

/-- The live lines of a category's part of the file. -/
def liveCategory (config : PluginConfig) (category : Chars) : List Chars :=
  match config.hasValidException category with
  | some e => (strayLines e.reason).filter isLive
  | none => (rulesOf category).map AuditRuleDirective.content

theorem liveLines_renderRules (category : Chars) :
    liveLines ((rulesOf category).flatMap renderRule) = (rulesOf category).map AuditRuleDirective.content := by
  have hmem : ∀ rule ∈ rulesOf category, rule ∈ auditRules := fun rule h => (List.mem_filter.mp h).1
  rw [liveLines, lines_flatMap fun rule _ => whole_renderRule rule, List.filter_flatMap]
  calc (rulesOf category).flatMap (fun rule => (lines (renderRule rule)).filter isLive)
      = (rulesOf category).flatMap fun rule => [rule.content] :=
        List.flatMap_congr fun rule h => liveLines_renderRule (hmem rule h)
    _ = (rulesOf category).map AuditRuleDirective.content := List.map_eq_flatMap.symm

theorem upper_line {category : Chars} (h : category ∈ ruleCategories) : '\n' ∉ toUppercase category := by
  have hall : ∀ category ∈ ruleCategories, '\n' ∉ toUppercase category := by decide +kernel
  exact hall category h

theorem liveLines_renderCategory (config : PluginConfig) {category : Chars} (h : category ∈ ruleCategories) :
    Whole (renderCategory config category) ∧ liveLines (renderCategory config category) = liveCategory config category := by
  have hupper := upper_line h
  unfold renderCategory liveCategory
  cases config.hasValidException category with
  | some e =>
    have hline : '\n' ∉ '#' :: (' ' :: toUppercase category ++ ": SKIPPED (exception: ".toList) := by simp [hupper]
    have hne : e.reason ++ ")\n".toList ≠ [] := by simp
    obtain ⟨l, hl, hhead⟩ := lines_prepend (by decide) hline hne
    have hcut : "# ".toList ++ toUppercase category ++ ": SKIPPED (exception: ".toList ++ e.reason ++ ")\n\n".toList =
        (('#' :: (' ' :: toUppercase category ++ ": SKIPPED (exception: ".toList)) ++ (e.reason ++ ")\n".toList)) ++
          "\n".toList := by
      simp
    have hwhole : Whole (('#' :: (' ' :: toUppercase category ++ ": SKIPPED (exception: ".toList)) ++
        (e.reason ++ ")\n".toList)) :=
      .inr (by rw [List.getLast?_append, List.getLast?_append]; rfl)
    have hblank : liveLines "\n".toList = [] := by decide
    refine ⟨.inr (by rw [List.getLast?_append]; rfl), ?_⟩
    dsimp only
    rw [hcut, liveLines_append hwhole, hblank, List.append_nil, liveLines, hl, List.filter_cons, isLive_comment hhead]
    rfl
  | none =>
    have hline : '\n' ∉ '#' :: ' ' :: toUppercase category := by simp [hupper]
    have hcut : "# ".toList ++ toUppercase category ++ "\n".toList ++ (rulesOf category).flatMap renderRule =
        ('#' :: ' ' :: toUppercase category) ++ '\n' :: (rulesOf category).flatMap renderRule := by
      simp
    have hcomment : isLive (stripTerminator (('#' :: ' ' :: toUppercase category) ++ ['\n'])) = false :=
      isLive_comment (by rw [trim_stripTerminator, trim_concat isWhitespace_newline]; exact head_trim_cons (by decide) _)
    have hheading : Whole ("# ".toList ++ toUppercase category ++ "\n".toList) :=
      .inr (by rw [List.getLast?_append]; rfl)
    refine ⟨hheading.append (whole_flatMap fun rule _ => whole_renderRule rule), ?_⟩
    dsimp only
    rw [hcut, liveLines, lines_cons hline, List.filter_cons, hcomment]
    exact liveLines_renderRules category

theorem liveLines_renderedRulesFile (config : PluginConfig) :
    liveLines (renderedRulesFile config).1 = preludeLines ++ ruleCategories.flatMap (liveCategory config) := by
  have hcategories : liveLines (ruleCategories.flatMap (renderCategory config)) =
      ruleCategories.flatMap fun category => liveLines (renderCategory config category) := by
    rw [liveLines, lines_flatMap fun category h => (liveLines_renderCategory config h).1, List.filter_flatMap]
    rfl
  show liveLines (fileHeader ++ auditBacklogPrelude ++ ruleCategories.flatMap (renderCategory config)) = _
  rw [liveLines_append whole_prelude, liveLines_prelude, hcategories]
  exact congrArg _ (List.flatMap_congr fun category h => (liveLines_renderCategory config h).2)

end LinuxHardener.Audit
