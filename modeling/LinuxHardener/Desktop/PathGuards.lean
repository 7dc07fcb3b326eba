import LinuxHardener.Lib.LineText
import LinuxHardener.Lib.Cut
import LinuxHardener.Lib.PathWalk

/-
  The path guards of the desktop's commands (`src-tauri`, `validation.rs`): what a report may
  be written to, and what a configuration may be read from.

  A guard looks at the text of the path it is given. What is read or written is where the
  kernel's walk of that text ends (`PathWalk`).

  Correspondence (Rust ↔ Lean):
    `validate_ipc_string`, `reject_path_traversal`  ↔ `validateIpcString`, `rejectPathTraversal`
    `is_dangerous_path`, `expand_home`              ↔ `isDangerousPath`, `expandHome`
    `Path::{components, starts_with, extension}`    ↔ `components`, `startsWith`, `extension`
    `validate_user_config_path`                     ↔ `validateUserConfigPath`
    `validate_output_path`                          ↔ `validateOutputPath`

  What is proved:
    1. `leads_unlinked` — a path with no link on its way leads where its names say, or nowhere.
    2. `judgesFile_iff` — when the guards judge the file.
    3. `linked_report` — they do not when a link stands where the report is to be written.
-/
namespace LinuxHardener.Desktop

open LineText
open FileTree

/-- What the process has: its file tree and working directory, and the user's directories. -/
structure Session where
  fs : Tree
  cwd : Loc
  cwd_above : DirsAbove fs cwd
  cwd_dir : ∃ a, fs.get cwd = some (.dir a)
  home : Option Chars
  documentDir : Option Chars
  downloadDir : Option Chars

/-! ## Paths as texts -/

inductive Component where
  | rootDir
  | curDir
  | parentDir
  | normal (name : Chars)
  deriving DecidableEq, Repr

def component (word : Chars) : Option Component :=
  if word = [] ∨ word = ['.'] then none else if word = ['.', '.'] then some .parentDir else some (.normal word)

/-- A `.` counts at the head of a relative path only. -/
def components (path : Chars) : List Component :=
  let words := path.splitOn '/'
  if path.head? = some '/' then .rootDir :: words.filterMap component
  else if words.head? = some ['.'] then .curDir :: words.filterMap component
  else words.filterMap component

def startsWith (path dir : Chars) : Bool := (components dir).isPrefixOf (components path)

/-- `Path::join` -/
def joinPath (dir path : Chars) : Chars :=
  if path.head? = some '/' then path
  else if dir = [] ∨ dir.getLast? = some '/' then dir ++ path
  else dir ++ '/' :: path

def extension (path : Chars) : Option Chars :=
  match (components path).getLast? with
  | some (.normal name) =>
    match rsplitOnce '.' name with
    | some (stem, ext) => if stem = [] then none else some ext
    | none => none
  | _ => none

/-! ## The guards -/

def maxIpcStringLen : Nat := 4096

def isControl (b : UInt8) : Bool := (b < 0x20 && b != 0x09) || b == 0x7f

def validateIpcString (s fieldName : Chars) : Except Chars Unit :=
  let bytes := utf8 (String.ofList s)
  if maxIpcStringLen < bytes.length then
    .error (fieldName ++ " exceeds maximum length (".toList ++ decimal bytes.length ++ " > 4096)".toList)
  else match bytes.findIdx? isControl with
    | some pos => .error (fieldName ++ " contains invalid control character at byte ".toList ++ decimal pos)
    | none => .ok ()

def rejectPathTraversal (path : Chars) : Except Chars Unit :=
  if Component.parentDir ∈ components path then .error ("Path traversal not allowed: '".toList ++ path ++ ['\'']) else .ok ()

def dangerousPrefixes : List Chars := ["/proc/".toList, "/sys/".toList, "/dev/".toList]

def dangerousPaths : List Chars := ["/etc/shadow".toList, "/etc/passwd".toList, "/etc/sudoers".toList]

def dangerousDotfiles : List Chars :=
  [".bashrc".toList, ".bash_profile".toList, ".zshrc".toList, ".profile".toList, ".ssh".toList, ".gnupg".toList,
    ".config/systemd".toList]

namespace Session

variable (session : Session)

def isDangerousPath (path : Chars) : Bool :=
  dangerousPrefixes.any (fun start => start.isPrefixOf path) || dangerousPaths.contains path ||
    session.home.any fun home => dangerousDotfiles.any fun dotfile => (home ++ '/' :: dotfile).isPrefixOf path

def expandHome (path : Chars) : Except Chars Chars :=
  match stripStart "~/".toList path with
  | some rest =>
    match session.home with
    | some home => .ok (joinPath home rest)
    | none => .error "Cannot determine home directory".toList
  | none => .ok path

def validateUserConfigPath (path : Chars) : Except Chars Chars := do
  validateIpcString path "config_path".toList
  let expanded ← session.expandHome path
  rejectPathTraversal expanded
  if session.isDangerousPath expanded then
    throw ("Config path '".toList ++ path ++ "' targets a restricted location".toList)
  if extension expanded = some "toml".toList then return expanded
  else throw ("Config path '".toList ++ path ++ "' must have a .toml extension".toList)

def safeExportDirs : List Chars := ["Documents".toList, "Downloads".toList, "Desktop".toList]

/-- The directories under the user's home, and those the desktop environment names. -/
def homeExportDirs (home : Chars) : List Chars :=
  safeExportDirs.map (joinPath home) ++ session.documentDir.toList ++ session.downloadDir.toList

def validateOutputPath (path : Chars) : Except Chars Chars := do
  validateIpcString path "output_path".toList
  let expanded ← session.expandHome path
  rejectPathTraversal expanded
  if session.isDangerousPath expanded then
    throw ("Output path '".toList ++ path ++ "' targets a restricted location".toList)
  if "/tmp/".toList.isPrefixOf expanded then return expanded
  if session.home.any fun home => (session.homeExportDirs home).any (startsWith expanded) then return expanded
  throw ("Output path '".toList ++ path ++ "' is outside allowed directories (~/Documents/, ~/Downloads/, ~/Desktop/, /tmp/)".toList)

/-! ## Where a path leads -/

def start (path : Chars) : Loc := if path.head? = some '/' then [] else session.cwd

def comps (path : Chars) : List Comp := parse (String.ofList path)

/-- The kernel's walk of a path ends here; the last name need not be there yet. -/
def Leads (path : Chars) (l : Loc) : Prop := ∃ links, walk session.fs true maxSymlinks (session.start path) (comps path) = .ok (l, links)

def exportDirs : List Chars := "/tmp".toList :: session.home.toList.flatMap session.homeExportDirs

/-- An entry below an allowed directory. -/
def Inside (l : Loc) : Prop := l ≠ [] ∧ ∃ dir ∈ session.exportDirs, ∃ d, session.Leads dir d ∧ d <+: l.dropLast

def kernelDirs : List Loc := [[⟨"proc", by decide⟩], [⟨"sys", by decide⟩], [⟨"dev", by decide⟩]]

def accountFiles : List Loc :=
  [[⟨"etc", by decide⟩, ⟨"shadow", by decide⟩], [⟨"etc", by decide⟩, ⟨"passwd", by decide⟩], [⟨"etc", by decide⟩, ⟨"sudoers", by decide⟩]]

def dotfiles : List Loc :=
  [[⟨".bashrc", by decide⟩], [⟨".bash_profile", by decide⟩], [⟨".zshrc", by decide⟩], [⟨".profile", by decide⟩], [⟨".ssh", by decide⟩],
    [⟨".gnupg", by decide⟩], [⟨".config", by decide⟩, ⟨"systemd", by decide⟩]]

/-- Below the kernel's directories, an account file, or at or below a dotfile of the user. -/
def Restricted (l : Loc) : Prop :=
  (∃ d ∈ kernelDirs, d <+: l ∧ d ≠ l) ∨ l ∈ accountFiles ∨
    ∃ home, session.home = some home ∧ ∃ h, session.Leads home h ∧ ∃ d ∈ dotfiles, h ++ d <+: l

/-- A report path that is accepted leads inside an export directory, and no path that is accepted
leads to a restricted location. -/
structure JudgesFile (path : Chars) : Prop where
  inside : ∀ q, session.validateOutputPath path = .ok q → ∃ l, session.Leads q l ∧ session.Inside l
  unrestricted : ∀ q, session.validateOutputPath path = .ok q ∨ session.validateUserConfigPath path = .ok q →
    ∀ l, session.Leads q l → ¬ session.Restricted l

/-! ## What the names of a path say -/

def nameOf : Comp → Option Name
  | .up => none
  | .name n => some n

/-- The names of a path, `..` left out. -/
def namesOf (path : Chars) : Loc := (comps path).filterMap nameOf

/-- The location a path spells. -/
def named (path : Chars) : Loc := session.start path ++ namesOf path

/-- No `..` in it, and no link at any location on its way or at its end. -/
def Unlinked (path : Chars) : Prop := Comp.up ∉ comps path ∧ ∀ l, l <+: session.named path → NotLink session.fs l

variable {session}

theorem comps_eq {path : Chars} (h : Comp.up ∉ comps path) : comps path = (namesOf path).map .name := by
  unfold namesOf
  generalize comps path = cs at h
  induction cs with
  | nil => rfl
  | cons c cs ih =>
    rw [List.mem_cons, not_or] at h
    obtain ⟨hc, hcs⟩ := h
    cases c with
    | up => exact absurd rfl hc
    | name n =>
      have hhead : nameOf (.name n) = some n := rfl
      rw [List.filterMap_cons_some hhead, List.map_cons, ← ih hcs]

theorem start_above (path : Chars) : DirsAbove session.fs (session.start path) ∧ ∃ a, session.fs.get (session.start path) = some (.dir a) := by
  unfold start
  split
  · exact ⟨dirsAbove_nil _, _, session.fs.get_root⟩
  · exact ⟨session.cwd_above, session.cwd_dir⟩

/-- Above a longer location are those above a shorter one, it, and those between. -/
theorem dirsAbove_append {fs : Tree} {cur l : Loc} (hcur : DirsAbove fs cur) :
    DirsAbove fs (cur ++ l) ↔ ∀ p, p <+: l → p ≠ l → ∃ a, fs.get (cur ++ p) = some (.dir a) := by
  constructor
  · intro h p hp hne
    exact h (cur ++ p) ((List.prefix_append_right_inj cur).mpr hp) fun he => hne (List.append_cancel_left he)
  · intro h p hp hne
    rcases List.prefix_or_prefix_of_prefix hp (List.prefix_append cur l) with hcase | hcase
    · by_cases he : p = cur
      · subst he
        by_cases hl : l = []
        · exact absurd (by rw [hl, List.append_nil]) hne
        · have hself := h [] List.nil_prefix (Ne.symm hl)
          rwa [List.append_nil] at hself
      · exact hcur p hcase he
    · obtain ⟨t, rfl⟩ := hcase
      exact h t ((List.prefix_append_right_inj cur).mp hp) fun he => hne (congrArg (cur ++ ·) he)

/-- A path with no link on its way leads where its names say, if directories lead there. -/
theorem leads_unlinked {path : Chars} (h : session.Unlinked path) {l : Loc} :
    session.Leads path l ↔ l = session.named path ∧ DirsAbove session.fs (session.named path) := by
  obtain ⟨hup, hlinks⟩ := h
  have hbelow : ∀ p, p <+: namesOf path → NotLink session.fs (session.start path ++ p) := fun p hp =>
    hlinks _ ((List.prefix_append_right_inj _).mpr hp)
  unfold Leads named
  rw [comps_eq hup, dirsAbove_append (start_above path).1]
  constructor
  · intro h
    obtain ⟨links, h⟩ := h
    obtain ⟨heq, hdirs⟩ := walk_plain _ _ _ _ _ _ (fun p hp _ => hbelow p hp) (fun _ _ => hbelow _ (List.prefix_refl _)) h
    exact ⟨congrArg Prod.fst heq, hdirs⟩
  · intro h
    obtain ⟨rfl, hdirs⟩ := h
    exact ⟨_, walk_dirs _ _ _ _ _ hdirs fun _ _ => hbelow _ (List.prefix_refl _)⟩

/-! ## What the guards ask of a text -/

variable (session)

/-- The tests of a report path, on its text. -/
def acceptsOutput (q : Chars) : Bool :=
  decide (Component.parentDir ∉ components q) && !session.isDangerousPath q &&
    ("/tmp/".toList.isPrefixOf q || session.home.any fun home => (session.homeExportDirs home).any (startsWith q))

/-- The tests of a configuration path. -/
def acceptsConfig (q : Chars) : Bool :=
  decide (Component.parentDir ∉ components q) && !session.isDangerousPath q && decide (extension q = some "toml".toList)

variable {session}

/-- What both guards ask before anything else. -/
theorem guarded_ok {check : Except Chars Unit} {path message q : Chars} {rest : Chars → Except Chars Chars} :
    (do
      check
      let expanded ← session.expandHome path
      rejectPathTraversal expanded
      if session.isDangerousPath expanded then throw message
      rest expanded) = .ok q ↔
    check = .ok () ∧ ∃ expanded, session.expandHome path = .ok expanded ∧ Component.parentDir ∉ components expanded ∧
      session.isDangerousPath expanded = false ∧ rest expanded = .ok q := by
  constructor
  · intro h
    obtain ⟨⟨⟩, hcheck, h⟩ := bind_eq_ok.mp h
    obtain ⟨expanded, hexpanded, h⟩ := bind_eq_ok.mp h
    obtain ⟨⟨⟩, hup, h⟩ := bind_eq_ok.mp h
    refine ⟨hcheck, expanded, hexpanded, ?_, ?_⟩
    · unfold rejectPathTraversal at hup
      split at hup
      · cases hup
      · next hnot => exact hnot
    · split at h
      · cases h
      · next hdangerous => exact ⟨Bool.eq_false_iff.mpr hdangerous, h⟩
  · intro h
    obtain ⟨hcheck, expanded, hexpanded, hup, hdangerous, h⟩ := h
    rw [hcheck, hexpanded]
    refine bind_eq_ok.mpr ⟨(), rfl, bind_eq_ok.mpr ⟨expanded, rfl, bind_eq_ok.mpr ⟨(), if_neg hup, ?_⟩⟩⟩
    rw [hdangerous]
    exact h

theorem validateOutputPath_ok {path q : Chars} : session.validateOutputPath path = .ok q ↔
    validateIpcString path "output_path".toList = .ok () ∧ session.expandHome path = .ok q ∧ session.acceptsOutput q = true := by
  refine guarded_ok.trans (and_congr_right fun _ => ?_)
  unfold acceptsOutput
  constructor
  · intro h
    obtain ⟨expanded, hexpanded, hup, hdangerous, h⟩ := h
    split at h
    · next htmp =>
      obtain rfl := Except.ok.inj h
      exact ⟨hexpanded, by rw [hdangerous, htmp, decide_eq_true hup]; rfl⟩
    · split at h
      · next hhome =>
        obtain rfl := Except.ok.inj h
        exact ⟨hexpanded, by rw [hdangerous, hhome, decide_eq_true hup, Bool.or_true]; rfl⟩
      · cases h
  · intro h
    obtain ⟨hexpanded, h⟩ := h
    rw [Bool.and_eq_true, Bool.and_eq_true, Bool.or_eq_true, Bool.not_eq_true', decide_eq_true_eq] at h
    obtain ⟨⟨hup, hdangerous⟩, hwhere⟩ := h
    refine ⟨q, hexpanded, hup, hdangerous, ?_⟩
    split
    · rfl
    · next htmp => exact if_pos (hwhere.resolve_left htmp)

theorem validateUserConfigPath_ok {path q : Chars} : session.validateUserConfigPath path = .ok q ↔
    validateIpcString path "config_path".toList = .ok () ∧ session.expandHome path = .ok q ∧ session.acceptsConfig q = true := by
  refine guarded_ok.trans (and_congr_right fun _ => ?_)
  unfold acceptsConfig
  constructor
  · intro h
    obtain ⟨expanded, hexpanded, hup, hdangerous, h⟩ := h
    split at h
    · next hext =>
      obtain rfl := Except.ok.inj h
      exact ⟨hexpanded, by rw [hdangerous, decide_eq_true hup, decide_eq_true hext]; rfl⟩
    · cases h
  · intro h
    obtain ⟨hexpanded, h⟩ := h
    rw [Bool.and_eq_true, Bool.and_eq_true, Bool.not_eq_true', decide_eq_true_eq, decide_eq_true_eq] at h
    obtain ⟨⟨hup, hdangerous⟩, hext⟩ := h
    exact ⟨q, hexpanded, hup, hdangerous, if_pos hext⟩

/-! ## When the guards judge the file -/

variable (session)

/-- By what stands at the location its names spell, or else by where a link on the way leads. -/
structure ReportInPlace (q : Chars) : Prop where
  unlinked : session.Unlinked q → DirsAbove session.fs (session.named q) ∧ session.Inside (session.named q) ∧
    ¬ session.Restricted (session.named q)
  linked : ¬ session.Unlinked q → ∃ l, session.Leads q l ∧ session.Inside l ∧ ¬ session.Restricted l

structure ConfigInPlace (q : Chars) : Prop where
  unlinked : session.Unlinked q → DirsAbove session.fs (session.named q) → ¬ session.Restricted (session.named q)
  linked : ¬ session.Unlinked q → ∀ l, session.Leads q l → ¬ session.Restricted l

variable {session}

theorem leads_unique {path : Chars} {l l' : Loc} (h : session.Leads path l) (h' : session.Leads path l') : l = l' := by
  obtain ⟨links, h⟩ := h
  obtain ⟨links', h'⟩ := h'
  rw [h] at h'
  exact congrArg Prod.fst (Except.ok.inj h')

theorem reportInPlace_iff {q : Chars} : session.ReportInPlace q ↔
    (∃ l, session.Leads q l ∧ session.Inside l) ∧ ∀ l, session.Leads q l → ¬ session.Restricted l := by
  constructor
  · intro h
    have hleads : ∃ l, session.Leads q l ∧ session.Inside l ∧ ¬ session.Restricted l := by
      by_cases hlinks : session.Unlinked q
      · obtain ⟨hdirs, hinside, hrestricted⟩ := h.unlinked hlinks
        exact ⟨_, (leads_unlinked hlinks).mpr ⟨rfl, hdirs⟩, hinside, hrestricted⟩
      · exact h.linked hlinks
    obtain ⟨l, hl, hinside, hrestricted⟩ := hleads
    exact ⟨⟨l, hl, hinside⟩, fun l' hl' => leads_unique hl hl' ▸ hrestricted⟩
  · intro h
    obtain ⟨⟨l, hl, hinside⟩, hrestricted⟩ := h
    refine ⟨fun hlinks => ?_, fun _ => ⟨l, hl, hinside, hrestricted l hl⟩⟩
    obtain ⟨rfl, hdirs⟩ := (leads_unlinked hlinks).mp hl
    exact ⟨hdirs, hinside, hrestricted _ hl⟩

theorem configInPlace_iff {q : Chars} : session.ConfigInPlace q ↔ ∀ l, session.Leads q l → ¬ session.Restricted l := by
  constructor
  · intro h l hl
    by_cases hlinks : session.Unlinked q
    · obtain ⟨rfl, hdirs⟩ := (leads_unlinked hlinks).mp hl
      exact h.unlinked hlinks hdirs
    · exact h.linked hlinks l hl
  · exact fun h => ⟨fun hlinks hdirs => h _ ((leads_unlinked hlinks).mpr ⟨rfl, hdirs⟩), fun _ => h⟩

/-- The guards judge the file exactly when what their tests of the text admit is in its place. -/
theorem judgesFile_iff (session : Session) (path : Chars) : session.JudgesFile path ↔
    ∀ q, session.expandHome path = .ok q →
      (validateIpcString path "output_path".toList = .ok () → session.acceptsOutput q = true → session.ReportInPlace q) ∧
      (validateIpcString path "config_path".toList = .ok () → session.acceptsConfig q = true → session.ConfigInPlace q) := by
  constructor
  · intro h q hq
    constructor
    · intro hipc haccepts
      have hok := validateOutputPath_ok.mpr ⟨hipc, hq, haccepts⟩
      exact reportInPlace_iff.mpr ⟨h.inside q hok, h.unrestricted q (.inl hok)⟩
    · intro hipc haccepts
      exact configInPlace_iff.mpr (h.unrestricted q (.inr (validateUserConfigPath_ok.mpr ⟨hipc, hq, haccepts⟩)))
  · intro h
    constructor
    · intro q hok
      obtain ⟨hipc, hq, haccepts⟩ := validateOutputPath_ok.mp hok
      exact (reportInPlace_iff.mp ((h q hq).1 hipc haccepts)).1
    · intro q hok
      rcases hok with hok | hok
      · obtain ⟨hipc, hq, haccepts⟩ := validateOutputPath_ok.mp hok
        exact (reportInPlace_iff.mp ((h q hq).1 hipc haccepts)).2
      · obtain ⟨hipc, hq, haccepts⟩ := validateUserConfigPath_ok.mp hok
        exact configInPlace_iff.mp ((h q hq).2 hipc haccepts)

/-! ## Paths as they are spelled -/

theorem render_isPrefix {a b : Loc} (ha : a ≠ []) (h : a <+: b) : (render a).toList <+: (render b).toList := by
  obtain ⟨t, rfl⟩ := h
  rw [render_toList ha, render_toList (List.append_ne_nil_of_left_ne_nil ha t), List.flatMap_append]
  exact List.prefix_append _ _

theorem render_slash_isPrefix {a b : Loc} (ha : a ≠ []) (h : a <+: b) (hne : a ≠ b) : (render a).toList ++ ['/'] <+: (render b).toList := by
  obtain ⟨t, rfl⟩ := h
  cases t with
  | nil => exact absurd (List.append_nil a).symm hne
  | cons n t =>
    rw [render_toList ha, render_toList (List.append_ne_nil_of_left_ne_nil ha _), List.flatMap_append, List.flatMap_cons]
    exact (List.prefix_append_right_inj _).mpr ⟨_, rfl⟩

theorem render_append {a b : Loc} (ha : a ≠ []) (hb : b ≠ []) : (render (a ++ b)).toList = (render a).toList ++ (render b).toList := by
  rw [render_toList ha, render_toList hb, render_toList (List.append_ne_nil_of_left_ne_nil ha b), List.flatMap_append]

theorem kernelDirs_text : ∀ d ∈ kernelDirs, d ≠ [] ∧ (render d).toList ++ ['/'] ∈ dangerousPrefixes := by decide

theorem accountFiles_text : ∀ l ∈ accountFiles, (render l).toList ∈ dangerousPaths := by decide

theorem dotfiles_text : ∀ d ∈ dotfiles, d ≠ [] ∧ ∃ dotfile ∈ dangerousDotfiles, (render d).toList = '/' :: dotfile := by decide

/-- A location whose own spelling passes is not restricted, where the user's home is spelled as it is. -/
theorem not_restricted_of_spelled {l h : Loc} (hl : session.isDangerousPath (render l).toList = false) (hh : h ≠ [])
    (hhome : ∀ home, session.home = some home → home = (render h).toList ∧ ∀ h', session.Leads home h' → h' = h) :
    ¬ session.Restricted l := by
  unfold isDangerousPath at hl
  rw [Bool.or_eq_false_iff, Bool.or_eq_false_iff] at hl
  obtain ⟨⟨hprefixes, hpaths⟩, hdotfiles⟩ := hl
  intro hrestricted
  rcases hrestricted with ⟨d, hd, hbelow, hne⟩ | hfile | ⟨home, hsome, h', hleads, d, hd, hbelow⟩
  · obtain ⟨hnil, htext⟩ := kernelDirs_text d hd
    rw [List.any_eq_false] at hprefixes
    exact hprefixes _ htext (List.isPrefixOf_iff_prefix.mpr (render_slash_isPrefix hnil hbelow hne))
  · have hmem := accountFiles_text l hfile
    rw [← List.contains_iff_mem, hpaths] at hmem
    cases hmem
  · obtain ⟨rfl, hunique⟩ := hhome home hsome
    obtain rfl := hunique h' hleads
    obtain ⟨hnil, dotfile, hdotfile, htext⟩ := dotfiles_text d hd
    have hstart := render_isPrefix (List.append_ne_nil_of_left_ne_nil hh d) hbelow
    rw [render_append hh hnil, htext] at hstart
    rw [hsome, Option.any_some, List.any_eq_false] at hdotfiles
    exact hdotfiles dotfile hdotfile (List.isPrefixOf_iff_prefix.mpr hstart)

theorem not_dangerous_of_output {q : Chars} (h : session.acceptsOutput q = true) : session.isDangerousPath q = false := by
  unfold acceptsOutput at h
  rw [Bool.and_eq_true, Bool.and_eq_true, Bool.not_eq_true'] at h
  exact h.1.2

theorem not_dangerous_of_config {q : Chars} (h : session.acceptsConfig q = true) : session.isDangerousPath q = false := by
  unfold acceptsConfig at h
  rw [Bool.and_eq_true, Bool.and_eq_true, Bool.not_eq_true'] at h
  exact h.1.2

/-- The guards judge the file of a path that has no link on its way, spells its location as the
kernel would, and names a report in a directory that is there. -/
theorem judgesFile_of_spelled {path : Chars} {h : Loc} (hh : h ≠ [])
    (hhome : ∀ home, session.home = some home → home = (render h).toList ∧ ∀ h', session.Leads home h' → h' = h)
    (hspelled : ∀ q, session.expandHome path = .ok q → session.Unlinked q ∧ (render (session.named q)).toList = q)
    (hreport : ∀ q, session.expandHome path = .ok q → session.acceptsOutput q = true →
      DirsAbove session.fs (session.named q) ∧ session.Inside (session.named q)) : session.JudgesFile path := by
  rw [judgesFile_iff]
  intro q hq
  obtain ⟨hlinks, htext⟩ := hspelled q hq
  constructor
  · intro _ haccepts
    obtain ⟨hdirs, hinside⟩ := hreport q hq haccepts
    have hsafe := not_dangerous_of_output haccepts
    rw [← htext] at hsafe
    exact ⟨fun _ => ⟨hdirs, hinside, not_restricted_of_spelled hsafe hh hhome⟩, fun hnot => absurd hlinks hnot⟩
  · intro _ haccepts
    have hsafe := not_dangerous_of_config haccepts
    rw [← htext] at hsafe
    exact ⟨fun _ _ => not_restricted_of_spelled hsafe hh hhome, fun hnot => absurd hlinks hnot⟩

end Session

/-! ## A link in the report's place -/

/-- Somebody has put a link to the shadow file where the report is to go. -/
def linkedTree : Tree where
  root := ⟨0o755, 0, 0⟩
  entries := [([⟨"tmp", by decide⟩], .dir ⟨0o1777, 0, 0⟩), ([⟨"tmp", by decide⟩, ⟨"report.csv", by decide⟩], .link "/etc/shadow" 1000 1000),
    ([⟨"etc", by decide⟩], .dir ⟨0o755, 0, 0⟩), ([⟨"etc", by decide⟩, ⟨"shadow", by decide⟩], .file (.text "") ⟨0o640, 0, 42⟩)]

def linkedSession : Session where
  fs := linkedTree
  cwd := []
  cwd_above := dirsAbove_nil _
  cwd_dir := ⟨_, linkedTree.get_root⟩
  home := some "/home/lan".toList
  documentDir := none
  downloadDir := none

theorem linked_report : ¬ linkedSession.JudgesFile "/tmp/report.csv".toList := by
  intro h
  have haccepts : linkedSession.validateOutputPath "/tmp/report.csv".toList = .ok "/tmp/report.csv".toList := by decide
  have hleads : linkedSession.Leads "/tmp/report.csv".toList [⟨"etc", by decide⟩, ⟨"shadow", by decide⟩] := ⟨39, by decide⟩
  exact h.unrestricted _ (.inl haccepts) _ hleads (.inr (.inl (by decide)))

end LinuxHardener.Desktop
